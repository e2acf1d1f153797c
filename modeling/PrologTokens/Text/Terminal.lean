/-!
# Text without its terminal commands

A text that comes from outside can hold characters that steer a terminal: sequences that start with
the escape character, and single control characters. What is written about refused arguments leaves
them out: `visible` keeps the characters that a terminal shows, and the white space among the
control characters.

A sequence is followed by a small automaton. White space inside a sequence that a terminal would
obey at once is kept, and so is everything visible right behind it; the sequence goes on only after
that.
-/

set_option autoImplicit false

namespace PrologTokens.Text.Terminal

/-- Where in a command for the terminal a text stands. -/
inductive State where
  /-- In no command. -/
  | ground
  /-- Behind the escape character. -/
  | escape
  /-- In a short command that has more than one character. -/
  | escapeIntermediate
  /-- At the start of a control sequence. -/
  | controlEntry
  /-- In the parameters of a control sequence. -/
  | controlParameter
  /-- Behind the parameters of a control sequence. -/
  | controlIntermediate
  /-- In a malformed control sequence. -/
  | controlIgnore
  /-- At the start of a device control string. -/
  | deviceEntry
  /-- In the parameters of a device control string. -/
  | deviceParameter
  /-- Behind the parameters of a device control string. -/
  | deviceIntermediate
  /-- In the data of a device control string, well-formed or not. -/
  | deviceData
  /-- In a command for the operating system. -/
  | systemCommand
  /-- In a string that terminals skip. -/
  | skippedString
  deriving DecidableEq, Repr, Inhabited

/-- The control characters that are white space. -/
def isSpacing (c : Char) : Bool := ['\t', '\n', '\x0c', '\r'].contains c

/-- Whether a character shows outside of commands. -/
def isVisible (c : Char) : Bool := (' ' ≤ c && c ≠ '\x7f') || isSpacing c

/-- Whether the byte that ends a string occurs in the encoding of a character. -/
def holdsTerminator (c : Char) : Bool := (String.utf8EncodeChar c).contains 0x9c

/-- The characters between the parameters of a command and its last character. -/
def isIntermediate (c : Char) : Bool := ' ' ≤ c && c ≤ '/'

/-- The characters of parameters, private ones included. -/
def isParameter (c : Char) : Bool := '0' ≤ c && c ≤ '?'

/-- The characters of parameters that may stand behind others. -/
def isPlainParameter (c : Char) : Bool := '0' ≤ c && c ≤ ';'

/-- The characters that end a control sequence. -/
def isFinal (c : Char) : Bool := '@' ≤ c && c ≤ '~'

namespace State

/-- The state behind an escape character and the given one. -/
def afterEscape (c : Char) : State :=
  if isIntermediate c then escapeIntermediate
  else if c = '[' then controlEntry
  else if c = ']' then systemCommand
  else if c = 'P' then deviceEntry
  else if c = 'X' || c = '^' || c = '_' then skippedString
  else if isParameter c || isFinal c then ground
  else escape

/-- The state behind a character. -/
def next (state : State) (c : Char) : State :=
  if c = '\x18' || c = '\x1a' then ground
  else if c = '\x1b' then escape
  else
    match state with
    | ground => ground
    | escape => afterEscape c
    | escapeIntermediate => if isParameter c || isFinal c then ground else escapeIntermediate
    | controlEntry =>
      if isIntermediate c then controlIntermediate
      else if isParameter c then controlParameter
      else if isFinal c then ground
      else controlEntry
    | controlParameter =>
      if isIntermediate c then controlIntermediate
      else if isPlainParameter c then controlParameter
      else if isParameter c then controlIgnore
      else if isFinal c then ground
      else controlParameter
    | controlIntermediate =>
      if isParameter c then controlIgnore
      else if isFinal c then ground
      else controlIntermediate
    | controlIgnore => if isFinal c then ground else controlIgnore
    | deviceEntry =>
      if isIntermediate c then deviceIntermediate
      else if isParameter c then deviceParameter
      else if isFinal c then deviceData
      else deviceEntry
    | deviceParameter =>
      if isIntermediate c then deviceIntermediate
      else if isPlainParameter c then deviceParameter
      else if isParameter c || isFinal c then deviceData
      else deviceParameter
    | deviceIntermediate =>
      if isParameter c || isFinal c then deviceData else deviceIntermediate
    | deviceData => if holdsTerminator c then ground else deviceData
    | systemCommand => if c = '\x07' then ground else systemCommand
    | skippedString => if holdsTerminator c then ground else skippedString

/-- Whether a character shows in a state. Inside short commands and control sequences white space
does. -/
def shows : State → Char → Bool
  | ground, c => isVisible c
  | escape, c | escapeIntermediate, c | controlEntry, c | controlParameter, c
  | controlIntermediate, c | controlIgnore, c => isSpacing c
  | _, _ => false

end State

/-- Leaves the commands out, given the state and whether the character before was shown. Behind a
shown character every visible one shows, and one outside of ASCII ends the open command. -/
def strip : State → (shown : Bool) → List Char → List Char
  | _, _, [] => []
  | state, shown, c :: text =>
    if shown && isVisible c then
      c :: strip (if c.toNat < 0x80 then state else .ground) true text
    else if state.shows c then c :: strip (state.next c) true text
    else strip (state.next c) false text

/-- The text without the commands for a terminal. -/
def visible (text : String) : String := String.ofList (strip .ground false text.toList)

/-! ## What is kept -/

/-- What shows in some state shows outside of commands as well. -/
theorem State.isVisible_of_shows {state : State} {c : Char} (h : state.shows c = true) :
    isVisible c = true := by
  cases state <;> simp_all [State.shows, isVisible]

/-- Only visible characters are kept. -/
theorem isVisible_of_mem_strip {state : State} {shown : Bool} {text : List Char} {c : Char}
    (h : c ∈ strip state shown text) : isVisible c = true := by
  induction text generalizing state shown with
  | nil => simp [strip] at h
  | cons d text ih =>
    rw [strip] at h
    split at h
    · rename_i hd
      rcases List.mem_cons.1 h with rfl | h
      · exact (Bool.and_eq_true_iff.1 hd).2
      · exact ih h
    · split at h
      · rename_i hd
        rcases List.mem_cons.1 h with rfl | h
        · exact State.isVisible_of_shows hd
        · exact ih h
      · exact ih h

/-- A text of visible characters is kept whole. -/
theorem strip_eq_self {shown : Bool} {text : List Char} (h : ∀ c ∈ text, isVisible c = true) :
    strip .ground shown text = text := by
  induction text generalizing shown with
  | nil => rfl
  | cons c text ih =>
    have hc : isVisible c = true := h c (by simp)
    have htext := fun d hd => h d (List.mem_cons_of_mem c hd)
    have hnext : State.next .ground c = .ground := by
      have : c ≠ '\x1b' := by rintro rfl; revert hc; decide
      simp [State.next, this]
    rw [strip]
    cases shown <;> simp [State.shows, hc, hnext, ih htext]

end PrologTokens.Text.Terminal
