import PrologTokens.Json.Record
import PrologTokens.Proofs.Json.Scalar

/-!
# How far readers read

Readers only go forward: what is left of the input is never longer than the input. A string takes
at least one character of the input for each of its own and one for a quotation mark, so strings
are shorter than the document that they come from.
-/

set_option autoImplicit false

namespace PrologTokens.Json

/-! ## Strings and numbers -/

theorem length_skipBlanks_le (input : Input) : (Read.skipBlanks input).length ≤ input.length :=
  (List.dropWhile_suffix _).length_le

/-- Where the reader goes on after blanks and one sign. -/
theorem length_of_skipBlanks {input rest : Input} {c : Option Char}
    (h : Read.skipBlanks input = c :: rest) : rest.length < input.length := by
  have hle := length_skipBlanks_le input
  rw [h, List.length_cons] at hle
  omega

/-- A string takes up more characters than it has. -/
theorem length_textBody {input rest : Input} {text : List Char}
    (h : Read.textBody input = .ok (text, rest)) : text.length + rest.length < input.length := by
  have hstep : ∀ {x : Except Fault (List Char × Input)} {c : Char} {text : List Char}
      {rest : Input}, (x >>= fun read => pure (c :: read.1, read.2)) = .ok (text, rest) →
        ∃ more, x = .ok (more, rest) ∧ text = c :: more := by
    intro x c text rest h
    obtain ⟨⟨more, rest'⟩, hx, hread⟩ := bind_eq_ok.mp h
    simp only [pure_eq_ok, Except.ok.injEq, Prod.mk.injEq] at hread
    obtain ⟨rfl, rfl⟩ := hread
    exact ⟨more, hx, rfl⟩
  fun_induction Read.textBody input generalizing text rest
  any_goals cases h
  case case3 => simp
  all_goals
    rename_i ih
    obtain ⟨more, hmore, rfl⟩ := hstep h
    have := ih hmore
    simp only [List.length_cons]
    omega

theorem length_text {input rest : Input} {s : String}
    (h : Read.text input = .ok (s, rest)) : s.toList.length + rest.length < input.length := by
  unfold Read.text at h
  split at h
  · rename_i hquote
    have := length_of_skipBlanks hquote
    obtain ⟨⟨text, rest'⟩, hbody, h⟩ := bind_eq_ok.mp h
    have := length_textBody hbody
    cases h
    simp only [String.toList_ofList]
    omega
  · obtain ⟨_, _, h⟩ := bind_eq_ok.mp h
    cases h

theorem length_skipText {input rest : Input} (h : Read.skipText input = .ok rest) :
    rest.length < input.length := by
  fun_induction Read.skipText input generalizing rest
  any_goals cases h
  case case2 => simp
  all_goals
    rename_i ih
    have := ih h
    simp only [List.length_cons]
    omega

theorem length_word {expected : List Char} {input rest : Input}
    (h : Read.word expected input = .ok rest) : rest.length ≤ input.length := by
  fun_induction Read.word expected input generalizing rest
  any_goals cases h
  case case1 => exact Nat.le_refl _
  all_goals
    rename_i ih
    exact Nat.le_succ_of_le (ih h)

theorem length_digits (input : Input) : (Read.digits input).2.length ≤ input.length := by
  fun_induction Read.digits input with
  | case1 c rest hdigit more rest' heq ih =>
    rw [heq] at ih
    exact Nat.le_succ_of_le ih
  | case2 => exact Nat.le_refl _
  | case3 => exact Nat.le_refl _

theorem length_fractionPart {input rest : Input} {ds : List Nat}
    (h : Read.fractionPart input = .ok (ds, rest)) : rest.length ≤ input.length := by
  unfold Read.fractionPart at h
  split at h
  · rename_i behind
    have hdigits := length_digits behind
    split at h
    · cases h
    · rename_i heq
      rw [heq] at hdigits
      cases h
      exact Nat.le_succ_of_le hdigits
  · cases h
    exact Nat.le_refl _

theorem length_exponentPart {input rest : Input} {exponent : Option (Bool × List Nat)}
    (h : Read.exponentPart input = .ok (exponent, rest)) : rest.length ≤ input.length := by
  unfold Read.exponentPart at h
  split at h
  · rename_i c behind
    split at h
    · -- The sign of the exponent takes a character or none.
      split at h
      rename_i behind' hsign
      have hle : behind'.length ≤ behind.length := by
        split at hsign <;> cases hsign <;> simp
      have hdigits := length_digits behind'
      split at h
      · cases h
      · rename_i heq
        simp only [heq] at hdigits
        cases h
        exact Nat.le_succ_of_le (Nat.le_trans hdigits hle)
    · cases h
      exact Nat.le_refl _
  · cases h
    exact Nat.le_refl _

theorem length_numeral {input rest : Input} {n : Read.Numeral}
    (h : Read.numeral input = .ok (n, rest)) : rest.length ≤ input.length := by
  have hdigits := length_digits input
  unfold Read.numeral at h
  split at h
  · cases h
  · cases h
  · rename_i heq
    simp only [heq] at hdigits
    obtain ⟨⟨fraction, rest₁⟩, hfraction, h⟩ := bind_eq_ok.mp h
    obtain ⟨⟨exponent, rest₂⟩, hexponent, h⟩ := bind_eq_ok.mp h
    have := length_fractionPart hfraction
    have := length_exponentPart hexponent
    cases h
    omega

/-! ## Values that are skipped -/

theorem length_skipScalar {c : Char} {input rest : Input}
    (h : Read.skipScalar c input = .ok rest) : rest.length ≤ input.length + 1 := by
  unfold Read.skipScalar at h
  split at h
  · exact Nat.le_succ_of_le (length_word h)
  split at h
  · exact Nat.le_succ_of_le (length_word h)
  split at h
  · exact Nat.le_succ_of_le (length_word h)
  split at h
  · exact Nat.le_succ_of_le (Nat.le_of_lt (length_skipText h))
  split at h
  · obtain ⟨⟨n, rest'⟩, hn, rfl⟩ := map_eq_ok.mp h
    exact Nat.le_succ_of_le (length_numeral hn)
  split at h
  · obtain ⟨⟨n, rest'⟩, hn, rfl⟩ := map_eq_ok.mp h
    exact length_numeral hn
  · cases h

/-- What the reader leaves is never longer than what it is given. -/
def GoesForward (read : Input → Except Fault Input) : Prop :=
  ∀ {input rest : Input}, read input = .ok rest → rest.length ≤ input.length

section Skipping

variable {fuel : Nat}

theorem skipValue_goesForward (hitems : GoesForward (Read.skipItems fuel))
    (hmembers : GoesForward (Read.skipMembers fuel)) :
    GoesForward (Read.skipValue (fuel + 1)) := by
  intro input rest h
  unfold Read.skipValue at h
  split at h
  · rename_i behind hopen
    have := length_of_skipBlanks hopen
    have := length_skipBlanks_le behind
    split at h
    · rename_i hclose
      have := length_of_skipBlanks hclose
      cases h
      omega
    · have := hitems h
      omega
  · rename_i behind hopen
    have := length_of_skipBlanks hopen
    have := length_skipBlanks_le behind
    split at h
    · rename_i hclose
      have := length_of_skipBlanks hclose
      cases h
      omega
    · have := hmembers h
      omega
  · rename_i hopen
    have := length_of_skipBlanks hopen
    have := length_skipScalar h
    omega
  · cases h

theorem skipItems_goesForward (hvalue : GoesForward (Read.skipValue fuel))
    (hitems : GoesForward (Read.skipItems fuel)) : GoesForward (Read.skipItems (fuel + 1)) := by
  intro input rest h
  unfold Read.skipItems at h
  obtain ⟨behind, hbehind, h⟩ := bind_eq_ok.mp h
  have := hvalue hbehind
  split at h
  · rename_i hcomma
    have := length_of_skipBlanks hcomma
    have := hitems h
    omega
  · rename_i hclose
    have := length_of_skipBlanks hclose
    cases h
    omega
  · cases h

theorem skipMembers_goesForward (hvalue : GoesForward (Read.skipValue fuel))
    (hmembers : GoesForward (Read.skipMembers fuel)) :
    GoesForward (Read.skipMembers (fuel + 1)) := by
  intro input rest h
  unfold Read.skipMembers at h
  split at h
  · rename_i hquote
    have := length_of_skipBlanks hquote
    obtain ⟨behind, hname, h⟩ := bind_eq_ok.mp h
    have := length_skipText hname
    split at h
    · rename_i hcolon
      have := length_of_skipBlanks hcolon
      obtain ⟨behind', hbehind', h⟩ := bind_eq_ok.mp h
      have := hvalue hbehind'
      split at h
      · rename_i hcomma
        have := length_of_skipBlanks hcomma
        have := hmembers h
        omega
      · rename_i hclose
        have := length_of_skipBlanks hclose
        cases h
        omega
      · cases h
    · cases h
  · cases h

/-- The three readers that skip values call one another, each with less fuel than it has. -/
theorem skipping_goesForward (fuel : Nat) :
    GoesForward (Read.skipValue fuel) ∧ GoesForward (Read.skipItems fuel) ∧
      GoesForward (Read.skipMembers fuel) := by
  induction fuel with
  | zero =>
    refine ⟨?_, ?_, ?_⟩ <;> intro input rest h
    · unfold Read.skipValue at h
      cases h
    · unfold Read.skipItems at h
      cases h
    · unfold Read.skipMembers at h
      cases h
  | succ fuel ih =>
    obtain ⟨hvalue, hitems, hmembers⟩ := ih
    exact ⟨skipValue_goesForward hitems hmembers, skipItems_goesForward hvalue hitems,
      skipMembers_goesForward hvalue hmembers⟩

end Skipping

theorem length_skip {input rest : Input} (h : Read.skip input = .ok rest) :
    rest.length ≤ input.length :=
  (skipping_goesForward _).1 h

theorem length_colon {input rest : Input} (h : Read.colon input = .ok rest) :
    rest.length < input.length := by
  unfold Read.colon at h
  split at h
  · rename_i hcolon
    cases h
    exact length_of_skipBlanks hcolon
  · cases h

/-! ## Records

What holds of a record before any field is given, and is kept by every field that is read from an
input of at most the given length, holds of the record in the end. -/

/-- The field goes forward, and the changes that it reads from short inputs keep the property. -/
def Field.Keeps {α : Type} (field : Field α) (P : α → Prop) (bound : Nat) : Prop :=
  ∀ input change rest, input.length ≤ bound → field.read input = .ok (change, rest) →
    rest.length ≤ input.length ∧ ∀ value, P value → P (change value)

namespace Shape

variable {α : Type} {shape : Shape α} {P : α → Prop} {bound : Nat}
  (hfields : ∀ field ∈ shape.fields, field.Keeps P bound)
include hfields

theorem member_keeps {draft draft' : Draft α} {input rest : Input} (hdraft : P draft.value)
    (hinput : input.length ≤ bound) (h : shape.member draft input = .ok (draft', rest)) :
    P draft'.value ∧ rest.length ≤ input.length := by
  unfold member at h
  obtain ⟨⟨name, behind⟩, hname, h⟩ := bind_eq_ok.mp h
  have := length_textBody hname
  simp only at h
  split at h
  · obtain ⟨rest₁, hcolon, h⟩ := bind_eq_ok.mp h
    obtain ⟨rest₂, hskip, h⟩ := bind_eq_ok.mp h
    have := length_colon hcolon
    have := length_skip hskip
    cases h
    exact ⟨hdraft, by omega⟩
  · rename_i field hfield
    split at h
    · cases h
    · obtain ⟨rest₁, hcolon, h⟩ := bind_eq_ok.mp h
      obtain ⟨⟨change, rest₂⟩, hread, h⟩ := bind_eq_ok.mp h
      have := length_colon hcolon
      have hkeeps := hfields field (List.mem_of_find?_eq_some hfield) rest₁ change rest₂
        (by omega) (mapError_eq_ok.mp hread)
      have hrest : rest₂.length ≤ input.length := by omega
      cases h
      exact ⟨hkeeps.2 _ hdraft, hrest⟩

theorem members_keeps (fuel : Nat) :
    ∀ {draft draft' : Draft α} {input rest : Input}, P draft.value → input.length ≤ bound →
      shape.members fuel draft input = .ok (draft', rest) → P draft'.value := by
  induction fuel with
  | zero =>
    intro draft draft' input rest _ _ h
    unfold members at h
    cases h
  | succ fuel ih =>
    intro draft draft' input rest hdraft hinput h
    unfold members at h
    split at h
    · rename_i hquote
      have := length_of_skipBlanks hquote
      obtain ⟨⟨draft₁, rest₁⟩, hmember, h⟩ := bind_eq_ok.mp h
      obtain ⟨hdraft₁, hrest₁⟩ := member_keeps hfields hdraft (by omega) hmember
      simp only at h
      split at h
      · rename_i hcomma
        have := length_of_skipBlanks hcomma
        exact ih hdraft₁ (by omega) h
      · cases h
        exact hdraft₁
      · cases h
    · cases h

theorem elements_keeps {fields : List (Field α)} (hsub : fields ⊆ shape.fields) :
    ∀ {index : Nat} {value value' : α} {input rest : Input}, P value → input.length ≤ bound →
      shape.elements fields index value input = .ok (value', rest) → P value' := by
  induction fields with
  | nil =>
    intro index value value' input rest hvalue _ h
    unfold elements at h
    split at h
    · cases h
      exact hvalue
    · cases h
  | cons field fields ih =>
    intro index value value' input rest hvalue hinput h
    unfold elements at h
    split at h
    · unfold ended at h
      split at h
      · cases h
      · cases h
        exact hvalue
    · rename_i behind hcomma
      have := length_of_skipBlanks hcomma
      have := length_skipBlanks_le behind
      split at h
      · cases h
      · obtain ⟨⟨change, rest₁⟩, hread, h⟩ := bind_eq_ok.mp h
        have hkeeps := hfields field (hsub List.mem_cons_self) _ change rest₁ (by omega)
          (mapError_eq_ok.mp hread)
        exact ih (fun f hf => hsub (List.mem_cons_of_mem field hf)) (hkeeps.2 _ hvalue)
          (by omega) h
    · cases h

theorem object_keeps (hblank : P shape.blank) {input rest : Input} {value : α}
    (hinput : input.length ≤ bound) (h : shape.object input = .ok (value, rest)) : P value := by
  unfold object at h
  split at h
  · simp only [pure_eq_ok, ok_bind] at h
    split at h
    · cases h
    · cases h
      exact hblank
  · obtain ⟨⟨draft, behind⟩, hdraft, h⟩ := bind_eq_ok.mp h
    have hle := Nat.le_trans (length_skipBlanks_le input) hinput
    have hvalue := members_keeps hfields _ hblank hle hdraft
    simp only at h
    split at h
    · cases h
    · cases h
      exact hvalue

theorem array_keeps (hblank : P shape.blank) {input rest : Input} {value : α}
    (hinput : input.length ≤ bound) (h : shape.array input = .ok (value, rest)) : P value := by
  unfold array at h
  split at h
  · exact elements_keeps hfields (List.nil_subset _) hblank hinput h
  · rename_i field fields heq
    have hsub : field :: fields ⊆ shape.fields := heq ▸ List.Subset.refl _
    split at h
    · unfold ended at h
      split at h
      · cases h
      · cases h
        exact hblank
    · obtain ⟨⟨change, rest₁⟩, hread, h⟩ := bind_eq_ok.mp h
      have := length_skipBlanks_le input
      have hkeeps := hfields field (hsub List.mem_cons_self) _ change rest₁ (by omega)
        (mapError_eq_ok.mp hread)
      exact elements_keeps hfields (fun f hf => hsub (List.mem_cons_of_mem field hf))
        (hkeeps.2 _ hblank) (by omega) h

theorem read_keeps (hblank : P shape.blank) {input rest : Input} {value : α}
    (hinput : input.length ≤ bound) (h : shape.read input = .ok (value, rest)) : P value := by
  unfold read at h
  split at h
  · rename_i hopen
    have := length_of_skipBlanks hopen
    exact object_keeps hfields hblank (by omega) h
  · rename_i hopen
    have := length_of_skipBlanks hopen
    exact array_keeps hfields hblank (by omega) h
  · obtain ⟨_, _, h⟩ := bind_eq_ok.mp h
    cases h

end Shape
end PrologTokens.Json
