import PrologTokens.Proofs.Pattern.NormalForm
import PrologTokens.Proofs.Pattern.Places

/-!
# Written patterns as trees

How a written pattern is taken apart is a matter of its symbols: a choice is a row of
alternatives with bars between them, an alternative is a row of parts, and a part is a set, a
condition on a place, a choice in a group, or a part with a repetition behind it. `Written` are
the trees of this grammar, `symbols` gives what is written for a tree, and `Spans` says which
spans of a line a tree describes, without any order of preference and any search.

The symbols of a text are put together with a stack of open groups. Every text that is read in
this way is written for some tree (`exists_isWrittenAs`), and whatever tree it is written for,
the pattern that is read describes the same spans as the tree (`describes_iff_spans`).
-/

set_option autoImplicit false

namespace PrologTokens.Pattern

/-- The kinds of trees. -/
inductive Kind where
  /-- One or more alternatives. -/
  | choice
  /-- Any number of parts, one behind the other. -/
  | row
  /-- A part that can be repeated. -/
  | part
  deriving DecidableEq, Repr, Inhabited

/-- A written pattern, or a piece of one. -/
inductive Written : Kind → Type where
  /-- A single alternative. -/
  | only (row : Written .row) : Written .choice
  /-- One alternative, or else one of the others. -/
  | either (row : Written .row) (others : Written .choice) : Written .choice
  /-- No part at all. -/
  | nothing : Written .row
  /-- Parts with one more behind them. -/
  | followed (row : Written .row) (part : Written .part) : Written .row
  /-- One character of a set, written in the given number of levels. -/
  | chars (set : CharSet) (depth : Nat) : Written .part
  /-- A condition on a place, written in the given number of levels. -/
  | anchor (anchor : Anchor) (depth : Nat) : Written .part
  /-- A choice in a group. -/
  | group (kind : GroupKind) (choice : Written .choice) : Written .part
  /-- A part and a repetition of it. -/
  | times (least : Nat) (most : Option Nat) (greedy : Bool) (part : Written .part) : Written .part

namespace Written

/-- The symbols that are written for a tree. -/
def symbols : {kind : Kind} → Written kind → List Symbol
  | _, only row => row.symbols
  | _, either row others => row.symbols ++ .bar :: others.symbols
  | _, nothing => []
  | _, followed row part => row.symbols ++ part.symbols
  | _, chars set depth => [.chars set depth]
  | _, anchor a depth => [.anchor a depth]
  | _, group kind choice => .openGroup kind :: (choice.symbols ++ [.closeGroup])
  | _, times least most greedy part => part.symbols ++ [.times least most greedy]

/-- The tree describes the characters between two positions of a line. -/
def Spans (text : List Char) : {kind : Kind} → Written kind → (start stop : Nat) → Prop
  | _, only row, start, stop => row.Spans text start stop
  | _, either row others, start, stop => row.Spans text start stop ∨ others.Spans text start stop
  | _, nothing, start, stop => stop = start ∧ start ≤ text.length
  | _, followed row part, start, stop =>
    ∃ middle, row.Spans text start middle ∧ part.Spans text middle stop
  | _, chars set _, start, stop =>
    stop = start + 1 ∧ ∃ x, text[start]? = some x ∧ set.contains x = true
  | _, anchor a _, start, stop => stop = start ∧ start ≤ text.length ∧ a.HoldsAt text start
  | _, group _ choice, start, stop => choice.Spans text start stop
  | _, times least most _ part, start, stop =>
    ∃ count, InBounds least most count ∧ Repeats text (part.Spans text) count start stop

/-- All symbols of the tree are valid. -/
def Valid {kind : Kind} (written : Written kind) : Prop := ∀ symbol ∈ written.symbols, symbol.Valid

/-! ## From symbols to trees -/

/-- The symbols in front of an alternative, with the given number of groups still open. -/
inductive Ahead : (groups : Nat) → List Symbol → Prop where
  /-- Nothing is in front. -/
  | start : Ahead 0 []
  /-- An alternative and a bar are in front. -/
  | bar {groups : Nat} {before : List Symbol} (ahead : Ahead groups before) (row : Written .row) :
      Ahead groups (before ++ row.symbols ++ [.bar])
  /-- Parts of an alternative and the start of a group are in front. -/
  | openGroup {groups : Nat} {before : List Symbol} (ahead : Ahead groups before)
      (row : Written .row) (kind : GroupKind) :
      Ahead (groups + 1) (before ++ row.symbols ++ [.openGroup kind])

/-- Where no group is open, the alternatives in front and those behind are one choice. -/
theorem Ahead.exists_choice {before : List Symbol} (h : Ahead 0 before) (choice : Written .choice) :
    ∃ whole : Written .choice, whole.symbols = before ++ choice.symbols := by
  generalize hgroups : 0 = groups at h
  induction h generalizing choice with
  | start => exact ⟨choice, rfl⟩
  | bar _ row ih =>
    obtain ⟨whole, hwhole⟩ := ih (either row choice) hgroups
    exact ⟨whole, by rw [hwhole, symbols]; simp⟩
  | openGroup => cases hgroups

/-- Where a group is open, the alternatives behind its start are closed to one more part. -/
theorem Ahead.exists_group {groups : Nat} {before : List Symbol} (h : Ahead (groups + 1) before)
    (choice : Written .choice) :
    ∃ before' row part, Ahead groups before' ∧
      before' ++ (followed row part).symbols = before ++ choice.symbols ++ [.closeGroup] := by
  generalize hgroups : groups + 1 = groups' at h
  induction h generalizing choice with
  | start => cases hgroups
  | bar _ row ih =>
    obtain ⟨before', row', part, hahead, hsymbols⟩ := ih (either row choice) hgroups
    exact ⟨before', row', part, hahead, by rw [hsymbols, symbols]; simp⟩
  | openGroup hahead row kind =>
    cases hgroups
    exact ⟨_, row, group kind choice, hahead, by simp [symbols]⟩

end Written

open Written

/-- A group of either kind is opened in the same way; only its number is not the same. -/
theorem Frame.build_openGroup (count : Nat) (kind : GroupKind) :
    ∃ count' number, ∀ outer f rest, Frame.build count outer f (.openGroup kind :: rest) =
      Frame.build count' (f :: outer) (.opened number) rest := by
  cases kind with
  | plain => exact ⟨count, none, fun _ _ _ => by rw [build]⟩
  | numbered name => exact ⟨count + 1, some (count + 1), fun _ _ _ => by rw [build]⟩

/-- Symbols that are put together are written for a tree. The induction is over the symbols that
are left; those that have been read are an alternative and what stands in front of it. -/
theorem exists_written_of_build {symbols before : List Symbol} {count : Nat} {outer : List Frame}
    {f : Frame} {part : Part} (row : Written .row) (hahead : Ahead outer.length before)
    (hparts : f.parts ≠ [] → ∃ others last, row = followed others last)
    (h : Frame.build count outer f symbols = .ok part) :
    ∃ whole : Written .choice, whole.symbols = before ++ row.symbols ++ symbols := by
  induction symbols generalizing before count outer f row with
  | nil =>
    cases outer with
    | nil =>
      obtain ⟨whole, hwhole⟩ := hahead.exists_choice (only row)
      exact ⟨whole, by rw [hwhole, Written.symbols, List.append_nil]⟩
    | cons g outer => cases h
  | cons symbol rest ih =>
    -- One more symbol is read: it belongs to the alternative or to what stands in front of it.
    have hread : ∀ {before' : List Symbol} {row' : Written .row},
        before' ++ row'.symbols = before ++ row.symbols ++ [symbol] →
        (∃ whole : Written .choice, whole.symbols = before' ++ row'.symbols ++ rest) →
        ∃ whole : Written .choice, whole.symbols = before ++ row.symbols ++ symbol :: rest := by
      rintro before' row' hsymbols ⟨whole, hwhole⟩
      exact ⟨whole, by rw [hwhole, hsymbols, List.append_assoc, List.singleton_append]⟩
    cases symbol with
    | chars set depth =>
      rw [Frame.build] at h
      refine hread ?_ (ih (followed row (.chars set depth)) hahead (fun _ => ⟨_, _, rfl⟩) h)
      simp [Written.symbols]
    | anchor a depth =>
      rw [Frame.build] at h
      refine hread ?_ (ih (followed row (.anchor a depth)) hahead (fun _ => ⟨_, _, rfl⟩) h)
      simp [Written.symbols]
    | openGroup kind =>
      have hahead' : Ahead (f :: outer).length (before ++ row.symbols ++ [.openGroup kind]) :=
        hahead.openGroup row kind
      obtain ⟨count', number, hopened⟩ := Frame.build_openGroup count kind
      rw [hopened] at h
      refine hread ?_ (ih nothing hahead' (fun hne => absurd rfl hne) h)
      simp [Written.symbols]
    | closeGroup =>
      cases outer with
      | nil => cases h
      | cons g outer =>
        obtain ⟨before', row', last, hahead', hsymbols⟩ := hahead.exists_group (only row)
        exact hread hsymbols (ih (followed row' last) hahead' (fun _ => ⟨_, _, rfl⟩) h)
    | bar =>
      rw [Frame.build] at h
      refine hread ?_ (ih nothing (hahead.bar row) (fun hne => absurd rfl hne) h)
      simp [Written.symbols]
    | times least most greedy =>
      rw [Frame.build, Frame.repeatLast] at h
      cases hlast : f.parts with
      | nil =>
        rw [hlast] at h
        cases h
      | cons p parts =>
        rw [hlast] at h
        obtain ⟨others, last, rfl⟩ := hparts (by rw [hlast]; exact List.cons_ne_nil p parts)
        refine hread ?_ (ih (followed others (last.times least most greedy)) hahead
          (fun _ => ⟨_, _, rfl⟩) h)
        simp [Written.symbols]

/-! ## From trees to normal forms -/

/-- The normal form is valid and describes the spans of the tree. -/
structure Renders (form : Normal) {kind : Kind} (written : Written kind) : Prop where
  valid : form.Valid
  describes : ∀ {text start stop}, form.Describes text start stop ↔ written.Spans text start stop

/-- The normal forms are valid and describe, one behind the other, the spans of the tree. -/
structure RendersRow (forms : List Normal) (row : Written .row) : Prop where
  valid : ∀ form ∈ forms, form.Valid
  follow : ∀ {text start stop},
    Normal.FollowEachOther text forms start stop ↔ row.Spans text start stop

/-- The normal forms are valid and each of them describes spans of the tree, which has no others. -/
structure RendersChoice (forms : List Normal) (choice : Written .choice) : Prop where
  valid : ∀ form ∈ forms, form.Valid
  nonempty : forms ≠ []
  describes : ∀ {text start stop},
    (∃ form ∈ forms, form.Describes text start stop) ↔ choice.Spans text start stop

section Renders

variable {form : Normal} {forms others : List Normal} {row : Written .row} {part : Written .part}
  {choice : Written .choice}

theorem renders_chars {set : CharSet} (hset : set.Proper) (depth : Nat) :
    Renders (.chars set) (Written.chars set depth) :=
  ⟨hset, describes_chars⟩

theorem renders_anchor (a : Anchor) (depth : Nat) :
    Renders (.anchor a) (Written.anchor a depth) := by
  refine ⟨trivial,
    describes_anchor.trans (and_congr_right fun _ => and_congr_right fun hstart => ?_)⟩
  exact Anchor.holds_ofPosition_iff hstart a

theorem Renders.times (h : Renders form part) {least : Nat} {most : Option Nat}
    (hbounds : ∀ bound ∈ most, least ≤ bound) (greedy : Bool) :
    Renders (.repeated least most greedy form) (part.times least most greedy) := by
  refine ⟨Normal.valid_repeated h.valid hbounds, ?_⟩
  intro text start stop
  rw [Normal.describes_repeated h.valid hbounds, Spans]
  simp only [repeats_congr h.describes]

theorem rendersRow_nothing : RendersRow [] nothing :=
  ⟨fun _ hform => absurd hform List.not_mem_nil, Iff.rfl⟩

theorem RendersRow.followed (h : RendersRow forms row) (hpart : Renders form part) :
    RendersRow (forms ++ [form]) (row.followed part) := by
  constructor
  · intro other hother
    rcases List.mem_append.mp hother with hother | hother
    · exact h.valid other hother
    · rw [List.mem_singleton.mp hother]
      exact hpart.valid
  · intro text start stop
    simp only [Normal.followEachOther_append, Normal.followEachOther_singleton, h.follow,
      hpart.describes, Spans]

theorem RendersRow.sequence (h : RendersRow forms row) : Renders (.sequence forms) row :=
  ⟨Normal.valid_sequence h.valid, Normal.describes_sequence.trans h.follow⟩

theorem Renders.only (h : Renders form row) : RendersChoice [form] (only row) := by
  refine ⟨List.forall_mem_singleton.mpr h.valid, List.cons_ne_nil _ _, ?_⟩
  intro text start stop
  simp only [List.mem_singleton, exists_eq_left, h.describes, Spans]

theorem RendersChoice.either (h : RendersChoice others choice) (hrow : Renders form row) :
    RendersChoice (form :: others) (either row choice) := by
  refine ⟨List.forall_mem_cons.mpr ⟨hrow.valid, h.valid⟩, List.cons_ne_nil _ _, ?_⟩
  intro text start stop
  simp only [List.mem_cons, exists_eq_or_imp, hrow.describes, h.describes, Spans]

theorem RendersChoice.oneOf (h : RendersChoice forms choice) : Renders (.oneOf forms) choice := by
  have hchoice := Normal.isChoice_oneOf h.nonempty h.valid
  exact ⟨hchoice.valid, hchoice.describes.trans h.describes⟩

end Renders

/-- The normal forms of the alternatives of a group with the given finished alternatives and the
given parts of the last one. -/
def alternativeForms (alternatives parts : List Part) : List Normal :=
  (Part.sequence parts.reverse :: alternatives).reverse.map Part.form

theorem alternativeForms_append (alternatives parts : List Part) (first : Part) :
    alternativeForms (alternatives ++ [first]) parts =
      first.form :: alternativeForms alternatives parts := by
  simp [alternativeForms]

theorem RendersChoice.close {alternatives parts : List Part} {choice : Written .choice}
    (h : RendersChoice (alternativeForms alternatives parts) choice) (number : Option Nat)
    (kind : GroupKind) :
    Renders (Frame.mk number alternatives parts).close.form (group kind choice) := by
  cases number with
  | none => exact ⟨h.oneOf.valid, h.oneOf.describes⟩
  | some n => exact ⟨h.oneOf.valid, h.oneOf.describes⟩

/-- What is put together from the symbols of a tree, whatever is open around it and behind it: a
part more, the parts of an alternative, or the alternatives of a group. -/
def Builds : {kind : Kind} → Written kind → Prop
  | .part, written => ∀ count, ∃ count' part, Renders part.form written ∧
    ∀ outer f rest, Frame.build count outer f (written.symbols ++ rest) =
      Frame.build count' outer (f.push part) rest
  | .row, written => ∀ count, ∃ count' parts,
    RendersRow (parts.reverse.map Part.form) written ∧
    ∀ outer number given rest,
      Frame.build count outer ⟨number, given, []⟩ (written.symbols ++ rest) =
      Frame.build count' outer ⟨number, given, parts⟩ rest
  | .choice, written => ∀ count, ∃ count' alternatives parts,
    RendersChoice (alternativeForms alternatives parts) written ∧
    ∀ outer number given rest,
      Frame.build count outer ⟨number, given, []⟩ (written.symbols ++ rest) =
      Frame.build count' outer ⟨number, alternatives ++ given, parts⟩ rest

/-- The induction is over the tree: each case reads its pieces from left to right, with the
symbols of the others still to come. -/
theorem builds_of_valid {kind : Kind} (written : Written kind) (h : written.Valid) :
    Builds written := by
  induction written with
  | only row ih =>
    intro count
    obtain ⟨count', parts, hrow, hbuild⟩ := ih h count
    exact ⟨count', [], parts, hrow.sequence.only, hbuild⟩
  | either row others ihRow ihOthers =>
    obtain ⟨hrow, hothers⟩ := List.forall_mem_append.mp h
    intro count
    obtain ⟨count', parts, hrender, hbuild⟩ := ihRow hrow count
    obtain ⟨count'', alternatives, parts', hrender', hbuild'⟩ :=
      ihOthers (List.forall_mem_cons.mp hothers).2 count'
    refine ⟨count'', alternatives ++ [.sequence parts.reverse], parts', ?_, ?_⟩
    · rw [alternativeForms_append]
      exact hrender'.either hrender.sequence
    · intro outer number given rest
      rw [symbols, List.append_assoc, hbuild, List.cons_append, Frame.build, Frame.endAlternative,
        hbuild', List.append_assoc, List.singleton_append]
  | nothing => exact fun count => ⟨count, [], rendersRow_nothing, fun _ _ _ _ => rfl⟩
  | followed row part ihRow ihPart =>
    obtain ⟨hrow, hpart⟩ := List.forall_mem_append.mp h
    intro count
    obtain ⟨count', parts, hrender, hbuild⟩ := ihRow hrow count
    obtain ⟨count'', last, hrender', hbuild'⟩ := ihPart hpart count'
    refine ⟨count'', last :: parts, ?_, ?_⟩
    · rw [List.reverse_cons, List.map_append, List.map_singleton]
      exact hrender.followed hrender'
    · intro outer number given rest
      rw [symbols, List.append_assoc, hbuild, hbuild', Frame.push]
  | chars set depth =>
    intro count
    refine ⟨count, ⟨.chars set, depth⟩, renders_chars (h _ List.mem_cons_self) depth, ?_⟩
    intro outer f rest
    rw [symbols, List.singleton_append, Frame.build]
  | anchor a depth =>
    intro count
    refine ⟨count, ⟨.anchor a, depth⟩, renders_anchor a depth, ?_⟩
    intro outer f rest
    rw [symbols, List.singleton_append, Frame.build]
  | group kind choice ih =>
    have hchoice := (List.forall_mem_append.mp (List.forall_mem_cons.mp h).2).1
    intro count
    obtain ⟨count', number, hopened⟩ := Frame.build_openGroup count kind
    obtain ⟨count'', alternatives, parts, hrender, hbuild⟩ := ih hchoice count'
    refine ⟨count'', _, hrender.close number kind, ?_⟩
    intro outer f rest
    rw [symbols, List.cons_append, hopened, List.append_assoc, Frame.opened, hbuild,
      List.append_nil, List.singleton_append, Frame.build]
  | times least most greedy part ih =>
    obtain ⟨hpart, htimes⟩ := List.forall_mem_append.mp h
    intro count
    obtain ⟨count', last, hrender, hbuild⟩ := ih hpart count
    refine ⟨count', ⟨.repeated least most greedy last.form, last.depth + 1⟩,
      hrender.times (List.forall_mem_singleton.mp htimes) greedy, ?_⟩
    intro outer f rest
    rw [symbols, List.append_assoc, hbuild, List.singleton_append, Frame.build]
    rfl

/-! ## Reading -/

/-- The text is a way to write the tree. -/
def Written.IsWrittenAs (written : Written .choice) (source : String) : Prop :=
  Symbol.readAll source.toList.length source.toList = .ok written.symbols

/-- What is read from a text: its symbols, and the normal form that is put together from them. -/
theorem read_eq_ok {source : String} {p : Pattern} (h : Pattern.read source = .ok p) :
    ∃ symbols part, Symbol.readAll source.toList.length source.toList = .ok symbols ∧
      Frame.build 0 [] (.opened none) symbols = .ok part ∧ p = part.form.toPattern := by
  obtain ⟨form, hform, h⟩ := bind_eq_ok.mp h
  obtain ⟨symbols, hsymbols, hform⟩ := bind_eq_ok.mp hform
  rcases ite_eq_iff.mp h with ⟨-, h⟩ | ⟨-, h⟩
  · cases h
  · cases h
    rcases ite_eq_iff.mp hform with ⟨-, hform⟩ | ⟨-, hform⟩
    · cases hform
    · obtain ⟨part, hbuild, hform⟩ := bind_eq_ok.mp hform
      rcases ite_eq_iff.mp hform with ⟨-, hform⟩ | ⟨-, hform⟩
      · cases hform
      · cases hform
        exact ⟨symbols, part, hsymbols, hbuild, rfl⟩

/-- Whatever can be read is written for a tree. -/
theorem exists_isWrittenAs {source : String} {p : Pattern} (h : Pattern.read source = .ok p) :
    ∃ written : Written .choice, written.IsWrittenAs source := by
  obtain ⟨symbols, part, hsymbols, hbuild, -⟩ := read_eq_ok h
  have hahead : Ahead ([] : List Frame).length [] := .start
  obtain ⟨written, hwritten⟩ :=
    exists_written_of_build nothing hahead (fun hne => absurd rfl hne) hbuild
  exact ⟨written, hsymbols.trans (congrArg Except.ok hwritten.symm)⟩

/-- The pattern that is read describes the spans of every tree that the text is written for. -/
theorem describes_iff_spans {source : String} {p : Pattern} (h : Pattern.read source = .ok p)
    {written : Written .choice} (hwritten : written.IsWrittenAs source) {text : List Char}
    {start stop : Nat} : p.Describes text start stop ↔ written.Spans text start stop := by
  obtain ⟨symbols, part, hsymbols, hbuild, rfl⟩ := read_eq_ok h
  have hsame : symbols = written.symbols := Except.ok.inj (hsymbols.symm.trans hwritten)
  have hvalid : written.Valid := Symbol.valid_of_mem_readAll hwritten
  obtain ⟨count, alternatives, parts, hrender, hbuilds⟩ := builds_of_valid written hvalid 0
  have hwhole := hbuilds [] none [] []
  rw [List.append_nil, List.append_nil, ← hsame] at hwhole
  have hpart := hbuild.symm.trans hwhole
  cases hpart
  exact hrender.oneOf.describes

end PrologTokens.Pattern
