import PrologTokens.Proofs.Pattern.Repetition
import PrologTokens.Proofs.Pattern.Symbols

/-!
# What normal forms describe

A normal form decides which match is preferred. What is a match at all does not depend on it:
the normal form of a sequence describes spans of its parts one behind the other, that of
alternatives describes the spans of each of them, and that of a repetition describes as many
spans of its body, one behind the other, as its bounds allow. So flattening, joining sets,
moving a common start to the front and leaving out repetitions of nothing change none of the
spans.

The main statements are `describes_sequence`, `isChoice_oneOf` and `describes_repeated`.
-/

set_option autoImplicit false

namespace PrologTokens.Pattern.Normal

/-- The normal form describes the characters between two positions of a line. -/
abbrev Describes (form : Normal) (text : List Char) (start stop : Nat) : Prop :=
  form.toPattern.Describes text start stop

/-- All sets of the normal form are proper, and the bounds of its repetitions are in order. -/
def Valid : Normal → Prop
  | empty => True
  | chars set => set.Proper
  | anchor _ => True
  | group _ p => p.Valid
  | times least most _ p => (∀ bound ∈ most, least ≤ bound) ∧ p.Valid
  | seq p q => p.Valid ∧ q.Valid
  | alt p q => p.Valid ∧ q.Valid

variable {p q : Normal} {ps qs : List Normal} {text : List Char} {start stop : Nat}

/-! ## Sequences -/

/-- Spans of the normal forms follow each other. -/
def FollowEachOther (text : List Char) : List Normal → (start stop : Nat) → Prop
  | [], start, stop => stop = start ∧ start ≤ text.length
  | p :: ps, start, stop =>
    ∃ middle, p.Describes text start middle ∧ FollowEachOther text ps middle stop

theorem followEachOther_singleton :
    FollowEachOther text [p] start stop ↔ p.Describes text start stop := by
  constructor
  · rintro ⟨_, h, rfl, -⟩
    exact h
  · intro h
    exact ⟨stop, h, rfl, h.bounds.2⟩

theorem FollowEachOther.start_le (h : FollowEachOther text ps start stop) :
    start ≤ text.length := by
  cases ps with
  | nil => exact h.2
  | cons p ps =>
    obtain ⟨_, hfirst, -⟩ := h
    exact hfirst.1

theorem followEachOther_append :
    FollowEachOther text (ps ++ qs) start stop ↔
      ∃ middle, FollowEachOther text ps start middle ∧ FollowEachOther text qs middle stop := by
  induction ps generalizing start with
  | nil =>
    constructor
    · intro h
      exact ⟨start, ⟨rfl, h.start_le⟩, h⟩
    · rintro ⟨_, ⟨rfl, -⟩, h⟩
      exact h
  | cons p ps ih =>
    simp only [List.cons_append, FollowEachOther, ih]
    constructor
    · rintro ⟨first, hfirst, middle, hps, hqs⟩
      exact ⟨middle, ⟨first, hfirst, hps⟩, hqs⟩
    · rintro ⟨middle, ⟨first, hfirst, hps⟩, hqs⟩
      exact ⟨first, hfirst, middle, hps, hqs⟩

/-- A normal form describes spans of its parts one behind the other. -/
theorem describes_iff_parts (p : Normal) :
    p.Describes text start stop ↔ FollowEachOther text p.parts start stop := by
  induction p generalizing start with
  | empty => exact describes_empty
  | seq p q _ ihq =>
    simp only [parts, FollowEachOther, ← ihq]
    exact describes_seq
  | _ => exact followEachOther_singleton.symm

theorem describes_ofParts :
    (ofParts ps).Describes text start stop ↔ FollowEachOther text ps start stop := by
  induction ps generalizing start with
  | nil => exact describes_empty
  | cons p ps ih =>
    cases ps with
    | nil => exact followEachOther_singleton.symm
    | cons q ps =>
      rw [ofParts, FollowEachOther]
      simp only [← ih]
      exact describes_seq

theorem describes_sequence :
    (sequence ps).Describes text start stop ↔ FollowEachOther text ps start stop := by
  rw [sequence, describes_ofParts]
  induction ps generalizing start with
  | nil => exact Iff.rfl
  | cons p ps ih =>
    rw [List.flatMap_cons, followEachOther_append]
    simp only [FollowEachOther, ih, ← describes_iff_parts]

theorem Valid.of_mem_parts (h : p.Valid) : ∀ q ∈ p.parts, q.Valid := by
  induction p with
  | empty => exact fun _ hq => absurd hq List.not_mem_nil
  | seq p q _ ihq => exact List.forall_mem_cons.mpr ⟨h.1, ihq h.2⟩
  | _ =>
    intro q hq
    rw [List.mem_singleton.mp hq]
    exact h

theorem valid_ofParts (h : ∀ p ∈ ps, p.Valid) : (ofParts ps).Valid := by
  induction ps with
  | nil => trivial
  | cons p ps ih =>
    obtain ⟨hp, hps⟩ := List.forall_mem_cons.mp h
    cases ps with
    | nil => exact hp
    | cons q ps => exact ⟨hp, ih hps⟩

theorem valid_sequence (h : ∀ p ∈ ps, p.Valid) : (sequence ps).Valid := by
  refine valid_ofParts fun q hq => ?_
  obtain ⟨p, hp, hq⟩ := List.mem_flatMap.mp hq
  exact (h p hp).of_mem_parts q hq

/-! ## Alternatives -/

/-- The normal form is valid and describes the spans of each of the alternatives. -/
structure IsChoice (form : Normal) (ps : List Normal) : Prop where
  valid : form.Valid
  describes : ∀ {text start stop},
    form.Describes text start stop ↔ ∃ p ∈ ps, p.Describes text start stop

theorem describes_iff_branches (p : Normal) :
    p.Describes text start stop ↔ ∃ q ∈ p.branches, q.Describes text start stop := by
  induction p with
  | alt p q _ ihq =>
    simp only [branches, List.mem_cons, exists_eq_or_imp, ← ihq]
    exact describes_alt
  | _ => simp only [branches, List.mem_singleton, exists_eq_left]

theorem Valid.of_mem_branches (h : p.Valid) : ∀ q ∈ p.branches, q.Valid := by
  induction p with
  | alt p q _ ihq => exact List.forall_mem_cons.mpr ⟨h.1, ihq h.2⟩
  | _ =>
    intro q hq
    rw [List.mem_singleton.mp hq]
    exact h

theorem valid_of_mem_flatMap_branches (h : ∀ p ∈ ps, p.Valid) :
    ∀ q ∈ ps.flatMap branches, q.Valid := by
  intro q hq
  obtain ⟨p, hp, hq⟩ := List.mem_flatMap.mp hq
  exact (h p hp).of_mem_branches q hq

/-- Alternatives that are alternatives themselves are as good as all of theirs. -/
theorem IsChoice.of_flatMap_branches (h : IsChoice p (ps.flatMap branches)) : IsChoice p ps := by
  refine ⟨h.valid, ?_⟩
  intro text start stop
  rw [h.describes]
  constructor
  · rintro ⟨r, hr, hdescribes⟩
    obtain ⟨q, hq, hr⟩ := List.mem_flatMap.mp hr
    exact ⟨q, hq, (describes_iff_branches q).mpr ⟨r, hr, hdescribes⟩⟩
  · rintro ⟨q, hq, hdescribes⟩
    obtain ⟨r, hr, hdescribes⟩ := (describes_iff_branches q).mp hdescribes
    exact ⟨r, List.mem_flatMap.mpr ⟨q, hq, hr⟩, hdescribes⟩

theorem isChoice_singleton (hp : p.Valid) : IsChoice p [p] :=
  ⟨hp, by simp only [List.mem_singleton, exists_eq_left, implies_true]⟩

theorem isChoice_ofBranches (hne : ps ≠ []) (hps : ∀ p ∈ ps, p.Valid) :
    IsChoice (ofBranches ps) ps := by
  induction ps with
  | nil => exact absurd rfl hne
  | cons p ps ih =>
    obtain ⟨hp, hps⟩ := List.forall_mem_cons.mp hps
    cases ps with
    | nil => exact isChoice_singleton hp
    | cons q ps =>
      have hothers := ih (List.cons_ne_nil q ps) hps
      refine ⟨⟨hp, hothers.valid⟩, ?_⟩
      intro text start stop
      simp only [List.mem_cons (b := p), exists_eq_or_imp, ← hothers.describes]
      exact describes_alt

/-! ### Alternatives that are one set -/

theorem mapM_eq_some_iff {α β : Type} {f : α → Option β} {xs : List α} {ys : List β} :
    xs.mapM f = some ys ↔ xs.map f = ys.map some := by
  induction xs generalizing ys with
  | nil => cases ys <;> simp
  | cons x xs ih =>
    cases ys with
    | nil => simp [List.mapM_cons, Option.bind_eq_some_iff]
    | cons y ys => simp [List.mapM_cons, Option.bind_eq_some_iff, ih]

theorem describes_of_character? {c : Char} (hp : p.Valid) (h : p.character? = some c) :
    p.Describes text start stop ↔ stop = start + 1 ∧ text[start]? = some c := by
  cases p with
  | chars set =>
    have hset : set.Proper := hp
    simp only [Describes, toPattern, describes_chars, hset.contains_of_singleton? h,
      decide_eq_true_eq, exists_eq_right]
  | _ => cases h

/-- Alternatives that are all sets of several characters. -/
theorem eq_map_chars_of_mapM_set? {sets : List CharSet} (h : ps.mapM set? = some sets) :
    ps = sets.map chars := by
  have hset : ∀ {p : Normal} {set : CharSet}, p.set? = some set → p = chars set := by
    intro p set hp
    cases p with
    | chars other =>
      rw [set?, Option.ite_none_right_eq_some] at hp
      rw [Option.some.inj hp.2]
    | _ => cases hp
  have hmap := mapM_eq_some_iff.mp h
  clear h
  induction ps generalizing sets with
  | nil =>
    cases sets with
    | nil => rfl
    | cons set sets => cases hmap
  | cons p ps ih =>
    cases sets with
    | nil => cases hmap
    | cons set sets =>
      obtain ⟨hp, hps⟩ := List.cons.inj hmap
      rw [List.map_cons, hset hp, ih hps]

theorem foldl_union {sets : List CharSet} {all : CharSet} (hall : all.Proper)
    (hsets : ∀ set ∈ sets, set.Proper) :
    (sets.foldl CharSet.union all).Proper ∧ ∀ x, (sets.foldl CharSet.union all).contains x =
      (all.contains x || sets.any fun set => set.contains x) := by
  induction sets generalizing all with
  | nil => exact ⟨hall, fun x => by simp⟩
  | cons set sets ih =>
    obtain ⟨hset, hsets⟩ := List.forall_mem_cons.mp hsets
    obtain ⟨hproper, hcontains⟩ := ih (hall.union hset) hsets
    refine ⟨hproper, fun x => ?_⟩
    rw [List.foldl_cons, hcontains, hall.contains_union hset, List.any_cons, Bool.or_assoc]

theorem describes_merged_characters {cs : List Char} (hps : ∀ p ∈ ps, p.Valid)
    (h : ps.mapM character? = some cs) :
    (chars (.ofRanges (cs.map fun c => (c, c)))).Describes text start stop ↔
      ∃ p ∈ ps, p.Describes text start stop := by
  have hmap := mapM_eq_some_iff.mp h
  simp only [Describes, toPattern, describes_chars, CharSet.contains_ofRanges_self,
    decide_eq_true_eq]
  constructor
  · rintro ⟨hstop, c, hc, hmem⟩
    obtain ⟨p, hp, hcharacter⟩ : ∃ p ∈ ps, p.character? = some c := by
      rw [← List.mem_map, hmap]
      exact List.mem_map_of_mem hmem
    exact ⟨p, hp, (describes_of_character? (hps p hp) hcharacter).mpr ⟨hstop, hc⟩⟩
  · rintro ⟨p, hp, hdescribes⟩
    obtain ⟨c, hmem, hcharacter⟩ : ∃ c ∈ cs, some c = p.character? := by
      rw [← List.mem_map, ← hmap]
      exact List.mem_map_of_mem hp
    obtain ⟨hstop, hc⟩ := (describes_of_character? (hps p hp) hcharacter.symm).mp hdescribes
    exact ⟨hstop, c, hc, hmem⟩

theorem describes_merged_sets {sets : List CharSet} (hsets : ∀ set ∈ sets, set.Proper) :
    (chars (sets.foldl CharSet.union .empty)).Describes text start stop ↔
      ∃ p ∈ sets.map chars, p.Describes text start stop := by
  have hany : ∀ x, (sets.foldl CharSet.union .empty).contains x = true ↔
      ∃ set ∈ sets, set.contains x = true := by
    intro x
    rw [(foldl_union CharSet.proper_empty hsets).2, Bool.or_eq_true, List.any_eq_true]
    exact or_iff_right Bool.false_ne_true
  simp only [Describes, toPattern, describes_chars, hany, List.mem_map]
  constructor
  · rintro ⟨hstop, x, hx, set, hset, hmem⟩
    exact ⟨_, ⟨set, hset, rfl⟩, describes_chars.mpr ⟨hstop, x, hx, hmem⟩⟩
  · rintro ⟨_, ⟨set, hset, rfl⟩, hdescribes⟩
    obtain ⟨hstop, x, hx, hmem⟩ := describes_chars.mp hdescribes
    exact ⟨hstop, x, hx, set, hset, hmem⟩

/-- Alternatives that are joined to one set are described by this set. -/
theorem isChoice_of_merged? {set : CharSet} (hps : ∀ p ∈ ps, p.Valid) (h : merged? ps = some set) :
    IsChoice (chars set) ps := by
  unfold merged? at h
  split at h
  · rename_i hcharacters
    cases h
    exact ⟨CharSet.proper_ofRanges (by simp), describes_merged_characters hps hcharacters⟩
  · rename_i sets hsets _
    cases h
    obtain rfl := eq_map_chars_of_mapM_set? hsets
    have hproper : ∀ set ∈ sets, set.Proper := fun set hset =>
      hps (chars set) (List.mem_map_of_mem hset)
    exact ⟨(foldl_union CharSet.proper_empty hproper).1, describes_merged_sets hproper⟩
  · cases h

/-! ### Alternatives with a common start -/

theorem flatten_units (ps : List Normal) : (units ps).flatten = ps := by
  fun_induction units ps with
  | case1 => rfl
  | case2 p ps c q qs others hunits hcharacter hq ih =>
    rw [hunits] at ih
    rw [← ih]
    rfl
  | case3 p ps c q qs others hunits hcharacter hq ih =>
    rw [hunits] at ih
    rw [← ih]
    rfl
  | case4 p ps hother ih => rw [List.flatten_cons, ih, List.singleton_append]

theorem commonStart_isPrefix (us vs : List (List Normal)) :
    commonStart us vs <+: us ∧ commonStart us vs <+: vs := by
  fun_induction commonStart us vs with
  | case1 u us vs ih =>
    exact ⟨List.cons_prefix_cons.mpr ⟨rfl, ih.1⟩, List.cons_prefix_cons.mpr ⟨rfl, ih.2⟩⟩
  | case2 => exact And.intro List.nil_prefix List.nil_prefix
  | case3 => exact And.intro List.nil_prefix List.nil_prefix

theorem foldl_commonStart_isPrefix (us : List (List Normal)) :
    ps.foldl (fun start q => commonStart start (units q.parts)) us <+: us ∧
      ∀ p ∈ ps, ps.foldl (fun start q => commonStart start (units q.parts)) us <+:
        units p.parts := by
  induction ps generalizing us with
  | nil => exact ⟨List.prefix_rfl, fun _ hp => absurd hp List.not_mem_nil⟩
  | cons p ps ih =>
    obtain ⟨hleft, hright⟩ := commonStart_isPrefix us (units p.parts)
    obtain ⟨hus, hps⟩ := ih (commonStart us (units p.parts))
    exact ⟨hus.trans hleft, List.forall_mem_cons.mpr ⟨hus.trans hright, hps⟩⟩

theorem sharedStart_isPrefix : ∀ p ∈ ps, sharedStart ps <+: units p.parts := by
  cases ps with
  | nil => exact fun _ hp => absurd hp List.not_mem_nil
  | cons p ps =>
    rw [sharedStart]
    split
    · exact List.forall_mem_cons.mpr (foldl_commonStart_isPrefix (units p.parts))
    · exact fun _ _ => List.nil_prefix

/-- An alternative is made up of the common start and its remainder. -/
theorem flatten_sharedStart_append (hp : p ∈ ps) :
    (sharedStart ps).flatten ++ ((units p.parts).drop (sharedStart ps).length).flatten =
      p.parts := by
  obtain ⟨rest, hrest⟩ := sharedStart_isPrefix p hp
  rw [← hrest, List.drop_left, ← List.flatten_append, hrest, flatten_units]

/-- The alternatives without their common start. -/
def remainders (ps : List Normal) : List Normal :=
  ps.map fun p => ofParts ((units p.parts).drop (sharedStart ps).length).flatten

theorem valid_of_mem_remainders (hps : ∀ p ∈ ps, p.Valid) : ∀ q ∈ remainders ps, q.Valid := by
  intro q hq
  obtain ⟨p, hp, rfl⟩ := List.mem_map.mp hq
  refine valid_ofParts fun r hr => (hps p hp).of_mem_parts r ?_
  rw [← flatten_sharedStart_append hp]
  exact List.mem_append_right _ hr

/-- Alternatives can be tried behind their common start. -/
theorem isChoice_sharedStart (hne : ps ≠ []) (hps : ∀ p ∈ ps, p.Valid)
    (h : IsChoice q (remainders ps)) :
    IsChoice (sequence ((sharedStart ps).flatten ++ [q])) ps := by
  have hremainder : ∀ {text start stop}, q.Describes text start stop ↔ ∃ p ∈ ps,
      FollowEachOther text ((units p.parts).drop (sharedStart ps).length).flatten start stop := by
    intro text start stop
    rw [h.describes]
    simp only [remainders, List.mem_map, exists_exists_and_eq_and, describes_ofParts]
  constructor
  · obtain ⟨p, hp⟩ := List.exists_mem_of_ne_nil ps hne
    refine valid_sequence fun r hr => ?_
    rcases List.mem_append.mp hr with hr | hr
    · refine (hps p hp).of_mem_parts r ?_
      rw [← flatten_sharedStart_append hp]
      exact List.mem_append_left _ hr
    · rw [List.mem_singleton.mp hr]
      exact h.valid
  · intro text start stop
    rw [describes_sequence, followEachOther_append]
    simp only [followEachOther_singleton, hremainder]
    constructor
    · rintro ⟨middle, hshared, p, hp, hrest⟩
      refine ⟨p, hp, (describes_iff_parts p).mpr ?_⟩
      rw [← flatten_sharedStart_append hp]
      exact followEachOther_append.mpr ⟨middle, hshared, hrest⟩
    · rintro ⟨p, hp, hdescribes⟩
      have hparts := (describes_iff_parts p).mp hdescribes
      rw [← flatten_sharedStart_append hp] at hparts
      obtain ⟨middle, hshared, hrest⟩ := followEachOther_append.mp hparts
      exact ⟨middle, hshared, p, hp, hrest⟩

/-! ### All alternatives -/

theorem flatMap_branches_ne_nil (hne : ps ≠ []) : ps.flatMap branches ≠ [] := by
  intro hnil
  obtain ⟨p, hp⟩ := List.exists_mem_of_ne_nil ps hne
  have hbranches := List.flatMap_eq_nil_iff.mp hnil p hp
  cases p <;> exact absurd hbranches (List.cons_ne_nil _ _)

/-- The induction is over the fuel; whether it suffices makes no difference to what is described. -/
theorem isChoice_oneOfWithin (fuel : Nat) (hne : ps ≠ []) (hps : ∀ p ∈ ps, p.Valid) :
    IsChoice (oneOfWithin fuel ps) ps := by
  induction fuel generalizing ps with
  | zero =>
    exact (isChoice_ofBranches (flatMap_branches_ne_nil hne)
      (valid_of_mem_flatMap_branches hps)).of_flatMap_branches
  | succ fuel ih =>
    have hne := flatMap_branches_ne_nil hne
    have hps := valid_of_mem_flatMap_branches hps
    refine IsChoice.of_flatMap_branches ?_
    rw [oneOfWithin]
    -- There is one alternative, or they are one set, or have nothing in common, or have a
    -- common start.
    split
    · rename_i p hsingle
      rw [hsingle] at hps ⊢
      exact isChoice_singleton (hps p List.mem_cons_self)
    · split
      · rename_i hmerged
        exact isChoice_of_merged? hps hmerged
      · exact isChoice_ofBranches hne hps
      · refine isChoice_sharedStart hne hps (ih ?_ (valid_of_mem_remainders hps))
        exact mt List.map_eq_nil_iff.mp hne

theorem isChoice_oneOf (hne : ps ≠ []) (hps : ∀ p ∈ ps, p.Valid) : IsChoice (oneOf ps) ps :=
  isChoice_oneOfWithin _ hne hps

/-! ## Repetition -/

theorem describes_times {least : Nat} {most : Option Nat} {greedy : Bool}
    (h : (times least most greedy p).Valid) :
    (times least most greedy p).Describes text start stop ↔
      ∃ count, InBounds least most count ∧ Repeats text (p.Describes text) count start stop :=
  Pattern.describes_repeated h.1

/-- What only matches nothing describes empty spans only. -/
theorem eq_of_onlyEmpty (hp : p.Valid) (hempty : p.onlyEmpty = true)
    (h : p.Describes text start stop) : stop = start := by
  induction p generalizing start stop with
  | empty => exact (describes_empty.mp h).1
  | chars set => cases hempty
  | anchor a => exact (describes_anchor.mp h).1
  | group n p ih => exact ih hp hempty h
  | times least most greedy p ih =>
    obtain ⟨count, -, hcount⟩ := (describes_times hp).mp h
    clear h
    induction count generalizing start with
    | zero => exact hcount.1
    | succ count ihCount =>
      obtain ⟨middle, hfirst, hothers⟩ := hcount
      rw [ihCount hothers, ih hp.2 hempty hfirst]
  | seq p q ihp ihq =>
    obtain ⟨hemptyp, hemptyq⟩ := Bool.and_eq_true_iff.mp hempty
    obtain ⟨middle, hfirst, hsecond⟩ := describes_seq.mp h
    rw [ihq hp.2 hemptyq hsecond, ihp hp.1 hemptyp hfirst]
  | alt p q ihp ihq =>
    obtain ⟨hemptyp, hemptyq⟩ := Bool.and_eq_true_iff.mp hempty
    rcases describes_alt.mp h with hleft | hright
    · exact ihp hp.1 hemptyp hleft
    · exact ihq hp.2 hemptyq hright

/-- Of what only matches nothing, one turn is as good as several. -/
theorem repeats_min_one_iff (hp : p.Valid) (hempty : p.onlyEmpty = true) (count : Nat) :
    Repeats text (p.Describes text) count start stop ↔
      Repeats text (p.Describes text) (min count 1) start stop := by
  cases count with
  | zero => exact Iff.rfl
  | succ count =>
    rw [Nat.min_eq_right (Nat.succ_le_succ (Nat.zero_le count)), repeats_one]
    induction count with
    | zero => exact repeats_one
    | succ count ih =>
      rw [← ih]
      constructor
      · rintro ⟨middle, hfirst, hothers⟩
        obtain rfl := eq_of_onlyEmpty hp hempty hfirst
        exact hothers
      · intro h
        have hturn := ih.mp h
        obtain rfl := eq_of_onlyEmpty hp hempty hturn
        exact ⟨_, hturn, h⟩

/-- A repetition with the given bounds, which is left out where it adds nothing. -/
def bounded (least : Nat) (most : Option Nat) (greedy : Bool) (p : Normal) : Normal :=
  if most = some 0 then empty
  else if least = 1 ∧ most = some 1 then p
  else times least most greedy p

theorem repeated_eq (least : Nat) (most : Option Nat) (greedy : Bool) (p : Normal) :
    repeated least most greedy p =
      if p.onlyEmpty then bounded (min least 1) (some (min (most.getD 1) 1)) greedy p
      else bounded least most greedy p := by
  unfold repeated
  cases p.onlyEmpty <;> rfl

section Bounds

variable {least : Nat} {most : Option Nat} {greedy : Bool}

theorem valid_bounded (hp : p.Valid) (hbounds : ∀ bound ∈ most, least ≤ bound) :
    (bounded least most greedy p).Valid := by
  unfold bounded
  split
  · trivial
  · split
    · exact hp
    · exact ⟨hbounds, hp⟩

theorem describes_bounded (hp : p.Valid) (hbounds : ∀ bound ∈ most, least ≤ bound) :
    (bounded least most greedy p).Describes text start stop ↔
      ∃ count, InBounds least most count ∧ Repeats text (p.Describes text) count start stop := by
  unfold bounded
  split
  · rename_i hmost
    subst hmost
    have hcount : ∀ count, InBounds least (some 0) count ↔ count = 0 := by
      intro count
      have hleast := hbounds 0 rfl
      simp only [InBounds, Option.mem_some_iff, forall_eq']
      omega
    simp only [hcount, exists_eq_left]
    exact describes_empty
  · split
    · rename_i hone
      obtain ⟨rfl, rfl⟩ := hone
      have hcount : ∀ count, InBounds 1 (some 1) count ↔ count = 1 := by
        intro count
        simp only [InBounds, Option.mem_some_iff, forall_eq']
        omega
      simp only [hcount, exists_eq_left]
      exact repeats_one.symm
    · exact describes_times ⟨hbounds, hp⟩

theorem le_of_min_one (hbounds : ∀ bound ∈ most, least ≤ bound) :
    ∀ bound ∈ some (min (most.getD 1) 1), min least 1 ≤ bound := by
  intro bound hbound
  cases hbound
  cases most with
  | none => exact Nat.min_le_right least 1
  | some bound =>
    have hle := hbounds bound rfl
    rw [Option.getD_some]
    omega

/-- At most one turn is within the narrower bounds if some number of turns, of which at most one
counts, is within the given ones. -/
theorem inBounds_min_one_iff (hbounds : ∀ bound ∈ most, least ≤ bound) (turns : Nat) :
    InBounds (min least 1) (some (min (most.getD 1) 1)) turns ↔
      ∃ count, InBounds least most count ∧ turns = min count 1 := by
  constructor
  · rintro ⟨hleast, hmost⟩
    have hmost := hmost _ rfl
    refine ⟨max least turns, ⟨Nat.le_max_left _ _, fun bound hbound => ?_⟩, ?_⟩
    · cases hbound
      have hle := hbounds bound rfl
      rw [Option.getD_some] at hmost
      omega
    · omega
  · rintro ⟨count, ⟨hleast, hmost⟩, rfl⟩
    refine ⟨by omega, fun bound hbound => ?_⟩
    cases hbound
    cases most with
    | none => exact Nat.min_le_right count 1
    | some bound =>
      have hle := hmost bound rfl
      rw [Option.getD_some]
      omega

theorem valid_repeated (hp : p.Valid) (hbounds : ∀ bound ∈ most, least ≤ bound) :
    (repeated least most greedy p).Valid := by
  rw [repeated_eq]
  split
  · exact valid_bounded hp (le_of_min_one hbounds)
  · exact valid_bounded hp hbounds

/-- A repetition describes the spans that are made of a number of spans of its body, with the number
within the bounds. -/
theorem describes_repeated (hp : p.Valid) (hbounds : ∀ bound ∈ most, least ≤ bound) :
    (repeated least most greedy p).Describes text start stop ↔
      ∃ count, InBounds least most count ∧ Repeats text (p.Describes text) count start stop := by
  rw [repeated_eq]
  split
  · rename_i hempty
    rw [describes_bounded hp (le_of_min_one hbounds)]
    simp only [inBounds_min_one_iff hbounds]
    constructor
    · rintro ⟨_, ⟨count, hcount, rfl⟩, hturns⟩
      exact ⟨count, hcount, (repeats_min_one_iff hp hempty count).mpr hturns⟩
    · rintro ⟨count, hcount, hturns⟩
      exact ⟨_, ⟨count, hcount, rfl⟩, (repeats_min_one_iff hp hempty count).mp hturns⟩
  · exact describes_bounded hp hbounds

end Bounds

end PrologTokens.Pattern.Normal
