import PrologTokens.Json.Record
import PrologTokens.Proofs.Json.Scalar

/-!
# Reading back arrays and records

The compact text of an array or object and the one laid out in lines differ in blanks only. A layout
says where these blanks stand, and the laws of this module hold for every layout: an array of
accepted texts is accepted for the list of their values, and an object whose members are accepted by
the fields of a record is accepted for the record that these fields make.
-/

set_option autoImplicit false

namespace PrologTokens.Json

/-! ## Layouts -/

/-- The blanks between the parts of an array or an object. -/
structure Layout where
  /-- What stands in front of each item. -/
  gap : List Char
  /-- What stands in front of the closing bracket. -/
  last : List Char
  /-- What stands behind the colon of a member. -/
  space : List Char
  gap_blank : AllBlank gap
  last_blank : AllBlank last
  space_blank : AllBlank space

theorem allBlank_newline (level : Nat) : AllBlank (newline level) := by
  intro c hc
  rw [newline, List.mem_cons, List.mem_replicate] at hc
  rcases hc with rfl | ⟨-, rfl⟩ <;> decide

namespace Layout

/-- The layout without blanks. -/
def compact : Layout where
  gap := []
  last := []
  space := []
  gap_blank := allBlank_nil
  last_blank := allBlank_nil
  space_blank := allBlank_nil

/-- The layout in lines of an array or object that stands at the given level. -/
def lines (level : Nat) : Layout where
  gap := newline (level + 1)
  last := newline level
  space := [' ']
  gap_blank := allBlank_newline (level + 1)
  last_blank := allBlank_newline level
  space_blank := by
    intro c hc
    rw [List.mem_singleton.mp hc]
    decide

/-- The items behind the first one, each after a comma. -/
def behind (layout : Layout) : List (List Char) → List Char
  | [] => []
  | item :: items => ',' :: layout.gap ++ item ++ layout.behind items

/-- What stands behind the first item: the other items and the closing bracket. -/
def tail (layout : Layout) (closing : Char) (items : List (List Char)) : List Char :=
  layout.behind items ++ layout.last ++ [closing]

/-- The items between brackets. -/
def enclose (layout : Layout) (opening closing : Char) : List (List Char) → List Char
  | [] => [opening, closing]
  | item :: items => opening :: layout.gap ++ item ++ layout.tail closing items

/-- The text of an array with items of the given texts. -/
def array (layout : Layout) (items : List (List Char)) : List Char := layout.enclose '[' ']' items

/-- The text of a member. -/
def member (layout : Layout) (entry : String × List Char) : List Char :=
  quote entry.1 ++ ':' :: layout.space ++ entry.2

/-- The text of an object with values of the given texts. -/
def object (layout : Layout) (members : List (String × List Char)) : List Char :=
  layout.enclose '\x7b' '\x7d' (members.map layout.member)

end Layout

theorem compactItems_eq (items : List Json) :
    compactItems items = Layout.compact.behind (items.map Json.compact) := by
  induction items with
  | nil => rw [compactItems, List.map_nil, Layout.behind]
  | cons item items ih =>
    rw [compactItems, List.map_cons, Layout.behind, ih]
    simp [Layout.compact]

theorem compactMembers_eq (members : List (String × Json)) :
    compactMembers members =
      Layout.compact.behind
        ((members.map fun m => (m.1, m.2.compact)).map Layout.compact.member) := by
  induction members with
  | nil => rw [compactMembers, List.map_nil, List.map_nil, Layout.behind]
  | cons m members ih =>
    rw [compactMembers, List.map_cons, List.map_cons, Layout.behind, ih]
    simp [Layout.compact, Layout.member]

theorem prettyItems_eq (level : Nat) (items : List Json) :
    prettyItems (level + 1) items =
      (Layout.lines level).behind (items.map (pretty (level + 1))) := by
  induction items with
  | nil => rw [prettyItems, List.map_nil, Layout.behind]
  | cons item items ih =>
    rw [prettyItems, List.map_cons, Layout.behind, ih]
    simp [Layout.lines]

theorem prettyMembers_eq (level : Nat) (members : List (String × Json)) :
    prettyMembers (level + 1) members =
      (Layout.lines level).behind
        ((members.map fun m => (m.1, m.2.pretty (level + 1))).map (Layout.lines level).member) := by
  induction members with
  | nil => rw [prettyMembers, List.map_nil, List.map_nil, Layout.behind]
  | cons m members ih =>
    rw [prettyMembers, List.map_cons, List.map_cons, Layout.behind, ih]
    simp [Layout.lines, Layout.member]

theorem compact_array (items : List Json) :
    compact (.array items) = Layout.compact.array (items.map Json.compact) := by
  cases items with
  | nil => simp [Json.compact, Layout.array, Layout.enclose]
  | cons item items =>
    simp [Json.compact, compactItems_eq, Layout.array, Layout.enclose, Layout.tail, Layout.compact]

theorem compact_object (members : List (String × Json)) :
    compact (.object members) =
      Layout.compact.object (members.map fun m => (m.1, m.2.compact)) := by
  cases members with
  | nil => simp [Json.compact, Layout.object, Layout.enclose]
  | cons m members =>
    simp [Json.compact, compactMembers_eq, Layout.object, Layout.enclose, Layout.tail,
      Layout.compact, Layout.member]

theorem pretty_array (level : Nat) (items : List Json) :
    pretty level (.array items) =
      (Layout.lines level).array (items.map (pretty (level + 1))) := by
  cases items with
  | nil => simp [pretty, Layout.array, Layout.enclose]
  | cons item items =>
    simp [pretty, prettyItems_eq, Layout.array, Layout.enclose, Layout.tail, Layout.lines]

theorem pretty_object (level : Nat) (members : List (String × Json)) :
    pretty level (.object members) =
      (Layout.lines level).object (members.map fun m => (m.1, m.2.pretty (level + 1))) := by
  cases members with
  | nil => simp [pretty, Layout.object, Layout.enclose]
  | cons m members =>
    simp [pretty, prettyMembers_eq, Layout.object, Layout.enclose, Layout.tail, Layout.lines,
      Layout.member]

/-! ## Arrays -/

/-- The text starts where the reader of an array looks for an item. -/
def StartsItem (text : List Char) : Prop :=
  ∃ c rest, text = c :: rest ∧ Read.isBlank (some c) = false ∧ c ≠ ']'

/-- A closing bracket is no blank and goes on with no number. -/
theorem of_mem_closing {c : Char} (h : c ∈ [']', '\x7d']) :
    Read.isBlank (some c) = false ∧ c.isDigit = false ∧ c ≠ '.' ∧ c ≠ 'e' ∧ c ≠ 'E' := by
  simp only [List.mem_cons, List.not_mem_nil, or_false] at h
  rcases h with rfl | rfl <;> decide

theorem Layout.delimited_tail (layout : Layout) (closing : Char)
    (hclosing : closing ∈ [']', '\x7d']) (items : List (List Char)) (rest : Input) :
    Delimited ((layout.tail closing items).map some ++ rest) := by
  cases items with
  | nil =>
    have hbracket : Delimited (some closing :: rest) := delimited_cons (of_mem_closing hclosing).2
    simpa [Layout.tail, Layout.behind] using delimited_blank_append layout.last_blank hbracket
  | cons item items =>
    apply delimited_cons
    decide

/-- What the reader finds behind the last item. -/
theorem Layout.skipBlanks_tail_nil (layout : Layout) (closing : Char)
    (hclosing : closing ∈ [']', '\x7d']) (rest : Input) :
    Read.skipBlanks ((layout.tail closing []).map some ++ rest) = some closing :: rest := by
  simp only [Layout.tail, Layout.behind, List.nil_append, List.map_append, List.map_cons,
    List.map_nil, List.append_assoc, List.cons_append]
  rw [skipBlanks_append layout.last_blank, skipBlanks_cons (of_mem_closing hclosing).1]

/-- What the reader finds behind an item with another one behind it. -/
theorem Layout.skipBlanks_tail_cons (layout : Layout) (closing : Char) (item : List Char)
    (items : List (List Char)) (rest : Input) :
    Read.skipBlanks ((layout.tail closing (item :: items)).map some ++ rest) =
      some ',' :: (layout.gap.map some ++
        ((item ++ layout.tail closing items).map some ++ rest)) := by
  have hcomma : (layout.tail closing (item :: items)).map some ++ rest =
      some ',' :: (layout.gap.map some ++
        ((item ++ layout.tail closing items).map some ++ rest)) := by
    simp [Layout.tail, Layout.behind]
  rw [hcomma, skipBlanks_cons rfl]

theorem StartsItem.skipBlanks_gap {text : List Char} (h : StartsItem text) {gap : List Char}
    (hgap : AllBlank gap) (more : List Char) (rest : Input) :
    ∃ c input, c ≠ ']' ∧ (text ++ more).map some ++ rest = some c :: input ∧
      Read.skipBlanks (gap.map some ++ ((text ++ more).map some ++ rest)) = some c :: input := by
  obtain ⟨c, others, rfl, hblank, hc⟩ := h
  refine ⟨c, (others ++ more).map some ++ rest, hc, rfl, ?_⟩
  rw [skipBlanks_append hgap]
  exact skipBlanks_cons hblank

/-- Items are read one after the other. One unit of fuel is enough for each of them. -/
theorem items_accepts {α : Type} {read : Reader α} {write : α → List Char} (layout : Layout)
    (values : List α) :
    ∀ {value : α} {fuel index : Nat} (rest : Input),
      (∀ v ∈ value :: values, Accepts read (write v) v ∧ StartsItem (write v)) →
        values.length < fuel →
          Read.items read fuel index
              ((write value ++ layout.tail ']' (values.map write)).map some ++ rest) =
            .ok (value :: values, rest) := by
  induction values with
  | nil =>
    intro value fuel index rest h hfuel
    obtain ⟨fuel, rfl⟩ := Nat.exists_eq_add_one.mpr hfuel
    have hread := (h value List.mem_cons_self).1 _ (layout.delimited_tail ']' (by decide) [] rest)
    rw [List.map_nil, List.map_append, List.append_assoc, Read.items, hread]
    simp only [mapError_ok, ok_bind, layout.skipBlanks_tail_nil ']' (by decide), pure_eq_ok]
  | cons next values ih =>
    intro value fuel index rest h hfuel
    obtain ⟨fuel, rfl⟩ := Nat.exists_eq_add_one.mpr (Nat.lt_of_le_of_lt (Nat.zero_le _) hfuel)
    have hread := (h value List.mem_cons_self).1 _
      (layout.delimited_tail ']' (by decide) ((next :: values).map write) rest)
    have hmore := @ih next fuel (index + 1) rest
      (fun v hv => h v (List.mem_cons_of_mem value hv)) (Nat.lt_of_succ_lt_succ hfuel)
    have hstarts := (h next (List.mem_cons_of_mem value List.mem_cons_self)).2
    obtain ⟨c, input, hc, hinput, hskip⟩ :=
      hstarts.skipBlanks_gap layout.gap_blank (layout.tail ']' (values.map write)) rest
    rw [List.map_append, List.append_assoc, Read.items, hread]
    simp only [mapError_ok, ok_bind, List.map_cons, layout.skipBlanks_tail_cons, hskip]
    rw [hinput] at hmore
    split
    · rename_i heq
      simp only [List.cons.injEq, Option.some.injEq] at heq
      exact absurd heq.1 hc
    · rw [hmore]
      rfl

theorem Layout.length_le_length_tail (layout : Layout) (closing : Char)
    (items : List (List Char)) : items.length < (layout.tail closing items).length := by
  have hbehind : items.length ≤ (layout.behind items).length := by
    induction items with
    | nil => exact Nat.zero_le _
    | cons item items ih =>
      simp only [Layout.behind, List.length_append, List.length_cons]
      omega
  simp only [Layout.tail, List.length_append, List.length_cons]
  omega

/-- An array of accepted texts is accepted for the list of their values. -/
theorem accepts_array {α : Type} {read : Reader α} {write : α → List Char} (layout : Layout)
    (values : List α) (h : ∀ v ∈ values, Accepts read (write v) v ∧ StartsItem (write v)) :
    Accepts (Read.list read) (layout.array (values.map write)) values := by
  intro rest hrest
  cases values with
  | nil => rfl
  | cons value values =>
    have hstarts := (h value List.mem_cons_self).2
    obtain ⟨c, input, hc, hinput, hskip⟩ :=
      hstarts.skipBlanks_gap layout.gap_blank (layout.tail ']' (values.map write)) rest
    have hopen : (layout.array ((value :: values).map write)).map some ++ rest =
        some '[' :: (layout.gap.map some ++
          ((write value ++ layout.tail ']' (values.map write)).map some ++ rest)) := by
      simp [Layout.array, Layout.enclose]
    have hfuel : values.length < (some c :: input).length := by
      have htail := layout.length_le_length_tail ']' (values.map write)
      rw [← hinput]
      simp only [List.length_append, List.length_map] at htail ⊢
      omega
    have hitems := @items_accepts _ _ _ layout values value _ 0 rest h hfuel
    rw [hopen, Read.list, skipBlanks_cons rfl]
    simp only [hskip]
    rw [hinput] at hitems
    split
    · rename_i heq
      simp only [List.cons.injEq, Option.some.injEq] at heq
      exact absurd heq.1 hc
    · exact hitems

/-! ## Records -/

/-- The members, given by their names and the texts of their values, lead one after the other from
one state of a record to another. Each one names a field that was not given before. -/
inductive Shape.Fills {α : Type} (shape : Shape α) :
    Draft α → List (String × List Char) → Draft α → Prop where
  | done (draft : Draft α) : Fills shape draft [] draft
  | member {draft final : Draft α} {key : String} {text : List Char} {field : Field α}
      {change : α → α} {members : List (String × List Char)}
      (hfield : shape.fields.find? (·.isNamed key) = some field)
      (hnew : draft.given.contains field.name = false)
      (hread : Accepts field.read text change) (hblanks : IgnoresBlanks field.read)
      (hmembers : Fills shape ⟨change draft.value, field.name :: draft.given⟩ members final) :
      Fills shape draft ((key, text) :: members) final

theorem Field.accepts_of {α β : Type} {name : String} {aliases : List String} {required : Bool}
    {read : Reader β} {set : β → α → α} {text : List Char} {value : β}
    (h : Accepts read text value) :
    Accepts (Field.of name aliases required read set).read text (set value) := by
  intro rest hrest
  simp only [Field.of, h rest hrest, Except.map]

theorem Field.ignoresBlanks_of {α β : Type} {name : String} {aliases : List String}
    {required : Bool} {read : Reader β} {set : β → α → α} (h : IgnoresBlanks read) :
    IgnoresBlanks (Field.of name aliases required read set).read := by
  intro input
  simp only [Field.of, h input]

theorem member_accepts {α : Type} {shape : Shape α} (layout : Layout) {draft : Draft α}
    {key : String} {text : List Char} {field : Field α} {change : α → α}
    (hfield : shape.fields.find? (·.isNamed key) = some field)
    (hnew : draft.given.contains field.name = false)
    (hread : Accepts field.read text change) (hblanks : IgnoresBlanks field.read)
    {rest : Input} (hrest : Delimited rest) :
    ∃ input, (layout.member (key, text)).map some ++ rest = some '"' :: input ∧
      shape.member draft input =
        .ok (⟨change draft.value, field.name :: draft.given⟩, rest) := by
  refine ⟨(key.toList.flatMap escapeChar).map some ++
    some '"' :: some ':' :: ((layout.space ++ text).map some ++ rest), ?_, ?_⟩
  · simp [Layout.member, quote]
  · have hvalue := hread.blank_append hblanks layout.space_blank rest hrest
    have hcolon : Read.colon (some ':' :: ((layout.space ++ text).map some ++ rest)) =
        .ok ((layout.space ++ text).map some ++ rest) := by
      rw [Read.colon, skipBlanks_cons rfl]
      rfl
    rw [Shape.member]
    simp only [textBody_escaped, ok_bind, String.ofList_toList, hfield, hnew, Bool.false_eq_true,
      if_false, hcolon, hvalue, mapError_ok, pure_eq_ok]

theorem ignoresBlanks_members {α : Type} (shape : Shape α) (fuel : Nat) (draft : Draft α) :
    IgnoresBlanks (shape.members fuel draft) := by
  intro input
  cases fuel with
  | zero => rfl
  | succ fuel => rw [Shape.members, Shape.members, skipBlanks_skipBlanks]

/-- Members are read one after the other. One unit of fuel is enough for each of them. -/
theorem members_accepts {α : Type} {shape : Shape α} (layout : Layout) {draft final : Draft α}
    {entries : List (String × List Char)} (h : shape.Fills draft entries final) :
    ∀ {entry : String × List Char} {entries' : List (String × List Char)} {fuel : Nat}
      (rest : Input), entries = entry :: entries' → entries'.length < fuel →
        shape.members fuel draft
            ((layout.member entry ++ layout.tail '\x7d' (entries'.map layout.member)).map some ++
              rest) =
          .ok (final, rest) := by
  induction h with
  | done draft =>
    intro entry entries' fuel rest hentries
    cases hentries
  | @member draft final key text field change members hfield hnew hread hblanks hmembers ih =>
    intro entry entries' fuel rest hentries hfuel
    obtain ⟨rfl, rfl⟩ := List.cons.inj hentries
    obtain ⟨fuel, rfl⟩ := Nat.exists_eq_add_one.mpr (Nat.lt_of_le_of_lt (Nat.zero_le _) hfuel)
    have hdelimited :=
      layout.delimited_tail '\x7d' (by decide) (members.map layout.member) rest
    obtain ⟨input, hinput, hmember⟩ :=
      member_accepts layout hfield hnew hread hblanks hdelimited
    rw [List.map_append, List.append_assoc, hinput, Shape.members, skipBlanks_cons rfl]
    simp only [hmember, ok_bind]
    cases hmembers with
    | done =>
      simp only [List.map_nil, layout.skipBlanks_tail_nil '\x7d' (by decide), pure_eq_ok]
    | @member _ _ key' text' _ _ members' =>
      have hmore := @ih (key', text') members' fuel rest rfl (Nat.lt_of_succ_lt_succ hfuel)
      simp only [List.map_cons, layout.skipBlanks_tail_cons]
      rw [← ignoresBlanks_members, skipBlanks_append layout.gap_blank, ignoresBlanks_members]
      exact hmore

/-- An object is accepted for the record that its members make. -/
theorem accepts_object {α : Type} {shape : Shape α} (layout : Layout)
    {entries : List (String × List Char)} {final : Draft α}
    (h : shape.Fills shape.draft entries final) (hmissing : shape.missing? final = none) :
    Accepts shape.read (layout.object entries) final.value := by
  intro rest hrest
  have hobject : ∀ input, shape.read (some '\x7b' :: input) = shape.object input := by
    intro input
    rw [Shape.read, skipBlanks_cons rfl]
    rfl
  cases entries with
  | nil =>
    cases h
    rw [Layout.object, List.map_nil, Layout.enclose, List.map_cons, List.cons_append, hobject,
      Shape.object]
    simp only [List.map_cons, List.map_nil, List.cons_append, List.nil_append,
      skipBlanks_cons (show Read.isBlank (some '\x7d') = false by decide), pure_eq_ok, ok_bind,
      hmissing]
  | cons entry entries =>
    have hopen : (layout.object (entry :: entries)).map some ++ rest =
        some '\x7b' :: (layout.gap.map some ++ ((layout.member entry ++
          layout.tail '\x7d' (entries.map layout.member)).map some ++ rest)) := by
      simp [Layout.object, Layout.enclose]
    have hquote : ∃ input, (layout.member entry ++
        layout.tail '\x7d' (entries.map layout.member)).map some ++ rest = some '"' :: input := by
      simp [Layout.member, quote]
    obtain ⟨input, hinput⟩ := hquote
    have hfuel : entries.length < (some '"' :: input).length := by
      have htail := layout.length_le_length_tail '\x7d' (entries.map layout.member)
      rw [← hinput]
      simp only [List.length_append, List.length_map] at htail ⊢
      omega
    have hmembers := members_accepts layout h rest rfl hfuel
    rw [hinput] at hmembers
    rw [hopen, hobject, Shape.object, skipBlanks_append layout.gap_blank, hinput,
      skipBlanks_cons rfl]
    split
    · rename_i heq
      simp at heq
    · simp only [hmembers, ok_bind, hmissing, pure_eq_ok]

end PrologTokens.Json
