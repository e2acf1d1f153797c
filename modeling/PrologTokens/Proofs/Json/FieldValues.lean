import Mathlib.Data.List.Nodup
import Mathlib.Data.List.Pairwise
import PrologTokens.Proofs.Json.Members

/-!
# What a document says of the fields of a record

The members of an object that go by the names of a field give the values of the field. There may
be one at most: then the record has this value in the field, and if there is none it has its
default. This holds of each field for itself, whatever the other members are and in whatever
order they come.

Fields have to be told apart by their names, which is `Shape.NamesApart`. The main statements
are `Shape.exists_decode_iff`, on whether a record is read, and `Shape.Shows.decode_settles`, on
its values.
-/

set_option autoImplicit false

namespace PrologTokens.Json

variable {α γ : Type}

/-- What the texts given for a field say of its value: a single text says what it means, and
where there is none it is the default. More than one text says nothing. -/
inductive Settles (Means : List Char → γ → Prop) (default : γ) : List (List Char) → γ → Prop where
  | absent : Settles Means default [] default
  | given {text : List Char} {value : γ} (h : Means text value) : Settles Means default [text] value

theorem Settles.exists_means {Means : List Char → γ → Prop} {default value : γ}
    {texts : List (List Char)} (h : Settles Means default texts value) :
    texts = [] ∨ ∃ text value, texts = [text] ∧ Means text value := by
  cases h with
  | absent => exact .inl rfl
  | given h => exact .inr ⟨_, _, rfl, h⟩

theorem Settles.unique {Means : List Char → γ → Prop} {default value value' : γ}
    {texts : List (List Char)} (h : Settles Means default texts value)
    (h' : Settles Means default texts value') (hmeans : ∀ text value value', Means text value →
      Means text value' → value = value') :
    value = value' := by
  cases h with
  | absent =>
    cases h'
    rfl
  | given h =>
    cases h' with
    | given h' => exact hmeans _ _ _ h h'

/-- The values, as they are written, of the members that name the field. -/
def Field.valuesIn (field : Field α) (members : List Member) : List (List Char) :=
  (members.filter fun member => field.isNamed member.key).map (·.value.text)

theorem Field.valuesIn_cons_of_named {field : Field α} {member : Member}
    (h : field.isNamed member.key = true) (members : List Member) :
    field.valuesIn (member :: members) = member.value.text :: field.valuesIn members := by
  simp only [valuesIn, List.filter_cons, h, if_true, List.map_cons]

theorem Field.valuesIn_cons_of_not_named {field : Field α} {member : Member}
    (h : field.isNamed member.key = false) (members : List Member) :
    field.valuesIn (member :: members) = field.valuesIn members := by
  simp only [valuesIn, List.filter_cons, h, Bool.false_eq_true, if_false]

/-- The names that stand for the field. -/
def Field.names (field : Field α) : List String := field.name :: field.aliases

theorem Field.isNamed_iff_mem_names {field : Field α} {key : String} :
    field.isNamed key = true ↔ key ∈ field.names := by
  rw [isNamed, names, List.mem_cons, Bool.or_eq_true, decide_eq_true_eq,
    List.contains_iff_mem, eq_comm]

/-- Reading the field does not change a part of the record. -/
def Field.Preserves (field : Field α) (get : α → γ) : Prop :=
  ∀ {input rest : Input} {change : α → α}, field.read input = .ok (change, rest) →
    ∀ record, get (change record) = get record

theorem Field.preserves_of {δ : Type} {name : String} {aliases : List String} {required : Bool}
    {read : Reader δ} {set : δ → α → α} {get : α → γ}
    (h : ∀ value record, get (set value record) = get record) :
    (Field.of name aliases required read set).Preserves get := by
  intro input rest change hread record
  obtain ⟨value, -, rfl⟩ := Field.of_read_eq_ok.mp hread
  exact h value record

theorem Field.isNamed_name (field : Field α) : field.isNamed field.name = true :=
  isNamed_iff_mem_names.mpr List.mem_cons_self

/-! ## Fields for one kind of values -/

section

variable {read : Reader γ} {Means : List Char → γ → Prop} {name : String} {aliases : List String}
  {required : Bool} {set : γ → α → α}

/-- The field takes up the texts that mean something, and is set to what they mean. -/
theorem Decides.field_accepts_iff (h : Decides read Means) {text : List Char} (htext : IsValue text)
    {change : α → α} : Accepts (Field.of name aliases required read set).read text change ↔
      ∃ value, Means text value ∧ set value = change := by
  constructor
  · intro haccepts
    obtain ⟨value, hread, hset⟩ := Field.of_read_eq_ok.mp (haccepts [] delimited_nil)
    refine ⟨value, ?_, hset⟩
    by_cases hmeans : ∃ value, Means text value
    · obtain ⟨value', hvalue'⟩ := hmeans
      rw [h.accepts hvalue' [] delimited_nil] at hread
      exact (Prod.mk.inj (Except.ok.inj hread)).1 ▸ hvalue'
    · obtain ⟨fault, hrefused⟩ := h.refuses htext (not_exists.mp hmeans) [] delimited_nil
      rw [hrefused] at hread
      cases hread
  · rintro ⟨value, hvalue, rfl⟩
    exact Field.accepts_of (h.accepts hvalue)

/-- What a document gives for the field, by the names that stand for it. -/
theorem Field.valuesIn_eq (document : Document) :
    (Field.of name aliases required read set).valuesIn document.members =
      document.valuesOf (name :: aliases) := by
  unfold Field.valuesIn Document.valuesOf
  congr 2
  funext member
  rw [Bool.eq_iff_iff, isNamed_iff_mem_names, decide_eq_true_eq]
  rfl

/-- The document has one value for the field that can be taken up if it has one that means
something. -/
theorem Decides.exists_accepts_iff (h : Decides read Means) (document : Document) :
    (∃ text change, (Field.of name aliases required read set).valuesIn document.members = [text] ∧
      Accepts (Field.of name aliases required read set).read text change) ↔
    ∃ text value, document.valuesOf (name :: aliases) = [text] ∧ Means text value := by
  have hvalue : ∀ {text}, document.valuesOf (name :: aliases) = [text] → IsValue text := by
    intro text hone
    have hmem : text ∈ document.valuesOf (name :: aliases) := hone ▸ List.mem_cons_self
    obtain ⟨member, hmember, rfl⟩ := List.mem_map.mp hmem
    exact document.members_isValue member (List.mem_filter.mp hmember).1
  rw [Field.valuesIn_eq]
  constructor
  · rintro ⟨text, change, hone, haccepts⟩
    obtain ⟨value, hmeans, -⟩ := (h.field_accepts_iff (hvalue hone)).mp haccepts
    exact ⟨text, value, hone, hmeans⟩
  · rintro ⟨text, value, hone, hmeans⟩
    exact ⟨text, set value, hone, Field.accepts_of (h.accepts hmeans)⟩

end

namespace Shape

variable {shape : Shape α} {field : Field α}

theorem isNamed_of_find? {key : String}
    (hfind : shape.fields.find? (·.isNamed key) = some field) : field.isNamed key = true :=
  List.find?_some (p := fun f : Field α => f.isNamed key) hfind

/-- No name stands for two fields, or twice for one. -/
def NamesApart (shape : Shape α) : Prop := (shape.fields.flatMap Field.names).Nodup

/-- The field that a name stands for is found. -/
theorem NamesApart.find? (h : shape.NamesApart) (hfield : field ∈ shape.fields) {key : String}
    (hkey : field.isNamed key = true) : shape.fields.find? (·.isNamed key) = some field := by
  cases hfind : shape.fields.find? (·.isNamed key) with
  | none => exact absurd hkey (List.find?_eq_none.mp hfind field hfield)
  | some other =>
    have hother : key ∈ other.names := Field.isNamed_iff_mem_names.mp (isNamed_of_find? hfind)
    by_contra hne
    have : Std.Symm (Function.onFun List.Disjoint (Field.names : Field α → List String)) :=
      ⟨fun _ _ hdisjoint => List.disjoint_symm hdisjoint⟩
    have hdisjoint : other.names.Disjoint field.names :=
      (List.nodup_flatMap.mp h).2.forall (List.mem_of_find?_eq_some hfind) hfield
        fun heq => hne (congrArg some heq)
    exact hdisjoint hother (Field.isNamed_iff_mem_names.mp hkey)

/-- Fields of the same name are the same. -/
theorem NamesApart.eq_of_name (h : shape.NamesApart) (hfield : field ∈ shape.fields)
    {other : Field α} (hother : other ∈ shape.fields) (hname : other.name = field.name) :
    other = field := by
  have hfind := h.find? hother other.isNamed_name
  rw [hname, h.find? hfield field.isNamed_name] at hfind
  exact (Option.some.inj hfind).symm

/-- A member that does not name the field leaves it as given or not given. -/
theorem Step.mem_given_iff (hnames : shape.NamesApart) (hfield : field ∈ shape.fields)
    {draft next : Draft α} {member : Member} (hstep : shape.Step draft member next)
    (hkey : field.isNamed member.key = false) :
    field.name ∈ next.given ↔ field.name ∈ draft.given := by
  cases hstep with
  | skipped _ => exact Iff.rfl
  | @given other change hname _ _ =>
    have hne : field.name ≠ other.name := by
      intro heq
      obtain rfl := hnames.eq_of_name hfield (List.mem_of_find?_eq_some hname) heq.symm
      rw [isNamed_of_find? hname] at hkey
      cases hkey
    rw [List.mem_cons, or_iff_right hne]

/-- A member that names the field gives it, and sets it to its value. -/
theorem step_named_iff (hnames : shape.NamesApart) (hfield : field ∈ shape.fields)
    {draft next : Draft α} {member : Member} (hkey : field.isNamed member.key = true) :
    shape.Step draft member next ↔ field.name ∉ draft.given ∧ ∃ change,
      Accepts field.read member.value.text change ∧
        next = ⟨change draft.value, field.name :: draft.given⟩ :=
  step_given_iff (hnames.find? hfield hkey)

/-! ## Whether a record is read -/

/-- The members that name the field can be taken: there is none, or one with a value for the
field, which has not been given before. -/
def Takeable (draft : Draft α) (members : List Member) (field : Field α) : Prop :=
  field.valuesIn members = [] ∨ field.name ∉ draft.given ∧ ∃ text change,
    field.valuesIn members = [text] ∧ Accepts field.read text change

/-- A step changes nothing in what can be taken. -/
theorem Step.takeable_iff (hnames : shape.NamesApart) (hfield : field ∈ shape.fields)
    {draft next : Draft α} {member : Member} (hstep : shape.Step draft member next)
    (members : List Member) :
    Takeable draft (member :: members) field ↔ Takeable next members field := by
  cases hkey : field.isNamed member.key with
  | false =>
    rw [Takeable, Takeable, Field.valuesIn_cons_of_not_named hkey,
      hstep.mem_given_iff hnames hfield hkey]
  | true =>
    obtain ⟨hnew, change, hvalue, rfl⟩ := (step_named_iff hnames hfield hkey).mp hstep
    rw [Takeable, Takeable, Field.valuesIn_cons_of_named hkey]
    constructor
    · rintro (hnil | ⟨-, _, _, hone, -⟩)
      · cases hnil
      · exact .inl (List.cons.inj hone).2
    · rintro (hnil | ⟨hnew', -⟩)
      · exact .inr ⟨hnew, member.value.text, change, by rw [hnil], hvalue⟩
      · exact absurd List.mem_cons_self hnew'

/-- A member that can be taken makes a step. -/
theorem exists_step {draft : Draft α} {member : Member} {members : List Member}
    (h : ∀ field ∈ shape.fields, Takeable draft (member :: members) field) :
    ∃ next, shape.Step draft member next := by
  cases hname : shape.fields.find? (·.isNamed member.key) with
  | none => exact ⟨draft, .skipped hname⟩
  | some field =>
    have htake := h field (List.mem_of_find?_eq_some hname)
    rw [Takeable, Field.valuesIn_cons_of_named (isNamed_of_find? hname)] at htake
    rcases htake with hnil | ⟨hnew, text, change, hone, hvalue⟩
    · cases hnil
    · obtain ⟨rfl, -⟩ := List.cons.inj hone
      exact ⟨_, .given hname hnew hvalue⟩

/-- The members lead somewhere exactly if those of each field can be taken. -/
theorem exists_takes_iff (hnames : shape.NamesApart) (members : List Member) :
    ∀ {draft : Draft α}, (∃ final, shape.Takes draft members final) ↔
      ∀ field ∈ shape.fields, Takeable draft members field := by
  induction members with
  | nil =>
    intro draft
    exact ⟨fun _ _ _ => .inl rfl, fun _ => ⟨draft, .done draft⟩⟩
  | cons member members ih =>
    intro draft
    constructor
    · rintro ⟨final, htakes⟩ field hfield
      cases htakes with
      | step first more =>
        exact (first.takeable_iff hnames hfield members).mpr (ih.mp ⟨final, more⟩ field hfield)
    · intro h
      obtain ⟨next, hstep⟩ := exists_step h
      obtain ⟨final, hmore⟩ := ih.mpr fun field hfield =>
        (hstep.takeable_iff hnames hfield members).mp (h field hfield)
      exact ⟨final, .step hstep hmore⟩

/-- The fields that are given are those that members name. -/
theorem Takes.mem_given_iff (hnames : shape.NamesApart) (hfield : field ∈ shape.fields)
    {draft final : Draft α} {members : List Member} (h : shape.Takes draft members final) :
    field.name ∈ final.given ↔ field.name ∈ draft.given ∨ field.valuesIn members ≠ [] := by
  induction h with
  | done draft => simp [Field.valuesIn]
  | @step draft next final member members first _ ih =>
    rw [ih]
    cases hkey : field.isNamed member.key with
    | false => rw [first.mem_given_iff hnames hfield hkey, Field.valuesIn_cons_of_not_named hkey]
    | true =>
      obtain ⟨-, _, -, rfl⟩ := (step_named_iff hnames hfield hkey).mp first
      rw [Field.valuesIn_cons_of_named hkey]
      simp

/-- No field is missing exactly if members name all required ones. -/
theorem Takes.missing?_eq_none_iff (hnames : shape.NamesApart) {final : Draft α}
    {members : List Member} (h : shape.Takes shape.draft members final) :
    shape.missing? final = none ↔
      ∀ field ∈ shape.fields, field.required = true → field.valuesIn members ≠ [] := by
  rw [Shape.missing?, List.find?_eq_none]
  refine forall₂_congr fun field hfield => ?_
  have hgiven : field.name ∈ final.given ↔ field.valuesIn members ≠ [] := by
    rw [h.mem_given_iff hnames hfield]
    exact or_iff_right List.not_mem_nil
  rw [← hgiven]
  simp

/-- A record is read from a document exactly if each of its fields has one value there that can
be taken up, or none at all unless it is required. -/
theorem exists_decode_iff (hdecisive : ∀ field ∈ shape.fields, field.Decisive)
    (hnames : shape.NamesApart) (document : Document) :
    (∃ value, decode shape.read (.ofString document.text) = .ok value) ↔ ∀ field ∈ shape.fields,
      field.valuesIn document.members = [] ∧ field.required = false ∨
        ∃ text change, field.valuesIn document.members = [text] ∧
          Accepts field.read text change := by
  constructor
  · rintro ⟨value, hdecode⟩ field hfield
    obtain ⟨final, htakes, hnone, -⟩ := (decode_document hdecisive document value).mp hdecode
    rcases (exists_takes_iff hnames _).mp ⟨final, htakes⟩ field hfield with hnil | ⟨-, htaken⟩
    · refine .inl ⟨hnil, Bool.eq_false_iff.mpr fun hrequired => ?_⟩
      exact (htakes.missing?_eq_none_iff hnames).mp hnone field hfield hrequired hnil
    · exact .inr htaken
  · intro h
    have htakeable : ∀ field ∈ shape.fields, Takeable shape.draft document.members field :=
      fun field hfield => (h field hfield).imp And.left fun htaken => ⟨List.not_mem_nil, htaken⟩
    obtain ⟨final, htakes⟩ := (exists_takes_iff hnames _).mpr htakeable
    refine ⟨final.value, (decode_document hdecisive document _).mpr ⟨final, htakes, ?_, rfl⟩⟩
    refine (htakes.missing?_eq_none_iff hnames).mpr fun field hfield hrequired hnil => ?_
    rcases h field hfield with ⟨-, hoptional⟩ | ⟨text, _, hone, -⟩
    · rw [hrequired] at hoptional
      cases hoptional
    · rw [hnil] at hone
      cases hone

/-! ## The values of a record -/

/-- The value of the field is seen in the records, and other fields do not change it. -/
structure Shows (shape : Shape α) (field : Field α) (Means : List Char → γ → Prop) (get : α → γ) :
    Prop where
  mem : field ∈ shape.fields
  means : ∀ {text : List Char} {change : α → α}, IsValue text → Accepts field.read text change →
    ∀ record, Means text (get (change record))
  kept : ∀ other ∈ shape.fields, other.name ≠ field.name → other.Preserves get

variable {Means : List Char → γ → Prop} {get : α → γ}

/-- A field of a kind of values shows what their texts mean. -/
theorem Shows.of {read : Reader γ} (hdecides : Decides read Means) {name : String}
    {aliases : List String} {required : Bool} {set : γ → α → α}
    (hmem : Field.of name aliases required read set ∈ shape.fields)
    (hget : ∀ value record, get (set value record) = value)
    (hkept : ∀ other ∈ shape.fields, other.name ≠ name → other.Preserves get) :
    Shows shape (Field.of name aliases required read set) Means get where
  mem := hmem
  means := by
    intro text change htext haccepts record
    obtain ⟨value, hvalue, rfl⟩ := (hdecides.field_accepts_iff htext).mp haccepts
    rwa [hget]
  kept := hkept

/-- A member that does not name the field does not change its value. -/
theorem Shows.step_kept (h : Shows shape field Means get) (hnames : shape.NamesApart)
    {draft next : Draft α} {member : Member} (hstep : shape.Step draft member next)
    (hkey : field.isNamed member.key = false) :
    get next.value = get draft.value := by
  cases hstep with
  | skipped _ => rfl
  | @given other change hname _ hvalue =>
    have hother := List.mem_of_find?_eq_some hname
    refine h.kept other hother (fun heq => ?_) (hvalue [] delimited_nil) _
    obtain rfl := hnames.eq_of_name h.mem hother heq
    rw [isNamed_of_find? hname] at hkey
    cases hkey

/-- Where no member names the field it keeps its value. -/
theorem Shows.takes_kept (h : Shows shape field Means get) (hnames : shape.NamesApart)
    {draft final : Draft α} {members : List Member} (htakes : shape.Takes draft members final)
    (hnil : field.valuesIn members = []) : get final.value = get draft.value := by
  induction htakes with
  | done draft => rfl
  | @step draft next final member members first _ ih =>
    cases hkey : field.isNamed member.key with
    | false =>
      rw [Field.valuesIn_cons_of_not_named hkey] at hnil
      rw [ih hnil, h.step_kept hnames first hkey]
    | true =>
      rw [Field.valuesIn_cons_of_named hkey] at hnil
      cases hnil

/-- The members that name the field settle its value. -/
theorem Shows.takes_settles (h : Shows shape field Means get) (hnames : shape.NamesApart)
    {draft final : Draft α} {members : List Member} (htakes : shape.Takes draft members final)
    (hvalues : ∀ member ∈ members, IsValue member.value.text) (hnew : field.name ∉ draft.given) :
    Settles Means (get draft.value) (field.valuesIn members) (get final.value) := by
  induction htakes with
  | done draft => exact .absent
  | @step draft next final member members first more ih =>
    have hmore := fun m hm => hvalues m (List.mem_cons_of_mem member hm)
    cases hkey : field.isNamed member.key with
    | false =>
      rw [Field.valuesIn_cons_of_not_named hkey, ← h.step_kept hnames first hkey]
      exact ih hmore fun hgiven => hnew ((first.mem_given_iff hnames h.mem hkey).mp hgiven)
    | true =>
      obtain ⟨-, change, hvalue, rfl⟩ := (step_named_iff hnames h.mem hkey).mp first
      rcases (exists_takes_iff hnames members).mp ⟨final, more⟩ field h.mem with hnil | ⟨hnew', -⟩
      · rw [Field.valuesIn_cons_of_named hkey, hnil, h.takes_kept hnames more hnil]
        exact .given (h.means (hvalues member List.mem_cons_self) hvalue _)
      · exact absurd List.mem_cons_self hnew'

/-- A record that is read from a document has in each field what the document says of it, and
its default where the document says nothing. -/
theorem Shows.decode_settles (h : Shows shape field Means get)
    (hdecisive : ∀ field ∈ shape.fields, field.Decisive) (hnames : shape.NamesApart)
    {document : Document} {value : α}
    (hdecode : decode shape.read (.ofString document.text) = .ok value) :
    Settles Means (get shape.blank) (field.valuesIn document.members) (get value) := by
  obtain ⟨final, htakes, -, rfl⟩ := (decode_document hdecisive document value).mp hdecode
  exact h.takes_settles hnames htakes document.members_isValue List.not_mem_nil

end Shape
end PrologTokens.Json
