import PrologTokens.Proofs.Json.Deciding
import PrologTokens.Proofs.Json.Object

/-!
# Which objects a record is read from

The members of an object lead a record from one state to the next: a member that names no field
leaves it as it is, a member that names a new field sets that field, and no other member leads
anywhere. A record is read from a document exactly if the members lead to a state in which no
field is missing, and the values of the record are those of that state. This is
`decode_document`; it holds for every type of records whose fields take up or refuse each value
there can be.
-/

set_option autoImplicit false

namespace PrologTokens.Json

variable {α γ : Type}

/-! ## Steps -/

/-- The field takes up or refuses each value there can be. -/
structure Field.Decisive (field : Field α) : Prop where
  ignoresBlanks : IgnoresBlanks field.read
  decides : ∀ {text : List Char}, IsValue text →
    (∃ change, Accepts field.read text change) ∨ Refuses field.read text

theorem Decides.decisive {read : Reader γ} {Means : List Char → γ → Prop} (h : Decides read Means)
    (name : String) (aliases : List String) (required : Bool) (set : γ → α → α) :
    (Field.of name aliases required read set).Decisive where
  ignoresBlanks := Field.ignoresBlanks_of h.ignoresBlanks
  decides := by
    intro text htext
    by_cases hmeans : ∃ value, Means text value
    · obtain ⟨value, hvalue⟩ := hmeans
      exact .inl ⟨set value, Field.accepts_of (h.accepts hvalue)⟩
    · refine .inr fun rest hrest => ?_
      obtain ⟨fault, hread⟩ := h.refuses htext (not_exists.mp hmeans) rest hrest
      exact ⟨fault, by simp only [Field.of, hread, Except.map]⟩

namespace Shape

variable {shape : Shape α}

/-- The step that a member makes from one state of a record to the next. -/
inductive Step (shape : Shape α) (draft : Draft α) (member : Member) : Draft α → Prop where
  | skipped (hname : shape.fields.find? (·.isNamed member.key) = none) :
      Step shape draft member draft
  | given {field : Field α} {change : α → α}
      (hname : shape.fields.find? (·.isNamed member.key) = some field)
      (hnew : field.name ∉ draft.given) (hvalue : Accepts field.read member.value.text change) :
      Step shape draft member ⟨change draft.value, field.name :: draft.given⟩

/-- The members lead from one state of a record to another. -/
inductive Takes (shape : Shape α) : Draft α → List Member → Draft α → Prop where
  | done (draft : Draft α) : Takes shape draft [] draft
  | step {draft next final : Draft α} {member : Member} {members : List Member}
      (first : shape.Step draft member next) (more : Takes shape next members final) :
      Takes shape draft (member :: members) final

/-- A member that names no field changes nothing. -/
theorem step_skipped_iff {draft next : Draft α} {member : Member}
    (hname : shape.fields.find? (·.isNamed member.key) = none) :
    shape.Step draft member next ↔ next = draft := by
  refine ⟨fun h => ?_, fun h => h ▸ .skipped hname⟩
  cases h with
  | skipped _ => rfl
  | given hname' _ _ =>
    rw [hname] at hname'
    cases hname'

/-- A member that names a field sets it, and has to be the first one to do so. -/
theorem step_given_iff {draft next : Draft α} {member : Member} {field : Field α}
    (hname : shape.fields.find? (·.isNamed member.key) = some field) :
    shape.Step draft member next ↔ field.name ∉ draft.given ∧
      ∃ change, Accepts field.read member.value.text change ∧
        next = ⟨change draft.value, field.name :: draft.given⟩ := by
  refine ⟨fun h => ?_, fun ⟨hnew, _, hvalue, hnext⟩ => hnext ▸ .given hname hnew hvalue⟩
  cases h with
  | skipped hname' =>
    rw [hname] at hname'
    cases hname'
  | given hname' hnew hvalue =>
    rw [hname] at hname'
    obtain rfl := Option.some.inj hname'
    exact ⟨hnew, _, hvalue, rfl⟩

theorem Step.unique {draft next next' : Draft α} {member : Member}
    (h : shape.Step draft member next) (h' : shape.Step draft member next') : next = next' := by
  cases h with
  | skipped hname => exact ((step_skipped_iff hname).mp h').symm
  | given hname _ hvalue =>
    obtain ⟨-, change, hvalue', rfl⟩ := (step_given_iff hname).mp h'
    rw [hvalue.unique hvalue']

/-- Members lead to one state at most. -/
theorem Takes.unique {draft final final' : Draft α} {members : List Member}
    (h : shape.Takes draft members final) (h' : shape.Takes draft members final') :
    final = final' := by
  induction h with
  | done draft =>
    cases h'
    rfl
  | step first _ ih =>
    cases h' with
    | step first' more' => exact ih (first.unique first' ▸ more')

/-! ## Reading members -/

/-- The result is the state that there has to be, with the given input behind it, or an error if
there is none. -/
def LeadsTo (result : Except Fault (Draft α × Input)) (rest : Input)
    (IsNext : Draft α → Prop) : Prop :=
  (∃ next, result = .ok (next, rest) ∧ IsNext next) ∨
    (∃ fault, result = .error fault) ∧ ∀ next, ¬ IsNext next

variable (hdecisive : ∀ field ∈ shape.fields, field.Decisive)

include hdecisive in
/-- One member is read as the step that it makes. -/
theorem member_leadsTo (draft : Draft α) {member : Member} (hmember : IsValue member.value.text)
    {body : List Char} (hbody : IsTextBody body member.key.toList) {rest : Input}
    (hrest : Delimited rest) :
    LeadsTo (shape.member draft (body.map some ++ some '"' ::
        (member.name.behind.map some ++ some ':' :: (member.value.written.map some ++ rest))))
      (member.value.behind.map some ++ rest) (shape.Step draft member) := by
  have hcolon : Read.colon (member.name.behind.map some ++ some ':' ::
      (member.value.written.map some ++ rest)) = .ok (member.value.written.map some ++ rest) := by
    rw [Read.colon, skipBlanks_append member.name.behind_blank, skipBlanks_cons rfl]
    rfl
  rw [Shape.member, textBody_isTextBody hbody]
  simp only [ok_bind, String.ofList_toList]
  cases hname : shape.fields.find? (·.isNamed member.key) with
  | none =>
    refine .inl ⟨draft, ?_, .skipped hname⟩
    simp only [hcolon, ok_bind, skip_isValue hmember hrest, pure_eq_ok]
  | some field =>
    have hfield := hdecisive field (List.mem_of_find?_eq_some hname)
    have hbehind := member.value.delimited_behind hrest
    by_cases hnew : field.name ∈ draft.given
    · refine .inr ⟨⟨.mismatch [] (.duplicateField field.name), ?_⟩, fun next h => ?_⟩
      · simp only [List.contains_iff_mem.mpr hnew, if_true]
        rfl
      · exact ((step_given_iff hname).mp h).1 hnew
    · have hcontains : draft.given.contains field.name = false := by simpa using hnew
      simp only [hcontains, Bool.false_eq_true, if_false, hcolon, ok_bind,
        hfield.ignoresBlanks.read_written]
      rcases hfield.decides hmember with ⟨change, hvalue⟩ | hrefused
      · refine .inl ⟨⟨change draft.value, field.name :: draft.given⟩, ?_, .given hname hnew hvalue⟩
        simp only [hvalue _ hbehind, mapError_ok, ok_bind, pure_eq_ok]
      · obtain ⟨fault, hread⟩ := hrefused _ hbehind
        refine .inr ⟨⟨fault.within (.member member.key), ?_⟩, fun next h => ?_⟩
        · simp only [hread, mapError_error]
          rfl
        · obtain ⟨-, _, hvalue, -⟩ := (step_given_iff hname).mp h
          exact hrefused.not_accepts hvalue

include hdecisive in
/-- Behind a member that makes a step the reader stops or goes on with the next one. -/
theorem members_member (draft : Draft α) {member : Member} (hmember : IsValue member.value.text)
    (parts : List (List Char)) (fuel : Nat) (rest : Input) :
    (∃ next, shape.Step draft member next ∧
      (parts = [] → shape.members (fuel + 1) draft
        ((member.written ++ closed '\x7d' parts).map some ++ rest) = .ok (next, rest)) ∧
      ∀ part parts', parts = part :: parts' → shape.members (fuel + 1) draft
        ((member.written ++ closed '\x7d' parts).map some ++ rest) =
          shape.members fuel next ((part ++ closed '\x7d' parts').map some ++ rest)) ∨
    (∃ fault,
      shape.members (fuel + 1) draft ((member.written ++ closed '\x7d' parts).map some ++ rest) =
        .error fault) ∧ ∀ next, ¬ shape.Step draft member next := by
  have hbracket : '\x7d' ∈ [']', '\x7d'] := by decide
  obtain ⟨body, hbody, hwritten⟩ := member.written_append
  have hopen :
      Read.skipBlanks ((member.written ++ closed '\x7d' parts).map some ++ rest) = some '"' ::
        (body.map some ++ some '"' :: (member.name.behind.map some ++ some ':' ::
          (member.value.written.map some ++ ((closed '\x7d' parts).map some ++ rest)))) := by
    rw [List.map_append, List.append_assoc, hwritten, skipBlanks_append member.name.before_blank,
      skipBlanks_cons rfl]
  have hclosed := skipBlanks_closed member.value.behind_blank hbracket parts rest
  rw [Shape.members]
  simp only [hopen]
  rcases member_leadsTo hdecisive draft hmember hbody (delimited_closed hbracket parts rest) with
    ⟨next, hread, hstep⟩ | ⟨⟨fault, hread⟩, hno⟩
  · simp only [hread, ok_bind, hclosed]
    refine .inl ⟨next, hstep, ?_, ?_⟩
    · rintro rfl
      rfl
    · rintro part parts' rfl
      rfl
  · exact .inr ⟨⟨fault, by rw [hread]; rfl⟩, hno⟩

include hdecisive in
/-- Members are read as the steps that they make. The induction is over the members to come;
each of them takes one unit of fuel. -/
theorem members_leadsTo (members : List Member) :
    ∀ {draft : Draft α} {member : Member} {fuel : Nat} (rest : Input),
      (∀ m ∈ member :: members, IsValue m.value.text) → members.length < fuel →
        LeadsTo (shape.members fuel draft
            ((member.written ++ closed '\x7d' (members.map Member.written)).map some ++ rest))
          rest (shape.Takes draft (member :: members)) := by
  induction members with
  | nil =>
    intro draft member fuel rest h hfuel
    obtain ⟨fuel, rfl⟩ := Nat.exists_eq_add_one.mpr hfuel
    rcases members_member hdecisive draft (h member List.mem_cons_self) [] fuel rest with
      ⟨next, hstep, hread, -⟩ | ⟨hread, hno⟩
    · exact .inl ⟨next, hread rfl, .step hstep (.done next)⟩
    · refine .inr ⟨hread, fun final hfinal => ?_⟩
      cases hfinal with
      | step first _ => exact hno _ first
  | cons other members ih =>
    intro draft member fuel rest h hfuel
    obtain ⟨fuel, rfl⟩ := Nat.exists_eq_add_one.mpr (Nat.lt_of_le_of_lt (Nat.zero_le _) hfuel)
    rcases members_member hdecisive draft (h member List.mem_cons_self)
      ((other :: members).map Member.written) fuel rest with ⟨next, hstep, -, hread⟩ | ⟨hread, hno⟩
    · have hmore := @ih next other fuel rest (fun m hm => h m (List.mem_cons_of_mem member hm))
        (Nat.lt_of_succ_lt_succ hfuel)
      rw [hread _ _ rfl]
      rcases hmore with ⟨final, hmore, htakes⟩ | ⟨hmore, hno⟩
      · exact .inl ⟨final, hmore, .step hstep htakes⟩
      · refine .inr ⟨hmore, fun final hfinal => ?_⟩
        cases hfinal with
        | step first more => exact hno _ (hstep.unique first ▸ more)
    · refine .inr ⟨hread, fun final hfinal => ?_⟩
      cases hfinal with
      | step first _ => exact hno _ first

theorem length_lt_length_closed (closing : Char) (parts : List (List Char)) :
    parts.length < (closed closing parts).length := by
  induction parts with
  | nil => exact Nat.one_pos
  | cons part parts ih =>
    simp only [closed, List.length_append, List.length_cons]
    omega

include hdecisive in
/-- What stands between the braces of a document is read as the steps that its members make. -/
theorem between_leadsTo (document : Document) (rest : Input) :
    ∃ input, document.object.map some ++ rest = some '\x7b' :: input ∧
      LeadsTo (shape.between input) rest (shape.Takes shape.draft document.members) := by
  obtain ⟨members, before, between, behind, hmembers, hbefore, hbetween, hbehind⟩ := document
  cases members with
  | nil =>
    refine ⟨between.map some ++ some '\x7d' :: rest, by simp [Document.object, bracketed], ?_⟩
    have hclosing : Read.skipBlanks (between.map some ++ some '\x7d' :: rest) =
        some '\x7d' :: rest := by
      rw [skipBlanks_append hbetween, skipBlanks_cons rfl]
    exact .inl ⟨shape.draft, between_of_closing hclosing, .done _⟩
  | cons member members =>
    refine
      ⟨(member.written ++ closed '\x7d' (members.map Member.written)).map some ++ rest, rfl, ?_⟩
    have hfuel : members.length < (Read.skipBlanks ((member.written ++
        closed '\x7d' (members.map Member.written)).map some ++ rest)).length := by
      obtain ⟨body, -, hwritten⟩ := member.written_append
      have hclosed := length_lt_length_closed '\x7d' (members.map Member.written)
      rw [List.length_map] at hclosed
      rw [List.map_append, List.append_assoc, hwritten, skipBlanks_append member.name.before_blank,
        skipBlanks_cons rfl]
      simp only [List.length_append, List.length_cons, List.length_map]
      omega
    rw [between_of_not_closing (member.not_closing _ rest), ignoresBlanks_members]
    exact members_leadsTo hdecisive members rest hmembers hfuel

/-! ## Reading documents -/

include hdecisive in
/-- A record is read from a document exactly if the members lead to a state in which no field is
missing. -/
theorem decode_document (document : Document) (value : α) :
    decode shape.read (.ofString document.text) = .ok value ↔
      ∃ final, shape.Takes shape.draft document.members final ∧ shape.missing? final = none ∧
        final.value = value := by
  have hend : Read.skipBlanks (document.behind.map some) = [] := by
    have hskip := skipBlanks_append document.behind_blank []
    rwa [List.append_nil] at hskip
  obtain ⟨input, hinput, hbetween⟩ := between_leadsTo hdecisive document (document.behind.map some)
  have hread : shape.read (.ofString document.text) =
      shape.between input >>= fun read => shape.close read.1 read.2 := by
    rw [Input.ofString, Document.text, String.toList_ofList, List.append_assoc, List.map_append,
      List.map_append, hinput, Shape.read, skipBlanks_append document.before_blank,
      skipBlanks_cons rfl,
      ← object_eq]
    rfl
  rw [decode, hread]
  rcases hbetween with ⟨final, hbetween, htakes⟩ | ⟨⟨fault, hbetween⟩, hno⟩
  · rw [hbetween, ok_bind]
    constructor
    · intro h
      obtain ⟨⟨_, _⟩, hclose, h⟩ := bind_eq_ok.mp h
      obtain ⟨hnone, rfl, rfl⟩ := close_eq_ok.mp hclose
      simp only [hend, pure_eq_ok] at h
      exact ⟨final, htakes, hnone, Except.ok.inj h⟩
    · rintro ⟨final', htakes', hnone, rfl⟩
      obtain rfl := htakes.unique htakes'
      rw [close_eq_ok.mpr ⟨hnone, rfl, rfl⟩, ok_bind]
      simp only [hend, pure_eq_ok]
  · rw [hbetween]
    constructor
    · intro h
      cases h
    · rintro ⟨final, htakes, -⟩
      exact absurd htakes (hno final)

end Shape
end PrologTokens.Json
