import Mathlib.Data.List.Forall2
import PrologTokens.Proofs.Json.Object

/-!
# Two ways to read a record

Two types of records may have fields of the same names, of which those of one type are read more
strictly than those of the other. Then both are read from the same documents, whatever these
are, apart from the values that the stricter type refuses: where the loose reading comes to an
end, the strict one has either gone along with it all the way or has stopped at such a value,
and the value stands in the loose record. It does so until the end, since no field is given
twice.

What has to be shown of two types of records is `Mirror`; the main statement is `Mirror.read`.
-/

set_option autoImplicit false

namespace PrologTokens.Json

variable {α β : Type}

/-- A field is read along with one of the same name: what one reader takes up the other takes up
too, with changes that keep the records in step, or it refuses the value that the first one puts
into its record. -/
structure Field.Follows (InStep : List String → α → β → Prop)
    (Refused : String → Mismatch → α → Prop) (loose : Field α) (strict : Field β) : Prop where
  name_eq : loose.name = strict.name
  aliases_eq : loose.aliases = strict.aliases
  required_eq : loose.required = strict.required
  read : ∀ {input rest : Input} {change : α → α}, loose.read input = .ok (change, rest) →
    (∃ change' : β → β, strict.read input = .ok (change', rest) ∧
      ∀ given value value', InStep given value value' →
        InStep (loose.name :: given) (change value) (change' value')) ∨
    ∃ mismatch, strict.read input = .error (.mismatch [] mismatch) ∧
      ∀ value, Refused loose.name mismatch (change value)

/-- Two fields with the same reader are read along, and nothing is refused. -/
theorem Field.follows_of {γ : Type} {InStep : List String → α → β → Prop}
    {Refused : String → Mismatch → α → Prop} {name : String} {aliases : List String}
    {required : Bool} {read : Reader γ} {set : γ → α → α} {set' : γ → β → β}
    (h : ∀ given value value' part, InStep given value value' →
      InStep (name :: given) (set part value) (set' part value')) :
    Field.Follows InStep Refused (.of name aliases required read set)
      (.of name aliases required read set') where
  name_eq := rfl
  aliases_eq := rfl
  required_eq := rfl
  read := by
    intro input rest change hread
    obtain ⟨part, hpart, rfl⟩ := Field.of_read_eq_ok.mp hread
    exact .inl ⟨set' part, Field.of_read_eq_ok.mpr ⟨part, hpart, rfl⟩,
      fun given value value' hstep => h given value value' part hstep⟩

/-- A strict type of records that is read along with a loose one. -/
structure Mirror (loose : Shape α) (strict : Shape β) where
  /-- The two records agree in the fields with the given names, as far as they have to. -/
  InStep : List String → α → β → Prop
  /-- The value in the field with the given name is refused by the strict type, as the mismatch
  says. -/
  Refused : String → Mismatch → α → Prop
  blank : InStep [] loose.blank strict.blank
  fields : List.Forall₂ (Field.Follows InStep Refused) loose.fields strict.fields
  names_nodup : (loose.fields.map Field.name).Nodup
  /-- A field does not change the values of others. -/
  kept : ∀ field ∈ loose.fields, ∀ {input rest : Input} {change : α → α},
    field.read input = .ok (change, rest) → ∀ {name mismatch value}, field.name ≠ name →
      Refused name mismatch value → Refused name mismatch (change value)

/-- Where one list has an element with a property, so has a list of related elements at the same
place. -/
theorem find?_eq_of_forall₂ {γ δ : Type} {R : γ → δ → Prop} {p : γ → Bool} {q : δ → Bool}
    (hpq : ∀ a b, R a b → p a = q b) {as : List γ} {bs : List δ} (h : List.Forall₂ R as bs) :
    (as.find? p = none ∧ bs.find? q = none) ∨
      ∃ a b, as.find? p = some a ∧ bs.find? q = some b ∧ R a b := by
  induction h with
  | nil => exact .inl ⟨rfl, rfl⟩
  | @cons a b as bs hab _ ih =>
    rw [List.find?_cons, List.find?_cons, hpq a b hab]
    cases q b with
    | true => exact .inr ⟨a, b, rfl, rfl, hab⟩
    | false => exact ih

namespace Mirror

variable {loose : Shape α} {strict : Shape β} (mirror : Mirror loose strict)

/-- The strict reading has gone along, or it has stopped at a value that stands in the loose
record. -/
def Along (given : List String) (value : α) (result : Except Fault (β × Input)) (rest : Input) :
    Prop :=
  (∃ value', result = .ok (value', rest) ∧ mirror.InStep given value value') ∨
    ∃ step name mismatch, result = .error (.mismatch [step] mismatch) ∧
      mirror.Refused name mismatch value

include mirror in
theorem isNamed_eq {field : Field α} {field' : Field β}
    (h : field.Follows mirror.InStep mirror.Refused field') (key : String) :
    field.isNamed key = field'.isNamed key := by
  rw [Field.isNamed, Field.isNamed, h.name_eq, h.aliases_eq]

/-! ## Members -/

/-- A value that is refused stays in the record, as its field is not given again. -/
theorem member_refused {draft draft' : Draft α} {input rest : Input} {name : String}
    {mismatch : Mismatch} (hgiven : name ∈ draft.given)
    (hrefused : mirror.Refused name mismatch draft.value)
    (h : loose.member draft input = .ok (draft', rest)) :
    name ∈ draft'.given ∧ mirror.Refused name mismatch draft'.value := by
  unfold Shape.member at h
  obtain ⟨⟨key, behind⟩, -, h⟩ := bind_eq_ok.mp h
  simp only at h
  split at h
  · obtain ⟨_, -, h⟩ := bind_eq_ok.mp h
    obtain ⟨_, -, h⟩ := bind_eq_ok.mp h
    cases h
    exact ⟨hgiven, hrefused⟩
  · rename_i field hfield
    split at h
    · cases h
    · rename_i hnew
      obtain ⟨_, -, h⟩ := bind_eq_ok.mp h
      obtain ⟨⟨change, _⟩, hread, h⟩ := bind_eq_ok.mp h
      have hne : field.name ≠ name := by
        rintro rfl
        exact hnew (List.contains_iff_mem.mpr hgiven)
      cases h
      exact ⟨List.mem_cons_of_mem _ hgiven,
        mirror.kept field (List.mem_of_find?_eq_some hfield) (mapError_eq_ok.mp hread) hne hrefused⟩

theorem members_refused (fuel : Nat) :
    ∀ {draft draft' : Draft α} {input rest : Input} {name : String} {mismatch : Mismatch},
      name ∈ draft.given → mirror.Refused name mismatch draft.value →
        loose.members fuel draft input = .ok (draft', rest) →
          mirror.Refused name mismatch draft'.value := by
  induction fuel with
  | zero =>
    intro draft draft' input rest name mismatch _ _ h
    unfold Shape.members at h
    cases h
  | succ fuel ih =>
    intro draft draft' input rest name mismatch hgiven hrefused h
    unfold Shape.members at h
    split at h
    · obtain ⟨⟨draft₁, _⟩, hmember, h⟩ := bind_eq_ok.mp h
      obtain ⟨hgiven₁, hrefused₁⟩ := mirror.member_refused hgiven hrefused hmember
      simp only at h
      split at h
      · exact ih hgiven₁ hrefused₁ h
      · cases h
        exact hrefused₁
      · cases h
    · cases h

/-- One member, read along. Stated for drafts, which must have the same fields given. -/
theorem member_along {draft draft₁ : Draft α} {draft' : Draft β} {input rest : Input}
    (hgiven : draft'.given = draft.given)
    (hstep : mirror.InStep draft.given draft.value draft'.value)
    (h : loose.member draft input = .ok (draft₁, rest)) :
    (∃ value', strict.member draft' input = .ok (⟨value', draft₁.given⟩, rest) ∧
      mirror.InStep draft₁.given draft₁.value value') ∨
    ∃ step name mismatch, strict.member draft' input = .error (.mismatch [step] mismatch) ∧
      name ∈ draft₁.given ∧ mirror.Refused name mismatch draft₁.value := by
  unfold Shape.member at h
  obtain ⟨⟨key, behind⟩, hname, h⟩ := bind_eq_ok.mp h
  simp only at h
  have hfind := find?_eq_of_forall₂ (p := (·.isNamed (String.ofList key)))
    (q := (·.isNamed (String.ofList key))) (fun _ _ h => mirror.isNamed_eq h _) mirror.fields
  rw [Shape.member, hname]
  simp only [ok_bind, hgiven]
  rcases hfind with ⟨hloose, hstrict⟩ | ⟨field, field', hloose, hstrict, hfollows⟩
  · rw [hloose] at h
    obtain ⟨_, hcolon, h⟩ := bind_eq_ok.mp h
    obtain ⟨_, hskip, h⟩ := bind_eq_ok.mp h
    cases h
    simp only [hstrict, hcolon, ok_bind, hskip, pure_eq_ok]
    exact .inl ⟨draft'.value, by rw [← hgiven], hstep⟩
  · rw [hloose] at h
    simp only at h
    split at h
    · cases h
    · rename_i hnew
      obtain ⟨_, hcolon, h⟩ := bind_eq_ok.mp h
      obtain ⟨⟨change, _⟩, hread, h⟩ := bind_eq_ok.mp h
      cases h
      rw [hfollows.name_eq] at hnew
      simp only [hstrict, hnew, Bool.false_eq_true, if_false, hcolon, ok_bind]
      rcases hfollows.read (mapError_eq_ok.mp hread) with ⟨change', hread', hchange⟩ |
        ⟨mismatch, hread', hrefused⟩
      · refine .inl ⟨change' draft'.value, ?_, hchange _ _ _ hstep⟩
        simp only [hread', mapError_ok, ok_bind, pure_eq_ok, hfollows.name_eq]
      · refine .inr ⟨.member (String.ofList key), field.name, mismatch, ?_, List.mem_cons_self,
          hrefused _⟩
        rw [hread']
        rfl

/-- Members, read along. The induction is over the fuel. -/
theorem members_along (fuel : Nat) :
    ∀ {draft final : Draft α} {draft' : Draft β} {input rest : Input},
      draft'.given = draft.given → mirror.InStep draft.given draft.value draft'.value →
        loose.members fuel draft input = .ok (final, rest) →
          (∃ value', strict.members fuel draft' input = .ok (⟨value', final.given⟩, rest) ∧
            mirror.InStep final.given final.value value') ∨
          ∃ step name mismatch, strict.members fuel draft' input =
            .error (.mismatch [step] mismatch) ∧ mirror.Refused name mismatch final.value := by
  induction fuel with
  | zero =>
    intro draft final draft' input rest _ _ h
    unfold Shape.members at h
    cases h
  | succ fuel ih =>
    intro draft final draft' input rest hgiven hstep h
    unfold Shape.members at h ⊢
    split at h
    · obtain ⟨⟨draft₁, behind⟩, hmember, h⟩ := bind_eq_ok.mp h
      rcases mirror.member_along hgiven hstep hmember with ⟨value', hmember', hstep'⟩ |
        ⟨step, name, mismatch, hmember', hname, hrefused⟩
      · simp only [hmember', ok_bind]
        simp only at h
        split at h
        · exact ih rfl hstep' h
        · cases h
          exact .inl ⟨value', rfl, hstep'⟩
        · cases h
      · refine .inr ⟨step, name, mismatch, by rw [hmember']; rfl, ?_⟩
        simp only at h
        split at h
        · exact mirror.members_refused fuel hname hrefused h
        · cases h
          exact hrefused
        · cases h
    · cases h

include mirror in
theorem missing?_eq {draft : Draft α} {draft' : Draft β} (hgiven : draft'.given = draft.given) :
    (loose.missing? draft = none ∧ strict.missing? draft' = none) ∨
      ∃ field, loose.missing? draft = some field := by
  have hfind :=
    find?_eq_of_forall₂ (p := fun field => field.required && !draft.given.contains field.name)
    (q := fun field => field.required && !draft'.given.contains field.name)
    (fun _ _ h => by rw [h.name_eq, h.required_eq, hgiven]) mirror.fields
  rcases hfind with hnone | ⟨field, _, hfield, -, -⟩
  · exact .inl hnone
  · exact .inr ⟨field, hfield⟩

/-- A record given by an object, read along. -/
theorem object_along {input rest : Input} {value : α} (h : loose.object input = .ok (value, rest)) :
    ∃ given, (∀ field ∈ loose.fields, field.required = true → field.name ∈ given) ∧
      mirror.Along given value (strict.object input) rest := by
  rw [Shape.object_eq] at h ⊢
  obtain ⟨⟨final, behind⟩, hmembers, h⟩ := bind_eq_ok.mp h
  obtain ⟨hnone, rfl, rfl⟩ := Shape.close_eq_ok.mp h
  have hclose : ∀ {value' : β}, strict.close ⟨value', final.given⟩ behind =
      .ok (value', behind) := by
    intro value'
    have hgiven : (⟨value', final.given⟩ : Draft β).given = final.given := rfl
    rcases mirror.missing?_eq hgiven with ⟨-, hnone'⟩ | ⟨field, hfield⟩
    · exact Shape.close_eq_ok.mpr ⟨hnone', rfl, rfl⟩
    · rw [hnone] at hfield
      cases hfield
  refine ⟨final.given, Shape.given_of_missing? hnone, ?_⟩
  unfold Shape.between at hmembers ⊢
  split at hmembers
  · cases hmembers
    exact .inl ⟨strict.blank, hclose, mirror.blank⟩
  · have hgiven : strict.draft.given = loose.draft.given := rfl
    rcases mirror.members_along _ hgiven mirror.blank hmembers with
      ⟨value', hmembers', hstep⟩ | ⟨step, name, mismatch, hmembers', hrefused⟩
    · exact .inl ⟨value', by rw [hmembers', ok_bind, hclose], hstep⟩
    · exact .inr ⟨step, name, mismatch, by rw [hmembers']; rfl, hrefused⟩

/-! ## Elements -/

/-- A value that is refused stays in the record, as its field is behind. -/
theorem elements_refused {fields : List (Field α)} (hsub : fields ⊆ loose.fields) :
    ∀ {index : Nat} {value value' : α} {input rest : Input} {name : String} {mismatch : Mismatch},
      name ∉ fields.map Field.name → mirror.Refused name mismatch value →
        loose.elements fields index value input = .ok (value', rest) →
          mirror.Refused name mismatch value' := by
  induction fields with
  | nil =>
    intro index value value' input rest name mismatch _ hrefused h
    unfold Shape.elements at h
    split at h
    · cases h
      exact hrefused
    · cases h
  | cons field fields ih =>
    intro index value value' input rest name mismatch hname hrefused h
    rw [List.map_cons, List.mem_cons, not_or] at hname
    unfold Shape.elements at h
    split at h
    · unfold Shape.ended at h
      split at h
      · cases h
      · cases h
        exact hrefused
    · split at h
      · cases h
      · obtain ⟨⟨change, _⟩, hread, h⟩ := bind_eq_ok.mp h
        have hkept := mirror.kept field (hsub List.mem_cons_self) (mapError_eq_ok.mp hread)
          (Ne.symm hname.1) hrefused
        exact ih (fun f hf => hsub (List.mem_cons_of_mem field hf)) hname.2 hkept h
    · cases h

/-- An array that may end in front of some fields may do so for both types. -/
theorem ended_along {fields : List (Field α)} {fields' : List (Field β)}
    (hfields : List.Forall₂ (Field.Follows mirror.InStep mirror.Refused) fields fields')
    {index : Nat} {value final : α} {input rest : Input}
    (h : loose.ended fields index value input = .ok (final, rest)) :
    final = value ∧ (∀ value', strict.ended fields' index value' input = .ok (value', rest)) ∧
      ∀ field ∈ fields, field.required = false := by
  have hrequired : ∀ {fields : List (Field α)} {fields' : List (Field β)},
      List.Forall₂ (Field.Follows mirror.InStep mirror.Refused) fields fields' →
        fields.findIdx? (·.required) = fields'.findIdx? (·.required) := by
    intro fields fields' h
    induction h with
    | nil => rfl
    | cons hfollows _ ih => rw [List.findIdx?_cons, List.findIdx?_cons, hfollows.required_eq, ih]
  unfold Shape.ended at h
  split at h
  · cases h
  · rename_i hnone
    cases h
    have hnone' : fields'.findIdx? (·.required) = none := by rw [← hrequired hfields, hnone]
    refine ⟨rfl, fun value' => by rw [Shape.ended, hnone'], fun field hfield => ?_⟩
    exact List.findIdx?_eq_none_iff.mp hnone field hfield

/-- The elements of an array, read along. The induction is over the fields to come. -/
theorem elements_along {fields : List (Field α)} {fields' : List (Field β)}
    (hfields : List.Forall₂ (Field.Follows mirror.InStep mirror.Refused) fields fields') :
    ∀ {index : Nat} {given : List String} {value final : α} {value' : β} {input rest : Input},
      fields ⊆ loose.fields → (fields.map Field.name).Nodup → mirror.InStep given value value' →
        loose.elements fields index value input = .ok (final, rest) →
          ∃ given', given ⊆ given' ∧
            (∀ field ∈ fields, field.required = true → field.name ∈ given') ∧
            mirror.Along given' final (strict.elements fields' index value' input) rest := by
  induction hfields with
  | nil =>
    intro index given value final value' input rest _ _ hstep h
    unfold Shape.elements at h ⊢
    split at h
    · cases h
      refine ⟨given, List.Subset.refl _, fun _ hfield => absurd hfield List.not_mem_nil, ?_⟩
      exact .inl ⟨value', rfl, hstep⟩
    · cases h
  | @cons field field' fields fields' hfollows hothers ih =>
    intro index given value final value' input rest hsub hnodup hstep h
    obtain ⟨hfirst, hsubset⟩ := List.cons_subset.mp hsub
    rw [List.map_cons, List.nodup_cons] at hnodup
    unfold Shape.elements at h ⊢
    split at h
    · obtain ⟨rfl, hended, hoptional⟩ :=
        mirror.ended_along (.cons hfollows hothers) h
      refine ⟨given, List.Subset.refl _, fun f hf hrequired => ?_, .inl ⟨value', ?_, hstep⟩⟩
      · rw [hoptional f hf] at hrequired
        cases hrequired
      · exact hended value'
    · split at h
      · cases h
      · obtain ⟨⟨change, behind⟩, hread, h⟩ := bind_eq_ok.mp h
        rcases hfollows.read (mapError_eq_ok.mp hread) with ⟨change', hread', hchange⟩ |
          ⟨mismatch, hread', hrefused⟩
        · obtain ⟨given', hgiven, hrequired, halong⟩ :=
            ih hsubset hnodup.2 (hchange given value value' hstep) h
          refine ⟨given', fun name hname => hgiven (List.mem_cons_of_mem _ hname), ?_, ?_⟩
          · intro f hf hf'
            rcases List.mem_cons.mp hf with rfl | hf
            · exact hgiven List.mem_cons_self
            · exact hrequired f hf hf'
          · simpa only [hread', mapError_ok, ok_bind] using halong
        · refine ⟨given ++ (field :: fields).map Field.name, List.subset_append_left _ _,
            fun f hf _ => List.mem_append_right _ (List.mem_map_of_mem hf), ?_⟩
          refine .inr ⟨.element index, field.name, mismatch, by rw [hread']; rfl, ?_⟩
          exact mirror.elements_refused hsubset hnodup.1 (hrefused value) h
    · cases h

/-- The values of an array are read as those behind the first one are, as if a comma stood in
front. -/
theorem array_eq_elements {γ : Type} {shape : Shape γ} {field : Field γ} {fields : List (Field γ)}
    (hfields : shape.fields = field :: fields) {input : Input}
    (hopen : ∀ rest, Read.skipBlanks input ≠ some ']' :: rest) :
    shape.array input = shape.elements shape.fields 0 shape.blank (some ',' :: input) := by
  have hcomma : Read.skipBlanks (some ',' :: input) = some ',' :: input := rfl
  rw [Shape.array, hfields]
  simp only [Shape.elements, hcomma]

/-- A record given by an array, read along. -/
theorem array_along {input rest : Input} {value : α} (h : loose.array input = .ok (value, rest)) :
    ∃ given, (∀ field ∈ loose.fields, field.required = true → field.name ∈ given) ∧
      mirror.Along given value (strict.array input) rest := by
  have hfields := mirror.fields
  have hnodup := mirror.names_nodup
  have hsub := List.Subset.refl loose.fields
  cases hloose : loose.fields with
  | nil =>
    rw [hloose] at hfields
    have hstrict : strict.fields = [] := List.forall₂_nil_left_iff.mp hfields
    unfold Shape.array at h ⊢
    rw [hloose] at h
    rw [hstrict]
    obtain ⟨given, -, hrequired, halong⟩ :=
      mirror.elements_along .nil (List.nil_subset _) List.nodup_nil mirror.blank h
    exact ⟨given, hrequired, halong⟩
  | cons field fields =>
    obtain ⟨field', fields', hfollows, hothers, hstrict⟩ :=
      List.forall₂_cons_left_iff.mp (hloose ▸ hfields)
    by_cases hend : ∃ behind, Read.skipBlanks input = some ']' :: behind
    · obtain ⟨behind, hend⟩ := hend
      rw [Shape.array, hloose] at h
      rw [Shape.array, hstrict]
      simp only [hend] at h ⊢
      obtain ⟨rfl, hended, hoptional⟩ :=
        mirror.ended_along (.cons hfollows hothers) h
      refine ⟨[], fun f hf hrequired => ?_, .inl ⟨strict.blank, hended _, mirror.blank⟩⟩
      rw [hoptional f hf] at hrequired
      cases hrequired
    · rw [not_exists] at hend
      rw [array_eq_elements hloose hend] at h
      rw [array_eq_elements hstrict hend, ← hloose]
      obtain ⟨given, -, hrequired, halong⟩ :=
        mirror.elements_along hfields hsub hnodup mirror.blank h
      exact ⟨given, hrequired, halong⟩

/-! ## Records -/

/-- A document that the loose type is read from is read as the strict type too, with the same
input behind it and the records in step, or the strict reading stops at a value that stands in
the loose record. -/
theorem read {input rest : Input} {value : α} (h : loose.read input = .ok (value, rest)) :
    ∃ given, (∀ field ∈ loose.fields, field.required = true → field.name ∈ given) ∧
      mirror.Along given value (strict.read input) rest := by
  unfold Shape.read at h ⊢
  split at h
  · exact mirror.object_along h
  · exact mirror.array_along h
  · obtain ⟨_, -, h⟩ := bind_eq_ok.mp h
    cases h

end Mirror
end PrologTokens.Json
