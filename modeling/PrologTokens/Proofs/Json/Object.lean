import PrologTokens.Json.Record
import PrologTokens.Proofs.Except

/-!
# Records taken apart

A field is read by the reader of its values. A record is read from an object by taking up its
members and then looking for a field that is missing; the two parts are named here, so that each
can be followed on its own.
-/

set_option autoImplicit false

namespace PrologTokens.Json

/-- The field takes up what its reader takes up. -/
theorem Field.of_read_eq_ok {α γ : Type} {name : String} {aliases : List String} {required : Bool}
    {read : Reader γ} {set : γ → α → α} {input rest : Input} {change : α → α} :
    (Field.of name aliases required read set).read input = .ok (change, rest) ↔
      ∃ value, read input = .ok (value, rest) ∧ set value = change := by
  simp only [Field.of, map_eq_ok, Prod.mk.injEq]
  constructor
  · rintro ⟨⟨value, _⟩, hread, hset, rfl⟩
    exact ⟨value, hread, hset⟩
  · rintro ⟨value, hread, hset⟩
    exact ⟨(value, rest), hread, hset, rfl⟩

namespace Shape

variable {α : Type} {shape : Shape α}

/-- What stands between the braces of an object, and the closing one. -/
def between (shape : Shape α) : Reader (Draft α) := fun input =>
  match Read.skipBlanks input with
  | some '\x7d' :: rest => .ok (shape.draft, rest)
  | input => shape.members input.length shape.draft input

/-- The record that a draft makes if none of its fields is missing. -/
def close (shape : Shape α) (draft : Draft α) (rest : Input) : Except Fault (α × Input) :=
  match shape.missing? draft with
  | some field => .error (.mismatch [] (.missingField field.name))
  | none => .ok (draft.value, rest)

theorem between_of_closing {input rest : Input} (h : Read.skipBlanks input = some '\x7d' :: rest) :
    shape.between input = .ok (shape.draft, rest) := by
  rw [between, h]
  rfl

theorem between_of_not_closing {input : Input}
    (h : ∀ rest, Read.skipBlanks input ≠ some '\x7d' :: rest) : shape.between input =
      shape.members (Read.skipBlanks input).length shape.draft (Read.skipBlanks input) := by
  unfold between
  split
  · rename_i heq
    exact absurd heq (h _)
  · rfl

theorem object_eq (shape : Shape α) (input : Input) :
    shape.object input = shape.between input >>= fun read => shape.close read.1 read.2 := by
  by_cases hclosing : ∃ rest, Read.skipBlanks input = some '\x7d' :: rest
  · obtain ⟨rest, hclosing⟩ := hclosing
    rw [between_of_closing hclosing, object, hclosing]
    rfl
  · rw [not_exists] at hclosing
    rw [between_of_not_closing hclosing, object]
    split
    · rename_i heq
      exact absurd heq (hclosing _)
    · rfl

theorem close_eq_ok {draft : Draft α} {rest rest' : Input} {value : α} :
    shape.close draft rest = .ok (value, rest') ↔
      shape.missing? draft = none ∧ draft.value = value ∧ rest = rest' := by
  unfold close
  split
  · simp [*]
  · simp [*]

/-- If no field is missing, all required ones are given. -/
theorem given_of_missing? {draft : Draft α} (h : shape.missing? draft = none) :
    ∀ field ∈ shape.fields, field.required = true → field.name ∈ draft.given := by
  intro field hfield hrequired
  have hnone := List.find?_eq_none.mp h field hfield
  simpa [hrequired] using hnone

end Shape
end PrologTokens.Json
