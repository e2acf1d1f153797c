import PrologTokens.Json.Read

/-!
# Records in JSON

A record is read from an object with a member for each field, in any order, or from an array of the
values of its fields, in the order in which the fields are declared. Members that name no field are
skipped. A field may be given once only; if it is not given and not required, it keeps its default.
-/

set_option autoImplicit false

namespace PrologTokens.Json

/-- A field of a record of type `α`. -/
structure Field (α : Type) where
  /-- The name of the field. -/
  name : String
  /-- Other names that stand for the field as well. -/
  aliases : List String
  /-- Whether the field has to be given. -/
  required : Bool
  /-- Reads the value of the field and gives the change that it makes to the record. -/
  read : Reader (α → α)

/-- The field with the given reader, which is set in the given way. -/
def Field.of {α β : Type} (name : String) (aliases : List String) (required : Bool)
    (read : Reader β) (set : β → α → α) : Field α where
  name := name
  aliases := aliases
  required := required
  read := fun input => (read input).map fun (value, rest) => (set value, rest)

/-- Whether a member with the given name gives the field. -/
def Field.isNamed {α : Type} (field : Field α) (name : String) : Bool :=
  field.name = name || field.aliases.contains name

/-- How a type of records is read. -/
structure Shape (α : Type) where
  /-- The name of the type, for messages. -/
  name : String
  /-- The record with the defaults. What it says of required fields is never seen. -/
  blank : α
  /-- The fields, in order of declaration. -/
  fields : List (Field α)

/-- A record being read: its value so far, and the fields that have been given. -/
structure Draft (α : Type) where
  /-- The record so far. -/
  value : α
  /-- The names of the fields given so far. -/
  given : List String

namespace Shape

/-- The record before any field is given. -/
def draft {α : Type} (shape : Shape α) : Draft α := ⟨shape.blank, []⟩

/-- The first required field that has not been given. -/
def missing? {α : Type} (shape : Shape α) (draft : Draft α) : Option (Field α) :=
  shape.fields.find? fun field => field.required && !draft.given.contains field.name

/-- The member behind the opening quotation mark of its name. -/
def member {α : Type} (shape : Shape α) (draft : Draft α) : Reader (Draft α) := fun input => do
  let (name, rest) ← Read.textBody input
  let name := String.ofList name
  match shape.fields.find? (·.isNamed name) with
  | none =>
    let rest ← Read.colon rest
    let rest ← Read.skip rest
    return (draft, rest)
  | some field =>
    if draft.given.contains field.name then
      throw (.mismatch [] (.duplicateField field.name))
    let rest ← Read.colon rest
    let (change, rest) ← (field.read rest).mapError (Fault.within (.member name))
    return (⟨change draft.value, field.name :: draft.given⟩, rest)

/-- The members of an object from the start of one of them on. Every member takes a character, so
`fuel` is enough when it is the length of the input. -/
def members {α : Type} (shape : Shape α) : (fuel : Nat) → Draft α → Reader (Draft α)
  | 0, _, _ => .error .malformed
  | fuel + 1, draft, input =>
    match Read.skipBlanks input with
    | some '"' :: rest => do
      let (draft, rest) ← shape.member draft rest
      match Read.skipBlanks rest with
      | some ',' :: rest => members shape fuel draft rest
      | some '\x7d' :: rest => return (draft, rest)
      | _ => throw .malformed
    | _ => .error .malformed

/-- A record given by an object, behind the opening brace. -/
def object {α : Type} (shape : Shape α) : Reader α := fun input => do
  let (draft, rest) ← match Read.skipBlanks input with
    | some '\x7d' :: rest => pure (shape.draft, rest)
    | input => shape.members input.length shape.draft input
  match shape.missing? draft with
  | some field => throw (.mismatch [] (.missingField field.name))
  | none => return (draft.value, rest)

/-- The result of an array that ends before the value of the first of the given fields, which has
the given index. -/
def ended {α : Type} (shape : Shape α) (fields : List (Field α)) (index : Nat) (value : α)
    (rest : Input) : Except Fault (α × Input) :=
  match fields.findIdx? (·.required) with
  | some i =>
    let count := shape.fields.length
    let noun := if count = 1 then "element" else "elements"
    .error (.mismatch [] (.tooShort (index + i) s!"struct {shape.name} with {count} {noun}"))
  | none => .ok (value, rest)

/-- The values of the given fields, the first of which has the given index and comes behind a
comma. -/
def elements {α : Type} (shape : Shape α) :
    (fields : List (Field α)) → (index : Nat) → (value : α) → Reader α
  | [], _, value, input =>
    match Read.skipBlanks input with
    | some ']' :: rest => .ok (value, rest)
    | _ => .error .malformed
  | field :: fields, index, value, input =>
    match Read.skipBlanks input with
    | some ']' :: rest => shape.ended (field :: fields) index value rest
    | some ',' :: rest =>
      match Read.skipBlanks rest with
      | some ']' :: _ => .error .malformed
      | rest => do
        let (change, rest) ← (field.read rest).mapError (Fault.within (.element index))
        elements shape fields (index + 1) (change value) rest
    | _ => .error .malformed

/-- A record given by an array, behind the opening bracket. -/
def array {α : Type} (shape : Shape α) : Reader α := fun input =>
  match shape.fields with
  | [] => shape.elements [] 0 shape.blank input
  | field :: fields =>
    match Read.skipBlanks input with
    | some ']' :: rest => shape.ended (field :: fields) 0 shape.blank rest
    | input => do
      let (change, rest) ← (field.read input).mapError (Fault.within (.element 0))
      shape.elements fields 1 (change shape.blank) rest

/-- A record. -/
def read {α : Type} (shape : Shape α) : Reader α := fun input =>
  match Read.skipBlanks input with
  | some '\x7b' :: rest => shape.object rest
  | some '[' :: rest => shape.array rest
  | input => Read.refuse s!"struct {shape.name}" input

end Shape
end PrologTokens.Json
