import DocQuery.Json.Document
import DocQuery.Text.Quoted

set_option autoImplicit false

namespace DocQuery.Decode

inductive Error where
  | wrongType (found expected : String)
  | wrongValue (found expected : String)
  | wrongLength (length : Nat) (expected : String)
  | unknownVariant (name : String) (known : List String)
  | unknownField (name : String) (known : List String)
  | missingField (name : String)
  | duplicateField (name : String)
  | unreadable
  deriving DecidableEq, Repr, Inhabited

def ticked (name : String) : String := "\x60" ++ name ++ "\x60"

def alternatives : List String → String
  | [] => "nothing"
  | [a] => ticked a
  | [a, b] => ticked a ++ " or " ++ ticked b
  | names => "one of " ++ String.intercalate ", " (names.map ticked)

def Error.message : Error → String
  | .wrongType found expected => "invalid type: " ++ found ++ ", expected " ++ expected
  | .wrongValue found expected => "invalid value: " ++ found ++ ", expected " ++ expected
  | .wrongLength length expected =>
    "invalid length " ++ toString length ++ ", expected " ++ expected
  | .unknownVariant name known =>
    "unknown variant " ++ ticked name ++ ", expected " ++ alternatives known
  | .unknownField name known =>
    "unknown field " ++ ticked name ++ ", expected " ++ alternatives known
  | .missingField name => "missing field " ++ ticked name
  | .duplicateField name => "duplicate field " ++ ticked name
  | .unreadable => "unreadable value"

end Decode

abbrev Decoder (α : Type) := Document → Except Decode.Error α

namespace Decode

def found : Document → String
  | .unreadable => "unreadable value"
  | .null => "null"
  | .bool b => "boolean " ++ ticked (if b then "true" else "false")
  | .num (.int i) => "integer " ++ ticked (toString i)
  | .num (.real x) => "floating point " ++ ticked x.text
  | .str s => "string " ++ Text.quoted s
  | .arr _ => "sequence"
  | .obj _ => "map"

def refuse {α : Type} (expected : String) (d : Document) : Except Error α :=
  match d with
  | .unreadable => .error .unreadable
  | d => .error (.wrongType (found d) expected)

def string : Decoder String
  | .str s => .ok s
  | d => refuse "a string" d

def bool : Decoder Bool
  | .bool b => .ok b
  | d => refuse "a boolean" d

def nat64 (expected : String) : Decoder Nat
  | .num (.int i) =>
    match (Number.int i).asNat64? with
    | some n => .ok n
    | none => .error (.wrongValue (found (.num (.int i))) expected)
  | d => refuse expected d

def value : Decoder Json := fun d =>
  match d.value? with
  | some v => .ok v
  | none => .error .unreadable

def fields : Decoder Fields
  | .obj members =>
    match Document.members? members with
    | some ms => .ok (Fields.ofList ms)
    | none => .error .unreadable
  | d => refuse "a map" d

def option {α : Type} (inner : Decoder α) : Decoder (Option α)
  | .null => .ok none
  | d => (inner d).map some

def list {α : Type} (item : Decoder α) : Decoder (List α)
  | .arr items => items.mapM item
  | d => refuse "a sequence" d

def unit : Decoder Unit
  | .null => .ok ()
  | d => refuse "unit" d

def variantNamed {α : Type} (variants : List (String × α)) (name : String) : Except Error α :=
  match variants.find? (·.1 == name) with
  | some (_, a) => .ok a
  | none => .error (.unknownVariant name (variants.map (·.1)))

def variant {α : Type} (variants : List (String × α)) : Decoder α
  | .str name => variantNamed variants name
  | .obj [(name, content)] => do
    let a ← variantNamed variants name
    unit content
    return a
  | .obj _ => .error (.wrongValue "map" "map with a single key")
  | d => refuse "string or map" d

inductive Presence where
  | required
  | optional
  | defaulted
  deriving DecidableEq

structure Field where
  name : String
  aliases : List String
  presence : Presence
  check : Document → Except Error Unit

structure Shape where
  typeName : String
  fields : List Field
  strict : Bool

def Field.of {α : Type} (name : String) (presence : Presence) (decoder : Decoder α) : Field :=
  ⟨name, [], presence, fun d => (decoder d).map fun _ => ()⟩

def Field.answersTo (f : Field) (key : String) : Bool := f.name == key || f.aliases.contains key

abbrev Slots := List (String × Document)

def Slots.find? (slots : Slots) (name : String) : Option Document :=
  (List.find? (·.1 == name) slots).map (·.2)

def Slots.read {α : Type} (slots : Slots) (name : String) (decoder : Decoder α) (absent : α) :
    Except Error α :=
  match slots.find? name with
  | some d => decoder d
  | none => .ok absent

def takeMembers (shape : Shape) : List (String × Document) → Slots → Except Error Slots
  | [], slots => .ok slots
  | (key, d) :: rest, slots =>
    match shape.fields.find? (·.answersTo key) with
    | some field =>
      if (slots.find? field.name).isSome then .error (.duplicateField field.name)
      else do
        field.check d
        takeMembers shape rest (slots ++ [(field.name, d)])
    | none =>
      if shape.strict then .error (.unknownField key (shape.fields.map (·.name)))
      else takeMembers shape rest slots

def requireFields (slots : Slots) : List Field → Except Error Unit
  | [] => .ok ()
  | field :: rest =>
    if field.presence == .required && (slots.find? field.name).isNone then
      .error (.missingField field.name)
    else requireFields slots rest

def Shape.expected (shape : Shape) : String :=
  "struct " ++ shape.typeName ++ " with " ++ toString shape.fields.length ++ " elements"

def takeItems (shape : Shape) (total : Nat) :
    List Field → List Document → Nat → Slots → Except Error Slots
  | [], [], _, slots => .ok slots
  | [], _ :: _, _, _ => .error (.wrongLength total "fewer elements in array")
  | field :: rest, [], index, slots =>
    if field.presence == .defaulted then takeItems shape total rest [] (index + 1) slots
    else .error (.wrongLength index shape.expected)
  | field :: rest, d :: items, index, slots => do
    field.check d
    takeItems shape total rest items (index + 1) (slots ++ [(field.name, d)])

def record (shape : Shape) : Decoder Slots
  | .obj members => do
    let slots ← takeMembers shape members []
    requireFields slots shape.fields
    return slots
  | .arr items => takeItems shape items.length shape.fields items 0 []
  | d => refuse ("struct " ++ shape.typeName) d

end DocQuery.Decode
