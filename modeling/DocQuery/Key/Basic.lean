import DocQuery.Error
import DocQuery.Json.Basic
import DocQuery.Key.Uuid
import DocQuery.Text.Blank

set_option autoImplicit false

namespace DocQuery

inductive KeyType where
  | string
  | int
  | uuid
  | objectId
  deriving DecidableEq, Repr, Inhabited

namespace KeyType

def label : KeyType → String
  | string => "String"
  | int => "Int"
  | uuid => "Uuid"
  | objectId => "ObjectId"

def variants : List (String × KeyType) :=
  [("string", string), ("int", int), ("uuid", uuid), ("object_id", objectId)]

def configName : KeyType → String
  | string => "string"
  | int => "int"
  | uuid => "uuid"
  | objectId => "object_id"

def isDigit (c : Char) : Bool := '0' ≤ c ∧ c ≤ '9'

def digitsValue (digits : List Char) : Nat :=
  digits.foldl (fun n c => n * 10 + (c.toNat - '0'.toNat)) 0

def integerText? (chars : List Char) : Option Int :=
  let (negative, digits) := match chars with
    | '-' :: rest => (true, rest)
    | '+' :: rest => (false, rest)
    | rest => (false, rest)
  if digits.isEmpty || !digits.all isDigit then none
  else
    let n : Int := digitsValue digits
    (Number.int (if negative then -n else n)).asInt64?

def isObjectIdText (s : String) : Bool :=
  s.toList.length = 24 && s.toList.all Uuid.isHexDigit

def objectIdOf (s : String) : Json :=
  .obj [("$oid", .str (String.ofList (s.toList.map Text.lowerAscii)))]

def kindLabel : Json → String
  | .null => "null"
  | .bool _ => "bool"
  | .num _ => "number"
  | .str _ => "string"
  | .arr _ => "array"
  | .obj _ => "object"

def mismatch (type : KeyType) (field : String) (value : Json) : QueryError :=
  .coercion field ("cannot use " ++ kindLabel value ++ " as a " ++ type.label ++ " key")

def coerceString (field : String) : Json → Except QueryError Json
  | .str s => .ok (.str s)
  | .num n => .ok (.str n.text)
  | value => .error (mismatch string field value)

def coerceInt (field : String) : Json → Except QueryError Json
  | .num n =>
    if n.asInt64?.isSome then .ok (.num n) else .error (mismatch int field (.num n))
  | .str s =>
    match integerText? (Text.trimChars s.toList) with
    | some i => .ok (.int i)
    | none => .error (.coercion field ("'" ++ s ++ "' is not an integer key"))
  | value => .error (mismatch int field value)

def coerceUuid (field : String) : Json → Except QueryError Json
  | .str s =>
    match Uuid.canonical? s with
    | some canonical => .ok (.str canonical)
    | none => .error (.coercion field ("'" ++ s ++ "' is not a UUID: "))
  | value => .error (mismatch uuid field value)

def coerceObjectId (field : String) : Json → Except QueryError Json
  | .str s =>
    if isObjectIdText s then .ok (objectIdOf s)
    else .error (.coercion field ("'" ++ s ++ "' is not a 24-character hex object id"))
  | .obj [("$oid", id)] => .ok (.obj [("$oid", id)])
  | value => .error (mismatch objectId field value)

def coerceScalar (type : KeyType) (field : String) (value : Json) : Except QueryError Json :=
  match type with
  | string => coerceString field value
  | int => coerceInt field value
  | uuid => coerceUuid field value
  | objectId => coerceObjectId field value

def coerce (type : KeyType) (field : String) (value : Json) : Except QueryError Json :=
  match value with
  | .arr items => (items.mapM (type.coerceScalar field)).map .arr
  | scalar => type.coerceScalar field scalar

end KeyType

end DocQuery
