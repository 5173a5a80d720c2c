import DocQuery.Config
import DocQuery.Visit.Visitor

set_option autoImplicit false

namespace DocQuery

structure FieldTarget where
  field : String
  collection : Option String := none
  deriving DecidableEq, Repr

def FieldTarget.covers (target : FieldTarget) (n : Node) : Bool :=
  (match target.collection with
    | some collection => collection == n.info.collection
    | none => true)
    && n.fieldName? == some target.field

/-- The rules for field nodes.

`keyField` gives the id alias the name of the primary key and converts the keys compared with it.
`rename`, `negate` and `convert` change a field's name, its name and boolean value, and its value.
`custom` attaches a compiler. The last two suppress a node by its key or by its field. -/
inductive Rule where
  | keyField (idAlias primaryKey : String) (keyType : KeyType)
  | rename (target : FieldTarget) (name : String)
  | negate (target : FieldTarget) (name : String)
  | convert (target : FieldTarget) (conversion : Json → Except QueryError Json)
  | custom (target : FieldTarget) (compiler : CustomCompiler)
  | suppressKey (key : String)
  | suppressField (field : String)

namespace Rule

def ofConfig (config : Config) : Rule :=
  .keyField config.idAlias config.primaryKey config.keyType

def label : Rule → String
  | keyField .. => "primary_key"
  | rename .. => "alias"
  | negate .. => "negate"
  | convert .. => "coerce"
  | custom .. => "custom_predicate"
  | suppressKey _ => "suppress"
  | suppressField _ => "suppress"

-- Text searched for in keys and null are not keys themselves.
def convertsKey (operator : Option Operator) (value : Json) : Bool :=
  !(operator.any Operator.isPattern) && !value.isNull

def canonicalKey (idAlias primaryKey : String) (keyType : KeyType) (n : Node) :
    Except QueryError VisitAction :=
  match n with
  | .field i name operator =>
    if name == idAlias || name == primaryKey then do
      let value ←
        if convertsKey operator i.value then keyType.coerce name i.value else pure i.value
      return .replace (n.asField primaryKey value)
    else return .keep
  | _ => return .keep

def converted (conversion : Json → Except QueryError Json) (operator : Option Operator)
    (value : Json) : Except QueryError Json :=
  match value with
  | .arr items =>
    if operator.any Operator.takesList then (items.mapM conversion).map .arr
    else conversion value
  | value => conversion value

def act (rule : Rule) (n : Node) : Except QueryError VisitAction :=
  match rule with
  | .keyField idAlias primaryKey keyType => canonicalKey idAlias primaryKey keyType n
  | .rename target name =>
    if target.covers n then return .replace (n.asField name n.info.value) else return .keep
  | .negate target name =>
    if target.covers n then
      match n.info.value with
      | .bool b => return .replace (n.asField name (.bool !b))
      | value => .error (.coercion target.field ("expected a boolean, got " ++ value.text))
    else return .keep
  | .convert target conversion =>
    if target.covers n then do
      let value ← converted conversion n.operator? n.info.value
      return .replace (n.withInfo { n.info with value })
    else return .keep
  | .custom target compiler =>
    if target.covers n then return .replace (n.withCompiler compiler) else return .keep
  | .suppressKey key => return if n.isField && n.info.key == key then .suppress else .keep
  | .suppressField field =>
    return if FieldTarget.covers ⟨field, none⟩ n then .suppress else .keep

def visitor (rule : Rule) : Visitor := ⟨rule.label, fun n _ => Traced.lift (rule.act n)⟩

end Rule

end DocQuery
