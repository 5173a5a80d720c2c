import DocQuery.Error
import DocQuery.Json.Basic
import DocQuery.Operator.Pattern

set_option autoImplicit false

namespace DocQuery

inductive Operator where
  | notEqual
  | oneOf
  | notOneOf
  | lessThan
  | lessOrEqual
  | greaterThan
  | greaterOrEqual
  | between
  | betweenOrEqual
  | contains
  | notContains
  | regex
  | startsWith
  | endsWith
  | all
  | any
  deriving DecidableEq, Repr, Inhabited

namespace Operator

def label : Operator → String
  | notEqual => "not"
  | oneOf => "in"
  | notOneOf => "nin"
  | lessThan => "lt"
  | lessOrEqual => "lte"
  | greaterThan => "gt"
  | greaterOrEqual => "gte"
  | between => "between"
  | betweenOrEqual => "betweene"
  | contains => "contains"
  | notContains => "notContains"
  | regex => "regex"
  | startsWith => "startsWith"
  | endsWith => "endsWith"
  | all => "all"
  | any => "any"

def takesList : Operator → Bool
  | oneOf | notOneOf | between | betweenOrEqual | all | any => true
  | _ => false

def isPattern : Operator → Bool
  | contains | notContains | regex | startsWith | endsWith => true
  | _ => false

def asList : Json → Json
  | .arr items => .arr items
  | scalar => .arr [scalar]

def clause (key : String) (operand : Json) : Json := .obj [(key, operand)]

def caseless (pattern : String) : Json :=
  .obj [("$regex", .str pattern), ("$options", .str "i")]

def containsClause : Json → Json
  | .str s => caseless (Pattern.escape s)
  | value => clause "$elemMatch" (clause "$eq" value)

def range (op : Operator) (field : String) : Json → Except QueryError (Json × Json)
  | .arr [low, high] => .ok (low, high)
  | _ => .error (.invalidOperand field op.label "expected a two-element [min, max] list")

def textOperand (op : Operator) (field : String) : Json → Except QueryError String
  | .str s => .ok s
  | _ => .error (.invalidOperand field op.label "expected a string")

def build (op : Operator) (field : String) (operand : Json) : Except QueryError Json :=
  match op with
  | notEqual => .ok (clause "$ne" operand)
  | oneOf => .ok (clause "$in" (asList operand))
  | notOneOf => .ok (clause "$nin" (asList operand))
  | lessThan => .ok (clause "$lt" operand)
  | lessOrEqual => .ok (clause "$lte" operand)
  | greaterThan => .ok (clause "$gt" operand)
  | greaterOrEqual => .ok (clause "$gte" operand)
  | between => do
    let (low, high) ← op.range field operand
    return .obj [("$gt", low), ("$lt", high)]
  | betweenOrEqual => do
    let (low, high) ← op.range field operand
    return .obj [("$gte", low), ("$lte", high)]
  | contains => .ok (containsClause operand)
  | notContains => .ok (clause "$not" (containsClause operand))
  | regex => do return clause "$regex" (.str (← op.textOperand field operand))
  | startsWith => do return caseless ("^" ++ Pattern.escape (← op.textOperand field operand))
  | endsWith => do return caseless (Pattern.escape (← op.textOperand field operand) ++ "$")
  | all => .ok (clause "$all" (asList operand))
  | any => .ok (clause "$in" (asList operand))

end Operator

end DocQuery
