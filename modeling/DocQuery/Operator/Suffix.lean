import DocQuery.Operator.Basic
import DocQuery.Text.Blank

set_option autoImplicit false

namespace DocQuery

structure SplitKey where
  field : String
  operator : Option Operator
  deriving DecidableEq, Repr, Inhabited

namespace Operator

def suffixes : List (String × Operator) :=
  [("not", notEqual), ("in", oneOf), ("nin", notOneOf), ("notIn", notOneOf),
    ("lt", lessThan), ("lowerThan", lessThan),
    ("lte", lessOrEqual), ("lowerThanOrEqual", lessOrEqual),
    ("gt", greaterThan), ("greaterThan", greaterThan),
    ("gte", greaterOrEqual), ("greaterThanOrEqual", greaterOrEqual),
    ("between", between), ("betweene", betweenOrEqual), ("betweenOrEqual", betweenOrEqual),
    ("contains", contains), ("notContains", notContains), ("regex", regex),
    ("startsWith", startsWith), ("endsWith", endsWith),
    ("all", all), ("every", all), ("any", any), ("some", any)]

def ofSuffix? (suffix : String) : Option Operator :=
  (suffixes.find? (·.1 == suffix)).map (·.2)

end Operator

def splitLastUnderscore (chars : List Char) : Option (List Char × List Char) :=
  match chars.reverse.dropWhile (· != '_') with
  | [] => none
  | _ :: before => some (before.reverse, (chars.reverse.takeWhile (· != '_')).reverse)

def SplitKey.ofKey (key : String) : SplitKey :=
  match splitLastUnderscore key.toList with
  | some (field, suffix) =>
    match Operator.ofSuffix? (String.ofList suffix) with
    | some op => if field.isEmpty then ⟨key, none⟩ else ⟨String.ofList field, some op⟩
    | none => ⟨key, none⟩
  | none => ⟨key, none⟩

inductive Connective where
  | and
  | or
  | nor
  deriving DecidableEq, Repr, Inhabited

namespace Connective

def ofKey? (key : String) : Option Connective :=
  let lower := Text.lowerAsciiChars key
  if lower = ['a', 'n', 'd'] then some and
  else if lower = ['o', 'r'] then some or
  else if lower = ['n', 'o', 'r'] then some nor
  else none

def native : Connective → String
  | and => "$and"
  | or => "$or"
  | nor => "$nor"

end Connective

end DocQuery
