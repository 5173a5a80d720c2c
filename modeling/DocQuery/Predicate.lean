import DocQuery.Json.Basic

set_option autoImplicit false

namespace DocQuery

abbrev Predicate := Fields

namespace Predicate

def queryOperators : List String :=
  ["$eq", "$ne", "$gt", "$gte", "$lt", "$lte", "$in", "$nin", "$not", "$regex", "$options", "$all",
    "$elemMatch", "$exists", "$size", "$type", "$mod"]

def isOperatorDocument (fields : Fields) : Bool :=
  !fields.isEmpty && fields.all fun f => queryOperators.contains f.1

def disjointKeys (current incoming : Fields) : Bool :=
  incoming.all fun f => !current.contains f.1

def conjoin (predicate : Predicate) (key : String) (value : Json) : Predicate :=
  let clause := Json.obj [(key, value)]
  match predicate.get? "$and" with
  | some (.arr conjuncts) => predicate.insert "$and" (.arr (conjuncts ++ [clause]))
  | _ => predicate.insert "$and" (.arr [clause])

/-- Adds the clause `key: value`. On a key already present, disjoint operator documents join into
one, `$and` lists are appended, and any other clause moves under `$and`. -/
def merge (predicate : Predicate) (key : String) (value : Json) : Predicate :=
  match predicate.get? key, value with
  | none, value => predicate.insert key value
  | some (.obj current), .obj incoming =>
    if isOperatorDocument current && isOperatorDocument incoming
        && disjointKeys current incoming then
      predicate.insert key (.obj (current ++ incoming))
    else predicate.conjoin key (.obj incoming)
  | some (.arr current), .arr incoming =>
    if key = "$and" then predicate.insert key (.arr (current ++ incoming))
    else predicate.conjoin key (.arr incoming)
  | _, value => predicate.conjoin key value

def mergeAll (predicate : Predicate) (clauses : Fields) : Predicate :=
  clauses.foldl (fun p clause => p.merge clause.1 clause.2) predicate

def isOperatorKey (key : String) : Bool := key.toList.head? == some '$'

mutual

def scopeMembers (path : String) : List (String × Json) → Predicate → Predicate
  | [], done => done
  | (key, value) :: rest, done =>
    scopeMembers path rest <|
      if isOperatorKey key then Fields.insert done key (scopeOperand path value)
      else Fields.insert done (path ++ key) value

def scopeOperand (path : String) : Json → Json
  | .arr branches => .arr (scopeBranches path branches)
  | value => value

def scopeBranches (path : String) : List Json → List Json
  | [] => []
  | .obj members :: rest => .obj (scopeMembers path members []) :: scopeBranches path rest
  | value :: rest => value :: scopeBranches path rest

end

def scope (path : String) (predicate : Predicate) : Predicate := scopeMembers path predicate []

end Predicate

end DocQuery
