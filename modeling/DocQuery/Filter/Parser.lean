import DocQuery.Filter.Node

set_option autoImplicit false

namespace DocQuery

structure FilterParser where
  catalog : Catalog
  maxDepth : Nat

namespace FilterParser

def kindLabel : Json → String
  | .null => "null"
  | .bool _ => "a boolean"
  | .num _ => "a number"
  | .str _ => "a string"
  | .arr _ => "a list"
  | .obj _ => "an object"

/-- Where an entry stands: the keys of the enclosing groups and relations from the root, the
collection its key belongs to, and the collections that the relations on the way have entered. -/
structure Place where
  path : List String
  collection : String
  entered : List String

-- Resuming below a path forgets the collections entered on the way, other than the current one.
def Place.at (collection : String) (path : List String) : Place := ⟨path, collection, [collection]⟩

def Place.root (collection : String) : Place := .at collection []

def Place.inGroup (place : Place) (key : String) : Place :=
  { place with path := place.path ++ [key] }

def Place.inRelation (place : Place) (key target : String) : Place :=
  ⟨place.path ++ [key], target, place.entered ++ [target]⟩

def enter (p : FilterParser) (place : Place) : Traced Unit :=
  if p.maxDepth < place.path.length then
    Traced.fail (.depthExceeded p.maxDepth (Text.joinPath place.path))
  else pure ()

def noteCycle (outer inner : Place) : Traced Unit :=
  if outer.entered.contains inner.collection then
    Traced.log .relationCycle
      [("collection", inner.collection), ("path", Text.joinPath inner.path)]
  else pure ()

def isKeyword (p : FilterParser) (collection name : String) : Bool :=
  (Connective.ofKey? name).isSome || p.catalog.isRelation collection name

def parseField (p : FilterParser) (place : Place) (key : String) (value : Json) :
    Except QueryError Node :=
  let split := SplitKey.ofKey key
  if p.isKeyword place.collection split.field then
    .error (.malformedFilter ("'" ++ key ++ "' on '" ++ place.collection
      ++ "' applies an operator to '" ++ split.field
      ++ "', which is a logical or relation keyword"))
  else .ok (.field { key, value, collection := place.collection } split.field split.operator)

def notAGroup {α : Type} (key : String) : Traced α := Traced.fail (.malformedLogicalGroup key)

def notARelation {α : Type} (place : Place) (key : String) (value : Json) : Traced α :=
  Traced.fail (.malformedFilter ("relation '" ++ key ++ "' on '" ++ place.collection
    ++ "' expects a nested filter object, got " ++ kindLabel value))

mutual

def parseEntry (p : FilterParser) (place : Place) (key : String) (value : Json) : Traced Node :=
  if key = "" then
    Traced.fail (.malformedFilter ("empty key in filter for '" ++ place.collection ++ "'"))
  else
    match Connective.ofKey? key, p.catalog.relation? place.collection key with
    | some connective, _ =>
      match value with
      | .arr items => do
        let inner := place.inGroup key
        p.enter inner
        let branches ← parseBranches p inner key items
        return .group { key, value := .arr items, collection := place.collection }
          connective branches
      | _ => notAGroup key
    | none, some r =>
      match value with
      | .obj members => do
        let inner := place.inRelation key r.target
        p.enter inner
        noteCycle place inner
        let children ← parseMembers p inner members
        return .relation { key, value := .obj members, collection := place.collection } r children
      | value => notARelation place key value
    | none, none => Traced.lift (p.parseField place key value)

def parseMembers (p : FilterParser) (place : Place) :
    List (String × Json) → Traced (List Node)
  | [] => pure []
  | (key, value) :: rest => do
    let node ← parseEntry p place key value
    let nodes ← parseMembers p place rest
    return node :: nodes

def parseBranches (p : FilterParser) (place : Place) (key : String) :
    List Json → Traced (List (List Node))
  | [] => pure []
  | .obj members :: rest => do
    let branch ← parseMembers p place members
    let branches ← parseBranches p place key rest
    return branch :: branches
  | _ :: _ => notAGroup key

end

def parse (p : FilterParser) (collection : String) (filter : Json) : Traced (List Node) :=
  match filter with
  | .null => pure []
  | .obj members => p.parseMembers (.root collection) members
  | other =>
    Traced.fail (.malformedFilter ("filter for '" ++ collection ++ "' must be an object, got "
      ++ kindLabel other))

def entryAt (p : FilterParser) (collection : String) (path : List String) (key : String)
    (value : Json) : Traced Node :=
  p.parseEntry (.at collection path) key value

end FilterParser

end DocQuery
