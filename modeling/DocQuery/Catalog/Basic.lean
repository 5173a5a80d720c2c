import DocQuery.Decode
import DocQuery.Error
import DocQuery.Text.Blank

set_option autoImplicit false

namespace DocQuery

inductive Cardinality where
  | one
  | many
  deriving DecidableEq, Repr, Inhabited

def Cardinality.label : Cardinality → String
  | one => "one"
  | many => "many"

structure Relation where
  name : String
  target : String
  localField : String
  foreignField : String
  cardinality : Cardinality
  deriving DecidableEq, Repr, Inhabited

namespace Relation

def isOne (r : Relation) : Bool := r.cardinality == .one

def labelledNames (r : Relation) : List (String × String) :=
  [("name", r.name), ("targetCollection", r.target), ("localField", r.localField),
    ("foreignField", r.foreignField)]

def blankName? (r : Relation) : Option String :=
  (r.labelledNames.find? fun n => Text.allBlank n.2).map (·.1)

def shape : Decode.Shape where
  typeName := "RelationDescriptor"
  strict := false
  fields :=
    [.of "name" .required Decode.string, .of "targetCollection" .required Decode.string,
      .of "localField" .required Decode.string, .of "foreignField" .required Decode.string,
      .of "cardinality" .required (Decode.variant [("one", Cardinality.one), ("many", .many)])]

def decode : Decoder Relation := fun d => do
  let slots ← Decode.record shape d
  return {
    name := ← slots.read "name" Decode.string ""
    target := ← slots.read "targetCollection" Decode.string ""
    localField := ← slots.read "localField" Decode.string ""
    foreignField := ← slots.read "foreignField" Decode.string ""
    cardinality := ← slots.read "cardinality"
      (Decode.variant [("one", Cardinality.one), ("many", .many)]) .many }

def toJson (r : Relation) : Json :=
  .obj (r.labelledNames.map (fun n => (n.1, .str n.2)) ++ [("cardinality", .str r.cardinality.label)])

end Relation

structure Catalog where
  entries : List (String × Relation)
  deriving Repr, Inhabited

namespace Catalog

def empty : Catalog := ⟨[]⟩

def relation? (catalog : Catalog) (collection name : String) : Option Relation :=
  (catalog.entries.find? fun e => e.1 == collection && e.2.name == name).map (·.2)

def isRelation (catalog : Catalog) (collection name : String) : Bool :=
  (catalog.relation? collection name).isSome

def size (catalog : Catalog) : Nat := catalog.entries.length

def namesOf (catalog : Catalog) (collection : String) : List String :=
  ((catalog.entries.filter (·.1 == collection)).map (·.2.name)).mergeSort
    fun a b => decide (a ≤ b)

def objection? (catalog : Catalog) (collection : String) (r : Relation) : Option String :=
  match r.blankName? with
  | some label => some ("relation " ++ label ++ " must not be empty")
  | none =>
    if catalog.isRelation collection r.name then
      some ("relation '" ++ r.name ++ "' already declared on '" ++ collection ++ "'")
    else none

def declare (catalog : Catalog) (source collection : String) (r : Relation) :
    Except QueryError Catalog :=
  match catalog.objection? collection r with
  | some reason => .error (.catalogMalformed source reason)
  | none => .ok ⟨catalog.entries ++ [(collection, r)]⟩

def register (catalog : Catalog) (collection : String) (r : Relation) :
    Except QueryError Catalog :=
  catalog.declare "<in-memory>" collection r

end Catalog

end DocQuery
