import DocQuery.Catalog.Basic
import DocQuery.File
import DocQuery.Log

set_option autoImplicit false

namespace DocQuery.Catalog

-- The relations of one collection after the other; a repeated collection keeps its last list.
abbrev Declarations := List (String × List Relation)

def Declarations.put (d : Declarations) (collection : String) (relations : List Relation) :
    Declarations :=
  d.filter (·.1 != collection) ++ [(collection, relations)]

def decodeDeclarations : Decoder Declarations
  | .obj members =>
    members.foldlM (fun d member => do
      return d.put member.1 (← Decode.list Relation.decode member.2)) []
  | d => Decode.refuse "a map" d

def Declarations.ordered (d : Declarations) : List (String × Relation) :=
  (d.mergeSort fun a b => decide (a.1 ≤ b.1)).flatMap fun c => c.2.map fun r => (c.1, r)

def declareAll (source : String) (relations : List (String × Relation)) :
    Except QueryError Catalog :=
  relations.foldlM (fun catalog r => catalog.declare source r.1 r.2) empty

def declarations? (text : String) : Option Declarations :=
  (Document.ofText? text).bind fun d => (decodeDeclarations d).toOption

def load (source text : String) : Except QueryError Catalog :=
  match declarations? text with
  | some d => declareAll source d.ordered
  | none => .error (.catalogMalformed source "Invalid JSON: ")

def loadFile (path : String) (text : FileText) : Except QueryError Catalog :=
  match text with
  | .ok text => load path text
  | .error e => .error (.catalogMalformed path ("Failed to read file: " ++ e.message))

def loadedEntry (path : String) (catalog : Catalog) : Log.Entry :=
  Log.Event.catalogLoaded.entry [("path", path), ("relations", toString catalog.size)]

end DocQuery.Catalog
