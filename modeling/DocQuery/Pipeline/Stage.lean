import DocQuery.Catalog.Basic
import DocQuery.Predicate

set_option autoImplicit false

namespace DocQuery

inductive SortDirection where
  | ascending
  | descending
  deriving DecidableEq, Repr, Inhabited

namespace SortDirection

def ofToken : Json → SortDirection
  | .num n => if n.asInt64? = some 1 then ascending else descending
  | .str s => if Text.sameIgnoringAsciiCase s "asc" then ascending else descending
  | _ => descending

def label : SortDirection → String
  | ascending => "asc"
  | descending => "desc"

def native : SortDirection → Int
  | ascending => 1
  | descending => -1

end SortDirection

structure SortKey where
  field : String
  direction : SortDirection
  deriving DecidableEq, Repr, Inhabited

-- A repeated field keeps its first place and takes its last direction.
def SortKey.document (keys : List SortKey) : Fields :=
  Fields.ofList (keys.map fun k => (k.field, .int k.direction.native))

/-- The join of `relation` into the field `output`. For a nested join both `output` and
`localField` start with the path of the parent join. -/
structure Lookup where
  relation : Relation
  output : String
  localField : String
  deriving DecidableEq, Repr, Inhabited

inductive Stage where
  | filter (predicate : Predicate)
  | lookup (join : Lookup)
  | fold (output : String)
  | project (fields : Fields)
  | sort (keys : List SortKey)
  | skip (n : Nat)
  | limit (n : Nat)
  | count (field : String)
  deriving Repr, Inhabited

namespace Stage

def label : Stage → String
  | filter _ => "match"
  | lookup _ => "lookup"
  | fold _ => "fold_one"
  | project _ => "project"
  | sort _ => "sort"
  | skip _ => "skip"
  | limit _ => "limit"
  | count _ => "count"

def lookup? : Stage → Option Lookup
  | lookup join => some join
  | _ => none

def foldDocument (output : String) : Json :=
  .obj [("$ifNull", .arr [
    .obj [("$arrayElemAt", .arr [.str ("$" ++ output), .int 0])], .null])]

def document : Stage → Json
  | filter predicate => .obj [("$match", .obj predicate)]
  | lookup join => .obj [("$lookup", .obj [
      ("from", .str join.relation.target), ("localField", .str join.localField),
      ("foreignField", .str join.relation.foreignField), ("as", .str join.output)])]
  | fold output => .obj [("$addFields", .obj [(output, foldDocument output)])]
  | project fields => .obj [("$project", .obj fields)]
  | sort keys => .obj [("$sort", .obj (SortKey.document keys))]
  | skip n => .obj [("$skip", .nat n)]
  | limit n => .obj [("$limit", .nat n)]
  | count field => .obj [("$count", .str field)]

end Stage

structure Pipeline where
  collection : String
  stages : List Stage
  options : Fields
  deriving Repr

namespace Pipeline

def lookups (p : Pipeline) : List Lookup := p.stages.filterMap Stage.lookup?

def toJson (p : Pipeline) : Json :=
  .obj [("collection", .str p.collection), ("pipeline", .arr (p.stages.map Stage.document)),
    ("options", .obj p.options)]

end Pipeline

end DocQuery
