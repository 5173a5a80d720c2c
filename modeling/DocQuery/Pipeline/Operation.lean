import DocQuery.Paging.Window

set_option autoImplicit false

namespace DocQuery.Staging

inductive Operation where
  | filter (predicate : Predicate)
  | lookup (name : String) (options : LookupOptions)
  | project (fields : Fields)
  | sort (order : Fields)
  | sortBy (keys : List SortKey)
  | skip (n : Nat)
  | limit (n : Nat)
  | count (field : String)
  | paginate (primaryKey : String) (args : PageArgs) (pivot : Option Json)

def operate (s : Staging) : Operation → Left
  | .filter predicate => ⟨s.filter predicate, pure ()⟩
  | .lookup name options => s.lookupOn name options
  | .project fields => ⟨s.project fields, pure ()⟩
  | .sort order => ⟨s.sort order, pure ()⟩
  | .sortBy keys => ⟨s.sortBy keys, pure ()⟩
  | .skip n => ⟨s.skip n, pure ()⟩
  | .limit n => ⟨s.limit n, pure ()⟩
  | .count field => ⟨s.count field, pure ()⟩
  | .paginate primaryKey args pivot => s.paginateOn primaryKey args pivot

def perform (s : Staging) (op : Operation) : Traced Staging := (s.operate op).result

-- The pipeline that the next operation goes on from, whether or not this one fails.
def performed (s : Staging) (op : Operation) : Staging := (s.operate op).pipeline

def performAll (s : Staging) (ops : List Operation) : Staging := ops.foldl performed s

end DocQuery.Staging
