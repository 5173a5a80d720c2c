import DocQuery.Paging.Args
import DocQuery.Pipeline.Staging

set_option autoImplicit false

namespace DocQuery

structure Window where
  pivotMatch : Predicate := []
  sort : List SortKey := []
  skip : Option Nat := none
  limit : Option Nat := none
  deriving Repr

namespace Window

def validate (args : PageArgs) : Except QueryError Unit :=
  if args.last.isSome then
    .error (.unsupported "'last' pagination; use 'first' with a reversed orderBy")
  else if args.after.isSome && args.before.isSome then
    .error (.invalidPagination "'after' and 'before' cannot be combined")
  else .ok ()

def comparator : SortDirection → PageSide → String
  | .ascending, .after => "$gt"
  | .descending, .before => "$gt"
  | .ascending, .before => "$lt"
  | .descending, .after => "$lt"

def comparison (direction : SortDirection) (side : PageSide) (value : Json) : Json :=
  .obj [(comparator direction side, value)]

def orderMatch (side : PageSide) (pivot : Json) (orderBy : List SortKey) : Predicate :=
  orderBy.foldl (fun p k =>
    match pivot.valueAt? k.field with
    | some value => p.merge k.field (comparison k.direction side value)
    | none => p) []

def pivotMatchFor (primaryKey : String) (side : PageSide) (orderBy : List SortKey)
    (pivot : Json) : Except QueryError Predicate :=
  if !pivot.isObject then .error (.invalidPagination "pivot must be a document")
  else if orderBy.isEmpty then
    match pivot.valueAt? primaryKey with
    | some value => .ok [(primaryKey, comparison .ascending side value)]
    | none =>
      .error (.invalidPagination ("pivot has no '" ++ primaryKey ++ "' to page from"))
  else .ok (orderMatch side pivot orderBy)

def pivotMatchOf (primaryKey : String) (args : PageArgs) (pivot : Option Json) :
    Except QueryError Predicate :=
  match args.pivotToken?, pivot with
  | some (side, _), some pivot => pivotMatchFor primaryKey side args.orderBy pivot
  | some _, none =>
    .error (.invalidPagination "'after'/'before' given but the pivot was not resolved")
  | none, some _ =>
    .error (.invalidPagination "pivot supplied without 'after' or 'before'")
  | none, none => .ok []

def ofArgs (primaryKey : String) (args : PageArgs) (pivot : Option Json) :
    Except QueryError Window := do
  validate args
  let pivotMatch ← pivotMatchOf primaryKey args pivot
  return { pivotMatch, sort := args.orderBy, skip := args.skip.filter (0 < ·),
           limit := args.first }

def appendTo (w : Window) (s : Staging) : Staging :=
  let s := (s.filter w.pivotMatch).sortBy w.sort
  let s := match w.skip with
    | some n => s.skip n
    | none => s
  match w.limit with
  | some n => s.limit n
  | none => s

end Window

def Staging.paginateOn (s : Staging) (primaryKey : String) (args : PageArgs)
    (pivot : Option Json) : Left :=
  match Window.ofArgs primaryKey args pivot with
  | .ok window => ⟨window.appendTo s, pure ()⟩
  | .error e => ⟨s, Traced.fail e⟩

def Staging.paginate (s : Staging) (primaryKey : String) (args : PageArgs)
    (pivot : Option Json) : Except QueryError Staging :=
  (s.paginateOn primaryKey args pivot).result.result

end DocQuery
