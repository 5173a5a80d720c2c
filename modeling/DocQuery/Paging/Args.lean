import DocQuery.Decode
import DocQuery.Pipeline.Stage

set_option autoImplicit false

namespace DocQuery

inductive PageSide where
  | after
  | before
  deriving DecidableEq, Repr, Inhabited

def PageSide.label : PageSide → String
  | after => "after"
  | before => "before"

structure PageArgs where
  skip : Option Nat := none
  first : Option Nat := none
  last : Option Nat := none
  after : Option Json := none
  before : Option Json := none
  orderBy : List SortKey := []
  deriving Repr

namespace PageArgs

def direction : Decoder SortDirection := fun d => (Decode.value d).map SortDirection.ofToken

def sortKeyShape : Decode.Shape where
  typeName := "OrderBy"
  strict := false
  fields :=
    [.of "field" .required Decode.string,
      { Decode.Field.of "order" .defaulted direction with aliases := ["direction"] }]

def sortKey : Decoder SortKey := fun d => do
  let slots ← Decode.record sortKeyShape d
  return ⟨← slots.read "field" Decode.string "", ← slots.read "order" direction .ascending⟩

def count : Decoder (Option Nat) := Decode.option (Decode.nat64 "u64")

def token : Decoder (Option Json) := Decode.option Decode.value

def shape : Decode.Shape where
  typeName := "PaginationArgs"
  strict := false
  fields :=
    [.of "skip" .optional count, .of "first" .optional count, .of "last" .optional count,
      .of "after" .optional token, .of "before" .optional token,
      .of "orderBy" .defaulted (Decode.list sortKey)]

def decode : Decoder PageArgs := fun d => do
  let slots ← Decode.record shape d
  return {
    skip := ← slots.read "skip" count none
    first := ← slots.read "first" count none
    last := ← slots.read "last" count none
    after := ← slots.read "after" token none
    before := ← slots.read "before" token none
    orderBy := ← slots.read "orderBy" (Decode.list sortKey) [] }

def natOrNull (n : Option Nat) : Json := .ofOption (n.map .nat)

def sortKeyJson (k : SortKey) : Json :=
  .obj [("field", .str k.field), ("order", .str k.direction.label)]

def toJson (a : PageArgs) : Json :=
  .obj [("skip", natOrNull a.skip), ("first", natOrNull a.first), ("last", natOrNull a.last),
    ("after", .ofOption a.after), ("before", .ofOption a.before),
    ("orderBy", .arr (a.orderBy.map sortKeyJson))]

def pivotToken? (a : PageArgs) : Option (PageSide × Json) :=
  match a.after, a.before with
  | some token, _ => some (.after, token)
  | none, some token => some (.before, token)
  | none, none => none

def isEmpty (a : PageArgs) : Bool :=
  a.skip.isNone && a.first.isNone && a.last.isNone && a.after.isNone && a.before.isNone
    && a.orderBy.isEmpty

end PageArgs

end DocQuery
