import DocQuery.Plan

set_option autoImplicit false

namespace DocQuery.CommandLine

structure Request where
  collection : String
  filter : Json
  pagination : PageArgs
  operation : Option String
  pivot : Option Json

namespace Request

def operationName : Decoder (Option String) := Decode.option Decode.string

def shape : Decode.Shape where
  typeName := "QueryRequest"
  strict := true
  fields :=
    [.of "collection" .required Decode.string, .of "filter" .defaulted Decode.value,
      .of "pagination" .defaulted PageArgs.decode, .of "operation" .defaulted operationName,
      .of "pivot" .defaulted PageArgs.token]

def decode : Decoder Request := fun d => do
  let slots ← Decode.record shape d
  return {
    collection := ← slots.read "collection" Decode.string ""
    filter := ← slots.read "filter" Decode.value .null
    pagination := ← slots.read "pagination" PageArgs.decode {}
    operation := ← slots.read "operation" operationName none
    pivot := ← slots.read "pivot" PageArgs.token none }

def kind (r : Request) : Except String ReadKind :=
  match r.operation with
  | none => .ok .findMany
  | some name =>
    if name = "findMany" then .ok .findMany
    else if name = "findOne" then .ok .findOne
    else if name = "count" then .ok .count
    else .error name

end Request

end DocQuery.CommandLine

namespace DocQuery.Planner

open CommandLine

def compileRequest (p : Planner) (r : Request) : Traced Pipeline := do
  let pipeline ← p.compiler.compilePipeline r.collection r.filter
  let paged ← Traced.lift (pipeline.paginate p.config.primaryKey r.pagination r.pivot)
  return paged.finish

def explainRequest (p : Planner) (kind : ReadKind) (r : Request) : Traced Plan := do
  return (← p.plan kind r.collection r.filter r.pagination r.pivot).plan

end DocQuery.Planner
