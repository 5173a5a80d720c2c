import DocQuery.Filter.Node

set_option autoImplicit false

namespace DocQuery.Compile

def runCustom (c : CustomCompiler) (n : Node) (scope : String) (draft : Draft) : Traced Draft :=
  (c.on n.view).run scope draft

def fieldClause (name : String) (operator : Option Operator) (value : Json) :
    Except QueryError Json :=
  match operator with
  | some op => op.build name value
  | none => .ok value

-- Compiles nodes into one predicate. Field names are put behind `scope`, the path of the join they
-- are read from; a relation lengthens it. Suppressed nodes are left out, and so are the branches
-- of a group that come out empty.
mutual

def node (scope : String) (n : Node) (draft : Draft) : Traced Draft :=
  match n with
  | .field i name operator =>
    if i.suppressed then pure draft
    else
      match i.compiler with
      | some c => runCustom c n scope draft
      | none => do
        let clause ← Traced.lift (fieldClause name operator i.value)
        return { draft with predicate := draft.predicate.merge (scope ++ name) clause }
  | .relation i r children =>
    if i.suppressed then pure draft
    else
      match i.compiler with
      | some c => runCustom c n scope draft
      | none => do
        let inner ← nodes (scope ++ r.name ++ ".") children ⟨[], draft.pipeline⟩
        return ⟨draft.predicate.mergeAll inner.predicate, inner.pipeline⟩
  | .group i connective groups =>
    if i.suppressed then pure draft
    else
      match i.compiler with
      | some c => runCustom c n scope draft
      | none => do
        let (compiled, pipeline) ← branches scope groups draft.pipeline
        if compiled.isEmpty then return ⟨draft.predicate, pipeline⟩
        else return ⟨draft.predicate.merge connective.native (.arr compiled), pipeline⟩

def nodes (scope : String) : List Node → Draft → Traced Draft
  | [], draft => pure draft
  | n :: rest, draft => do
    let draft ← node scope n draft
    nodes scope rest draft

def branches (scope : String) : List (List Node) → Staging → Traced (List Json × Staging)
  | [], pipeline => pure ([], pipeline)
  | branch :: rest, pipeline => do
    let draft ← nodes scope branch ⟨[], pipeline⟩
    let (compiled, pipeline) ← branches scope rest draft.pipeline
    if draft.predicate.isEmpty then return (compiled, pipeline)
    else return (.obj draft.predicate :: compiled, pipeline)

end

def predicate (ns : List Node) (scope : String) (pipeline : Staging) : Traced Draft :=
  nodes scope ns ⟨[], pipeline⟩

end DocQuery.Compile
