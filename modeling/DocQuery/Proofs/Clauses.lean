import DocQuery.Compile.Predicate
import DocQuery.Proofs.Merge
import DocQuery.Proofs.Outcome
import DocQuery.Proofs.Tree

set_option autoImplicit false

namespace DocQuery

namespace Compile

theorem node_of_suppressed {n : Node} (suppressed : n.suppressed = true) (scope : String)
    (draft : Draft) : node scope n draft = pure draft := by
  cases n <;> simp_all [node]

theorem node_of_compiler {n : Node} {c : CustomCompiler} (effective : n.suppressed = false)
    (own : n.info.compiler = some c) (scope : String) (draft : Draft) :
    node scope n draft = runCustom c n scope draft := by
  cases n <;> simp_all [node, Node.info]

-- The clauses that nodes without compilers of their own merge into the predicate at hand, in
-- order. A relation adds the finished predicate of its children, a group a single clause.
mutual

def clauses (scope : String) : Node → Except QueryError Fields
  | .field i name operator =>
    if i.suppressed then .ok []
    else do
      let clause ← fieldClause name operator i.value
      return [(scope ++ name, clause)]
  | .relation i r children =>
    if i.suppressed then .ok []
    else do
      let inner ← allClauses (scope ++ r.name ++ ".") children
      return Predicate.mergeAll [] inner
  | .group i connective groups =>
    if i.suppressed then .ok []
    else do
      let compiled ← branchPredicates scope groups
      return if compiled.isEmpty then [] else [(connective.native, .arr compiled)]

def allClauses (scope : String) : List Node → Except QueryError Fields
  | [] => .ok []
  | n :: rest => do
    let first ← clauses scope n
    let others ← allClauses scope rest
    return first ++ others

def branchPredicates (scope : String) : List (List Node) → Except QueryError (List Json)
  | [] => .ok []
  | branch :: rest => do
    let inner ← allClauses scope branch
    let others ← branchPredicates scope rest
    let compiled := Predicate.mergeAll [] inner
    return if compiled.isEmpty then others else .obj compiled :: others

end

theorem clauses_of_suppressed {n : Node} (suppressed : n.suppressed = true) (scope : String) :
    clauses scope n = .ok [] := by
  cases n <;> simp_all [clauses]

def plainPredicate (scope : String) (ns : List Node) : Except QueryError Predicate :=
  (allClauses scope ns).map (Predicate.mergeAll [])

def addClauses (draft : Draft) (found : Except QueryError Fields) : Traced Draft :=
  Traced.lift (found.map fun cs => ⟨draft.predicate.mergeAll cs, draft.pipeline⟩)

theorem nodes_exact_of {ns : List Node}
    (each : ∀ n ∈ ns, ∀ scope draft, node scope n draft = addClauses draft (clauses scope n))
    (scope : String) (draft : Draft) :
    nodes scope ns draft = addClauses draft (allClauses scope ns) := by
  induction ns generalizing draft with
  | nil => rfl
  | cons n rest ih =>
    have first := each n (by simp) scope draft
    have others := ih (fun m member => each m (by simp [member]))
    simp only [nodes, first, allClauses, addClauses]
    cases clauses scope n with
    | error e => simp
    | ok cs =>
      simp only [Outcome.map_ok, Traced.lift_ok, pure_bind, others, Outcome.ok_bind]
      cases allClauses scope rest with
      | error e => simp [addClauses]
      | ok more => simp [addClauses, Predicate.mergeAll_append]

theorem branches_exact_of {groups : List (List Node)}
    (each : ∀ branch ∈ groups, ∀ n ∈ branch, ∀ scope draft,
      node scope n draft = addClauses draft (clauses scope n))
    (scope : String) (pipeline : Staging) :
    branches scope groups pipeline =
      Traced.lift ((branchPredicates scope groups).map fun compiled => (compiled, pipeline)) := by
  induction groups with
  | nil => rfl
  | cons branch rest ih =>
    have first := nodes_exact_of (each branch (by simp)) scope ⟨[], pipeline⟩
    have others := ih (fun b member => each b (by simp [member]))
    simp only [branches, first, branchPredicates, addClauses]
    cases allClauses scope branch with
    | error e => simp
    | ok cs =>
      simp only [Outcome.map_ok, Traced.lift_ok, pure_bind, others, Outcome.ok_bind]
      cases branchPredicates scope rest with
      | error e => simp
      | ok compiled => by_cases empty : (Predicate.mergeAll [] cs).isEmpty <;> simp [empty]

theorem node_exact (n : Node) (standard : ∀ m ∈ n.within, m.Standard) (scope : String)
    (draft : Draft) : node scope n draft = addClauses draft (clauses scope n) := by
  induction n generalizing scope draft with
  | field i name operator =>
    have plain : i.compiler = none := by simpa [Node.within] using standard
    cases suppressed : i.suppressed with
    | true => simp [node, clauses, addClauses, suppressed]
    | false =>
      cases found : fieldClause name operator i.value <;>
        simp [node, clauses, addClauses, suppressed, plain, found, Predicate.mergeAll_cons]
  | relation i r children ih =>
    simp only [Node.within, List.forall_mem_cons, Node.standard_relation,
      Node.forall_withinAll] at standard
    have inner := nodes_exact_of (fun n member => ih n member (standard.2 n member))
    cases suppressed : i.suppressed with
    | true => simp [node, clauses, addClauses, suppressed]
    | false =>
      cases found : allClauses (scope ++ r.name ++ ".") children <;>
        simp [node, clauses, addClauses, suppressed, standard.1, inner, found]
  | group i connective groups ih =>
    simp only [Node.within, List.forall_mem_cons, Node.standard_group,
      Node.forall_withinBranches] at standard
    have inner := branches_exact_of
      (fun branch inside n member => ih branch inside n member (standard.2 branch inside n member))
    cases suppressed : i.suppressed with
    | true => simp [node, clauses, addClauses, suppressed]
    | false =>
      cases found : branchPredicates scope groups with
      | error e => simp [node, clauses, addClauses, suppressed, standard.1, inner, found]
      | ok compiled =>
        by_cases empty : compiled = [] <;>
          simp [node, clauses, addClauses, suppressed, standard.1, inner, found, empty,
            Predicate.mergeAll_cons]

theorem nodes_exact {ns : List Node} (standard : ∀ m ∈ Node.withinAll ns, m.Standard)
    (scope : String) (draft : Draft) :
    nodes scope ns draft = addClauses draft (allClauses scope ns) :=
  nodes_exact_of
    (fun n member => node_exact n (Node.forall_withinAll.mp standard n member)) scope draft

theorem predicate_exact {ns : List Node} (standard : ∀ m ∈ Node.withinAll ns, m.Standard)
    (scope : String) (pipeline : Staging) :
    predicate ns scope pipeline =
      Traced.lift ((plainPredicate scope ns).map fun p => ⟨p, pipeline⟩) := by
  rw [predicate, nodes_exact standard, addClauses, plainPredicate]
  cases allClauses scope ns <;> simp

end Compile

end DocQuery
