import DocQuery.Visit.Visitor

set_option autoImplicit false

namespace DocQuery.Visit

structure Pending where
  node : Node
  visitors : List Visitor

def logSuppressed (n : Node) (v : Visitor) : Traced Unit :=
  Traced.log .nodeSuppressed
    [("key", n.info.key), ("collection", n.info.collection), ("visitor", v.name)]

/-- Shows a node to the visitors in order, each seeing what the one before left. A suppressed node
is shown to no further visitor. A sibling waits for the visitors after the one that added it. -/
def showTo (parser : FilterParser) (path : List String) :
    List Visitor → Node → Traced (Node × List Pending)
  | [], n => pure (n, [])
  | v :: rest, n =>
    if n.suppressed then pure (n, [])
    else do
      match ← v.visit n ⟨parser, n.info.collection, path⟩ with
      | .keep => showTo parser path rest n
      | .suppress => do
        logSuppressed n v
        showTo parser path rest n.suppress
      | .replace other => showTo parser path rest other
      | .addSibling sibling => do
        let (n, siblings) ← showTo parser path rest n
        return (n, ⟨sibling, rest⟩ :: siblings)

section

variable {m : Type → Type} [Monad m]

/-- Visits a queue of nodes, then the siblings they added, then the siblings of those. Each
generation has fewer visitors ahead of it than the one before, so `generations` beyond the number
of visitors leave none waiting. -/
def drain (visit : Pending → m (Node × List Pending)) : Nat → List Pending → m (List Node)
  | 0, waiting => pure (waiting.map (·.node))
  | generations + 1, waiting => do
    let visited ← waiting.mapM visit
    let added ← drain visit generations (visited.flatMap (·.2))
    return visited.map (·.1) ++ added

variable [MonadLiftT Traced m]

def visitNode (parser : FilterParser) (path : List String)
    (enclosed : List String → List Node → m (List Node)) (p : Pending) :
    m (Node × List Pending) := do
  let (n, siblings) ← liftM (showTo parser path p.visitors p.node)
  if n.suppressed then return (n, siblings)
  else
    match n with
    | .field .. => return (n, siblings)
    | .relation i r children => do
      let children ← enclosed (path ++ [i.key]) children
      return (.relation i r children, siblings)
    | .group i c branches => do
      let branches ← branches.mapM (enclosed (path ++ [i.key]))
      return (.group i c branches, siblings)

/-- Visits a branch in pre-order: a node before its children, the children before the next node.
Children are shown to every visitor from the first. Relations and groups are entered `levels`
deep; further down the visit is `cut`. -/
def visitBranch (visitors : List Visitor) (parser : FilterParser) (cut : m (List Node)) :
    Nat → List String → List Node → m (List Node)
  | 0, path, nodes =>
    drain (visitNode parser path fun _ _ => cut) (visitors.length + 1) (nodes.map (⟨·, visitors⟩))
  | levels + 1, path, nodes =>
    drain (visitNode parser path (visitBranch visitors parser cut levels)) (visitors.length + 1)
      (nodes.map (⟨·, visitors⟩))

end

def ended? {α : Type} (x : OptionT Traced α) : Option (Traced α) :=
  match x.run.result with
  | .ok (some a) => some ⟨x.run.steps, .ok a⟩
  | .ok none => none
  | .error e => some ⟨x.run.steps, .error e⟩

def attempt (visitors : List Visitor) (parser : FilterParser) (nodes : List Node) (levels : Nat) :
    Option (Traced (List Node)) :=
  ended? (visitBranch visitors parser failure levels [] nodes)

-- What a search among attempts can give: the outcome of one of them, or none.
abbrev Attempted {α : Type} (attempt : Nat → Option α) : Type :=
  { found : Option α // ∀ outcome ∈ found, ∃ levels, outcome ∈ attempt levels }

instance {α : Type} (attempt : Nat → Option α) : Nonempty (Attempted attempt) :=
  ⟨⟨none, by simp⟩⟩

/-- Attempts with more and more levels until one has an outcome. Where none ever has, the search
does not end, and only its type tells that it finds nothing. -/
def firstFrom {α : Type} (attempt : Nat → Option α) : Nat → Attempted attempt :=
  WellFounded.extrinsicFix (fun next levels => next = levels + 1 ∧ attempt levels = none)
    fun levels search =>
      match tried : attempt levels with
      | some outcome => ⟨some outcome, fun _ same => ⟨levels, tried.trans same⟩⟩
      | none => search (levels + 1) ⟨rfl, tried⟩

def levelsFor (parser : FilterParser) (nodes : List Node) : Nat :=
  max parser.maxDepth (Node.heightAll nodes)

/-- The outcome of showing a tree to visitors. There is none if they go on for ever. -/
def outcome? (visitors : List Visitor) (parser : FilterParser) (nodes : List Node) :
    Option (Traced (List Node)) :=
  if visitors.isEmpty then some (pure nodes)
  else
    match attempt visitors parser nodes (levelsFor parser nodes) with
    | some outcome => some outcome
    | none => (firstFrom (attempt visitors parser nodes) (levelsFor parser nodes + 1)).val

-- The error stands for no outcome at all.
def apply (visitors : List Visitor) (parser : FilterParser) (nodes : List Node) :
    Traced (List Node) :=
  (outcome? visitors parser nodes).getD (Traced.fail (.depthExceeded parser.maxDepth ""))

end DocQuery.Visit
