import DocQuery.Proofs.Rewriting

set_option autoImplicit false

namespace DocQuery

namespace Visit

structure Showing where
  visitor : Visitor
  node : Node
  action : VisitAction

namespace Showing

def left (s : Showing) : Node :=
  match s.action with
  | .keep => s.node
  | .suppress => s.node.suppress
  | .replace m => m
  | .addSibling _ => s.node

def sibling? (s : Showing) : Option Node :=
  match s.action with
  | .addSibling m => some m
  | _ => none

def run (parser : FilterParser) (path : List String) (s : Showing) : Traced VisitAction :=
  s.visitor.visit s.node ⟨parser, s.node.info.collection, path⟩

def steps (parser : FilterParser) (path : List String) (s : Showing) : List Step :=
  (s.run parser path).steps ++
    match s.action with
    | .suppress => (logSuppressed s.node s.visitor).steps
    | _ => []

end Showing

/-- A node is shown to its visitors in turn, to each once. Each sees what the one before left, none
sees a suppressed node, and only a suppressed node is kept from the visitors that remain. -/
structure ShownInTurn (parser : FilterParser) (path : List String) (p : Pending)
    (showings : List Showing) (shown : Node) : Prop where
  order : showings.map (·.visitor) <+: p.visitors
  active : ∀ s ∈ showings, s.node.suppressed = false
  acted : ∀ s ∈ showings, (s.run parser path).result = .ok s.action
  linked : p.node :: showings.map (·.left) = showings.map (·.node) ++ [shown]
  ended : showings.map (·.visitor) = p.visitors ∨ shown.suppressed = true

def siblings : List Visitor → List Showing → List Pending
  | _ :: rest, s :: showings => s.sibling?.toList.map (⟨·, rest⟩) ++ siblings rest showings
  | _, _ => []

structure BranchVisit where
  nodes : List Node
  visited : List Node
  steps : List Step

structure NodeVisit where
  start : Pending
  showings : List Showing
  shown : Node
  below : List BranchVisit

namespace NodeVisit

def left (v : NodeVisit) : Node :=
  if v.shown.suppressed then v.shown else v.shown.withBranches (v.below.map (·.visited))

def siblings (v : NodeVisit) : List Pending := Visit.siblings v.start.visitors v.showings

def steps (parser : FilterParser) (path : List String) (v : NodeVisit) : List Step :=
  v.showings.flatMap (·.steps parser path) ++ v.below.flatMap (·.steps)

structure Follows (parser : FilterParser) (path : List String) (v : NodeVisit) : Prop where
  shown : ShownInTurn parser path v.start v.showings v.shown
  entered : v.below.map (·.nodes) = if v.shown.suppressed then [] else v.shown.branches

end NodeVisit

/-- The visit of a branch. Its nodes come first, each for every visitor, and then the siblings that
are added to the branch, in the order in which they are. Their visits follow one another, and each
leaves one node. -/
inductive Traversed (visitors : List Visitor) (parser : FilterParser) :
    List String → BranchVisit → Prop
  | visits (path : List String) (nodes : List Node) (each : List NodeVisit)
      (queued : each.map (·.start) = nodes.map (⟨·, visitors⟩) ++ each.flatMap (·.siblings))
      (followed : ∀ v ∈ each, v.Follows parser path)
      (below : ∀ v ∈ each, ∀ branch ∈ v.below,
        Traversed visitors parser (path ++ [v.shown.info.key]) branch) :
      Traversed visitors parser path
        ⟨nodes, each.map (·.left), each.flatMap (·.steps parser path)⟩

section

variable {visitors : List Visitor} {parser : FilterParser} {path : List String}

namespace ShownInTurn

variable {n shown : Node}

theorem unseen (parser : FilterParser) (path : List String)
    (ended : visitors = [] ∨ n.suppressed = true) :
    ShownInTurn parser path ⟨n, visitors⟩ [] n where
  order := List.nil_prefix
  active := by simp
  acted := by simp
  linked := rfl
  ended := ended.imp_left Eq.symm

theorem cons {s : Showing} (active : s.node.suppressed = false)
    (acted : (s.run parser path).result = .ok s.action) {showings : List Showing}
    (rest : ShownInTurn parser path ⟨s.left, visitors⟩ showings shown) :
    ShownInTurn parser path ⟨s.node, s.visitor :: visitors⟩ (s :: showings) shown where
  order := by simpa using rest.order
  active := List.forall_mem_cons.mpr ⟨active, rest.active⟩
  acted := List.forall_mem_cons.mpr ⟨acted, rest.acted⟩
  linked := by simpa using rest.linked
  ended := by simpa using rest.ended

end ShownInTurn

theorem showTo_cons {v : Visitor} {n shown : Node} {steps : List Step} {added : List Pending}
    (active : n.suppressed = false)
    (run : showTo parser path (v :: visitors) n = ⟨steps, .ok (shown, added)⟩) :
    ∃ (s : Showing) (later : List Step) (more : List Pending), s.visitor = v ∧ s.node = n ∧
      (s.run parser path).result = .ok s.action ∧
      showTo parser path visitors s.left = ⟨later, .ok (shown, more)⟩ ∧
      added = s.sibling?.toList.map (⟨·, visitors⟩) ++ more ∧
      steps = s.steps parser path ++ later := by
  rw [showTo, active] at run
  obtain ⟨action, first, later, acted, left, rfl⟩ := Traced.bind_eq_ok_steps.mp run
  refine ⟨⟨v, n, action⟩, ?_⟩
  simp only [Showing.steps, Showing.left, Showing.sibling?, Showing.run, acted, true_and]
  cases action with
  | keep => exact ⟨later, added, left, rfl, by simp⟩
  | replace m => exact ⟨later, added, left, rfl, by simp⟩
  | suppress =>
    obtain ⟨_, noted, rest, logged, shown, rfl⟩ := Traced.bind_eq_ok_steps.mp left
    exact ⟨rest, added, shown, rfl, by simp [logged]⟩
  | addSibling m =>
    obtain ⟨⟨left, more⟩, rest, last, shown, made, rfl⟩ := Traced.bind_eq_ok_steps.mp left
    obtain ⟨same, rfl⟩ := Traced.pure_eq_ok_steps.mp made
    cases same
    exact ⟨rest, more, shown, rfl, by simp⟩

theorem showTo_history {n shown : Node} {steps : List Step} {added : List Pending}
    (run : showTo parser path visitors n = ⟨steps, .ok (shown, added)⟩) :
    ∃ showings, ShownInTurn parser path ⟨n, visitors⟩ showings shown ∧
      added = siblings visitors showings ∧ steps = showings.flatMap (·.steps parser path) := by
  induction visitors generalizing n steps added with
  | nil =>
    obtain ⟨same, rfl⟩ := Traced.pure_eq_ok_steps.mp run
    cases same
    exact ⟨[], .unseen parser path (.inl rfl), rfl, rfl⟩
  | cons v rest ih =>
    cases hidden : n.suppressed with
    | true =>
      rw [showTo, if_pos hidden] at run
      obtain ⟨same, rfl⟩ := Traced.pure_eq_ok_steps.mp run
      cases same
      exact ⟨[], .unseen parser path (.inr hidden), rfl, rfl⟩
    | false =>
      obtain ⟨s, later, more, rfl, rfl, acted, shown, rfl, rfl⟩ := showTo_cons hidden run
      obtain ⟨showings, inTurn, rfl, rfl⟩ := ih shown
      exact ⟨s :: showings, .cons hidden acted inTurn, rfl, rfl⟩

theorem mapM_history {f : List Node → Traced (List Node)} {branches visited : List (List Node)}
    {steps : List Step} (run : branches.mapM f = ⟨steps, .ok visited⟩) :
    ∃ below : List BranchVisit, below.map (·.nodes) = branches ∧
      below.map (·.visited) = visited ∧ below.flatMap (·.steps) = steps ∧
      ∀ b ∈ below, f b.nodes = ⟨b.steps, .ok b.visited⟩ := by
  induction branches generalizing visited steps with
  | nil =>
    obtain ⟨rfl, rfl⟩ := Traced.pure_eq_ok_steps.mp run
    exact ⟨[], rfl, rfl, rfl, by simp⟩
  | cons branch rest ih =>
    rw [List.mapM_cons] at run
    obtain ⟨inner, first, others, found, others, rfl⟩ := Traced.bind_eq_ok_steps.mp run
    obtain ⟨more, later, last, visits, made, rfl⟩ := Traced.bind_eq_ok_steps.mp others
    obtain ⟨rfl, rfl⟩ := Traced.pure_eq_ok_steps.mp made
    obtain ⟨below, rfl, rfl, rfl, each⟩ := ih visits
    exact ⟨⟨branch, inner, first⟩ :: below, rfl, rfl, by simp,
      List.forall_mem_cons.mpr ⟨found, each⟩⟩

theorem visitNode_history {enclosed : List String → List Node → Traced (List Node)} {p : Pending}
    {n : Node} {added : List Pending} {steps : List Step}
    (run : visitNode parser path enclosed p = ⟨steps, .ok (n, added)⟩) :
    ∃ v : NodeVisit, v.start = p ∧ v.left = n ∧ v.siblings = added ∧
      v.steps parser path = steps ∧ v.Follows parser path ∧
      (∃ first, showTo parser path p.visitors p.node = ⟨first, .ok (v.shown, added)⟩) ∧
      ∀ b ∈ v.below, enclosed (path ++ [v.shown.info.key]) b.nodes = ⟨b.steps, .ok b.visited⟩ := by
  obtain ⟨⟨shown, siblings⟩, first, later, showing, inside, rfl⟩ := Traced.bind_eq_ok_steps.mp run
  obtain ⟨showings, inTurn, rfl, rfl⟩ := showTo_history showing
  suffices inner : ∃ below : List BranchVisit,
      below.map (·.nodes) = (if shown.suppressed then [] else shown.branches) ∧
      n = (if shown.suppressed then shown else shown.withBranches (below.map (·.visited))) ∧
      added = Visit.siblings p.visitors showings ∧ later = below.flatMap (·.steps) ∧
      ∀ b ∈ below, enclosed (path ++ [shown.info.key]) b.nodes = ⟨b.steps, .ok b.visited⟩ by
    obtain ⟨below, entered, rfl, rfl, rfl, each⟩ := inner
    exact ⟨⟨p, showings, shown, below⟩, rfl, rfl, rfl, rfl, ⟨inTurn, entered⟩, ⟨_, showing⟩, each⟩
  cases hidden : shown.suppressed with
  | true =>
    simp only [hidden, if_true] at inside
    obtain ⟨same, rfl⟩ := Traced.pure_eq_ok_steps.mp inside
    cases same
    exact ⟨[], rfl, rfl, rfl, rfl, by simp⟩
  | false =>
    simp only [hidden, Bool.false_eq_true, if_false] at inside ⊢
    cases shown with
    | field i name operator =>
      obtain ⟨same, rfl⟩ := Traced.pure_eq_ok_steps.mp inside
      cases same
      exact ⟨[], rfl, rfl, rfl, rfl, by simp⟩
    | relation i r children =>
      obtain ⟨visited, inner, last, found, made, rfl⟩ := Traced.bind_eq_ok_steps.mp inside
      obtain ⟨same, rfl⟩ := Traced.pure_eq_ok_steps.mp made
      cases same
      exact ⟨[⟨children, visited, inner⟩], rfl, by simp [Node.withBranches], rfl, by simp,
        by simpa [Node.info] using found⟩
    | group i connective branches =>
      obtain ⟨visited, inner, last, found, made, rfl⟩ := Traced.bind_eq_ok_steps.mp inside
      obtain ⟨same, rfl⟩ := Traced.pure_eq_ok_steps.mp made
      cases same
      obtain ⟨below, rfl, rfl, rfl, each⟩ := mapM_history found
      exact ⟨below, rfl, rfl, rfl, by simp, each⟩

structure Drained (visitors : List Visitor) (parser : FilterParser) (path : List String)
    (queue : List Pending) (each : List NodeVisit) : Prop where
  queued : each.map (·.start) = queue ++ each.flatMap (·.siblings)
  followed : ∀ v ∈ each, v.Follows parser path
  below : ∀ v ∈ each, ∀ branch ∈ v.below,
    Traversed visitors parser (path ++ [v.shown.info.key]) branch

theorem Drained.traversed {nodes : List Node} {each : List NodeVisit}
    (drained : Drained visitors parser path (nodes.map (⟨·, visitors⟩)) each) :
    Traversed visitors parser path
      ⟨nodes, each.map (·.left), each.flatMap (·.steps parser path)⟩ :=
  .visits path nodes each drained.queued drained.followed drained.below

-- The siblings of the first visit are visited after what waits already, and before the siblings of
-- later visits.
theorem Drained.cons {v : NodeVisit} (follows : v.Follows parser path)
    (below : ∀ branch ∈ v.below, Traversed visitors parser (path ++ [v.shown.info.key]) branch)
    {rest : List Pending} {each : List NodeVisit}
    (later : Drained visitors parser path (rest ++ v.siblings) each) :
    Drained visitors parser path (v.start :: rest) (v :: each) where
  queued := by simp [later.queued]
  followed := List.forall_mem_cons.mpr ⟨follows, later.followed⟩
  below := List.forall_mem_cons.mpr ⟨below, later.below⟩

theorem rewrites_history {queue : List Pending} {outcome : Traced (List Node)}
    (rewrites : Rewrites visitors parser path queue outcome) {result : List Node}
    {steps : List Step} (success : outcome = ⟨steps, .ok result⟩) :
    ∃ each, Drained visitors parser path queue each ∧ result = each.map (·.left) ∧
      steps = each.flatMap (·.steps parser path) := by
  induction rewrites generalizing result steps with
  | done path =>
    obtain ⟨rfl, rfl⟩ := Traced.pure_eq_ok_steps.mp success
    exact ⟨[], ⟨rfl, by simp, by simp⟩, rfl, rfl⟩
  | next path p rest enclosed later below after ihBelow ihAfter =>
    obtain ⟨⟨n, siblings⟩, first, rest, visited, more, rfl⟩ := Traced.bind_eq_ok_steps.mp success
    obtain ⟨others, second, last, run, made, rfl⟩ := Traced.bind_eq_ok_steps.mp more
    obtain ⟨rfl, rfl⟩ := Traced.pure_eq_ok_steps.mp made
    obtain ⟨v, rfl, rfl, rfl, rfl, follows, ⟨showing, shown⟩, inner⟩ := visitNode_history visited
    obtain ⟨each, drained, rfl, rfl⟩ := ihAfter v.left v.siblings (by rw [visited]) run
    refine ⟨v :: each, drained.cons follows ?_, rfl, by simp⟩
    intro branch listed
    have entered : branch.nodes ∈ v.below.map (·.nodes) := List.mem_map_of_mem listed
    rw [follows.entered] at entered
    cases hidden : v.shown.suppressed with
    | true => simp [hidden] at entered
    | false =>
      rw [hidden] at entered
      obtain ⟨all, queued, left, taken⟩ :=
        ihBelow v.shown v.siblings (by rw [shown]) hidden branch.nodes entered (inner branch listed)
      obtain ⟨nodes, visited, steps⟩ := branch
      subst left taken
      exact queued.traversed

section

variable {enclosed : List String → List Node → Traced (List Node)}

theorem enclosed_of_visitNode {p : Pending} {n shown : Node} {added siblings : List Pending}
    (visited : (visitNode parser path enclosed p).result = .ok (n, added))
    (showing : (showTo parser path p.visitors p.node).result = .ok (shown, siblings))
    (active : shown.suppressed = false) {branch : List Node} (inside : branch ∈ shown.branches) :
    ∃ inner, (enclosed (path ++ [shown.info.key]) branch).result = .ok inner := by
  obtain ⟨v, -, -, -, -, follows, ⟨first, same⟩, each⟩ :=
    visitNode_history (Traced.eq_of_ok visited)
  rw [same] at showing
  cases showing
  have entered := follows.entered
  rw [active, if_neg Bool.false_ne_true] at entered
  obtain ⟨b, listed, rfl⟩ := List.mem_map.mp (entered ▸ inside)
  exact ⟨b.visited, by rw [each b listed]⟩

end

-- Nothing is known of the visitors here, but that all the visits come to an end.
theorem rewrites_visitBranch_of_ok {e : QueryError} {levels : Nat} {nodes result : List Node}
    (success : (visitBranch visitors parser (Traced.fail e) levels path nodes).result =
      .ok result) :
    Rewrites visitors parser path (nodes.map (⟨·, visitors⟩))
      (visitBranch visitors parser (Traced.fail e) levels path nodes) := by
  have queued (nodes : List Node) : ∀ p ∈ nodes.map (⟨·, visitors⟩ : Node → Pending),
      True ∧ p.visitors.length < visitors.length + 1 := by
    simp
  induction levels generalizing path nodes result with
  | zero =>
    refine @rewrites_drain _ _ _ _ (fun _ => True) True ?_ (fun _ _ _ _ _ _ _ => trivial) _ _
      (queued nodes) fun _ => ⟨result, success⟩
    intro p _ visited shown siblings showing active branch inside
    obtain ⟨⟨n, added⟩, visited⟩ := visited trivial
    obtain ⟨inner, failed⟩ := enclosed_of_visitNode visited showing active inside
    cases failed
  | succ levels ih =>
    refine @rewrites_drain _ _ _ _ (fun _ => True) True ?_ (fun _ _ _ _ _ _ _ => trivial) _ _
      (queued nodes) fun _ => ⟨result, success⟩
    intro p _ visited shown siblings showing active branch inside
    obtain ⟨⟨n, added⟩, visited⟩ := visited trivial
    obtain ⟨inner, found⟩ := enclosed_of_visitNode visited showing active inside
    exact ih found

theorem applied_of_ok {nodes rewritten : List Node}
    (success : (apply visitors parser nodes).result = .ok rewritten) :
    Applied visitors parser nodes (apply visitors parser nodes) := by
  unfold Applied
  rcases apply_cases visitors parser nodes with ⟨rfl, -⟩ | ⟨levels, ended⟩ | ⟨-, endless⟩
  · simp
  · split
    next unvisited => simp [List.isEmpty_iff.mp unvisited]
    next =>
      rw [← ended (.execution "")] at success ⊢
      exact rewrites_visitBranch_of_ok success
  · rw [endless] at success
    cases success

def NodeVisit.idle (n : Node) : NodeVisit where
  start := ⟨n, []⟩
  showings := []
  shown := n
  below := if n.suppressed then [] else n.branches.map fun branch => ⟨branch, branch, []⟩

theorem NodeVisit.left_idle (n : Node) : (idle n).left = n := by
  cases hidden : n.suppressed <;> simp [idle, left, hidden, Function.comp_def]

theorem NodeVisit.follows_idle (parser : FilterParser) (path : List String) (n : Node) :
    (idle n).Follows parser path where
  shown := .unseen parser path (.inl rfl)
  entered := by cases hidden : n.suppressed <;> simp [idle, hidden, Function.comp_def]

theorem NodeVisit.steps_idle (parser : FilterParser) (path : List String) (n : Node) :
    (idle n).steps parser path = [] := by
  cases hidden : n.suppressed <;> simp [idle, steps, hidden]

theorem NodeVisit.siblings_idle (n : Node) : (idle n).siblings = [] := rfl

theorem traversed_idle (parser : FilterParser) (path : List String) (nodes : List Node)
    (below : ∀ n ∈ nodes, ∀ path, ∀ branch ∈ n.branches,
      Traversed [] parser path ⟨branch, branch, []⟩) :
    Traversed [] parser path ⟨nodes, nodes, []⟩ := by
  have alone : (nodes.map NodeVisit.idle).flatMap (·.siblings) = [] := by
    simp [List.flatMap_eq_nil_iff, NodeVisit.siblings_idle]
  have silent : (nodes.map NodeVisit.idle).flatMap (·.steps parser path) = [] := by
    simp [List.flatMap_eq_nil_iff, NodeVisit.steps_idle]
  have same : (nodes.map NodeVisit.idle).map (·.left) = nodes := by
    simp [Function.comp_def, NodeVisit.left_idle]
  have drained : Drained [] parser path (nodes.map (⟨·, []⟩)) (nodes.map NodeVisit.idle) := by
    refine ⟨?_, ?_, ?_⟩
    · rw [alone, List.append_nil, List.map_map]
      rfl
    · simpa using fun n _ => NodeVisit.follows_idle parser path n
    · intro v listed branch inside
      obtain ⟨n, member, rfl⟩ := List.mem_map.mp listed
      simp only [NodeVisit.idle] at inside ⊢
      split at inside
      next => cases inside
      next =>
        obtain ⟨branch, own, rfl⟩ := List.mem_map.mp inside
        exact below n member _ branch own
  have traversed := drained.traversed
  rwa [same, silent] at traversed

theorem traversed_unvisited (parser : FilterParser) (path : List String) (nodes : List Node) :
    Traversed [] parser path ⟨nodes, nodes, []⟩ := by
  have enclosed (n : Node) : ∀ path, ∀ branch ∈ n.branches,
      Traversed [] parser path ⟨branch, branch, []⟩ := by
    induction n using Node.induct_branches with
    | step n ih =>
      intro path branch inside
      exact traversed_idle parser path branch (ih branch inside)
  exact traversed_idle parser path nodes fun n _ => enclosed n

/-- A rewrite that succeeds is the visit without bound, and such a visit loses, repeats and reorders
nothing, neither in the tree nor among its steps. -/
theorem rewriting_visits_all (visitors : List Visitor) (parser : FilterParser)
    (nodes : List Node) :
    (∀ rewritten, (apply visitors parser nodes).result = .ok rewritten →
      Applied visitors parser nodes (apply visitors parser nodes)) ∧
    ∀ outcome, Applied visitors parser nodes outcome →
      ∀ rewritten, outcome.result = .ok rewritten →
        Traversed visitors parser [] ⟨nodes, rewritten, outcome.steps⟩ := by
  refine ⟨fun rewritten success => applied_of_ok success, ?_⟩
  intro outcome applied rewritten success
  unfold Applied at applied
  split at applied
  next none =>
    rw [applied] at success ⊢
    cases success
    rw [List.isEmpty_iff.mp none]
    exact traversed_unvisited parser [] nodes
  next =>
    obtain ⟨each, drained, rfl, taken⟩ := rewrites_history applied (Traced.eq_of_ok success)
    rw [taken]
    exact drained.traversed

end

end Visit

theorem mirrorAndWrap_visits :
    ∃ rewritten, (Visit.apply (mirrorAndWrap 1) twoLevels bodyNodes).result = .ok rewritten ∧
      Visit.Applied (mirrorAndWrap 1) twoLevels bodyNodes
        (Visit.apply (mirrorAndWrap 1) twoLevels bodyNodes) ∧
      Visit.Traversed (mirrorAndWrap 1) twoLevels []
        ⟨bodyNodes, rewritten, (Visit.apply (mirrorAndWrap 1) twoLevels bodyNodes).steps⟩ ∧
      (Node.withinAll rewritten).map (·.fieldName?) =
        [none, some "body", some "title", some "title"] := by
  have visits := Visit.rewriting_visits_all (mirrorAndWrap 1) twoLevels bodyNodes
  exact ⟨_, rfl, visits.1 _ rfl, visits.2 _ (visits.1 _ rfl) _ rfl, by decide +kernel⟩

end DocQuery
