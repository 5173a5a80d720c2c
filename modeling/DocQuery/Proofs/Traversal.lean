import DocQuery.Proofs.Attempts

set_option autoImplicit false

namespace DocQuery.Visit

structure Invariant (holds : List String → String → Node → Prop) : Prop where
  suppress : ∀ path owner n, holds path owner n → holds path owner n.suppress
  children : ∀ path owner i r children, holds path owner (.relation i r children) →
    ∀ n ∈ children, holds (path ++ [i.key]) r.target n
  relation : ∀ path owner i r children others, holds path owner (.relation i r children) →
    (∀ n ∈ others, holds (path ++ [i.key]) r.target n) → holds path owner (.relation i r others)
  branches : ∀ path owner i connective branches, holds path owner (.group i connective branches) →
    ∀ branch ∈ branches, ∀ n ∈ branch, holds (path ++ [i.key]) owner n
  group : ∀ path owner i connective branches others,
    holds path owner (.group i connective branches) →
    (∀ branch ∈ others, ∀ n ∈ branch, holds (path ++ [i.key]) owner n) →
      holds path owner (.group i connective others)

def Keeps (parser : FilterParser) (holds : List String → String → Node → Prop) (v : Visitor) :
    Prop :=
  ∀ path owner n, holds path owner n → ∀ m,
    (v.visit n ⟨parser, n.info.collection, path⟩).result = .ok (.replace m) ∨
      (v.visit n ⟨parser, n.info.collection, path⟩).result = .ok (.addSibling m) →
        holds path owner m

section

variable {parser : FilterParser} {holds : List String → String → Node → Prop}
  {path : List String} {owner : String}

def Pending.Fine (parser : FilterParser) (holds : List String → String → Node → Prop)
    (path : List String) (owner : String) (p : Pending) : Prop :=
  holds path owner p.node ∧ ∀ v ∈ p.visitors, Keeps parser holds v

theorem fine_of_held {visitors : List Visitor} (keep : ∀ v ∈ visitors, Keeps parser holds v)
    {nodes : List Node} (held : ∀ n ∈ nodes, holds path owner n) :
    ∀ p ∈ nodes.map (⟨·, visitors⟩ : Node → Pending), p.Fine parser holds path owner := by
  simpa [Pending.Fine] using fun n member => ⟨held n member, keep⟩

theorem showTo_keeps (inv : Invariant holds) {visitors : List Visitor}
    (keep : ∀ v ∈ visitors, Keeps parser holds v) {n shown : Node} {siblings : List Pending}
    (held : holds path owner n)
    (result : (showTo parser path visitors n).result = .ok (shown, siblings)) :
    holds path owner shown ∧ ∀ p ∈ siblings, p.Fine parser holds path owner := by
  induction visitors generalizing n siblings with
  | nil =>
    cases result
    exact ⟨held, by simp⟩
  | cons v rest ih =>
    obtain ⟨first, others⟩ := List.forall_mem_cons.mp keep
    unfold showTo at result
    split at result
    next =>
      cases result
      exact ⟨held, by simp⟩
    next =>
      simp only [Traced.result_bind, Outcome.bind_eq_ok] at result
      obtain ⟨action, acted, result⟩ := result
      cases action with
      | keep => exact ih others held result
      | suppress =>
        simp only [Traced.result_bind, Outcome.bind_eq_ok] at result
        obtain ⟨-, -, result⟩ := result
        exact ih others (inv.suppress path owner n held) result
      | replace m => exact ih others (first path owner n held m (.inl acted)) result
      | addSibling m =>
        simp only [Traced.result_bind, Outcome.bind_eq_ok] at result
        obtain ⟨⟨left, more⟩, later, made⟩ := result
        cases made
        have rested := ih others held later
        have added := first path owner n held m (.inr acted)
        exact ⟨rested.1, List.forall_mem_cons.mpr ⟨⟨added, others⟩, rested.2⟩⟩

theorem siblings_suffix {visitors : List Visitor} {n shown : Node} {siblings : List Pending}
    (result : (showTo parser path visitors n).result = .ok (shown, siblings)) :
    ∀ p ∈ siblings, ∃ v, v :: p.visitors <:+ visitors := by
  induction visitors generalizing n shown siblings with
  | nil =>
    cases result
    simp
  | cons v rest ih =>
    have later : ∀ {n shown : Node} {siblings : List Pending},
        (showTo parser path rest n).result = .ok (shown, siblings) →
          ∀ p ∈ siblings, ∃ w, w :: p.visitors <:+ v :: rest := by
      intro n shown siblings result p member
      obtain ⟨w, suffix⟩ := ih result p member
      exact ⟨w, suffix.trans (List.suffix_cons v rest)⟩
    simp only [showTo] at result
    split at result
    next =>
      cases result
      simp
    next =>
      simp only [Traced.result_bind, Outcome.bind_eq_ok] at result
      obtain ⟨action, -, result⟩ := result
      cases action with
      | keep => exact later result
      | suppress =>
        simp only [Traced.result_bind, Outcome.bind_eq_ok] at result
        obtain ⟨-, -, result⟩ := result
        exact later result
      | replace m => exact later result
      | addSibling m =>
        simp only [Traced.result_bind, Outcome.bind_eq_ok] at result
        obtain ⟨⟨left, more⟩, found, made⟩ := result
        cases made
        exact List.forall_mem_cons.mpr ⟨⟨v, List.suffix_rfl⟩, later found⟩

theorem siblings_of_visitNode {enclosed : List String → List Node → Traced (List Node)}
    {p : Pending} {n : Node} {siblings : List Pending}
    (visited : (visitNode parser path enclosed p).result = .ok (n, siblings)) :
    ∃ shown, (showTo parser path p.visitors p.node).result = .ok (shown, siblings) := by
  simp only [visitNode, liftM_traced, Traced.result_bind, Outcome.bind_eq_ok] at visited
  obtain ⟨⟨shown, added⟩, found, visited⟩ := visited
  refine ⟨shown, ?_⟩
  suffices same : added = siblings by rw [found, same]
  split at visited
  next => cases visited; rfl
  next =>
    cases shown with
    | field i name operator => cases visited; rfl
    | relation i r children =>
      simp only [Traced.result_bind, Outcome.bind_eq_ok] at visited
      obtain ⟨inner, -, made⟩ := visited
      cases made
      rfl
    | group i connective groups =>
      simp only [Traced.result_bind, Outcome.bind_eq_ok] at visited
      obtain ⟨inner, -, made⟩ := visited
      cases made
      rfl

theorem drain_keeps {visit : Pending → Traced (Node × List Pending)}
    (keep : ∀ p, p.Fine parser holds path owner → ∀ n siblings,
      (visit p).result = .ok (n, siblings) →
        holds path owner n ∧ ∀ q ∈ siblings, q.Fine parser holds path owner)
    {generations : Nat} {waiting : List Pending}
    (fine : ∀ p ∈ waiting, p.Fine parser holds path owner)
    {nodes : List Node} (result : (drain visit generations waiting).result = .ok nodes) :
    ∀ n ∈ nodes, holds path owner n := by
  induction generations generalizing waiting nodes with
  | zero =>
    cases result
    intro n member
    obtain ⟨p, inside, rfl⟩ := List.mem_map.mp member
    exact (fine p inside).1
  | succ generations ih =>
    simp only [drain, Traced.result_bind, Outcome.bind_eq_ok] at result
    obtain ⟨visited, shown, added, later, made⟩ := result
    cases made
    have each : ∀ outcome ∈ visited, holds path owner outcome.1 ∧
        ∀ q ∈ outcome.2, q.Fine parser holds path owner := by
      intro outcome member
      obtain ⟨p, inside, found⟩ := Traced.mapM_members shown outcome member
      exact keep p (fine p inside) outcome.1 outcome.2 found
    have siblings : ∀ q ∈ visited.flatMap (·.2), q.Fine parser holds path owner := by
      intro q member
      obtain ⟨outcome, inside, listed⟩ := List.mem_flatMap.mp member
      exact (each outcome inside).2 q listed
    intro n member
    rcases List.mem_append.mp member with first | second
    · obtain ⟨outcome, inside, rfl⟩ := List.mem_map.mp first
      exact (each outcome inside).1
    · exact ih siblings later n second

theorem visitNode_keeps (inv : Invariant holds)
    {enclosed : List String → List Node → Traced (List Node)}
    (inner : ∀ path owner children visited, (∀ n ∈ children, holds path owner n) →
      (enclosed path children).result = .ok visited → ∀ n ∈ visited, holds path owner n)
    {p : Pending} (fine : p.Fine parser holds path owner) {n : Node} {siblings : List Pending}
    (result : (visitNode parser path enclosed p).result = .ok (n, siblings)) :
    holds path owner n ∧ ∀ q ∈ siblings, q.Fine parser holds path owner := by
  simp only [visitNode, liftM_traced, Traced.result_bind, Outcome.bind_eq_ok] at result
  obtain ⟨⟨shown, added⟩, showing, result⟩ := result
  obtain ⟨held, waiting⟩ := showTo_keeps inv fine.2 fine.1 showing
  split at result
  next =>
    cases result
    exact ⟨held, waiting⟩
  next =>
    cases shown with
    | field i name operator =>
      cases result
      exact ⟨held, waiting⟩
    | relation i r children =>
      simp only [Traced.result_bind, Outcome.bind_eq_ok] at result
      obtain ⟨visited, found, made⟩ := result
      cases made
      have below := inner _ _ _ _ (inv.children path owner i r children held) found
      exact ⟨inv.relation path owner i r children visited held below, waiting⟩
    | group i connective branches =>
      simp only [Traced.result_bind, Outcome.bind_eq_ok] at result
      obtain ⟨visited, found, made⟩ := result
      cases made
      refine ⟨inv.group path owner i connective branches visited held ?_, waiting⟩
      intro branch member
      obtain ⟨before, inside, result⟩ := Traced.mapM_members found branch member
      exact inner _ _ _ _ (inv.branches path owner i connective branches held before inside) result

theorem visitBranch_keeps (inv : Invariant holds) {visitors : List Visitor}
    (keep : ∀ v ∈ visitors, Keeps parser holds v) {e : QueryError} {levels : Nat}
    {nodes visited : List Node} (held : ∀ n ∈ nodes, holds path owner n)
    (result : (visitBranch visitors parser (Traced.fail e) levels path nodes).result =
      .ok visited) :
    ∀ n ∈ visited, holds path owner n := by
  induction levels generalizing owner path nodes visited with
  | zero =>
    refine drain_keeps ?_ (fine_of_held keep held) result
    intro p own n siblings shown
    refine visitNode_keeps inv ?_ own shown
    intro path owner children visited _ failed
    cases failed
  | succ levels ih =>
    refine drain_keeps ?_ (fine_of_held keep held) result
    intro p own n siblings shown
    exact visitNode_keeps inv (fun _ _ _ _ below found => ih below found) own shown

theorem apply_keeps (inv : Invariant holds) {visitors : List Visitor}
    (keep : ∀ v ∈ visitors, Keeps parser holds v) {nodes rewritten : List Node}
    (held : ∀ n ∈ nodes, holds [] owner n)
    (result : (apply visitors parser nodes).result = .ok rewritten) :
    ∀ n ∈ rewritten, holds [] owner n := by
  rcases apply_cases visitors parser nodes with ⟨-, unvisited⟩ | ⟨levels, ended⟩ | ⟨-, endless⟩
  · rw [unvisited] at result
    cases result
    exact held
  · rw [← ended (.execution "")] at result
    exact visitBranch_keeps inv keep held result
  · rw [endless] at result
    cases result

end

def Acts (holds : (α : Type) → Traced α → Prop) (parser : FilterParser) (v : Visitor) : Prop :=
  ∀ n path, holds VisitAction (v.visit n ⟨parser, n.info.collection, path⟩)

section

variable {parser : FilterParser} {holds : (α : Type) → Traced α → Prop}
  (closed : Traced.Closed holds) (suppressing : ∀ n v, holds Unit (logSuppressed n v))

include closed suppressing

theorem showTo_closed {visitors : List Visitor} (each : ∀ v ∈ visitors, Acts holds parser v)
    (path : List String) (n : Node) :
    holds (Node × List Pending) (showTo parser path visitors n) := by
  induction visitors generalizing n with
  | nil => exact closed.pure _
  | cons v rest ih =>
    obtain ⟨first, others⟩ := List.forall_mem_cons.mp each
    unfold showTo
    split
    next => exact closed.pure _
    next =>
      refine closed.bind (first n path) fun action _ => ?_
      cases action with
      | keep => exact ih others n
      | suppress => exact closed.bind (suppressing n v) fun _ _ => ih others n.suppress
      | replace m => exact ih others m
      | addSibling m => exact closed.bind (ih others n) fun _ _ => closed.pure _

omit suppressing in
theorem drain_closed {visit : Pending → Traced (Node × List Pending)} {good : Pending → Prop}
    (each : ∀ p, good p → holds (Node × List Pending) (visit p))
    (siblings : ∀ p, good p → ∀ n added, (visit p).result = .ok (n, added) → ∀ q ∈ added, good q)
    (generations : Nat) {waiting : List Pending} (all : ∀ p ∈ waiting, good p) :
    holds (List Node) (drain visit generations waiting) := by
  induction generations generalizing waiting with
  | zero => exact closed.pure _
  | succ generations ih =>
    refine closed.bind (closed.mapM fun p inside => each p (all p inside)) fun visited shown => ?_
    refine closed.bind (ih ?_) fun _ _ => closed.pure _
    intro q listed
    obtain ⟨outcome, made, added⟩ := List.mem_flatMap.mp listed
    obtain ⟨p, inside, found⟩ := Traced.mapM_members shown outcome made
    exact siblings p (all p inside) outcome.1 outcome.2 found q added

theorem visitNode_closed {enclosed : List String → List Node → Traced (List Node)}
    (inner : ∀ path children, holds (List Node) (enclosed path children)) (path : List String)
    {p : Pending} (each : ∀ v ∈ p.visitors, Acts holds parser v) :
    holds (Node × List Pending) (visitNode parser path enclosed p) := by
  refine closed.bind (showTo_closed closed suppressing each path p.node) fun ⟨n, siblings⟩ _ => ?_
  dsimp only
  split
  next => exact closed.pure _
  next =>
    cases n with
    | field i name operator => exact closed.pure _
    | relation i r children => exact closed.bind (inner _ children) fun _ _ => closed.pure _
    | group i connective branches =>
      exact closed.bind (closed.mapM fun branch _ => inner _ branch) fun _ _ => closed.pure _

theorem visitBranch_closed {cut : Traced (List Node)} (held : holds (List Node) cut)
    {visitors : List Visitor} (each : ∀ v ∈ visitors, Acts holds parser v) (levels : Nat)
    (path : List String) (nodes : List Node) :
    holds (List Node) (visitBranch visitors parser cut levels path nodes) := by
  have known (p : Pending) (suffix : p.visitors <:+ visitors) :
      ∀ v ∈ p.visitors, Acts holds parser v :=
    fun v listed => each v (suffix.subset listed)
  have siblings {enclosed : List String → List Node → Traced (List Node)} {path : List String}
      (p : Pending) (suffix : p.visitors <:+ visitors) (n : Node) (added : List Pending)
      (visited : (visitNode parser path enclosed p).result = .ok (n, added)) :
      ∀ q ∈ added, q.visitors <:+ visitors := by
    obtain ⟨shown, found⟩ := siblings_of_visitNode visited
    intro q listed
    obtain ⟨v, shorter⟩ := siblings_suffix found q listed
    exact ((List.suffix_cons v q.visitors).trans shorter).trans suffix
  have queued (nodes : List Node) :
      ∀ p ∈ nodes.map (⟨·, visitors⟩ : Node → Pending), p.visitors <:+ visitors := by
    simp
  induction levels generalizing path nodes with
  | zero =>
    refine drain_closed closed (fun p suffix => ?_) siblings _ (queued nodes)
    exact visitNode_closed closed suppressing (fun _ _ => held) path (known p suffix)
  | succ levels ih =>
    refine drain_closed closed (fun p suffix => ?_) siblings _ (queued nodes)
    exact visitNode_closed closed suppressing ih path (known p suffix)

theorem apply_closed
    (deep : ∀ limit path, holds (List Node) (Traced.fail (.depthExceeded limit path)))
    {visitors : List Visitor} (each : ∀ v ∈ visitors, Acts holds parser v) (nodes : List Node) :
    holds (List Node) (apply visitors parser nodes) := by
  rcases apply_cases visitors parser nodes with ⟨-, unvisited⟩ | ⟨levels, ended⟩ | ⟨-, endless⟩
  · rw [unvisited]
    exact closed.pure _
  · rw [← ended (.depthExceeded 0 "")]
    exact visitBranch_closed closed suppressing (deep _ _) each levels [] nodes
  · rw [endless]
    exact deep _ _

end

end DocQuery.Visit
