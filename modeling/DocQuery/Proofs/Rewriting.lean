import DocQuery.Proofs.Parsing
import DocQuery.Proofs.Traversal
import DocQuery.Proofs.Tree

set_option autoImplicit false

namespace DocQuery

namespace Node

def branches : Node → List (List Node)
  | field .. => []
  | relation _ _ children => [children]
  | group _ _ groups => groups

def withBranches (branches : List (List Node)) : Node → Node
  | field i name operator => field i name operator
  | relation i r _ => relation i r branches.flatten
  | group i connective _ => group i connective branches

@[simp] theorem withBranches_self (n : Node) : n.withBranches n.branches = n := by
  cases n <;> simp [withBranches, branches]

theorem within_eq_branches (n : Node) : n.within = n :: n.branches.flatMap withinAll := by
  cases n with
  | field i name operator => rfl
  | relation i r children => simp [within, branches]
  | group i connective groups => simp [within, branches, withinBranches_eq]

theorem induct_branches {motive : Node → Prop}
    (step : ∀ n, (∀ branch ∈ n.branches, ∀ m ∈ branch, motive m) → motive n) (n : Node) :
    motive n := by
  induction n with
  | field i name operator => exact step _ (by simp [branches])
  | relation i r children ih => exact step _ (by simpa [branches] using ih)
  | group i connective groups ih => exact step _ ih

/-- A copy of a node may have another field name and value, be suppressed or shown, and have another
compiler. What the node encloses is copied with it. -/
inductive CopyOf : Node → Node → Prop
  | field (i : Info) (name copied : String) (operator : Option Operator) (value : Json)
      (suppressed : Bool) (compiler : Option CustomCompiler) :
      CopyOf (.field { i with value, suppressed, compiler } copied operator)
        (.field i name operator)
  | relation (i : Info) (r : Relation) (children : List Node) (value : Json) (suppressed : Bool)
      (compiler : Option CustomCompiler) :
      CopyOf (.relation { i with value, suppressed, compiler } r children) (.relation i r children)
  | group (i : Info) (connective : Connective) (groups : List (List Node)) (value : Json)
      (suppressed : Bool) (compiler : Option CustomCompiler) :
      CopyOf (.group { i with value, suppressed, compiler } connective groups)
        (.group i connective groups)

theorem CopyOf.refl (n : Node) : n.CopyOf n := by
  cases n with
  | field i name operator => exact .field i name name operator i.value i.suppressed i.compiler
  | relation i r children => exact .relation i r children i.value i.suppressed i.compiler
  | group i connective groups => exact .group i connective groups i.value i.suppressed i.compiler

theorem CopyOf.height_eq {m n : Node} (copy : m.CopyOf n) : m.height = n.height := by
  cases copy <;> rfl

@[simp] theorem height_suppress (n : Node) : n.suppress.height = n.height := by
  cases n <;> rfl

theorem heightAll_le {ns : List Node} {bound : Nat} :
    heightAll ns ≤ bound ↔ ∀ n ∈ ns, n.height ≤ bound := by
  induction ns with
  | nil => simp [heightAll]
  | cons n rest ih => simp only [heightAll, Nat.max_le, List.forall_mem_cons, ih]

theorem heightBranches_le {groups : List (List Node)} {bound : Nat} :
    heightBranches groups ≤ bound ↔ ∀ branch ∈ groups, ∀ n ∈ branch, n.height ≤ bound := by
  induction groups with
  | nil => simp [heightBranches]
  | cons branch rest ih =>
    simp only [heightBranches, Nat.max_le, List.forall_mem_cons, heightAll_le, ih]

def Fits (limit depth : Nat) (n : Node) : Prop := depth + n.height ≤ limit

variable {limit depth : Nat}

theorem fits_relation {i : Info} {r : Relation} {children : List Node} :
    (Node.relation i r children).Fits limit depth ↔
      depth < limit ∧ ∀ n ∈ children, n.Fits limit (depth + 1) := by
  have split : (Node.relation i r children).Fits limit depth ↔
      depth < limit ∧ heightAll children ≤ limit - (depth + 1) := by
    simp only [Fits, height]
    omega
  rw [split, heightAll_le]
  refine and_congr_right fun shallow => forall₂_congr fun n _ => ?_
  simp only [Fits]
  omega

theorem fits_group {i : Info} {connective : Connective} {groups : List (List Node)} :
    (Node.group i connective groups).Fits limit depth ↔
      depth < limit ∧ ∀ branch ∈ groups, ∀ n ∈ branch, n.Fits limit (depth + 1) := by
  have split : (Node.group i connective groups).Fits limit depth ↔
      depth < limit ∧ heightBranches groups ≤ limit - (depth + 1) := by
    simp only [Fits, height]
    omega
  rw [split, heightBranches_le]
  refine and_congr_right fun shallow => forall₂_congr fun branch _ => forall₂_congr fun n _ => ?_
  simp only [Fits]
  omega

theorem Fits.below {n : Node} (fits : n.Fits limit depth) :
    ∀ branch ∈ n.branches, ∀ m ∈ branch, m.Fits limit (depth + 1) := by
  cases n with
  | field i name operator => simp [branches]
  | relation i r children => simpa [branches] using (fits_relation.mp fits).2
  | group i connective groups => exact (fits_group.mp fits).2

theorem Fits.branches_of_full {n : Node} (fits : n.Fits limit depth) (full : limit ≤ depth) :
    n.branches = [] := by
  cases n with
  | field i name operator => rfl
  | relation i r children => exact absurd (fits_relation.mp fits).1 (by omega)
  | group i connective groups => exact absurd (fits_group.mp fits).1 (by omega)

end Node

/-- What a visitor puts in the place of a node or beside it was read at the place of the node, or is
the node itself, up to what a copy may change. -/
def Visitor.InPlace (parser : FilterParser) (v : Visitor) : Prop :=
  ∀ (n : Node) (path : List String) (m : Node),
    (v.visit n ⟨parser, n.info.collection, path⟩).result = .ok (.replace m) ∨
      (v.visit n ⟨parser, n.info.collection, path⟩).result = .ok (.addSibling m) →
    ∃ origin, m.CopyOf origin ∧ (origin = n ∨ ∃ key value,
      (VisitContext.build ⟨parser, n.info.collection, path⟩ key value).result = .ok origin)

theorem FilterParser.reads_fitting (p : FilterParser) :
    p.Reads fun place _ n => place.path.length ≤ p.maxDepth →
      n.Fits p.maxDepth place.path.length where
  field _ _ _ _ _ _ _ room := room
  relation place key members r children _ _ _ shallow inner _ := by
    refine Node.fits_relation.mpr ⟨shallow, fun n inside => ?_⟩
    obtain ⟨member, -, fits⟩ := forall₂_right inner n inside
    simpa using fits (by simpa using Nat.succ_le_of_lt shallow)
  group place key items connective groups _ shallow inner _ := by
    refine Node.fits_group.mpr ⟨shallow, fun branch listed n inside => ?_⟩
    obtain ⟨item, -, members, -, entries⟩ := forall₂_right inner branch listed
    obtain ⟨member, -, fits⟩ := forall₂_right entries n inside
    simpa using fits (by simpa using Nat.succ_le_of_lt shallow)

theorem FilterParser.parse_fits {p : FilterParser} {collection : String} {filter : Json}
    {nodes : List Node} (parsed : (p.parse collection filter).result = .ok nodes) :
    ∀ n ∈ nodes, n.Fits p.maxDepth 0 := by
  intro n inside
  obtain ⟨member, -, fits⟩ := forall₂_right (p.reads_fitting.parse parsed) n inside
  exact fits (Nat.zero_le _)

namespace Visit

theorem fitting_invariant (limit : Nat) :
    Invariant fun path _ n => n.Fits limit path.length where
  suppress path owner n fits := by simpa [Node.Fits] using fits
  children path owner i r children fits := by simpa using (Node.fits_relation.mp fits).2
  relation path owner i r children others fits below :=
    Node.fits_relation.mpr ⟨(Node.fits_relation.mp fits).1, by simpa using below⟩
  branches path owner i connective groups fits := by simpa using (Node.fits_group.mp fits).2
  group path owner i connective groups others fits below :=
    Node.fits_group.mpr ⟨(Node.fits_group.mp fits).1, by simpa using below⟩

theorem fitting_kept {parser : FilterParser} {v : Visitor} (inPlace : v.InPlace parser) :
    Keeps parser (fun path _ n => n.Fits parser.maxDepth path.length) v := by
  intro path owner n fits m acted
  obtain ⟨origin, copy, rfl | ⟨key, value, built⟩⟩ := inPlace n path m acted
  · simpa only [Node.Fits, copy.height_eq] using fits
  · have room : path.length ≤ parser.maxDepth := Nat.le_of_add_right_le fits
    have read : origin.Fits parser.maxDepth path.length :=
      parser.reads_fitting.entry (.at n.info.collection path) key value built room
    simpa only [Node.Fits, copy.height_eq] using read

/-- The visit of a queue of nodes at a path, with no bound on how deep or how often it goes on. The
first node is shown to its visitors, then what it encloses is visited, as queues of their own, and
the siblings it was given wait at the end of the queue. -/
inductive Rewrites (visitors : List Visitor) (parser : FilterParser) :
    List String → List Pending → Traced (List Node) → Prop
  | done (path : List String) : Rewrites visitors parser path [] (pure [])
  | next (path : List String) (p : Pending) (rest : List Pending)
      (enclosed : List String → List Node → Traced (List Node))
      (later : Node × List Pending → Traced (List Node))
      (below : ∀ n siblings, (showTo parser path p.visitors p.node).result = .ok (n, siblings) →
        n.suppressed = false → ∀ branch ∈ n.branches,
          Rewrites visitors parser (path ++ [n.info.key]) (branch.map (⟨·, visitors⟩))
            (enclosed (path ++ [n.info.key]) branch))
      (after : ∀ n siblings, (visitNode parser path enclosed p).result = .ok (n, siblings) →
        Rewrites visitors parser path (rest ++ siblings) (later (n, siblings))) :
      Rewrites visitors parser path (p :: rest) (do
        let (n, siblings) ← visitNode parser path enclosed p
        let others ← later (n, siblings)
        return n :: others)

def Applied (visitors : List Visitor) (parser : FilterParser) (nodes : List Node)
    (outcome : Traced (List Node)) : Prop :=
  if visitors.isEmpty then outcome = pure nodes
  else Rewrites visitors parser [] (nodes.map (⟨·, visitors⟩)) outcome

section

variable {visitors : List Visitor} {parser : FilterParser} {path : List String}
  {enclosed : List String → List Node → Traced (List Node)}

theorem visitNode_congr {others : List String → List Node → Traced (List Node)} {p : Pending}
    (same : ∀ n siblings, (showTo parser path p.visitors p.node).result = .ok (n, siblings) →
      n.suppressed = false → ∀ branch ∈ n.branches,
        enclosed (path ++ [n.info.key]) branch = others (path ++ [n.info.key]) branch) :
    visitNode parser path enclosed p = visitNode parser path others p := by
  refine Traced.bind_congr_ok fun shown found => ?_
  obtain ⟨n, siblings⟩ := shown
  cases hidden : n.suppressed with
  | true => simp [hidden]
  | false =>
    have each := same n siblings found hidden
    cases n with
    | field i name operator => rfl
    | relation i r children =>
      have inner := each children (by simp [Node.branches])
      simp only [Node.info] at inner
      simp [hidden, inner]
    | group i connective groups =>
      have inner : groups.mapM (enclosed (path ++ [i.key])) =
          groups.mapM (others (path ++ [i.key])) := Traced.mapM_congr each
      simp [hidden, inner]

theorem Rewrites.unique {queue : List Pending} {first second : Traced (List Node)}
    (one : Rewrites visitors parser path queue first)
    (two : Rewrites visitors parser path queue second) : first = second := by
  induction one generalizing second with
  | done path =>
    cases two
    rfl
  | next path p rest enclosed later below after ihBelow ihAfter =>
    cases two with
    | next _ _ _ others later' below' after' =>
      have same : visitNode parser path enclosed p = visitNode parser path others p := by
        refine visitNode_congr fun n siblings shown active branch listed => ?_
        exact ihBelow n siblings shown active branch listed
          (below' n siblings shown active branch listed)
      rw [← same]
      refine Traced.bind_congr_ok fun visited found => ?_
      obtain ⟨n, siblings⟩ := visited
      have rested := ihAfter n siblings found (after' n siblings (by rw [← same]; exact found))
      simp only [rested]

theorem siblings_fewer {n shown : Node} {siblings : List Pending}
    (result : (showTo parser path visitors n).result = .ok (shown, siblings)) :
    ∀ p ∈ siblings, p.visitors.length < visitors.length := by
  intro p member
  obtain ⟨v, suffix⟩ := siblings_suffix result p member
  exact suffix.length_le

def Pending.Fitting (parser : FilterParser) (path : List String) (p : Pending) : Prop :=
  p.Fine parser (fun path _ n => n.Fits parser.maxDepth path.length) path ""

theorem fitting_shown {p : Pending} (fitting : p.Fitting parser path) {n : Node}
    {siblings : List Pending}
    (shown : (showTo parser path p.visitors p.node).result = .ok (n, siblings)) :
    n.Fits parser.maxDepth path.length ∧ ∀ q ∈ siblings, q.Fitting parser path :=
  showTo_keeps (fitting_invariant parser.maxDepth) fitting.2 fitting.1 shown

def Below (visitors : List Visitor) (parser : FilterParser) (path : List String)
    (enclosed : List String → List Node → Traced (List Node)) : Prop :=
  ∀ n : Node, n.Fits parser.maxDepth path.length → ∀ branch ∈ n.branches,
    Rewrites visitors parser (path ++ [n.info.key]) (branch.map (⟨·, visitors⟩))
      (enclosed (path ++ [n.info.key]) branch)

def Entered (visitors : List Visitor) (parser : FilterParser) (path : List String)
    (enclosed : List String → List Node → Traced (List Node)) (p : Pending) : Prop :=
  ∀ n siblings, (showTo parser path p.visitors p.node).result = .ok (n, siblings) →
    n.suppressed = false → ∀ branch ∈ n.branches,
      Rewrites visitors parser (path ++ [n.info.key]) (branch.map (⟨·, visitors⟩))
        (enclosed (path ++ [n.info.key]) branch)

-- The visits that are left when `current` remains of a generation, which has added `next` so far.
def visitsFrom (visit : Pending → Traced (Node × List Pending)) (generations : Nat)
    (current next : List Pending) : Traced (List Node) := do
  let visited ← current.mapM visit
  let siblings ← drain visit generations (next ++ visited.flatMap (·.2))
  return visited.map (·.1) ++ siblings

section

variable (visit : Pending → Traced (Node × List Pending)) (generations : Nat)

theorem visitsFrom_nil (next : List Pending) :
    visitsFrom visit generations [] next = drain visit generations next := by
  simp [visitsFrom]

theorem visitsFrom_cons (p : Pending) (rest next : List Pending) :
    visitsFrom visit generations (p :: rest) next = do
      let (n, siblings) ← visit p
      let others ← visitsFrom visit generations rest (next ++ siblings)
      return n :: others := by
  simp [visitsFrom, List.mapM_cons, bind_assoc]

theorem drain_succ (waiting : List Pending) :
    drain visit (generations + 1) waiting = visitsFrom visit generations waiting [] := by
  simp [visitsFrom, drain]

end

-- The visits go on within a property `fine` of what waits. They are those of a `strict` rewrite if
-- all of them are known to come to an end. The queue is `current ++ next`: the rest of one
-- generation, and the siblings that the generation has added so far. Whatever is appended to `next`
-- has fewer visitors than what it was added by.
theorem rewrites_visitsFrom {fine : Pending → Prop} {strict : Prop}
    (entered : ∀ p, fine p →
      (strict → ∃ visited, (visitNode parser path enclosed p).result = .ok visited) →
        Entered visitors parser path enclosed p)
    (added : ∀ p, fine p → ∀ n siblings,
      (showTo parser path p.visitors p.node).result = .ok (n, siblings) → ∀ q ∈ siblings, fine q)
    {generations : Nat}
    (drained : ∀ next, (∀ p ∈ next, fine p ∧ p.visitors.length < generations) →
      (strict → ∃ nodes,
        (drain (visitNode parser path enclosed) generations next).result = .ok nodes) →
      Rewrites visitors parser path next (drain (visitNode parser path enclosed) generations next))
    (current next : List Pending)
    (now : ∀ p ∈ current, fine p ∧ p.visitors.length < generations + 1)
    (soon : ∀ p ∈ next, fine p ∧ p.visitors.length < generations)
    (success : strict → ∃ nodes,
      (visitsFrom (visitNode parser path enclosed) generations current next).result = .ok nodes) :
    Rewrites visitors parser path (current ++ next)
      (visitsFrom (visitNode parser path enclosed) generations current next) := by
  induction current generalizing next with
  | nil =>
    rw [visitsFrom_nil] at success ⊢
    exact drained next soon success
  | cons p rest ih =>
    obtain ⟨⟨good, few⟩, others⟩ := List.forall_mem_cons.mp now
    rw [visitsFrom_cons] at success ⊢
    simp only [Traced.result_bind, Outcome.bind_eq_ok] at success
    let later (visited : Node × List Pending) :=
      visitsFrom (visitNode parser path enclosed) generations rest (next ++ visited.2)
    refine .next path p (rest ++ next) enclosed later (entered p good fun known => ?_) ?_
    · obtain ⟨-, visited, found, -⟩ := success known
      exact ⟨visited, found⟩
    · intro n siblings visited
      obtain ⟨shown, found⟩ := siblings_of_visitNode visited
      have waiting : ∀ q ∈ siblings, fine q ∧ q.visitors.length < generations := by
        intro q member
        have fewer := siblings_fewer found q member
        exact ⟨added p good shown siblings found q member, by omega⟩
      rw [List.append_assoc]
      refine ih (next ++ siblings) others (List.forall_mem_append.mpr ⟨soon, waiting⟩) ?_
      intro known
      obtain ⟨-, again, same, more, found, -⟩ := success known
      cases visited.symm.trans same
      exact ⟨more, found⟩

theorem rewrites_drain {fine : Pending → Prop} {strict : Prop}
    (entered : ∀ p, fine p →
      (strict → ∃ visited, (visitNode parser path enclosed p).result = .ok visited) →
        Entered visitors parser path enclosed p)
    (added : ∀ p, fine p → ∀ n siblings,
      (showTo parser path p.visitors p.node).result = .ok (n, siblings) → ∀ q ∈ siblings, fine q)
    (generations : Nat) (waiting : List Pending)
    (queued : ∀ p ∈ waiting, fine p ∧ p.visitors.length < generations)
    (success : strict → ∃ nodes,
      (drain (visitNode parser path enclosed) generations waiting).result = .ok nodes) :
    Rewrites visitors parser path waiting
      (drain (visitNode parser path enclosed) generations waiting) := by
  induction generations generalizing waiting with
  | zero =>
    have none : waiting = [] := List.eq_nil_iff_forall_not_mem.mpr fun p member =>
      Nat.not_lt_zero _ (queued p member).2
    subst none
    exact .done path
  | succ generations ih =>
    rw [drain_succ] at success ⊢
    simpa using
      rewrites_visitsFrom entered added ih waiting [] queued (List.forall_mem_nil _) success

theorem rewrites_in_place (below : Below visitors parser path enclosed) (generations : Nat)
    (waiting : List Pending)
    (queued : ∀ p ∈ waiting, p.Fitting parser path ∧ p.visitors.length < generations) :
    Rewrites visitors parser path waiting
      (drain (visitNode parser path enclosed) generations waiting) := by
  refine @rewrites_drain _ _ _ _ (·.Fitting parser path) False ?_ ?_ generations waiting queued
    False.elim
  · exact fun p fitting _ n siblings shown _ => below n (fitting_shown fitting shown).1
  · exact fun p fitting n siblings shown => (fitting_shown fitting shown).2

theorem fitting_queue (inPlace : ∀ v ∈ visitors, v.InPlace parser) {nodes : List Node}
    (fit : ∀ n ∈ nodes, n.Fits parser.maxDepth path.length) :
    ∀ p ∈ nodes.map (⟨·, visitors⟩ : Node → Pending),
      p.Fitting parser path ∧ p.visitors.length < visitors.length + 1 := by
  intro p member
  obtain ⟨n, inside, rfl⟩ := List.mem_map.mp member
  exact ⟨⟨fit n inside, fun v listed => fitting_kept (inPlace v listed)⟩, Nat.lt_succ_self _⟩

theorem rewrites_visitBranch (inPlace : ∀ v ∈ visitors, v.InPlace parser)
    (cut : Traced (List Node)) {levels : Nat} (room : parser.maxDepth ≤ path.length + levels) {nodes : List Node}
    (fit : ∀ n ∈ nodes, n.Fits parser.maxDepth path.length) :
    Rewrites visitors parser path (nodes.map (⟨·, visitors⟩))
      (visitBranch visitors parser cut levels path nodes) := by
  induction levels generalizing path nodes with
  | zero =>
    refine rewrites_in_place ?_ (visitors.length + 1) _ (fitting_queue inPlace fit)
    intro n held branch listed
    rw [held.branches_of_full room] at listed
    cases listed
  | succ levels ih =>
    refine rewrites_in_place ?_ (visitors.length + 1) _ (fitting_queue inPlace fit)
    intro n held branch listed
    refine ih ?_ (by simpa using held.below branch listed)
    rw [List.length_append, List.length_singleton]
    omega

end

/-- Visitors that build their nodes in place, or copy them, are done with every tree that was read
under the depth limit, and what they make of it keeps to the limit. They may wrap a node time and
again: a visit without bound comes to an end, with the outcome of `apply` and no other. -/
theorem rewriting_stops_within_depth {visitors : List Visitor} {parser : FilterParser}
    {collection : String} {filter : Json} {nodes : List Node}
    (parsed : (parser.parse collection filter).result = .ok nodes)
    (inPlace : ∀ v ∈ visitors, v.InPlace parser) :
    (∀ outcome, Applied visitors parser nodes outcome ↔ outcome = apply visitors parser nodes) ∧
      ∀ rewritten, (apply visitors parser nodes).result = .ok rewritten →
        Node.heightAll rewritten ≤ parser.maxDepth := by
  have fit := parser.parse_fits parsed
  constructor
  · intro outcome
    unfold Applied
    split
    next unvisited =>
      rw [List.isEmpty_iff.mp unvisited, apply_nil]
    next visited =>
      have room : parser.maxDepth ≤ ([] : List String).length + parser.maxDepth := by simp
      have stops (e : QueryError) := rewrites_visitBranch inPlace (Traced.fail e) room fit
      have ended := attempt_eq_some.mpr fun e => (stops e).unique (stops (.execution ""))
      rw [apply_of_attempt (by simpa using visited) ended]
      constructor
      · exact fun reached => reached.unique (stops _)
      · rintro rfl
        exact stops _
  · intro rewritten result
    refine Node.heightAll_le.mpr fun n inside => ?_
    have held : n.Fits parser.maxDepth 0 :=
      @apply_keeps parser _ "" (fitting_invariant parser.maxDepth) visitors
        (fun v member => fitting_kept (inPlace v member)) nodes rewritten fit result n inside
    simpa [Node.Fits] using held

end Visit

def wrapField (field : String) (levels : Nat) : Visitor where
  name := "wrap"
  visit n ctx :=
    if n.fieldName? = some field ∧ ctx.depth < levels then
      ctx.replace "and" (.arr [.obj [(n.info.key, n.info.value)]])
    else pure .keep

def mirrorField (field mirror : String) : Visitor where
  name := "mirror"
  visit n _ :=
    pure (if n.fieldName? = some field then .addSibling (n.asField mirror n.info.value) else .keep)

theorem wrapField_inPlace (parser : FilterParser) (field : String) (levels : Nat) :
    (wrapField field levels).InPlace parser := by
  intro n path m acted
  simp only [wrapField] at acted
  split at acted
  next =>
    simp only [VisitContext.replace, Traced.result_bind, Outcome.bind_eq_ok] at acted
    rcases acted with ⟨origin, built, made⟩ | ⟨origin, built, made⟩
    · cases made
      exact ⟨m, .refl m, .inr ⟨_, _, built⟩⟩
    · cases made
  next => simp at acted

theorem mirrorField_inPlace (parser : FilterParser) (field mirror : String) :
    (mirrorField field mirror).InPlace parser := by
  intro n path m acted
  simp only [mirrorField] at acted
  split at acted
  next named =>
    obtain ⟨i, name, operator, rfl⟩ : ∃ i name operator, n = .field i name operator := by
      cases n with
      | field i name operator => exact ⟨i, name, operator, rfl⟩
      | _ => simp [Node.fieldName?] at named
    rcases acted with replaced | added
    · cases replaced
    · cases added
      exact ⟨_, .field i name mirror operator i.value i.suppressed i.compiler, .inl rfl⟩
  next => simp at acted

def mirrorAndWrap (levels : Nat) : List Visitor :=
  [mirrorField "body" "title", wrapField "body" levels]

theorem mirrorAndWrap_inPlace (parser : FilterParser) (levels : Nat) :
    ∀ v ∈ mirrorAndWrap levels, v.InPlace parser := by
  simpa [mirrorAndWrap] using
    ⟨mirrorField_inPlace parser "body" "title", wrapField_inPlace parser "body" levels⟩

def twoLevels : FilterParser := ⟨⟨[]⟩, 2⟩

def bodyNodes : List Node :=
  [.field { key := "body", value := .str "x", collection := "Post" } "body" none]

theorem mirrorAndWrap_stops :
    (twoLevels.parse "Post" (.obj [("body", .str "x")])).result = .ok bodyNodes ∧
      (∀ levels, ∀ v ∈ mirrorAndWrap levels, v.InPlace twoLevels) ∧
      (∃ rewritten, (Visit.apply (mirrorAndWrap 2) twoLevels bodyNodes).result = .ok rewritten ∧
        Node.heightAll rewritten = 2 ∧ Node.heightAll rewritten ≤ twoLevels.maxDepth) ∧
      ∃ outcome,
        (∀ other, Visit.Applied (mirrorAndWrap 3) twoLevels bodyNodes other ↔ other = outcome) ∧
          outcome.result = .error (.depthExceeded 2 "and.and.and") := by
  have parsed : (twoLevels.parse "Post" (.obj [("body", .str "x")])).result = .ok bodyNodes := rfl
  have bounded := Visit.rewriting_stops_within_depth parsed (mirrorAndWrap_inPlace twoLevels 2)
  have runaway := Visit.rewriting_stops_within_depth parsed (mirrorAndWrap_inPlace twoLevels 3)
  exact ⟨parsed, mirrorAndWrap_inPlace twoLevels, ⟨_, rfl, rfl, bounded.2 _ rfl⟩,
    _, runaway.1, Traced.refusal_eq_some.mp (by decide +kernel)⟩

end DocQuery
