import DocQuery.Proofs.Joins

set_option autoImplicit false

namespace DocQuery

namespace Node

mutual

def prune : Node → Node
  | .field i name operator => .field i name operator
  | .relation i r children => .relation i r (pruneAll children)
  | .group i connective branches => .group i connective (pruneBranches branches)

def pruneAll : List Node → List Node
  | [] => []
  | n :: rest => if n.suppressed then pruneAll rest else prune n :: pruneAll rest

def pruneBranches : List (List Node) → List (List Node)
  | [] => []
  | branch :: rest => pruneAll branch :: pruneBranches rest

end

theorem pruneAll_cons_suppressed {n : Node} (suppressed : n.suppressed = true) (rest : List Node) :
    pruneAll (n :: rest) = pruneAll rest := by
  simp [pruneAll, suppressed]

theorem pruneAll_cons_shown {n : Node} (shown : n.suppressed = false) (rest : List Node) :
    pruneAll (n :: rest) = n.prune :: pruneAll rest := by
  simp [pruneAll, shown]

@[simp] theorem suppressed_prune (n : Node) : n.prune.suppressed = n.suppressed := by
  cases n <;> rfl

/-- The compiler of a node, if it has one, is on a field, or makes nothing of the suppressed nodes
below. -/
def Unaware (n : Node) : Prop :=
  ∀ c, n.info.compiler = some c → n.isField = true ∨
    ∀ scope draft, (c.on n.prune.view).run scope draft = (c.on n.view).run scope draft

-- Each of the recursions below passes over a suppressed node on its own account, which is what
-- lets a list of nodes be pruned from the front.
mutual

theorem within_prune_shown (n : Node) (shown : n.suppressed = false) :
    ∀ m ∈ n.prune.within, m.suppressed = false := by
  cases n with
  | field i name operator => simpa [prune, within] using shown
  | relation i r children =>
    simpa [prune, within] using ⟨shown, withinAll_pruneAll_shown children⟩
  | group i connective branches =>
    simpa [prune, within] using ⟨shown, withinBranches_pruneBranches_shown branches⟩

theorem withinAll_pruneAll_shown (ns : List Node) :
    ∀ m ∈ withinAll (pruneAll ns), m.suppressed = false := by
  cases ns with
  | nil => simp [pruneAll, withinAll]
  | cons n rest =>
    have later := withinAll_pruneAll_shown rest
    cases hidden : n.suppressed with
    | true => simpa [pruneAll_cons_suppressed hidden] using later
    | false =>
      have first := within_prune_shown n hidden
      simp only [pruneAll_cons_shown hidden, withinAll, List.mem_append]
      rintro m (inside | inside)
      · exact first m inside
      · exact later m inside

theorem withinBranches_pruneBranches_shown (branches : List (List Node)) :
    ∀ m ∈ withinBranches (pruneBranches branches), m.suppressed = false := by
  cases branches with
  | nil => simp [pruneBranches, withinBranches]
  | cons branch rest =>
    have first := withinAll_pruneAll_shown branch
    have later := withinBranches_pruneBranches_shown rest
    simp only [pruneBranches, withinBranches, List.mem_append]
    rintro m (inside | inside)
    · exact first m inside
    · exact later m inside

end

mutual

theorem hasEffect_prune (n : Node) : n.prune.hasEffect = n.hasEffect := by
  cases n with
  | field i name operator => rfl
  | relation i r children => simp only [prune, hasEffect, anyEffect_pruneAll children]
  | group i connective branches =>
    simp only [prune, hasEffect, anyBranchEffect_pruneBranches branches]

theorem anyEffect_pruneAll (ns : List Node) : anyEffect (pruneAll ns) = anyEffect ns := by
  cases ns with
  | nil => rfl
  | cons n rest =>
    cases hidden : n.suppressed with
    | true =>
      rw [pruneAll_cons_suppressed hidden, anyEffect_pruneAll rest, anyEffect,
        hasEffect_of_suppressed hidden, Bool.false_or]
    | false =>
      rw [pruneAll_cons_shown hidden, anyEffect, anyEffect, hasEffect_prune n,
        anyEffect_pruneAll rest]

theorem anyBranchEffect_pruneBranches (branches : List (List Node)) :
    anyBranchEffect (pruneBranches branches) = anyBranchEffect branches := by
  cases branches with
  | nil => rfl
  | cons branch rest =>
    rw [pruneBranches, anyBranchEffect, anyBranchEffect, anyEffect_pruneAll branch,
      anyBranchEffect_pruneBranches rest]

end

theorem embedsRelation_of_suppressed {n : Node} (suppressed : n.suppressed = true) :
    n.embedsRelation = false := by
  cases n with
  | field i name operator => rfl
  | relation i r children => rw [embedsRelation, hasEffect_of_suppressed suppressed]
  | group i connective branches =>
    rw [embedsRelation, hasEffect_of_suppressed suppressed, Bool.false_and]

mutual

theorem embedsRelation_prune (n : Node) : n.prune.embedsRelation = n.embedsRelation := by
  cases n with
  | field i name operator => rfl
  | relation i r children => exact hasEffect_prune (.relation i r children)
  | group i connective branches =>
    have effect := hasEffect_prune (.group i connective branches)
    rw [prune] at effect
    rw [prune, embedsRelation, embedsRelation, effect, anyBranchEmbeds_pruneBranches branches]

theorem anyEmbeds_pruneAll (ns : List Node) : anyEmbeds (pruneAll ns) = anyEmbeds ns := by
  cases ns with
  | nil => rfl
  | cons n rest =>
    cases hidden : n.suppressed with
    | true =>
      rw [pruneAll_cons_suppressed hidden, anyEmbeds_pruneAll rest, anyEmbeds,
        embedsRelation_of_suppressed hidden, Bool.false_or]
    | false =>
      rw [pruneAll_cons_shown hidden, anyEmbeds, anyEmbeds, embedsRelation_prune n,
        anyEmbeds_pruneAll rest]

theorem anyBranchEmbeds_pruneBranches (branches : List (List Node)) :
    anyBranchEmbeds (pruneBranches branches) = anyBranchEmbeds branches := by
  cases branches with
  | nil => rfl
  | cons branch rest =>
    rw [pruneBranches, anyBranchEmbeds, anyBranchEmbeds, anyEmbeds_pruneAll branch,
      anyBranchEmbeds_pruneBranches rest]

end

theorem pruneAll_filter (keep : Node → Bool) (same : ∀ n, keep n.prune = keep n)
    (ns : List Node) : (pruneAll ns).filter keep = pruneAll (ns.filter keep) := by
  induction ns with
  | nil => rfl
  | cons n rest ih =>
    cases hidden : n.suppressed with
    | true =>
      rw [pruneAll_cons_suppressed hidden, ih]
      cases kept : keep n with
      | true => rw [List.filter_cons_of_pos kept, pruneAll_cons_suppressed hidden]
      | false => rw [List.filter_cons_of_neg (by simp [kept])]
    | false =>
      rw [pruneAll_cons_shown hidden]
      cases kept : keep n with
      | true =>
        rw [List.filter_cons_of_pos (by simp [same, kept]), List.filter_cons_of_pos kept, ih,
          pruneAll_cons_shown hidden]
      | false =>
        rw [List.filter_cons_of_neg (by simp [same, kept]),
          List.filter_cons_of_neg (by simp [kept]), ih]

end Node

namespace Compile

open Node

theorem joinNode_of_inert {n : Node} (inert : n.hasEffect = false) (path : String)
    (pipeline : Staging) : joinNode path n pipeline = pure pipeline := by
  cases n <;> simp [joinNode, inert]

mutual

theorem joinNode_prune (path : String) (n : Node) (pipeline : Staging) :
    joinNode path n.prune pipeline = joinNode path n pipeline := by
  cases n with
  | field i name operator => rfl
  | relation i r children =>
    have effect := hasEffect_prune (.relation i r children)
    rw [prune] at effect
    simp only [prune, joinNode, effect, joinNodes_pruneAll]
  | group i connective branches =>
    have effect := hasEffect_prune (.group i connective branches)
    rw [prune] at effect
    simp only [prune, joinNode, effect, joinBranches_pruneBranches]

theorem joinNodes_pruneAll (path : String) (ns : List Node) (pipeline : Staging) :
    joinNodes path (pruneAll ns) pipeline = joinNodes path ns pipeline := by
  cases ns with
  | nil => rfl
  | cons n rest =>
    cases hidden : n.suppressed with
    | true =>
      rw [pruneAll_cons_suppressed hidden, joinNodes_pruneAll, joinNodes,
        joinNode_of_inert (hasEffect_of_suppressed hidden), pure_bind]
    | false => simp only [pruneAll_cons_shown hidden, joinNodes, joinNode_prune, joinNodes_pruneAll]

theorem joinBranches_pruneBranches (path : String) (branches : List (List Node))
    (pipeline : Staging) :
    joinBranches path (pruneBranches branches) pipeline = joinBranches path branches pipeline := by
  cases branches with
  | nil => rfl
  | cons branch rest =>
    simp only [pruneBranches, joinBranches, joinNodes_pruneAll, joinBranches_pruneBranches]

end

theorem runCustom_prune {c : CustomCompiler} {n : Node} (unaware : n.Unaware)
    (own : n.info.compiler = some c) (scope : String) (draft : Draft) :
    runCustom c n.prune scope draft = runCustom c n scope draft := by
  rcases unaware c own with onField | alike
  · cases n with
    | field i name operator => rfl
    | relation i r children => cases onField
    | group i connective branches => cases onField
  · exact alike scope draft

mutual

theorem node_prune (scope : String) (n : Node) (unaware : ∀ m ∈ n.within, m.Unaware)
    (draft : Draft) : node scope n.prune draft = node scope n draft := by
  cases n with
  | field i name operator => rfl
  | relation i r children =>
    obtain ⟨top, below⟩ := List.forall_mem_cons.mp unaware
    cases own : i.compiler with
    | none => simp only [prune, node, own, nodes_pruneAll _ children below]
    | some c =>
      have custom := runCustom_prune top own scope draft
      rw [prune] at custom
      simp only [prune, node, own, custom]
  | group i connective groups =>
    obtain ⟨top, below⟩ := List.forall_mem_cons.mp unaware
    cases own : i.compiler with
    | none => simp only [prune, node, own, branches_pruneBranches scope groups below]
    | some c =>
      have custom := runCustom_prune top own scope draft
      rw [prune] at custom
      simp only [prune, node, own, custom]

theorem nodes_pruneAll (scope : String) (ns : List Node)
    (unaware : ∀ m ∈ withinAll ns, m.Unaware) (draft : Draft) :
    nodes scope (pruneAll ns) draft = nodes scope ns draft := by
  cases ns with
  | nil => rfl
  | cons n rest =>
    obtain ⟨first, others⟩ := List.forall_mem_append.mp unaware
    cases hidden : n.suppressed with
    | true =>
      rw [pruneAll_cons_suppressed hidden, nodes_pruneAll scope rest others, nodes,
        node_of_suppressed hidden, pure_bind]
    | false =>
      simp only [pruneAll_cons_shown hidden, nodes, node_prune scope n first,
        nodes_pruneAll scope rest others]

theorem branches_pruneBranches (scope : String) (groups : List (List Node))
    (unaware : ∀ m ∈ withinBranches groups, m.Unaware) (pipeline : Staging) :
    branches scope (pruneBranches groups) pipeline = branches scope groups pipeline := by
  cases groups with
  | nil => rfl
  | cons branch rest =>
    obtain ⟨first, others⟩ := List.forall_mem_append.mp unaware
    simp only [pruneBranches, branches, nodes_pruneAll scope branch first,
      branches_pruneBranches scope rest others]

end

theorem predicate_pruneAll {ns : List Node} (unaware : ∀ m ∈ withinAll ns, m.Unaware)
    (scope : String) (pipeline : Staging) :
    predicate (pruneAll ns) scope pipeline = predicate ns scope pipeline :=
  nodes_pruneAll scope ns unaware ⟨[], pipeline⟩

theorem stage_pruneAll {ns : List Node} (unaware : ∀ m ∈ withinAll ns, m.Unaware)
    (pipeline : Staging) : stage (pruneAll ns) pipeline = stage ns pipeline := by
  have plain := pruneAll_filter (fun n => !n.embedsRelation)
    (fun n => by rw [embedsRelation_prune]) ns
  have joined := pruneAll_filter Node.embedsRelation embedsRelation_prune ns
  have kept (keep : Node → Bool) := predicate_pruneAll (withinAll_filter unaware keep)
  simp only [stage, matchStage, plain, joined, kept, joinNodes_pruneAll]

end Compile

/-- A tree and the tree without its suppressed nodes are compiled alike, into any pipeline: with the
same error, or the same stages and counts, and with the same log and runs of custom compilers. -/
theorem FilterCompiler.suppressed_nodes_leave_no_trace (c : FilterCompiler) {nodes : List Node}
    (unaware : ∀ m ∈ Node.withinAll nodes, m.Unaware) :
    (∀ m ∈ Node.withinAll (Node.pruneAll nodes), m.suppressed = false) ∧
      (∀ pipeline, Compile.stage (Node.pruneAll nodes) pipeline = Compile.stage nodes pipeline) ∧
      Node.anyEmbeds (Node.pruneAll nodes) = Node.anyEmbeds nodes ∧
      ∀ collection,
        c.compileNodes collection (Node.pruneAll nodes) = c.compileNodes collection nodes := by
  refine ⟨Node.withinAll_pruneAll_shown nodes, Compile.stage_pruneAll unaware,
    Node.anyEmbeds_pruneAll nodes, ?_⟩
  intro collection
  simp only [compileNodes, Node.anyEmbeds_pruneAll, Compile.stage_pruneAll unaware,
    Compile.predicate_pruneAll unaware]

def scoredPost : List Node :=
  [.relation ⟨"author", .obj [("age", .int 30)], "Post", false, none⟩
      ⟨"author", "User", "authorId", "_id", .one⟩
      [.field ⟨"age", .int 30, "User", true, none⟩ "age" none],
    .group ⟨"or", .arr [.obj [("score", .int 3), ("score_gt", .int 4)]], "Post", false, none⟩ .or
      [[.field ⟨"score", .int 3, "Post", false, some commentScore⟩ "score" none,
        .field ⟨"score_gt", .int 4, "Post", true, some commentScore⟩ "score" none]]]

theorem scoredPost_pruned :
    (∀ m ∈ Node.withinAll scoredPost, m.Unaware) ∧
      (Node.withinAll scoredPost).length = 5 ∧
      (Node.withinAll (Node.pruneAll scoredPost)).length = 3 ∧
      (∀ pipeline,
        Compile.stage (Node.pruneAll scoredPost) pipeline = Compile.stage scoredPost pipeline) ∧
      (Compile.stage scoredPost { collection := "Post", catalog := .posts }).result.map
        (·.stages.length) = .ok 2 := by
  have unaware : ∀ m ∈ Node.withinAll scoredPost, m.Unaware := by
    have onFields : ∀ m ∈ Node.withinAll scoredPost,
        m.info.compiler.isSome = true → m.isField = true := by decide
    exact fun m inside c own => .inl (onFields m inside (by simp [own]))
  have pruned := FilterCompiler.suppressed_nodes_leave_no_trace ⟨.posts, [], {}⟩ unaware
  exact ⟨unaware, rfl, rfl, pruned.2.1, rfl⟩

end DocQuery
