import DocQuery.Proofs.Building
import DocQuery.Proofs.JoinStructure
import DocQuery.Proofs.Meaning

set_option autoImplicit false

namespace DocQuery

namespace Compile

open Node

variable {scope : String} {ns : List Node} {groups : List (List Node)}

theorem allClauses_ok :
    (∃ cs, allClauses scope ns = .ok cs) ↔ ∀ n ∈ ns, ∃ cs, clauses scope n = .ok cs := by
  induction ns with
  | nil => simp [allClauses]
  | cons n rest ih =>
    rw [List.forall_mem_cons, ← ih, allClauses]
    cases clauses scope n with
    | error e => simp
    | ok first => cases allClauses scope rest <;> simp

theorem branchPredicates_ok :
    (∃ items, branchPredicates scope groups = .ok items) ↔
      ∀ branch ∈ groups, ∀ n ∈ branch, ∃ cs, clauses scope n = .ok cs := by
  induction groups with
  | nil => simp [branchPredicates]
  | cons branch rest ih =>
    rw [List.forall_mem_cons, ← ih, ← allClauses_ok, branchPredicates]
    cases allClauses scope branch with
    | error e => simp
    | ok cs => cases branchPredicates scope rest <;> simp

theorem clauses_relation_ok {i : Info} (active : i.suppressed = false) {r : Relation} :
    (∃ cs, clauses scope (.relation i r ns) = .ok cs) ↔
      ∀ n ∈ ns, ∃ cs, clauses (scope ++ r.name ++ ".") n = .ok cs := by
  rw [← allClauses_ok]
  cases found : allClauses (scope ++ r.name ++ ".") ns <;> simp [clauses, active, found]

theorem clauses_group_ok {i : Info} (active : i.suppressed = false) {connective : Connective} :
    (∃ cs, clauses scope (.group i connective groups) = .ok cs) ↔
      ∀ branch ∈ groups, ∀ n ∈ branch, ∃ cs, clauses scope n = .ok cs := by
  rw [← branchPredicates_ok]
  cases found : branchPredicates scope groups <;> simp [clauses, active, found]

def Compiles (n : Node) : Prop := ∀ scope, ∃ cs, clauses scope n = .ok cs

theorem compiles_of_suppressed {n : Node} (suppressed : n.suppressed = true) : Compiles n :=
  fun scope => ⟨[], clauses_of_suppressed suppressed scope⟩

theorem compiles_of_clauses (n : Node) (found : ∃ cs, clauses scope n = .ok cs) : Compiles n := by
  cases suppressed : n.suppressed with
  | true => exact compiles_of_suppressed suppressed
  | false =>
    induction n generalizing scope with
    | field i name operator =>
      rw [suppressed_field] at suppressed
      intro other
      simp only [clauses, suppressed, Bool.false_eq_true, if_false] at found ⊢
      cases built : fieldClause name operator i.value with
      | error e => simp [built] at found
      | ok clause => exact ⟨[(other ++ name, clause)], rfl⟩
    | relation i r children ih =>
      rw [suppressed_relation] at suppressed
      intro other
      rw [clauses_relation_ok suppressed] at found ⊢
      intro n inside
      cases hidden : n.suppressed with
      | true => exact compiles_of_suppressed hidden _
      | false => exact ih n inside (found n inside) hidden _
    | group i connective branches ih =>
      rw [suppressed_group] at suppressed
      intro other
      rw [clauses_group_ok suppressed] at found ⊢
      intro branch listed n inside
      cases hidden : n.suppressed with
      | true => exact compiles_of_suppressed hidden _
      | false => exact ih branch listed n inside (found branch listed n inside) hidden _

theorem Compiles.reached {n : Node} (compiles : Compiles n) {chain : List Relation}
    {located : List Relation × Node} (inside : located ∈ Node.reached chain n) :
    Compiles located.2 := by
  induction n generalizing chain with
  | field i name operator =>
    cases List.mem_singleton.mp inside
    exact compiles
  | relation i r children ih =>
    rcases mem_reached_relation.mp inside with rfl | ⟨active, below⟩
    · exact compiles
    · obtain ⟨n, member, deeper⟩ := mem_reachedAll.mp below
      have found := (clauses_relation_ok active).mp (compiles "") n member
      exact ih n member (compiles_of_clauses n found) deeper
  | group i connective branches ih =>
    rcases mem_reached_group.mp inside with rfl | ⟨active, below⟩
    · exact compiles
    · obtain ⟨branch, listed, n, member, deeper⟩ := mem_reachedBranches.mp below
      have found := (clauses_group_ok active).mp (compiles "") branch listed n member
      exact ih branch listed n member (compiles_of_clauses n found) deeper

theorem allClauses_isEmpty {cs : Fields}
    (each : ∀ n ∈ ns, ∀ cs, clauses scope n = .ok cs → cs.isEmpty = !n.hasEffect)
    (found : allClauses scope ns = .ok cs) : cs.isEmpty = !anyEffect ns := by
  induction ns generalizing cs with
  | nil =>
    cases found
    rfl
  | cons n rest ih =>
    simp only [allClauses, Outcome.bind_eq_ok] at found
    obtain ⟨first, own, others, more, joined⟩ := found
    cases joined
    obtain ⟨here, later⟩ := List.forall_mem_cons.mp each
    rw [anyEffect, Bool.not_or, ← here first own, ← ih later more]
    cases first <;> rfl

theorem branchPredicates_isEmpty {items : List Json}
    (each : ∀ branch ∈ groups, ∀ n ∈ branch, ∀ cs, clauses scope n = .ok cs →
      cs.isEmpty = !n.hasEffect)
    (found : branchPredicates scope groups = .ok items) :
    items.isEmpty = !anyBranchEffect groups := by
  induction groups generalizing items with
  | nil =>
    cases found
    rfl
  | cons branch rest ih =>
    simp only [branchPredicates, Outcome.bind_eq_ok] at found
    obtain ⟨cs, own, others, more, joined⟩ := found
    obtain ⟨here, later⟩ := List.forall_mem_cons.mp each
    have first := allClauses_isEmpty here own
    simp only [Outcome.pure_eq_ok, Except.ok.injEq, Predicate.mergeAll_isEmpty, first] at joined
    cases effect : anyEffect branch with
    | false =>
      simp only [effect, Bool.not_false, if_true] at joined
      rw [← joined, ih later more, anyBranchEffect, effect, Bool.false_or]
    | true =>
      simp only [effect, Bool.not_true, Bool.false_eq_true, if_false] at joined
      rw [← joined, anyBranchEffect, effect]
      rfl

theorem isEmpty_of_suppressed {n : Node} (suppressed : n.suppressed = true) {cs : Fields}
    (found : clauses scope n = .ok cs) : cs.isEmpty = !n.hasEffect := by
  rw [clauses_of_suppressed suppressed] at found
  cases found
  rw [hasEffect_of_suppressed suppressed]
  rfl

theorem clauses_isEmpty (n : Node) (standard : ∀ m ∈ n.within, m.Standard) {cs : Fields}
    (found : clauses scope n = .ok cs) : cs.isEmpty = !n.hasEffect := by
  induction n generalizing scope cs with
  | field i name operator =>
    cases suppressed : (Node.field i name operator).suppressed with
    | true => exact isEmpty_of_suppressed suppressed found
    | false =>
      rw [suppressed_field] at suppressed
      simp only [clauses, suppressed, Bool.false_eq_true, if_false, Outcome.bind_eq_ok] at found
      obtain ⟨clause, -, made⟩ := found
      cases made
      simp [hasEffect, suppressed]
  | relation i r children ih =>
    simp only [within, List.forall_mem_cons, forall_withinAll, standard_relation] at standard
    cases suppressed : (Node.relation i r children).suppressed with
    | true => exact isEmpty_of_suppressed suppressed found
    | false =>
      rw [suppressed_relation] at suppressed
      simp only [clauses, suppressed, Bool.false_eq_true, if_false, Outcome.bind_eq_ok] at found
      obtain ⟨inner, own, made⟩ := found
      cases made
      have below := allClauses_isEmpty (fun n inside cs => ih n inside (standard.2 n inside)) own
      simp [hasEffect, suppressed, standard.1, below, Predicate.mergeAll_isEmpty]
  | group i connective branches ih =>
    simp only [within, List.forall_mem_cons, forall_withinBranches, standard_group] at standard
    cases suppressed : (Node.group i connective branches).suppressed with
    | true => exact isEmpty_of_suppressed suppressed found
    | false =>
      rw [suppressed_group] at suppressed
      simp only [clauses, suppressed, Bool.false_eq_true, if_false, Outcome.bind_eq_ok] at found
      obtain ⟨items, own, made⟩ := found
      have each : ∀ branch ∈ branches, ∀ n ∈ branch, ∀ cs, clauses scope n = .ok cs →
          cs.isEmpty = !n.hasEffect := by
        intro branch listed n inside cs
        exact ih branch listed n inside (standard.2 branch listed n inside)
      have below := branchPredicates_isEmpty each own
      have effect : (Node.group i connective branches).hasEffect = anyBranchEffect branches := by
        simp [hasEffect, suppressed, standard.1]
      rw [effect, ← below]
      by_cases empty : items.isEmpty = true
      · rw [if_pos empty] at made
        cases made
        rw [empty]
        rfl
      · rw [if_neg empty] at made
        cases made
        rw [Bool.eq_false_iff.mpr empty]
        rfl

theorem compiles_of_predicate {ns : List Node} {p : Predicate}
    (compiled : plainPredicate scope ns = .ok p) : ∀ n ∈ ns, Compiles n := by
  obtain ⟨cs, found, -⟩ := Outcome.map_eq_ok.mp compiled
  intro n inside
  exact compiles_of_clauses n (allClauses_ok.mp ⟨cs, found⟩ n inside)

/-- What staging a tree without compilers of its own onto a pipeline came to, as foreseen from the
tree alone. -/
structure Foreseen (nodes : List Node) (s t : Staging) : Prop where
  -- Inside a suppressed node there may be one that does not compile at all.
  compiles : ∀ located ∈ reachedAll [] nodes, ∀ scope u,
    ∃ draft, (predicate [located.2] scope u).result = .ok draft
  effect : ∀ n ∈ withinAll nodes, ∀ scope u draft,
    (predicate [n] scope u).result = .ok draft → (n.hasEffect = true ↔ draft.predicate ≠ [])
  asked : anyEmbeds nodes = true ↔ s.joinsAsked < t.joinsAsked
  staged : s.lookups = [] → (anyEmbeds nodes = true ↔ t.lookups ≠ [])

theorem predicate_alone {n : Node} (standard : ∀ m ∈ n.within, m.Standard) (scope : String)
    (u : Staging) :
    (predicate [n] scope u).result =
      (clauses scope n).map fun cs => ⟨Predicate.mergeAll [] cs, u⟩ := by
  have all : ∀ m ∈ withinAll [n], m.Standard := by simpa [withinAll] using standard
  rw [predicate_exact all, Traced.result_lift, plainPredicate, allClauses]
  cases clauses scope n <;> simp [allClauses]

theorem standard_within {nodes : List Node} (standard : ∀ m ∈ withinAll nodes, m.Standard)
    {n : Node} (inside : n ∈ withinAll nodes) : ∀ m ∈ n.within, m.Standard := by
  obtain ⟨top, listed, within⟩ := mem_withinAll.mp inside
  intro m below
  exact standard m (mem_withinAll.mpr ⟨top, listed, within_trans within below⟩)

theorem stage_compiles {nodes : List Node} (standard : ∀ m ∈ withinAll nodes, m.Standard)
    {s t : Staging} (compiled : (stage nodes s).result = .ok t) : ∀ n ∈ nodes, Compiles n := by
  obtain ⟨before, -, after, early, -, late, -⟩ := parts_of_stage standard compiled
  intro n inside
  cases embeds : n.embedsRelation with
  | false => exact compiles_of_predicate early n (List.mem_filter.mpr ⟨inside, by simp [embeds]⟩)
  | true => exact compiles_of_predicate late n (List.mem_filter.mpr ⟨inside, embeds⟩)

theorem stage_joins {nodes : List Node} (standard : ∀ m ∈ withinAll nodes, m.Standard)
    {s t : Staging} (compiled : (stage nodes s).result = .ok t) :
    ∃ joins : List Lookup, joins.length = (joinSites [] nodes).length ∧
      t.joinsAsked = s.joinsAsked + joins.length ∧
      t.lookups = s.lookups ++ Staging.newJoins s.deduplicate s.lookups joins := by
  obtain ⟨before, joins, after, -, resolved, -, rfl⟩ := parts_of_stage standard compiled
  exact ⟨joins, Outcome.length_of_mapM resolved, by simp, by simp⟩

theorem stage_foreseen {nodes : List Node} (standard : ∀ m ∈ withinAll nodes, m.Standard)
    {s t : Staging} (compiled : (stage nodes s).result = .ok t) : Foreseen nodes s t where
  compiles located inside scope u := by
    obtain ⟨top, listed, reached⟩ := mem_reachedAll.mp inside
    have within := mem_withinAll.mpr ⟨top, listed, within_of_reached reached⟩
    obtain ⟨cs, found⟩ := (stage_compiles standard compiled top listed).reached reached scope
    rw [predicate_alone (standard_within standard within), found]
    exact ⟨_, rfl⟩
  effect n inside scope u draft found := by
    have own := standard_within standard inside
    rw [predicate_alone own, Outcome.map_eq_ok] at found
    obtain ⟨cs, found, rfl⟩ := found
    have empty := clauses_isEmpty n own found
    rw [← Predicate.mergeAll_isEmpty] at empty
    simp only
    cases effect : n.hasEffect <;> simp_all
  asked := by
    obtain ⟨joins, many, asked, -⟩ := stage_joins standard compiled
    rw [anyEmbeds_iff, ← List.length_pos_iff, asked]
    omega
  staged unjoined := by
    obtain ⟨joins, many, -, staged⟩ := stage_joins standard compiled
    rw [anyEmbeds_iff, staged, unjoined, List.nil_append, ne_eq, ne_eq, Staging.newJoins_eq_nil,
      ← List.length_eq_zero_iff, ← many, List.length_eq_zero_iff]

end Compile

namespace FilterCompiler

theorem compileNodes_stages (c : FilterCompiler) (collection : String) (nodes : List Node) :
    (fun compiled => (c.toStaging collection compiled).stages) <$>
        c.compileNodes collection nodes =
      Staging.stages <$> Compile.stage nodes (c.newPipeline collection) := by
  unfold compileNodes
  cases embeds : Node.anyEmbeds nodes with
  | true => simp [toStaging]
  | false =>
    rw [Compile.stage_of_plain embeds, Compile.matchStage]
    simp only [Bool.false_eq_true, if_false, map_bind, map_pure]
    congr 1
    funext draft
    split
    next empty =>
      have none : draft.pipeline.stages = [] := by simpa [Staging.isEmpty] using empty
      simp [toStaging, none, newPipeline]
    next => simp [toStaging]

theorem compilePipeline_stages (c : FilterCompiler) (collection : String) (filter : Json) :
    Staging.stages <$> c.compilePipeline collection filter =
      c.parse collection filter >>= fun nodes =>
        Staging.stages <$> Compile.stage nodes (c.newPipeline collection) := by
  simp only [← c.compileNodes_stages, compilePipeline_eq, compile, map_bind, Functor.map_map]

end FilterCompiler

namespace Planner

theorem finish_isDirect (kind : ReadKind) (collection : String) (window : Window)
    (compiled : CompiledFilter) :
    (finish kind collection window compiled).plan.isDirect =
      match compiled with
      | .predicate _ => true
      | .staged _ => false := by
  cases compiled <;> rfl

theorem plan_routes {p : Planner} {kind : ReadKind} {collection : String} {filter : Json}
    {args : PageArgs} {pivot : Option Json} {planned : Planned} {nodes : List Node}
    (standard : ∀ m ∈ Node.withinAll nodes, m.Standard)
    (parsed : (p.compiler.parse collection filter).result = .ok nodes)
    (found : (p.plan kind collection filter args pivot).result = .ok planned) :
    ∃ t, (Compile.stage nodes (p.compiler.newPipeline collection)).result = .ok t ∧
      (planned.plan.isDirect = true ↔ t.lookups = []) := by
  simp only [plan_result, FilterCompiler.compile, Traced.result_bind, parsed, Outcome.ok_bind,
    Outcome.bind_eq_ok, p.compiler.compileNodes_result collection standard] at found
  obtain ⟨window, -, compiled, compiling, made⟩ := found
  cases made
  rw [finish_isDirect]
  split at compiling
  next embeds =>
    obtain ⟨t, staged, rfl⟩ := Outcome.map_eq_ok.mp compiling
    have joined := ((Compile.stage_foreseen standard staged).staged rfl).mp embeds
    exact ⟨t, staged, by simp [joined]⟩
  next plain =>
    obtain ⟨before, compiles, rfl⟩ := Outcome.map_eq_ok.mp compiling
    refine ⟨(p.compiler.newPipeline collection).filter before, ?_, ?_⟩
    · rw [Compile.stage_of_plain (by simpa using plain), Compile.matchStage_result standard, compiles]
      rfl
    · rw [Staging.filter_lookups]
      exact iff_of_true rfl rfl

theorem visitors_attach_none {p : Planner}
    (plain : ∀ v ∈ p.visitors, v.AttachesNone p.compiler.parser) :
    ∀ v ∈ p.compiler.visitors, v.AttachesNone p.compiler.parser :=
  List.forall_mem_cons.mpr ⟨(Rule.ofConfig p.config).attaches_none nofun _, plain⟩

end Planner

/-- Routing agrees with what compiling emits. For a tree without compilers of its own the tests made
before compiling are exact, and a read is direct exactly if no join is staged. For any tree the
short way of compiling comes to the same error or the same stages as staging it on a new pipeline. -/
theorem FilterCompiler.routing_agrees (c : FilterCompiler) (collection : String)
    (nodes : List Node) :
    ((∀ m ∈ Node.withinAll nodes, m.Standard) →
      (∀ s t, (Compile.stage nodes s).result = .ok t → Compile.Foreseen nodes s t) ∧
      ∀ p : Planner, p.compiler = c → ∀ kind filter args pivot planned,
        (c.parse collection filter).result = .ok nodes →
        (p.plan kind collection filter args pivot).result = .ok planned →
          ∃ t, (Compile.stage nodes (c.newPipeline collection)).result = .ok t ∧
            (planned.plan.isDirect = true ↔ t.lookups = [])) ∧
    (fun compiled => (c.toStaging collection compiled).stages) <$>
        c.compileNodes collection nodes =
      Staging.stages <$> Compile.stage nodes (c.newPipeline collection) ∧
    ∀ filter, Staging.stages <$> c.compilePipeline collection filter =
      c.parse collection filter >>= fun nodes =>
        Staging.stages <$> Compile.stage nodes (c.newPipeline collection) := by
  refine ⟨?_, c.compileNodes_stages collection nodes, c.compilePipeline_stages collection⟩
  intro standard
  constructor
  · intro s t compiled
    exact Compile.stage_foreseen standard compiled
  · rintro p rfl kind filter args pivot planned parsed found
    exact Planner.plan_routes standard parsed found

def Planner.joining : Planner := ⟨Catalog.posts, {}, joiningRules.map Rule.visitor⟩

theorem Planner.joining_attaches_none :
    ∀ v ∈ joining.visitors, v.AttachesNone joining.compiler.parser := by
  refine Rule.forall_visitors rfl fun rule listed => rule.attaches_none ?_ _
  rintro target c rfl
  simp [joiningRules] at listed

theorem joiningFilter_routed : ∃ nodes t planned,
    (Planner.joining.compiler.parse "Post" joiningFilter).result = .ok nodes ∧
    (∀ m ∈ Node.withinAll nodes, m.Standard) ∧
    (Planner.joining.plan .findMany "Post" joiningFilter {} none).result = .ok planned ∧
    (Compile.stage nodes (Planner.joining.compiler.newPipeline "Post")).result = .ok t ∧
    (planned.plan.isDirect = true ↔ t.lookups = []) ∧
    Compile.Foreseen nodes (Planner.joining.compiler.newPipeline "Post") t := by
  have parsed : ∃ nodes,
      (Planner.joining.compiler.parse "Post" joiningFilter).result = .ok nodes := ⟨_, rfl⟩
  obtain ⟨nodes, parsed⟩ := parsed
  have standard := FilterCompiler.parse_attaches_none
    (Planner.visitors_attach_none Planner.joining_attaches_none) parsed
  have planned : ∃ planned,
      (Planner.joining.plan .findMany "Post" joiningFilter {} none).result = .ok planned := ⟨_, rfl⟩
  obtain ⟨planned, found⟩ := planned
  have ⟨foreseen, routed⟩ :=
    (Planner.joining.compiler.routing_agrees "Post" nodes).1 standard
  obtain ⟨t, staged, direct⟩ := routed _ rfl _ _ _ _ _ parsed found
  exact ⟨nodes, t, planned, parsed, standard, found, staged, direct, foreseen _ t staged⟩

end DocQuery
