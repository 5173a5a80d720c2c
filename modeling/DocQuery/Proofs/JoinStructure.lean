import DocQuery.Proofs.JoinSites
import DocQuery.Proofs.Presence

set_option autoImplicit false

namespace DocQuery

open Text

def fieldPath (chain : List Relation) (name : String) : String :=
  joinPath (chain.map (·.name) ++ [name])

theorem fieldPath_dotted {chain : List Relation} (nested : chain ≠ []) (name : String) :
    '.' ∈ (fieldPath chain name).toList := by
  rw [fieldPath, joinPath_snoc (by simpa using nested)]
  simp

theorem fieldPath_ne_and {chain : List Relation} (nested : chain ≠ []) (name : String) :
    fieldPath chain name ≠ "$and" := by
  intro same
  have dotted := fieldPath_dotted nested name
  simp [same] at dotted

namespace Compile

open Node

def FieldCarried (chain : List Relation) (i : Info) (name : String) (operator : Option Operator)
    (p : Predicate) : Prop :=
  ∃ clause, fieldClause name operator i.value = .ok clause ∧
    Predicate.Has (fieldPath chain name) clause p

def NodeCarries (n : Node) : Prop :=
  ∀ chain cs, clauses (chainScope chain) n = .ok cs → ∀ found i name operator,
    (found, Node.field i name operator) ∈ reached chain n → i.suppressed = false → found ≠ [] →
      FieldCarried found i name operator cs

variable {chain found : List Relation} {i : Info} {name : String} {operator : Option Operator}

theorem FieldCarried.mergeAll {cs : Fields} (carried : FieldCarried found i name operator cs)
    (nested : found ≠ []) : FieldCarried found i name operator (Predicate.mergeAll [] cs) := by
  obtain ⟨clause, built, present⟩ := carried
  exact ⟨clause, built, present.mergeAll (fieldPath_ne_and nested name) []⟩

theorem FieldCarried.isEmpty {p : Predicate} (carried : FieldCarried found i name operator p) :
    p.isEmpty = false := by
  obtain ⟨-, -, member, inside, -⟩ := carried
  exact List.isEmpty_eq_false_iff_exists_mem.mpr ⟨member, inside⟩

theorem reached_relation {j : Info} {r : Relation} {children : List Node}
    (inside : (found, Node.field i name operator) ∈ reached chain (.relation j r children)) :
    j.suppressed = false ∧
      (found, Node.field i name operator) ∈ reachedAll (chain ++ [r]) children :=
  (mem_reached_relation.mp inside).resolve_left (by simp)

theorem reached_group {j : Info} {connective : Connective} {branches : List (List Node)}
    (inside : (found, Node.field i name operator) ∈ reached chain (.group j connective branches)) :
    j.suppressed = false ∧
      (found, Node.field i name operator) ∈ reachedBranches chain branches :=
  (mem_reached_group.mp inside).resolve_left (by simp)

theorem allClauses_carry {ns : List Node} (each : ∀ n ∈ ns, NodeCarries n) {cs : Fields}
    (compiled : allClauses (chainScope chain) ns = .ok cs)
    (inside : (found, Node.field i name operator) ∈ reachedAll chain ns)
    (active : i.suppressed = false) (nested : found ≠ []) :
    FieldCarried found i name operator cs := by
  induction ns generalizing cs with
  | nil => simp [reachedAll] at inside
  | cons n rest ih =>
    simp only [allClauses, Outcome.bind_eq_ok] at compiled
    obtain ⟨first, own, others, more, joined⟩ := compiled
    cases joined
    obtain ⟨here, later⟩ := List.forall_mem_cons.mp each
    rcases List.mem_append.mp inside with inFirst | inRest
    · obtain ⟨clause, built, present⟩ := here chain first own found i name operator inFirst active nested
      exact ⟨clause, built, Predicate.has_append.mpr (.inl present)⟩
    · obtain ⟨clause, built, present⟩ := ih later more inRest
      exact ⟨clause, built, Predicate.has_append.mpr (.inr present)⟩

theorem branchPredicates_carry {branches : List (List Node)}
    (each : ∀ branch ∈ branches, ∀ n ∈ branch, NodeCarries n) {items : List Json}
    (compiled : branchPredicates (chainScope chain) branches = .ok items)
    (inside : (found, Node.field i name operator) ∈ reachedBranches chain branches)
    (active : i.suppressed = false) (nested : found ≠ []) :
    ∃ p, .obj p ∈ items ∧ FieldCarried found i name operator p := by
  induction branches generalizing items with
  | nil => simp [reachedBranches] at inside
  | cons branch rest ih =>
    simp only [branchPredicates, Outcome.bind_eq_ok] at compiled
    obtain ⟨cs, own, others, more, joined⟩ := compiled
    obtain ⟨here, later⟩ := List.forall_mem_cons.mp each
    rcases List.mem_append.mp inside with inBranch | inRest
    · have carried := (allClauses_carry here own inBranch active nested).mergeAll nested
      have filled := carried.isEmpty
      simp only [filled, Bool.false_eq_true, if_false, Outcome.pure_eq_ok,
        Except.ok.injEq] at joined
      subst joined
      exact ⟨_, List.mem_cons_self, carried⟩
    · obtain ⟨p, listed, carried⟩ := ih later more inRest
      simp only [Outcome.pure_eq_ok, Except.ok.injEq] at joined
      subst joined
      split
      next => exact ⟨p, listed, carried⟩
      next => exact ⟨p, List.mem_cons_of_mem _ listed, carried⟩

theorem clauses_carry (n : Node) : NodeCarries n := by
  induction n with
  | field j key op =>
    intro chain cs compiled found i name operator inside active nested
    cases List.mem_singleton.mp inside
    simp only [clauses, active, Bool.false_eq_true, if_false, Outcome.bind_eq_ok] at compiled
    obtain ⟨clause, built, made⟩ := compiled
    cases made
    refine ⟨clause, built, Predicate.has_cons.mpr (.inl ?_)⟩
    rw [chainScope_path]
    exact .own (.inl rfl)
  | relation j r children ih =>
    intro chain cs compiled found i name operator inside active nested
    obtain ⟨active', below⟩ := reached_relation inside
    simp only [clauses, active', Bool.false_eq_true, if_false, ← chainScope_snoc,
      Outcome.bind_eq_ok] at compiled
    obtain ⟨inner, own, made⟩ := compiled
    cases made
    exact (allClauses_carry ih own below active nested).mergeAll nested
  | group j connective branches ih =>
    intro chain cs compiled found i name operator inside active nested
    obtain ⟨active', below⟩ := reached_group inside
    simp only [clauses, active', Bool.false_eq_true, if_false, Outcome.bind_eq_ok] at compiled
    obtain ⟨items, own, made⟩ := compiled
    obtain ⟨p, listed, clause, built, member, present, carries⟩ :=
      branchPredicates_carry ih own below active nested
    have filled : items.isEmpty = false := List.isEmpty_eq_false_iff_exists_mem.mpr ⟨_, listed⟩
    simp only [filled, Bool.false_eq_true, if_false] at made
    cases made
    exact ⟨clause, built, Predicate.has_cons.mpr (.inl (.listed listed present carries))⟩

theorem along_mem_chainJoins {n : Node} {above rest : List Relation} {r : Relation}
    (inside : (above ++ r :: rest, Node.field i name operator) ∈ reached chain n)
    (active : i.suppressed = false) (below : chain.length ≤ above.length) :
    Lookup.along above r ∈ chainJoins chain n := by
  have own : (Node.field i name operator).hasEffect = true := by simp [hasEffect, active]
  induction n generalizing chain with
  | field j key op =>
    have same := congrArg List.length (Prod.mk.inj (List.mem_singleton.mp inside)).1
    simp only [List.length_append, List.length_cons] at same
    omega
  | relation j q children ih =>
    obtain ⟨-, deeper⟩ := reached_relation inside
    obtain ⟨n, member, within⟩ := mem_reachedAll.mp deeper
    rw [chainJoins_relation (hasEffect_of_reached inside own)]
    by_cases here : chain.length = above.length
    · obtain ⟨tail, split⟩ := prefix_of_reached within
      rw [List.append_assoc, List.singleton_append] at split
      obtain ⟨rfl, same⟩ := List.append_inj split here
      obtain ⟨rfl, -⟩ := List.cons.inj same
      exact List.mem_cons_self
    · have longer : (chain ++ [q]).length ≤ above.length := by
        rw [List.length_append, List.length_singleton]
        omega
      exact List.mem_cons_of_mem _ (mem_allChainJoins.mpr ⟨n, member, ih n member within longer⟩)
  | group j connective branches ih =>
    obtain ⟨idle, deeper⟩ := reached_group inside
    obtain ⟨branch, listed, n, member, within⟩ := mem_reachedBranches.mp deeper
    rw [chainJoins_group idle]
    have needed := ih branch listed n member within below
    exact List.mem_flatMap.mpr ⟨branch, listed, mem_allChainJoins.mpr ⟨n, member, needed⟩⟩

def unjoined (ns : List Node) : List Node := ns.filter fun n => (chainJoins [] n).isEmpty

def joined (ns : List Node) : List Node := ns.filter fun n => !(chainJoins [] n).isEmpty

structure JoinStructure (nodes : List Node) (stages : List Stage) (before after : Predicate)
    (joins : List Lookup) : Prop where
  stages : stages =
    Staging.matchStages before ++ joins.flatMap Lookup.stages ++ Staging.matchStages after
  distinct : joins.map Lookup.kind = ((allChainJoins [] nodes).map Lookup.kind).eraseDups
  along : ∀ join ∈ joins, join ∈ allChainJoins [] nodes
  early : ∀ s, (predicate (unjoined nodes) "" s).result = .ok ⟨before, s⟩
  late : ∀ s, (predicate (joined nodes) "" s).result = .ok ⟨after, s⟩
  outside : ∀ chain i name operator,
    (chain, Node.field i name operator) ∈ reachedAll [] (unjoined nodes) →
      i.suppressed = false → chain = []
  carried : ∀ chain i name operator, (chain, Node.field i name operator) ∈ reachedAll [] nodes →
    i.suppressed = false → chain ≠ [] → FieldCarried chain i name operator after
  covered : ∀ above r rest i name operator,
    (above ++ r :: rest, Node.field i name operator) ∈ reachedAll [] nodes →
      i.suppressed = false → ∃ join ∈ joins, join.kind = (r, chainPath (above ++ [r]))

theorem unjoined_eq (ns : List Node) : unjoined ns = plainNodes ns := by
  refine List.filter_congr fun n _ => ?_
  rw [embedsRelation_eq n [], Bool.not_not]

theorem joined_eq (ns : List Node) : joined ns = joiningNodes ns :=
  List.filter_congr fun n _ => (embedsRelation_eq n []).symm

theorem reached_joined {nodes : List Node}
    (inside : (found, Node.field i name operator) ∈ reachedAll [] nodes)
    (active : i.suppressed = false) (nested : found ≠ []) :
    (found, Node.field i name operator) ∈ reachedAll [] (joined nodes) := by
  obtain ⟨r, rest, rfl⟩ := List.exists_cons_of_ne_nil nested
  obtain ⟨n, member, reaches⟩ := mem_reachedAll.mp inside
  have needed : Lookup.along [] r ∈ chainJoins [] n := along_mem_chainJoins reaches active (Nat.le_refl _)
  have kept : n ∈ joined nodes := by
    refine List.mem_filter.mpr ⟨member, ?_⟩
    cases chains : chainJoins [] n with
    | nil => simp [chains] at needed
    | cons => rfl
  exact mem_reachedAll.mpr ⟨n, kept, reaches⟩

theorem reached_unjoined {nodes : List Node}
    (inside : (found, Node.field i name operator) ∈ reachedAll [] (unjoined nodes))
    (active : i.suppressed = false) : found = [] := by
  cases found with
  | nil => rfl
  | cons r rest =>
    obtain ⟨n, member, reaches⟩ := mem_reachedAll.mp inside
    have needed : Lookup.along [] r ∈ chainJoins [] n := along_mem_chainJoins reaches active (Nat.le_refl _)
    have none : chainJoins [] n = [] := by simpa using (List.mem_filter.mp member).2
    simp [none] at needed

theorem stage_parts {nodes : List Node} {s t : Staging}
    (declared : ∀ n ∈ nodes, Declared s.catalog Home s.collection n)
    (standard : ∀ m ∈ withinAll nodes, m.Standard) (fresh : s.stages = [])
    (staged : (stage nodes s).result = .ok t) :
    ∃ before after, plainPredicate "" (unjoined nodes) = .ok before ∧
      plainPredicate "" (joined nodes) = .ok after ∧
      t.stages = Staging.matchStages before ++
        (Staging.newJoins s.deduplicate [] (allChainJoins [] nodes)).flatMap Lookup.stages ++
          Staging.matchStages after := by
  obtain ⟨before, after, first, last, rfl⟩ := parts_of_declared declared standard staged
  rw [← unjoined_eq] at first
  rw [← joined_eq] at last
  have empty : s.lookups = [] := by simp [Staging.lookups, fresh]
  refine ⟨before, after, first, last, ?_⟩
  simp [Staging.addJoins_stages, fresh, empty, allChainJoins_sites]

theorem joined_carries {nodes : List Node} {after : Predicate}
    (last : plainPredicate "" (joined nodes) = .ok after)
    (inside : (found, Node.field i name operator) ∈ reachedAll [] nodes)
    (active : i.suppressed = false) (nested : found ≠ []) :
    FieldCarried found i name operator after := by
  obtain ⟨cs, clausesFound, merged⟩ := Outcome.map_eq_ok.mp last
  subst merged
  have compiled : allClauses (chainScope []) (joined nodes) = .ok cs := clausesFound
  have below := reached_joined inside active nested
  have stated : FieldCarried found i name operator cs :=
    allClauses_carry (fun n _ => clauses_carry n) compiled below active nested
  exact stated.mergeAll nested

theorem stage_structure {nodes : List Node} {s t : Staging}
    (declared : ∀ n ∈ nodes, Declared s.catalog Home s.collection n)
    (standard : ∀ m ∈ withinAll nodes, m.Standard) (fresh : s.stages = [])
    (deduplicate : s.deduplicate = true) (staged : (stage nodes s).result = .ok t) :
    ∃ before after joins, JoinStructure nodes t.stages before after joins := by
  obtain ⟨before, after, first, last, stages⟩ := stage_parts declared standard fresh staged
  rw [deduplicate] at stages
  have kinds : (Staging.newJoins true [] (allChainJoins [] nodes)).map Lookup.kind =
      ((allChainJoins [] nodes).map Lookup.kind).eraseDups := by
    simpa using Staging.newJoins_kinds [] (allChainJoins [] nodes)
  refine ⟨before, after, Staging.newJoins true [] (allChainJoins [] nodes), ?_⟩
  constructor
  case stages => exact stages
  case distinct => exact kinds
  case along => exact Staging.newJoins_subset true [] _
  case early =>
    intro s
    have plain : ∀ m ∈ withinAll (unjoined nodes), m.Standard := withinAll_filter standard _
    rw [predicate_exact plain, first]
    rfl
  case late =>
    intro s
    have plain : ∀ m ∈ withinAll (joined nodes), m.Standard := withinAll_filter standard _
    rw [predicate_exact plain, last]
    rfl
  case outside =>
    intro chain i name operator inside active
    exact reached_unjoined inside active
  case carried =>
    intro chain i name operator inside active nested
    exact joined_carries last inside active nested
  case covered =>
    intro above r rest i name operator inside active
    obtain ⟨n, member, reaches⟩ := mem_reachedAll.mp inside
    have needed := mem_allChainJoins.mpr
      ⟨n, member, along_mem_chainJoins reaches active (Nat.zero_le _)⟩
    have listed := List.mem_eraseDups.mpr (List.mem_map_of_mem (f := Lookup.kind) needed)
    rw [← kinds] at listed
    obtain ⟨join, inJoins, same⟩ := List.mem_map.mp listed
    refine ⟨join, inJoins, ?_⟩
    rw [same]
    simp [Lookup.kind, Lookup.along, chainPath]

end Compile

/-- With deduplication, a filter without compilers of its own compiles to one match of the nodes that
need no join, the distinct joins of its relations, and one match of the nodes that need joins. -/
theorem FilterCompiler.join_structure {c : FilterCompiler} {rules : List Rule}
    (built : c.visitors = rules.map Rule.visitor) (deduplicate : c.config.deduplicateJoins = true)
    {collection : String} {filter : Json}
    (standard : ∀ nodes, (c.parse collection filter).result = .ok nodes →
      ∀ m ∈ Node.withinAll nodes, m.Standard)
    {s : Staging} (compiled : (c.compilePipeline collection filter).result = .ok s) :
    ∃ nodes before after joins, (c.parse collection filter).result = .ok nodes ∧
      Compile.JoinStructure nodes s.stages before after joins := by
  rw [c.compilePipeline_stage standard] at compiled
  obtain ⟨nodes, parsed, staged⟩ := Outcome.bind_eq_ok.mp compiled
  obtain ⟨before, after, joins, made⟩ :=
    Compile.stage_structure (s := c.newPipeline collection) (FilterCompiler.parse_declared built parsed)
      (standard nodes parsed) rfl deduplicate staged
  exact ⟨nodes, before, after, joins, parsed, made⟩

-- A plain field, a nested relation, the same relation again in a group, and a relation left without
-- effect, with a field renamed and another suppressed.
def joiningFilter : Json :=
  .obj [("title", .str "Lean"),
    ("author", .obj [("name", .str "Ann"), ("company", .obj [("city", .str "Oslo")])]),
    ("or", .arr [.obj [("author", .obj [("age_gt", .int 3)])],
      .obj [("comments", .obj [("hidden", .bool true)])]])]

def joiningRules : List Rule :=
  [.rename ⟨"name", some "User"⟩ "fullName", .suppressField "hidden"]

def joiningCompiler : FilterCompiler := ⟨Catalog.posts, joiningRules.map Rule.visitor, {}⟩

theorem joiningFilter_standard : ∀ nodes,
    (joiningCompiler.parse "Post" joiningFilter).result = .ok nodes →
      ∀ m ∈ Node.withinAll nodes, m.Standard := by
  intro nodes parsed
  cases parsed
  simp [Node.withinAll, Node.within, Node.withinBranches, Node.asField, Node.suppress, Node.withInfo,
    Node.info]

theorem joiningFilter_structure :
    ∃ s, (joiningCompiler.compilePipeline "Post" joiningFilter).result = .ok s ∧
      s.lookups.map (·.output) = ["author", "author.company"] ∧
      ∃ nodes before after joins, (joiningCompiler.parse "Post" joiningFilter).result = .ok nodes ∧
        Compile.JoinStructure nodes s.stages before after joins :=
  ⟨_, rfl, rfl, FilterCompiler.join_structure rfl rfl joiningFilter_standard rfl⟩

end DocQuery
