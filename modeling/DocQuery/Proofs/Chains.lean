import DocQuery.Proofs.Declared
import DocQuery.Proofs.Joins
import DocQuery.Proofs.Paths

set_option autoImplicit false

namespace DocQuery

open Text

def chainPath (chain : List Relation) : String := joinPath (chain.map (·.name))

def chainScope (chain : List Relation) : String :=
  chain.foldl (fun scope r => scope ++ r.name ++ ".") ""

theorem chainScope_snoc (chain : List Relation) (r : Relation) :
    chainScope (chain ++ [r]) = chainScope chain ++ r.name ++ "." := by
  simp [chainScope]

theorem chainScope_path (chain : List Relation) (key : String) :
    chainScope chain ++ key = joinPath (chain.map (·.name) ++ [key]) := by
  induction chain using List.reverseRecOn generalizing key with
  | nil => simp [chainScope, joinPath_single]
  | append_singleton chain r ih =>
    rw [joinPath_snoc (by simp), List.map_append, List.map_singleton, ← ih, chainScope_snoc]

theorem chainPath_eq_empty {chain : List Relation} (filled : ∀ r ∈ chain, r.name ≠ "") :
    chainPath chain = "" ↔ chain = [] := by
  constructor
  · intro empty
    induction chain using List.reverseRecOn with
    | nil => rfl
    | append_singleton chain r _ =>
      have last := filled r (by simp)
      rw [chainPath, List.map_append, List.map_singleton, ← chainScope_path] at empty
      simp [String.append_eq_empty_iff, last] at empty
  · rintro rfl
    rfl

theorem outputBelow_chain {chain : List Relation} (filled : ∀ r ∈ chain, r.name ≠ "")
    (r : Relation) : Compile.outputBelow (chainPath chain) r.name = chainPath (chain ++ [r]) := by
  unfold Compile.outputBelow
  by_cases root : chain = []
  · subst root
    rfl
  · rw [if_neg (mt (chainPath_eq_empty filled).mp root), Staging.below, chainPath, chainPath,
      List.map_append, List.map_singleton, joinPath_snoc (by simpa using root)]

def Lookup.along (chain : List Relation) (r : Relation) : Lookup where
  relation := r
  output := joinPath (chain.map (·.name) ++ [r.name])
  localField := joinPath (chain.map (·.name) ++ [r.localField])

theorem joinFor_chain {chain : List Relation} (filled : ∀ r ∈ chain, r.name ≠ "") (owner : String)
    (r : Relation) :
    Staging.joinFor r { parent := Compile.joinParent owner (chainPath chain) } =
      Lookup.along chain r := by
  unfold Staging.joinFor Compile.joinParent Lookup.along
  by_cases root : chain = []
  · subst root
    rfl
  · have rooted := mt (chainPath_eq_empty filled).mp root
    have nonempty : chain.map (·.name) ≠ [] := by simpa using root
    simp only [rooted, if_false, Option.map_some, Option.getD_some, joinPath_snoc nonempty]
    rfl

namespace Node

-- The nodes of a tree that no suppressed node encloses, in pre-order, each with the relations above
-- it.
mutual

def reached (chain : List Relation) : Node → List (List Relation × Node)
  | .field i name operator => [(chain, .field i name operator)]
  | .relation i r children =>
    (chain, .relation i r children) ::
      if i.suppressed then [] else reachedAll (chain ++ [r]) children
  | .group i connective branches =>
    (chain, .group i connective branches) ::
      if i.suppressed then [] else reachedBranches chain branches

def reachedAll (chain : List Relation) : List Node → List (List Relation × Node)
  | [] => []
  | n :: rest => reached chain n ++ reachedAll chain rest

def reachedBranches (chain : List Relation) :
    List (List Node) → List (List Relation × Node)
  | [] => []
  | branch :: rest => reachedAll chain branch ++ reachedBranches chain rest

end

theorem reachedAll_eq (chain : List Relation) (ns : List Node) :
    reachedAll chain ns = ns.flatMap (reached chain) := by
  induction ns with
  | nil => rfl
  | cons n rest ih => simp [reachedAll, ih]

theorem reachedBranches_eq (chain : List Relation) (branches : List (List Node)) :
    reachedBranches chain branches = branches.flatMap (reachedAll chain) := by
  induction branches with
  | nil => rfl
  | cons branch rest ih => simp [reachedBranches, ih]

theorem mem_reachedAll {chain : List Relation} {ns : List Node} {located : List Relation × Node} :
    located ∈ reachedAll chain ns ↔ ∃ n ∈ ns, located ∈ reached chain n := by
  simp [reachedAll_eq]

theorem mem_reachedBranches {chain : List Relation} {branches : List (List Node)}
    {located : List Relation × Node} :
    located ∈ reachedBranches chain branches ↔
      ∃ branch ∈ branches, ∃ n ∈ branch, located ∈ reached chain n := by
  simp [reachedBranches_eq, mem_reachedAll]

theorem mem_reached_relation {chain : List Relation} {i : Info} {r : Relation}
    {children : List Node} {located : List Relation × Node} :
    located ∈ reached chain (.relation i r children) ↔ located = (chain, .relation i r children) ∨
      i.suppressed = false ∧ located ∈ reachedAll (chain ++ [r]) children := by
  cases active : i.suppressed <;> simp [reached, active]

theorem mem_reached_group {chain : List Relation} {i : Info} {connective : Connective}
    {branches : List (List Node)} {located : List Relation × Node} :
    located ∈ reached chain (.group i connective branches) ↔
      located = (chain, .group i connective branches) ∨
        i.suppressed = false ∧ located ∈ reachedBranches chain branches := by
  cases active : i.suppressed <;> simp [reached, active]

theorem prefix_of_reached {n : Node} {chain : List Relation} {located : List Relation × Node}
    (inside : located ∈ reached chain n) : chain <+: located.1 := by
  induction n generalizing chain with
  | field i name operator =>
    cases List.mem_singleton.mp inside
    exact List.prefix_rfl
  | relation i r children ih =>
    rcases mem_reached_relation.mp inside with rfl | ⟨-, below⟩
    · exact List.prefix_rfl
    · obtain ⟨n, member, deeper⟩ := mem_reachedAll.mp below
      exact (List.prefix_append chain [r]).trans (ih n member deeper)
  | group i connective branches ih =>
    rcases mem_reached_group.mp inside with rfl | ⟨-, below⟩
    · exact List.prefix_rfl
    · obtain ⟨branch, listed, n, member, deeper⟩ := mem_reachedBranches.mp below
      exact ih branch listed n member deeper

theorem within_of_reached {n : Node} {chain : List Relation} {located : List Relation × Node}
    (inside : located ∈ reached chain n) : located.2 ∈ n.within := by
  induction n generalizing chain with
  | field i name operator =>
    cases List.mem_singleton.mp inside
    exact mem_within_self _
  | relation i r children ih =>
    rcases mem_reached_relation.mp inside with rfl | ⟨-, below⟩
    · exact mem_within_self _
    · obtain ⟨n, member, deeper⟩ := mem_reachedAll.mp below
      exact List.mem_cons_of_mem _ (mem_withinAll.mpr ⟨n, member, ih n member deeper⟩)
  | group i connective branches ih =>
    rcases mem_reached_group.mp inside with rfl | ⟨-, below⟩
    · exact mem_within_self _
    · obtain ⟨branch, listed, n, member, deeper⟩ := mem_reachedBranches.mp below
      rw [within, withinBranches_eq]
      have within := mem_withinAll.mpr ⟨n, member, ih branch listed n member deeper⟩
      exact List.mem_cons_of_mem _ (List.mem_flatMap.mpr ⟨branch, listed, within⟩)

theorem Declared.reached {catalog : Catalog} {own : String → Node → Prop} {owner : String}
    {n m : Node} {chain : List Relation} (declared : Declared catalog own owner n)
    (inside : (chain, m) ∈ Node.reached chain n) : Declared catalog own owner m := by
  induction declared with
  | field self =>
    cases List.mem_singleton.mp inside
    exact .field self
  | relation self filled known below ih =>
    rcases mem_reached_relation.mp inside with same | ⟨-, deeper⟩
    · cases same
      exact .relation self filled known below
    · obtain ⟨n, -, within⟩ := mem_reachedAll.mp deeper
      have longer := (prefix_of_reached within).length_le
      simp only [List.length_append, List.length_singleton] at longer
      omega
  | group self below ih =>
    rcases mem_reached_group.mp inside with same | ⟨-, deeper⟩
    · cases same
      exact .group self below
    · obtain ⟨branch, listed, n, member, within⟩ := mem_reachedBranches.mp deeper
      exact ih branch listed n member within

def join? : List Relation × Node → Option Lookup
  | (chain, .relation i r children) =>
    if hasEffect (.relation i r children) then some (.along chain r) else none
  | _ => none

def chainJoins (chain : List Relation) (n : Node) : List Lookup := (reached chain n).filterMap join?

def allChainJoins (chain : List Relation) (ns : List Node) : List Lookup :=
  (reachedAll chain ns).filterMap join?

theorem allChainJoins_eq (chain : List Relation) (ns : List Node) :
    allChainJoins chain ns = ns.flatMap (chainJoins chain) := by
  simp only [allChainJoins, reachedAll_eq, List.filterMap_flatMap]
  rfl

theorem anyEffect_of_mem {ns : List Node} {n : Node} (inside : n ∈ ns)
    (effect : n.hasEffect = true) : anyEffect ns = true := by
  rw [anyEffect_eq]
  exact List.any_eq_true.mpr ⟨n, inside, effect⟩

theorem mem_allChainJoins {chain : List Relation} {ns : List Node} {join : Lookup} :
    join ∈ allChainJoins chain ns ↔ ∃ n ∈ ns, join ∈ chainJoins chain n := by
  rw [allChainJoins_eq, List.mem_flatMap]

theorem effect_below_relation {i : Info} {r : Relation} {children : List Node} {n : Node}
    (active : i.suppressed = false) (inside : n ∈ children) (effect : n.hasEffect = true) :
    (Node.relation i r children).hasEffect = true := by
  simp [hasEffect, active, anyEffect_of_mem inside effect]

theorem effect_below_group {i : Info} {connective : Connective} {branches : List (List Node)}
    {branch : List Node} {n : Node} (active : i.suppressed = false) (listed : branch ∈ branches)
    (inside : n ∈ branch) (effect : n.hasEffect = true) :
    (Node.group i connective branches).hasEffect = true := by
  have any : anyBranchEffect branches = true := by
    rw [anyBranchEffect_eq]
    exact List.any_eq_true.mpr ⟨branch, listed, anyEffect_of_mem inside effect⟩
  simp [hasEffect, active, any]

theorem hasEffect_of_reached {n : Node} {chain : List Relation} {located : List Relation × Node}
    (inside : located ∈ reached chain n) (effect : located.2.hasEffect = true) :
    n.hasEffect = true := by
  induction n generalizing chain with
  | field i name operator =>
    obtain rfl := List.mem_singleton.mp inside
    exact effect
  | relation i r children ih =>
    rcases mem_reached_relation.mp inside with rfl | ⟨active, below⟩
    · exact effect
    · obtain ⟨n, member, deeper⟩ := mem_reachedAll.mp below
      exact effect_below_relation active member (ih n member deeper)
  | group i connective branches ih =>
    rcases mem_reached_group.mp inside with rfl | ⟨active, below⟩
    · exact effect
    · obtain ⟨branch, listed, n, member, deeper⟩ := mem_reachedBranches.mp below
      exact effect_below_group active listed member (ih branch listed n member deeper)

theorem join?_some {located : List Relation × Node} {join : Lookup}
    (needed : join? located = some join) :
    ∃ i r children, located = (located.1, .relation i r children) ∧
      located.2.hasEffect = true ∧ join = .along located.1 r := by
  obtain ⟨chain, n⟩ := located
  cases n with
  | relation i r children =>
    simp only [join?, Option.ite_none_right_eq_some, Option.some.injEq] at needed
    exact ⟨i, r, children, rfl, needed.1, needed.2.symm⟩
  | _ => simp [join?] at needed

theorem chainJoins_of_no_effect {n : Node} (idle : n.hasEffect = false) (chain : List Relation) :
    chainJoins chain n = [] := by
  rw [chainJoins, List.filterMap_eq_nil_iff]
  intro located inside
  cases needed : join? located with
  | none => rfl
  | some join =>
    obtain ⟨-, -, -, -, effect, -⟩ := join?_some needed
    simp [hasEffect_of_reached inside effect] at idle

theorem active_of_hasEffect {n : Node} (effect : n.hasEffect = true) : n.suppressed = false := by
  cases n <;> simp_all [hasEffect]

theorem chainJoins_relation {i : Info} {r : Relation} {children : List Node}
    (effect : (Node.relation i r children).hasEffect = true) (chain : List Relation) :
    chainJoins chain (.relation i r children) =
      .along chain r :: allChainJoins (chain ++ [r]) children := by
  have active : i.suppressed = false := active_of_hasEffect effect
  simp [chainJoins, reached, active, join?, effect, allChainJoins]

@[simp] theorem allChainJoins_nil (chain : List Relation) : allChainJoins chain [] = [] := rfl

@[simp] theorem allChainJoins_cons (chain : List Relation) (n : Node) (rest : List Node) :
    allChainJoins chain (n :: rest) = chainJoins chain n ++ allChainJoins chain rest := by
  simp [allChainJoins, reachedAll, chainJoins]

theorem chainJoins_group {i : Info} {connective : Connective} {branches : List (List Node)}
    (active : i.suppressed = false) (chain : List Relation) :
    chainJoins chain (.group i connective branches) = branches.flatMap (allChainJoins chain) := by
  simp only [chainJoins, reached, active, Bool.false_eq_true, if_false, List.filterMap_cons, join?,
    reachedBranches_eq, List.filterMap_flatMap]
  rfl

theorem anyEmbeds_chain {chain : List Relation} {ns : List Node}
    (each : ∀ n ∈ ns, n.embedsRelation = false ↔ chainJoins chain n = []) :
    anyEmbeds ns = false ↔ allChainJoins chain ns = [] := by
  induction ns with
  | nil => simp [anyEmbeds]
  | cons n rest ih =>
    obtain ⟨first, others⟩ := List.forall_mem_cons.mp each
    rw [anyEmbeds, Bool.or_eq_false_iff, first, ih others, allChainJoins_cons,
      List.append_eq_nil_iff]

theorem anyBranchEmbeds_chain {chain : List Relation} {branches : List (List Node)}
    (each : ∀ branch ∈ branches, ∀ n ∈ branch,
      n.embedsRelation = false ↔ chainJoins chain n = []) :
    anyBranchEmbeds branches = false ↔ branches.flatMap (allChainJoins chain) = [] := by
  induction branches with
  | nil => simp [anyBranchEmbeds]
  | cons branch rest ih =>
    obtain ⟨first, others⟩ := List.forall_mem_cons.mp each
    rw [anyBranchEmbeds, Bool.or_eq_false_iff, anyEmbeds_chain first, ih others, List.flatMap_cons,
      List.append_eq_nil_iff]

theorem embedsRelation_eq_false (n : Node) (chain : List Relation) :
    n.embedsRelation = false ↔ chainJoins chain n = [] := by
  induction n generalizing chain with
  | field i name operator => exact ⟨fun _ => rfl, fun _ => rfl⟩
  | relation i r children =>
    cases effect : (Node.relation i r children).hasEffect with
    | true => simp [embedsRelation, effect, chainJoins_relation effect]
    | false => simp [embedsRelation, effect, chainJoins_of_no_effect effect]
  | group i connective branches ih =>
    cases effect : (Node.group i connective branches).hasEffect with
    | true =>
      have active : i.suppressed = false := active_of_hasEffect effect
      rw [embedsRelation, effect, Bool.true_and, chainJoins_group active]
      exact anyBranchEmbeds_chain fun branch listed n inside => ih branch listed n inside chain
    | false => simp [embedsRelation, effect, chainJoins_of_no_effect effect]

theorem embedsRelation_eq (n : Node) (chain : List Relation) :
    n.embedsRelation = !(chainJoins chain n).isEmpty := by
  have idle := embedsRelation_eq_false n chain
  cases chains : chainJoins chain n <;> simpa [chains] using idle

end Node

end DocQuery
