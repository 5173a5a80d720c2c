import DocQuery.Proofs.Chains

set_option autoImplicit false

namespace DocQuery

open Compile

structure JoinSite where
  chain : List Relation
  info : Node.Info
  relation : Relation

namespace JoinSite

def stagedPath (chain : List Relation) : String :=
  chain.foldl (fun path r => outputBelow path r.name) ""

def call (site : JoinSite) : JoinCall :=
  ⟨site.relation.name, joinParent site.info.collection (stagedPath site.chain)⟩

def output (site : JoinSite) : String := stagedPath (site.chain ++ [site.relation])

def join (site : JoinSite) : Lookup := .along site.chain site.relation

theorem stagedPath_snoc (chain : List Relation) (r : Relation) :
    stagedPath (chain ++ [r]) = outputBelow (stagedPath chain) r.name := by
  simp [stagedPath]

theorem stagedPath_chain {chain : List Relation} (filled : ∀ r ∈ chain, r.name ≠ "") :
    stagedPath chain = chainPath chain := by
  induction chain using List.reverseRecOn with
  | nil => rfl
  | append_singleton chain r ih =>
    have above : ∀ q ∈ chain, q.name ≠ "" := fun q inside => filled q (List.mem_append_left _ inside)
    rw [stagedPath_snoc, ih above, outputBelow_chain above]

theorem joinFor_output (site : JoinSite) {found : Relation}
    (named : found.name = site.relation.name) :
    (Staging.joinFor found { parent := site.call.parent }).output = site.output := by
  rw [output, stagedPath_snoc]
  by_cases root : stagedPath site.chain = ""
  · simp [Staging.joinFor, call, joinParent, outputBelow, root, named]
  · simp [Staging.joinFor, call, joinParent, outputBelow, root, named]

end JoinSite

namespace Node

def joinSite? : List Relation × Node → Option JoinSite
  | (chain, .relation i r children) =>
    if hasEffect (.relation i r children) then some ⟨chain, i, r⟩ else none
  | _ => none

def joinSites (chain : List Relation) (ns : List Node) : List JoinSite :=
  (reachedAll chain ns).filterMap joinSite?

def sitesOf (chain : List Relation) (n : Node) : List JoinSite :=
  (reached chain n).filterMap joinSite?

theorem joinSites_eq (chain : List Relation) (ns : List Node) :
    joinSites chain ns = ns.flatMap (sitesOf chain) := by
  simp only [joinSites, reachedAll_eq, List.filterMap_flatMap]
  rfl

theorem mem_joinSites {chain : List Relation} {ns : List Node} {site : JoinSite} :
    site ∈ joinSites chain ns ↔
      ∃ children, (site.chain, .relation site.info site.relation children) ∈ reachedAll chain ns ∧
        (Node.relation site.info site.relation children).hasEffect = true := by
  rw [joinSites, List.mem_filterMap]
  constructor
  · rintro ⟨⟨above, n⟩, inside, found⟩
    cases n with
    | relation i r children =>
      simp only [joinSite?, Option.ite_none_right_eq_some, Option.some.injEq] at found
      obtain ⟨effect, rfl⟩ := found
      exact ⟨children, inside, effect⟩
    | _ => simp [joinSite?] at found
  · rintro ⟨children, inside, effect⟩
    exact ⟨_, inside, by simp [joinSite?, effect]⟩

theorem join?_eq (located : List Relation × Node) :
    join? located = (joinSite? located).map JoinSite.join := by
  obtain ⟨chain, n⟩ := located
  cases n with
  | relation i r children =>
    simp only [join?, joinSite?]
    split <;> rfl
  | _ => rfl

theorem chainJoins_sites (chain : List Relation) (n : Node) :
    chainJoins chain n = (sitesOf chain n).map JoinSite.join := by
  simp only [chainJoins, sitesOf, List.map_filterMap, join?_eq]

theorem allChainJoins_sites (chain : List Relation) (ns : List Node) :
    allChainJoins chain ns = (joinSites chain ns).map JoinSite.join := by
  simp only [allChainJoins, joinSites, List.map_filterMap, join?_eq]

theorem sitesOf_eq_nil (n : Node) (chain : List Relation) :
    sitesOf chain n = [] ↔ n.embedsRelation = false := by
  rw [embedsRelation_eq_false n chain, chainJoins_sites, List.map_eq_nil_iff]

theorem sitesOf_of_no_effect {n : Node} (idle : n.hasEffect = false) (chain : List Relation) :
    sitesOf chain n = [] := by
  have none := chainJoins_of_no_effect idle chain
  rwa [chainJoins_sites, List.map_eq_nil_iff] at none

theorem sitesOf_relation {i : Info} {r : Relation} {children : List Node}
    (effect : (Node.relation i r children).hasEffect = true) (chain : List Relation) :
    sitesOf chain (.relation i r children) =
      ⟨chain, i, r⟩ :: joinSites (chain ++ [r]) children := by
  have active : i.suppressed = false := active_of_hasEffect effect
  simp [sitesOf, reached, active, joinSite?, effect, joinSites]

theorem sitesOf_group {i : Info} {connective : Connective} {branches : List (List Node)}
    (active : i.suppressed = false) (chain : List Relation) :
    sitesOf chain (.group i connective branches) = branches.flatMap (joinSites chain) := by
  simp only [sitesOf, reached, active, Bool.false_eq_true, if_false, List.filterMap_cons, joinSite?,
    reachedBranches_eq, List.filterMap_flatMap]
  rfl

theorem joinSites_joining (ns : List Node) :
    joinSites [] (joiningNodes ns) = joinSites [] ns := by
  induction ns with
  | nil => rfl
  | cons n rest ih =>
    simp only [joinSites_eq, joiningNodes] at ih ⊢
    cases embeds : n.embedsRelation with
    | true => rw [List.filter_cons_of_pos embeds, List.flatMap_cons, List.flatMap_cons, ih]
    | false =>
      rw [List.filter_cons_of_neg (by simp [embeds]), List.flatMap_cons,
        (sitesOf_eq_nil n []).mpr embeds, List.nil_append, ih]

theorem anyEmbeds_iff (ns : List Node) : anyEmbeds ns = true ↔ joinSites [] ns ≠ [] := by
  rw [anyEmbeds_eq, List.any_eq_true, joinSites_eq, ne_eq, List.flatMap_eq_nil_iff]
  simp only [sitesOf_eq_nil]
  constructor
  · rintro ⟨n, inside, embeds⟩ none
    exact absurd (none n inside) (by simp [embeds])
  · intro some
    by_contra none
    exact some fun n inside => Bool.eq_false_iff.mpr fun embeds => none ⟨n, inside, embeds⟩

end Node

namespace Compile

open Node

theorem allJoinCalls_eq (path : String) (ns : List Node) :
    allJoinCalls path ns = ns.flatMap (joinCalls path) := by
  induction ns with
  | nil => rfl
  | cons n rest ih => rw [allJoinCalls, ih, List.flatMap_cons]

theorem branchJoinCalls_eq (path : String) (branches : List (List Node)) :
    branchJoinCalls path branches = branches.flatMap (allJoinCalls path) := by
  induction branches with
  | nil => rfl
  | cons branch rest ih => rw [branchJoinCalls, ih, List.flatMap_cons]

theorem allJoinCalls_of {path : String} {chain : List Relation} {ns : List Node}
    (each : ∀ n ∈ ns, joinCalls path n = (sitesOf chain n).map JoinSite.call) :
    allJoinCalls path ns = (joinSites chain ns).map JoinSite.call := by
  rw [allJoinCalls_eq, joinSites_eq, List.map_flatMap]
  exact List.flatMap_congr each

theorem joinCalls_sites (n : Node) (standard : ∀ m ∈ n.within, m.Standard)
    (chain : List Relation) :
    joinCalls (JoinSite.stagedPath chain) n = (sitesOf chain n).map JoinSite.call := by
  induction n generalizing chain with
  | field i name operator => rfl
  | relation i r children ih =>
    simp only [within, List.forall_mem_cons, forall_withinAll, standard_relation] at standard
    cases effect : (Node.relation i r children).hasEffect with
    | false => simp [joinCalls, effect, sitesOf_of_no_effect effect]
    | true =>
      have below : allJoinCalls (JoinSite.stagedPath (chain ++ [r])) children =
          (joinSites (chain ++ [r]) children).map JoinSite.call :=
        allJoinCalls_of fun n inside => ih n inside (standard.2 n inside) (chain ++ [r])
      rw [JoinSite.stagedPath_snoc] at below
      simp [joinCalls, effect, standard.1, sitesOf_relation effect, below, JoinSite.call]
  | group i connective branches ih =>
    simp only [within, List.forall_mem_cons, forall_withinBranches, standard_group] at standard
    cases effect : (Node.group i connective branches).hasEffect with
    | false => simp [joinCalls, effect, sitesOf_of_no_effect effect]
    | true =>
      have active : i.suppressed = false := active_of_hasEffect effect
      have below : branchJoinCalls (JoinSite.stagedPath chain) branches =
          (branches.flatMap (joinSites chain)).map JoinSite.call := by
        rw [branchJoinCalls_eq, List.map_flatMap]
        exact List.flatMap_congr fun branch listed => allJoinCalls_of fun n inside =>
          ih branch listed n inside (standard.2 branch listed n inside) chain
      simp [joinCalls, effect, standard.1, sitesOf_group active, below]

theorem joiningNodes_calls {ns : List Node} (standard : ∀ m ∈ withinAll ns, m.Standard) :
    allJoinCalls "" (joiningNodes ns) = (joinSites [] ns).map JoinSite.call := by
  have joining : ∀ m ∈ withinAll (joiningNodes ns), m.Standard := withinAll_filter standard _
  rw [← joinSites_joining]
  exact allJoinCalls_of fun n inside =>
    joinCalls_sites n (forall_withinAll.mp joining n inside) []

theorem joinNodes_sites {ns : List Node} (standard : ∀ m ∈ withinAll ns, m.Standard) (s : Staging) :
    joinNodes "" (joiningNodes ns) s = ((joinSites [] ns).map JoinSite.call).foldlM performCall s := by
  rw [joinNodes_calls, joiningNodes_calls standard]

theorem stage_sites {ns : List Node} (standard : ∀ m ∈ withinAll ns, m.Standard) (s : Staging) :
    (stage ns s).result = do
      let before ← plainPredicate "" (plainNodes ns)
      let joins ← (joinSites [] ns).mapM fun site => site.call.resolve s
      let after ← plainPredicate "" (joiningNodes ns)
      return ((s.filter before).addJoins joins).filter after := by
  rw [stage_result standard, joiningNodes_calls standard, List.mapM_map]
  rfl

theorem parts_of_stage {ns : List Node} (standard : ∀ m ∈ withinAll ns, m.Standard) {s t : Staging}
    (staged : (stage ns s).result = .ok t) :
    ∃ before joins after, plainPredicate "" (plainNodes ns) = .ok before ∧
      (joinSites [] ns).mapM (fun site => site.call.resolve s) = .ok joins ∧
      plainPredicate "" (joiningNodes ns) = .ok after ∧
      t = ((s.filter before).addJoins joins).filter after := by
  rw [stage_sites standard] at staged
  simp only [Outcome.bind_eq_ok] at staged
  obtain ⟨before, first, joins, resolved, after, last, made⟩ := staged
  cases made
  exact ⟨before, joins, after, first, resolved, last, rfl⟩

end Compile

def chainOwner (root : String) (chain : List Relation) : String :=
  (chain.getLast?.map (·.target)).getD root

@[simp] theorem chainOwner_snoc (root : String) (chain : List Relation) (r : Relation) :
    chainOwner root (chain ++ [r]) = r.target := by
  simp [chainOwner]

namespace Node

variable {catalog : Catalog} {root : String} {chain : List Relation} {n m : Node}

theorem Declared.located (declared : Declared catalog Home (chainOwner root chain) n)
    (filled : ∀ r ∈ chain, r.name ≠ "") {located : List Relation × Node}
    (inside : located ∈ Node.reached chain n) :
    (∀ r ∈ located.1, r.name ≠ "") ∧
      Declared catalog Home (chainOwner root located.1) located.2 := by
  induction n generalizing chain with
  | field i name operator =>
    cases List.mem_singleton.mp inside
    exact ⟨filled, declared⟩
  | relation i r children ih =>
    rcases mem_reached_relation.mp inside with rfl | ⟨-, below⟩
    · exact ⟨filled, declared⟩
    · obtain ⟨n, member, deeper⟩ := mem_reachedAll.mp below
      cases declared with
      | relation self named known inner =>
        have extended : ∀ q ∈ chain ++ [r], q.name ≠ "" := by
          simpa [or_imp, forall_and] using ⟨filled, named⟩
        exact ih n member (by simpa using inner n member) extended deeper
  | group i connective branches ih =>
    rcases mem_reached_group.mp inside with rfl | ⟨-, below⟩
    · exact ⟨filled, declared⟩
    · obtain ⟨branch, listed, n, member, deeper⟩ := mem_reachedBranches.mp below
      cases declared with
      | group self inner => exact ih branch listed n member (inner branch listed n member) filled deeper

end Node

namespace JoinSite

structure Agrees (catalog : Catalog) (root : String) (site : JoinSite) : Prop where
  home : site.info.collection = chainOwner root site.chain
  known : catalog.relation? site.info.collection site.relation.name = some site.relation
  filled : ∀ r ∈ site.chain, r.name ≠ ""

variable {catalog : Catalog} {root : String} {site : JoinSite} {s : Staging}

theorem Agrees.owner (agrees : site.Agrees catalog root) (collection : s.collection = root) :
    site.call.owner s = site.info.collection := by
  rw [call, stagedPath_chain agrees.filled]
  by_cases top : site.chain = []
  · have home : site.info.collection = root := by simpa [top, chainOwner] using agrees.home
    simp [JoinCall.owner, joinParent, (chainPath_eq_empty agrees.filled).mpr top, collection, home]
  · simp [JoinCall.owner, joinParent, mt (chainPath_eq_empty agrees.filled).mp top]

theorem Agrees.resolve (agrees : site.Agrees s.catalog s.collection) :
    site.call.resolve s = .ok site.join := by
  rw [JoinCall.resolve, agrees.owner rfl]
  simp only [call, agrees.known, stagedPath_chain agrees.filled, joinFor_chain agrees.filled]
  rfl

end JoinSite

theorem Node.joinSites_agree {catalog : Catalog} {root : String} {nodes : List Node}
    (declared : ∀ n ∈ nodes, Declared catalog Home root n) :
    ∀ site ∈ joinSites [] nodes, site.Agrees catalog root := by
  intro site inside
  obtain ⟨children, reached, -⟩ := mem_joinSites.mp inside
  obtain ⟨top, listed, below⟩ := mem_reachedAll.mp reached
  have start : Declared catalog Home (chainOwner root []) top := declared top listed
  obtain ⟨filled, located⟩ := start.located (by simp) below
  have home : site.info.collection = chainOwner root site.chain := located.self
  cases located with
  | relation self named known below => exact ⟨home, home ▸ known, filled⟩

theorem Node.sites_resolve {nodes : List Node} {s : Staging}
    (agree : ∀ site ∈ joinSites [] nodes, site.Agrees s.catalog s.collection) :
    (joinSites [] nodes).mapM (fun site => site.call.resolve s) =
      .ok ((joinSites [] nodes).map JoinSite.join) := by
  rw [Outcome.mapM_eq_ok, List.map_map]
  exact List.map_congr_left fun site inside => (agree site inside).resolve

open Node in
theorem Compile.parts_of_declared {nodes : List Node} {s t : Staging}
    (declared : ∀ n ∈ nodes, Declared s.catalog Home s.collection n)
    (standard : ∀ m ∈ withinAll nodes, m.Standard) (staged : (stage nodes s).result = .ok t) :
    ∃ before after, plainPredicate "" (plainNodes nodes) = .ok before ∧
      plainPredicate "" (joiningNodes nodes) = .ok after ∧
      t = ((s.filter before).addJoins ((joinSites [] nodes).map JoinSite.join)).filter after := by
  obtain ⟨before, joins, after, first, resolved, last, made⟩ := parts_of_stage standard staged
  have own := sites_resolve (joinSites_agree declared)
  obtain rfl := Except.ok.inj (own.symm.trans resolved)
  exact ⟨before, after, first, last, made⟩

end DocQuery
