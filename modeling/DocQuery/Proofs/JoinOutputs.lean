import DocQuery.Proofs.CatalogAgreement
import DocQuery.Proofs.JoinOrder
import Mathlib.Data.List.Nodup

set_option autoImplicit false

namespace DocQuery

open Text

namespace JoinSite

def route (site : JoinSite) : List Relation := site.chain ++ [site.relation]

def Undotted (site : JoinSite) : Prop := ∀ name ∈ site.route.map (·.name), '.' ∉ name.toList

variable {catalog : Catalog} {root : String} {site first second : JoinSite}

theorem route_ne_nil (site : JoinSite) : site.route ≠ [] := by simp [route]

theorem relation_of_route (same : first.route = second.route) : first.relation = second.relation :=
  (List.append_singleton_inj.mp same).2

theorem output_eq (filled : ∀ r ∈ site.chain, r.name ≠ "") :
    site.output = joinPath (site.route.map (·.name)) := by
  rw [output, stagedPath_snoc, stagedPath_chain filled, outputBelow_chain filled, chainPath, route]

theorem join_kind (agrees : site.Agrees catalog root) :
    site.join.kind = (site.relation, site.output) := by
  rw [output_eq agrees.filled, route, List.map_append, List.map_singleton]
  rfl

theorem route_of_output (here : first.Agrees catalog root) (there : second.Agrees catalog root)
    (toFirst : catalog.Leads root first.route first.relation.target)
    (toSecond : catalog.Leads root second.route second.relation.target)
    (undotted : first.Undotted) (other : second.Undotted) (same : first.output = second.output) :
    first.route = second.route := by
  rw [output_eq here.filled, output_eq there.filled] at same
  have names := congrArg (segments '.') same
  rw [segments_joinPath (by simp [route_ne_nil]) undotted,
    segments_joinPath (by simp [route_ne_nil]) other] at names
  have within : first.route <+: second.route :=
    toFirst.prefix_of_names toSecond (names ▸ List.prefix_rfl)
  have lengths := congrArg List.length names
  exact within.eq_of_length (by simpa using lengths)

end JoinSite

namespace Node

variable {catalog : Catalog} {root owner : String} {chain : List Relation} {n : Node}

theorem Declared.leads (declared : Declared catalog Home owner n)
    (leads : catalog.Leads root chain owner) {located : List Relation × Node}
    (inside : located ∈ Node.reached chain n) :
    catalog.Leads root located.1 located.2.info.collection := by
  induction declared generalizing chain with
  | field self =>
    cases List.mem_singleton.mp inside
    exact self ▸ leads
  | relation self filled known below ih =>
    rcases mem_reached_relation.mp inside with rfl | ⟨-, deeper⟩
    · exact self ▸ leads
    · obtain ⟨n, member, within⟩ := mem_reachedAll.mp deeper
      exact ih n member (leads.snoc known) within
  | group self below ih =>
    rcases mem_reached_group.mp inside with rfl | ⟨-, deeper⟩
    · exact self ▸ leads
    · obtain ⟨branch, listed, n, member, within⟩ := mem_reachedBranches.mp deeper
      exact ih branch listed n member leads within

theorem joinSites_lead {nodes : List Node} (declared : ∀ n ∈ nodes, Declared catalog Home root n) :
    ∀ site ∈ joinSites [] nodes, catalog.Leads root site.route site.relation.target := by
  intro site inside
  have agrees := joinSites_agree declared site inside
  obtain ⟨children, reached, -⟩ := mem_joinSites.mp inside
  obtain ⟨top, listed, below⟩ := mem_reachedAll.mp reached
  have start : catalog.Leads root [] root := rfl
  have above : catalog.Leads root site.chain site.info.collection :=
    (declared top listed).leads start below
  exact above.snoc agrees.known

end Node

theorem Staging.newJoins_distinct (staged joins : List Lookup) :
    ((newJoins true staged joins).map Lookup.kind).Nodup := by
  induction joins generalizing staged with
  | nil => exact List.nodup_nil
  | cons join rest ih =>
    unfold newJoins
    split
    next => exact ih staged
    next =>
      rw [List.map_cons, List.nodup_cons]
      refine ⟨?_, ih (staged ++ [join])⟩
      intro again
      obtain ⟨later, inside, same⟩ := List.mem_map.mp again
      exact newJoins_fresh inside (by simp [same])

namespace Compile

open Node

structure OutputsApart (nodes : List Node) (joins : List Lookup) : Prop where
  kinds : joins.map Lookup.kind =
    ((joinSites [] nodes).map fun site => (site.relation, site.output)).eraseDups
  exact : (joins.map (·.output)).Nodup ↔
    ∀ first ∈ joinSites [] nodes, ∀ second ∈ joinSites [] nodes,
      first.output = second.output → first.relation = second.relation
  routes : ∀ first ∈ joinSites [] nodes, ∀ second ∈ joinSites [] nodes, first.Undotted →
    second.Undotted → first.output = second.output → first.route = second.route
  distinct : (∀ site ∈ joinSites [] nodes, site.Undotted) → (joins.map (·.output)).Nodup

variable {catalog : Catalog} {root : String} {nodes : List Node} {joins : List Lookup}

theorem siteJoins_kinds (agree : ∀ site ∈ joinSites [] nodes, site.Agrees catalog root) :
    (Staging.newJoins true [] ((joinSites [] nodes).map JoinSite.join)).map Lookup.kind =
      ((joinSites [] nodes).map fun site => (site.relation, site.output)).eraseDups := by
  have sites : ((joinSites [] nodes).map JoinSite.join).map Lookup.kind =
      (joinSites [] nodes).map fun site => (site.relation, site.output) := by
    rw [List.map_map]
    exact List.map_congr_left fun site inside => JoinSite.join_kind (agree site inside)
  rw [Staging.newJoins_kinds, sites]
  simp

theorem nodup_outputs (distinct : (joins.map Lookup.kind).Nodup)
    (kinds : joins.map Lookup.kind =
      ((joinSites [] nodes).map fun site => (site.relation, site.output)).eraseDups) :
    (joins.map (·.output)).Nodup ↔
      ∀ first ∈ joinSites [] nodes, ∀ second ∈ joinSites [] nodes,
        first.output = second.output → first.relation = second.relation := by
  have outputs : joins.map (·.output) = (joins.map Lookup.kind).map Prod.snd := by
    simp [Lookup.kind]
  rw [outputs, List.nodup_map_iff_inj_on distinct, kinds]
  simp only [List.mem_eraseDups, List.forall_mem_map, Prod.mk.injEq]
  refine forall₄_congr fun first _ second _ => forall_congr' fun same => ?_
  exact and_iff_left same

theorem outputsApart_of_declared (declared : ∀ n ∈ nodes, Declared catalog Home root n) :
    OutputsApart nodes
      (Staging.newJoins true [] ((joinSites [] nodes).map JoinSite.join)) := by
  have agree := joinSites_agree declared
  have lead := joinSites_lead declared
  have kinds := siteJoins_kinds agree
  have exact := nodup_outputs (Staging.newJoins_distinct [] _) kinds
  have routes : ∀ first ∈ joinSites [] nodes, ∀ second ∈ joinSites [] nodes, first.Undotted →
      second.Undotted → first.output = second.output → first.route = second.route := by
    intro first inside second listed undotted other same
    exact JoinSite.route_of_output (agree first inside) (agree second listed) (lead first inside)
      (lead second listed) undotted other same
  refine ⟨kinds, exact, routes, fun undotted => exact.mpr ?_⟩
  intro first inside second listed same
  exact JoinSite.relation_of_route
    (routes first inside second listed (undotted first inside) (undotted second listed) same)

end Compile

/-- With deduplication there is one join for each relation and output. Two joins can have one output
only where a relation on the way has a dot in its name; without dots, different ways from the
collection have different outputs. -/
theorem FilterCompiler.outputs_apart {c : FilterCompiler}
    (inPlace : ∀ v ∈ c.visitors, v.InPlace c.parser)
    (deduplicate : c.config.deduplicateJoins = true) {collection : String} {filter : Json}
    (standard : ∀ nodes, (c.parse collection filter).result = .ok nodes →
      ∀ m ∈ Node.withinAll nodes, m.Standard)
    {s : Staging} (compiled : (c.compilePipeline collection filter).result = .ok s) :
    ∃ nodes, (c.parse collection filter).result = .ok nodes ∧
      Compile.OutputsApart nodes s.lookups := by
  rw [c.compilePipeline_stage standard] at compiled
  obtain ⟨nodes, parsed, staged⟩ := Outcome.bind_eq_ok.mp compiled
  have declared : ∀ n ∈ nodes, Node.Declared c.catalog Node.Home collection n :=
    c.parse_home inPlace parsed
  obtain ⟨before, after, -, -, rfl⟩ := Compile.parts_of_declared (s := c.newPipeline collection)
    declared (standard nodes parsed) staged
  have empty : (c.newPipeline collection).lookups = [] := rfl
  have on : (c.newPipeline collection).deduplicate = true := deduplicate
  refine ⟨nodes, parsed, ?_⟩
  simpa [empty, on] using Compile.outputsApart_of_declared declared

theorem wrappingCompiler_outputs_apart :
    (∀ v ∈ wrappingCompiler.visitors, v.InPlace wrappingCompiler.parser) ∧
    ∃ s, (wrappingCompiler.compilePipeline "Post" joiningFilter).result = .ok s ∧
      s.lookups.map (·.output) = ["author", "author.company"] ∧
      ∃ nodes, (wrappingCompiler.parse "Post" joiningFilter).result = .ok nodes ∧
        Compile.OutputsApart nodes s.lookups := by
  have inPlace := fun v listed => (wrappingCompiler_contained v listed).inPlace
  have plain := fun v listed => (wrappingCompiler_contained v listed).attachesNone
  have standard : ∀ nodes, (wrappingCompiler.parse "Post" joiningFilter).result = .ok nodes →
      ∀ m ∈ Node.withinAll nodes, m.Standard :=
    fun _ parsed => wrappingCompiler.parse_attaches_none plain parsed
  have outputs : (wrappingCompiler.compilePipeline "Post" joiningFilter).result.map
      (fun s => s.lookups.map (·.output)) = .ok ["author", "author.company"] := by decide +kernel
  obtain ⟨s, compiled, outputs⟩ := Outcome.map_eq_ok.mp outputs
  exact ⟨inPlace, s, compiled, outputs,
    FilterCompiler.outputs_apart inPlace rfl standard compiled⟩

def authorRelation : Relation := ⟨"author", "User", "authorId", "_id", .one⟩

def companyRelation : Relation := ⟨"company", "Company", "companyId", "_id", .one⟩

def houseRelation : Relation := ⟨"author.company", "Publisher", "houseId", "_id", .one⟩

def Catalog.crossed : Catalog :=
  ⟨[("Post", authorRelation), ("User", companyRelation), ("Post", houseRelation)]⟩

def crossedFilter : Json :=
  .obj [("author", .obj [("company", .obj [("name", .str "Acme")])]),
    ("author.company", .obj [("name", .str "Acme")])]

def crossedCompiler : FilterCompiler := ⟨.crossed, [], {}⟩

theorem crossedFilter_outputs_meet :
    (do
      let catalog ← Catalog.empty.register "Post" authorRelation
      let catalog ← catalog.register "User" companyRelation
      catalog.register "Post" houseRelation) = .ok Catalog.crossed ∧
    crossedCompiler.config.deduplicateJoins = true ∧
    ∃ s, (crossedCompiler.compilePipeline "Post" crossedFilter).result = .ok s ∧
      s.lookups.map Lookup.kind =
        [(authorRelation, "author"), (companyRelation, "author.company"),
          (houseRelation, "author.company")] ∧
      ¬ (s.lookups.map (·.output)).Nodup :=
  ⟨rfl, rfl, _, rfl, rfl, by decide⟩

end DocQuery
