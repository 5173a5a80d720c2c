import DocQuery.Proofs.DirectRead
import DocQuery.Proofs.Routing

set_option autoImplicit false

namespace DocQuery

open Staging

def Stage.Filled : Stage → Prop
  | .filter p => p ≠ []
  | .sort keys => keys ≠ []
  | _ => True

theorem Stage.HasContent.filled {stage : Stage} (content : stage.HasContent) : stage.Filled := by
  cases stage with
  | filter p => exact content
  | sort keys => exact content
  | _ => trivial

theorem Staging.filled_matchStages (p : Predicate) : ∀ stage ∈ matchStages p, stage.Filled :=
  fun stage inside => (plain_matchStages p stage inside).content.filled

theorem Lookup.filled_stages (join : Lookup) : ∀ stage ∈ join.stages, stage.Filled :=
  fun stage inside => (join.content_stages stage inside).filled

structure FilterPart where
  nodes : List Node
  before : Predicate
  joins : List Lookup
  after : Predicate

namespace FilterPart

def stages (part : FilterPart) : List Stage :=
  matchStages part.before ++ part.joins.flatMap Lookup.stages ++ matchStages part.after

theorem filled_stages (part : FilterPart) : ∀ stage ∈ part.stages, stage.Filled := by
  simp only [stages, List.forall_mem_append, List.mem_flatMap]
  refine ⟨⟨filled_matchStages _, ?_⟩, filled_matchStages _⟩
  rintro stage ⟨join, -, inside⟩
  exact join.filled_stages stage inside

structure Of (part : FilterPart) (c : FilterCompiler) (collection : String) (filter : Json) :
    Prop where
  parsed : (c.parse collection filter).result = .ok part.nodes
  early : ∀ u, (Compile.predicate (Compile.plainNodes part.nodes) "" u).result =
    .ok ⟨part.before, u⟩
  late : ∀ u, (Compile.predicate (Compile.joiningNodes part.nodes) "" u).result =
    .ok ⟨part.after, u⟩
  needed : part.joins ≠ [] ↔ Node.anyEmbeds part.nodes = true

def Makes (part : FilterPart) : CompiledFilter → Prop
  | .predicate p => part.joins = [] ∧ p = part.before
  | .staged s => part.joins ≠ [] ∧ s.stages = part.stages

end FilterPart

def ReadKind.windowStages (pivotMatch : Predicate) (args : PageArgs) : ReadKind → List Stage
  | .findMany =>
    matchStages pivotMatch ++ (if args.orderBy = [] then [] else [.sort args.orderBy]) ++
      (args.skip.filter (0 < ·)).toList.map .skip ++ args.first.toList.map .limit
  | .findOne => [.limit 1]
  | .count => [.count "count"]

theorem ReadKind.filled_windowStages (kind : ReadKind) (pivotMatch : Predicate) (args : PageArgs) :
    ∀ stage ∈ kind.windowStages pivotMatch args, stage.Filled := by
  cases kind with
  | findMany =>
    simp only [windowStages, List.forall_mem_append, List.forall_mem_map]
    refine ⟨⟨⟨filled_matchStages _, ?_⟩, fun _ _ => trivial⟩, fun _ _ => trivial⟩
    split
    next => simp
    next filled => rwa [List.forall_mem_singleton]
  | findOne => simp [windowStages, Stage.Filled]
  | count => simp [windowStages, Stage.Filled]

namespace Compile

theorem predicate_of_plainPredicate {ns : List Node}
    (standard : ∀ m ∈ Node.withinAll ns, m.Standard) {scope : String} {p : Predicate}
    (compiled : plainPredicate scope ns = .ok p) (u : Staging) :
    (predicate ns scope u).result = .ok ⟨p, u⟩ := by
  rw [predicate_exact standard, Traced.result_lift, compiled]
  rfl

end Compile

namespace FilterCompiler

theorem compile_part (c : FilterCompiler) {collection : String} {filter : Json}
    (plain : ∀ v ∈ c.visitors, v.AttachesNone c.parser) {compiled : CompiledFilter}
    (found : (c.compile collection filter).result = .ok compiled) :
    ∃ part : FilterPart, part.Of c collection filter ∧ part.Makes compiled := by
  simp only [compile, Traced.result_bind, Outcome.bind_eq_ok] at found
  obtain ⟨nodes, parsed, compiling⟩ := found
  have standard := c.parse_attaches_none plain parsed
  have early := Compile.withinAll_filter standard fun n => !n.embedsRelation
  have late := Compile.withinAll_filter standard Node.embedsRelation
  rw [c.compileNodes_result collection standard] at compiling
  split at compiling
  next embeds =>
    obtain ⟨t, staged, rfl⟩ := Outcome.map_eq_ok.mp compiling
    obtain ⟨before, joins, after, first, resolved, last, rfl⟩ :=
      Compile.parts_of_stage standard staged
    have some : joins ≠ [] := by
      rw [← List.length_pos_iff, Outcome.length_of_mapM resolved, List.length_pos_iff]
      exact (Node.anyEmbeds_iff nodes).mp embeds
    have new : newJoins c.config.deduplicateJoins [] joins ≠ [] :=
      mt (newJoins_eq_nil _ _).mp some
    refine ⟨⟨nodes, before, newJoins c.config.deduplicateJoins [] joins, after⟩,
      ⟨parsed, ?_, ?_, iff_of_true new embeds⟩, new, ?_⟩
    · exact Compile.predicate_of_plainPredicate early first
    · exact Compile.predicate_of_plainPredicate late last
    · simp [FilterPart.stages, addJoins_stages, newPipeline, lookups]
  next direct =>
    have direct : Node.anyEmbeds nodes = false := by simpa using direct
    obtain ⟨before, first, rfl⟩ := Outcome.map_eq_ok.mp compiling
    refine ⟨⟨nodes, before, [], []⟩, ⟨parsed, ?_, ?_, by simp [direct]⟩, rfl, rfl⟩
    · simp only [Compile.plainNodes_eq_self direct]
      exact Compile.predicate_of_plainPredicate standard first
    · simp only [Compile.joiningNodes_eq_nil direct]
      intro u
      rfl

end FilterCompiler

namespace Planner

theorem windowFor_pivotMatch (p : Planner) {kind : ReadKind} {args : PageArgs}
    {pivot : Option Json} {window : Window} (accepted : p.windowFor kind args pivot = .ok window)
    (unpaged : kind ≠ .findMany) : window.pivotMatch = [] := by
  cases kind with
  | findMany => exact absurd rfl unpaged
  | findOne | count =>
    cases accepted
    rfl

theorem windowFor_stages (p : Planner) {kind : ReadKind} {args : PageArgs} {pivot : Option Json}
    {window : Window} (accepted : p.windowFor kind args pivot = .ok window) :
    matchStages window.pivotMatch ++ window.cut ++ (if kind = .count then [.count countField] else []) =
      kind.windowStages window.pivotMatch args := by
  cases kind with
  | findMany =>
    simp only [windowFor, Window.ofArgs, Outcome.bind_eq_ok] at accepted
    obtain ⟨-, -, pivotMatch, -, made⟩ := accepted
    cases made
    simp [Window.cut, ReadKind.windowStages]
  | findOne | count =>
    cases accepted
    rfl

end Planner

def FilterPart.Ordered (part : FilterPart) (kind : ReadKind) (args : PageArgs) (window : Window) :
    Plan → Prop
  | .aggregate q =>
    part.joins ≠ [] ∧ q.stages = part.stages ++ kind.windowStages window.pivotMatch args ∧
      ∀ stage ∈ q.stages, stage.Filled
  | .direct r => part.joins = [] ∧ r.filter = part.before.mergeAll window.pivotMatch

namespace Planner

theorem finish_staged (kind : ReadKind) (collection : String) (window : Window) (s : Staging) :
    ∃ q, (finish kind collection window (.staged s)).plan = .aggregate q ∧
      q.stages = s.stages ++ (matchStages window.pivotMatch ++ window.cut ++
        if kind = .count then [.count countField] else []) := by
  refine ⟨_, rfl, ?_⟩
  cases kind <;> simp [Staging.finish, Staging.count, append, window.appendTo_stages]

theorem finish_ordered (p : Planner) {part : FilterPart} {compiled : CompiledFilter}
    (makes : part.Makes compiled) {kind : ReadKind} (collection : String) {args : PageArgs}
    {pivot : Option Json} {window : Window}
    (accepted : p.windowFor kind args pivot = .ok window) :
    part.Ordered kind args window (finish kind collection window compiled).plan := by
  cases compiled with
  | predicate filter =>
    obtain ⟨direct, rfl⟩ := makes
    exact ⟨direct, rfl⟩
  | staged s =>
    obtain ⟨joined, made⟩ := makes
    obtain ⟨q, planned, staged⟩ := finish_staged kind collection window s
    have stages : q.stages = part.stages ++ kind.windowStages window.pivotMatch args := by
      rw [staged, made, p.windowFor_stages accepted]
    rw [planned]
    refine ⟨joined, stages, ?_⟩
    rw [stages, List.forall_mem_append]
    exact ⟨part.filled_stages, kind.filled_windowStages _ _⟩

/-- Every pipeline planned for a filter has the stages of the filter, the same for every kind of
read, and then those of the window of the read. -/
theorem stage_order (p : Planner) (plain : ∀ v ∈ p.visitors, v.AttachesNone p.compiler.parser)
    (collection : String) (filter : Json) :
    ∃ part : FilterPart, ∀ kind args pivot planned,
      (p.plan kind collection filter args pivot).result = .ok planned →
        part.Of p.compiler collection filter ∧
        ∃ window, p.windowFor kind args pivot = .ok window ∧
          (kind ≠ .findMany → window.pivotMatch = []) ∧
          part.Ordered kind args window planned.plan := by
  cases found : (p.compiler.compile collection filter).result with
  | error e =>
    refine ⟨⟨[], [], [], []⟩, fun kind args pivot planned result => ?_⟩
    simp [plan_result, found, Outcome.bind_eq_ok] at result
  | ok compiled =>
    obtain ⟨part, of_, makes⟩ := p.compiler.compile_part (visitors_attach_none plain) found
    refine ⟨part, fun kind args pivot planned result => ⟨of_, ?_⟩⟩
    simp only [plan_result, found, Outcome.ok_bind, Outcome.bind_eq_ok] at result
    obtain ⟨window, accepted, made⟩ := result
    cases made
    exact ⟨window, accepted, p.windowFor_pivotMatch accepted, p.finish_ordered makes collection accepted⟩

theorem joiningFilter_ordered :
    (∀ v ∈ joining.visitors, v.AttachesNone joining.compiler.parser) ∧
    ∃ (part : FilterPart) (planned : Planned) (window : Window),
      (joining.plan .findMany "Post" joiningFilter { skip := some 0, first := some 10 } none).result =
        .ok planned ∧ planned.plan.isDirect = false ∧
      part.Of joining.compiler "Post" joiningFilter ∧
      part.Ordered .findMany { skip := some 0, first := some 10 } window planned.plan := by
  have planned : ∃ planned,
      (joining.plan .findMany "Post" joiningFilter { skip := some 0, first := some 10 } none).result =
        .ok planned ∧ planned.plan.isDirect = false := ⟨_, rfl, rfl⟩
  obtain ⟨planned, found, pipelined⟩ := planned
  obtain ⟨part, ordered⟩ :=
    joining.stage_order joining_attaches_none "Post" joiningFilter
  obtain ⟨read, window, -, -, stages⟩ := ordered _ _ _ _ found
  exact ⟨joining_attaches_none, part, planned, window, found, pipelined, read, stages⟩

end Planner

end DocQuery
