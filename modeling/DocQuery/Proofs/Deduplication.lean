import DocQuery.Proofs.Building
import DocQuery.Proofs.JoinStructure

set_option autoImplicit false

namespace DocQuery

open Compile

namespace Stage

def filter? : Stage → Option Predicate
  | filter predicate => some predicate
  | _ => none

def withoutRepeats (seen : List (Relation × String)) (dropped : Bool) : List Stage → List Stage
  | [] => []
  | .lookup join :: rest =>
    if seen.contains join.kind then withoutRepeats seen true rest
    else .lookup join :: withoutRepeats (seen ++ [join.kind]) false rest
  | .fold output :: rest =>
    if dropped then withoutRepeats seen false rest
    else .fold output :: withoutRepeats seen false rest
  | stage :: rest => stage :: withoutRepeats seen false rest

variable (seen : List (Relation × String)) (dropped : Bool)

theorem filterMap_withoutRepeats {α : Type} {read : Stage → Option α}
    (joinless : ∀ join, read (.lookup join) = none)
    (foldless : ∀ output, read (.fold output) = none)
    (stages : List Stage) :
    (withoutRepeats seen dropped stages).filterMap read = stages.filterMap read := by
  induction stages generalizing seen dropped with
  | nil => rfl
  | cons stage rest ih =>
    cases stage with
    | lookup join =>
      rw [withoutRepeats, List.filterMap_cons_none (joinless join)]
      split
      next => exact ih seen true
      next => rw [List.filterMap_cons_none (joinless join), ih]
    | fold output =>
      rw [withoutRepeats, List.filterMap_cons_none (foldless output)]
      split
      next => exact ih seen false
      next => rw [List.filterMap_cons_none (foldless output), ih]
    | _ => simp only [withoutRepeats, List.filterMap_cons, ih]

@[simp] theorem withoutRepeats_matchStages (p : Predicate) :
    withoutRepeats seen dropped (Staging.matchStages p) = Staging.matchStages p := by
  unfold Staging.matchStages
  split <;> rfl

theorem withoutRepeats_match_append (p : Predicate) (rest : List Stage) :
    withoutRepeats seen false (Staging.matchStages p ++ rest) =
      Staging.matchStages p ++ withoutRepeats seen false rest := by
  unfold Staging.matchStages
  split <;> rfl

theorem withoutRepeats_of_seen {join : Lookup} (repeated : seen.contains join.kind = true)
    (rest : List Stage) :
    withoutRepeats seen dropped (join.stages ++ rest) =
      withoutRepeats seen (!join.relation.isOne) rest := by
  unfold Lookup.stages
  cases join.relation.isOne <;>
    simp only [Bool.false_eq_true, if_true, if_false, List.cons_append, List.nil_append,
      withoutRepeats, repeated, Bool.not_false, Bool.not_true]

theorem withoutRepeats_of_unseen {join : Lookup} (fresh : seen.contains join.kind = false)
    (rest : List Stage) :
    withoutRepeats seen dropped (join.stages ++ rest) =
      join.stages ++ withoutRepeats (seen ++ [join.kind]) false rest := by
  unfold Lookup.stages
  cases join.relation.isOne <;>
    simp only [Bool.false_eq_true, if_true, if_false, List.cons_append, List.nil_append,
      withoutRepeats, fresh]

theorem withoutRepeats_joins (staged joins : List Lookup) (p : Predicate) :
    withoutRepeats (staged.map Lookup.kind) dropped
        (joins.flatMap Lookup.stages ++ Staging.matchStages p) =
      (Staging.newJoins true staged joins).flatMap Lookup.stages ++ Staging.matchStages p := by
  induction joins generalizing staged dropped with
  | nil => simp [Staging.newJoins]
  | cons join rest ih =>
    rw [List.flatMap_cons, List.append_assoc, Staging.newJoins, Bool.true_and, Staging.any_sameJoin]
    cases known : (staged.map Lookup.kind).contains join.kind with
    | true =>
      rw [withoutRepeats_of_seen _ _ known, ih, if_pos rfl]
    | false =>
      have grown := ih false (staged ++ [join])
      rw [List.map_append, List.map_singleton] at grown
      rw [withoutRepeats_of_unseen _ _ known, grown, if_neg Bool.false_ne_true, List.flatMap_cons,
        List.append_assoc]

end Stage

namespace Staging

def deduplicating (s : Staging) (on : Bool) : Staging := { s with deduplicate := on }

@[simp] theorem deduplicating_deduplicate (s : Staging) (on : Bool) :
    (s.deduplicating on).deduplicate = on := rfl

@[simp] theorem deduplicating_stages (s : Staging) (on : Bool) :
    (s.deduplicating on).stages = s.stages := rfl

@[simp] theorem deduplicating_joinsAsked (s : Staging) (on : Bool) :
    (s.deduplicating on).joinsAsked = s.joinsAsked := rfl

@[simp] theorem newJoins_of_repeating (staged joins : List Lookup) :
    newJoins false staged joins = joins := by
  induction joins generalizing staged with
  | nil => rfl
  | cons join rest ih => simp [newJoins, ih]

@[simp] theorem filter_joinsDeduplicated (s : Staging) (p : Predicate) :
    (s.filter p).joinsDeduplicated = s.joinsDeduplicated := by
  unfold filter
  split <;> rfl

theorem addJoins_joinsDeduplicated {s : Staging} (repeating : s.deduplicate = false)
    (joins : List Lookup) : (s.addJoins joins).joinsDeduplicated = s.joinsDeduplicated := by
  induction joins generalizing s with
  | nil => rfl
  | cons join rest ih =>
    rw [addJoins_cons, ih (by simpa using repeating)]
    simp [addJoin, repeating, stageJoin, append]

def addFilter (s : Staging) (before : Predicate) (joins : List Lookup) (after : Predicate) :
    Staging :=
  ((s.filter before).addJoins joins).filter after

section

variable {s : Staging} (before : Predicate) (joins : List Lookup) (after : Predicate)

theorem addFilter_stages (empty : s.stages = []) :
    (s.addFilter before joins after).stages =
      matchStages before ++
        ((newJoins s.deduplicate [] joins).flatMap Lookup.stages ++ matchStages after) := by
  have unjoined : s.lookups = [] := by simp [lookups, empty]
  simp [addFilter, addJoins_stages, empty, unjoined]

theorem addFilter_joinsAsked :
    (s.addFilter before joins after).joinsAsked = s.joinsAsked + joins.length := by
  simp [addFilter]

theorem addFilter_joinsDeduplicated (repeating : s.deduplicate = false) :
    (s.addFilter before joins after).joinsDeduplicated = s.joinsDeduplicated := by
  simp [addFilter, addJoins_joinsDeduplicated, repeating]

end

/-- How the pipeline with all joins of a filter and the one without repeated joins differ. -/
structure DropsRepeats (all once : Staging) : Prop where
  stages : once.stages = Stage.withoutRepeats [] false all.stages
  filters : once.stages.filterMap Stage.filter? = all.stages.filterMap Stage.filter?
  staged : all.joinsStaged = once.joinsStaged + once.joinsDeduplicated
  undropped : all.joinsDeduplicated = 0

theorem addFilter_drops_repeats {s : Staging} (blank : s.Blank) (before : Predicate)
    (joins : List Lookup) (after : Predicate) :
    DropsRepeats ((s.deduplicating false).addFilter before joins after)
      ((s.deduplicating true).addFilter before joins after) := by
  have all := addFilter_stages (s := s.deduplicating false) before joins after blank.1
  have once := addFilter_stages (s := s.deduplicating true) before joins after blank.1
  have joined := Stage.withoutRepeats_joins false [] joins after
  have dropped : ((s.deduplicating true).addFilter before joins after).stages =
      Stage.withoutRepeats [] false
        ((s.deduplicating false).addFilter before joins after).stages := by
    rw [List.map_nil] at joined
    rw [all, once, deduplicating_deduplicate, deduplicating_deduplicate, newJoins_of_repeating,
      Stage.withoutRepeats_match_append, joined]
  have undropped :
      ((s.deduplicating false).addFilter before joins after).joinsDeduplicated = 0 := by
    rw [addFilter_joinsDeduplicated before joins after rfl]
    exact blank.2.2
  have asked : ((s.deduplicating false).addFilter before joins after).joinsAsked =
      ((s.deduplicating true).addFilter before joins after).joinsAsked := by
    simp only [addFilter_joinsAsked, deduplicating_joinsAsked]
  refine ⟨dropped, ?_, ?_, undropped⟩
  · rw [dropped, Stage.filterMap_withoutRepeats _ _ (fun _ => rfl) (fun _ => rfl)]
  · simpa only [joinsAsked, undropped, Nat.add_zero] using asked

end Staging

theorem Compile.stage_drops_repeats {nodes : List Node}
    (standard : ∀ m ∈ Node.withinAll nodes, m.Standard) {s : Staging} (blank : s.Blank) :
    Outcome.Agree Staging.DropsRepeats (stage nodes (s.deduplicating false)).result
      (stage nodes (s.deduplicating true)).result := by
  rw [stage_sites standard, stage_sites standard]
  refine .bind fun before _ => .bind fun joins _ => .bind fun after _ => ?_
  exact Staging.addFilter_drops_repeats blank before joins after

def CompiledFilter.DropsRepeats : CompiledFilter → CompiledFilter → Prop
  | .predicate p, .predicate q => p = q
  | .staged all, .staged once => all.DropsRepeats once
  | _, _ => False

namespace FilterCompiler

def deduplicating (c : FilterCompiler) (on : Bool) : FilterCompiler :=
  { c with config := { c.config with deduplicateJoins := on } }

/-- Compiled with deduplication and without it, a filter fails with the same error or gives the same
predicate or pipelines that differ in repeated joins only. -/
theorem deduplication_drops_repeats {c : FilterCompiler} {collection : String} {filter : Json}
    (standard : ∀ nodes, (c.parse collection filter).result = .ok nodes →
      ∀ m ∈ Node.withinAll nodes, m.Standard) :
    Outcome.Agree CompiledFilter.DropsRepeats
        ((c.deduplicating false).compile collection filter).result
        ((c.deduplicating true).compile collection filter).result ∧
      Outcome.Agree Staging.DropsRepeats
        ((c.deduplicating false).compilePipeline collection filter).result
        ((c.deduplicating true).compilePipeline collection filter).result := by
  have blank : (c.newPipeline collection).Blank := ⟨rfl, rfl, rfl⟩
  have compiled : Outcome.Agree CompiledFilter.DropsRepeats
      ((c.deduplicating false).compile collection filter).result
      ((c.deduplicating true).compile collection filter).result := by
    rw [compile, compile, Traced.result_bind, Traced.result_bind]
    refine Outcome.Agree.bind fun nodes parsed => ?_
    have own := standard nodes parsed
    rw [compileNodes_result _ collection own, compileNodes_result _ collection own]
    split
    next => exact (Compile.stage_drops_repeats own blank).map fun _ _ drops => drops
    next => cases Compile.plainPredicate "" nodes <;> exact rfl
  refine ⟨compiled, ?_⟩
  rw [compilePipeline_result, compilePipeline_result]
  refine compiled.map fun all once drops => ?_
  cases all <;> cases once
  case predicate.predicate p q =>
    cases drops
    exact Staging.addFilter_drops_repeats blank p [] []
  case staged.staged => exact drops
  all_goals exact drops.elim

end FilterCompiler

theorem joiningFilter_drops_repeats :
    (∀ nodes, (joiningCompiler.parse "Post" joiningFilter).result = .ok nodes →
      ∀ m ∈ Node.withinAll nodes, m.Standard) ∧
    ∃ all once,
      ((joiningCompiler.deduplicating false).compilePipeline "Post" joiningFilter).result =
        .ok all ∧
      ((joiningCompiler.deduplicating true).compilePipeline "Post" joiningFilter).result =
        .ok once ∧
      all.lookups.map (·.output) = ["author", "author.company", "author"] ∧
      once.lookups.map (·.output) = ["author", "author.company"] ∧ all.DropsRepeats once := by
  have repeating : ((joiningCompiler.deduplicating false).compilePipeline "Post"
      joiningFilter).result.map (fun s => s.lookups.map (·.output)) =
        .ok ["author", "author.company", "author"] := by decide +kernel
  have distinct : ((joiningCompiler.deduplicating true).compilePipeline "Post"
      joiningFilter).result.map (fun s => s.lookups.map (·.output)) =
        .ok ["author", "author.company"] := by decide +kernel
  obtain ⟨all, compiled, joins⟩ := Outcome.map_eq_ok.mp repeating
  obtain ⟨once, again, others⟩ := Outcome.map_eq_ok.mp distinct
  obtain ⟨-, agree⟩ := FilterCompiler.deduplication_drops_repeats joiningFilter_standard
  rw [compiled, again] at agree
  exact ⟨joiningFilter_standard, all, once, compiled, again, joins, others, agree⟩

end DocQuery
