import DocQuery.Proofs.LogLines
import DocQuery.Proofs.Sessions
import Mathlib.Data.List.Induction

set_option autoImplicit false

namespace DocQuery

open Log
open List (Forall₂)

theorem Log.visible_trace (entries : List Entry) : visible .trace entries = entries := by
  simp [visible, Severity.enabled, Severity.rank]

def scopeSuffixes : List String := ["_BEGIN", "_COMPLETE", "_FAILED"]

theorem Log.Event.label_ne_scope (e : Event) (kind : ReadKind) :
    ∀ suffix ∈ "_INCOMPLETE" :: scopeSuffixes, kind.label ++ suffix ≠ e.label := by
  cases kind <;> cases e <;> decide

theorem ReadKind.label_ne_incomplete (kind other : ReadKind) :
    ∀ suffix ∈ scopeSuffixes, kind.label ++ suffix ≠ other.label ++ "_INCOMPLETE" := by
  cases kind <;> cases other <;> decide

def Plan.routedEvent : Plan → Event
  | .direct _ => .simpleReadRouted
  | .aggregate _ => .pipelineReadRouted

theorem Plan.routedEntry_name (plan : Plan) : plan.routedEntry.name = plan.routedEvent.label := by
  cases plan <;> rfl

def endingSuffix : Except QueryError Answer → String
  | .ok _ => "_COMPLETE"
  | .error _ => "_FAILED"

structure Log.Segment where
  opening : Entry
  detail : List Entry
  routing : Option (Entry × Entry)
  rejection : Option Entry
  ending : Entry

namespace Log.Segment

def routingLines (seg : Segment) : List Entry :=
  match seg.routing with
  | some (planned, routed) => [planned, routed]
  | none => []

def lines (seg : Segment) : List Entry :=
  seg.opening :: (seg.detail ++ seg.routingLines ++ seg.rejection.toList ++ [seg.ending])

structure Records (seg : Segment) (p : Planner) (t : Turn) : Prop where
  opening : seg.opening.name = t.read.kind.label ++ "_BEGIN"
  detail : ∀ entry ∈ seg.detail, entry.Of Event.detail
  routing : match p.prepare t.store t.read with
    | .ok planned => ∃ line routed, seg.routing = some (line, routed) ∧
        line.name = Event.queryPlanned.label ∧ routed.name = planned.plan.routedEvent.label ∧
        planned.joinsStaged = tally .joinStaged seg.detail ∧
        planned.joinsDeduplicated = tally .joinDeduplicated seg.detail
    | .error _ => seg.routing = none
  rejection : seg.rejection.isSome = rejects (p.answerOf t)
  rejected : ∀ line, seg.rejection = some line → line.name = Event.queryRejected.label
  ending : seg.ending.name = t.read.kind.label ++ endingSuffix (p.answerOf t)

variable {seg : Segment} {p : Planner} {t : Turn}

theorem endingSuffix_mem (answer : Except QueryError Answer) :
    endingSuffix answer ∈ scopeSuffixes := by
  cases answer <;> simp [endingSuffix, scopeSuffixes]

theorem Records.routed (records : seg.Records p t) :
    ∀ entry ∈ seg.routingLines,
      entry.Of [.queryPlanned, .simpleReadRouted, .pipelineReadRouted] := by
  have routing := records.routing
  unfold routingLines
  cases prepared : p.prepare t.store t.read with
  | error e =>
    rw [prepared] at routing
    simp [show seg.routing = none from routing]
  | ok planned =>
    rw [prepared] at routing
    obtain ⟨line, routed, there, first, second, -⟩ := routing
    simp only [there, List.forall_mem_cons, List.not_mem_nil, false_implies, implies_true, and_true]
    refine ⟨⟨_, by simp, first⟩, ⟨_, ?_, second⟩⟩
    cases planned.plan <;> simp [Plan.routedEvent]

theorem Records.complete (records : seg.Records p t) :
    ∀ entry ∈ seg.lines, ∀ kind : ReadKind, entry.name ≠ kind.label ++ "_INCOMPLETE" := by
  intro entry inside kind
  have event {events : List Event} (of_ : entry.Of events) :
      entry.name ≠ kind.label ++ "_INCOMPLETE" := by
    obtain ⟨e, -, named⟩ := of_
    rw [named]
    exact (e.label_ne_scope kind _ List.mem_cons_self).symm
  simp only [lines, List.mem_cons, List.mem_append, Option.mem_toList, List.not_mem_nil,
    or_false] at inside
  rcases inside with rfl | ((detail | routed) | rejected) | rfl
  · rw [records.opening]
    exact ReadKind.label_ne_incomplete _ _ _ List.mem_cons_self
  · exact event (records.detail entry detail)
  · exact event (records.routed entry routed)
  · exact event ⟨_, List.mem_singleton_self _, records.rejected entry rejected⟩
  · rw [records.ending]
    exact ReadKind.label_ne_incomplete _ _ _ (endingSuffix_mem _)

theorem tally_named {entry : Entry} {f : Event} (named : entry.name = f.label) (e : Event) :
    tally e [entry] = if f = e then 1 else 0 := by
  simp [tally, named, Event.label_inj, List.countP_cons]

theorem tally_scope {entry : Entry} {kind : ReadKind} {suffix : String}
    (listed : suffix ∈ scopeSuffixes) (named : entry.name = kind.label ++ suffix) (e : Event) :
    tally e [entry] = 0 := by
  simp [tally, named, e.label_ne_scope kind suffix (List.mem_cons_of_mem _ listed)]

theorem Records.tally_lines (records : seg.Records p t) (e : Event) :
    tally e seg.lines =
      tally e seg.detail + tally e seg.routingLines + tally e seg.rejection.toList := by
  have opened := tally_scope List.mem_cons_self records.opening e
  have ended := tally_scope (endingSuffix_mem _) records.ending e
  have split : seg.lines =
      [seg.opening] ++ (seg.detail ++ seg.routingLines ++ seg.rejection.toList ++ [seg.ending]) := rfl
  simp only [split, tally_append, opened, ended, Nat.zero_add, Nat.add_zero]

theorem Records.tally_rejection (records : seg.Records p t) (e : Event) :
    tally e seg.rejection.toList =
      if .queryRejected = e ∧ rejects (p.answerOf t) = true then 1 else 0 := by
  rw [← records.rejection]
  cases rejection : seg.rejection with
  | none => simp
  | some line => simp [tally_named (records.rejected line rejection) e]

theorem Records.tally_routing (records : seg.Records p t) (e : Event) :
    tally e seg.routingLines =
      match p.prepare t.store t.read with
      | .ok planned =>
        (if .queryPlanned = e then 1 else 0) + if planned.plan.routedEvent = e then 1 else 0
      | .error _ => 0 := by
  have routing := records.routing
  unfold routingLines
  cases prepared : p.prepare t.store t.read with
  | error e =>
    rw [prepared] at routing
    simp [show seg.routing = none from routing]
  | ok planned =>
    rw [prepared] at routing
    obtain ⟨line, routed, there, first, second, -⟩ := routing
    have pair : [line, routed] = [line] ++ [routed] := rfl
    simp only [there, pair, tally_append, tally_named first, tally_named second]

theorem Records.tally_event (records : seg.Records p t) {e : Event} (other : e ∉ Event.detail) :
    tally e seg.lines =
      (match p.prepare t.store t.read with
        | .ok planned =>
          (if .queryPlanned = e then 1 else 0) + if planned.plan.routedEvent = e then 1 else 0
        | .error _ => 0) +
      if .queryRejected = e ∧ rejects (p.answerOf t) = true then 1 else 0 := by
  rw [records.tally_lines, tally_of_others other records.detail, Nat.zero_add,
    records.tally_routing, records.tally_rejection]

theorem Records.tally_detail (records : seg.Records p t) {e : Event} (listed : e ∈ Event.detail) :
    tally e seg.lines = tally e seg.detail := by
  have unrouted : tally e seg.routingLines = 0 := by
    refine tally_of_others ?_ records.routed
    revert listed
    cases e <;> decide
  have unrejected : Event.queryRejected ≠ e := by
    rintro rfl
    exact absurd listed (by decide)
  rw [records.tally_lines, records.tally_rejection, unrouted]
  simp [unrejected]

end Log.Segment

structure Metrics.Tells (m : Metrics) (segments : List Segment) : Prop where
  planned : m.queriesPlanned = tally .queryPlanned (segments.flatMap Segment.lines)
  simple : m.simpleReads = tally .simpleReadRouted (segments.flatMap Segment.lines)
  pipeline : m.pipelineReads = tally .pipelineReadRouted (segments.flatMap Segment.lines)
  rejected : m.queriesRejected = tally .queryRejected (segments.flatMap Segment.lines)
  staged : m.joinsStaged =
    tally .joinStaged ((segments.filter (·.routing.isSome)).flatMap Segment.lines)
  collapsed : m.joinsDeduplicated =
    tally .joinDeduplicated ((segments.filter (·.routing.isSome)).flatMap Segment.lines)

namespace Planner

variable {p : Planner} {t : Turn} (m : Metrics)

theorem countedBy_of_unplanned {e : QueryError} (unplanned : p.prepare t.store t.read = .error e) :
    p.countedBy t m = { m with
      queriesRejected := m.queriesRejected + if rejects (p.answerOf t) = true then 1 else 0 } := by
  unfold countedBy plannedBy
  rw [unplanned]
  cases rejects (p.answerOf t) <;> rfl

theorem countedBy_of_planned {planned : Planned} (prepared : p.prepare t.store t.read = .ok planned) :
    p.countedBy t m = {
      queriesPlanned := m.queriesPlanned + 1
      simpleReads := m.simpleReads + if planned.plan.routedEvent = .simpleReadRouted then 1 else 0
      pipelineReads :=
        m.pipelineReads + if planned.plan.routedEvent = .pipelineReadRouted then 1 else 0
      joinsStaged := m.joinsStaged + planned.joinsStaged
      joinsDeduplicated := m.joinsDeduplicated + planned.joinsDeduplicated
      queriesRejected := m.queriesRejected + if rejects (p.answerOf t) = true then 1 else 0 } := by
  obtain ⟨plan, staged, collapsed⟩ := planned
  unfold countedBy plannedBy
  rw [prepared]
  cases rejects (p.answerOf t) <;> cases plan <;> rfl

end Planner

theorem Metrics.Tells.snoc {m : Metrics} {segments : List Segment} (tells : m.Tells segments)
    {seg : Segment} {p : Planner} {t : Turn} (records : seg.Records p t) :
    (p.countedBy t m).Tells (segments ++ [seg]) := by
  obtain ⟨planned, simple, pipeline, rejected, staged, collapsed⟩ := tells
  have routing := records.routing
  have lines (e : Event) : tally e ((segments ++ [seg]).flatMap Segment.lines) =
      tally e (segments.flatMap Segment.lines) + tally e seg.lines := by
    simp
  cases prepared : p.prepare t.store t.read with
  | error e =>
    rw [prepared] at routing
    have same : (segments ++ [seg]).filter (·.routing.isSome) =
        segments.filter (·.routing.isSome) := by
      simp [show seg.routing = none from routing]
    rw [Planner.countedBy_of_unplanned m prepared]
    refine ⟨?_, ?_, ?_, ?_, by rwa [same], by rwa [same]⟩ <;>
      rw [lines, records.tally_event (by decide), prepared]
    · simpa using planned
    · simpa using simple
    · simpa using pipeline
    · simpa using rejected
  | ok found =>
    rw [prepared] at routing
    obtain ⟨line, routed, there, -, -, joins, repeats⟩ := routing
    have more (e : Event) (listed : e ∈ Event.detail) :
        tally e (((segments ++ [seg]).filter (·.routing.isSome)).flatMap Segment.lines) =
          tally e ((segments.filter (·.routing.isSome)).flatMap Segment.lines) +
            tally e seg.detail := by
      simp [there, records.tally_detail listed]
    have route : found.plan.routedEvent ≠ .queryPlanned ∧
        found.plan.routedEvent ≠ .queryRejected := by
      cases found.plan <;> simp [Plan.routedEvent]
    rw [Planner.countedBy_of_planned m prepared]
    refine ⟨?_, ?_, ?_, ?_, ?_, ?_⟩
    · rw [lines, records.tally_event (by decide), prepared]
      simp [planned, route]
    · rw [lines, records.tally_event (by decide), prepared]
      simp [simple]
    · rw [lines, records.tally_event (by decide), prepared]
      simp [pipeline]
    · rw [lines, records.tally_event (by decide), prepared]
      simp [rejected, route]
    · rw [more _ (by decide), ← staged, ← joins]
    · rw [more _ (by decide), ← collapsed, ← repeats]

namespace Turn

variable (t : Turn) (answer : Except QueryError Answer)

def rejection : Option Entry :=
  match answer with
  | .ok _ => none
  | .error e => if rejects answer then some (Planner.rejectedEntry t.read e) else none

def ending : Entry :=
  match answer with
  | .ok _ => (Planner.scopeOf t.read).completed [] (toString t.elapsed)
  | .error e => (Planner.scopeOf t.read).failed e

theorem closing_log : (t.closing answer).log = (t.rejection answer).toList ++ [t.ending answer] := by
  unfold closing rejection ending
  cases answer with
  | ok found => rfl
  | error e => cases rejects (.error e) <;> rfl

theorem rejection_isSome : (t.rejection answer).isSome = rejects answer := by
  unfold rejection
  cases answer with
  | ok found => rfl
  | error e => cases rejects (.error e) <;> rfl

theorem rejection_name {line : Entry} (rejected : t.rejection answer = some line) :
    line.name = Event.queryRejected.label := by
  unfold rejection at rejected
  cases answer with
  | ok found => cases rejected
  | error e =>
    dsimp only at rejected
    split at rejected <;> cases rejected
    rfl

theorem ending_name : (t.ending answer).name = t.read.kind.label ++ endingSuffix answer := by
  cases answer <;> rfl

end Turn

namespace Planner

variable {p : Planner}

theorem reading_lines (cycles : p.LogsCycles) (operates : p.Operates) (store : Store)
    (read : Read) :
    ∃ detail, (∀ entry ∈ detail, entry.Of Event.detail) ∧
      match p.prepare store read with
      | .ok planned =>
        (∃ line : Entry, line.name = Event.queryPlanned.label ∧
          (p.readingEffect store read).log = detail ++ [line, planned.plan.routedEntry]) ∧
          planned.joinsStaged = tally .joinStaged detail ∧
          planned.joinsDeduplicated = tally .joinDeduplicated detail
      | .error _ => (p.readingEffect store read).log = detail := by
  unfold readingEffect prepare
  cases planning : p.planning store read with
  | error e => exact ⟨[], by simp, rfl⟩
  | ok x =>
    obtain ⟨kind, collection, filter, args, pivot, rfl⟩ := plan_of_planning planning
    obtain ⟨detail, lines, after⟩ := plan_lines cycles operates kind collection filter args pivot
    refine ⟨detail, lines, ?_⟩
    unfold PlannedAfter at after
    rw [Outcome.ok_bind]
    cases planned : (p.plan kind collection filter args pivot).result with
    | error e =>
      rw [planned] at after
      simp [Traced.readEffect, Traced.planEffect, planned, Effect.andThen, after]
    | ok found =>
      rw [planned] at after
      obtain ⟨⟨line, named, logged⟩, staged, collapsed⟩ := after
      refine ⟨⟨line, named, ?_⟩, staged, collapsed⟩
      simp [Traced.readEffect, Traced.planEffect, planned, Effect.andThen, logged, Plan.carriedOut]

theorem exists_segment (cycles : p.LogsCycles) (operates : p.Operates) (t : Turn) :
    ∃ seg : Segment, seg.Records p t ∧ seg.lines = (p.turnEffect t).log := by
  obtain ⟨detail, lines, reading⟩ := reading_lines cycles operates t.store t.read
  cases prepared : p.prepare t.store t.read with
  | error e =>
    rw [prepared] at reading
    refine ⟨⟨(scopeOf t.read).opened, detail, none, t.rejection (p.answerOf t),
      t.ending (p.answerOf t)⟩, ⟨rfl, lines, by rw [prepared], t.rejection_isSome _,
        fun line => t.rejection_name _, t.ending_name _⟩, ?_⟩
    simp only [Segment.lines, Segment.routingLines, turnEffect, Effect.andThen, reading,
      t.closing_log]
    simp
  | ok planned =>
    rw [prepared] at reading
    obtain ⟨⟨line, named, logged⟩, staged, collapsed⟩ := reading
    refine ⟨⟨(scopeOf t.read).opened, detail, some (line, planned.plan.routedEntry),
      t.rejection (p.answerOf t), t.ending (p.answerOf t)⟩, ⟨rfl, lines, ?_, t.rejection_isSome _,
        fun line => t.rejection_name _, t.ending_name _⟩, ?_⟩
    · rw [prepared]
      exact ⟨line, _, rfl, named, planned.plan.routedEntry_name, staged, collapsed⟩
    · simp only [Segment.lines, Segment.routingLines, turnEffect, Effect.andThen, logged,
        t.closing_log]
      simp

theorem session_snoc (p : Planner) (turns : List Turn) (t : Turn) :
    p.session (turns ++ [t]) = p.step (p.session turns) t := by
  simp [session]

/-- The log of a session, with every line written, is one segment for each read in turn, and the
counters tell the same as its lines. -/
theorem session_log (cycles : p.LogsCycles) (operates : p.Operates) (turns : List Turn) :
    ∃ segments : List Segment,
      Forall₂ (fun t seg => seg.Records p t) turns segments ∧
      visible .trace (p.session turns).record.log = segments.flatMap Segment.lines ∧
      (p.session turns).record.metrics.Tells segments ∧
      ∀ entry ∈ (p.session turns).record.log, ∀ kind : ReadKind,
        entry.name ≠ kind.label ++ "_INCOMPLETE" := by
  have story : ∃ segments : List Segment,
      Forall₂ (fun t seg => seg.Records p t) turns segments ∧
      (p.session turns).record.log = segments.flatMap Segment.lines ∧
      (p.session turns).record.metrics.Tells segments := by
    induction turns using List.reverseRecOn with
    | nil => exact ⟨[], .nil, rfl, ⟨rfl, rfl, rfl, rfl, rfl, rfl⟩⟩
    | append_singleton turns t ih =>
      obtain ⟨segments, records, logged, tells⟩ := ih
      obtain ⟨seg, own, lines⟩ := exists_segment cycles operates t
      rw [session_snoc, step_eq]
      refine ⟨segments ++ [seg], List.rel_append records (.cons own .nil), ?_, tells.snoc own⟩
      rw [List.flatMap_append, List.flatMap_singleton, lines, logged]
  obtain ⟨segments, records, logged, tells⟩ := story
  refine ⟨segments, records, by rw [visible_trace, logged], tells, ?_⟩
  rw [logged]
  intro entry inside
  obtain ⟨seg, listed, here⟩ := List.mem_flatMap.mp inside
  obtain ⟨t, -, own⟩ := forall₂_right records seg listed
  exact own.complete entry here

end Planner

theorem brokenTurns_log :
    scorePlanner.LogsCycles ∧ scorePlanner.Operates ∧
      (∃ segments : List Segment,
        Forall₂ (fun t seg => seg.Records scorePlanner t) brokenTurns segments ∧
        visible .trace (scorePlanner.session brokenTurns).record.log =
          segments.flatMap Segment.lines ∧
        (scorePlanner.session brokenTurns).record.metrics.Tells segments) ∧
      (scorePlanner.session brokenTurns).record.log.map Entry.name =
        ["FIND_ONE_BEGIN", "JOIN_STAGED", "QUERY_PLANNED", "PIPELINE_READ_ROUTED",
          "FIND_ONE_FAILED",
          "FIND_MANY_BEGIN", "QUERY_PLANNED", "SIMPLE_READ_ROUTED", "FIND_MANY_COMPLETE",
          "FIND_MANY_BEGIN", "QUERY_REJECTED", "FIND_MANY_FAILED",
          "FIND_MANY_BEGIN", "QUERY_REJECTED", "FIND_MANY_FAILED",
          "COUNT_BEGIN", "JOIN_STAGED", "JOIN_DEDUPLICATED", "QUERY_PLANNED",
          "PIPELINE_READ_ROUTED", "COUNT_FAILED",
          "COUNT_BEGIN", "QUERY_PLANNED", "SIMPLE_READ_ROUTED", "COUNT_COMPLETE"] := by
  have built : scorePlanner.visitors =
      [Rule.custom ⟨"score", none⟩ commentScore].map Rule.visitor := rfl
  have cycles : scorePlanner.LogsCycles := Planner.logsCycles_of_rules built
  have operates : scorePlanner.Operates := by
    refine Planner.operates_of_rules built fun target c listed => ?_
    cases List.mem_singleton.mp listed
    exact commentScore_operates
  obtain ⟨segments, records, logged, tells, -⟩ :=
    Planner.session_log cycles operates brokenTurns
  exact ⟨cycles, operates, ⟨segments, records, logged, tells⟩, by decide +kernel⟩

-- Looks the author up on a copy of the pipeline.
def copyingCompiler : CustomCompiler where
  name := "copying"
  compile v _ draft := do
    let _ ← draft.pipeline.lookup "author" {}
    return { draft with predicate := draft.predicate.merge "score" v.subject.value }

def copyingPlanner : Planner where
  catalog := .posts
  config := {}
  visitors := [(Rule.custom ⟨"score", none⟩ copyingCompiler).visitor]

-- Logs a line of its own for each node.
def announcingPlanner : Planner where
  catalog := .posts
  config := {}
  visitors := [⟨"announcing", fun _ _ => do
    Traced.log .queryPlanned []
    return .keep⟩]

def scoreCount : Turn := ⟨brokenStore, 1, .count "Post" (.obj [("score", .int 3)])⟩

def titleCount : Turn := ⟨brokenStore, 1, .count "Post" (.obj [("title", .str "Lean")])⟩

/-- The counters tell another story than the lines if a compiler stages joins on a copy of the
pipeline, if a visitor logs lines of its own, and if something was planned before. -/
theorem counters_differ_from_log :
    ((copyingPlanner.session [scoreCount]).record.log.map Entry.name =
        ["COUNT_BEGIN", "JOIN_STAGED", "QUERY_PLANNED", "SIMPLE_READ_ROUTED", "COUNT_COMPLETE"] ∧
      (copyingPlanner.session [scoreCount]).record.metrics.joinsStaged = 0) ∧
    ((announcingPlanner.session [scoreCount]).record.log.map Entry.name =
        ["COUNT_BEGIN", "QUERY_PLANNED", "QUERY_PLANNED", "SIMPLE_READ_ROUTED",
          "COUNT_COMPLETE"] ∧
      (announcingPlanner.session [scoreCount]).record.metrics.queriesPlanned = 1) ∧
    (scorePlanner.step { record := { metrics := { queriesPlanned := 1 } } }
          titleCount).record.log.map Entry.name =
        ["COUNT_BEGIN", "QUERY_PLANNED", "SIMPLE_READ_ROUTED", "COUNT_COMPLETE"] ∧
      (scorePlanner.step { record := { metrics := { queriesPlanned := 1 } } }
        titleCount).record.metrics.queriesPlanned = 2 := by
  decide +kernel

end DocQuery
