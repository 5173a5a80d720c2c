import DocQuery.Proofs.Building
import DocQuery.Proofs.ReadSteps

set_option autoImplicit false

namespace DocQuery

namespace StoreCall

def isKeyLookup : StoreCall → Bool
  | findByKey .. => true
  | _ => false

def isAggregate : StoreCall → Bool
  | aggregate _ => true
  | _ => false

def isDirect : StoreCall → Bool
  | find _ => true
  | countDocuments .. => true
  | _ => false

def lookups : StoreCall → List Lookup
  | aggregate pipeline => pipeline.lookups
  | _ => []

end StoreCall

theorem StoreCall.countP_reads (calls : List StoreCall) :
    calls.countP (!·.isKeyLookup) =
      calls.countP StoreCall.isDirect + calls.countP StoreCall.isAggregate := by
  induction calls with
  | nil => rfl
  | cons c rest ih =>
    rw [List.countP_cons, List.countP_cons, List.countP_cons, ih]
    cases c <;> simp only [isKeyLookup, isDirect, isAggregate] <;> simp <;> omega

/-- The counters agree with the calls that were made: every planned read is one call, direct or an
aggregation, and the joins are those of the aggregations. -/
structure Metrics.Accounts (m : Metrics) (calls : List StoreCall) : Prop where
  planned : m.queriesPlanned = m.simpleReads + m.pipelineReads
  reads : m.queriesPlanned = calls.countP (!·.isKeyLookup)
  simple : m.simpleReads = calls.countP StoreCall.isDirect
  pipeline : m.pipelineReads = calls.countP StoreCall.isAggregate
  joins : m.joinsStaged = (calls.flatMap StoreCall.lookups).length

namespace Metrics.Accounts

variable {m : Metrics} {calls : List StoreCall}

theorem of_parts (planned : m.queriesPlanned = m.simpleReads + m.pipelineReads)
    (simple : m.simpleReads = calls.countP StoreCall.isDirect)
    (pipeline : m.pipelineReads = calls.countP StoreCall.isAggregate)
    (joins : m.joinsStaged = (calls.flatMap StoreCall.lookups).length) : m.Accounts calls := by
  refine ⟨planned, ?_, simple, pipeline, joins⟩
  rw [planned, simple, pipeline, StoreCall.countP_reads]

theorem lookedUp (accounts : m.Accounts calls) (collection primaryKey : String) (key : Json) :
    m.Accounts (calls ++ [.findByKey collection primaryKey key]) := by
  obtain ⟨planned, -, simple, pipeline, joins⟩ := accounts
  refine of_parts planned ?_ ?_ ?_
  · simpa [StoreCall.isDirect] using simple
  · simpa [StoreCall.isAggregate] using pipeline
  · simpa [StoreCall.lookups] using joins

theorem carriedOut (accounts : m.Accounts calls) {kind : ReadKind} {planned : Planned}
    (joined : (StoreCall.of kind planned.plan).lookups.length = planned.joinsStaged) :
    ((m.planned planned).routed planned.plan).Accounts (calls ++ [.of kind planned.plan]) := by
  obtain ⟨total, -, simple, pipeline, joins⟩ := accounts
  obtain ⟨plan, staged, collapsed⟩ := planned
  cases plan with
  | direct request =>
    have direct : (StoreCall.of kind (.direct request)).isDirect = true := by cases kind <;> rfl
    have single : (StoreCall.of kind (.direct request)).isAggregate = false := by cases kind <;> rfl
    refine of_parts ?_ ?_ ?_ ?_
    · simp [routed, simpleRead, Metrics.planned, total]
      omega
    · simpa [routed, simpleRead, Metrics.planned, direct] using simple
    · simpa [routed, simpleRead, Metrics.planned, single] using pipeline
    · simp [routed, simpleRead, Metrics.planned, joins, joined]
  | aggregate p =>
    refine of_parts ?_ ?_ ?_ ?_
    · simp [routed, pipelineRead, Metrics.planned, total]
      omega
    · simpa [routed, pipelineRead, Metrics.planned, StoreCall.of, StoreCall.isDirect] using simple
    · simpa [routed, pipelineRead, Metrics.planned, StoreCall.of, StoreCall.isAggregate]
        using pipeline
    · simp [routed, pipelineRead, Metrics.planned, joins, joined]

theorem rejected (accounts : m.Accounts calls) : m.rejected.Accounts calls :=
  ⟨accounts.planned, accounts.reads, accounts.simple, accounts.pipeline, accounts.joins⟩

end Metrics.Accounts

structure Session where
  answers : List (Except QueryError Answer) := []
  record : Record := {}

structure Session.Balanced (s : Session) : Prop where
  calls : s.record.metrics.Accounts s.record.calls
  rejected : s.record.metrics.queriesRejected = s.answers.countP rejects

namespace Planner

variable (p : Planner)

def step (s : Session) (t : Turn) : Session :=
  let (answer, record) := (p.read t.store t.elapsed t.read).perform s.record
  ⟨s.answers ++ [answer], record⟩

def session (turns : List Turn) : Session := turns.foldl p.step {}

def callsOf (t : Turn) : List StoreCall :=
  p.keyCalls t.read ++
    match p.prepare t.store t.read with
    | .ok planned => [.of t.read.kind planned.plan]
    | .error _ => []

def plannedBy (t : Turn) (m : Metrics) : Metrics :=
  match p.prepare t.store t.read with
  | .ok planned => (m.planned planned).routed planned.plan
  | .error _ => m

def countedBy (t : Turn) (m : Metrics) : Metrics :=
  if rejects (p.answerOf t) then (p.plannedBy t m).rejected else p.plannedBy t m

theorem turnEffect_calls (t : Turn) : (p.turnEffect t).calls = p.callsOf t := by
  unfold turnEffect readingEffect callsOf prepare Turn.closing
  cases planning : p.planning t.store t.read with
  | error e => simp [Effect.andThen]
  | ok x =>
    cases planned : x.result <;>
      simp [Effect.andThen, Traced.readEffect, Traced.planEffect, planned, Plan.carriedOut]

theorem turnEffect_metrics (t : Turn) : (p.turnEffect t).metrics = p.countedBy t := by
  unfold turnEffect readingEffect countedBy plannedBy prepare Turn.closing
  funext m
  cases planning : p.planning t.store t.read with
  | error e => simp [Effect.andThen]
  | ok x =>
    cases planned : x.result <;>
      simp [Effect.andThen, Traced.readEffect, Traced.planEffect, planned, Plan.carriedOut]

theorem step_eq (s : Session) (t : Turn) :
    p.step s t = ⟨s.answers ++ [p.answerOf t],
      ⟨p.countedBy t s.record.metrics, s.record.log ++ (p.turnEffect t).log,
        s.record.calls ++ p.callsOf t⟩⟩ := by
  simp only [step, p.performs_turn t s.record, Effect.on, turnEffect_calls, turnEffect_metrics]

theorem run_answers (s : Session) (turns : List Turn) :
    (turns.foldl p.step s).answers = s.answers ++ turns.map p.answerOf := by
  induction turns generalizing s with
  | nil => simp
  | cons t rest ih => simp [ih, step_eq]

theorem run_calls (s : Session) (turns : List Turn) :
    (turns.foldl p.step s).record.calls = s.record.calls ++ turns.flatMap p.callsOf := by
  induction turns generalizing s with
  | nil => simp
  | cons t rest ih => simp [ih, step_eq]

theorem keyCalls_cases (read : Read) :
    p.keyCalls read = [] ∨ ∃ collection primaryKey key,
      p.keyCalls read = [.findByKey collection primaryKey key] := by
  cases read with
  | findOne collection filter | count collection filter => exact .inl rfl
  | findMany collection filter args =>
    simp only [keyCalls, keyCall?]
    cases Window.validate args with
    | error e => exact .inl rfl
    | ok u =>
      cases args.pivotToken? with
      | none => exact .inl rfl
      | some found =>
        obtain ⟨side, token⟩ := found
        cases coerced : p.config.keyType.coerce p.config.primaryKey token with
        | error e => exact .inl (by simp [coerced])
        | ok key => exact .inr ⟨collection, p.config.primaryKey, key, by simp [coerced]⟩

theorem plan_of_planning {p : Planner} {store : Store} {read : Read} {x : Traced Planned}
    (planned : p.planning store read = .ok x) :
    ∃ kind collection filter args pivot, x = p.plan kind collection filter args pivot := by
  cases read with
  | findOne collection filter | count collection filter =>
    cases planned
    exact ⟨_, _, _, _, _, rfl⟩
  | findMany collection filter args =>
    simp only [planning, Outcome.bind_eq_ok] at planned
    obtain ⟨u, -, pivot, -, made⟩ := planned
    cases made
    exact ⟨_, _, _, _, _, rfl⟩

theorem plan_of_prepare {p : Planner} {store : Store} {read : Read} {planned : Planned}
    (prepared : p.prepare store read = .ok planned) :
    ∃ kind collection filter args pivot,
      (p.plan kind collection filter args pivot).result = .ok planned := by
  obtain ⟨x, made, found⟩ := Outcome.bind_eq_ok.mp prepared
  obtain ⟨kind, collection, filter, args, pivot, rfl⟩ := plan_of_planning made
  exact ⟨kind, collection, filter, args, pivot, found⟩

theorem joins_of_prepare {p : Planner} (builds : p.Builds) {store : Store} {read : Read}
    {planned : Planned} (prepared : p.prepare store read = .ok planned) (kind : ReadKind) :
    (StoreCall.of kind planned.plan).lookups.length = planned.joinsStaged := by
  obtain ⟨_, _, _, _, _, found⟩ := plan_of_prepare prepared
  rcases plan_cases builds Staging.counted_invariant found with ⟨request, rfl⟩ | ⟨s, counted, rfl⟩
  · cases kind <;> rfl
  · exact counted.symm

theorem plannedBy_accounts {p : Planner} (builds : p.Builds) (t : Turn) {m : Metrics}
    {calls : List StoreCall} (accounts : m.Accounts calls) :
    (p.plannedBy t m).Accounts (calls ++ p.callsOf t) := by
  have looked : m.Accounts (calls ++ p.keyCalls t.read) := by
    rcases p.keyCalls_cases t.read with none | ⟨collection, primaryKey, key, one⟩
    · simpa [none] using accounts
    · rw [one]
      exact accounts.lookedUp collection primaryKey key
  unfold plannedBy callsOf
  cases prepared : p.prepare t.store t.read with
  | error e => simpa using looked
  | ok planned =>
    have joined := joins_of_prepare builds prepared t.read.kind
    simpa using looked.carriedOut joined

theorem plannedBy_rejected (t : Turn) (m : Metrics) :
    (p.plannedBy t m).queriesRejected = m.queriesRejected := by
  unfold plannedBy
  cases p.prepare t.store t.read with
  | error e => rfl
  | ok planned =>
    obtain ⟨plan, staged, collapsed⟩ := planned
    cases plan <;> rfl

theorem step_balanced {p : Planner} (builds : p.Builds) {s : Session} (balanced : s.Balanced)
    (t : Turn) : (p.step s t).Balanced := by
  have accounts := plannedBy_accounts builds t balanced.calls
  have unmoved := p.plannedBy_rejected t s.record.metrics
  rw [step_eq]
  unfold countedBy
  cases outcome : rejects (p.answerOf t) with
  | true =>
    refine ⟨accounts.rejected, ?_⟩
    simp [Metrics.rejected, unmoved, balanced.rejected, outcome]
  | false =>
    refine ⟨accounts, ?_⟩
    simp [unmoved, balanced.rejected, outcome]

theorem run_balanced {p : Planner} (builds : p.Builds) {s : Session} (balanced : s.Balanced)
    (turns : List Turn) : (turns.foldl p.step s).Balanced := by
  induction turns generalizing s with
  | nil => exact balanced
  | cons t rest ih => exact ih (step_balanced builds balanced t)

/-- The protocol of a session, after any number of reads. Every read answers and calls the store as
its arguments, its pivot and its plan have it, whatever the store does, and the counters account for
the calls and the answers. -/
theorem session_protocol {p : Planner} (builds : p.Builds) (turns : List Turn) :
    (p.session turns).answers = turns.map p.answerOf ∧
      (p.session turns).record.calls = turns.flatMap p.callsOf ∧ (p.session turns).Balanced := by
  have zeroed : ({} : Session).Balanced := ⟨⟨rfl, rfl, rfl, rfl, rfl⟩, rfl⟩
  refine ⟨?_, ?_, run_balanced builds zeroed turns⟩
  · simpa [session] using p.run_answers {} turns
  · simpa [session] using p.run_calls {} turns

end Planner

def scorePlanner : Planner where
  catalog := .posts
  config := { keyType := .int }
  visitors := [(Rule.custom ⟨"score", none⟩ commentScore).visitor]

def brokenStore : Store where
  find _ := .ok [.obj [("_id", .int 7)]]
  aggregate _ := .error (.execution "aggregations are not available")
  countDocuments _ _ := .ok 1
  findByKey _ _ key := .ok (if key.text = "7" then some (.obj [("_id", .int 7)]) else none)

def brokenTurns : List Turn :=
  [.findOne "Post" (.obj [("author", .obj [("name", .str "Ann")])]),
    .findMany "Post" (.obj []) { after := some (.int 7), first := some 10 },
    .findMany "Post" (.obj []) { after := some (.int 8), first := some 10 },
    .findMany "Post" (.obj []) { last := some 10 },
    .count "Post" (.obj [("score", .int 3)]),
    .count "Post" (.obj [("title", .str "Lean")])].map (⟨brokenStore, 1, ·⟩)

-- Four of six reads are planned, two of them as aggregations with one join each, and two are
-- rejected.
theorem brokenTurns_protocol :
    scorePlanner.Builds ∧ (scorePlanner.session brokenTurns).Balanced ∧
      (scorePlanner.session brokenTurns).record.metrics =
        { queriesPlanned := 4, simpleReads := 2, pipelineReads := 2, joinsStaged := 2,
          joinsDeduplicated := 1, queriesRejected := 2 } ∧
      (scorePlanner.session brokenTurns).record.calls.map StoreCall.isKeyLookup =
        [false, true, false, true, false, false] := by
  have builds : scorePlanner.Builds := by
    have built : scorePlanner.visitors =
        [Rule.custom ⟨"score", none⟩ commentScore].map Rule.visitor := rfl
    refine Planner.builds_of_rules built fun target c listed => ?_
    cases List.mem_singleton.mp listed
    exact fun v => (commentScore_operates v).buildsOn.builds
  exact ⟨builds, (Planner.session_protocol builds brokenTurns).2.2, by decide +kernel,
    by decide +kernel⟩

end DocQuery
