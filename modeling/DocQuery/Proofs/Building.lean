import DocQuery.Plan
import DocQuery.Proofs.Declared
import DocQuery.Proofs.Operations

set_option autoImplicit false

namespace DocQuery

namespace Staging

def Blank (s : Staging) : Prop :=
  s.stages = [] ∧ s.joinsStaged = 0 ∧ s.joinsDeduplicated = 0

-- A property that blank pipelines have and every operation keeps. The operations not named here are
-- made of those that are.
structure Invariant (holds : Staging → Prop) : Prop where
  blank : ∀ s : Staging, s.Blank → holds s
  filter : ∀ s, holds s → ∀ p, holds (s.filter p)
  lookup : ∀ s, holds s → ∀ name options t, (s.lookup name options).result = .ok t → holds t
  project : ∀ s, holds s → ∀ fields, holds (s.project fields)
  sortBy : ∀ s, holds s → ∀ keys, holds (s.sortBy keys)
  skip : ∀ s, holds s → ∀ n, holds (s.skip n)
  limit : ∀ s, holds s → ∀ n, holds (s.limit n)
  count : ∀ s, holds s → ∀ field, holds (s.count field)

section

variable {holds : Staging → Prop} {s t : Staging}

theorem Invariant.appendTo (inv : Invariant holds) (held : holds s) (w : Window) :
    holds (w.appendTo s) := by
  have sorted : holds ((s.filter w.pivotMatch).sortBy w.sort) :=
    inv.sortBy _ (inv.filter s held w.pivotMatch) w.sort
  unfold Window.appendTo
  cases w.skip with
  | none =>
    cases w.limit with
    | none => exact sorted
    | some n => exact inv.limit _ sorted n
  | some skipped =>
    have rest := inv.skip _ sorted skipped
    cases w.limit with
    | none => exact rest
    | some n => exact inv.limit _ rest n

theorem Invariant.perform (inv : Invariant holds) (held : holds s) {op : Operation}
    (performed : (s.perform op).result = .ok t) : holds t := by
  cases op with
  | lookup name options => exact inv.lookup s held name options t performed
  | paginate primaryKey args pivot =>
    rw [perform_paginate, Traced.result_lift, paginate_eq, Outcome.map_eq_ok] at performed
    obtain ⟨w, -, rfl⟩ := performed
    exact inv.appendTo held w
  | filter p =>
    cases performed
    exact inv.filter s held p
  | project fields =>
    cases performed
    exact inv.project s held fields
  | sort order =>
    cases performed
    exact inv.sortBy s held _
  | sortBy keys =>
    cases performed
    exact inv.sortBy s held keys
  | skip n =>
    cases performed
    exact inv.skip s held n
  | limit n =>
    cases performed
    exact inv.limit s held n
  | count field =>
    cases performed
    exact inv.count s held field

theorem Invariant.performAll (inv : Invariant holds) (held : holds s) (ops : List Operation) :
    holds (s.performAll ops) := by
  induction ops generalizing s with
  | nil => exact held
  | cons op rest ih =>
    refine ih (s := s.performed op) ?_
    cases done : (s.perform op).result with
    | ok t =>
      rw [performed_of_ok done]
      exact inv.perform held done
    | error e =>
      rw [performed_of_error done]
      exact held

theorem Invariant.of_change (blank : ∀ s : Staging, s.Blank → holds s)
    (kept : ∀ {s t : Staging} {op : Operation} {lines : List Log.Entry},
      Change s op lines t → holds s → holds t) : Invariant holds where
  blank := blank
  filter _ held p := kept (change_of_perform (.filter p) rfl) held
  lookup _ held _ _ _ found := kept (change_of_lookup found) held
  project _ held fields := kept (change_of_perform (.project fields) rfl) held
  sortBy _ held keys := kept (change_of_perform (.sortBy keys) rfl) held
  skip _ held n := kept (change_of_perform (.skip n) rfl) held
  limit _ held n := kept (change_of_perform (.limit n) rfl) held
  count _ held field := kept (change_of_perform (.count field) rfl) held

def Counted (s : Staging) : Prop := s.joinsStaged = s.lookups.length

theorem counted_append {stages : List Stage} (unjoined : stages.filterMap Stage.lookup? = [])
    (counted : s.Counted) : (s.append stages).Counted := by
  simpa [Counted, append, lookups, unjoined] using counted

theorem counted_of_change {op : Operation} {lines : List Log.Entry}
    (change : Change s op lines t) (counted : s.Counted) : t.Counted := by
  cases change with
  | append stages other plain => exact counted_append (lookups_of_plain plain) counted
  | @join name options r known fresh =>
    refine counted_append (lookups_of_plain (options.plain_extraStages _)) ?_
    simp only [Counted, stageJoin_lookups, List.length_append, List.length_singleton]
    exact congrArg (· + 1) counted
  | @collapse name options r known there =>
    exact counted_append (lookups_of_plain (options.plain_extraStages _)) counted

theorem counted_invariant : Invariant Counted :=
  .of_change (fun s ⟨stages, joins, _⟩ => by simp [Counted, lookups, stages, joins])
    counted_of_change

end

/-- What can be said of a computation on pipelines, by the pipeline that it starts from, the lines
that it logs and the pipeline that it ends with unless it fails. It can be said of no computation at
all, of every operation, and of one computation after another. -/
structure Courses (valid : Staging → List Log.Entry → Option Staging → Prop) : Prop where
  done : ∀ s, valid s [] (some s)
  refused : ∀ s, valid s [] none
  vanished : ∀ s fields, valid s [Log.Event.catalogInconsistent.entry fields] none
  performed : ∀ s op t, (s.perform op).result = .ok t → valid s (s.perform op).entries (some t)
  next : ∀ {s t lines more last}, valid s lines (some t) → valid t more last →
    valid s (lines ++ more) last

theorem Courses.filter {valid : Staging → List Log.Entry → Option Staging → Prop}
    (courses : Courses valid) (s : Staging) (p : Predicate) : valid s [] (some (s.filter p)) :=
  courses.performed s (.filter p) _ rfl

def linesOf (s : Staging) : List Operation → List Log.Entry
  | [] => []
  | op :: rest => (s.perform op).entries ++ (s.performed op).linesOf rest

theorem linesOf_of_ok {s t : Staging} {op : Operation} (done : (s.perform op).result = .ok t)
    (ops : List Operation) : s.linesOf (op :: ops) = (s.perform op).entries ++ t.linesOf ops := by
  rw [linesOf, performed_of_ok done]

theorem Courses.performAll {valid : Staging → List Log.Entry → Option Staging → Prop}
    (courses : Courses valid) (s : Staging) (ops : List Operation) :
    valid s (s.linesOf ops) (some (s.performAll ops)) := by
  induction ops generalizing s with
  | nil => exact courses.done s
  | cons op rest ih =>
    refine courses.next ?_ (ih (s.performed op))
    cases outcome : (s.perform op).result with
    | ok t =>
      rw [performed_of_ok outcome]
      exact courses.performed s op t outcome
    | error e =>
      rw [performed_of_error outcome, perform_of_error outcome]
      exact courses.done s

theorem Invariant.courses {holds : Staging → Prop} (inv : Invariant holds) :
    Courses fun s _ last => ∀ t, last = some t → holds s → holds t where
  done s t same held := by
    cases same
    exact held
  refused s t same := by cases same
  vanished s fields t same := by cases same
  performed s op t found u same held := by
    cases same
    exact inv.perform held found
  next first second t same held := second t same (first _ rfl held)

end Staging

def Traced.Follows {α : Type} (valid : Staging → List Log.Entry → Option Staging → Prop)
    (s : Staging) (pipeline : α → Staging) (x : Traced α) : Prop :=
  valid s x.entries (x.result.toOption.map pipeline)

namespace Traced

section

variable {α β : Type} {valid : Staging → List Log.Entry → Option Staging → Prop} {s : Staging}
  {pipeline : α → Staging} {other : β → Staging} {x : Traced α} {f : α → Traced β}

theorem follows_pure (courses : Staging.Courses valid) {a : α} (same : pipeline a = s) :
    (Pure.pure a : Traced α).Follows valid s pipeline := by
  have done := courses.done s
  rw [← same] at done ⊢
  exact done

theorem Follows.bind (courses : Staging.Courses valid) (first : x.Follows valid s pipeline)
    (rest : ∀ a, x.result = .ok a → (f a).Follows valid (pipeline a) other) :
    (x >>= f).Follows valid s other := by
  unfold Follows at first ⊢
  rw [entries_bind, result_bind]
  cases found : x.result with
  | error e =>
    rw [found] at first
    simp only [List.append_nil]
    exact first
  | ok a =>
    rw [found] at first
    exact courses.next first (rest a found)

theorem follows_after (courses : Staging.Courses valid) (silent : x.entries = [])
    (rest : ∀ a, x.result = .ok a → (f a).Follows valid s other) :
    (x >>= f).Follows valid s other := by
  unfold Follows at rest ⊢
  rw [entries_bind, result_bind, silent, List.nil_append]
  cases found : x.result with
  | error e => exact courses.refused s
  | ok a => exact rest a found

end

end Traced

/-- What the run of a compiler does to the builder. It makes operations, on a pipeline that `starts`
admits for the one it is given, and logs what `logs` admits for the lines of those operations. -/
def NodeCompiler.Performs (starts : Staging → Staging → Prop)
    (logs : List Log.Entry → List Log.Entry → Prop) (c : NodeCompiler) : Prop :=
  ∀ scope draft, ∃ start ops, starts draft.pipeline start ∧
    logs (start.linesOf ops) (c.run scope draft).entries ∧
      ∀ done, (c.run scope draft).result = .ok done → done.pipeline = start.performAll ops

namespace NodeCompiler

-- All that the builder admits: a compiler may put a blank pipeline in the place of the one it is
-- given, and nothing is said about its lines.
def Builds : NodeCompiler → Prop :=
  Performs (fun given start => start = given ∨ start.Blank) fun _ _ => True

-- Leaves out other pipelines.
def BuildsOn : NodeCompiler → Prop := Performs (fun given start => start = given) fun _ _ => True

-- Leaves out other lines as well, and with them operations on a copy of the pipeline.
def Operates : NodeCompiler → Prop := Performs (fun given start => start = given) Eq

section

variable {starts fewer : Staging → Staging → Prop}
  {logs less : List Log.Entry → List Log.Entry → Prop} {c : NodeCompiler}

theorem Performs.mono (performs : c.Performs fewer less)
    (start : ∀ s t, fewer s t → starts s t) (line : ∀ own lines, less own lines → logs own lines) :
    c.Performs starts logs := by
  intro scope draft
  obtain ⟨start', ops, from_, logged, made⟩ := performs scope draft
  exact ⟨start', ops, start _ _ from_, line _ _ logged, made⟩

theorem Operates.buildsOn (operates : c.Operates) : c.BuildsOn :=
  operates.mono (fun _ _ same => same) fun _ _ _ => trivial

theorem BuildsOn.builds (builds : c.BuildsOn) : c.Builds :=
  builds.mono (fun _ _ same => .inl same) fun _ _ _ => trivial

def Follows (valid : Staging → List Log.Entry → Option Staging → Prop) (c : NodeCompiler) : Prop :=
  ∀ scope draft, (c.run scope draft).Follows valid draft.pipeline Draft.pipeline

-- The run goes as its operations do, if what it starts from and logs makes no difference.
theorem Performs.follows {valid : Staging → List Log.Entry → Option Staging → Prop}
    (courses : Staging.Courses valid)
    (alike : ∀ {given start lines entries last}, starts given start → logs lines entries →
      valid start lines last → valid given entries last)
    (performs : c.Performs starts logs) : c.Follows valid := by
  intro scope draft
  obtain ⟨start, ops, from_, logged, made⟩ := performs scope draft
  have performed := courses.performAll start ops
  refine alike from_ logged ?_
  cases compiled : (c.run scope draft).result with
  | error e =>
    have failed := courses.next performed (courses.refused _)
    rw [List.append_nil] at failed
    exact failed
  | ok done =>
    rw [← made done compiled] at performed
    exact performed

theorem Builds.follows (builds : c.Builds) {holds : Staging → Prop}
    (inv : Staging.Invariant holds) :
    c.Follows fun s _ last => ∀ t, last = some t → holds s → holds t := by
  refine Performs.follows inv.courses ?_ builds
  intro given start _ _ _ from_ _ kept t reached held
  rcases from_ with rfl | blank
  · exact kept t reached held
  · exact kept t reached (inv.blank start blank)

end

end NodeCompiler

theorem commentScore_operates (v : View) : (commentScore.on v).Operates := by
  intro scope draft
  let comments : Staging.Operation := .lookup "comments" {}
  simp only [CustomCompiler.on, commentScore, Traced.entries_bind, Traced.entries_note,
    Traced.result_bind, Traced.result_note, Outcome.ok_bind, List.nil_append]
  cases first : (draft.pipeline.perform comments).result with
  | error e =>
    rw [Staging.perform_lookup] at first
    refine ⟨_, [comments], rfl, ?_, fun done made => ?_⟩
    · simp [comments, Staging.linesOf, first]
    · simp [first] at made
  | ok once =>
    refine ⟨_, [comments, comments], rfl, ?_, fun done made => ?_⟩
    · rw [Staging.linesOf_of_ok first]
      rw [Staging.perform_lookup] at first ⊢
      cases second : (once.lookup "comments" {}).result <;>
        simp [comments, Staging.linesOf, first, second]
    · rw [Staging.performAll_of_ok first]
      rw [Staging.perform_lookup] at first
      simp only [first, Outcome.ok_bind, Outcome.bind_eq_ok] at made
      obtain ⟨twice, second, done⟩ := made
      cases done
      rw [← Staging.perform_lookup] at second
      exact (Staging.performed_of_ok second).symm

namespace Compile

open Staging Traced

section

variable {valid : Staging → List Log.Entry → Option Staging → Prop} (courses : Courses valid)

include courses

theorem lookup_follows (s : Staging) (name : String) (options : LookupOptions) :
    (s.lookup name options).Follows valid s id := by
  unfold Follows
  cases found : (s.lookup name options).result with
  | ok t => exact courses.performed s (.lookup name options) t found
  | error e =>
    rw [lookup_of_error found]
    exact courses.refused s

theorem performCall_follows (s : Staging) (call : JoinCall) :
    (performCall s call).Follows valid s id := by
  have performed := lookup_follows courses s call.relation { parent := call.parent }
  unfold performCall recover
  cases found : (s.lookup call.relation { parent := call.parent }).result with
  | ok t =>
    unfold Follows at performed
    rw [found] at performed
    exact performed
  | error e =>
    have failed := lookup_of_error found
    rw [failed] at found ⊢
    cases found
    exact courses.vanished s _

theorem performCalls_follow (s : Staging) (calls : List JoinCall) :
    (calls.foldlM performCall s).Follows valid s id := by
  induction calls generalizing s with
  | nil => exact follows_pure courses rfl
  | cons call rest ih =>
    rw [List.foldlM_cons]
    exact (performCall_follows courses s call).bind courses fun next _ => ih next

theorem joinNodes_follows (path : String) (ns : List Node) (s : Staging) :
    (joinNodes path ns s).Follows valid s id := by
  rw [joinNodes_calls]
  exact performCalls_follow courses s _

mutual

theorem node_follows (n : Node) (each : ∀ m ∈ n.within, m.Runs (·.Follows valid))
    (scope : String) (draft : Draft) :
    (node scope n draft).Follows valid draft.pipeline Draft.pipeline := by
  cases hidden : n.suppressed with
  | true =>
    rw [node_of_suppressed hidden]
    exact follows_pure courses rfl
  | false =>
    cases own : n.info.compiler with
    | some c =>
      rw [node_of_compiler hidden own]
      exact each n (Node.mem_within_self n) _ (Node.compiler?_of_some own) scope draft
    | none =>
      cases n with
      | field i name operator =>
        simp only [Node.suppressed_field] at hidden
        simp only [Node.info] at own
        simp only [node, hidden, own, Bool.false_eq_true, if_false]
        exact follows_after courses (entries_lift _) fun _ _ => follows_pure courses rfl
      | relation i r children =>
        simp only [Node.suppressed_relation] at hidden
        simp only [Node.info] at own
        simp only [node, hidden, own, Bool.false_eq_true, if_false]
        have below := (List.forall_mem_cons.mp each).2
        have inner := nodes_follows children below (scope ++ r.name ++ ".") ⟨[], draft.pipeline⟩
        exact inner.bind courses fun _ _ => follows_pure courses rfl
      | group i connective groups =>
        simp only [Node.suppressed_group] at hidden
        simp only [Node.info] at own
        simp only [node, hidden, own, Bool.false_eq_true, if_false]
        have below := (List.forall_mem_cons.mp each).2
        have inner := branches_follow groups below scope draft.pipeline
        refine inner.bind courses fun compiled _ => ?_
        split <;> exact follows_pure courses rfl

theorem nodes_follows (ns : List Node)
    (each : ∀ m ∈ Node.withinAll ns, m.Runs (·.Follows valid)) (scope : String) (draft : Draft) :
    (nodes scope ns draft).Follows valid draft.pipeline Draft.pipeline := by
  cases ns with
  | nil => exact follows_pure courses rfl
  | cons n rest =>
    obtain ⟨own, others⟩ := List.forall_mem_append.mp each
    exact (node_follows n own scope draft).bind courses fun next _ =>
      nodes_follows rest others scope next

theorem branches_follow (groups : List (List Node))
    (each : ∀ m ∈ Node.withinBranches groups, m.Runs (·.Follows valid)) (scope : String)
    (s : Staging) : (branches scope groups s).Follows valid s Prod.snd := by
  cases groups with
  | nil => exact follows_pure courses rfl
  | cons branch rest =>
    obtain ⟨own, others⟩ := List.forall_mem_append.mp each
    refine (nodes_follows branch own scope ⟨[], s⟩).bind courses fun draft _ => ?_
    refine (branches_follow rest others scope draft.pipeline).bind courses fun ⟨items, t⟩ _ => ?_
    dsimp only
    split <;> exact follows_pure courses rfl

end

theorem matchStage_follows {ns : List Node}
    (each : ∀ m ∈ Node.withinAll ns, m.Runs (·.Follows valid)) (s : Staging) :
    (matchStage ns s).Follows valid s id :=
  (nodes_follows courses ns each "" ⟨[], s⟩).bind courses fun draft _ =>
    courses.filter draft.pipeline draft.predicate

theorem stage_follows {ns : List Node}
    (each : ∀ m ∈ Node.withinAll ns, m.Runs (·.Follows valid)) (s : Staging) :
    (stage ns s).Follows valid s id := by
  refine (matchStage_follows courses (withinAll_filter each _) s).bind courses fun plain _ => ?_
  refine (joinNodes_follows courses "" _ plain).bind courses fun joined _ => ?_
  exact matchStage_follows courses (withinAll_filter each _) joined

end

end Compile

-- The pipeline that a filter was compiled on; nothing was staged for a predicate.
def CompiledFilter.EndsIn (t : Staging) : CompiledFilter → Prop
  | .predicate _ => t.stages = []
  | .staged s => s = t

theorem FilterCompiler.compileNodes_follows {c : FilterCompiler}
    {valid : Staging → List Log.Entry → Option Staging → Prop} (courses : Staging.Courses valid)
    (collection : String) {nodes : List Node}
    (each : ∀ m ∈ Node.withinAll nodes, m.Runs (·.Follows valid)) :
    ∃ last, valid (c.newPipeline collection) (c.compileNodes collection nodes).entries last ∧
      ∀ compiled, (c.compileNodes collection nodes).result = .ok compiled →
        ∃ t, last = some t ∧ compiled.EndsIn t := by
  unfold compileNodes
  split
  next =>
    have staged := Compile.stage_follows courses each (c.newPipeline collection)
    refine ⟨_, by rwa [Traced.entries_bind_silent fun _ => rfl], fun compiled found => ?_⟩
    simp only [Traced.result_bind, Outcome.bind_eq_ok] at found
    obtain ⟨t, made, done⟩ := found
    cases done
    exact ⟨t, by rw [made]; rfl, rfl⟩
  next =>
    have drafted : (Compile.predicate nodes "" (c.newPipeline collection)).Follows valid
        (c.newPipeline collection) Draft.pipeline :=
      Compile.nodes_follows courses nodes each "" ⟨[], c.newPipeline collection⟩
    unfold Traced.Follows at drafted
    rw [Traced.entries_bind_silent fun draft => by split <;> rfl, Traced.result_bind]
    cases made : (Compile.predicate nodes "" (c.newPipeline collection)).result with
    | error e =>
      rw [made] at drafted
      exact ⟨none, drafted, fun compiled found => by cases found⟩
    | ok draft =>
      rw [made] at drafted
      rw [Outcome.ok_bind]
      split
      next empty =>
        refine ⟨_, drafted, fun compiled found => ⟨_, rfl, ?_⟩⟩
        cases found
        exact List.isEmpty_iff.mp empty
      next =>
        have filtered := courses.next drafted (courses.filter draft.pipeline draft.predicate)
        rw [List.append_nil] at filtered
        refine ⟨_, filtered, fun compiled found => ⟨_, rfl, ?_⟩⟩
        cases found
        rfl

theorem FilterCompiler.compileNodes_keeps {c : FilterCompiler} {holds : Staging → Prop}
    (inv : Staging.Invariant holds) {collection : String} {nodes : List Node}
    (builds : ∀ m ∈ Node.withinAll nodes, m.Runs NodeCompiler.Builds) {s : Staging}
    (compiled : (c.compileNodes collection nodes).result = .ok (.staged s)) : holds s := by
  have start : holds (c.newPipeline collection) := inv.blank _ ⟨rfl, rfl, rfl⟩
  have follows : ∀ m ∈ Node.withinAll nodes, m.Runs (·.Follows _) :=
    fun m inside custom own => (builds m inside custom own).follows inv
  obtain ⟨last, kept, ends⟩ := c.compileNodes_follows inv.courses collection follows
  obtain ⟨t, reached, rfl⟩ := ends _ compiled
  exact kept _ reached start

namespace Planner

theorem plan_result (p : Planner) (kind : ReadKind) (collection : String) (filter : Json)
    (args : PageArgs) (pivot : Option Json) :
    (p.plan kind collection filter args pivot).result = do
      let window ← p.windowFor kind args pivot
      let compiled ← (p.compiler.compile collection filter).result
      return finish kind collection window compiled := by
  simp [plan]

def Builds (p : Planner) : Prop :=
  ∀ collection filter nodes, (p.compiler.parse collection filter).result = .ok nodes →
    ∀ m ∈ Node.withinAll nodes, m.Runs NodeCompiler.Builds

theorem carries_of_rules {p : Planner} {fit : CustomCompiler → Prop} {rules : List Rule}
    (built : p.visitors = rules.map Rule.visitor)
    (attached : ∀ target c, .custom target c ∈ rules → fit c) :
    ∀ collection filter nodes, (p.compiler.parse collection filter).result = .ok nodes →
      ∀ m ∈ Node.withinAll nodes, m.Carries fit := by
  intro collection filter nodes parsed
  have all : p.compiler.visitors = (Rule.ofConfig p.config :: rules).map Rule.visitor := by
    simp [compiler, built]
  refine p.compiler.parse_carries all (fun target c listed => ?_) parsed
  rcases List.mem_cons.mp listed with own | others
  · cases own
  · exact attached target c others

theorem runs_of_rules {p : Planner} {fit : NodeCompiler → Prop} {rules : List Rule}
    (built : p.visitors = rules.map Rule.visitor)
    (attached : ∀ target c, .custom target c ∈ rules → ∀ v, fit (c.on v)) :
    ∀ collection filter nodes, (p.compiler.parse collection filter).result = .ok nodes →
      ∀ m ∈ Node.withinAll nodes, m.Runs fit := by
  intro collection filter nodes parsed m inside
  exact (carries_of_rules built attached collection filter nodes parsed m inside).runs

theorem builds_of_rules {p : Planner} {rules : List Rule}
    (built : p.visitors = rules.map Rule.visitor)
    (attached : ∀ target c, .custom target c ∈ rules → ∀ v, (c.on v).Builds) : p.Builds :=
  runs_of_rules built attached

-- A read is planned directly, with no join counted, or as a pipeline that operations made, with the
-- counts of that pipeline.
theorem plan_cases {p : Planner} (builds : p.Builds) {holds : Staging → Prop}
    (inv : Staging.Invariant holds) {kind : ReadKind} {collection : String} {filter : Json}
    {args : PageArgs} {pivot : Option Json} {planned : Planned}
    (found : (p.plan kind collection filter args pivot).result = .ok planned) :
    (∃ request, planned = { plan := .direct request }) ∨
      ∃ s, holds s ∧ planned = ⟨.aggregate s.finish, s.joinsStaged, s.joinsDeduplicated⟩ := by
  simp only [plan_result, Outcome.bind_eq_ok] at found
  obtain ⟨window, -, compiled, compiling, made⟩ := found
  cases made
  cases compiled with
  | predicate q => exact .inl ⟨_, rfl⟩
  | staged s =>
    simp only [FilterCompiler.compile, Traced.result_bind, Outcome.bind_eq_ok] at compiling
    obtain ⟨nodes, parsed, staged⟩ := compiling
    have compiled : holds s :=
      p.compiler.compileNodes_keeps inv (builds collection filter nodes parsed) staged
    have kept := inv.appendTo compiled window
    refine .inr ⟨_, ?_, rfl⟩
    split
    · exact inv.count _ kept countField
    · exact kept

end Planner

end DocQuery
