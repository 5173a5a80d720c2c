import DocQuery.Proofs.Building

set_option autoImplicit false

namespace DocQuery

namespace Log

theorem Event.label_inj {e f : Event} : e.label = f.label ↔ e = f := by
  cases e <;> cases f <;> simp [label]

def Entry.Of (events : List Event) (entry : Entry) : Prop := ∃ e ∈ events, entry.name = e.label

theorem Entry.Of.mono {events more : List Event} (included : events ⊆ more) {entry : Entry}
    (of_ : entry.Of events) : entry.Of more := by
  obtain ⟨e, listed, named⟩ := of_
  exact ⟨e, included listed, named⟩

theorem Event.of_entry {events : List Event} {e : Event} (listed : e ∈ events)
    (fields : List (String × String)) : (e.entry fields).Of events :=
  ⟨e, listed, rfl⟩

def tally (e : Event) (entries : List Entry) : Nat := entries.countP (·.name = e.label)

@[simp] theorem tally_nil (e : Event) : tally e [] = 0 := rfl

@[simp] theorem tally_append (e : Event) (entries more : List Entry) :
    tally e (entries ++ more) = tally e entries + tally e more :=
  List.countP_append

theorem tally_entry (e f : Event) (fields : List (String × String)) :
    tally e [f.entry fields] = if f = e then 1 else 0 := by
  simp [tally, Event.entry, Event.label_inj, List.countP_cons]

theorem tally_of_others {events : List Event} {e : Event} (other : e ∉ events)
    {entries : List Entry} (all : ∀ entry ∈ entries, entry.Of events) : tally e entries = 0 := by
  rw [tally, List.countP_eq_zero]
  intro entry inside same
  obtain ⟨f, listed, named⟩ := all entry inside
  rw [decide_eq_true_iff, named, Event.label_inj] at same
  exact other (same ▸ listed)

end Log

open Log

-- The lines of reading a filter and of showing its nodes to visitors.
def Log.Event.reading : List Event := [.relationCycle, .nodeSuppressed]

-- The lines of compiling it.
def Log.Event.compiling : List Event := [.joinStaged, .joinDeduplicated, .catalogInconsistent]

def Log.Event.detail : List Event := reading ++ compiling

theorem Traced.logs_silent {α : Type} {x : Traced α} (silent : x.entries = [])
    (fine : Entry → Prop) : x.Logs fine := by
  simp [Traced.Logs, silent]

namespace FilterParser

open Traced

variable (p : FilterParser)

theorem noteCycle_logs (outer inner : Place) :
    (noteCycle outer inner).Logs (Entry.Of [.relationCycle]) := by
  unfold noteCycle
  split
  next => simpa [Logs] using Event.of_entry (by simp) _
  next => exact logs_silent rfl _

theorem enter_logs (place : Place) (fine : Entry → Prop) : (p.enter place).Logs fine := by
  unfold enter
  split <;> exact logs_silent rfl _

mutual

theorem parseEntry_logs (place : Place) (key : String) (value : Json) :
    (p.parseEntry place key value).Logs (Entry.Of [.relationCycle]) := by
  have closed := closed_logs (Entry.Of [.relationCycle])
  unfold parseEntry
  split
  next => exact logs_silent rfl _
  next =>
    split
    next =>
      cases value with
      | arr items =>
        refine closed.bind (p.enter_logs _ _) fun _ _ => ?_
        exact closed.bind (parseBranches_logs _ key items) fun _ _ => closed.pure _
      | _ => exact logs_silent rfl _
    next =>
      cases value with
      | obj members =>
        refine closed.bind (p.enter_logs _ _) fun _ _ => ?_
        refine closed.bind (noteCycle_logs _ _) fun _ _ => ?_
        exact closed.bind (parseMembers_logs _ members) fun _ _ => closed.pure _
      | _ => exact logs_silent rfl _
    next => exact logs_silent rfl _

theorem parseMembers_logs (place : Place) (members : List (String × Json)) :
    (p.parseMembers place members).Logs (Entry.Of [.relationCycle]) := by
  have closed := closed_logs (Entry.Of [.relationCycle])
  cases members with
  | nil => exact closed.pure _
  | cons member rest =>
    obtain ⟨key, value⟩ := member
    refine closed.bind (parseEntry_logs place key value) fun _ _ => ?_
    exact closed.bind (parseMembers_logs place rest) fun _ _ => closed.pure _

theorem parseBranches_logs (place : Place) (key : String) (items : List Json) :
    (p.parseBranches place key items).Logs (Entry.Of [.relationCycle]) := by
  have closed := closed_logs (Entry.Of [.relationCycle])
  cases items with
  | nil => exact closed.pure _
  | cons item rest =>
    cases item with
    | obj members =>
      refine closed.bind (parseMembers_logs place members) fun _ _ => ?_
      exact closed.bind (parseBranches_logs place key rest) fun _ _ => closed.pure _
    | _ => exact logs_silent rfl _

end

theorem parse_logs (collection : String) (filter : Json) :
    (p.parse collection filter).Logs (Entry.Of [.relationCycle]) := by
  cases filter with
  | obj members => exact p.parseMembers_logs _ members
  | _ => exact logs_silent rfl _

end FilterParser

-- A visitor logs nothing but the cycles that it builds.
def Visitor.LogsCycles (parser : FilterParser) (v : Visitor) : Prop :=
  ∀ n path, (v.visit n ⟨parser, n.info.collection, path⟩).Logs (Entry.Of [.relationCycle])

theorem Rule.visitor_logsCycles (rule : Rule) (parser : FilterParser) :
    rule.visitor.LogsCycles parser :=
  fun _ _ => Traced.logs_silent rfl _

theorem FilterCompiler.parse_logs (c : FilterCompiler)
    (visits : ∀ v ∈ c.visitors, v.LogsCycles c.parser) (collection : String) (filter : Json) :
    (c.parse collection filter).Logs (Entry.Of Event.reading) := by
  have closed := Traced.closed_logs (Entry.Of Event.reading)
  have cycle : [Event.relationCycle] ⊆ Event.reading := by simp [Event.reading]
  refine closed.bind (fun entry inside => ?_) fun nodes _ => ?_
  · exact (c.parser.parse_logs collection filter entry inside).mono cycle
  · refine Visit.apply_closed closed ?_ (fun _ _ => Traced.logs_silent rfl _) ?_ nodes
    · intro n v
      simpa [Traced.Logs, Visit.logSuppressed] using Event.of_entry (by simp [Event.reading]) _
    · exact fun v listed n path entry inside => (visits v listed n path entry inside).mono cycle

namespace Staging

variable {s t : Staging}

structure Tallied (s : Staging) (lines : List Entry) (t : Staging) : Prop where
  staged : t.joinsStaged = s.joinsStaged + tally .joinStaged lines
  collapsed : t.joinsDeduplicated = s.joinsDeduplicated + tally .joinDeduplicated lines
  bare : t.stages = [] →
    s.stages = [] ∧ tally .joinStaged lines = 0 ∧ tally .joinDeduplicated lines = 0

theorem Tallied.next {u : Staging} {lines more : List Entry} (first : s.Tallied lines t)
    (second : t.Tallied more u) : s.Tallied (lines ++ more) u where
  staged := by rw [second.staged, first.staged, tally_append, Nat.add_assoc]
  collapsed := by rw [second.collapsed, first.collapsed, tally_append, Nat.add_assoc]
  bare empty := by
    obtain ⟨middle, staged, collapsed⟩ := second.bare empty
    obtain ⟨start, stagedBefore, collapsedBefore⟩ := first.bare middle
    simp [start, staged, collapsed, stagedBefore, collapsedBefore]

theorem lookups_of_bare (bare : s.stages = []) : s.lookups = [] := by simp [lookups, bare]

theorem tallied_of_change {op : Operation} {lines : List Entry} (change : Change s op lines t) :
    s.Tallied lines t := by
  cases change with
  | append stages other plain => exact ⟨rfl, rfl, fun empty => by simp_all [append]⟩
  | @join name options r known fresh =>
    refine ⟨?_, ?_, fun empty => ?_⟩
    · simp [joinedEntry, tally_entry, append, stageJoin]
    · simp [joinedEntry, tally_entry, append, stageJoin]
    · have unjoined := lookups_of_bare empty
      rw [lookups_append_plain _ (options.plain_extraStages _), stageJoin_lookups] at unjoined
      simp at unjoined
  | @collapse name options r known there =>
    refine ⟨?_, ?_, fun empty => ?_⟩
    · simp [collapsedEntry, tally_entry, append, collapse]
    · simp [collapsedEntry, tally_entry, append, collapse]
    · have unjoined : s.lookups = [] := by
        rw [← lookups_of_bare empty, lookups_append_plain _ (options.plain_extraStages _)]
        rfl
      obtain ⟨l, inside, -⟩ := alreadyStaged_iff.mp (Bool.and_eq_true_iff.mp there).2
      simp [unjoined] at inside

theorem lines_of_change {op : Operation} {lines : List Entry} (change : Change s op lines t) :
    ∀ entry ∈ lines, entry.Of Event.compiling := by
  cases change with
  | append stages other plain => simp
  | join known fresh =>
    exact List.forall_mem_singleton.mpr (Event.of_entry (by simp [Event.compiling]) _)
  | collapse known there =>
    exact List.forall_mem_singleton.mpr (Event.of_entry (by simp [Event.compiling]) _)

def Reported (s : Staging) (lines : List Entry) (last : Option Staging) : Prop :=
  (∀ entry ∈ lines, entry.Of Event.compiling) ∧ ∀ t, last = some t → s.Tallied lines t

theorem reported_courses : Courses Reported where
  done s := ⟨by simp, fun t same => by cases same; exact ⟨rfl, rfl, by simp⟩⟩
  refused s := ⟨by simp, fun t same => by cases same⟩
  vanished s fields := by
    refine ⟨?_, fun t same => by cases same⟩
    simpa using Event.of_entry (by simp [Event.compiling]) fields
  performed s op t found := by
    have change := change_of_perform op found
    refine ⟨lines_of_change change, fun u same => ?_⟩
    cases same
    exact tallied_of_change change
  next first second :=
    ⟨List.forall_mem_append.mpr ⟨first.1, second.1⟩,
      fun u same => (first.2 _ rfl).next (second.2 u same)⟩

end Staging

theorem NodeCompiler.Operates.follows {c : NodeCompiler} (operates : c.Operates)
    {valid : Staging → List Entry → Option Staging → Prop} (courses : Staging.Courses valid) :
    c.Follows valid := by
  refine Performs.follows courses ?_ operates
  rintro given start lines entries last rfl rfl led
  exact led

namespace Planner

def Operates (p : Planner) : Prop :=
  ∀ collection filter nodes, (p.compiler.parse collection filter).result = .ok nodes →
    ∀ m ∈ Node.withinAll nodes, m.Runs NodeCompiler.Operates

def LogsCycles (p : Planner) : Prop := ∀ v ∈ p.visitors, v.LogsCycles p.compiler.parser

theorem operates_of_rules {p : Planner} {rules : List Rule}
    (built : p.visitors = rules.map Rule.visitor)
    (attached : ∀ target c, .custom target c ∈ rules → ∀ v, (c.on v).Operates) : p.Operates :=
  runs_of_rules built attached

theorem logsCycles_of_rules {p : Planner} {rules : List Rule}
    (built : p.visitors = rules.map Rule.visitor) : p.LogsCycles := by
  intro v listed
  rw [built] at listed
  obtain ⟨rule, -, rfl⟩ := List.mem_map.mp listed
  exact rule.visitor_logsCycles _

theorem finish_joins (kind : ReadKind) (collection : String) (window : Window)
    {compiled : CompiledFilter} {s t : Staging} {lines : List Entry} (blank : s.Blank)
    (tallied : s.Tallied lines t) (ends : compiled.EndsIn t) :
    (finish kind collection window compiled).joinsStaged = tally .joinStaged lines ∧
      (finish kind collection window compiled).joinsDeduplicated =
        tally .joinDeduplicated lines := by
  cases compiled with
  | predicate p =>
    obtain ⟨-, staged, collapsed⟩ := tallied.bare ends
    exact ⟨staged.symm, collapsed.symm⟩
  | staged u =>
    obtain rfl : u = t := ends
    have staged := tallied.staged
    have collapsed := tallied.collapsed
    rw [blank.2.1, Nat.zero_add] at staged
    rw [blank.2.2, Nat.zero_add] at collapsed
    rw [← staged, ← collapsed, finish, window.appendTo_eq_append]
    split <;> exact ⟨rfl, rfl⟩

theorem compiler_logsCycles {p : Planner} (cycles : p.LogsCycles) :
    ∀ v ∈ p.compiler.visitors, v.LogsCycles p.compiler.parser :=
  List.forall_mem_cons.mpr ⟨Rule.visitor_logsCycles _ _, cycles⟩

theorem compile_lines {p : Planner} (cycles : p.LogsCycles) (operates : p.Operates)
    (collection : String) (filter : Json) :
    (∀ entry ∈ (p.compiler.compile collection filter).entries, entry.Of Event.detail) ∧
      ∀ compiled, (p.compiler.compile collection filter).result = .ok compiled →
        ∀ kind window,
          (finish kind collection window compiled).joinsStaged =
            tally .joinStaged (p.compiler.compile collection filter).entries ∧
          (finish kind collection window compiled).joinsDeduplicated =
            tally .joinDeduplicated (p.compiler.compile collection filter).entries := by
  have reading := p.compiler.parse_logs (compiler_logsCycles cycles) collection filter
  have read : Event.reading ⊆ Event.detail := List.subset_append_left _ _
  have compiles : Event.compiling ⊆ Event.detail := List.subset_append_right _ _
  unfold FilterCompiler.compile
  cases parsed : (p.compiler.parse collection filter).result with
  | error e =>
    rw [Traced.entries_bind, Traced.result_bind, parsed]
    refine ⟨?_, fun compiled found => by cases found⟩
    simpa using fun entry inside => (reading entry inside).mono read
  | ok nodes =>
    have follows : ∀ m ∈ Node.withinAll nodes, m.Runs (·.Follows Staging.Reported) :=
      fun m inside => (operates collection filter nodes parsed m inside).mono
        fun c own => own.follows Staging.reported_courses
    obtain ⟨last, ⟨lines, tallied⟩, ends⟩ :=
      p.compiler.compileNodes_follows Staging.reported_courses collection follows
    rw [Traced.entries_bind_of_ok parsed, Traced.result_bind, parsed, Outcome.ok_bind]
    refine ⟨?_, fun compiled found kind window => ?_⟩
    · exact List.forall_mem_append.mpr ⟨fun entry inside => (reading entry inside).mono read,
        fun entry inside => (lines entry inside).mono compiles⟩
    · obtain ⟨t, reached, endsIn⟩ := ends compiled found
      have unread (e : Event) (other : e ∉ Event.reading) :
          tally e (p.compiler.parse collection filter).entries = 0 :=
        tally_of_others other reading
      rw [tally_append, tally_append, unread _ (by simp [Event.reading]),
        unread _ (by simp [Event.reading]), Nat.zero_add, Nat.zero_add]
      exact finish_joins kind collection window ⟨rfl, rfl, rfl⟩ (tallied t reached) endsIn

def PlannedAfter (detail : List Entry) (x : Traced Planned) : Prop :=
  match x.result with
  | .ok planned =>
    (∃ line : Entry, line.name = Event.queryPlanned.label ∧ x.entries = detail ++ [line]) ∧
      planned.joinsStaged = tally .joinStaged detail ∧
      planned.joinsDeduplicated = tally .joinDeduplicated detail
  | .error _ => x.entries = detail

theorem plan_lines {p : Planner} (cycles : p.LogsCycles) (operates : p.Operates) (kind : ReadKind)
    (collection : String) (filter : Json) (args : PageArgs) (pivot : Option Json) :
    ∃ detail, (∀ entry ∈ detail, entry.Of Event.detail) ∧
      PlannedAfter detail (p.plan kind collection filter args pivot) := by
  unfold plan
  cases p.windowFor kind args pivot with
  | error e => exact ⟨[], by simp, rfl⟩
  | ok window =>
    obtain ⟨lines, counted⟩ := compile_lines cycles operates collection filter
    refine ⟨_, lines, ?_⟩
    unfold PlannedAfter
    rw [Traced.lift_ok, pure_bind, Traced.result_bind, Traced.entries_bind]
    cases compiled : (p.compiler.compile collection filter).result with
    | error e => simp
    | ok found =>
      obtain ⟨staged, collapsed⟩ := counted found compiled kind window
      exact ⟨⟨_, rfl, rfl⟩, staged, collapsed⟩

end Planner

end DocQuery
