import DocQuery.Proofs.CatalogChange
import DocQuery.Proofs.CatalogLoading
import DocQuery.Proofs.LogSegments
import DocQuery.Proofs.OperationHistory
import DocQuery.Proofs.Placement

set_option autoImplicit false

namespace DocQuery

open List (Forall₂)

namespace Staging

structure Keeps (s t : Staging) : Prop where
  catalog : t.catalog = s.catalog
  joins : s.lookups ⊆ t.lookups

variable {s t u : Staging}

theorem Keeps.refl (s : Staging) : s.Keeps s := ⟨rfl, List.Subset.refl _⟩

theorem Keeps.trans (first : s.Keeps t) (second : t.Keeps u) : s.Keeps u :=
  ⟨second.catalog.trans first.catalog, List.Subset.trans first.joins second.joins⟩

theorem keeps_append (s : Staging) (stages : List Stage) : s.Keeps (s.append stages) :=
  ⟨rfl, by simp [lookups, append]⟩

theorem keeps_of_change {op : Operation} {lines : List Log.Entry} (change : Change s op lines t) :
    s.Keeps t := by
  cases change with
  | append stages other plain => exact keeps_append s stages
  | @join name options r known fresh =>
    have staged : s.Keeps (s.stageJoin (joinFor r options)) := ⟨rfl, by simp⟩
    exact staged.trans (keeps_append _ _)
  | @collapse name options r known there =>
    have collapsed : s.Keeps s.collapse := ⟨rfl, List.Subset.refl _⟩
    exact collapsed.trans (keeps_append _ _)

theorem keeps_courses :
    Courses fun s _ last => ∀ t, last = some t → s.Keeps t where
  done s t same := by
    cases same
    exact .refl s
  refused s t same := by cases same
  vanished s fields t same := by cases same
  performed s op t found u same := by
    cases same
    exact keeps_of_change (change_of_perform op found)
  next first second u same := (first _ rfl).trans (second u same)

end Staging

theorem NodeCompiler.BuildsOn.follows {c : NodeCompiler} (builds : c.BuildsOn) :
    c.Follows fun s _ last => ∀ t, last = some t → s.Keeps t := by
  refine Performs.follows Staging.keeps_courses ?_ builds
  rintro given start _ _ _ rfl - kept
  exact kept

def Staging.outputs (s : Staging) : List String := s.lookups.map (·.output)

def ChainJoined (chain : List Relation) (joins : List Lookup) : Prop :=
  ∀ outer q, outer ++ [q] <+: chain →
    ∃ l ∈ joins, l.relation.name = q.name ∧ l.output = chainPath (outer ++ [q])

theorem ChainJoined.mono {chain : List Relation} {joins more : List Lookup} (kept : joins ⊆ more)
    (joined : ChainJoined chain joins) : ChainJoined chain more := by
  intro outer q within
  obtain ⟨l, listed, named⟩ := joined outer q within
  exact ⟨l, kept listed, named⟩

structure CustomRun where
  place : Node.Placed
  compiler : NodeCompiler
  scope : String
  draft : Draft

namespace CustomRun

def call (r : CustomRun) : Invocation :=
  ⟨r.compiler.name, r.place.node.subject, r.scope, r.draft.pipeline.outputs⟩

def calls (r : CustomRun) : List Invocation := (r.compiler.run r.scope r.draft).invocations

/-- What is known of a run in the course of compiling. The joins are those that were on the pipeline
at some time before, if they stay there. -/
structure Serves (stays : Prop) (joins : List Lookup) (r : CustomRun) : Prop where
  compiler : r.place.node.compiler? = some r.compiler
  scope : r.scope = chainScope r.place.chain
  joins : stays → joins ⊆ r.draft.pipeline.lookups

theorem Serves.mono {stays : Prop} {joins fewer : List Lookup} {r : CustomRun}
    (kept : stays → fewer ⊆ joins) (serves : r.Serves stays joins) : r.Serves stays fewer :=
  { serves with joins := fun stay => List.Subset.trans (kept stay) (serves.joins stay) }

end CustomRun

def InOrder (good : CustomRun → Prop) (nodes : List Node.Placed) (calls : List Invocation) : Prop :=
  ∃ runs : List CustomRun, runs.map (·.place) = nodes ∧ runs.flatMap CustomRun.calls = calls ∧
    ∀ r ∈ runs, good r

namespace InOrder

variable {good other : CustomRun → Prop} {nodes others : List Node.Placed}
  {calls more : List Invocation}

theorem nil : InOrder good [] [] := ⟨[], rfl, rfl, by simp⟩

theorem imp (weaken : ∀ r, good r → other r) (inOrder : InOrder good nodes calls) :
    InOrder other nodes calls := by
  obtain ⟨runs, placed, all, each⟩ := inOrder
  exact ⟨runs, placed, all, fun r listed => weaken r (each r listed)⟩

theorem append (first : InOrder good nodes calls) (second : InOrder good others more) :
    InOrder good (nodes ++ others) (calls ++ more) := by
  obtain ⟨runs, rfl, rfl, each⟩ := first
  obtain ⟨later, rfl, rfl, rest⟩ := second
  exact ⟨runs ++ later, List.map_append, List.flatMap_append,
    List.forall_mem_append.mpr ⟨each, rest⟩⟩

end InOrder

namespace Compile

open Node

section

variable {above : List Node} {draft done : Draft}

def scopeWithin (above : List Node) : String := chainScope (above.filterMap relation?)

variable {stays : Prop}

def Serves (stays : Prop) (s : Staging) (nodes : List Placed) (calls : List Invocation) : Prop :=
  InOrder (CustomRun.Serves stays s.lookups) nodes calls

theorem Serves.mono {s t : Staging} {nodes : List Placed} {calls : List Invocation}
    (keeps : stays → s.Keeps t) (serves : Serves stays t nodes calls) :
    Serves stays s nodes calls :=
  InOrder.imp (fun _ each => each.mono fun stay => (keeps stay).joins) serves

theorem runCustom_serves {c : CustomCompiler} {n : Node} (own : n.info.compiler = some c)
    (draft : Draft) :
    Serves stays draft.pipeline [⟨above, n⟩]
      (runCustom c n (scopeWithin above) draft).invocations := by
  refine ⟨[⟨⟨above, n⟩, c.on n.view, scopeWithin above, draft⟩], rfl,
    List.flatMap_singleton _ _, List.forall_mem_singleton.mpr ?_⟩
  exact ⟨compiler?_of_some own, rfl, fun _ => List.Subset.refl _⟩

@[simp] theorem scopeWithin_relation (i : Info) (r : Relation) (children : List Node) :
    scopeWithin (above ++ [.relation i r children]) = scopeWithin above ++ r.name ++ "." := by
  rw [scopeWithin, chain_within]
  exact chainScope_snoc _ r

@[simp] theorem scopeWithin_group (i : Info) (connective : Connective)
    (groups : List (List Node)) :
    scopeWithin (above ++ [.group i connective groups]) = scopeWithin above := by
  rw [scopeWithin, chain_within]
  simp [relation?, scopeWithin]

theorem node_keeps {n : Node} (builds : ∀ m ∈ n.within, m.Runs NodeCompiler.BuildsOn)
    {scope : String} (compiled : (node scope n draft).result = .ok done) :
    draft.pipeline.Keeps done.pipeline := by
  have follows := node_follows Staging.keeps_courses n
    (fun m inside => (builds m inside).mono fun _ own => own.follows) scope draft
  unfold Traced.Follows at follows
  rw [compiled] at follows
  exact follows _ rfl

theorem nodes_keep {ns : List Node}
    (builds : ∀ m ∈ withinAll ns, m.Runs NodeCompiler.BuildsOn)
    {scope : String} (compiled : (nodes scope ns draft).result = .ok done) :
    draft.pipeline.Keeps done.pipeline := by
  have follows := nodes_follows Staging.keeps_courses ns
    (fun m inside => (builds m inside).mono fun _ own => own.follows) scope draft
  unfold Traced.Follows at follows
  rw [compiled] at follows
  exact follows _ rfl

-- Each run finds the joins that were there at the start, as the pipeline only grows.
mutual

theorem node_serves (n : Node) (builds : stays → ∀ m ∈ n.within, m.Runs NodeCompiler.BuildsOn)
    {above : List Node} (opened : ∀ m ∈ above, m.isOpen = true) {draft done : Draft}
    (compiled : (node (scopeWithin above) n draft).result = .ok done) :
    Serves stays draft.pipeline (runsIn above n) (node (scopeWithin above) n draft).invocations := by
  cases hidden : n.suppressed with
  | true =>
    rw [runsIn_of_suppressed hidden, node_of_suppressed hidden]
    exact InOrder.nil
  | false =>
    cases own : n.info.compiler with
    | some c =>
      rw [runsIn_of_compiler hidden (by simp [own]) opened, node_of_compiler hidden own]
      exact runCustom_serves own draft
    | none =>
      have extended : ∀ m ∈ above ++ [n], m.isOpen = true := by
        simpa [or_imp, forall_and, isOpen, hidden, own] using opened
      rw [runsIn_of_standard own]
      cases n with
      | field i name operator =>
        simp only [Node.suppressed_field] at hidden
        simp only [Node.info] at own
        simp only [node, hidden, own, Bool.false_eq_true, if_false]
        rw [Traced.invocations_bind, Traced.invocations_lift, List.nil_append]
        cases (Traced.lift (fieldClause name operator i.value)).result <;> exact InOrder.nil
      | relation i r children =>
        simp only [Node.suppressed_relation] at hidden
        simp only [Node.info] at own
        simp only [node, hidden, own, Bool.false_eq_true, if_false, Traced.result_bind,
          Outcome.bind_eq_ok] at compiled ⊢
        obtain ⟨inner, found, -⟩ := compiled
        rw [← scopeWithin_relation i r children] at found ⊢
        have inside stay := (List.forall_mem_cons.mp (builds stay)).2
        have below := nodes_serve children inside extended found
        rw [Traced.invocations_bind_of_ok found, Traced.invocations_pure, List.append_nil]
        simpa [Node.branches] using below
      | group i connective groups =>
        simp only [Node.suppressed_group] at hidden
        simp only [Node.info] at own
        simp only [node, hidden, own, Bool.false_eq_true, if_false, Traced.result_bind,
          Outcome.bind_eq_ok] at compiled ⊢
        obtain ⟨inner, found, -⟩ := compiled
        rw [← scopeWithin_group i connective groups] at found ⊢
        have inside stay := (List.forall_mem_cons.mp (builds stay)).2
        have below := branches_serve groups inside extended found
        rw [Traced.invocations_bind_of_ok found]
        split <;> simpa [Node.branches] using below

theorem nodes_serve (ns : List Node)
    (builds : stays → ∀ m ∈ withinAll ns, m.Runs NodeCompiler.BuildsOn) {above : List Node}
    (opened : ∀ m ∈ above, m.isOpen = true) {draft done : Draft}
    (compiled : (nodes (scopeWithin above) ns draft).result = .ok done) :
    Serves stays draft.pipeline (runsAmong above ns)
      (nodes (scopeWithin above) ns draft).invocations := by
  cases ns with
  | nil => exact InOrder.nil
  | cons n rest =>
    have own stay := (List.forall_mem_append.mp (builds stay)).1
    have others stay := (List.forall_mem_append.mp (builds stay)).2
    simp only [nodes, Traced.result_bind, Outcome.bind_eq_ok] at compiled
    obtain ⟨next, found, later⟩ := compiled
    have first := node_serves n own opened found
    have second := nodes_serve rest others opened later
    rw [runsAmong_cons, nodes, Traced.invocations_bind_of_ok found]
    exact InOrder.append first (second.mono fun stay => node_keeps (own stay) found)

theorem branches_serve (groups : List (List Node))
    (builds : stays → ∀ m ∈ withinBranches groups, m.Runs NodeCompiler.BuildsOn)
    {above : List Node} (opened : ∀ m ∈ above, m.isOpen = true) {s : Staging}
    {compiled : List Json × Staging}
    (result : (branches (scopeWithin above) groups s).result = .ok compiled) :
    Serves stays s (groups.flatMap (runsAmong above))
      (branches (scopeWithin above) groups s).invocations := by
  cases groups with
  | nil => exact InOrder.nil
  | cons branch rest =>
    have own stay := (List.forall_mem_append.mp (builds stay)).1
    have others stay := (List.forall_mem_append.mp (builds stay)).2
    simp only [branches, Traced.result_bind, Outcome.bind_eq_ok] at result
    obtain ⟨inner, found, more, later, -⟩ := result
    have first := nodes_serve branch own opened found
    have second := (branches_serve rest others opened later).mono fun stay =>
      nodes_keep (own stay) found
    rw [List.flatMap_cons, branches, Traced.invocations_bind_of_ok found,
      Traced.invocations_bind_of_ok later]
    dsimp only
    have both : Serves stays s _ _ := InOrder.append first second
    split <;> simpa using both

end

end

def JoinCall.output (call : JoinCall) : String :=
  outputBelow ((call.parent.map (·.path)).getD "") call.relation

end Compile

namespace FilterCompiler

open Node Compile

variable {c : FilterCompiler} {nodes : List Node}

end FilterCompiler

end DocQuery
