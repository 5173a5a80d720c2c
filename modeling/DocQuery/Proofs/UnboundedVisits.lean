import DocQuery.Proofs.VisitHistory

set_option autoImplicit false

namespace DocQuery.Visit

inductive Queued (visit : Pending → Traced (Node × List Pending)) :
    List Pending → Traced (List Node) → Prop
  | done : Queued visit [] (pure [])
  | next (p : Pending) (rest : List Pending) (later : Node × List Pending → Traced (List Node))
      (after : ∀ n siblings, (visit p).result = .ok (n, siblings) →
        Queued visit (rest ++ siblings) (later (n, siblings))) :
      Queued visit (p :: rest) (do
        let (n, siblings) ← visit p
        let others ← later (n, siblings)
        return n :: others)

section

variable {visit : Pending → Traced (Node × List Pending)}

theorem Queued.unique {queue : List Pending} {first second : Traced (List Node)}
    (one : Queued visit queue first) (two : Queued visit queue second) : first = second := by
  induction one generalizing second with
  | done =>
    cases two
    rfl
  | next p rest later after ih =>
    cases two with
    | next _ _ later' after' =>
      refine Traced.bind_congr_ok fun ⟨n, siblings⟩ found => ?_
      simp only [ih n siblings found (after' n siblings found)]

theorem queued_visitsFrom
    (fewer : ∀ p n siblings, (visit p).result = .ok (n, siblings) →
      ∀ q ∈ siblings, q.visitors.length < p.visitors.length)
    {generations : Nat}
    (drained : ∀ next, (∀ p ∈ next, p.visitors.length < generations) →
      Queued visit next (drain visit generations next))
    (current next : List Pending)
    (now : ∀ p ∈ current, p.visitors.length < generations + 1)
    (soon : ∀ p ∈ next, p.visitors.length < generations) :
    Queued visit (current ++ next) (visitsFrom visit generations current next) := by
  induction current generalizing next with
  | nil =>
    rw [visitsFrom_nil]
    exact drained next soon
  | cons p rest ih =>
    obtain ⟨few, others⟩ := List.forall_mem_cons.mp now
    rw [visitsFrom_cons]
    let later (visited : Node × List Pending) :=
      visitsFrom visit generations rest (next ++ visited.2)
    refine .next p (rest ++ next) later fun n siblings visited => ?_
    have waiting : ∀ q ∈ siblings, q.visitors.length < generations := by
      intro q member
      have less := fewer p n siblings visited q member
      omega
    rw [List.append_assoc]
    exact ih (next ++ siblings) others (List.forall_mem_append.mpr ⟨soon, waiting⟩)

theorem queued_drain
    (fewer : ∀ p n siblings, (visit p).result = .ok (n, siblings) →
      ∀ q ∈ siblings, q.visitors.length < p.visitors.length)
    (generations : Nat) (waiting : List Pending)
    (queued : ∀ p ∈ waiting, p.visitors.length < generations) :
    Queued visit waiting (drain visit generations waiting) := by
  induction generations generalizing waiting with
  | zero =>
    have none : waiting = [] := List.eq_nil_iff_forall_not_mem.mpr fun p member =>
      Nat.not_lt_zero _ (queued p member)
    subst none
    exact .done
  | succ generations ih =>
    rw [drain_succ]
    simpa using queued_visitsFrom fewer ih waiting [] queued (List.forall_mem_nil _)

end

section

variable {visitors : List Visitor} {parser : FilterParser} {path : List String}

theorem queued_visitBranch (cut : Traced (List Node)) (levels : Nat) (nodes : List Node) :
    Queued (visitNode parser path (visitBranch visitors parser cut levels))
      (nodes.map (⟨·, visitors⟩)) (visitBranch visitors parser cut (levels + 1) path nodes) := by
  refine queued_drain (fun p n siblings visited => ?_) (visitors.length + 1) _ (by simp)
  obtain ⟨shown, found⟩ := siblings_of_visitNode visited
  exact siblings_fewer found

theorem exists_common_level {branches : List (List Node)} {holds : List Node → Nat → Prop}
    (each : ∀ branch ∈ branches, ∃ enough, ∀ levels, enough ≤ levels → holds branch levels) :
    ∃ enough, ∀ branch ∈ branches, ∀ levels, enough ≤ levels → holds branch levels := by
  induction branches with
  | nil => exact ⟨0, by simp⟩
  | cons branch rest ih =>
    obtain ⟨own, others⟩ := List.forall_mem_cons.mp each
    obtain ⟨first, held⟩ := own
    obtain ⟨second, later⟩ := ih others
    refine ⟨max first second, List.forall_mem_cons.mpr ⟨fun levels enough => ?_, ?_⟩⟩
    · exact held levels (Nat.le_trans (Nat.le_max_left _ _) enough)
    · exact fun other inside levels enough =>
        later other inside levels (Nat.le_trans (Nat.le_max_right _ _) enough)

/-- A visit without bound that has an outcome goes no deeper than some number of levels. -/
theorem Rewrites.bounded {queue : List Pending} {outcome : Traced (List Node)}
    (rewrites : Rewrites visitors parser path queue outcome) :
    ∃ enough, ∀ levels, enough ≤ levels → ∀ cut,
      Queued (visitNode parser path (visitBranch visitors parser cut levels)) queue outcome := by
  induction rewrites with
  | done path => exact ⟨0, fun _ _ _ => .done⟩
  | next path p rest enclosed later below after ihBelow ihAfter =>
    have entered : ∃ enough, ∀ levels, enough ≤ levels → ∀ cut,
        visitNode parser path (visitBranch visitors parser cut (levels + 1)) p =
          visitNode parser path enclosed p := by
      by_cases shows : ∃ n siblings, (showTo parser path p.visitors p.node).result =
          .ok (n, siblings) ∧ n.suppressed = false
      · obtain ⟨n, siblings, shown, active⟩ := shows
        have each : ∀ branch ∈ n.branches, ∃ enough, ∀ levels, enough ≤ levels → ∀ cut,
            visitBranch visitors parser cut (levels + 1) (path ++ [n.info.key]) branch =
              enclosed (path ++ [n.info.key]) branch := by
          intro branch listed
          obtain ⟨enough, queued⟩ := ihBelow n siblings shown active branch listed
          exact ⟨enough, fun levels further cut =>
            (queued_visitBranch cut levels branch).unique (queued levels further cut)⟩
        obtain ⟨enough, same⟩ := exists_common_level each
        refine ⟨enough, fun levels further cut => visitNode_congr ?_⟩
        intro other more found _ branch listed
        cases shown.symm.trans found
        exact same branch listed levels further cut
      · exact ⟨0, fun _ _ _ => visitNode_congr fun n siblings shown active =>
          absurd ⟨n, siblings, shown, active⟩ shows⟩
    have rested : ∃ enough, ∀ levels, enough ≤ levels → ∀ cut n siblings,
        (visitNode parser path enclosed p).result = .ok (n, siblings) →
          Queued (visitNode parser path (visitBranch visitors parser cut levels))
            (rest ++ siblings) (later (n, siblings)) := by
      cases visited : (visitNode parser path enclosed p).result with
      | error e => exact ⟨0, fun _ _ _ _ _ found => by cases found⟩
      | ok v =>
        obtain ⟨enough, queued⟩ := ihAfter v.1 v.2 visited
        refine ⟨enough, fun levels further cut n siblings found => ?_⟩
        cases found
        exact queued levels further cut
    obtain ⟨first, same⟩ := entered
    obtain ⟨second, queued⟩ := rested
    refine ⟨max (first + 1) second, fun levels enough cut => ?_⟩
    obtain ⟨room, deep⟩ := Nat.max_le.mp enough
    obtain ⟨above, rfl⟩ := Nat.exists_eq_add_of_le' room
    have visit := same (above + first) (Nat.le_add_left _ _) cut
    rw [← visit]
    refine .next p rest later fun n siblings found => queued _ deep cut n siblings ?_
    rw [← visit]
    exact found

/-- Whatever the visitors do, the outcome of a visit without bound is the one that is found. -/
theorem outcome?_of_applied {nodes : List Node} {outcome : Traced (List Node)}
    (applied : Applied visitors parser nodes outcome) :
    outcome? visitors parser nodes = some outcome := by
  unfold Applied at applied
  split at applied
  next unvisited =>
    rw [applied, outcome?, if_pos unvisited]
  next visited =>
    obtain ⟨enough, queued⟩ := applied.bounded
    refine (outcome?_eq_some (by simpa using visited)).mpr ⟨enough + 1, attempt_eq_some.mpr ?_⟩
    exact fun e => (queued_visitBranch (Traced.fail e) enough nodes).unique
      (queued enough (Nat.le_refl _) _)

theorem outcome?_iff_applied {nodes rewritten : List Node} {outcome : Traced (List Node)}
    (success : outcome.result = .ok rewritten) :
    outcome? visitors parser nodes = some outcome ↔ Applied visitors parser nodes outcome := by
  refine ⟨fun found => ?_, outcome?_of_applied⟩
  have applied : apply visitors parser nodes = outcome := apply_of_some found
  rw [← applied] at success ⊢
  exact applied_of_ok success

end

end DocQuery.Visit
