import DocQuery.Proofs.Outcome
import DocQuery.Visit.Traversal

set_option autoImplicit false

namespace DocQuery.Visit

section

variable {α β : Type}

@[simp] theorem liftM_traced (x : Traced α) : (liftM x : Traced α) = x := rfl

def orFail (e : QueryError) (x : OptionT Traced α) : Traced α := do
  match ← x.run with
  | some a => pure a
  | none => Traced.fail e

variable (e : QueryError)

@[simp] theorem orFail_pure (a : α) : orFail e (pure a : OptionT Traced α) = pure a := rfl

@[simp] theorem orFail_failure : orFail e (failure : OptionT Traced α) = Traced.fail e := rfl

@[simp] theorem orFail_lift (x : Traced α) : orFail e (liftM x : OptionT Traced α) = x := by
  have lifted : (liftM x : OptionT Traced α).run = some <$> x := rfl
  simp [orFail, lifted]

@[simp] theorem orFail_bind (x : OptionT Traced α) (f : α → OptionT Traced β) :
    orFail e (x >>= f) = orFail e x >>= fun a => orFail e (f a) := by
  simp only [orFail, OptionT.run_bind, Option.elimM, bind_assoc]
  refine congrArg (x.run >>= ·) (funext fun found => ?_)
  cases found with
  | some a => simp
  | none => rfl

@[simp] theorem orFail_map (f : α → β) (x : OptionT Traced α) :
    orFail e (f <$> x) = f <$> orFail e x := by
  rw [map_eq_pure_bind, map_eq_pure_bind, orFail_bind]
  rfl

@[simp] theorem orFail_mapM (f : α → OptionT Traced β) (xs : List α) :
    orFail e (xs.mapM f) = xs.mapM fun x => orFail e (f x) := by
  induction xs with
  | nil => rfl
  | cons x rest ih => simp [List.mapM_cons, ih]

end

section

variable {α β : Type} {x y : OptionT Traced α}

/-- A visit comes to its end with an outcome if whatever error stands for the cut makes no
difference to it. -/
theorem ended?_eq_some {outcome : Traced α} :
    ended? x = some outcome ↔ ∀ e, orFail e x = outcome := by
  have run : x.run = ⟨x.run.steps, x.run.result⟩ := rfl
  unfold ended? orFail
  generalize x.run.steps = steps at run
  generalize x.run.result = result at run
  rw [run]
  cases result with
  | error e => simp [Bind.bind, Traced.bind]
  | ok found =>
    cases found with
    | some a => simp [Bind.bind, Traced.bind, Pure.pure, Traced.pure]
    | none =>
      simp only [Bind.bind, Traced.bind, Traced.fail, reduceCtorEq, false_iff]
      intro same
      have one := (same (.execution "")).trans (same (.coercion "" "")).symm
      simp at one

theorem ended?_eq_none : ended? x = none ↔ x.run.result = .ok none := by
  unfold ended?
  split <;> simp_all

theorem ended_of_same_result {result : Except QueryError α}
    (same : ∀ e, (orFail e x).result = result) : ∃ outcome, ended? x = some outcome := by
  cases ended : ended? x with
  | some outcome => exact ⟨outcome, rfl⟩
  | none =>
    rw [ended?_eq_none] at ended
    have refused (e : QueryError) : result = .error e := by
      rw [← same e]
      simp [orFail, ended]
    simpa using (refused (.execution "")).symm.trans (refused (.coercion "" ""))

-- A visit that goes no less far than another: it is the same unless the other is cut.
def UpTo (x y : OptionT Traced α) : Prop := ended? x = none ∨ x = y

theorem UpTo.refl (x : OptionT Traced α) : UpTo x x := .inr rfl

theorem UpTo.bind {f g : α → OptionT Traced β} (first : UpTo x y)
    (rest : ∀ a, UpTo (f a) (g a)) : UpTo (x >>= f) (y >>= g) := by
  rcases first with cut | rfl
  · left
    rw [ended?_eq_none] at cut ⊢
    simp [OptionT.run_bind, Option.elimM, cut]
  · by_cases cut : ∃ a, x.run.result = .ok (some a) ∧ ended? (f a) = none
    · obtain ⟨a, found, cut⟩ := cut
      left
      rw [ended?_eq_none] at cut ⊢
      simp [OptionT.run_bind, Option.elimM, found, cut]
    · right
      refine OptionT.ext ?_
      simp only [OptionT.run_bind, Option.elimM]
      refine Traced.bind_congr_ok fun answer found => ?_
      cases answer with
      | none => rfl
      | some a =>
        have same : f a = g a := (rest a).resolve_left fun none => cut ⟨a, found, none⟩
        simp [same]

theorem UpTo.mapM {f g : α → OptionT Traced β} (each : ∀ a, UpTo (f a) (g a)) (xs : List α) :
    UpTo (xs.mapM f) (xs.mapM g) := by
  induction xs with
  | nil => exact .refl _
  | cons a rest ih =>
    rw [List.mapM_cons, List.mapM_cons]
    exact (each a).bind fun _ => ih.bind fun _ => .refl _

end

section

variable {visitors : List Visitor} {parser : FilterParser} {path : List String}
  {nodes : List Node} {levels more : Nat} {outcome : Traced (List Node)}

theorem orFail_drain (e : QueryError) (visit : Pending → OptionT Traced (Node × List Pending))
    (generations : Nat) (waiting : List Pending) :
    orFail e (drain visit generations waiting) =
      drain (fun p => orFail e (visit p)) generations waiting := by
  induction generations generalizing waiting with
  | zero => rfl
  | succ generations ih => simp [drain, ih]

theorem orFail_visitNode (e : QueryError)
    (enclosed : List String → List Node → OptionT Traced (List Node)) (p : Pending) :
    orFail e (visitNode parser path enclosed p) =
      visitNode parser path (fun path nodes => orFail e (enclosed path nodes)) p := by
  simp only [visitNode, orFail_bind, orFail_lift, liftM_traced]
  refine congrArg (showTo parser path p.visitors p.node >>= ·) (funext fun ⟨n, siblings⟩ => ?_)
  dsimp only
  split
  next => rfl
  next => cases n <;> simp

theorem orFail_visitBranch (e : QueryError) :
    orFail e (visitBranch visitors parser failure levels path nodes) =
      visitBranch visitors parser (Traced.fail e) levels path nodes := by
  induction levels generalizing path nodes with
  | zero => simp only [visitBranch, orFail_drain, orFail_visitNode, orFail_failure]
  | succ levels ih => simp only [visitBranch, orFail_drain, orFail_visitNode, ih]

theorem attempt_eq_some :
    attempt visitors parser nodes levels = some outcome ↔
      ∀ e, visitBranch visitors parser (Traced.fail e) levels [] nodes = outcome := by
  simp only [attempt, ended?_eq_some, orFail_visitBranch]

theorem UpTo.drain {visit other : Pending → OptionT Traced (Node × List Pending)}
    (each : ∀ p, UpTo (visit p) (other p)) (generations : Nat) (waiting : List Pending) :
    UpTo (drain visit generations waiting) (drain other generations waiting) := by
  induction generations generalizing waiting with
  | zero => exact .refl _
  | succ generations ih =>
    exact (UpTo.mapM each waiting).bind fun _ => (ih _).bind fun _ => .refl _

theorem UpTo.visitNode {enclosed others : List String → List Node → OptionT Traced (List Node)}
    (each : ∀ path nodes, UpTo (enclosed path nodes) (others path nodes)) (p : Pending) :
    UpTo (visitNode parser path enclosed p) (visitNode parser path others p) := by
  refine (UpTo.refl _).bind fun ⟨n, siblings⟩ => ?_
  dsimp only
  split
  next => exact .refl _
  next =>
    cases n with
    | field i name operator => exact .refl _
    | relation i r children => exact (each _ children).bind fun _ => .refl _
    | group i connective branches => exact (UpTo.mapM (each _) branches).bind fun _ => .refl _

theorem upTo_succ :
    UpTo (visitBranch visitors parser failure levels path nodes)
      (visitBranch visitors parser failure (levels + 1) path nodes) := by
  induction levels generalizing path nodes with
  | zero => exact UpTo.drain (UpTo.visitNode fun _ _ => .inl rfl) _ _
  | succ levels ih => exact UpTo.drain (UpTo.visitNode fun _ _ => ih) _ _

theorem attempt_mono (further : levels ≤ more)
    (found : attempt visitors parser nodes levels = some outcome) :
    attempt visitors parser nodes more = some outcome := by
  induction further with
  | refl => exact found
  | step _ ih =>
    unfold attempt at ih ⊢
    rcases upTo_succ with cut | same
    · rw [cut] at ih
      cases ih
    · rw [← same]
      exact ih

-- Where an attempt has an outcome and those with more levels keep it, the search ends. The induction
-- is along the search.
theorem firstFrom_finds {α : Type} {attempt : Nat → Option α} {found : α} {last : Nat}
    (kept : ∀ more, last ≤ more → attempt more = some found) (levels : Nat) :
    ∃ first, (firstFrom attempt levels).val = some first := by
  have ends : WellFounded fun next n => next = n + 1 ∧ attempt n = none := by
    refine Subrelation.wf ?_ (measure fun n => last - n).wf
    rintro next n ⟨rfl, failed⟩
    have below : n < last := by
      by_contra reached
      simp [kept n (Nat.not_lt.mp reached)] at failed
    exact Nat.sub_lt_sub_left below (Nat.lt_succ_self n)
  induction levels using ends.induction with
  | _ n ih =>
    rw [firstFrom, WellFounded.extrinsicFix_eq_apply ends]
    split
    next outcome _ => exact ⟨outcome, rfl⟩
    next failed => exact ih (n + 1) ⟨rfl, failed⟩

/-- There is an outcome if and only if some number of levels suffices for it. -/
theorem outcome?_eq_some (visited : visitors.isEmpty = false) :
    outcome? visitors parser nodes = some outcome ↔
      ∃ levels, attempt visitors parser nodes levels = some outcome := by
  have one {other : Traced (List Node)} {first second : Nat}
      (here : attempt visitors parser nodes first = some outcome)
      (there : attempt visitors parser nodes second = some other) : outcome = other := by
    have same := attempt_mono (Nat.le_max_left first second) here
    rw [attempt_mono (Nat.le_max_right first second) there] at same
    exact (Option.some_inj.mp same).symm
  simp only [outcome?, visited, Bool.false_eq_true, if_false]
  cases tried : attempt visitors parser nodes (levelsFor parser nodes) with
  | some other =>
    constructor
    · rintro ⟨⟩
      exact ⟨_, tried⟩
    · rintro ⟨levels, found⟩
      rw [one found tried]
  | none =>
    constructor
    · exact (firstFrom (attempt visitors parser nodes) _).property outcome
    · rintro ⟨levels, found⟩
      obtain ⟨first, reached⟩ := firstFrom_finds (fun _ more => attempt_mono more found)
        (levelsFor parser nodes + 1)
      obtain ⟨other, same⟩ := (firstFrom _ _).property first reached
      rw [reached, one found same]

theorem apply_of_some (found : outcome? visitors parser nodes = some outcome) :
    apply visitors parser nodes = outcome := by
  rw [apply, found, Option.getD_some]

@[simp] theorem apply_nil (parser : FilterParser) (nodes : List Node) :
    apply [] parser nodes = pure nodes := rfl

theorem apply_of_attempt (visited : visitors.isEmpty = false)
    (found : attempt visitors parser nodes levels = some outcome) :
    apply visitors parser nodes = outcome :=
  apply_of_some ((outcome?_eq_some visited).mpr ⟨levels, found⟩)

def nestedNors : Nat → Node
  | 0 => .field ⟨"title", .str "Lean", "Post", false, none⟩ "title" none
  | depth + 1 => .group ⟨"nor", .null, "Post", false, none⟩ .nor [[nestedNors depth]]

def nesting : Visitor where
  name := "nesting"
  visit n _ := return if n.isField ∧ n.info.key = "nested" then .replace (nestedNors 3) else .keep

-- Nodes that a visitor puts in place are entered to their end, however deep a filter may be.
example : apply [nesting] ⟨⟨[]⟩, 1⟩ [.field ⟨"nested", .null, "Post", false, none⟩ "nested" none] =
    pure [nestedNors 3] :=
  apply_of_attempt rfl (show attempt _ _ _ 3 = _ from rfl)

theorem apply_cases (visitors : List Visitor) (parser : FilterParser) (nodes : List Node) :
    visitors = [] ∧ apply visitors parser nodes = pure nodes ∨
      (∃ levels, ∀ e, visitBranch visitors parser (Traced.fail e) levels [] nodes =
        apply visitors parser nodes) ∨
      outcome? visitors parser nodes = none ∧
        apply visitors parser nodes = Traced.fail (.depthExceeded parser.maxDepth "") := by
  cases visited : visitors.isEmpty with
  | true =>
    left
    exact ⟨List.isEmpty_iff.mp visited, by simp [apply, outcome?, visited]⟩
  | false =>
    right
    cases found : outcome? visitors parser nodes with
    | none =>
      right
      exact ⟨rfl, by rw [apply, found, Option.getD_none]⟩
    | some outcome =>
      left
      obtain ⟨levels, ended⟩ := (outcome?_eq_some visited).mp found
      rw [apply_of_some found]
      exact ⟨levels, attempt_eq_some.mp ended⟩

end

end DocQuery.Visit
