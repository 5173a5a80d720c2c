import DocQuery.Trace
import Mathlib.Data.List.Forall2

set_option autoImplicit false

namespace DocQuery

namespace Outcome

section

variable {ε α β : Type}

@[simp] theorem pure_eq_ok (a : α) : (pure a : Except ε α) = .ok a := rfl

@[simp] theorem ok_bind (a : α) (f : α → Except ε β) : Except.ok a >>= f = f a := rfl

@[simp] theorem error_bind (e : ε) (f : α → Except ε β) : Except.error e >>= f = .error e := rfl

@[simp] theorem map_ok (f : α → β) (a : α) : (Except.ok a : Except ε α).map f = .ok (f a) := rfl

@[simp] theorem map_error (f : α → β) (e : ε) : (Except.error e).map f = .error e := rfl

@[simp] theorem fmap_eq_map (f : α → β) (x : Except ε α) : f <$> x = x.map f := rfl

theorem map_bind {γ : Type} (x : Except ε α) (f : α → Except ε β) (g : β → γ) :
    (x >>= f).map g = x >>= fun a => (f a).map g := by
  cases x <;> rfl

theorem bind_eq_ok {x : Except ε α} {f : α → Except ε β} {b : β} :
    x >>= f = .ok b ↔ ∃ a, x = .ok a ∧ f a = .ok b := by
  cases x <;> simp

theorem map_eq_ok {x : Except ε α} {f : α → β} {b : β} :
    x.map f = .ok b ↔ ∃ a, x = .ok a ∧ f a = b := by
  cases x <;> simp

theorem mapM_eq_ok {f : α → Except ε β} {xs : List α} {ys : List β} :
    xs.mapM f = .ok ys ↔ xs.map f = ys.map .ok := by
  induction xs generalizing ys with
  | nil => cases ys <;> simp
  | cons x rest ih =>
    rw [List.mapM_cons, bind_eq_ok]
    cases ys with
    | nil => simp [bind_eq_ok]
    | cons y more =>
      simp only [bind_eq_ok, List.map_cons, List.cons.injEq, ← ih]
      constructor
      · rintro ⟨first, found, others, later, made⟩
        cases made
        exact ⟨found, later⟩
      · rintro ⟨found, later⟩
        exact ⟨y, found, more, later, rfl⟩

theorem mapM_forall₂ {f : α → Except ε β} {xs : List α} {ys : List β} :
    xs.mapM f = .ok ys ↔ List.Forall₂ (fun x y => f x = .ok y) xs ys := by
  rw [mapM_eq_ok, ← List.forall₂_eq_eq_eq, List.forall₂_map_left_iff, List.forall₂_map_right_iff]

theorem mapM_related {f : α → Except ε β} {related : α → β → Prop} {xs : List α} {ys : List β}
    (each : ∀ x ∈ xs, ∀ y, f x = .ok y → related x y) (made : xs.mapM f = .ok ys) :
    List.Forall₂ related xs ys := by
  have all := (List.forall₂_and_left _ _).mpr ⟨fun _ inside => inside, mapM_forall₂.mp made⟩
  exact all.imp fun x y both => each x both.1 y both.2

theorem mapM_eq_error {f : α → Except ε β} {xs : List α} {e : ε} (failed : xs.mapM f = .error e) :
    ∃ before x after, xs = before ++ x :: after ∧ (∀ y ∈ before, ∃ b, f y = .ok b) ∧
      f x = .error e := by
  induction xs with
  | nil => cases failed
  | cons x rest ih =>
    rw [List.mapM_cons] at failed
    cases found : f x with
    | error other =>
      rw [found, error_bind] at failed
      cases failed
      exact ⟨[], x, rest, rfl, by simp, found⟩
    | ok b =>
      rw [found, ok_bind] at failed
      cases later : rest.mapM f with
      | ok more => simp [later] at failed
      | error other =>
        rw [later, error_bind] at failed
        cases failed
        obtain ⟨before, y, after, rfl, passed, last⟩ := ih later
        exact ⟨x :: before, y, after, rfl, List.forall_mem_cons.mpr ⟨⟨b, found⟩, passed⟩, last⟩

theorem mapM_ok_at {f : α → Except ε β} {xs : List α} {ys : List β} (made : xs.mapM f = .ok ys)
    {x : α} (inside : x ∈ xs) : ∃ y ∈ ys, f x = .ok y := by
  have listed : f x ∈ ys.map Except.ok := by
    rw [← mapM_eq_ok.mp made]
    exact List.mem_map_of_mem inside
  obtain ⟨y, member, same⟩ := List.mem_map.mp listed
  exact ⟨y, member, same.symm⟩

theorem length_of_mapM {f : α → Except ε β} {xs : List α} {ys : List β}
    (made : xs.mapM f = .ok ys) : ys.length = xs.length := by
  have same := congrArg List.length (mapM_eq_ok.mp made)
  simpa using same.symm

theorem mapM_map {γ : Type} {f : α → Except ε β} (g : β → γ) (xs : List α) :
    (xs.mapM fun x => (f x).map g) = (xs.mapM f).map (List.map g) := by
  induction xs with
  | nil => rfl
  | cons x rest ih =>
    rw [List.mapM_cons, List.mapM_cons, ih]
    cases f x with
    | error e => rfl
    | ok b => cases rest.mapM f <;> rfl

def FailsOnly (fine : ε → Prop) (r : Except ε α) : Prop := ∀ e, r = .error e → fine e

variable {fine : ε → Prop}

@[simp] theorem failsOnly_ok (a : α) : FailsOnly fine (.ok a) := by simp [FailsOnly]

@[simp] theorem failsOnly_error {e : ε} :
    FailsOnly fine (.error e : Except ε α) ↔ fine e := by
  simp [FailsOnly]

theorem FailsOnly.bind {x : Except ε α} {f : α → Except ε β} (first : FailsOnly fine x)
    (rest : ∀ a, x = .ok a → FailsOnly fine (f a)) : FailsOnly fine (x >>= f) := by
  cases x with
  | error e => exact failsOnly_error.mpr (first e rfl)
  | ok a => exact rest a rfl

theorem FailsOnly.map {x : Except ε α} (first : FailsOnly fine x) (f : α → β) :
    FailsOnly fine (x.map f) := by
  cases x with
  | error e => exact failsOnly_error.mpr (first e rfl)
  | ok a => exact failsOnly_ok (f a)

theorem FailsOnly.mapM {f : α → Except ε β} {xs : List α}
    (each : ∀ x ∈ xs, FailsOnly fine (f x)) : FailsOnly fine (xs.mapM f) := by
  intro e failed
  obtain ⟨before, x, after, rfl, -, here⟩ := mapM_eq_error failed
  exact each x (by simp) e here

variable {related : α → β → Prop}

def Agree (related : α → β → Prop) : Except ε α → Except ε β → Prop
  | .ok a, .ok b => related a b
  | .error e, .error f => e = f
  | _, _ => False

theorem Agree.bind {γ : Type} {x : Except ε γ} {f : γ → Except ε α} {g : γ → Except ε β}
    (rest : ∀ a, x = .ok a → Agree related (f a) (g a)) : Agree related (x >>= f) (x >>= g) := by
  cases x with
  | error e => exact rfl
  | ok a => exact rest a rfl

theorem Agree.andThen {γ δ : Type} {other : γ → δ → Prop} {x : Except ε α} {y : Except ε β}
    (agree : Agree related x y) {f : α → Except ε γ} {g : β → Except ε δ}
    (rest : ∀ a b, related a b → Agree other (f a) (g b)) : Agree other (x >>= f) (y >>= g) := by
  cases x <;> cases y
  case ok.ok => exact rest _ _ agree
  case error.error => exact agree
  all_goals exact agree.elim

theorem Agree.map {γ δ : Type} {other : γ → δ → Prop} {x : Except ε α} {y : Except ε β}
    (agree : Agree related x y) {f : α → γ} {g : β → δ}
    (made : ∀ a b, related a b → other (f a) (g b)) : Agree other (x.map f) (y.map g) := by
  cases x <;> cases y
  case ok.ok => exact made _ _ agree
  case error.error => exact agree
  all_goals exact agree.elim

end

end Outcome

namespace Traced

variable {α β : Type}

@[simp] theorem result_lift (r : Except QueryError α) : (lift r).result = r := rfl

@[simp] theorem result_fail (e : QueryError) : (fail e : Traced α).result = .error e := rfl

@[simp] theorem result_log (e : Log.Event) (fields : List (String × String)) :
    (log e fields).result = .ok () := rfl

@[simp] theorem result_fmap (x : Traced α) (f : α → β) : (f <$> x).result = x.result.map f := by
  rw [← bind_pure_comp, result_bind]
  cases x.result <;> rfl

@[simp] theorem lift_ok (a : α) : lift (.ok a) = (Pure.pure a : Traced α) := rfl

@[simp] theorem lift_error (e : QueryError) : lift (.error e) = (fail e : Traced α) := rfl

@[simp] theorem fail_bind (e : QueryError) (f : α → Traced β) : fail e >>= f = fail e := rfl

@[simp] theorem fmap_fail (e : QueryError) (f : α → β) : f <$> (fail e : Traced α) = fail e := rfl

@[simp] theorem fmap_lift (r : Except QueryError α) (f : α → β) :
    f <$> lift r = lift (r.map f) := by
  cases r <;> simp

@[simp] theorem entries_pure (a : α) : (Pure.pure a : Traced α).entries = [] := rfl

@[simp] theorem entries_lift (r : Except QueryError α) : (lift r).entries = [] := rfl

@[simp] theorem entries_fail (e : QueryError) : (fail e : Traced α).entries = [] := rfl

@[simp] theorem entries_log (e : Log.Event) (fields : List (String × String)) :
    (log e fields).entries = [e.entry fields] := rfl

@[simp] theorem result_note (call : Invocation) : (note call).result = .ok () := rfl

@[simp] theorem entries_note (call : Invocation) : (note call).entries = [] := rfl

theorem entries_bind (x : Traced α) (f : α → Traced β) :
    (x >>= f).entries = x.entries ++
      match x.result with
      | .ok a => (f a).entries
      | .error _ => [] := by
  obtain ⟨steps, result⟩ := x
  cases result with
  | error e => simp [Bind.bind, Traced.bind, entries]
  | ok a => simp [Bind.bind, Traced.bind, entries]

theorem entries_bind_of_ok {x : Traced α} {a : α} (found : x.result = .ok a)
    (f : α → Traced β) : (x >>= f).entries = x.entries ++ (f a).entries := by
  rw [entries_bind, found]

theorem entries_bind_silent {x : Traced α} {f : α → Traced β} (silent : ∀ a, (f a).entries = []) :
    (x >>= f).entries = x.entries := by
  rw [entries_bind]
  cases x.result <;> simp [silent]

@[simp] theorem invocations_pure (a : α) : (Pure.pure a : Traced α).invocations = [] := rfl

@[simp] theorem invocations_lift (r : Except QueryError α) : (lift r).invocations = [] := rfl

@[simp] theorem invocations_fail (e : QueryError) : (fail e : Traced α).invocations = [] := rfl

@[simp] theorem invocations_log (e : Log.Event) (fields : List (String × String)) :
    (log e fields).invocations = [] := rfl

@[simp] theorem invocations_note (call : Invocation) : (note call).invocations = [call] := rfl

theorem invocations_bind (x : Traced α) (f : α → Traced β) :
    (x >>= f).invocations = x.invocations ++
      match x.result with
      | .ok a => (f a).invocations
      | .error _ => [] := by
  obtain ⟨steps, result⟩ := x
  cases result with
  | error e => simp [Bind.bind, Traced.bind, invocations]
  | ok a => simp [Bind.bind, Traced.bind, invocations]

theorem invocations_bind_of_ok {x : Traced α} {a : α} (found : x.result = .ok a)
    (f : α → Traced β) : (x >>= f).invocations = x.invocations ++ (f a).invocations := by
  rw [invocations_bind, found]

def refusal (x : Traced α) : Option QueryError :=
  match x.result with
  | .ok _ => none
  | .error e => some e

@[simp] theorem refusal_fail (e : QueryError) :
    refusal (Traced.fail e : Traced α) = some e := rfl

theorem refusal_eq_none {x : Traced α} : refusal x = none ↔ ∃ a, x.result = .ok a := by
  unfold refusal
  cases x.result <;> simp

theorem refusal_eq_some {x : Traced α} {e : QueryError} :
    refusal x = some e ↔ x.result = .error e := by
  unfold refusal
  cases x.result <;> simp

theorem refusal_bind (x : Traced α) {f : α → Traced β} {later : Option QueryError}
    (rest : ∀ a, refusal (f a) = later) : refusal (x >>= f) = (refusal x).or later := by
  simp only [refusal, Traced.result_bind] at rest ⊢
  cases x.result with
  | error e => rfl
  | ok a => simpa using rest a

theorem refusal_return (x : Traced α) (f : α → β) :
    refusal (do return f (← x)) = refusal x := by
  have none : ∀ a, refusal (Pure.pure (f a) : Traced β) = none := fun _ => rfl
  rw [refusal_bind x none, Option.or_none]

theorem pure_eq_ok_steps {a b : α} {steps : List Step} :
    (Pure.pure a : Traced α) = ⟨steps, .ok b⟩ ↔ a = b ∧ steps = [] := by
  simp [Pure.pure, Traced.pure, eq_comm, and_comm]

theorem bind_eq_ok_steps {x : Traced α} {f : α → Traced β} {steps : List Step} {b : β} :
    x >>= f = ⟨steps, .ok b⟩ ↔
      ∃ a first later, x = ⟨first, .ok a⟩ ∧ f a = ⟨later, .ok b⟩ ∧ steps = first ++ later := by
  constructor
  · intro made
    have result := congrArg Traced.result made
    rw [result_bind, Outcome.bind_eq_ok] at result
    obtain ⟨a, found, last⟩ := result
    have all := congrArg Traced.steps made
    rw [steps_bind_of_ok found] at all
    exact ⟨a, x.steps, (f a).steps, by rw [← found], by rw [← last], all.symm⟩
  · rintro ⟨a, first, later, rfl, last, rfl⟩
    simp [Bind.bind, Traced.bind, last]

theorem eq_of_ok {x : Traced α} {a : α} (found : x.result = .ok a) : x = ⟨x.steps, .ok a⟩ := by
  rw [← found]

theorem bind_congr_ok {x : Traced α} {f g : α → Traced β}
    (same : ∀ a, x.result = .ok a → f a = g a) : x >>= f = x >>= g := by
  obtain ⟨steps, result⟩ := x
  cases result with
  | error e => rfl
  | ok a => simp only [Bind.bind, Traced.bind, same a rfl]

theorem mapM_congr {f g : α → Traced β} {xs : List α} (same : ∀ x ∈ xs, f x = g x) :
    xs.mapM f = xs.mapM g := by
  induction xs with
  | nil => rfl
  | cons x rest ih =>
    rw [List.mapM_cons, List.mapM_cons, same x List.mem_cons_self,
      ih fun y later => same y (List.mem_cons_of_mem x later)]

theorem mapM_result {f : α → Traced β} {g : α → Except QueryError β} {xs : List α}
    (same : ∀ x ∈ xs, (f x).result = g x) : (xs.mapM f).result = xs.mapM g := by
  induction xs with
  | nil => rfl
  | cons x rest ih =>
    obtain ⟨first, others⟩ := List.forall_mem_cons.mp same
    simp only [List.mapM_cons, result_bind, first, ih others, result_pure]
    rfl

theorem mapM_members {f : α → Traced β} {xs : List α} {ys : List β}
    (made : (xs.mapM f).result = .ok ys) : ∀ y ∈ ys, ∃ x ∈ xs, (f x).result = .ok y := by
  induction xs generalizing ys with
  | nil =>
    cases made
    simp
  | cons x rest ih =>
    simp only [List.mapM_cons, Traced.result_bind, Outcome.bind_eq_ok] at made
    obtain ⟨first, found, others, more, joined⟩ := made
    cases joined
    refine List.forall_mem_cons.mpr ⟨⟨x, by simp, found⟩, ?_⟩
    intro y member
    obtain ⟨origin, inside, result⟩ := ih more y member
    exact ⟨origin, by simp [inside], result⟩

/-- A property of computations that those have that do nothing, and that one computation after
another has if both have it. -/
structure Closed (holds : (α : Type) → Traced α → Prop) : Prop where
  pure : ∀ {α : Type} (a : α), holds α (Pure.pure a)
  bind : ∀ {α β : Type} {x : Traced α} {f : α → Traced β}, holds α x →
    (∀ a, x.result = .ok a → holds β (f a)) → holds β (x >>= f)

theorem Closed.mapM {holds : (α : Type) → Traced α → Prop} (closed : Closed holds)
    {f : α → Traced β} {xs : List α} (each : ∀ x ∈ xs, holds β (f x)) :
    holds (List β) (xs.mapM f) := by
  induction xs with
  | nil => exact closed.pure []
  | cons x rest ih =>
    obtain ⟨first, others⟩ := List.forall_mem_cons.mp each
    rw [List.mapM_cons]
    exact closed.bind first fun _ _ => closed.bind (ih others) fun _ _ => closed.pure _

theorem closed_failsOnly (fine : QueryError → Prop) :
    Closed fun _ x => Outcome.FailsOnly fine x.result where
  pure a := Outcome.failsOnly_ok a
  bind first rest := by
    rw [result_bind]
    exact first.bind rest

def Logs (fine : Log.Entry → Prop) (x : Traced α) : Prop := ∀ entry ∈ x.entries, fine entry

theorem closed_logs (fine : Log.Entry → Prop) : Closed fun _ x => x.Logs fine where
  pure a := by simp [Logs]
  bind := by
    intro α β x f first rest
    unfold Logs
    rw [entries_bind, List.forall_mem_append]
    refine ⟨first, ?_⟩
    cases found : x.result with
    | error e => simp
    | ok a => exact rest a found

end Traced

end DocQuery
