import DocQuery.Catalog.Basic
import DocQuery.Log
import DocQuery.Operator.Suffix

set_option autoImplicit false

namespace DocQuery

structure Subject where
  key : String
  value : Json
  collection : String
  fieldName : Option String
  operator : Option Operator
  relation : Option Relation
  connective : Option Connective
  deriving Repr

structure Invocation where
  compiler : String
  subject : Subject
  scope : String
  joins : List String
  deriving Repr

inductive Step where
  | logged (entry : Log.Entry)
  | invoked (call : Invocation)
  deriving Repr

structure Traced (α : Type) where
  steps : List Step
  result : Except QueryError α

namespace Traced

def pure {α : Type} (a : α) : Traced α := ⟨[], .ok a⟩

def bind {α β : Type} (x : Traced α) (f : α → Traced β) : Traced β :=
  match x.result with
  | .ok a => ⟨x.steps ++ (f a).steps, (f a).result⟩
  | .error e => ⟨x.steps, .error e⟩

instance : Monad Traced where
  pure := Traced.pure
  bind := Traced.bind

@[simp] theorem result_pure {α : Type} (a : α) : (Pure.pure a : Traced α).result = .ok a := rfl

@[simp] theorem steps_pure {α : Type} (a : α) : (Pure.pure a : Traced α).steps = [] := rfl

@[simp] theorem result_bind {α β : Type} (x : Traced α) (f : α → Traced β) :
    (x >>= f).result = x.result >>= fun a => (f a).result := by
  obtain ⟨steps, result⟩ := x
  cases result <;> rfl

theorem steps_bind_of_ok {α β : Type} {x : Traced α} {a : α} (found : x.result = .ok a)
    (f : α → Traced β) : (x >>= f).steps = x.steps ++ (f a).steps := by
  obtain ⟨steps, result⟩ := x
  cases found
  rfl

theorem map_id_eq {α : Type} (x : Traced α) : id <$> x = x := by
  obtain ⟨steps, result⟩ := x
  cases result <;> simp [Functor.map, Traced.bind, Traced.pure]

theorem pure_bind_eq {α β : Type} (a : α) (f : α → Traced β) : Pure.pure a >>= f = f a := by
  simp [Bind.bind, Pure.pure, Traced.bind, Traced.pure]

theorem bind_assoc_eq {α β γ : Type} (x : Traced α) (f : α → Traced β) (g : β → Traced γ) :
    x >>= f >>= g = x >>= fun a => f a >>= g := by
  obtain ⟨steps, result⟩ := x
  cases result with
  | error e => rfl
  | ok a =>
    simp only [Bind.bind, Traced.bind]
    cases (f a).result <;> simp [List.append_assoc]

instance : LawfulMonad Traced := LawfulMonad.mk' Traced map_id_eq pure_bind_eq bind_assoc_eq

def fail {α : Type} (e : QueryError) : Traced α := ⟨[], .error e⟩

def lift {α : Type} (r : Except QueryError α) : Traced α := ⟨[], r⟩

def log (e : Log.Event) (fields : List (String × String)) : Traced Unit :=
  ⟨[.logged (e.entry fields)], .ok ()⟩

def note (call : Invocation) : Traced Unit := ⟨[.invoked call], .ok ()⟩

def recover {α : Type} (x : Traced α) (handle : QueryError → Traced α) : Traced α :=
  match x.result with
  | .ok a => ⟨x.steps, .ok a⟩
  | .error e => ⟨x.steps ++ (handle e).steps, (handle e).result⟩

def entries {α : Type} (x : Traced α) : List Log.Entry :=
  x.steps.filterMap fun
    | .logged entry => some entry
    | .invoked _ => none

def invocations {α : Type} (x : Traced α) : List Invocation :=
  x.steps.filterMap fun
    | .logged _ => none
    | .invoked call => some call

end Traced

end DocQuery
