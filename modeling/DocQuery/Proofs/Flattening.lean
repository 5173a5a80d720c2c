import DocQuery.Proofs.Reading
import Mathlib.Algebra.Order.Group.Multiset

set_option autoImplicit false

namespace DocQuery

inductive Clause where
  | member (path : String) (value : Json)
  | operator (path key : String) (operand : Json)
  | item (value : Json)

namespace Predicate

-- The clauses of a predicate, each as often as it occurs. An operator document is opened into its
-- operators, whatever its key, and a list under `$and` into the predicates that it holds. Groups
-- under `$or` and `$nor` stay whole.
mutual

def flatten : List (String × Json) → Multiset Clause
  | [] => 0
  | (key, value) :: rest => flattenMember key value + flatten rest

def flattenMember (key : String) : Json → Multiset Clause
  | .arr items => if key = "$and" then flattenItems items else {.member key (.arr items)}
  | .obj fields =>
    if isOperatorDocument fields then ↑(fields.map fun f => Clause.operator key f.1 f.2)
    else {.member key (.obj fields)}
  | value => {.member key value}

def flattenItems : List Json → Multiset Clause
  | [] => 0
  | .obj members :: rest => flatten members + flattenItems rest
  | item :: rest => {.item item} + flattenItems rest

end

theorem flatten_append (first second : Predicate) :
    flatten (first ++ second) = flatten first + flatten second := by
  induction first with
  | nil => simp [flatten]
  | cons member rest ih =>
    obtain ⟨key, value⟩ := member
    simp [flatten, ih, add_assoc]

theorem flatten_single (key : String) (value : Json) :
    flatten [(key, value)] = flattenMember key value := by
  simp [flatten]

theorem flattenItems_append (first second : List Json) :
    flattenItems (first ++ second) = flattenItems first + flattenItems second := by
  induction first with
  | nil => simp [flattenItems]
  | cons item rest ih => cases item <;> simp [flattenItems, ih, add_assoc]

theorem flatten_and (items : List Json) :
    flattenMember "$and" (.arr items) = flattenItems items := by
  simp [flattenMember]

theorem flatten_conjunct (key : String) (value : Json) :
    flattenItems [.obj [(key, value)]] = flattenMember key value := by
  simp [flattenItems, flatten_single]

theorem flattenMember_ne_zero {key : String} {value : Json} (unlisted : ∀ items, value ≠ .arr items) :
    flattenMember key value ≠ 0 := by
  cases value with
  | arr items => exact absurd rfl (unlisted items)
  | obj fields =>
    cases fields with
    | nil => simp [flattenMember, isOperatorDocument]
    | cons field rest => by_cases document : isOperatorDocument (field :: rest) <;>
        simp [flattenMember, document]
  | _ => simp [flattenMember]

inductive Joins (key : String) : Json → Json → Prop
  | documents {current incoming : Fields} (standing : isOperatorDocument current)
      (arriving : isOperatorDocument incoming) (disjoint : disjointKeys current incoming) :
      Joins key (.obj current) (.obj incoming)
  | lists {current incoming : List Json} (conjunction : key = "$and") :
      Joins key (.arr current) (.arr incoming)

variable {p : Predicate} {key : String} {old value : Json}

theorem merge_of_joins (found : p.get? key = some old) (joins : Joins key old value) :
    ∃ before after joint, p = before ++ (key, old) :: after ∧
      p.merge key value = before ++ (key, joint) :: after ∧
      flattenMember key joint = flattenMember key old + flattenMember key value := by
  obtain ⟨before, after, split, replaced⟩ := Fields.insert_of_get? found
  cases joins with
  | @documents current incoming standing arriving disjoint =>
    refine ⟨before, after, .obj (current ++ incoming), split, ?_, ?_⟩
    · simp [merge, found, standing, arriving, disjoint, replaced]
    · have joined := isOperatorDocument_append standing arriving
      simp [flattenMember, standing, arriving, joined]
  | @lists current incoming conjunction =>
    subst conjunction
    refine ⟨before, after, .arr (current ++ incoming), split, ?_, ?_⟩
    · simp [merge, found, replaced]
    · simp [flatten_and, flattenItems_append]

theorem merge_of_clash (found : p.get? key = some old) (clash : ¬ Joins key old value) :
    p.merge key value = p.conjoin key value := by
  unfold merge
  split
  next missing => simp [missing] at found
  next current incoming standing =>
    rw [if_neg]
    intro agree
    simp only [Bool.and_eq_true] at agree
    cases found.symm.trans standing
    exact clash (.documents agree.1.1 agree.1.2 agree.2)
  next current incoming standing =>
    rw [if_neg]
    intro conjunction
    cases found.symm.trans standing
    exact clash (.lists conjunction)
  next => rfl

def displaceable (p : Predicate) : Multiset Clause :=
  match p.get? "$and" with
  | none => 0
  | some (.arr _) => 0
  | some held => flattenMember "$and" held

theorem flatten_conjoin (p : Predicate) (key : String) (value : Json) :
    flatten (p.conjoin key value) + p.displaceable = flatten p + flattenMember key value := by
  cases found : p.get? "$and" with
  | none =>
    have fresh := Fields.insert_of_get?_none found (.arr [.obj [(key, value)]])
    simp [conjoin, displaceable, found, fresh, flatten_append, flatten_single, flatten_and,
      flatten_conjunct]
  | some held =>
    obtain ⟨before, after, split, replaced⟩ := Fields.insert_of_get? found
    cases held with
    | arr items =>
      simp only [conjoin, displaceable, found, replaced, add_zero]
      rw [split]
      simp only [flatten_append, flatten, flatten_and, flattenItems_append, flatten_conjunct]
      ac_rfl
    | _ =>
      simp only [conjoin, displaceable, found, replaced]
      rw [split]
      simp only [flatten_append, flatten, flatten_and, flatten_conjunct]
      ac_rfl

/-- A clause displaces others if it cannot stand beside what is at its key, so that it has to move
under `$and`, and there is a member `$and` that is no list. -/
def Displaces (p : Predicate) (key : String) (value : Json) : Prop :=
  (∃ old, p.get? key = some old ∧ ¬ Joins key old value) ∧
    ∃ held, p.get? "$and" = some held ∧ ∀ items, held ≠ .arr items

theorem displaceable_eq_zero :
    p.displaceable = 0 ↔ ¬ ∃ held, p.get? "$and" = some held ∧ ∀ items, held ≠ .arr items := by
  cases found : p.get? "$and" with
  | none => simp [displaceable, found]
  | some held =>
    cases held with
    | arr items => simp [displaceable, found]
    | _ => simp [displaceable, found, flattenMember_ne_zero]

/-- Merging keeps the clauses on both sides, each as often as it was there, unless the clause
displaces some. -/
theorem merge_flatten (p : Predicate) (key : String) (value : Json) :
    flatten (p.merge key value) = flatten p + flatten [(key, value)] ↔ ¬ Displaces p key value := by
  rw [flatten_single]
  cases found : p.get? key with
  | none =>
    have kept : ¬ Displaces p key value := by simp [Displaces, found]
    simp [kept, merge_of_fresh found, flatten_append, flatten_single]
  | some old =>
    by_cases joins : Joins key old value
    · have kept : ¬ Displaces p key value := by simp [Displaces, found, joins]
      obtain ⟨before, after, joint, split, merged, parts⟩ := merge_of_joins found joins
      rw [iff_true_right kept, merged, split]
      simp only [flatten_append, flatten, parts]
      ac_rfl
    · have moved : Displaces p key value ↔
          ∃ held, p.get? "$and" = some held ∧ ∀ items, held ≠ .arr items := by
        simp [Displaces, found, joins]
      -- Either side of `flatten_conjoin` names what is lost, so nothing is lost if that is zero.
      rw [moved, ← displaceable_eq_zero, merge_of_clash found joins, ← flatten_conjoin, left_eq_add]

def rawConjunction : Predicate := [("$and", .obj [("title", .str "Lean")]), ("age", .int 5)]

theorem rawConjunction_loses_clause :
    flatten (rawConjunction.merge "age" (.obj [("$ne", .int 6)])) ≠
      flatten rawConjunction + flatten [("age", .obj [("$ne", .int 6)])] := by
  intro kept
  exact absurd (congrArg Multiset.card kept) (by decide)

end Predicate

end DocQuery
