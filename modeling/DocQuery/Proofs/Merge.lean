import DocQuery.Predicate

set_option autoImplicit false

namespace DocQuery

namespace Fields

theorem get?_append (first second : Fields) (key : String) :
    get? (first ++ second) key = (first.get? key).or (second.get? key) := by
  induction first with
  | nil => rfl
  | cons member rest ih =>
    obtain ⟨k, v⟩ := member
    by_cases same : k = key
    · simp [get?, same]
    · simp [get?, same, ih]

theorem contains_append (first second : Fields) (key : String) :
    contains (first ++ second) key = (first.contains key || second.contains key) := by
  simp only [contains, get?_append]
  cases first.get? key <;> simp

theorem contains_eq_false {fields : Fields} {key : String} :
    fields.contains key = false ↔ fields.get? key = none := by
  simp [contains]

theorem contains_of_mem {fields : Fields} {key : String} {value : Json}
    (member : (key, value) ∈ fields) : fields.contains key = true := by
  cases found : fields.get? key with
  | some found => simp [contains, found]
  | none =>
    have missing := (get?_eq_none fields key).mp found
    exact absurd (List.mem_map.mpr ⟨(key, value), member, rfl⟩) missing

theorem insert_of_get? {fields : Fields} {key : String} {old : Json}
    (found : fields.get? key = some old) :
    ∃ before after, fields = before ++ (key, old) :: after ∧
      ∀ value, fields.insert key value = before ++ (key, value) :: after := by
  induction fields with
  | nil => simp [get?] at found
  | cons member rest ih =>
    obtain ⟨k, v⟩ := member
    by_cases same : k = key
    · subst same
      simp only [get?, if_true, Option.some.injEq] at found
      exact ⟨[], rest, by simp [found], by simp [insert]⟩
    · simp only [get?, same, if_false] at found
      obtain ⟨before, after, split, replaced⟩ := ih found
      exact ⟨(k, v) :: before, after, by simp [split], by simp [insert, same, replaced]⟩

theorem mem_of_contains {fields : Fields} {key : String} (present : fields.contains key = true) :
    ∃ value, (key, value) ∈ fields := by
  obtain ⟨value, found⟩ := Option.isSome_iff_exists.mp present
  obtain ⟨before, after, split, -⟩ := insert_of_get? found
  exact ⟨value, by simp [split]⟩

theorem insert_of_get?_none {fields : Fields} {key : String} (missing : fields.get? key = none)
    (value : Json) : fields.insert key value = fields ++ [(key, value)] :=
  insert_of_not_mem ((get?_eq_none fields key).mp missing) value

end Fields

namespace Predicate

theorem disjointKeys_apart {current incoming : Fields} (disjoint : disjointKeys current incoming)
    {key : String} (arriving : Fields.contains incoming key = true) :
    Fields.contains current key = false := by
  obtain ⟨value, member⟩ := Fields.mem_of_contains arriving
  simpa using List.all_eq_true.mp disjoint (key, value) member

/-- What merging the clause `key: value` can do to a predicate: append it, join it with an operator
document or with `$and` at its key, or move it under `$and`. Under `$and` it ends a list, or makes
one of its own, in the last case in place of a member that is no list. -/
inductive Merged (key : String) (value : Json) : Predicate → Predicate → Prop
  | added {p : Predicate} (fresh : p.get? key = none) : Merged key value p (p ++ [(key, value)])
  | joined {before after : Predicate} {current incoming : Fields} (asked : value = .obj incoming)
      (standing : isOperatorDocument current) (arriving : isOperatorDocument incoming)
      (disjoint : disjointKeys current incoming) :
      Merged key value (before ++ (key, .obj current) :: after)
        (before ++ (key, .obj (current ++ incoming)) :: after)
  | extended {before after : Predicate} {current incoming : List Json}
      (asked : value = .arr incoming) (conjunction : key = "$and") :
      Merged key value (before ++ ("$and", .arr current) :: after)
        (before ++ ("$and", .arr (current ++ incoming)) :: after)
  | conjoined {before after : Predicate} {conjuncts : List Json} :
      Merged key value (before ++ ("$and", .arr conjuncts) :: after)
        (before ++ ("$and", .arr (conjuncts ++ [.obj [(key, value)]])) :: after)
  | opened {p : Predicate} (fresh : p.get? "$and" = none) :
      Merged key value p (p ++ [("$and", .arr [.obj [(key, value)]])])
  | displaced {before after : Predicate} {old : Json} (unlisted : ∀ items, old ≠ .arr items) :
      Merged key value (before ++ ("$and", old) :: after)
        (before ++ ("$and", .arr [.obj [(key, value)]]) :: after)

theorem conjoin_merged (p : Predicate) (key : String) (value : Json) :
    Merged key value p (p.conjoin key value) := by
  cases found : p.get? "$and" with
  | none =>
    have result : p.conjoin key value = p ++ [("$and", .arr [.obj [(key, value)]])] := by
      simp [conjoin, found, Fields.insert_of_get?_none found]
    rw [result]
    exact .opened found
  | some old =>
    obtain ⟨before, after, split, replaced⟩ := Fields.insert_of_get? found
    by_cases listed : ∃ items, old = .arr items
    · obtain ⟨items, rfl⟩ := listed
      simp only [conjoin, found, replaced]
      rw [split]
      exact .conjoined
    · have unlisted : ∀ items, old ≠ .arr items := fun items same => listed ⟨items, same⟩
      have result :
          p.conjoin key value = before ++ ("$and", .arr [.obj [(key, value)]]) :: after := by
        cases old with
        | arr items => exact absurd rfl (unlisted items)
        | _ => simp [conjoin, found, replaced]
      rw [result, split]
      exact .displaced unlisted

theorem merge_merged (p : Predicate) (key : String) (value : Json) :
    Merged key value p (p.merge key value) := by
  unfold merge
  split
  next missing =>
    rw [Fields.insert_of_get?_none missing]
    exact .added missing
  next current incoming found =>
    split
    next agree =>
      simp only [Bool.and_eq_true] at agree
      obtain ⟨before, after, split, replaced⟩ := Fields.insert_of_get? found
      rw [replaced, split]
      exact .joined rfl agree.1.1 agree.1.2 agree.2
    next => exact conjoin_merged p key _
  next current incoming found =>
    split
    next conjunction =>
      subst conjunction
      obtain ⟨before, after, split, replaced⟩ := Fields.insert_of_get? found
      rw [replaced, split]
      exact .extended rfl rfl
    next => exact conjoin_merged p key _
  next => exact conjoin_merged p key _

theorem merge_of_fresh {p : Predicate} {key : String} (fresh : p.get? key = none) (value : Json) :
    p.merge key value = p ++ [(key, value)] := by
  simp [merge, fresh, Fields.insert_of_get?_none fresh]

theorem Merged.mem {key : String} {value : Json} {p q : Predicate} (merged : Merged key value p q)
    {member : String × Json} (inside : member ∈ q) :
    member ∈ p ∨ member = (key, value) ∨ (∃ items, member = ("$and", .arr items)) ∨
      ∃ current incoming, (key, .obj current) ∈ p ∧ value = .obj incoming ∧
        disjointKeys current incoming ∧ member = (key, .obj (current ++ incoming)) := by
  cases merged with
  | added fresh =>
    rcases List.mem_append.mp inside with old | new
    · exact .inl old
    · exact .inr (.inl (List.mem_singleton.mp new))
  | @joined before after current incoming asked standing arriving disjoint =>
    simp only [List.mem_append, List.mem_cons] at inside ⊢
    rcases inside with earlier | rfl | later
    · exact .inl (.inl earlier)
    · exact .inr (.inr (.inr ⟨current, incoming, by simp, asked, disjoint, rfl⟩))
    · exact .inl (.inr (.inr later))
  | opened fresh =>
    rcases List.mem_append.mp inside with old | new
    · exact .inl old
    · exact .inr (.inr (.inl ⟨_, List.mem_singleton.mp new⟩))
  | extended | conjoined | displaced =>
    simp only [List.mem_append, List.mem_cons] at inside ⊢
    rcases inside with earlier | rfl | later
    · exact .inl (.inl earlier)
    · exact .inr (.inr (.inl ⟨_, rfl⟩))
    · exact .inl (.inr (.inr later))

@[simp] theorem mergeAll_nil (p : Predicate) : p.mergeAll [] = p := rfl

theorem mergeAll_cons (p : Predicate) (key : String) (value : Json) (rest : Fields) :
    p.mergeAll ((key, value) :: rest) = (p.merge key value).mergeAll rest := rfl

theorem mergeAll_append (p : Predicate) (first second : Fields) :
    p.mergeAll (first ++ second) = (p.mergeAll first).mergeAll second :=
  List.foldl_append

theorem mergeAll_of_fresh {clauses : Fields} (distinct : clauses.keys.Nodup) {p : Predicate}
    (fresh : ∀ key ∈ clauses.keys, p.get? key = none) : p.mergeAll clauses = p ++ clauses := by
  induction clauses generalizing p with
  | nil => simp
  | cons clause rest ih =>
    obtain ⟨key, value⟩ := clause
    obtain ⟨missing, others⟩ := List.nodup_cons.mp distinct
    have later : ∀ other ∈ Fields.keys rest, Fields.get? (p ++ [(key, value)]) other = none := by
      intro other member
      have apart : key ≠ other := fun same => missing (same ▸ member)
      have before := fresh other (List.mem_cons_of_mem _ member)
      simp [Fields.get?_append, before, Fields.get?, apart]
    rw [mergeAll_cons, merge_of_fresh (fresh key List.mem_cons_self), ih others later,
      List.append_assoc, List.singleton_append]

theorem mergeAll_induct {motive : Predicate → Prop} {clauses : Fields}
    (step : ∀ key value, (key, value) ∈ clauses → ∀ p q, Merged key value p q → motive p → motive q)
    {p : Predicate} (initial : motive p) : motive (p.mergeAll clauses) := by
  induction clauses generalizing p with
  | nil => exact initial
  | cons clause rest ih =>
    obtain ⟨key, value⟩ := clause
    apply ih
    · intro k v member
      exact step k v (by simp [member])
    · exact step key value (by simp) p (p.merge key value) (merge_merged p key value) initial

end Predicate

end DocQuery
