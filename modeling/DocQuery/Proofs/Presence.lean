import DocQuery.Proofs.Reading

set_option autoImplicit false

namespace DocQuery

namespace Predicate

def States (value clause : Json) : Prop :=
  value = clause ∨ ∃ fields operators, value = .obj fields ∧ clause = .obj operators ∧
    isOperatorDocument fields ∧ ∀ member ∈ operators, member ∈ fields

theorem States.extended {current joined : Fields} {clause : Json}
    (joins : isOperatorDocument joined) (kept : ∀ member ∈ current, member ∈ joined)
    (states : States (.obj current) clause) : States (.obj joined) clause := by
  rcases states with rfl | ⟨fields, operators, same, rfl, -, all⟩
  · exact .inr ⟨joined, current, rfl, rfl, joins, kept⟩
  · cases same
    exact .inr ⟨joined, operators, rfl, rfl, joins, fun member inside => kept _ (all member inside)⟩

inductive Carries (path : String) (clause : Json) : String × Json → Prop
  | own {value : Json} (states : States value clause) : Carries path clause (path, value)
  | listed {connective : Connective} {items : List Json} {members : Predicate}
      {member : String × Json} (item : .obj members ∈ items) (inside : member ∈ members)
      (carries : Carries path clause member) :
      Carries path clause (connective.native, .arr items)

def Has (path : String) (clause : Json) (p : Predicate) : Prop :=
  ∃ member ∈ p, Carries path clause member

variable {path : String} {clause : Json}

theorem has_append {first second : Predicate} :
    Has path clause (first ++ second) ↔ Has path clause first ∨ Has path clause second := by
  simp only [Has, List.mem_append, or_and_right, exists_or]

theorem has_cons {member : String × Json} {rest : Predicate} :
    Has path clause (member :: rest) ↔ Carries path clause member ∨ Has path clause rest := by
  simp [Has]

theorem Carries.grouped {key : String} {value : Json} (carries : Carries path clause (key, value))
    (apart : path ≠ key) : ∃ items, value = .arr items := by
  cases carries with
  | own states => exact absurd rfl apart
  | @listed connective items => exact ⟨items, rfl⟩

theorem Carries.grown {key : String} (apart : path ≠ key) {items more : List Json}
    (carries : Carries path clause (key, .arr items)) (kept : ∀ item ∈ items, item ∈ more) :
    Carries path clause (key, .arr more) := by
  cases carries with
  | own states => exact absurd rfl apart
  | listed item inside carries => exact .listed (kept _ item) inside carries

theorem Carries.conjunct {key : String} {value : Json} (carries : Carries path clause (key, value))
    {items : List Json} (item : .obj [(key, value)] ∈ items) :
    Carries path clause ("$and", .arr items) :=
  @Carries.listed path clause .and items [(key, value)] (key, value) item (by simp) carries

theorem Has.kept {key : String} {value : Json} {p q : Predicate} (merged : Merged key value p q)
    (apart : path ≠ "$and") (present : Has path clause p) : Has path clause q := by
  cases merged with
  | added fresh => exact has_append.mpr (.inl present)
  | opened fresh => exact has_append.mpr (.inl present)
  | @joined before after current incoming asked standing arriving disjoint =>
    simp only [has_append, has_cons] at present ⊢
    rcases present with earlier | carries | later
    · exact .inl earlier
    · cases carries with
      | own states =>
        have joins := isOperatorDocument_append standing arriving
        exact .inr (.inl (.own (states.extended joins fun _ => List.mem_append_left _)))
    · exact .inr (.inr later)
  | extended asked conjunction =>
    simp only [has_append, has_cons] at present ⊢
    rcases present with earlier | carries | later
    · exact .inl earlier
    · exact .inr (.inl (carries.grown apart fun _ => List.mem_append_left _))
    · exact .inr (.inr later)
  | conjoined =>
    simp only [has_append, has_cons] at present ⊢
    rcases present with earlier | carries | later
    · exact .inl earlier
    · exact .inr (.inl (carries.grown apart fun _ => List.mem_append_left _))
    · exact .inr (.inr later)
  | @displaced before after old unlisted =>
    simp only [has_append, has_cons] at present ⊢
    rcases present with earlier | carries | later
    · exact .inl earlier
    · obtain ⟨items, listed⟩ := carries.grouped apart
      exact absurd listed (unlisted items)
    · exact .inr (.inr later)

theorem Has.arrived {key : String} {value : Json} {p q : Predicate} (merged : Merged key value p q)
    (apart : path ≠ "$and") (carries : Carries path clause (key, value)) : Has path clause q := by
  cases merged with
  | added fresh => exact has_append.mpr (.inr (has_cons.mpr (.inl carries)))
  | @joined before after current incoming asked standing arriving disjoint =>
    subst asked
    cases carries with
    | own states =>
      have joins := isOperatorDocument_append standing arriving
      have own := states.extended joins fun _ => List.mem_append_right _
      exact has_append.mpr (.inr (has_cons.mpr (.inl (.own own))))
  | @extended before after current incoming asked conjunction =>
    subst asked conjunction
    have grown : Carries path clause ("$and", .arr (current ++ incoming)) :=
      carries.grown apart fun _ => List.mem_append_right _
    exact has_append.mpr (.inr (has_cons.mpr (.inl grown)))
  | @conjoined before after conjuncts =>
    have conjunct : Carries path clause ("$and", .arr (conjuncts ++ [.obj [(key, value)]])) :=
      carries.conjunct (List.mem_append_right _ (List.mem_singleton.mpr rfl))
    exact has_append.mpr (.inr (has_cons.mpr (.inl conjunct)))
  | opened fresh =>
    have conjunct := carries.conjunct (List.mem_singleton.mpr rfl)
    exact has_append.mpr (.inr (has_cons.mpr (.inl conjunct)))
  | displaced unlisted =>
    have conjunct := carries.conjunct (List.mem_singleton.mpr rfl)
    exact has_append.mpr (.inr (has_cons.mpr (.inl conjunct)))

theorem Has.mergeAll {clauses : Fields} (apart : path ≠ "$and") (present : Has path clause clauses)
    (p : Predicate) : Has path clause (p.mergeAll clauses) := by
  induction clauses generalizing p with
  | nil =>
    obtain ⟨member, inside, -⟩ := present
    simp at inside
  | cons member rest ih =>
    obtain ⟨key, value⟩ := member
    rw [mergeAll_cons]
    rcases has_cons.mp present with first | later
    · have arrived := Has.arrived (merge_merged p key value) apart first
      exact mergeAll_induct (motive := Has path clause)
        (fun _ _ _ _ _ merged standing => standing.kept merged apart) arrived
    · exact ih later (p.merge key value)

end Predicate

end DocQuery
