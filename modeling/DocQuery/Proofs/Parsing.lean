import DocQuery.Filter.Parser
import DocQuery.Proofs.Outcome
import Mathlib.Data.List.Forall2

set_option autoImplicit false

namespace DocQuery

open List (Forall₂)

theorem forall₂_right {α β : Type} {related : α → β → Prop} {xs : List α} {ys : List β}
    (all : Forall₂ related xs ys) : ∀ y ∈ ys, ∃ x ∈ xs, related x y := by
  induction all with
  | nil => simp
  | @cons x y xs ys first _ ih =>
    refine List.forall_mem_cons.mpr ⟨⟨x, List.mem_cons_self, first⟩, ?_⟩
    intro y later
    obtain ⟨x, inside, found⟩ := ih y later
    exact ⟨x, List.mem_cons_of_mem _ inside, found⟩

theorem forall₂_left {α β : Type} {related : α → β → Prop} {xs : List α} {ys : List β}
    (all : Forall₂ related xs ys) : ∀ x ∈ xs, ∃ y ∈ ys, related x y :=
  forall₂_right (Forall₂.flip (R := fun y x => related x y) all)

namespace FilterParser

@[simp] theorem noteCycle_result (outer inner : Place) :
    (noteCycle outer inner).result = .ok () := by
  unfold noteCycle
  split <;> rfl

@[simp] theorem Place.length_inGroup (place : Place) (key : String) :
    (place.inGroup key).path.length = place.path.length + 1 := by
  simp [inGroup]

@[simp] theorem Place.length_inRelation (place : Place) (key target : String) :
    (place.inRelation key target).path.length = place.path.length + 1 := by
  simp [inRelation]

variable {p : FilterParser}

theorem enter_eq_ok {place : Place} {u : Unit} :
    (p.enter place).result = .ok u ↔ place.path.length ≤ p.maxDepth := by
  unfold enter
  split
  next deep => simpa using deep
  next shallow => simpa using shallow

theorem parseField_eq_ok {place : Place} {key : String} {value : Json} {n : Node} :
    p.parseField place key value = .ok n ↔
      p.isKeyword place.collection (SplitKey.ofKey key).field = false ∧
        n = .field { key, value, collection := place.collection } (SplitKey.ofKey key).field
          (SplitKey.ofKey key).operator := by
  cases keyword : p.isKeyword place.collection (SplitKey.ofKey key).field <;>
    simp [parseField, keyword, eq_comm]

structure Reads (p : FilterParser) (related : Place → String × Json → Node → Prop) : Prop where
  field : ∀ place key value, key ≠ "" → Connective.ofKey? key = none →
    p.catalog.relation? place.collection key = none →
    p.isKeyword place.collection (SplitKey.ofKey key).field = false →
      related place (key, value)
        (.field { key, value, collection := place.collection } (SplitKey.ofKey key).field
          (SplitKey.ofKey key).operator)
  relation : ∀ place key members r children, key ≠ "" → Connective.ofKey? key = none →
    p.catalog.relation? place.collection key = some r → place.path.length < p.maxDepth →
    Forall₂ (related (place.inRelation key r.target)) members children →
      related place (key, .obj members)
        (.relation { key, value := .obj members, collection := place.collection } r children)
  group : ∀ place key items connective branches, Connective.ofKey? key = some connective →
    place.path.length < p.maxDepth →
    Forall₂ (fun item branch => ∃ members, item = .obj members ∧
      Forall₂ (related (place.inGroup key)) members branch) items branches →
      related place (key, .arr items)
        (.group { key, value := .arr items, collection := place.collection } connective branches)

variable {related : Place → String × Json → Node → Prop}

-- The recursion is that of the parser itself, once for all relations of entries and nodes.
mutual

theorem Reads.entry (reads : Reads p related) (place : Place) (key : String) (value : Json)
    {n : Node} (parsed : (p.parseEntry place key value).result = .ok n) :
    related place (key, value) n := by
  unfold parseEntry at parsed
  by_cases empty : key = ""
  · simp [empty] at parsed
  rw [if_neg empty] at parsed
  cases grouping : Connective.ofKey? key with
  | some connective =>
    cases value with
    | arr items =>
      simp only [grouping, Traced.result_bind, Outcome.bind_eq_ok, enter_eq_ok,
        Place.length_inGroup, Nat.add_one_le_iff] at parsed
      obtain ⟨-, within, branches, found, made⟩ := parsed
      cases made
      exact reads.group place key items connective branches grouping within
        (reads.branches (place.inGroup key) key items found)
    | _ => simp [grouping, notAGroup] at parsed
  | none =>
    cases known : p.catalog.relation? place.collection key with
    | some r =>
      cases value with
      | obj members =>
        simp only [grouping, known, Traced.result_bind, Outcome.bind_eq_ok, enter_eq_ok,
          Place.length_inRelation, Nat.add_one_le_iff] at parsed
        obtain ⟨-, within, -, -, children, found, made⟩ := parsed
        cases made
        exact reads.relation place key members r children empty grouping known within
          (reads.members (place.inRelation key r.target) members found)
      | _ => simp [grouping, known, notARelation] at parsed
    | none =>
      simp only [grouping, known, Traced.result_lift, parseField_eq_ok] at parsed
      obtain ⟨plain, rfl⟩ := parsed
      exact reads.field place key value empty grouping known plain

theorem Reads.members (reads : Reads p related) (place : Place) (members : List (String × Json))
    {nodes : List Node} (parsed : (p.parseMembers place members).result = .ok nodes) :
    Forall₂ (related place) members nodes := by
  cases members with
  | nil =>
    cases parsed
    exact .nil
  | cons member rest =>
    obtain ⟨key, value⟩ := member
    simp only [parseMembers, Traced.result_bind, Outcome.bind_eq_ok] at parsed
    obtain ⟨first, found, others, more, made⟩ := parsed
    cases made
    exact .cons (reads.entry place key value found) (reads.members place rest more)

theorem Reads.branches (reads : Reads p related) (place : Place) (key : String) (items : List Json)
    {branches : List (List Node)}
    (parsed : (p.parseBranches place key items).result = .ok branches) :
    Forall₂ (fun item branch => ∃ members, item = .obj members ∧
      Forall₂ (related place) members branch) items branches := by
  cases items with
  | nil =>
    cases parsed
    exact .nil
  | cons item rest =>
    cases item with
    | obj members =>
      simp only [parseBranches, Traced.result_bind, Outcome.bind_eq_ok] at parsed
      obtain ⟨first, found, others, more, made⟩ := parsed
      cases made
      exact .cons ⟨members, rfl, reads.members place members found⟩
        (reads.branches place key rest more)
    | _ => simp [parseBranches, notAGroup] at parsed

end

def membersOf : Json → List (String × Json)
  | .obj members => members
  | _ => []

theorem Reads.parse (reads : Reads p related) {collection : String} {filter : Json}
    {nodes : List Node} (parsed : (p.parse collection filter).result = .ok nodes) :
    Forall₂ (related (.root collection)) (membersOf filter) nodes := by
  cases filter with
  | null =>
    cases parsed
    exact .nil
  | obj members => exact reads.members (.root collection) members parsed
  | _ => simp [FilterParser.parse] at parsed

end FilterParser

end DocQuery
