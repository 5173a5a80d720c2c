import DocQuery.Filter.Node

set_option autoImplicit false

namespace DocQuery.Node

@[elab_as_elim, induction_eliminator]
theorem induct {motive : Node → Prop}
    (field : ∀ i name operator, motive (.field i name operator))
    (relation : ∀ i r children, (∀ n ∈ children, motive n) → motive (.relation i r children))
    (group : ∀ i connective branches,
      (∀ branch ∈ branches, ∀ n ∈ branch, motive n) → motive (.group i connective branches))
    (n : Node) : motive n :=
  @Node.rec motive (fun ns => ∀ n ∈ ns, motive n)
    (fun branches => ∀ branch ∈ branches, ∀ n ∈ branch, motive n)
    field relation group
    (by simp) (fun _ _ first rest => by simpa using ⟨first, rest⟩)
    (by simp) (fun _ _ first rest => by simpa using ⟨first, rest⟩) n

mutual

def within : Node → List Node
  | .field i name operator => [.field i name operator]
  | .relation i r children => .relation i r children :: withinAll children
  | .group i connective branches => .group i connective branches :: withinBranches branches

def withinAll : List Node → List Node
  | [] => []
  | n :: rest => within n ++ withinAll rest

def withinBranches : List (List Node) → List Node
  | [] => []
  | branch :: rest => withinAll branch ++ withinBranches rest

end

theorem withinAll_eq (ns : List Node) : withinAll ns = ns.flatMap within := by
  induction ns with
  | nil => rfl
  | cons n rest ih => simp [withinAll, ih]

theorem withinBranches_eq (branches : List (List Node)) :
    withinBranches branches = branches.flatMap withinAll := by
  induction branches with
  | nil => rfl
  | cons branch rest ih => simp [withinBranches, ih]

theorem mem_withinAll {m : Node} {ns : List Node} :
    m ∈ withinAll ns ↔ ∃ n ∈ ns, m ∈ within n := by
  simp [withinAll_eq]

theorem mem_within_self (n : Node) : n ∈ within n := by
  cases n <;> simp [within]

theorem forall_withinAll {p : Node → Prop} {ns : List Node} :
    (∀ m ∈ withinAll ns, p m) ↔ ∀ n ∈ ns, ∀ m ∈ within n, p m := by
  simp only [mem_withinAll]
  constructor
  · intro all n member m inside
    exact all m ⟨n, member, inside⟩
  · intro each m found
    obtain ⟨n, member, inside⟩ := found
    exact each n member m inside

theorem forall_withinBranches {p : Node → Prop} {branches : List (List Node)} :
    (∀ m ∈ withinBranches branches, p m) ↔
      ∀ branch ∈ branches, ∀ n ∈ branch, ∀ m ∈ within n, p m := by
  simp only [withinBranches_eq, List.mem_flatMap, forall_exists_index, and_imp]
  constructor
  · intro all branch member
    exact forall_withinAll.mp fun m inside => all m branch member inside
  · intro each m branch member inside
    exact forall_withinAll.mpr (each branch member) m inside

theorem within_trans {n m k : Node} (inside : m ∈ within n) (below : k ∈ within m) :
    k ∈ within n := by
  induction n with
  | field i name operator =>
    rw [within, List.mem_singleton] at inside
    rwa [inside] at below
  | relation i r children ih =>
    rw [within, List.mem_cons] at inside ⊢
    rcases inside with rfl | inside
    · rwa [within, List.mem_cons] at below
    · obtain ⟨n, member, found⟩ := mem_withinAll.mp inside
      exact .inr (mem_withinAll.mpr ⟨n, member, ih n member found⟩)
  | group i connective branches ih =>
    rw [within, List.mem_cons] at inside ⊢
    rcases inside with rfl | inside
    · rwa [within, List.mem_cons] at below
    · simp only [withinBranches_eq, List.mem_flatMap, mem_withinAll] at inside ⊢
      obtain ⟨branch, listed, n, member, found⟩ := inside
      exact .inr ⟨branch, listed, n, member, ih branch listed n member found⟩

theorem anyEffect_eq (ns : List Node) : anyEffect ns = ns.any hasEffect := by
  induction ns with
  | nil => rfl
  | cons n rest ih => simp [anyEffect, ih]

theorem anyBranchEffect_eq (branches : List (List Node)) :
    anyBranchEffect branches = branches.any anyEffect := by
  induction branches with
  | nil => rfl
  | cons branch rest ih => simp [anyBranchEffect, ih]

theorem anyEmbeds_eq (ns : List Node) : anyEmbeds ns = ns.any embedsRelation := by
  induction ns with
  | nil => rfl
  | cons n rest ih => simp [anyEmbeds, ih]

@[simp] theorem suppressed_field (i : Info) (name : String) (operator : Option Operator) :
    (Node.field i name operator).suppressed = i.suppressed := rfl

@[simp] theorem suppressed_relation (i : Info) (r : Relation) (children : List Node) :
    (Node.relation i r children).suppressed = i.suppressed := rfl

@[simp] theorem suppressed_group (i : Info) (connective : Connective)
    (branches : List (List Node)) :
    (Node.group i connective branches).suppressed = i.suppressed := rfl

theorem hasEffect_of_suppressed {n : Node} (suppressed : n.suppressed = true) :
    n.hasEffect = false := by
  cases n <;> simp_all [hasEffect]

def Standard (n : Node) : Prop := n.info.compiler = none

@[simp] theorem standard_field (i : Info) (name : String) (operator : Option Operator) :
    (Node.field i name operator).Standard ↔ i.compiler = none := Iff.rfl

@[simp] theorem standard_relation (i : Info) (r : Relation) (children : List Node) :
    (Node.relation i r children).Standard ↔ i.compiler = none := Iff.rfl

@[simp] theorem standard_group (i : Info) (connective : Connective)
    (branches : List (List Node)) :
    (Node.group i connective branches).Standard ↔ i.compiler = none := Iff.rfl

end DocQuery.Node
