import DocQuery.Proofs.Chains

set_option autoImplicit false

namespace DocQuery

open Text

namespace Catalog

def Leads (catalog : Catalog) : String → List Relation → String → Prop
  | owner, [], target => owner = target
  | owner, r :: rest, target =>
    catalog.relation? owner r.name = some r ∧ catalog.Leads r.target rest target

def Undotted (catalog : Catalog) : Prop := ∀ entry ∈ catalog.entries, '.' ∉ entry.2.name.toList

instance (catalog : Catalog) : Decidable catalog.Undotted :=
  inferInstanceAs (Decidable (∀ entry ∈ catalog.entries, '.' ∉ entry.2.name.toList))

variable {catalog : Catalog} {owner target : String}

theorem Undotted.name (undotted : catalog.Undotted) {name : String} {r : Relation}
    (known : catalog.relation? owner name = some r) : '.' ∉ r.name.toList := by
  obtain ⟨entry, found, rfl⟩ := Option.map_eq_some_iff.mp known
  exact undotted entry (List.mem_of_find?_eq_some found)

theorem Leads.snoc {chain : List Relation} {r : Relation} (leads : catalog.Leads owner chain target)
    (known : catalog.relation? target r.name = some r) :
    catalog.Leads owner (chain ++ [r]) r.target := by
  induction chain generalizing owner with
  | nil =>
    cases leads
    exact ⟨known, rfl⟩
  | cons q rest ih => exact ⟨leads.1, ih leads.2⟩

theorem Leads.undotted (undotted : catalog.Undotted) {chain : List Relation}
    (leads : catalog.Leads owner chain target) :
    ∀ name ∈ chain.map (·.name), '.' ∉ name.toList := by
  induction chain generalizing owner with
  | nil => simp
  | cons r rest ih =>
    exact List.forall_mem_cons.mpr ⟨undotted.name leads.1, ih leads.2⟩

theorem Leads.prefix_of_names {first second : List Relation} {near far : String}
    (leads : catalog.Leads owner first near) (further : catalog.Leads owner second far)
    (names : first.map (·.name) <+: second.map (·.name)) : first <+: second := by
  induction first generalizing owner second with
  | nil => exact List.nil_prefix
  | cons r rest ih =>
    cases second with
    | nil => simp at names
    | cons q more =>
      obtain ⟨same, others⟩ := List.cons_prefix_cons.mp names
      have named : r.name = q.name := same
      have known := further.1
      rw [← named, leads.1] at known
      cases known
      exact List.cons_prefix_cons.mpr ⟨rfl, ih leads.2 further.2 others⟩

end Catalog

namespace Lookup

def Above (outer inner : Lookup) : Prop := ∃ rest, inner.output = outer.output ++ "." ++ rest

theorem along_output (chain : List Relation) (r : Relation) :
    (along chain r).output = chainPath (chain ++ [r]) := by
  simp [along, chainPath]

def Covers (seen : List Lookup) (chain : List Relation) : Prop :=
  ∀ above q, above ++ [q] <+: chain → along above q ∈ seen

variable {seen more : List Lookup} {chain : List Relation}

theorem covers_nil : Covers seen [] := by
  intro above q within
  simp at within

theorem Covers.grown (covers : Covers seen chain) (more : List Lookup) :
    Covers (seen ++ more) chain :=
  fun above q within => List.mem_append_left more (covers above q within)

theorem Covers.snoc (covers : Covers seen chain) (r : Relation) :
    Covers (seen ++ [along chain r]) (chain ++ [r]) := by
  intro above q within
  rcases List.prefix_concat_iff.mp within with whole | shorter
  · obtain ⟨rfl, same⟩ := List.append_inj' whole rfl
    cases same
    exact List.mem_append_right seen List.mem_cons_self
  · exact covers.grown _ above q shorter

variable (catalog : Catalog) (root : String)

def Grounded (seen : List Lookup) (join : Lookup) : Prop :=
  ∃ chain r, join = .along chain r ∧ catalog.Leads root (chain ++ [r]) r.target ∧ Covers seen chain

def ParentsFirst (seen : List Lookup) : List Lookup → Prop
  | [] => True
  | join :: rest => Grounded catalog root seen join ∧ ParentsFirst (seen ++ [join]) rest

variable {catalog : Catalog} {root : String}

theorem parentsFirst_append {first second : List Lookup} :
    ParentsFirst catalog root seen (first ++ second) ↔
      ParentsFirst catalog root seen first ∧ ParentsFirst catalog root (seen ++ first) second := by
  induction first generalizing seen with
  | nil => simp [ParentsFirst]
  | cons join rest ih => simp [ParentsFirst, ih, and_assoc]

theorem parentsFirst_flatMap {α : Type} {joins : α → List Lookup} {xs : List α}
    (each : ∀ x ∈ xs, ∀ seen, Covers seen chain → ParentsFirst catalog root seen (joins x))
    (covers : Covers seen chain) : ParentsFirst catalog root seen (xs.flatMap joins) := by
  induction xs generalizing seen with
  | nil => trivial
  | cons x rest ih =>
    obtain ⟨first, others⟩ := List.forall_mem_cons.mp each
    exact parentsFirst_append.mpr ⟨first seen covers, ih others (covers.grown _)⟩

theorem ParentsFirst.grounded {joins : List Lookup} (ready : ParentsFirst catalog root seen joins)
    {join : Lookup} (inside : join ∈ joins) : ∃ seen, Grounded catalog root seen join := by
  obtain ⟨before, after, rfl⟩ := List.append_of_mem inside
  exact ⟨_, (parentsFirst_append.mp ready).2.1⟩

theorem Grounded.mem_of_above (undotted : catalog.Undotted) {others : List Lookup}
    {outer inner : Lookup} (inside : Grounded catalog root seen inner)
    (around : Grounded catalog root others outer) (above : outer.Above inner) : outer ∈ seen := by
  obtain ⟨chain, r, rfl, leads, covers⟩ := inside
  obtain ⟨upper, q, rfl, toOuter, -⟩ := around
  obtain ⟨rest, written⟩ := above
  -- Split at the dots, the one output gives the names of its chain, which start those of the other.
  have split := congrArg (segments '.') written
  rw [segments_append, along_output, along_output, chainPath, chainPath,
    segments_joinPath (by simp) (leads.undotted undotted),
    segments_joinPath (by simp) (toOuter.undotted undotted)] at split
  have within : upper ++ [q] <+: chain ++ [r] := toOuter.prefix_of_names leads ⟨_, split.symm⟩
  rcases List.prefix_concat_iff.mp within with same | shorter
  · rw [same] at split
    exact absurd (List.self_eq_append_right.mp split) (segments_ne_nil '.' rest)
  · exact covers upper q shorter

end Lookup

open Lookup

theorem Node.chainJoins_parentsFirst {catalog : Catalog} {root owner : String} {n : Node}
    {chain : List Relation} {seen : List Lookup} (declared : Declared catalog Home owner n)
    (leads : catalog.Leads root chain owner) (covers : Covers seen chain) :
    ParentsFirst catalog root seen (chainJoins chain n) := by
  induction declared generalizing chain seen with
  | field self => trivial
  | @relation owner i r children self filled known below ih =>
    cases effect : (Node.relation i r children).hasEffect with
    | false => simp [chainJoins_of_no_effect effect, ParentsFirst]
    | true =>
      rw [chainJoins_relation effect, allChainJoins_eq]
      refine ⟨⟨chain, r, rfl, leads.snoc known, covers⟩, ?_⟩
      refine parentsFirst_flatMap ?_ (covers.snoc r)
      intro n inside seen covered
      exact ih n inside (leads.snoc known) covered
  | @group owner i connective branches self below ih =>
    cases effect : (Node.group i connective branches).hasEffect with
    | false => simp [chainJoins_of_no_effect effect, ParentsFirst]
    | true =>
      have active : i.suppressed = false := active_of_hasEffect effect
      rw [chainJoins_group active]
      refine parentsFirst_flatMap ?_ covers
      intro branch listed seen covered
      rw [allChainJoins_eq]
      refine parentsFirst_flatMap ?_ covered
      intro n inside seen covered
      exact ih branch listed n inside leads covered

theorem Node.allChainJoins_parentsFirst {catalog : Catalog} {root : String} {nodes : List Node}
    (declared : ∀ n ∈ nodes, Declared catalog Home root n) :
    ParentsFirst catalog root [] (allChainJoins [] nodes) := by
  rw [allChainJoins_eq]
  refine parentsFirst_flatMap ?_ covers_nil
  intro n inside seen covered
  exact chainJoins_parentsFirst (declared n inside) rfl covered

namespace Staging

theorem newJoins_fresh {staged joins : List Lookup} {join : Lookup}
    (inside : join ∈ newJoins true staged joins) : join.kind ∉ staged.map Lookup.kind := by
  have kinds := List.mem_map_of_mem (f := Lookup.kind) inside
  rw [newJoins_kinds, List.mem_eraseDups, List.mem_filter] at kinds
  simpa using kinds.2

theorem newJoins_parentsFirst {catalog : Catalog} {root : String} (undotted : catalog.Undotted)
    {seen staged joins : List Lookup} (ready : ParentsFirst catalog root seen joins)
    (known : ∀ join ∈ seen, join.kind ∈ staged.map Lookup.kind) :
    (newJoins true staged joins).Pairwise fun first later => ¬ later.Above first := by
  induction joins generalizing seen staged with
  | nil => exact .nil
  | cons join rest ih =>
    obtain ⟨grounded, others⟩ := ready
    rw [newJoins, Bool.true_and, any_sameJoin]
    cases there : (staged.map Lookup.kind).contains join.kind with
    | true =>
      refine ih others (List.forall_mem_append.mpr ⟨known, ?_⟩)
      exact List.forall_mem_singleton.mpr (List.contains_iff_mem.mp there)
    | false =>
      have grown : ∀ other ∈ seen ++ [join], other.kind ∈ (staged ++ [join]).map Lookup.kind := by
        rw [List.map_append]
        refine List.forall_mem_append.mpr ⟨?_, by simp⟩
        exact fun other inside => List.mem_append_left _ (known other inside)
      refine List.pairwise_cons.mpr ⟨?_, ih others grown⟩
      -- A join above this one was asked for before it, so its kind is staged and not staged again.
      intro later inside above
      obtain ⟨_, around⟩ := others.grounded (newJoins_subset _ _ _ later inside)
      have earlier := grounded.mem_of_above undotted around above
      exact newJoins_fresh inside (grown later (List.mem_append_left _ earlier))

end Staging

end DocQuery
