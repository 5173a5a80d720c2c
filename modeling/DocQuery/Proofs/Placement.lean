import DocQuery.Proofs.Chains
import DocQuery.Proofs.Rewriting

set_option autoImplicit false

namespace DocQuery

namespace Node

def isOpen (n : Node) : Bool := !n.suppressed && n.info.compiler.isNone

structure Placed where
  above : List Node
  node : Node

namespace Placed

def chain (p : Placed) : List Relation := p.above.filterMap relation?

/-- Whether the compiler of a node is run: it has one and is not suppressed, and nothing suppressed
and nothing with a compiler of its own encloses it. -/
def isRun (p : Placed) : Bool :=
  !p.node.suppressed && p.node.info.compiler.isSome && p.above.all isOpen

end Placed

mutual

def placed (above : List Node) : Node → List Placed
  | .field i name operator => [⟨above, .field i name operator⟩]
  | .relation i r children =>
    ⟨above, .relation i r children⟩ :: placedAll (above ++ [.relation i r children]) children
  | .group i connective branches =>
    ⟨above, .group i connective branches⟩ ::
      placedBranches (above ++ [.group i connective branches]) branches

def placedAll (above : List Node) : List Node → List Placed
  | [] => []
  | n :: rest => placed above n ++ placedAll above rest

def placedBranches (above : List Node) : List (List Node) → List Placed
  | [] => []
  | branch :: rest => placedAll above branch ++ placedBranches above rest

end

def runsIn (above : List Node) (n : Node) : List Placed := (placed above n).filter Placed.isRun

def runsAmong (above : List Node) (ns : List Node) : List Placed :=
  (placedAll above ns).filter Placed.isRun

section

variable {above : List Node} {n : Node} {p : Placed}

theorem placedAll_eq (above ns : List Node) : placedAll above ns = ns.flatMap (placed above) := by
  induction ns with
  | nil => rfl
  | cons n rest ih => simp [placedAll, ih]

theorem placedBranches_eq (above : List Node) (branches : List (List Node)) :
    placedBranches above branches = branches.flatMap (placedAll above) := by
  induction branches with
  | nil => rfl
  | cons branch rest ih => simp [placedBranches, ih]

theorem placed_eq (above : List Node) (n : Node) :
    placed above n = ⟨above, n⟩ :: n.branches.flatMap (placedAll (above ++ [n])) := by
  cases n with
  | field i name operator => rfl
  | relation i r children => simp [placed, branches]
  | group i connective groups => simp [placed, branches, placedBranches_eq]

theorem mem_placed :
    p ∈ placed above n ↔
      p = ⟨above, n⟩ ∨ ∃ branch ∈ n.branches, ∃ m ∈ branch, p ∈ placed (above ++ [n]) m := by
  simp [placed_eq above n, placedAll_eq]

theorem prefix_of_placed (inside : p ∈ placed above n) : above <+: p.above := by
  induction n using induct_branches generalizing above with
  | step n ih =>
    rcases mem_placed.mp inside with rfl | ⟨branch, listed, m, member, deeper⟩
    · exact List.prefix_rfl
    · exact (List.prefix_append above [n]).trans (ih branch listed m member deeper)

theorem runsAmong_eq (above ns : List Node) : runsAmong above ns = ns.flatMap (runsIn above) := by
  simp only [runsAmong, placedAll_eq, List.filter_flatMap]
  rfl

theorem runsAmong_of_closed {closed : Node} (inside : closed ∈ above)
    (shut : closed.isOpen = false) (ns : List Node) : runsAmong above ns = [] := by
  rw [runsAmong, List.filter_eq_nil_iff, placedAll_eq]
  intro p listed
  obtain ⟨n, -, found⟩ := List.mem_flatMap.mp listed
  have around : closed ∈ p.above := (prefix_of_placed found).subset inside
  simp only [Placed.isRun, Bool.and_eq_true, List.all_eq_true, not_and]
  exact fun _ all => by simp [all closed around] at shut

theorem runsAmong_cons (above : List Node) (n : Node) (rest : List Node) :
    runsAmong above (n :: rest) = runsIn above n ++ runsAmong above rest := by
  simp [runsAmong_eq]

theorem runsIn_eq (above : List Node) (n : Node) :
    runsIn above n = (if Placed.isRun ⟨above, n⟩ then [⟨above, n⟩] else []) ++
      n.branches.flatMap (runsAmong (above ++ [n])) := by
  rw [runsIn, placed_eq, List.filter_cons, List.filter_flatMap]
  split <;> rfl

theorem runsIn_of_suppressed (suppressed : n.suppressed = true) (above : List Node) :
    runsIn above n = [] := by
  have shut : n.isOpen = false := by simp [isOpen, suppressed]
  have within : runsAmong (above ++ [n]) = fun _ => [] :=
    funext (runsAmong_of_closed (List.mem_append_right above List.mem_cons_self) shut)
  simp [runsIn_eq, within, Placed.isRun, suppressed]

theorem runsIn_of_compiler (shown : n.suppressed = false) (own : n.info.compiler.isSome = true)
    (opened : ∀ m ∈ above, m.isOpen = true) : runsIn above n = [⟨above, n⟩] := by
  have shut : n.isOpen = false := by simp [isOpen, Option.isNone_eq_false_iff, own]
  have within : runsAmong (above ++ [n]) = fun _ => [] :=
    funext (runsAmong_of_closed (List.mem_append_right above List.mem_cons_self) shut)
  have all : above.all isOpen = true := List.all_eq_true.mpr opened
  simp [runsIn_eq, within, Placed.isRun, shown, own, all]

theorem runsIn_of_standard (standard : n.info.compiler = none) (above : List Node) :
    runsIn above n = n.branches.flatMap (runsAmong (above ++ [n])) := by
  simp [runsIn_eq, Placed.isRun, standard]

theorem chain_within (above : List Node) (n : Node) :
    (above ++ [n]).filterMap relation? = above.filterMap relation? ++ n.relation?.toList := by
  cases found : n.relation? <;> simp [found]

end

end Node

end DocQuery
