import DocQuery.Paging.Window
import DocQuery.Proofs.Reading
import Mathlib.Data.Prod.Lex
import Mathlib.SetTheory.Cardinal.Order

set_option autoImplicit false

namespace DocQuery

section

variable [LinearOrder Json]

namespace SortKey

def Precedes (k : SortKey) (first second : Json) : Prop :=
  match k.direction with
  | .ascending => first < second
  | .descending => second < first

theorem Precedes.asymm {k : SortKey} {first second : Json} :
    k.Precedes first second → ¬ k.Precedes second first := by
  unfold Precedes
  cases k.direction <;> exact lt_asymm

def Before (k : SortKey) (first second : Json) : Prop :=
  ∃ a b, first.valueAt? k.field = some a ∧ second.valueAt? k.field = some b ∧ k.Precedes a b

def Tied (k : SortKey) (first second : Json) : Prop :=
  first.valueAt? k.field = second.valueAt? k.field

variable {k : SortKey} {first second : Json}

theorem Before.asymm (before : k.Before first second) : ¬ k.Before second first := by
  rintro ⟨b, a, atSecond, atFirst, reversed⟩
  obtain ⟨a', b', atFirst', atSecond', precedes⟩ := before
  cases atFirst.symm.trans atFirst'
  cases atSecond.symm.trans atSecond'
  exact precedes.asymm reversed

theorem Before.not_tied (before : k.Before first second) : ¬ k.Tied first second := by
  intro tied
  obtain ⟨a, b, atFirst, atSecond, precedes⟩ := before
  cases atFirst.symm.trans (tied.trans atSecond)
  exact precedes.asymm precedes

end SortKey

def SortsBefore : List SortKey → Json → Json → Prop
  | [], _, _ => False
  | k :: rest, first, second =>
    k.Before first second ∨ k.Tied first second ∧ SortsBefore rest first second

theorem SortsBefore.asymm {keys : List SortKey} {first second : Json}
    (before : SortsBefore keys first second) : ¬ SortsBefore keys second first := by
  induction keys with
  | nil => exact before.elim
  | cons k rest ih =>
    intro reversed
    rcases before with decided | ⟨tied, later⟩
    · -- What decides one way neither decides nor ties the other way.
      rcases reversed with back | ⟨level, -⟩
      · exact decided.asymm back
      · exact decided.not_tied level.symm
    · rcases reversed with back | ⟨-, back⟩
      · exact back.not_tied tied.symm
      · exact ih later back

theorem sortsBefore_single {k : SortKey} {first second : Json} :
    SortsBefore [k] first second ↔ k.Before first second := by
  simp [SortsBefore]

-- Read across from the pivot, a relation between documents goes forward after it and backward
-- before it.
def PageSide.Across (side : PageSide) (relation : Json → Json → Prop) (pivot document : Json) : Prop :=
  match side with
  | .after => relation pivot document
  | .before => relation document pivot

-- Whether a document passes the comparisons of an atom. Nothing else is asked of a pivot, so every
-- other test counts as failed.
def Json.passes (document : Json) (atom : Atom) : Bool :=
  match document.valueAt? atom.path, atom.test with
  | some value, .operator key operand =>
    if key = "$gt" then decide (operand < value)
    else if key = "$lt" then decide (value < operand)
    else false
  | _, _ => false

def Json.Satisfies (document : Json) (p : Predicate) : Prop :=
  Predicate.holds document.passes p = true

theorem Json.passes_comparator {pivot value : Json} {k : SortKey}
    (found : pivot.valueAt? k.field = some value) (side : PageSide) (document : Json) :
    document.passes ⟨k.field, .operator (Window.comparator k.direction side) value⟩ = true ↔
      side.Across k.Before pivot document := by
  cases reached : document.valueAt? k.field with
  | none => cases side <;> simp [passes, reached, PageSide.Across, SortKey.Before]
  | some other =>
    cases side <;> cases way : k.direction <;>
      simp [passes, reached, found, way, PageSide.Across, SortKey.Before, SortKey.Precedes,
        Window.comparator]

end

namespace Json

def integer : Json → Int
  | .num (.int i) => i
  | _ => 0

-- Integers by size. Between other values any well-order will do.
@[reducible] noncomputable def integerOrder : LinearOrder Json :=
  letI : LinearOrder Json := IsWellOrder.linearOrder WellOrderingRel
  LinearOrder.lift' (fun value => toLex (value.integer, value)) fun _ _ same =>
    (Prod.mk.inj (toLex.injective same)).2

theorem integerOrder_lt {first second : Json} (less : first.integer < second.integer) :
    integerOrder.lt first second := by
  let : LinearOrder Json := IsWellOrder.linearOrder WellOrderingRel
  exact Prod.Lex.toLex_lt_toLex.mpr (.inl less)

end Json

end DocQuery
