import DocQuery.Operator.Suffix
import DocQuery.Proofs.Merge
import Mathlib.Data.List.Basic

set_option autoImplicit false

namespace DocQuery

inductive Test where
  | equals (operand : Json)
  | operator (key : String) (operand : Json)
  | pattern (regex : Json) (options : Option Json)

structure Atom where
  path : String
  test : Test

namespace Test

def ofMember (document : Fields) (member : String × Json) : Option Test :=
  if member.1 = "$regex" then some (.pattern member.2 (document.get? "$options"))
  else if member.1 = "$options" ∧ document.contains "$regex" then none
  else some (.operator member.1 member.2)

theorem ofMember_congr {first second : Fields} {member : String × Json}
    (options : member.1 = "$regex" → first.get? "$options" = second.get? "$options")
    (regex : member.1 = "$options" → first.contains "$regex" = second.contains "$regex") :
    ofMember first member = ofMember second member := by
  by_cases pattern : member.1 = "$regex"
  · simp [ofMember, pattern, options pattern]
  · by_cases flags : member.1 = "$options"
    · simp [ofMember, flags, regex flags]
    · simp [ofMember, pattern, flags]

def ofDocument (document : Fields) : List Test := document.filterMap (ofMember document)

def ofValue : Json → List Test
  | .obj fields =>
    if Predicate.isOperatorDocument fields then ofDocument fields else [.equals (.obj fields)]
  | value => [.equals value]

def allHold (truth : Atom → Bool) (path : String) (tests : List Test) : Bool :=
  tests.all fun test => truth ⟨path, test⟩

theorem allHold_append (truth : Atom → Bool) (path : String) (first second : List Test) :
    allHold truth path (first ++ second) = (allHold truth path first && allHold truth path second) :=
  List.all_append

end Test

namespace Connective

def ofNative? (key : String) : Option Connective :=
  if key = "$and" then some and
  else if key = "$or" then some or
  else if key = "$nor" then some nor
  else none

@[simp] theorem ofNative?_native (c : Connective) : ofNative? c.native = some c := by
  cases c <;> rfl

theorem eq_native {key : String} {c : Connective} (known : ofNative? key = some c) :
    key = c.native := by
  unfold ofNative? at known
  split at known
  next same => cases known; exact same
  next =>
    split at known
    next same => cases known; exact same
    next =>
      split at known
      next same => cases known; exact same
      next => cases known

def combine : Connective → List Bool → Bool
  | and, branches => branches.all id
  | or, branches => branches.any id
  | nor, branches => !branches.any id

end Connective

def IsScope (scope : String) : Prop := scope = "" ∨ ∃ path, scope = path ++ "."

theorem isScope_root : IsScope "" := .inl rfl

theorem isScope_below (scope name : String) : IsScope (scope ++ name ++ ".") := .inr ⟨_, rfl⟩

theorem ofNative?_dotted {path : String} (dotted : '.' ∈ path.toList) :
    Connective.ofNative? path = none := by
  cases known : Connective.ofNative? path with
  | none => rfl
  | some c =>
    rw [Connective.eq_native known] at dotted
    cases c <;> simp [Connective.native] at dotted

theorem ofNative?_path {scope name : String} (level : IsScope scope)
    (plain : Predicate.isOperatorKey name = false) : Connective.ofNative? (scope ++ name) = none := by
  rcases level with rfl | ⟨path, rfl⟩
  · rw [String.empty_append]
    cases known : Connective.ofNative? name with
    | none => rfl
    | some c =>
      have same := Connective.eq_native known
      cases c <;> simp [same, Predicate.isOperatorKey, Connective.native] at plain
  · exact ofNative?_dotted (by simp)

namespace Predicate

-- The reading of a predicate under truth values for the atomic clauses: its members hold together,
-- and `$and`, `$or` and `$nor` combine the predicates they list. A listed value that is no predicate
-- never holds.
mutual

def holds (truth : Atom → Bool) : List (String × Json) → Bool
  | [] => true
  | (key, value) :: rest => memberHolds truth key value && holds truth rest

def memberHolds (truth : Atom → Bool) (key : String) : Json → Bool
  | .arr branches =>
    match Connective.ofNative? key with
    | some connective => connective.combine (branchesHold truth branches)
    | none => Test.allHold truth key (Test.ofValue (.arr branches))
  | value => Test.allHold truth key (Test.ofValue value)

def branchesHold (truth : Atom → Bool) : List Json → List Bool
  | [] => []
  | .obj members :: rest => holds truth members :: branchesHold truth rest
  | _ :: rest => false :: branchesHold truth rest

end

variable (truth : Atom → Bool)

theorem holds_append (first second : Predicate) :
    holds truth (first ++ second) = (holds truth first && holds truth second) := by
  induction first with
  | nil => simp [holds]
  | cons member rest ih =>
    obtain ⟨key, value⟩ := member
    simp [holds, ih, Bool.and_assoc]

theorem holds_single (key : String) (value : Json) :
    holds truth [(key, value)] = memberHolds truth key value := by
  simp [holds]

theorem branchesHold_append (first second : List Json) :
    branchesHold truth (first ++ second) = branchesHold truth first ++ branchesHold truth second := by
  induction first with
  | nil => rfl
  | cons branch rest ih => cases branch <;> simp [branchesHold, ih]

theorem and_append (first second : List Json) :
    memberHolds truth "$and" (.arr (first ++ second)) =
      (memberHolds truth "$and" (.arr first) && memberHolds truth "$and" (.arr second)) := by
  simp [memberHolds, Connective.ofNative?, Connective.combine, branchesHold_append]

theorem and_single (key : String) (value : Json) :
    memberHolds truth "$and" (.arr [.obj [(key, value)]]) = memberHolds truth key value := by
  simp [memberHolds, Connective.ofNative?, Connective.combine, branchesHold, holds_single]

theorem memberHolds_object (key : String) (fields : Fields) :
    memberHolds truth key (.obj fields) = Test.allHold truth key (Test.ofValue (.obj fields)) := by
  simp [memberHolds]

theorem memberHolds_field {key : String} (field : Connective.ofNative? key = none) (value : Json) :
    memberHolds truth key value = Test.allHold truth key (Test.ofValue value) := by
  cases value <;> simp [memberHolds, field]

def Unsplit (first second : Fields) : Prop :=
  (first.contains "$regex" → second.contains "$options" = false) ∧
    (second.contains "$regex" → first.contains "$options" = false)

theorem Unsplit.patternless {first second : Fields} (unsplit : Unsplit first second)
    (options : first.contains "$options" = true) : second.contains "$regex" = false := by
  cases found : second.contains "$regex" with
  | false => rfl
  | true => simp [unsplit.2 found] at options

theorem Unsplit.symm {first second : Fields} (unsplit : Unsplit first second) :
    Unsplit second first :=
  ⟨unsplit.2, unsplit.1⟩

theorem ofDocument_append {first second : Fields} (unsplit : Unsplit first second) :
    Test.ofDocument (first ++ second) = Test.ofDocument first ++ Test.ofDocument second := by
  simp only [Test.ofDocument, List.filterMap_append]
  congr 1
  · refine List.filterMap_congr fun member inside => Test.ofMember_congr ?_ ?_
    · intro regex
      have bare := unsplit.1 (regex ▸ Fields.contains_of_mem inside)
      simp [Fields.get?_append, Fields.contains_eq_false.mp bare]
    · intro options
      have patternless := unsplit.patternless (options ▸ Fields.contains_of_mem inside)
      simp [Fields.contains_append, patternless]
  · refine List.filterMap_congr fun member inside => Test.ofMember_congr ?_ ?_
    · intro regex
      have bare := unsplit.2 (regex ▸ Fields.contains_of_mem inside)
      simp [Fields.get?_append, Fields.contains_eq_false.mp bare]
    · intro options
      have patternless := unsplit.symm.patternless (options ▸ Fields.contains_of_mem inside)
      simp [Fields.contains_append, patternless]

theorem isOperatorDocument_append {first second : Fields} (left : isOperatorDocument first)
    (right : isOperatorDocument second) : isOperatorDocument (first ++ second) := by
  simp only [isOperatorDocument, Bool.and_eq_true, List.all_append] at left right ⊢
  refine ⟨?_, left.2, right.2⟩
  cases first <;> simp_all

theorem ofValue_joined {current incoming : Fields} (standing : isOperatorDocument current)
    (arriving : isOperatorDocument incoming) (unsplit : Unsplit current incoming) :
    Test.ofValue (.obj (current ++ incoming)) =
      Test.ofValue (.obj current) ++ Test.ofValue (.obj incoming) := by
  simp [Test.ofValue, isOperatorDocument_append standing arriving, standing, arriving,
    ofDocument_append unsplit]

def Conjunctive (p : Predicate) : Prop := ∀ value, ("$and", value) ∈ p → ∃ items, value = .arr items

theorem holds_merged {key : String} {value : Json} {p q : Predicate}
    (merged : Merged key value p q) (conjunctive : Conjunctive p)
    (unsplit : ∀ current incoming, (key, .obj current) ∈ p → value = .obj incoming →
      disjointKeys current incoming → Unsplit current incoming) :
    holds truth q = (holds truth p && memberHolds truth key value) := by
  cases merged with
  | added fresh => rw [holds_append, holds_single]
  | @joined before after current incoming asked standing arriving disjoint =>
    subst asked
    have apart := unsplit current incoming (by simp) rfl disjoint
    have joined := ofValue_joined standing arriving apart
    simp only [holds_append, holds, memberHolds_object, joined, Test.allHold_append]
    ac_rfl
  | extended asked conjunction =>
    subst asked conjunction
    simp only [holds_append, holds, and_append]
    ac_rfl
  | conjoined =>
    simp only [holds_append, holds, and_append, and_single]
    ac_rfl
  | opened fresh => rw [holds_append, holds_single, and_single]
  | @displaced before after old unlisted =>
    obtain ⟨items, listed⟩ := conjunctive old (by simp)
    exact absurd listed (unlisted items)

theorem Conjunctive.merged {key : String} {value : Json} {p q : Predicate}
    (merged : Merged key value p q) (conjunctive : Conjunctive p)
    (listed : key = "$and" → ∃ items, value = .arr items) : Conjunctive q := by
  intro found member
  rcases merged.mem member with old | new | ⟨items, new⟩ | ⟨current, incoming, -, asked, -, new⟩
  · exact conjunctive found old
  · obtain ⟨rfl, rfl⟩ := Prod.mk.inj new
    exact listed rfl
  · exact ⟨items, (Prod.mk.inj new).2⟩
  · obtain ⟨items, same⟩ := listed (Prod.mk.inj new).1.symm
    exact absurd (asked.symm.trans same) (by simp)

def Paired (fields : Fields) : Prop := fields.contains "$options" → fields.contains "$regex"

def Patternless (fields : Fields) : Prop :=
  fields.contains "$regex" = false ∧ fields.contains "$options" = false

structure Receives (standing arriving : Fields → Prop) : Prop where
  stays : ∀ incoming, arriving incoming → standing incoming
  joins : ∀ current incoming, standing current → arriving incoming → standing (current ++ incoming)
  unsplit : ∀ current incoming, standing current → arriving incoming →
    disjointKeys current incoming → Unsplit current incoming

theorem receives_paired : Receives Paired Paired where
  stays := fun _ paired => paired
  joins := by
    intro current incoming standing arriving options
    simp only [Fields.contains_append, Bool.or_eq_true] at options ⊢
    exact options.imp standing arriving
  unsplit := by
    intro current incoming standing arriving disjoint
    constructor
    · intro regex
      by_contra options
      have pattern := arriving (by simpa using options)
      simp [disjointKeys_apart disjoint pattern] at regex
    · intro regex
      by_contra options
      have pattern := standing (by simpa using options)
      simp [disjointKeys_apart disjoint regex] at pattern

theorem receives_patternless : Receives Patternless Patternless where
  stays := fun _ patternless => patternless
  joins := by
    intro current incoming standing arriving
    simp [Patternless, Fields.contains_append, standing.1, standing.2, arriving.1, arriving.2]
  unsplit := fun _ _ standing arriving _ => ⟨fun _ => arriving.2, fun _ => standing.2⟩

theorem any_receives_patternless : Receives (fun _ => True) Patternless where
  stays := fun _ _ => trivial
  joins := fun _ _ _ _ => trivial
  unsplit := by
    intro current incoming _ arriving _
    exact ⟨fun _ => arriving.2, fun regex => by simp [arriving.1] at regex⟩

structure Regular (kind : Fields → Prop) (p : Predicate) : Prop where
  conjunctive : Conjunctive p
  documents : ∀ key fields, (key, .obj fields) ∈ p → kind fields

section

variable {kind standing arriving : Fields → Prop}

theorem regular_nil : Regular kind [] := ⟨by simp [Conjunctive], by simp⟩

theorem regular_cons {key : String} {value : Json} {rest : Fields} :
    Regular kind ((key, value) :: rest) ↔
      (key = "$and" → ∃ items, value = .arr items) ∧ (∀ fields, value = .obj fields → kind fields) ∧
        Regular kind rest := by
  constructor
  · intro regular
    refine ⟨?_, ?_, ?_, ?_⟩
    · rintro rfl
      exact regular.conjunctive value (by simp)
    · rintro fields rfl
      exact regular.documents key fields (by simp)
    · intro found member
      exact regular.conjunctive found (by simp [member])
    · intro k fields member
      exact regular.documents k fields (by simp [member])
  · rintro ⟨listed, document, regular⟩
    constructor
    · intro found member
      rcases List.mem_cons.mp member with same | member
      · obtain ⟨rfl, rfl⟩ := Prod.mk.inj same
        exact listed rfl
      · exact regular.conjunctive found member
    · intro k fields member
      rcases List.mem_cons.mp member with same | member
      · exact document fields (Prod.mk.inj same).2.symm
      · exact regular.documents k fields member

theorem regular_append {first second : Predicate} :
    Regular kind (first ++ second) ↔ Regular kind first ∧ Regular kind second := by
  induction first with
  | nil => simp [regular_nil]
  | cons member rest ih =>
    obtain ⟨key, value⟩ := member
    simp only [List.cons_append, regular_cons, ih, and_assoc]

theorem Regular.merged (receives : Receives standing arriving) {key : String} {value : Json}
    {p q : Predicate} (merged : Merged key value p q) (regular : Regular standing p)
    (added : Regular arriving [(key, value)]) : Regular standing q := by
  obtain ⟨listed, document, -⟩ := regular_cons.mp added
  refine ⟨regular.conjunctive.merged merged listed, ?_⟩
  intro k fields member
  rcases merged.mem member with old | new | ⟨items, new⟩ | ⟨current, incoming, old, asked, -, new⟩
  · exact regular.documents k fields old
  · exact receives.stays fields (document fields (Prod.mk.inj new).2.symm)
  · exact absurd (Prod.mk.inj new).2 (by simp)
  · have same : fields = current ++ incoming := by simpa using (Prod.mk.inj new).2
    rw [same]
    exact receives.joins current incoming (regular.documents _ _ old) (document incoming asked)

theorem Regular.merge (receives : Receives standing arriving) {p : Predicate}
    (regular : Regular standing p) {key : String} {value : Json}
    (added : Regular arriving [(key, value)]) : Regular standing (p.merge key value) :=
  regular.merged receives (merge_merged p key value) added

theorem Regular.mergeAll (receives : Receives standing arriving) {p : Predicate} {clauses : Fields}
    (regular : Regular standing p) (added : Regular arriving clauses) :
    Regular standing (p.mergeAll clauses) := by
  induction clauses generalizing p with
  | nil => exact regular
  | cons clause rest ih =>
    have split : Regular arriving [clause] ∧ Regular arriving rest := regular_append.mp added
    exact ih (regular.merge receives split.1) split.2

theorem holds_mergeAll (receives : Receives standing arriving) {p : Predicate} {clauses : Fields}
    (regular : Regular standing p) (added : Regular arriving clauses) :
    holds truth (p.mergeAll clauses) = (holds truth p && holds truth clauses) := by
  induction clauses generalizing p with
  | nil => simp [holds]
  | cons clause rest ih =>
    obtain ⟨key, value⟩ := clause
    obtain ⟨listed, document, others⟩ := regular_cons.mp added
    have own : Regular arriving [(key, value)] := regular_cons.mpr ⟨listed, document, regular_nil⟩
    have step := holds_merged truth (merge_merged p key value) regular.conjunctive
      (fun current incoming old asked disjoint =>
        receives.unsplit current incoming (regular.documents _ _ old) (document incoming asked)
          disjoint)
    rw [mergeAll_cons, ih (regular.merge receives own) others, step, holds, Bool.and_assoc]

end

end Predicate

end DocQuery
