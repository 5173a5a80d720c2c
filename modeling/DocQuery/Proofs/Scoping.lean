import DocQuery.Proofs.Flattening
import DocQuery.Proofs.Meaning
import DocQuery.Proofs.Members

set_option autoImplicit false

namespace DocQuery

namespace Predicate

def scopeKey (path key : String) : String := if isOperatorKey key then key else path ++ key

def scopeValue (path key : String) (value : Json) : Json :=
  if isOperatorKey key then scopeOperand path value else value

def scopeMember (path : String) (member : String × Json) : String × Json :=
  (scopeKey path member.1, scopeValue path member.1 member.2)

def ProperKey (key : String) : Prop :=
  isOperatorKey key = true → ∃ connective : Connective, key = connective.native

theorem properKey_native (connective : Connective) : ProperKey connective.native :=
  fun _ => ⟨connective, rfl⟩

theorem properKey_and : ProperKey "$and" := properKey_native .and

theorem properKey_field {key : String} (plain : isOperatorKey key = false) : ProperKey key := by
  intro dollared
  simp [plain] at dollared

theorem isOperatorKey_native (connective : Connective) :
    isOperatorKey connective.native = true := by
  cases connective <;> rfl

theorem isOperatorKey_append {first second : String} (plain : isOperatorKey first = false)
    (rest : isOperatorKey second = false) : isOperatorKey (first ++ second) = false := by
  unfold isOperatorKey at *
  rw [String.toList_append]
  cases letters : first.toList with
  | nil => simpa using rest
  | cons c more => simpa [letters] using plain

variable {path : String}

theorem scopeKey_inj (level : IsScope path) {first second : String} (one : ProperKey first)
    (other : ProperKey second) : scopeKey path first = scopeKey path second ↔ first = second := by
  have apart {field connective : String} (plain : isOperatorKey field = false)
      (dollared : isOperatorKey connective = true) (proper : ProperKey connective) :
      path ++ field ≠ connective := by
    intro same
    obtain ⟨c, rfl⟩ := proper dollared
    have known := Connective.ofNative?_native c
    rw [← same, ofNative?_path level plain] at known
    cases known
  refine ⟨fun same => ?_, congrArg _⟩
  unfold scopeKey at same
  cases kind : isOperatorKey first <;> cases other_kind : isOperatorKey second <;>
    simp only [kind, other_kind, Bool.false_eq_true, if_true, if_false] at same
  · exact String.append_right_inj path |>.mp same
  · exact absurd same (apart kind other_kind other)
  · exact absurd same.symm (apart other_kind kind one)
  · exact same

@[simp] theorem scopeKey_native (connective : Connective) :
    scopeKey path connective.native = connective.native := by
  simp [scopeKey, isOperatorKey_native]

@[simp] theorem scopeKey_and : scopeKey path "$and" = "$and" := scopeKey_native .and

@[simp] theorem scopeValue_native (connective : Connective) (value : Json) :
    scopeValue path connective.native value = scopeOperand path value := by
  simp [scopeValue, isOperatorKey_native]

@[simp] theorem scopeValue_and (value : Json) :
    scopeValue path "$and" value = scopeOperand path value := scopeValue_native .and value

@[simp] theorem scopeValue_obj (key : String) (members : Fields) :
    scopeValue path key (.obj members) = .obj members := by
  unfold scopeValue
  split <;> rfl

theorem scopeValue_eq_obj {key : String} {value : Json} {members : Fields} :
    scopeValue path key value = .obj members ↔ value = .obj members := by
  unfold scopeValue
  cases value <;> split <;> simp [scopeOperand]

theorem list_of_scopeValue {key : String} {value : Json} {items : List Json}
    (listed : scopeValue path key value = .arr items) : ∃ held, value = .arr held := by
  cases value with
  | arr held => exact ⟨held, rfl⟩
  | _ => simp [scopeValue, scopeOperand] at listed

theorem scopeBranches_append (first second : List Json) :
    scopeBranches path (first ++ second) = scopeBranches path first ++ scopeBranches path second := by
  induction first with
  | nil => rfl
  | cons item rest ih => cases item <;> simp [scopeBranches, ih]

theorem scopeBranches_clause (key : String) (value : Json) :
    scopeBranches path [.obj [(key, value)]] =
      [.obj [(scopeKey path key, scopeValue path key value)]] := by
  cases kind : isOperatorKey key <;>
    simp [scopeBranches, scopeMembers, scopeKey, scopeValue, kind, Fields.insert]

structure Keyed (p : Predicate) : Prop where
  distinct : p.keys.Nodup
  proper : ∀ key ∈ p.keys, ProperKey key

theorem keyed_nil : Keyed [] := ⟨List.nodup_nil, by simp [Fields.keys]⟩

theorem Keyed.insert {p : Predicate} (keyed : p.Keyed) {key : String} (proper : ProperKey key)
    (value : Json) : Keyed (p.insert key value) where
  distinct := Fields.nodup_insert keyed.distinct key value
  proper := by
    rw [Fields.keys_insert]
    split
    next => exact keyed.proper
    next =>
      rw [List.forall_mem_append, List.forall_mem_singleton]
      exact ⟨keyed.proper, proper⟩

theorem conjoin_inserts (p : Predicate) (key : String) (value : Json) :
    ∃ written, p.conjoin key value = p.insert "$and" written := by
  unfold conjoin
  split <;> exact ⟨_, rfl⟩

theorem merge_inserts (p : Predicate) (key : String) (value : Json) :
    ∃ place written, p.merge key value = p.insert place written ∧
      (place = key ∨ place = "$and") := by
  have moved (value : Json) : ∃ place written, p.conjoin key value = p.insert place written ∧
      (place = key ∨ place = "$and") := by
    obtain ⟨written, same⟩ := p.conjoin_inserts key value
    exact ⟨_, written, same, .inr rfl⟩
  unfold merge
  split
  next => exact ⟨_, _, rfl, .inl rfl⟩
  next =>
    split
    next => exact ⟨_, _, rfl, .inl rfl⟩
    next => exact moved _
  next =>
    split
    next => exact ⟨_, _, rfl, .inl rfl⟩
    next => exact moved _
  next => exact moved _

theorem Keyed.merge {p : Predicate} (keyed : p.Keyed) {key : String} (proper : ProperKey key)
    (value : Json) : Keyed (p.merge key value) := by
  obtain ⟨place, written, same, rfl | rfl⟩ := p.merge_inserts key value
  · exact same ▸ keyed.insert proper written
  · exact same ▸ keyed.insert properKey_and written

theorem Keyed.mergeAll {p : Predicate} (keyed : p.Keyed) {clauses : Fields}
    (proper : ∀ key ∈ clauses.keys, ProperKey key) : Keyed (p.mergeAll clauses) := by
  induction clauses generalizing p with
  | nil => exact keyed
  | cons clause rest ih =>
    obtain ⟨first, others⟩ := List.forall_mem_cons.mp proper
    exact ih (keyed.merge first clause.2) others

theorem scopeMembers_eq (level : IsScope path) {members : Fields} (keyed : Keyed members)
    {done : Predicate} (fresh : ∀ key ∈ members.keys, scopeKey path key ∉ Fields.keys done) :
    scopeMembers path members done = done ++ members.map (scopeMember path) := by
  induction members generalizing done with
  | nil => simp [scopeMembers]
  | cons member rest ih =>
    obtain ⟨key, value⟩ := member
    obtain ⟨missing, distinct⟩ := List.nodup_cons.mp keyed.distinct
    obtain ⟨own, proper⟩ := List.forall_mem_cons.mp keyed.proper
    obtain ⟨first, others⟩ := List.forall_mem_cons.mp fresh
    have placed : (if isOperatorKey key then Fields.insert done key (scopeOperand path value)
        else Fields.insert done (path ++ key) value) =
          done ++ [scopeMember path (key, value)] := by
      have added := Fields.insert_of_not_mem first (scopeValue path key value)
      cases kind : isOperatorKey key <;>
        simpa [scopeMember, scopeKey, scopeValue, kind] using added
    have later : ∀ other ∈ Fields.keys rest,
        scopeKey path other ∉ Fields.keys (done ++ [scopeMember path (key, value)]) := by
      intro other inside
      have apart : other ≠ key := fun same => missing (same ▸ inside)
      have moved : scopeKey path other ≠ scopeKey path key :=
        fun same => apart ((scopeKey_inj level (proper other inside) own).mp same)
      simp only [Fields.keys, List.map_append, List.mem_append, List.map_cons, List.map_nil,
        List.mem_singleton, not_or]
      exact ⟨others other inside, moved⟩
    rw [scopeMembers, placed, ih ⟨distinct, proper⟩ later]
    simp

theorem scope_eq (level : IsScope path) {p : Predicate} (keyed : p.Keyed) :
    p.scope path = p.map (scopeMember path) :=
  scopeMembers_eq level keyed (by simp [Fields.keys])

section

variable {p : Predicate} {key : String}

theorem get?_scoped (level : IsScope path) (keyed : p.Keyed) (proper : ProperKey key) :
    Fields.get? (p.map (scopeMember path)) (scopeKey path key) =
      (p.get? key).map (scopeValue path key) := by
  obtain ⟨-, names⟩ := keyed
  induction p with
  | nil => rfl
  | cons member rest ih =>
    obtain ⟨own, others⟩ := List.forall_mem_cons.mp names
    have here := scopeKey_inj level own proper
    by_cases same : member.1 = key
    · subst same
      simp [Fields.get?, scopeMember]
    · simp [Fields.get?, scopeMember, here, same, ih others]

theorem insert_scoped (level : IsScope path) (keyed : p.Keyed) (proper : ProperKey key)
    (value : Json) :
    (p.insert key value).map (scopeMember path) =
      Fields.insert (p.map (scopeMember path)) (scopeKey path key) (scopeValue path key value) := by
  obtain ⟨-, names⟩ := keyed
  induction p with
  | nil => rfl
  | cons member rest ih =>
    obtain ⟨own, others⟩ := List.forall_mem_cons.mp names
    have here := scopeKey_inj level own proper
    by_cases same : member.1 = key
    · subst same
      simp [Fields.insert, scopeMember]
    · simp [Fields.insert, scopeMember, here, same, ih others]

theorem conjoin_scoped (level : IsScope path) (keyed : p.Keyed) (value : Json) :
    (p.conjoin key value).map (scopeMember path) =
      conjoin (p.map (scopeMember path)) (scopeKey path key) (scopeValue path key value) := by
  have found := get?_scoped level keyed properKey_and
  have moved := insert_scoped level keyed properKey_and
  rw [scopeKey_and] at found
  simp only [scopeKey_and, scopeValue_and] at moved
  unfold conjoin
  rw [found]
  cases p.get? "$and" with
  | none => simp [moved, scopeOperand, scopeBranches_clause]
  | some old =>
    cases old <;>
      simp [moved, scopeOperand, scopeBranches_append, scopeBranches_clause]

theorem joins_scoped (level : IsScope path) (proper : ProperKey key) (old value : Json) :
    Joins (scopeKey path key) (scopeValue path key old) (scopeValue path key value) ↔
      Joins key old value := by
  constructor
  · intro joins
    generalize standing : scopeValue path key old = placed at joins
    generalize arriving : scopeValue path key value = added at joins
    cases joins with
    | documents first second disjoint =>
      rw [scopeValue_eq_obj] at standing arriving
      subst standing arriving
      exact .documents first second disjoint
    | lists conjunction =>
      obtain ⟨held, rfl⟩ := list_of_scopeValue standing
      obtain ⟨items, rfl⟩ := list_of_scopeValue arriving
      rw [← scopeKey_and, scopeKey_inj level proper properKey_and] at conjunction
      exact .lists conjunction
  · intro joins
    cases joins with
    | documents first second disjoint =>
      rw [scopeValue_obj, scopeValue_obj]
      exact .documents first second disjoint
    | lists conjunction =>
      subst conjunction
      rw [scopeValue_and, scopeValue_and]
      exact .lists scopeKey_and

theorem merge_scoped (level : IsScope path) (keyed : p.Keyed) (proper : ProperKey key)
    (value : Json) :
    (p.merge key value).map (scopeMember path) =
      merge (p.map (scopeMember path)) (scopeKey path key) (scopeValue path key value) := by
  have found := get?_scoped level keyed proper
  have placed := insert_scoped level keyed proper
  cases standing : p.get? key with
  | none =>
    rw [standing] at found
    rw [merge_of_fresh standing, merge_of_fresh found, List.map_append]
    rfl
  | some old =>
    rw [standing] at found
    by_cases joins : Joins key old value
    · cases joins with
      | documents first second disjoint =>
        rw [Option.map_some, scopeValue_obj] at found
        simp [merge, standing, found, first, second, disjoint, placed]
      | lists conjunction =>
        subst conjunction
        rw [scopeKey_and, Option.map_some, scopeValue_and] at found
        simp [merge, standing, found, placed, scopeOperand, scopeBranches_append]
    · have apart := (joins_scoped level proper old value).not.mpr joins
      rw [merge_of_clash standing joins, merge_of_clash found apart,
        conjoin_scoped level keyed]

theorem mergeAll_scoped (level : IsScope path) (keyed : p.Keyed) {clauses : Fields}
    (proper : ∀ key ∈ clauses.keys, ProperKey key) :
    (p.mergeAll clauses).map (scopeMember path) =
      mergeAll (p.map (scopeMember path)) (clauses.map (scopeMember path)) := by
  induction clauses generalizing p with
  | nil => rfl
  | cons clause rest ih =>
    obtain ⟨key, value⟩ := clause
    obtain ⟨first, others⟩ := List.forall_mem_cons.mp proper
    rw [mergeAll_cons, ih (keyed.merge first value) others, merge_scoped level keyed first]
    rfl

end

end Predicate

def Node.PlainName : Node → Prop
  | .field _ name _ => Predicate.isOperatorKey name = false
  | .relation _ r _ => Predicate.isOperatorKey r.name = false
  | .group .. => True

namespace Compile

open Predicate

structure ScopedClauses (path : String) (own behind : Fields) : Prop where
  moved : behind = own.map (scopeMember path)
  proper : ∀ key ∈ own.keys, ProperKey key

namespace ScopedClauses

variable {path : String} {own behind : Fields}

theorem nil : ScopedClauses path [] [] := ⟨rfl, by simp [Fields.keys]⟩

theorem single (path : String) {key : String} (proper : ProperKey key) (value : Json) :
    ScopedClauses path [(key, value)] [(scopeKey path key, scopeValue path key value)] :=
  ⟨rfl, by simpa [Fields.keys] using proper⟩

theorem append (first : ScopedClauses path own behind) {more others : Fields}
    (rest : ScopedClauses path more others) :
    ScopedClauses path (own ++ more) (behind ++ others) := by
  constructor
  · rw [first.moved, rest.moved, List.map_append]
  · have keys : Fields.keys (own ++ more) = own.keys ++ more.keys := List.map_append
    rw [keys, List.forall_mem_append]
    exact ⟨first.proper, rest.proper⟩

theorem mergeAll (level : IsScope path) (agrees : ScopedClauses path own behind) :
    ScopedClauses path (Predicate.mergeAll [] own) (Predicate.mergeAll [] behind) := by
  constructor
  · rw [agrees.moved, mergeAll_scoped level keyed_nil agrees.proper, List.map_nil]
  · exact (keyed_nil.mergeAll agrees.proper).proper

theorem scope_mergeAll (level : IsScope path) (agrees : ScopedClauses path own behind) :
    Predicate.mergeAll [] behind = (Predicate.mergeAll [] own).scope path := by
  rw [scope_eq level (keyed_nil.mergeAll agrees.proper)]
  exact (agrees.mergeAll level).moved

end ScopedClauses

section

open Outcome

variable {path : String} (level : IsScope path)

def NodeScoped (path : String) (n : Node) : Prop :=
  ∀ scope, isOperatorKey scope = false →
    Agree (ScopedClauses path) (clauses scope n) (clauses (path ++ scope) n)

theorem allClauses_scoped {ns : List Node} (each : ∀ n ∈ ns, NodeScoped path n) {scope : String}
    (plain : isOperatorKey scope = false) :
    Agree (ScopedClauses path) (allClauses scope ns) (allClauses (path ++ scope) ns) := by
  induction ns with
  | nil => exact ScopedClauses.nil
  | cons n rest ih =>
    obtain ⟨first, others⟩ := List.forall_mem_cons.mp each
    refine Agree.andThen (first scope plain) fun own behind agrees => ?_
    exact Agree.andThen (ih others) fun more later added => agrees.append added

include level in
theorem branchPredicates_scoped {groups : List (List Node)}
    (each : ∀ branch ∈ groups, ∀ n ∈ branch, NodeScoped path n) {scope : String}
    (plain : isOperatorKey scope = false) :
    Agree (fun own behind => behind = scopeBranches path own) (branchPredicates scope groups)
      (branchPredicates (path ++ scope) groups) := by
  induction groups with
  | nil => exact rfl
  | cons branch rest ih =>
    obtain ⟨first, others⟩ := List.forall_mem_cons.mp each
    refine Agree.andThen (allClauses_scoped first plain) fun own behind agrees => ?_
    refine Agree.andThen (ih others) fun compiled later moved => ?_
    have here := (agrees.mergeAll level).moved
    have empty : (Predicate.mergeAll [] behind).isEmpty = (Predicate.mergeAll [] own).isEmpty := by
      rw [here, List.isEmpty_map]
    simp only [empty]
    split
    · exact moved
    · rw [agrees.scope_mergeAll level, moved]
      rfl

include level in
theorem clauses_scoped (n : Node) (named : ∀ m ∈ n.within, m.PlainName) : NodeScoped path n := by
  induction n with
  | field i name operator =>
    intro scope plain
    unfold clauses
    split
    · exact ScopedClauses.nil
    · have own : isOperatorKey name = false := named _ (Node.mem_within_self _)
      have field := isOperatorKey_append plain own
      cases fieldClause name operator i.value with
      | error e => exact rfl
      | ok clause =>
        have agrees := ScopedClauses.single path (properKey_field field) clause
        simp only [scopeKey, scopeValue, field, Bool.false_eq_true, if_false] at agrees
        rw [String.append_assoc]
        exact agrees
  | relation i r children ih =>
    intro scope plain
    simp only [Node.within, List.forall_mem_cons, Node.forall_withinAll] at named
    have below : isOperatorKey (scope ++ r.name ++ ".") = false :=
      isOperatorKey_append (isOperatorKey_append plain named.1) rfl
    have each := fun n member => ih n member (named.2 n member)
    unfold clauses
    split
    · exact ScopedClauses.nil
    · have longer : path ++ scope ++ r.name ++ "." = path ++ (scope ++ r.name ++ ".") := by
        simp only [String.append_assoc]
      rw [longer]
      exact Agree.andThen (allClauses_scoped each below) fun own behind agrees => agrees.mergeAll level
  | group i connective groups ih =>
    intro scope plain
    simp only [Node.within, List.forall_mem_cons, Node.forall_withinBranches] at named
    have each := fun branch inside n member =>
      ih branch inside n member (named.2 branch inside n member)
    unfold clauses
    split
    · exact ScopedClauses.nil
    · refine Agree.andThen (branchPredicates_scoped level each plain) fun own behind moved => ?_
      subst moved
      cases own with
      | nil => exact ScopedClauses.nil
      | cons item rest =>
        have agrees := ScopedClauses.single path (properKey_native connective) (.arr (item :: rest))
        rw [scopeKey_native, scopeValue_native] at agrees
        cases item <;> exact agrees

include level in
theorem plainPredicate_scoped {ns : List Node} (named : ∀ m ∈ Node.withinAll ns, m.PlainName) :
    plainPredicate path ns = (plainPredicate "" ns).map (Predicate.scope path) := by
  have each : ∀ n ∈ ns, NodeScoped path n :=
    fun n member => clauses_scoped level n (Node.forall_withinAll.mp named n member)
  have plain : isOperatorKey "" = false := rfl
  have agree := allClauses_scoped each plain
  rw [String.append_empty] at agree
  unfold plainPredicate
  cases own : allClauses "" ns <;> cases behind : allClauses path ns <;> rw [own, behind] at agree
  case ok.ok => exact congrArg Except.ok (agree.scope_mergeAll level)
  case error.error => exact congrArg Except.error agree.symm
  all_goals exact agree.elim

end

/-- Compiling nodes behind a path fails with the error that compiling them alone fails with, or gives
the predicate that they have alone, with the path put before its fields. -/
theorem predicate_scoped {ns : List Node} (standard : ∀ m ∈ Node.withinAll ns, m.Standard)
    (named : ∀ m ∈ Node.withinAll ns, m.PlainName) {path : String} (level : IsScope path)
    (s : Staging) :
    (predicate ns path s).result =
      (predicate ns "" s).result.map fun draft =>
        { draft with predicate := draft.predicate.scope path } := by
  rw [predicate_exact standard, predicate_exact standard, plainPredicate_scoped level named]
  cases plainPredicate "" ns <;> rfl

-- The clauses on the age, the two groups and the two clauses on the author collide behind the path
-- as they do without it.
theorem collidingNodes_scoped :
    (∀ m ∈ Node.withinAll collidingNodes, m.Standard) ∧
      (∀ m ∈ Node.withinAll collidingNodes, m.PlainName) ∧ IsScope "post." ∧
      ∃ own behind : Draft,
        (predicate collidingNodes "" { collection := "Post", catalog := .posts }).result = .ok own ∧
          (predicate collidingNodes "post." { collection := "Post", catalog := .posts }).result =
            .ok behind ∧
          behind.predicate.keys = ["post.age", "$and", "post.views", "$or"] ∧
          behind.predicate = own.predicate.scope "post." := by
  have standard : ∀ m ∈ Node.withinAll collidingNodes, m.Standard := by
    simp [collidingNodes, Node.withinAll, Node.withinBranches, Node.within]
  have named : ∀ m ∈ Node.withinAll collidingNodes, m.PlainName := by
    simp [collidingNodes, Node.withinAll, Node.withinBranches, Node.within, Node.PlainName,
      isOperatorKey]
  have level : IsScope "post." := .inr ⟨"post", rfl⟩
  let s : Staging := { collection := "Post", catalog := .posts }
  have compiled : (predicate collidingNodes "post." s).result.map (·.predicate.keys) =
      .ok ["post.age", "$and", "post.views", "$or"] := by decide +kernel
  obtain ⟨behind, found, keys⟩ := Outcome.map_eq_ok.mp compiled
  have same := predicate_scoped standard named level s
  rw [found] at same
  obtain ⟨own, alone, moved⟩ := Outcome.map_eq_ok.mp same.symm
  exact ⟨standard, named, level, own, behind, alone, found, keys, moved ▸ rfl⟩

end Compile

end DocQuery
