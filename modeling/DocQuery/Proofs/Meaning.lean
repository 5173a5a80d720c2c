import DocQuery.Proofs.Joins
import DocQuery.Proofs.Reading

set_option autoImplicit false

namespace DocQuery

namespace Operator

def containsTests : Json → List Test
  | .str s => [.pattern (.str (Pattern.escape s)) (some (.str "i"))]
  | value => [.operator "$elemMatch" (clause "$eq" value)]

def tests (op : Operator) (operand : Json) : List Test :=
  match op with
  | notEqual => [.operator "$ne" operand]
  | oneOf => [.operator "$in" (asList operand)]
  | notOneOf => [.operator "$nin" (asList operand)]
  | lessThan => [.operator "$lt" operand]
  | lessOrEqual => [.operator "$lte" operand]
  | greaterThan => [.operator "$gt" operand]
  | greaterOrEqual => [.operator "$gte" operand]
  | between =>
    match operand with
    | .arr [low, high] => [.operator "$gt" low, .operator "$lt" high]
    | _ => []
  | betweenOrEqual =>
    match operand with
    | .arr [low, high] => [.operator "$gte" low, .operator "$lte" high]
    | _ => []
  | contains => containsTests operand
  | notContains => [.operator "$not" (containsClause operand)]
  | regex =>
    match operand with
    | .str s => [.pattern (.str s) none]
    | _ => []
  | startsWith =>
    match operand with
    | .str s => [.pattern (.str ("^" ++ Pattern.escape s)) (some (.str "i"))]
    | _ => []
  | endsWith =>
    match operand with
    | .str s => [.pattern (.str (Pattern.escape s ++ "$")) (some (.str "i"))]
    | _ => []
  | all => [.operator "$all" (asList operand)]
  | any => [.operator "$in" (asList operand)]

theorem range_eq_ok {op : Operator} {field : String} {operand low high : Json}
    (accepted : op.range field operand = .ok (low, high)) : operand = .arr [low, high] := by
  unfold range at accepted
  split at accepted
  next => simp_all
  next => simp at accepted

theorem textOperand_eq_ok {op : Operator} {field s : String} {operand : Json}
    (accepted : op.textOperand field operand = .ok s) : operand = .str s := by
  unfold textOperand at accepted
  split at accepted
  next => simp_all
  next => simp at accepted

end Operator

def Reads (value : Json) (tests : List Test) : Prop :=
  Test.ofValue value = tests ∧ ∀ fields, value = .obj fields → Predicate.Paired fields

namespace Operator

open Predicate

theorem reads_clause {key : String} (operand : Json) (known : queryOperators.contains key)
    (patternless : key ≠ "$regex" ∧ key ≠ "$options") :
    Reads (clause key operand) [.operator key operand] := by
  constructor
  · simp only [clause, Test.ofValue, isOperatorDocument, List.all_cons, known, List.all_nil]
    simp [Test.ofDocument, Test.ofMember, patternless]
  · rintro fields ⟨⟩ options
    simp [Fields.contains, Fields.get?, patternless.2] at options

theorem reads_caseless (pattern : String) :
    Reads (caseless pattern) [.pattern (.str pattern) (some (.str "i"))] := by
  constructor
  · simp [caseless, Test.ofValue, isOperatorDocument, queryOperators, Test.ofDocument,
      Test.ofMember, Fields.get?, Fields.contains]
  · rintro fields ⟨⟩ options
    simp [Fields.contains, Fields.get?]

theorem reads_contains (operand : Json) :
    Reads (containsClause operand) (containsTests operand) := by
  cases operand with
  | str s => exact reads_caseless _
  | _ => exact reads_clause _ (by decide) (by decide)

theorem build_reads {op : Operator} {field : String} {operand doc : Json}
    (built : op.build field operand = .ok doc) : Reads doc (op.tests operand) := by
  cases op with
  | notEqual | oneOf | notOneOf | lessThan | lessOrEqual | greaterThan | greaterOrEqual
  | notContains | all | any =>
    simp only [build, Except.ok.injEq] at built
    subst built
    exact reads_clause _ (by decide) (by decide)
  | between | betweenOrEqual =>
    simp only [build, Outcome.bind_eq_ok] at built
    obtain ⟨⟨low, high⟩, accepted, made⟩ := built
    obtain rfl := range_eq_ok accepted
    simp only [Outcome.pure_eq_ok, Except.ok.injEq] at made
    subst made
    constructor
    · simp [tests, Test.ofValue, isOperatorDocument, queryOperators, Test.ofDocument,
        Test.ofMember]
    · rintro fields ⟨⟩ options
      simp [Fields.contains, Fields.get?] at options
  | contains =>
    simp only [build, Except.ok.injEq] at built
    subst built
    exact reads_contains operand
  | regex =>
    simp only [build, Outcome.bind_eq_ok] at built
    obtain ⟨s, accepted, made⟩ := built
    obtain rfl := textOperand_eq_ok accepted
    simp only [Outcome.pure_eq_ok, Except.ok.injEq] at made
    subst made
    constructor
    · simp [tests, clause, Test.ofValue, isOperatorDocument, queryOperators, Test.ofDocument,
        Test.ofMember, Fields.get?]
    · rintro fields ⟨⟩ options
      simp [Fields.contains, Fields.get?] at options
  | startsWith | endsWith =>
    simp only [build, Outcome.bind_eq_ok] at built
    obtain ⟨s, accepted, made⟩ := built
    obtain rfl := textOperand_eq_ok accepted
    simp only [Outcome.pure_eq_ok, Except.ok.injEq] at made
    subst made
    exact reads_caseless _

end Operator

def Connective.combineSome (c : Connective) (branches : List Bool) : Bool :=
  branches.isEmpty || c.combine branches

namespace Node

def fieldTests (operator : Option Operator) (operand : Json) : List Test :=
  match operator with
  | some op => op.tests operand
  | none => Test.ofValue operand

-- The reading of a tree: its nodes hold together, except for the suppressed ones. Fields are read at
-- their name behind `scope`, which a relation lengthens, and a group combines those of its branches
-- that have an effect.
mutual

def holds (truth : Atom → Bool) (scope : String) : Node → Bool
  | .field i name operator =>
    i.suppressed || Test.allHold truth (scope ++ name) (fieldTests operator i.value)
  | .relation i r children => i.suppressed || allHold truth (scope ++ r.name ++ ".") children
  | .group i connective branches =>
    i.suppressed || connective.combineSome (effectiveBranches truth scope branches)

def allHold (truth : Atom → Bool) (scope : String) : List Node → Bool
  | [] => true
  | n :: rest => holds truth scope n && allHold truth scope rest

def effectiveBranches (truth : Atom → Bool) (scope : String) : List (List Node) → List Bool
  | [] => []
  | branch :: rest =>
    if anyEffect branch then allHold truth scope branch :: effectiveBranches truth scope rest
    else effectiveBranches truth scope rest

end

theorem holds_of_suppressed (truth : Atom → Bool) {n : Node} (suppressed : n.suppressed = true)
    {scope : String} : holds truth scope n = true := by
  cases n <;> simp_all [holds]

def PlainField : Node → Prop
  | .field i name operator =>
    Predicate.isOperatorKey name = false ∧
      (operator = none → ∀ fields, i.value = .obj fields → Predicate.Paired fields)
  | _ => True

end Node

namespace Predicate

theorem Merged.ne_nil {key : String} {value : Json} {p q : Predicate}
    (merged : Merged key value p q) : q ≠ [] := by
  cases merged <;> simp

theorem mergeAll_isEmpty (clauses : Fields) :
    (mergeAll [] clauses).isEmpty = clauses.isEmpty := by
  cases clauses with
  | nil => rfl
  | cons clause rest =>
    obtain ⟨key, value⟩ := clause
    have filled : mergeAll (merge [] key value) rest ≠ [] :=
      mergeAll_induct (motive := (· ≠ [])) (fun _ _ _ _ _ merged _ => merged.ne_nil)
        (merge_merged [] key value).ne_nil
    simp [mergeAll_cons, filled]

end Predicate

namespace Compile

open Predicate

variable (truth : Atom → Bool)

structure Faithful (cs : Fields) (meaning effect : Bool) : Prop where
  regular : Regular Paired cs
  meaning : Predicate.holds truth cs = meaning
  effect : cs.isEmpty = !effect

variable {truth}

theorem Faithful.mergeAll {cs : Fields} {meaning effect : Bool}
    (faithful : Faithful truth cs meaning effect) :
    Faithful truth (Predicate.mergeAll [] cs) meaning effect where
  regular := regular_nil.mergeAll receives_paired faithful.regular
  meaning := by
    rw [holds_mergeAll truth receives_paired regular_nil faithful.regular, faithful.meaning]
    simp [Predicate.holds]
  effect := by rw [mergeAll_isEmpty, faithful.effect]

theorem Faithful.append {first second : Fields} {meaning effect meaning' effect' : Bool}
    (left : Faithful truth first meaning effect) (right : Faithful truth second meaning' effect') :
    Faithful truth (first ++ second) (meaning && meaning') (effect || effect') where
  regular := regular_append.mpr ⟨left.regular, right.regular⟩
  meaning := by rw [holds_append, left.meaning, right.meaning]
  effect := by
    have emptyLeft := left.effect
    have emptyRight := right.effect
    cases first <;> cases second <;> simp_all

variable (truth) in
theorem faithful_nil : Faithful truth [] true false := ⟨regular_nil, rfl, rfl⟩

variable (truth) in
def NodeFaithful (n : Node) : Prop :=
  ∀ scope, IsScope scope → ∀ cs, clauses scope n = .ok cs →
    Faithful truth cs (n.holds truth scope) n.hasEffect

theorem allClauses_faithful {ns : List Node} (each : ∀ n ∈ ns, NodeFaithful truth n)
    {scope : String} (level : IsScope scope) {cs : Fields}
    (compiled : allClauses scope ns = .ok cs) :
    Faithful truth cs (Node.allHold truth scope ns) (Node.anyEffect ns) := by
  induction ns generalizing cs with
  | nil =>
    cases compiled
    exact faithful_nil truth
  | cons n rest ih =>
    simp only [allClauses, Outcome.bind_eq_ok] at compiled
    obtain ⟨first, own, others, more, joined⟩ := compiled
    cases joined
    exact (each n (by simp) scope level first own).append
      (ih (fun m member => each m (by simp [member])) more)

theorem branchPredicates_faithful {branches : List (List Node)}
    (each : ∀ branch ∈ branches, ∀ n ∈ branch, NodeFaithful truth n)
    {scope : String} (level : IsScope scope) {compiled : List Json}
    (found : branchPredicates scope branches = .ok compiled) :
    branchesHold truth compiled = Node.effectiveBranches truth scope branches ∧
      compiled.isEmpty = !Node.anyBranchEffect branches := by
  induction branches generalizing compiled with
  | nil =>
    cases found
    exact ⟨rfl, rfl⟩
  | cons branch rest ih =>
    simp only [branchPredicates, Outcome.bind_eq_ok] at found
    obtain ⟨cs, own, others, more, joined⟩ := found
    have first := (allClauses_faithful (each branch (by simp)) level own).mergeAll
    have remaining := ih (fun b member => each b (by simp [member])) more
    simp only [Outcome.pure_eq_ok, Except.ok.injEq, first.effect] at joined
    cases effect : Node.anyEffect branch with
    | false =>
      simp only [effect, Bool.not_false, if_true] at joined
      subst joined
      simpa [Node.effectiveBranches, Node.anyBranchEffect, effect] using remaining
    | true =>
      simp only [effect, Bool.not_true] at joined
      subst joined
      simp [Node.effectiveBranches, Node.anyBranchEffect, effect, branchesHold, first.meaning,
        remaining.1]

theorem fieldClause_reads {name : String} {operator : Option Operator} {operand clause : Json}
    (paired : operator = none → ∀ fields, operand = .obj fields → Paired fields)
    (built : fieldClause name operator operand = .ok clause) :
    Reads clause (Node.fieldTests operator operand) := by
  cases operator with
  | none =>
    cases built
    exact ⟨rfl, paired rfl⟩
  | some op => exact Operator.build_reads built

theorem path_ne_and {path : String} (plain : Connective.ofNative? path = none) :
    path ≠ "$and" := by
  rintro rfl
  simp [Connective.ofNative?] at plain

theorem suppressed_faithful {n : Node} (suppressed : n.suppressed = true) :
    NodeFaithful truth n := by
  intro scope level cs compiled
  rw [clauses_of_suppressed suppressed] at compiled
  cases compiled
  rw [Node.holds_of_suppressed truth suppressed, Node.hasEffect_of_suppressed suppressed]
  exact faithful_nil truth

theorem branchesHold_isEmpty (items : List Json) :
    (branchesHold truth items).isEmpty = items.isEmpty := by
  cases items with
  | nil => rfl
  | cons item rest => cases item <;> rfl

theorem clauses_faithful (n : Node) (plain : ∀ m ∈ n.within, m.Standard ∧ m.PlainField) :
    NodeFaithful truth n := by
  induction n with
  | field i name operator =>
    cases suppressed : i.suppressed with
    | true => exact suppressed_faithful suppressed
    | false =>
      intro scope level cs compiled
      obtain ⟨standard, named, paired⟩ := plain _ (Node.mem_within_self _)
      simp only [clauses, suppressed, Bool.false_eq_true, if_false, Outcome.bind_eq_ok] at compiled
      obtain ⟨clause, built, made⟩ := compiled
      cases made
      have path := ofNative?_path level named
      have reads := fieldClause_reads paired built
      constructor
      · exact regular_cons.mpr
          ⟨fun same => absurd same (path_ne_and path), reads.2, regular_nil⟩
      · rw [holds_single, memberHolds_field truth path, reads.1]
        simp [Node.holds, suppressed]
      · simp [Node.hasEffect, suppressed]
  | relation i r children ih =>
    cases suppressed : i.suppressed with
    | true => exact suppressed_faithful suppressed
    | false =>
      intro scope level cs compiled
      simp only [Node.within, List.forall_mem_cons, Node.forall_withinAll] at plain
      simp only [clauses, suppressed, Bool.false_eq_true, if_false, Outcome.bind_eq_ok] at compiled
      obtain ⟨inner, found, made⟩ := compiled
      cases made
      have each := fun n member => ih n member (plain.2 n member)
      have faithful := (allClauses_faithful each (isScope_below scope r.name) found).mergeAll
      have standard : i.compiler = none := plain.1.1
      simpa [Node.holds, Node.hasEffect, suppressed, standard] using faithful
  | group i connective branches ih =>
    cases suppressed : i.suppressed with
    | true => exact suppressed_faithful suppressed
    | false =>
      intro scope level cs compiled
      simp only [Node.within, List.forall_mem_cons, Node.forall_withinBranches] at plain
      simp only [clauses, suppressed, Bool.false_eq_true, if_false, Outcome.bind_eq_ok] at compiled
      obtain ⟨groups, found, made⟩ := compiled
      have each := fun branch inside n member =>
        ih branch inside n member (plain.2 branch inside n member)
      obtain ⟨meaning, effect⟩ := branchPredicates_faithful each level found
      have standard : i.compiler = none := plain.1.1
      have filled : (branchesHold truth groups).isEmpty = groups.isEmpty :=
        branchesHold_isEmpty groups
      rw [meaning] at filled
      cases groups with
      | nil =>
        cases made
        have silent : Node.anyBranchEffect branches = false := by simpa using effect
        simpa [Node.holds, Node.hasEffect, suppressed, standard, silent,
          Connective.combineSome, filled] using faithful_nil truth
      | cons first rest =>
        cases made
        constructor
        · exact regular_cons.mpr ⟨fun _ => ⟨_, rfl⟩, by simp, regular_nil⟩
        · simp [holds_single, memberHolds, meaning, Node.holds, suppressed,
            Connective.combineSome, filled]
        · simpa [Node.hasEffect, suppressed, standard] using effect

theorem plainPredicate_faithful {ns : List Node}
    (plain : ∀ m ∈ Node.withinAll ns, m.Standard ∧ m.PlainField) {scope : String}
    (level : IsScope scope) {p : Predicate} (compiled : plainPredicate scope ns = .ok p) :
    Faithful truth p (Node.allHold truth scope ns) (Node.anyEffect ns) := by
  obtain ⟨cs, found, made⟩ := Outcome.map_eq_ok.mp compiled
  subst made
  have each : ∀ n ∈ ns, NodeFaithful truth n :=
    fun n member => clauses_faithful n (Node.forall_withinAll.mp plain n member)
  exact (allClauses_faithful each level found).mergeAll

theorem allHold_partition (scope : String) (ns : List Node) :
    Node.allHold truth scope ns =
      (Node.allHold truth scope (plainNodes ns) && Node.allHold truth scope (joiningNodes ns)) := by
  induction ns with
  | nil => rfl
  | cons n rest ih =>
    simp only [plainNodes, joiningNodes] at ih
    cases joins : n.embedsRelation with
    | true =>
      simp only [plainNodes, joiningNodes, joins, List.filter_cons, Node.allHold, ih]
      simp only [Bool.not_true, Bool.false_eq_true, if_true, if_false, Node.allHold]
      ac_rfl
    | false =>
      simp only [plainNodes, joiningNodes, joins, List.filter_cons, Node.allHold, ih]
      simp only [Bool.not_false, Bool.false_eq_true, if_true, if_false, Node.allHold]
      ac_rfl

end Compile

namespace Stage

variable (truth : Atom → Bool)

def holds : Stage → Bool
  | filter p => Predicate.holds truth p
  | _ => true

def allHold (stages : List Stage) : Bool := stages.all (holds truth)

theorem allHold_append (first second : List Stage) :
    allHold truth (first ++ second) = (allHold truth first && allHold truth second) :=
  List.all_append

theorem allHold_matchStages (p : Predicate) :
    allHold truth (Staging.matchStages p) = Predicate.holds truth p := by
  cases p <;> simp [Staging.matchStages, allHold, holds, Predicate.holds]

theorem allHold_joins (joins : List Lookup) :
    allHold truth (joins.flatMap Lookup.stages) = true := by
  simp only [allHold, List.all_flatMap, List.all_eq_true]
  intro join _ stage member
  cases one : join.relation.isOne <;>
    simp only [Lookup.stages, one, Bool.false_eq_true, if_true, if_false, List.mem_cons,
      List.not_mem_nil, or_false] at member
  · subst member
    rfl
  · rcases member with rfl | rfl <;> rfl

end Stage

def CompiledFilter.holds (truth : Atom → Bool) : CompiledFilter → Bool
  | predicate p => Predicate.holds truth p
  | staged pipeline => Stage.allHold truth pipeline.stages

namespace Compile

variable {truth : Atom → Bool}

theorem stage_meaning {nodes : List Node}
    (plain : ∀ n ∈ Node.withinAll nodes, n.Standard ∧ n.PlainField) {s t : Staging}
    (staged : (stage nodes s).result = .ok t) :
    ∃ added, t.stages = s.stages ++ added ∧
      Stage.allHold truth added = Node.allHold truth "" nodes := by
  rw [stage_result (fun n inside => (plain n inside).1)] at staged
  simp only [Outcome.bind_eq_ok] at staged
  obtain ⟨before, first, joins, -, after, last, made⟩ := staged
  cases made
  have early : Faithful truth before (Node.allHold truth "" (plainNodes nodes)) _ :=
    plainPredicate_faithful (withinAll_filter plain fun n => !n.embedsRelation) isScope_root first
  have late : Faithful truth after (Node.allHold truth "" (joiningNodes nodes)) _ :=
    plainPredicate_faithful (withinAll_filter plain Node.embedsRelation) isScope_root last
  refine ⟨Staging.matchStages before ++ (Staging.newJoins s.deduplicate s.lookups joins).flatMap
    Lookup.stages ++ Staging.matchStages after, ?_, ?_⟩
  · simp [Staging.addJoins_stages, List.append_assoc]
  · rw [Stage.allHold_append, Stage.allHold_append, Stage.allHold_joins,
      Stage.allHold_matchStages, Stage.allHold_matchStages, early.meaning, late.meaning,
      Bool.and_true, allHold_partition "" nodes]

/-- Compilation keeps the meaning of a tree, whatever the truth of its atomic clauses: as a
predicate in any scope, as a compiled filter, and as stages at the end of any pipeline. -/
theorem compilation_keeps_meaning {nodes : List Node}
    (plain : ∀ n ∈ Node.withinAll nodes, n.Standard ∧ n.PlainField) (truth : Atom → Bool) :
    (∀ (scope : String) (s : Staging) (draft : Draft), IsScope scope →
      (predicate nodes scope s).result = .ok draft →
        Predicate.holds truth draft.predicate = Node.allHold truth scope nodes) ∧
    (∀ (c : FilterCompiler) (collection : String) (compiled : CompiledFilter),
      (c.compileNodes collection nodes).result = .ok compiled →
        compiled.holds truth = Node.allHold truth "" nodes) ∧
    (∀ s t : Staging, (stage nodes s).result = .ok t →
      ∃ added, t.stages = s.stages ++ added ∧
        Stage.allHold truth added = Node.allHold truth "" nodes) := by
  have standard := fun n inside => (plain n inside).1
  refine ⟨?_, ?_, fun s t staged => stage_meaning plain staged⟩
  · intro scope s draft level success
    rw [predicate_exact standard, Traced.result_lift] at success
    obtain ⟨p, found, made⟩ := Outcome.map_eq_ok.mp success
    subst made
    exact (plainPredicate_faithful plain level found).meaning
  · intro c collection compiled success
    rw [c.compileNodes_result collection standard] at success
    split at success
    next =>
      obtain ⟨t, staged, made⟩ := Outcome.map_eq_ok.mp success
      subst made
      obtain ⟨added, split, meaning⟩ :
          ∃ added, t.stages = (c.newPipeline collection).stages ++ added ∧
            Stage.allHold truth added = Node.allHold truth "" nodes := stage_meaning plain staged
      simpa [CompiledFilter.holds, split, FilterCompiler.newPipeline] using meaning
    next =>
      obtain ⟨p, found, made⟩ := Outcome.map_eq_ok.mp success
      subst made
      exact (plainPredicate_faithful plain isScope_root found).meaning

def collidingNodes : List Node :=
  let info (key : String) : Node.Info := { key, value := .int 5, collection := "Post" }
  let name : Node :=
    .field { key := "name_contains", value := .str "An", collection := "User" } "name"
      (some .contains)
  [.field (info "age") "age" none,
    .field (info "age_not") "age" (some .notEqual),
    .field { info "views" with value := .obj [("$gt", .int 1)] } "views" none,
    .field (info "views_lt") "views" (some .lessThan),
    .group (info "or") .or [[.field (info "a") "a" none], []],
    .group (info "OR") .or
      [[.field (info "b") "b" none],
        [.relation (info "author") ⟨"author", "User", "authorId", "_id", .one⟩ [name, name]]],
    .group (info "nor") .nor [[.field { info "c" with suppressed := true } "c" none]]]

theorem collidingNodes_keep_meaning :
    ∃ (c : FilterCompiler) (compiled : CompiledFilter),
      (c.compileNodes "Post" collidingNodes).result = .ok compiled ∧
        ∀ truth, compiled.holds truth = Node.allHold truth "" collidingNodes := by
  have plain : ∀ n ∈ Node.withinAll collidingNodes, n.Standard ∧ n.PlainField := by
    simp [collidingNodes, Node.withinAll, Node.withinBranches, Node.within, Node.PlainField,
      Predicate.isOperatorKey, Predicate.Paired, Fields.contains, Fields.get?, Json.int]
  exact ⟨⟨Catalog.posts, [], {}⟩, _, rfl,
    fun truth => (compilation_keeps_meaning plain truth).2.1 ⟨Catalog.posts, [], {}⟩ "Post" _ rfl⟩

end Compile

end DocQuery
