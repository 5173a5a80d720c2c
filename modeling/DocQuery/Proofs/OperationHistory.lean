import DocQuery.Proofs.Building
import Mathlib.Data.List.Induction

set_option autoImplicit false

namespace DocQuery

namespace Stage

def foldDue? : Stage → Option String
  | lookup join => if join.relation.isOne then some join.output else none
  | _ => none

theorem eq_fold {stage : Stage} {output : String} (folds : stage.fold? = some output) :
    stage = .fold output := by
  cases stage <;> simp [fold?] at folds
  rw [folds]

theorem eq_lookup {stage : Stage} {output : String} (due : stage.foldDue? = some output) :
    ∃ join, stage = .lookup join ∧ join.relation.isOne = true ∧ join.output = output := by
  cases stage <;> simp [foldDue?] at due
  exact ⟨_, rfl, due⟩

theorem Plain.undue {stage : Stage} (plain : stage.Plain) : stage.foldDue? = none := by
  cases stage
  case lookup join => cases plain.unjoined
  all_goals rfl

-- Shifted by one place, the folds that are due are the folds that there are.
def Folded (stages : List Stage) : Prop :=
  none :: stages.map foldDue? = stages.map fold? ++ [none]

section

variable {stages others : List Stage}

theorem Folded.append (first : Folded stages) (second : Folded others) :
    Folded (stages ++ others) := by
  unfold Folded at first second ⊢
  calc none :: (stages ++ others).map foldDue?
    _ = (none :: stages.map foldDue?) ++ others.map foldDue? := by simp
    _ = stages.map fold? ++ (none :: others.map foldDue?) := by simp [first]
    _ = (stages ++ others).map fold? ++ [none] := by simp [second]

theorem folded_of_plain (plain : ∀ stage ∈ stages, stage.Plain) : Folded stages := by
  have due : stages.map foldDue? = List.replicate stages.length none :=
    List.map_eq_replicate_iff.mpr fun stage inside => (plain stage inside).undue
  have folds : stages.map fold? = List.replicate stages.length none :=
    List.map_eq_replicate_iff.mpr fun stage inside => (plain stage inside).unfolded
  rw [Folded, due, folds, ← List.replicate_succ, ← List.replicate_succ']

theorem folded_join (join : Lookup) : Folded join.stages := by
  unfold Lookup.stages
  cases one : join.relation.isOne <;> simp [Folded, foldDue?, fold?, one]

theorem Folded.next (folded : Folded stages) {i : Nat} {join : Lookup}
    (here : stages[i]? = some (.lookup join)) (one : join.relation.isOne = true) :
    stages[i + 1]? = some (.fold join.output) := by
  have due : (none :: stages.map foldDue?)[i + 1]? = some (some join.output) := by
    simp [here, foldDue?, one]
  rw [folded, List.getElem?_append] at due
  split at due
  next inside =>
    rw [List.getElem?_map, Option.map_eq_some_iff] at due
    obtain ⟨stage, found, folds⟩ := due
    rw [found, eq_fold folds]
  next => simp [List.getElem?_singleton] at due

theorem Folded.previous (folded : Folded stages) {i : Nat} {output : String}
    (here : stages[i]? = some (.fold output)) :
    ∃ j join, i = j + 1 ∧ stages[j]? = some (.lookup join) ∧ join.relation.isOne = true ∧
      join.output = output := by
  have inside : i < (stages.map fold?).length := by
    simpa using (List.getElem?_eq_some_iff.mp here).1
  have folds : (stages.map fold? ++ [none])[i]? = some (some output) := by
    rw [List.getElem?_append_left inside]
    simp [here, fold?]
  rw [← folded] at folds
  cases i with
  | zero => simp at folds
  | succ j =>
    rw [List.getElem?_cons_succ, List.getElem?_map, Option.map_eq_some_iff] at folds
    obtain ⟨stage, found, due⟩ := folds
    obtain ⟨join, rfl, one, named⟩ := eq_lookup due
    exact ⟨j, join, rfl, found, one, named⟩

end

end Stage

namespace Staging

section

variable {s t : Staging} {op : Operation} {lines : List Log.Entry}

theorem performed_cases (s : Staging) (op : Operation) :
    (∃ lines, Change s op lines (s.performed op) ∧ (s.perform op).result.isOk = true) ∨
      (s.performed op = s ∧ (s.perform op).result.isOk = false) := by
  cases outcome : (s.perform op).result with
  | ok t =>
    rw [performed_of_ok outcome]
    exact .inl ⟨_, change_of_perform op outcome, rfl⟩
  | error e => exact .inr ⟨performed_of_error outcome, rfl⟩

structure Extends (s t : Staging) : Prop where
  stages : s.stages <+: t.stages
  deduplicate : t.deduplicate = s.deduplicate

theorem Change.extends (change : Change s op lines t) : s.Extends t := by
  cases change with
  | append stages other plain => exact ⟨List.prefix_append _ _, rfl⟩
  | join known fresh => exact ⟨⟨_, (List.append_assoc _ _ _).symm⟩, rfl⟩
  | collapse known there => exact ⟨List.prefix_append _ _, rfl⟩

theorem performed_extends (s : Staging) (op : Operation) : s.Extends (s.performed op) := by
  rcases performed_cases s op with ⟨lines, change, -⟩ | ⟨same, -⟩
  · exact change.extends
  · rw [same]
    exact ⟨List.prefix_rfl, rfl⟩

@[simp] theorem performAll_snoc (s : Staging) (ops : List Operation) (op : Operation) :
    s.performAll (ops ++ [op]) = (s.performAll ops).performed op := by
  simp [performAll]

theorem performAll_deduplicate (s : Staging) (ops : List Operation) :
    (s.performAll ops).deduplicate = s.deduplicate := by
  induction ops using List.reverseRecOn with
  | nil => rfl
  | append_singleton ops op ih =>
    rw [performAll_snoc, (performed_extends _ op).deduplicate, ih]

structure Complete (s : Staging) : Prop where
  folded : Stage.Folded s.stages
  content : ∀ stage ∈ s.stages, stage.HasContent

theorem Complete.append (complete : s.Complete) {stages : List Stage}
    (folded : Stage.Folded stages) (content : ∀ stage ∈ stages, stage.HasContent) :
    (s.append stages).Complete :=
  ⟨complete.folded.append folded, List.forall_mem_append.mpr ⟨complete.content, content⟩⟩

theorem Complete.append_plain (complete : s.Complete) {stages : List Stage}
    (plain : ∀ stage ∈ stages, stage.Plain) : (s.append stages).Complete :=
  complete.append (Stage.folded_of_plain plain) fun stage inside => (plain stage inside).content

theorem Complete.stageJoin (complete : s.Complete) (join : Lookup) : (s.stageJoin join).Complete := by
  obtain ⟨folded, content⟩ := complete.append (Stage.folded_join join) join.content_stages
  exact ⟨folded, content⟩

theorem complete_of_change (change : Change s op lines t) (complete : s.Complete) :
    t.Complete := by
  cases change with
  | append stages other plain => exact complete.append_plain plain
  | @join name options r known fresh =>
    exact (complete.stageJoin _).append_plain (options.plain_extraStages _)
  | @collapse name options r known there =>
    have collapsed : s.collapse.Complete := ⟨complete.folded, complete.content⟩
    exact collapsed.append_plain (options.plain_extraStages _)

theorem complete_invariant : Invariant Complete := by
  refine .of_change ?_ complete_of_change
  rintro s ⟨empty, -, -⟩
  exact ⟨by simp [empty, Stage.Folded], by simp [empty]⟩

def lookupsMade (s : Staging) : List Operation → Nat
  | [] => 0
  | op :: rest =>
    (if op.isLookup && (s.perform op).result.isOk then 1 else 0) +
      (s.performed op).lookupsMade rest

theorem joinsAsked_of_change (change : Change s op lines t) :
    t.joinsAsked = s.joinsAsked + if op.isLookup then 1 else 0 := by
  unfold joinsAsked
  cases change with
  | append stages other plain => simp [other, append]
  | join known fresh => simp [Operation.isLookup, append, stageJoin]; omega
  | collapse known there => simp [Operation.isLookup, append, collapse]; omega

theorem joinsAsked_performed (s : Staging) (op : Operation) :
    (s.performed op).joinsAsked =
      s.joinsAsked + if op.isLookup && (s.perform op).result.isOk then 1 else 0 := by
  rcases performed_cases s op with ⟨lines, change, made⟩ | ⟨same, failed⟩
  · rw [joinsAsked_of_change change, made, Bool.and_true]
  · simp [same, failed]

theorem joinsAsked_performAll (s : Staging) (ops : List Operation) :
    (s.performAll ops).joinsAsked = s.joinsAsked + s.lookupsMade ops := by
  induction ops generalizing s with
  | nil => rfl
  | cons op rest ih =>
    have later := ih (s.performed op)
    rw [joinsAsked_performed] at later
    rw [lookupsMade, ← Nat.add_assoc]
    exact later

def Distinct (s : Staging) : Prop := (s.lookups.map Lookup.kind).Nodup

theorem distinct_of_change (change : Change s op lines t) (distinct : s.Distinct)
    (deduplicates : ∀ name options, op = .lookup name options → options.deduplicates s = true) :
    t.Distinct := by
  cases change with
  | append stages other plain => rwa [Distinct, lookups_append_plain _ plain]
  | @join name options r known fresh =>
    rw [deduplicates name options rfl, Bool.true_and] at fresh
    rw [Distinct, lookups_append_plain _ (options.plain_extraStages _), stageJoin_lookups,
      List.map_append, List.map_singleton]
    refine List.nodup_append.mpr ⟨distinct, by simp, ?_⟩
    simp only [List.forall_mem_map, List.mem_singleton, forall_eq]
    intro l inside same
    rw [alreadyStaged_iff.mpr ⟨l, inside, same⟩] at fresh
    cases fresh
  | @collapse name options r known there =>
    rwa [Distinct, lookups_append_plain _ (options.plain_extraStages _)]

def Deduplicates (s : Staging) (ops : List Operation) : Prop :=
  ∀ name options, Operation.lookup name options ∈ ops → options.deduplicates s = true

theorem performAll_distinct (distinct : s.Distinct) {ops : List Operation}
    (deduplicates : s.Deduplicates ops) : (s.performAll ops).Distinct := by
  induction ops using List.reverseRecOn with
  | nil => exact distinct
  | append_singleton ops op ih =>
    have earlier : (s.performAll ops).Distinct :=
      ih fun name options inside => deduplicates name options (List.mem_append_left _ inside)
    rw [performAll_snoc]
    rcases performed_cases (s.performAll ops) op with ⟨lines, change, -⟩ | ⟨same, -⟩
    · refine distinct_of_change change earlier ?_
      rintro name options rfl
      have own := deduplicates name options (by simp)
      rwa [LookupOptions.deduplicates, performAll_deduplicate]
    · rwa [same]

structure WellBuilt (s : Staging) (made : Nat) : Prop where
  staged : s.joinsStaged = s.lookups.length
  asked : s.joinsStaged + s.joinsDeduplicated = made
  followed : ∀ i join, s.stages[i]? = some (.lookup join) → join.relation.isOne = true →
    s.stages[i + 1]? = some (.fold join.output)
  preceded : ∀ i output, s.stages[i]? = some (.fold output) →
    ∃ j join, i = j + 1 ∧ s.stages[j]? = some (.lookup join) ∧ join.relation.isOne = true ∧
      join.output = output
  content : ∀ stage ∈ s.stages, stage.HasContent

/-- After any operations on a blank pipeline it is well built, and with deduplication its joins are
distinct. One more operation only appends, and changes nothing if it fails. -/
theorem operations_keep_invariant (blank : s.Blank) (ops : List Operation) :
    (s.performAll ops).WellBuilt (s.lookupsMade ops) ∧
      (s.Deduplicates ops → ((s.performAll ops).lookups.map Lookup.kind).Nodup) ∧
      ∀ op, (s.performAll ops).stages <+: ((s.performAll ops).performed op).stages ∧
        ∀ e, ((s.performAll ops).perform op).result = .error e →
          (s.performAll ops).performed op = s.performAll ops := by
  have counted : (s.performAll ops).Counted :=
    counted_invariant.performAll (counted_invariant.blank s blank) ops
  have complete : (s.performAll ops).Complete :=
    complete_invariant.performAll (complete_invariant.blank s blank) ops
  have asked := joinsAsked_performAll s ops
  obtain ⟨empty, unstaged, uncollapsed⟩ := blank
  refine ⟨⟨counted, ?_, ?_, ?_, complete.content⟩, ?_, fun op => ⟨?_, fun e => performed_of_error⟩⟩
  · simpa [joinsAsked, unstaged, uncollapsed] using asked
  · exact fun i join here one => complete.folded.next here one
  · exact fun i output here => complete.folded.previous here
  · exact performAll_distinct (by simp [Distinct, lookups, empty])
  · exact (performed_extends _ op).stages

end

def posts : Staging := { collection := "Post", catalog := .posts }

def postOperations : List Operation :=
  [.lookup "author" {}, .lookup "editor" {}, .filter [],
    .lookup "comments" { extraMatch := some [("score", .int 3)] },
    .lookup "author" { extraMatch := some [("age", .int 30)] },
    .paginate "_id" { last := some 10 } none, .paginate "_id" { first := some 10 } none]

theorem postOperations_wellBuilt :
    posts.Blank ∧ posts.Deduplicates postOperations ∧
      (posts.performAll postOperations).stages.map Stage.label =
        ["lookup", "fold_one", "lookup", "match", "match", "limit"] ∧
      (posts.performAll postOperations).WellBuilt 3 ∧
      ((posts.performAll postOperations).lookups.map Lookup.kind).Nodup ∧
      (posts.performAll postOperations).performed (.lookup "editor" {}) =
        posts.performAll postOperations := by
  have blank : posts.Blank := ⟨rfl, rfl, rfl⟩
  have deduplicates : posts.Deduplicates postOperations := by
    intro name options asked
    simp only [postOperations, List.mem_cons, Operation.lookup.injEq, reduceCtorEq,
      List.not_mem_nil, or_false, false_or] at asked
    rcases asked with ⟨-, rfl⟩ | ⟨-, rfl⟩ | ⟨-, rfl⟩ | ⟨-, rfl⟩ <;> rfl
  have made : posts.lookupsMade postOperations = 3 := by decide +kernel
  obtain ⟨built, distinct, next⟩ := operations_keep_invariant blank postOperations
  rw [made] at built
  exact ⟨blank, deduplicates, by decide +kernel, built, distinct deduplicates,
    (next (.lookup "editor" {})).2 (.unknownRelation "Post" "editor") rfl⟩

end Staging

end DocQuery
