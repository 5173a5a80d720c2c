import DocQuery.Pipeline.Operation
import DocQuery.Proofs.Joins

set_option autoImplicit false

namespace DocQuery

namespace Stage

def fold? : Stage → Option String
  | fold output => some output
  | _ => none

def HasContent : Stage → Prop
  | filter p => p ≠ []
  | project fields => fields ≠ []
  | sort keys => keys ≠ []
  | _ => True

structure Plain (stage : Stage) : Prop where
  unjoined : stage.lookup? = none
  unfolded : stage.fold? = none
  content : stage.HasContent

end Stage

theorem Lookup.content_stages (join : Lookup) : ∀ stage ∈ join.stages, stage.HasContent := by
  unfold stages
  split <;> simp [Stage.HasContent]

namespace Staging

@[simp] theorem append_nil (s : Staging) : s.append [] = s := by simp [append]

theorem append_append (s : Staging) (first second : List Stage) :
    (s.append first).append second = s.append (first ++ second) := by
  simp [append]

theorem filter_eq_append (s : Staging) (p : Predicate) : s.filter p = s.append (matchStages p) := by
  unfold filter matchStages
  split <;> simp

theorem project_eq_append (s : Staging) (fields : Fields) :
    s.project fields = s.append (if fields.isEmpty then [] else [.project fields]) := by
  unfold project
  split <;> simp

theorem sortBy_eq_append (s : Staging) (keys : List SortKey) :
    s.sortBy keys = s.append (if keys.isEmpty then [] else [.sort keys]) := by
  unfold sortBy
  split <;> simp

theorem plain_unless_empty {α : Type} {xs : List α} {stage : Stage}
    (plain : xs ≠ [] → stage.Plain) :
    ∀ staged ∈ (if xs.isEmpty then [] else [stage]), staged.Plain := by
  split
  next => simp
  next filled => simpa using plain (by simpa using filled)

theorem lookups_of_plain {stages : List Stage} (plain : ∀ stage ∈ stages, stage.Plain) :
    stages.filterMap Stage.lookup? = [] :=
  List.filterMap_eq_nil_iff.mpr fun stage inside => (plain stage inside).unjoined

theorem lookups_append_plain (s : Staging) {stages : List Stage} (plain : ∀ stage ∈ stages, stage.Plain) :
    (s.append stages).lookups = s.lookups := by
  simp [lookups, append, lookups_of_plain plain]

theorem plain_matchStages (p : Predicate) : ∀ stage ∈ matchStages p, stage.Plain :=
  plain_unless_empty fun filled => ⟨rfl, rfl, filled⟩

end Staging

namespace Window

def cut (w : Window) : List Stage :=
  (if w.sort.isEmpty then [] else [.sort w.sort]) ++ w.skip.toList.map .skip ++
    w.limit.toList.map .limit

theorem appendTo_eq_append (w : Window) (s : Staging) :
    w.appendTo s = s.append (Staging.matchStages w.pivotMatch ++ w.cut) := by
  unfold appendTo cut
  rw [Staging.filter_eq_append, Staging.sortBy_eq_append]
  cases w.skip <;> cases w.limit <;>
    simp [Staging.skip, Staging.limit, Staging.append_append]

theorem appendTo_stages (w : Window) (s : Staging) :
    (w.appendTo s).stages = s.stages ++ Staging.matchStages w.pivotMatch ++ w.cut := by
  simp [appendTo_eq_append, Staging.append]

theorem appendTo_collection (w : Window) (s : Staging) :
    (w.appendTo s).collection = s.collection := by
  rw [appendTo_eq_append]
  rfl

theorem plain_cut (w : Window) : ∀ stage ∈ w.cut, stage.Plain := by
  have unfolded : ∀ stage ∈ w.skip.toList.map Stage.skip ++ w.limit.toList.map Stage.limit,
      stage.Plain := by
    simp only [List.forall_mem_append, List.forall_mem_map]
    exact ⟨fun _ _ => ⟨rfl, rfl, trivial⟩, fun _ _ => ⟨rfl, rfl, trivial⟩⟩
  rw [cut, List.append_assoc, List.forall_mem_append]
  exact ⟨Staging.plain_unless_empty fun filled => ⟨rfl, rfl, filled⟩, unfolded⟩

end Window

namespace LookupOptions

def owner (options : LookupOptions) (s : Staging) : String :=
  (options.parent.map (·.collection)).getD s.collection

def deduplicates (options : LookupOptions) (s : Staging) : Bool :=
  options.deduplicate.getD s.deduplicate

def extraStages (options : LookupOptions) (join : Lookup) : List Stage :=
  match options.extraMatch with
  | some p => Staging.matchStages (p.scope (join.output ++ "."))
  | none => []

theorem plain_extraStages (options : LookupOptions) (join : Lookup) :
    ∀ stage ∈ options.extraStages join, stage.Plain := by
  unfold extraStages
  cases options.extraMatch with
  | none => simp
  | some p => exact Staging.plain_matchStages _

end LookupOptions

namespace Staging

def Operation.isLookup : Operation → Bool
  | .lookup .. => true
  | _ => false

def joinedEntry (name : String) (join : Lookup) : Log.Entry :=
  Log.Event.joinStaged.entry
    [("relation", name), ("from", join.relation.target), ("alias", join.output)]

def collapsedEntry (name : String) (join : Lookup) : Log.Entry :=
  Log.Event.joinDeduplicated.entry [("relation", name), ("alias", join.output)]

def collapse (s : Staging) : Staging := { s with joinsDeduplicated := s.joinsDeduplicated + 1 }

/-- What an operation that succeeds does to a pipeline, with the lines it logs. -/
inductive Change (s : Staging) : Operation → List Log.Entry → Staging → Prop
  | append {op : Operation} (stages : List Stage) (other : op.isLookup = false)
      (plain : ∀ stage ∈ stages, stage.Plain) : Change s op [] (s.append stages)
  | join {name : String} {options : LookupOptions} {r : Relation}
      (known : s.catalog.relation? (options.owner s) name = some r)
      (fresh : (options.deduplicates s && s.alreadyStaged (joinFor r options)) = false) :
      Change s (.lookup name options) [joinedEntry name (joinFor r options)]
        ((s.stageJoin (joinFor r options)).append (options.extraStages (joinFor r options)))
  | collapse {name : String} {options : LookupOptions} {r : Relation}
      (known : s.catalog.relation? (options.owner s) name = some r)
      (there : (options.deduplicates s && s.alreadyStaged (joinFor r options)) = true) :
      Change s (.lookup name options) [collapsedEntry name (joinFor r options)]
        (s.collapse.append (options.extraStages (joinFor r options)))

section

variable {s t : Staging}

theorem alreadyStaged_iff {join : Lookup} :
    s.alreadyStaged join = true ↔ ∃ l ∈ s.lookups, l.kind = join.kind := by
  have same : s.alreadyStaged join = s.lookups.any (sameJoin · join) := rfl
  rw [same, any_sameJoin, List.contains_iff_mem, List.mem_map]

theorem Left.pipeline_of_ok {l : Left} (done : l.result.result = .ok t) : l.pipeline = t := by
  simp only [Left.result, Traced.result_bind, Outcome.bind_eq_ok] at done
  obtain ⟨-, -, made⟩ := done
  exact Except.ok.inj made

theorem lookupOn_of_unknown {name : String} {options : LookupOptions}
    (unknown : s.catalog.relation? (options.owner s) name = none) :
    s.lookupOn name options = ⟨s, Traced.fail (.unknownRelation (options.owner s) name)⟩ := by
  unfold LookupOptions.owner at unknown
  simp only [lookupOn, unknown]
  rfl

theorem lookupOn_of_known {name : String} {options : LookupOptions} {r : Relation}
    (known : s.catalog.relation? (options.owner s) name = some r) :
    s.lookupOn name options =
      if options.deduplicates s && s.alreadyStaged (joinFor r options) then
        ⟨s.collapse.append (options.extraStages (joinFor r options)),
          Traced.log .joinDeduplicated
            [("relation", name), ("alias", (joinFor r options).output)]⟩
      else
        ⟨(s.stageJoin (joinFor r options)).append (options.extraStages (joinFor r options)),
          Traced.log .joinStaged
            [("relation", name), ("from", r.target), ("alias", (joinFor r options).output)]⟩ := by
  unfold LookupOptions.owner at known
  unfold LookupOptions.deduplicates LookupOptions.extraStages
  simp only [lookupOn, known]
  by_cases there :
      (options.deduplicate.getD s.deduplicate && s.alreadyStaged (joinFor r options)) = true <;>
    cases options.extraMatch <;> simp [there, collapse, filter_eq_append]

theorem lookup_of_unknown {name : String} {options : LookupOptions}
    (unknown : s.catalog.relation? (options.owner s) name = none) :
    s.lookup name options = Traced.fail (.unknownRelation (options.owner s) name) := by
  rw [lookup, lookupOn_of_unknown unknown]
  rfl

theorem lookup_of_known {name : String} {options : LookupOptions} {r : Relation}
    (known : s.catalog.relation? (options.owner s) name = some r) :
    s.lookup name options =
      (if options.deduplicates s && s.alreadyStaged (joinFor r options) then do
        Traced.log .joinDeduplicated [("relation", name), ("alias", (joinFor r options).output)]
        pure (s.collapse.append (options.extraStages (joinFor r options)))
      else do
        Traced.log .joinStaged
          [("relation", name), ("from", r.target), ("alias", (joinFor r options).output)]
        pure ((s.stageJoin (joinFor r options)).append
          (options.extraStages (joinFor r options)))) := by
  rw [lookup, lookupOn_of_known known]
  split <;> rfl

theorem paginate_eq (s : Staging) (primaryKey : String) (args : PageArgs) (pivot : Option Json) :
    s.paginate primaryKey args pivot =
      (Window.ofArgs primaryKey args pivot).map fun window => window.appendTo s := by
  unfold paginate paginateOn
  cases Window.ofArgs primaryKey args pivot <;> rfl

@[simp] theorem perform_lookup (s : Staging) (name : String) (options : LookupOptions) :
    s.perform (.lookup name options) = s.lookup name options := rfl

theorem perform_paginate (s : Staging) (primaryKey : String) (args : PageArgs)
    (pivot : Option Json) :
    s.perform (.paginate primaryKey args pivot) =
      Traced.lift (s.paginate primaryKey args pivot) := by
  change (s.paginateOn primaryKey args pivot).result =
    Traced.lift (s.paginateOn primaryKey args pivot).result.result
  unfold paginateOn
  cases Window.ofArgs primaryKey args pivot <;> rfl

theorem lookup_of_error {name : String} {options : LookupOptions} {e : QueryError}
    (failed : (s.lookup name options).result = .error e) :
    s.lookup name options = Traced.fail (.unknownRelation (options.owner s) name) := by
  cases known : s.catalog.relation? (options.owner s) name with
  | none => exact lookup_of_unknown known
  | some r =>
    rw [lookup_of_known known] at failed
    split at failed <;> cases failed

theorem change_of_lookup {name : String} {options : LookupOptions}
    (found : (s.lookup name options).result = .ok t) :
    Change s (.lookup name options) (s.lookup name options).entries t := by
  cases known : s.catalog.relation? (options.owner s) name with
  | none =>
    rw [lookup_of_unknown known] at found
    cases found
  | some r =>
    rw [lookup_of_known known] at found ⊢
    split at found
    next there =>
      rw [if_pos there]
      cases found
      exact .collapse known there
    next fresh =>
      rw [if_neg fresh]
      cases found
      exact .join known (by simpa using fresh)

theorem perform_of_error {op : Operation} {e : QueryError}
    (failed : (s.perform op).result = .error e) : s.perform op = Traced.fail e := by
  cases op with
  | lookup name options =>
    have refused : s.perform (.lookup name options) = _ := lookup_of_error failed
    rw [refused] at failed ⊢
    cases failed
    rfl
  | paginate primaryKey args pivot =>
    rw [perform_paginate, Traced.result_lift] at failed
    rw [perform_paginate, failed]
    rfl
  | _ => cases failed

theorem performed_of_ok {op : Operation} (done : (s.perform op).result = .ok t) :
    s.performed op = t :=
  Left.pipeline_of_ok done

/-- An operation that fails leaves the pipeline as it was. -/
theorem performed_of_error {op : Operation} {e : QueryError}
    (failed : (s.perform op).result = .error e) : s.performed op = s := by
  cases op with
  | lookup name options =>
    rw [performed, operate]
    cases known : s.catalog.relation? (options.owner s) name with
    | none => rw [lookupOn_of_unknown known]
    | some r =>
      have made : (s.lookup name options).result = .error e := failed
      rw [lookup_of_known known] at made
      split at made <;> cases made
  | paginate primaryKey args pivot =>
    rw [perform_paginate, Traced.result_lift, paginate_eq] at failed
    rw [performed, operate, paginateOn]
    cases refused : Window.ofArgs primaryKey args pivot with
    | error e => rfl
    | ok window =>
      rw [refused] at failed
      cases failed
  | _ => cases failed

theorem performAll_of_ok {op : Operation} (done : (s.perform op).result = .ok t)
    (ops : List Operation) : s.performAll (op :: ops) = t.performAll ops :=
  congrArg (·.performAll ops) (performed_of_ok done)

theorem change_of_perform (op : Operation) (done : (s.perform op).result = .ok t) :
    Change s op (s.perform op).entries t := by
  cases op with
  | lookup name options => exact change_of_lookup done
  | paginate primaryKey args pivot =>
    rw [perform_paginate, Traced.result_lift, paginate_eq, Outcome.map_eq_ok] at done
    obtain ⟨w, found, rfl⟩ := done
    rw [perform_paginate, paginate_eq, found, w.appendTo_eq_append]
    refine .append _ rfl (List.forall_mem_append.mpr ⟨plain_matchStages _, w.plain_cut⟩)
  | filter p =>
    obtain rfl : s.filter p = t := performed_of_ok done
    rw [filter_eq_append]
    exact .append _ rfl (plain_matchStages p)
  | project fields =>
    obtain rfl : s.project fields = t := performed_of_ok done
    rw [project_eq_append]
    exact .append _ rfl (plain_unless_empty fun filled => ⟨rfl, rfl, filled⟩)
  | sort order =>
    obtain rfl : s.sort order = t := performed_of_ok done
    rw [sort, sortBy_eq_append]
    exact .append _ rfl (plain_unless_empty fun filled => ⟨rfl, rfl, filled⟩)
  | sortBy keys =>
    obtain rfl : s.sortBy keys = t := performed_of_ok done
    rw [sortBy_eq_append]
    exact .append _ rfl (plain_unless_empty fun filled => ⟨rfl, rfl, filled⟩)
  | skip n =>
    obtain rfl : s.skip n = t := performed_of_ok done
    exact .append [.skip n] rfl (by simpa using ⟨rfl, rfl, trivial⟩)
  | limit n =>
    obtain rfl : s.limit n = t := performed_of_ok done
    exact .append [.limit n] rfl (by simpa using ⟨rfl, rfl, trivial⟩)
  | count field =>
    obtain rfl : s.count field = t := performed_of_ok done
    exact .append [.count field] rfl (by simpa using ⟨rfl, rfl, trivial⟩)

end

end Staging

end DocQuery
