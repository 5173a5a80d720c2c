import DocQuery.Proofs.OperationHistory

set_option autoImplicit false

namespace DocQuery

open Compile

theorem Compile.outputBelow_ne_self {path name : String} (nested : path ≠ "") :
    outputBelow path name ≠ name := by
  intro same
  have lengths := congrArg String.length same
  simp [outputBelow, nested, Staging.below] at lengths

theorem Compile.outputBelow_inj {path other name : String} :
    outputBelow path name = outputBelow other name ↔ path = other := by
  refine ⟨fun same => ?_, fun same => by rw [same]⟩
  by_cases root : path = "" <;> by_cases otherRoot : other = ""
  · rw [root, otherRoot]
  · rw [root] at same
    exact absurd same.symm (outputBelow_ne_self otherRoot)
  · rw [otherRoot] at same
    exact absurd same (outputBelow_ne_self root)
  · simpa [outputBelow, root, otherRoot, Staging.below, String.append_assoc] using same

namespace LookupOptions

def path (options : LookupOptions) : String := (options.parent.map (·.path)).getD ""

def repeating (options : LookupOptions) : LookupOptions := { options with deduplicate := some false }

end LookupOptions

namespace Staging

theorem joinFor_eq (r : Relation) (options : LookupOptions) :
    joinFor r options = ⟨r, options.output.getD (outputBelow options.path r.name),
      outputBelow options.path r.localField⟩ := by
  unfold joinFor LookupOptions.path outputBelow
  by_cases root : (options.parent.map (·.path)).getD "" = "" <;> simp [root]

@[simp] theorem joinFor_relation (r : Relation) (options : LookupOptions) :
    (joinFor r options).relation = r := by
  rw [joinFor_eq]

section

variable {r : Relation} {given options : LookupOptions}

theorem joinFor_eq_iff (same : (joinFor r given).output = (joinFor r options).output) :
    joinFor r given = joinFor r options ↔ given.path = options.path := by
  simp only [joinFor_eq] at same ⊢
  simp [same, outputBelow_inj]

theorem path_eq_of_default (unnamed : given.output = none) (default : options.output = none)
    (same : (joinFor r given).output = (joinFor r options).output) : given.path = options.path := by
  simpa [joinFor_eq, unnamed, default, outputBelow_inj] using same

end

variable {s t : Staging}

theorem lookups_of_change {op : Operation} {lines : List Log.Entry}
    (change : Change s op lines t) :
    t.lookups = s.lookups ∨
      ∃ r options, op = .lookup r.name options ∧ t.lookups = s.lookups ++ [joinFor r options] := by
  cases change with
  | append stages other plain => exact .inl (lookups_append_plain _ plain)
  | @join name options r known fresh =>
    refine .inr ⟨r, options, by rw [Catalog.relation?_name known], ?_⟩
    rw [lookups_append_plain _ (options.plain_extraStages _), stageJoin_lookups]
  | @collapse name options r known there =>
    exact .inl (lookups_append_plain _ (options.plain_extraStages _))

theorem lookups_asked (blank : s.Blank) (ops : List Operation) :
    ∀ l ∈ (s.performAll ops).lookups,
      ∃ given, .lookup l.relation.name given ∈ ops ∧ l = joinFor l.relation given := by
  induction ops using List.reverseRecOn with
  | nil => simp [performAll, lookups, blank.1]
  | append_singleton ops op ih =>
    have earlier : ∀ l ∈ (s.performAll ops).lookups, ∃ given,
        .lookup l.relation.name given ∈ ops ++ [op] ∧ l = joinFor l.relation given := by
      intro l inside
      obtain ⟨given, asked, made⟩ := ih l inside
      exact ⟨given, List.mem_append_left _ asked, made⟩
    rw [performAll_snoc]
    rcases performed_cases (s.performAll ops) op with ⟨lines, change, -⟩ | ⟨same, -⟩
    · rcases lookups_of_change change with kept | ⟨r, options, rfl, grown⟩
      · rwa [kept]
      · rw [grown, List.forall_mem_append, List.forall_mem_singleton]
        exact ⟨earlier, options, by simp, by simp⟩
    · rwa [same]

theorem collapse_of_lookup {name : String} {options : LookupOptions}
    (found : (s.lookup name options).result = .ok t)
    (collapsed : s.joinsDeduplicated < t.joinsDeduplicated) :
    ∃ r, s.catalog.relation? (options.owner s) name = some r ∧
      s.alreadyStaged (joinFor r options) = true := by
  have change := change_of_lookup found
  generalize (s.lookup name options).entries = lines at change
  cases change with
  | append stages other plain => cases other
  | join known fresh => exact absurd collapsed (Nat.lt_irrefl _)
  | collapse known there => exact ⟨_, known, (Bool.and_eq_true_iff.mp there).2⟩

theorem lookup_repeating {name : String} {options : LookupOptions} {r : Relation}
    (known : s.catalog.relation? (options.owner s) name = some r) :
    ∃ u, (s.lookup name options.repeating).result = .ok u ∧
      u.lookups = s.lookups ++ [joinFor r options] := by
  have known : s.catalog.relation? (options.repeating.owner s) name = some r := known
  have always : options.repeating.deduplicates s = false := rfl
  refine ⟨_, by simp [lookup_of_known known, always]; rfl, ?_⟩
  rw [lookups_append_plain _ (options.repeating.plain_extraStages _), stageJoin_lookups]
  rfl

/-- A collapsed look-up finds a join of the same relation and output as the one that it would stage
without deduplication. Every such join is what an earlier look-up of the relation asked for. It is
the same join if and only if the two look-ups hang on one path, and always if both leave the output
to its default. -/
theorem collapsed_join_staged (blank : s.Blank) {ops : List Operation} {name : String}
    {options : LookupOptions} (found : ((s.performAll ops).lookup name options).result = .ok t)
    (collapsed : (s.performAll ops).joinsDeduplicated < t.joinsDeduplicated) :
    ∃ join u, ((s.performAll ops).lookup name options.repeating).result = .ok u ∧
      u.lookups = (s.performAll ops).lookups ++ [join] ∧
      (∃ l ∈ (s.performAll ops).lookups, l.kind = join.kind) ∧
      ∀ l ∈ (s.performAll ops).lookups, l.kind = join.kind →
        ∃ given, .lookup name given ∈ ops ∧ l = joinFor l.relation given ∧
          (l = join ↔ given.path = options.path) ∧
          (given.output = none → options.output = none → l = join) := by
  obtain ⟨r, known, there⟩ := collapse_of_lookup found collapsed
  obtain ⟨u, repeated, grown⟩ := lookup_repeating known
  refine ⟨joinFor r options, u, repeated, grown, alreadyStaged_iff.mp there, ?_⟩
  intro l inside same
  obtain ⟨given, asked, made⟩ := lookups_asked blank ops l inside
  have sameRelation : l.relation = r := (congrArg Prod.fst same).trans (joinFor_relation r options)
  have sameOutput : l.output = (joinFor r options).output := congrArg Prod.snd same
  rw [sameRelation, Catalog.relation?_name known] at asked
  refine ⟨given, asked, made, ?_⟩
  rw [sameRelation] at made
  rw [made] at sameOutput ⊢
  have equal := joinFor_eq_iff sameOutput
  exact ⟨equal, fun unnamed default =>
    equal.mpr (path_eq_of_default unnamed default sameOutput)⟩

def authorLookups : List Operation := [.lookup "author" {}, .lookup "author" { output := some "writer" }]

theorem rootAuthor_collapses_onto_author :
    posts.Blank ∧ ∃ t u join,
      ((posts.performAll authorLookups).lookup "author" { parent := some ⟨"Post", ""⟩ }).result =
        .ok t ∧
      (posts.performAll authorLookups).joinsDeduplicated < t.joinsDeduplicated ∧
      ((posts.performAll authorLookups).lookup "author"
        (LookupOptions.repeating { parent := some ⟨"Post", ""⟩ })).result = .ok u ∧
      u.lookups = (posts.performAll authorLookups).lookups ++ [join] ∧
      join ∈ (posts.performAll authorLookups).lookups := by
  have blank : posts.Blank := ⟨rfl, rfl, rfl⟩
  have counts : ((posts.performAll authorLookups).lookup "author"
      { parent := some ⟨"Post", ""⟩ }).result.map (·.joinsDeduplicated) = .ok 1 := by decide +kernel
  have before : (posts.performAll authorLookups).joinsDeduplicated = 0 := by decide +kernel
  obtain ⟨t, found, counted⟩ := Outcome.map_eq_ok.mp counts
  have collapsed : (posts.performAll authorLookups).joinsDeduplicated < t.joinsDeduplicated := by
    rw [before, counted]
    exact Nat.one_pos
  obtain ⟨join, u, repeated, grown, ⟨l, inside, same⟩, equal⟩ :=
    collapsed_join_staged blank found collapsed
  obtain ⟨given, asked, -, placed, -⟩ := equal l inside same
  have root : given.path = "" := by
    simp only [authorLookups, List.mem_cons, Operation.lookup.injEq, true_and,
      List.not_mem_nil, or_false] at asked
    rcases asked with rfl | rfl <;> rfl
  rw [placed.mpr root] at inside
  exact ⟨blank, t, u, join, found, collapsed, repeated, grown, inside⟩

-- The writer of the draft is taken for the writer, though they are read from different fields.
theorem draftWriter_collapses_onto_writer :
    posts.Blank ∧ ∃ t u join,
      ((posts.performAll authorLookups).lookup "author"
        { output := some "writer", parent := some ⟨"Post", "draft"⟩ }).result = .ok t ∧
      (posts.performAll authorLookups).joinsDeduplicated < t.joinsDeduplicated ∧
      ((posts.performAll authorLookups).lookup "author"
        { output := some "writer", parent := some ⟨"Post", "draft"⟩,
          deduplicate := some false }).result = .ok u ∧
      u.lookups = (posts.performAll authorLookups).lookups ++ [join] ∧
      join ∉ (posts.performAll authorLookups).lookups := by
  refine ⟨⟨rfl, rfl, rfl⟩, _, _, ⟨⟨"author", "User", "authorId", "_id", .one⟩, "writer",
    "draft.authorId"⟩, rfl, ?_, rfl, ?_, ?_⟩ <;> decide +kernel

end Staging

end DocQuery
