import DocQuery.Proofs.EarlyReads
import DocQuery.Proofs.JoinOrder

set_option autoImplicit false

namespace DocQuery

open Text

/-- A join that replaces the field an earlier join wrote into is followed by that join again before
anything below it is read. -/
def JoinsSurvive (stages : List Stage) : Prop :=
  ∀ earlier inner middle outer between p after path,
    stages = earlier ++ .lookup inner :: middle ++ .lookup outer :: between ++ .filter p :: after →
      outer.Above inner → path ∈ Predicate.reads p → inner.Writes path →
        ∃ again, .lookup again ∈ between ∧ again.output = inner.output

def NestedAgain (joins : List Lookup) : Prop :=
  ∀ earlier inner middle outer later,
    joins = earlier ++ inner :: middle ++ outer :: later → outer.Above inner →
      ∃ again ∈ later, again.output = inner.output

namespace Predicate

theorem mem_reads {path key : String} {value : Json} {p : Predicate} (inside : (key, value) ∈ p)
    (read : path ∈ memberReads key value) : path ∈ reads p := by
  obtain ⟨before, after, rfl⟩ := List.append_of_mem inside
  simp [reads_append, reads, read]

theorem mem_branchesRead {path : String} {members : Predicate} {items : List Json}
    (item : .obj members ∈ items) (read : path ∈ reads members) : path ∈ branchesRead items := by
  obtain ⟨before, after, rfl⟩ := List.append_of_mem item
  simp [branchesRead_append, branchesRead, read]

theorem Has.reads {path : String} {clause : Json} {p : Predicate}
    (field : Connective.ofNative? path = none) (present : Has path clause p) :
    path ∈ reads p := by
  obtain ⟨member, inside, carries⟩ := present
  induction carries generalizing p with
  | own states =>
    refine mem_reads inside ?_
    rw [memberReads_plain (by simp [field])]
    exact List.mem_cons_self
  | listed item within carries ih =>
    refine mem_reads inside ?_
    simp only [memberReads, Connective.ofNative?_native]
    exact mem_branchesRead item (ih within)

end Predicate

namespace Node

theorem exists_field_of_hasEffect {n : Node} (standard : ∀ m ∈ n.within, m.Standard)
    (effect : n.hasEffect = true) (chain : List Relation) :
    ∃ found i name operator, (found, Node.field i name operator) ∈ reached chain n ∧
      i.suppressed = false := by
  have active := active_of_hasEffect effect
  induction n generalizing chain with
  | field i name operator =>
    exact ⟨chain, i, name, operator, List.mem_singleton_self _, active⟩
  | relation i r children ih =>
    simp only [within, List.forall_mem_cons, forall_withinAll, standard_relation] at standard
    rw [suppressed_relation] at active
    have inner : children.any hasEffect = true := by
      simpa [hasEffect, active, standard.1, anyEffect_eq] using effect
    obtain ⟨n, member, own⟩ := List.any_eq_true.mp inner
    obtain ⟨found, j, name, operator, inside, shown⟩ :=
      ih n member (standard.2 n member) own (chain ++ [r]) (active_of_hasEffect own)
    have below := mem_reachedAll.mpr ⟨n, member, inside⟩
    exact ⟨found, j, name, operator, mem_reached_relation.mpr (.inr ⟨active, below⟩), shown⟩
  | group i connective branches ih =>
    simp only [within, List.forall_mem_cons, forall_withinBranches, standard_group] at standard
    rw [suppressed_group] at active
    have inner : branches.any anyEffect = true := by
      simpa [hasEffect, active, standard.1, anyBranchEffect_eq] using effect
    obtain ⟨branch, listed, within⟩ := List.any_eq_true.mp inner
    rw [anyEffect_eq] at within
    obtain ⟨n, member, own⟩ := List.any_eq_true.mp within
    obtain ⟨found, j, name, operator, inside, shown⟩ := ih branch listed n member
      (standard.2 branch listed n member) own chain (active_of_hasEffect own)
    have below := mem_reachedBranches.mpr ⟨branch, listed, n, member, inside⟩
    exact ⟨found, j, name, operator, mem_reached_group.mpr (.inr ⟨active, below⟩), shown⟩

theorem hasEffect_of_join {n : Node} {chain : List Relation} {join : Lookup}
    (needed : join ∈ chainJoins chain n) : n.hasEffect = true := by
  by_contra idle
  rw [chainJoins_of_no_effect (Bool.eq_false_iff.mpr idle)] at needed
  exact List.not_mem_nil needed

theorem field_below_join {n : Node} (standard : ∀ m ∈ n.within, m.Standard)
    {chain : List Relation} {join : Lookup} (needed : join ∈ chainJoins chain n) :
    ∃ above r rest i name operator, join = .along above r ∧
      (above ++ r :: rest, Node.field i name operator) ∈ reached chain n ∧
      i.suppressed = false := by
  have effect := hasEffect_of_join needed
  induction n generalizing chain with
  | field i name operator => simp [chainJoins, reached, join?] at needed
  | relation i r children ih =>
    have active : i.suppressed = false := active_of_hasEffect effect
    rw [chainJoins_relation effect] at needed
    rcases List.mem_cons.mp needed with rfl | deeper
    · obtain ⟨found, j, name, operator, inside, shown⟩ :=
        exists_field_of_hasEffect standard effect chain
      obtain ⟨-, below⟩ := Compile.reached_relation inside
      obtain ⟨n, -, within⟩ := mem_reachedAll.mp below
      obtain ⟨rest, rfl⟩ := prefix_of_reached within
      rw [List.append_assoc, List.singleton_append] at inside
      exact ⟨chain, r, rest, j, name, operator, rfl, inside, shown⟩
    · simp only [within, List.forall_mem_cons, forall_withinAll] at standard
      obtain ⟨n, member, own⟩ := mem_allChainJoins.mp deeper
      obtain ⟨above, q, rest, j, name, operator, same, inside, shown⟩ :=
        ih n member (standard.2 n member) own (hasEffect_of_join own)
      have below := mem_reachedAll.mpr ⟨n, member, inside⟩
      exact ⟨above, q, rest, j, name, operator, same,
        mem_reached_relation.mpr (.inr ⟨active, below⟩), shown⟩
  | group i connective branches ih =>
    have active : i.suppressed = false := active_of_hasEffect effect
    rw [chainJoins_group active] at needed
    simp only [within, List.forall_mem_cons, forall_withinBranches] at standard
    obtain ⟨branch, listed, within⟩ := List.mem_flatMap.mp needed
    obtain ⟨n, member, own⟩ := mem_allChainJoins.mp within
    obtain ⟨above, q, rest, j, name, operator, same, inside, shown⟩ :=
      ih branch listed n member (standard.2 branch listed n member) own (hasEffect_of_join own)
    have below := mem_reachedBranches.mpr ⟨branch, listed, n, member, inside⟩
    exact ⟨above, q, rest, j, name, operator, same,
      mem_reached_group.mpr (.inr ⟨active, below⟩), shown⟩

end Node

theorem Lookup.along_writes (above : List Relation) (r : Relation) (rest : List Relation)
    (name : String) : (Lookup.along above r).Writes (fieldPath (above ++ r :: rest) name) := by
  right
  refine ⟨joinPath (rest.map (·.name) ++ [name]), ?_⟩
  rw [Lookup.along, fieldPath, ← joinPath_append (by simp) (by simp)]
  simp

namespace Compile

theorem joined_reads {nodes : List Node} (standard : ∀ m ∈ Node.withinAll nodes, m.Standard)
    {after : Predicate} (last : plainPredicate "" (joined nodes) = .ok after) {join : Lookup}
    (needed : join ∈ Node.allChainJoins [] nodes) :
    ∃ path ∈ Predicate.reads after, join.Writes path := by
  obtain ⟨n, member, own⟩ := Node.mem_allChainJoins.mp needed
  obtain ⟨above, r, rest, i, name, operator, rfl, inside, active⟩ :=
    Node.field_below_join (Node.forall_withinAll.mp standard n member) own
  have nested : above ++ r :: rest ≠ [] := by simp
  obtain ⟨clause, -, present⟩ :=
    joined_carries last (Node.mem_reachedAll.mpr ⟨n, member, inside⟩) active nested
  have field := ofNative?_dotted (fieldPath_dotted nested name)
  exact ⟨_, present.reads field, Lookup.along_writes above r rest name⟩

end Compile

namespace Staging

variable {before after : Predicate} {joins : List Lookup}

theorem stages_cons (join : Lookup) :
    ∃ fold, join.stages = .lookup join :: fold ∧ fold.filterMap Stage.lookup? = [] := by
  unfold Lookup.stages
  split
  next => exact ⟨[.fold join.output], rfl, rfl⟩
  next => exact ⟨[], rfl, rfl⟩

-- The last match reads below every join, so that none may be left replaced, and between two joins no
-- stage matters but joins.
theorem joinsSurvive_iff (read : ∀ join ∈ joins, ∃ path ∈ Predicate.reads after, join.Writes path) :
    JoinsSurvive (matchStages before ++ joins.flatMap Lookup.stages ++ matchStages after) ↔
      NestedAgain joins := by
  constructor
  · intro survive earlier inner middle outer later split above
    obtain ⟨path, reads, writes⟩ := read inner (by simp [split])
    obtain ⟨innerFold, ofInner, -⟩ := stages_cons inner
    obtain ⟨outerFold, ofOuter, joinless⟩ := stages_cons outer
    have last : matchStages after = [.filter after] := by
      cases after with
      | nil => simp [Predicate.reads] at reads
      | cons => rfl
    obtain ⟨again, staged, same⟩ := survive (matchStages before ++ earlier.flatMap Lookup.stages)
      inner (innerFold ++ middle.flatMap Lookup.stages) outer
      (outerFold ++ later.flatMap Lookup.stages) after [] path
      (by simp [split, ofInner, ofOuter, last]) above reads writes
    rw [← mem_lookups, List.filterMap_append, joinless, lookups_joins] at staged
    exact ⟨again, staged, same⟩
  · intro nested earlier inner middle outer between p rest path split above reads writes
    have tail : .lookup outer :: (between ++ .filter p :: rest) <:+
        matchStages before ++ (joins.flatMap Lookup.stages ++ matchStages after) := by
      refine ⟨earlier ++ .lookup inner :: middle, ?_⟩
      rw [← List.append_assoc, split]
      simp
    have joining := (suffix_of_match tail).resolve_left (by simp)
    have ending : .filter p :: rest <:+ .lookup outer :: (between ++ .filter p :: rest) :=
      List.suffix_append (.lookup outer :: between) _
    have last := lookups_after_match (ending.trans joining)
    have order : joins = earlier.filterMap Stage.lookup? ++ inner ::
        middle.filterMap Stage.lookup? ++ outer :: between.filterMap Stage.lookup? := by
      have whole := congrArg (List.filterMap Stage.lookup?) split
      simpa [lookups_joins, Stage.lookup?, last] using whole
    obtain ⟨again, later, same⟩ := nested _ _ _ _ _ order above
    exact ⟨again, mem_lookups.mp later, same⟩

end Staging

theorem nestedAgain_of_pairwise {joins : List Lookup}
    (ordered : joins.Pairwise fun first later => ¬ later.Above first) : NestedAgain joins := by
  rintro earlier inner middle outer later rfl above
  rw [List.append_assoc, List.pairwise_append, List.cons_append, List.pairwise_cons] at ordered
  exact absurd above (ordered.2.1.1 outer (by simp))

/-- The joins of a compiled filter survive exactly if what is below a later join is joined again
after it. With deduplication, and no dot in the name of a relation, they always do. -/
theorem FilterCompiler.joins_survive {c : FilterCompiler} {rules : List Rule}
    (built : c.visitors = rules.map Rule.visitor) {collection : String} {filter : Json}
    (standard : ∀ nodes, (c.parse collection filter).result = .ok nodes →
      ∀ m ∈ Node.withinAll nodes, m.Standard)
    {s : Staging} (compiled : (c.compilePipeline collection filter).result = .ok s) :
    ∃ nodes, (c.parse collection filter).result = .ok nodes ∧
      (JoinsSurvive s.stages ↔ NestedAgain
        (Staging.newJoins c.config.deduplicateJoins [] (Node.allChainJoins [] nodes))) ∧
      (c.config.deduplicateJoins = true → c.catalog.Undotted → JoinsSurvive s.stages) := by
  rw [c.compilePipeline_stage standard] at compiled
  obtain ⟨nodes, parsed, staged⟩ := Outcome.bind_eq_ok.mp compiled
  have declared := FilterCompiler.parse_declared built parsed
  have plain := standard nodes parsed
  obtain ⟨before, after, -, last, stages⟩ :=
    Compile.stage_parts (s := c.newPipeline collection) declared plain rfl staged
  have exact : JoinsSurvive s.stages ↔ NestedAgain
      (Staging.newJoins c.config.deduplicateJoins [] (Node.allChainJoins [] nodes)) := by
    rw [stages]
    refine Staging.joinsSurvive_iff ?_
    intro join inside
    exact Compile.joined_reads plain last (Staging.newJoins_subset _ _ _ join inside)
  refine ⟨nodes, parsed, exact, ?_⟩
  intro deduplicate undotted
  have ready := Node.allChainJoins_parentsFirst declared
  rw [exact, deduplicate]
  exact nestedAgain_of_pairwise (Staging.newJoins_parentsFirst undotted ready (by simp))

theorem joiningFilter_survives :
    ∃ s, (joiningCompiler.compilePipeline "Post" joiningFilter).result = .ok s ∧
      s.lookups.map (·.output) = ["author", "author.company"] ∧
      joiningCompiler.catalog.Undotted ∧ JoinsSurvive s.stages := by
  have undotted : joiningCompiler.catalog.Undotted := by decide
  obtain ⟨nodes, parsed, -, survive⟩ :=
    FilterCompiler.joins_survive (c := joiningCompiler) rfl joiningFilter_standard rfl
  exact ⟨_, rfl, rfl, undotted, survive rfl undotted⟩

-- The author joined again, in a group, after the company of the author.
def repeatedFilter : Json :=
  .obj [("author", .obj [("company", .obj [("name", .str "Acme")])]),
    ("or", .arr [.obj [("author", .obj [("age_gt", .int 30)])]])]

def repeatingCompiler : FilterCompiler := ⟨Catalog.posts, [], { deduplicateJoins := false }⟩

def companyJoin : Lookup :=
  ⟨⟨"company", "Company", "companyId", "_id", .one⟩, "author.company", "author.companyId"⟩

def repeatedMatch : Predicate :=
  [("author.company.name", .str "Acme"),
    ("$or", .arr [.obj [("author.age", .obj [("$gt", .int 30)])]])]

theorem repeatedFilter_stages :
    (repeatingCompiler.compilePipeline "Post" repeatedFilter).result.map (·.stages) =
      .ok [.lookup authorJoin, .fold "author", .lookup companyJoin, .fold "author.company",
        .lookup authorJoin, .fold "author", .filter repeatedMatch] := rfl

theorem repeatedFilter_loses_join :
    ∃ s, (repeatingCompiler.compilePipeline "Post" repeatedFilter).result = .ok s ∧
      ¬ JoinsSurvive s.stages := by
  obtain ⟨s, compiled, stages⟩ := Outcome.map_eq_ok.mp repeatedFilter_stages
  refine ⟨s, compiled, ?_⟩
  rw [stages]
  intro survive
  have again := survive [.lookup authorJoin, .fold "author"] companyJoin [.fold "author.company"]
    authorJoin [.fold "author"] repeatedMatch [] "author.company.name" rfl ⟨"company", rfl⟩
    (by simp [repeatedMatch, Predicate.reads, Predicate.memberReads]) (.inr ⟨"name", rfl⟩)
  simp at again

def Catalog.flattened : Catalog where
  entries :=
    [("Post", ⟨"author.company", "Company", "companyId", "_id", .one⟩),
      ("Post", ⟨"author", "User", "authorId", "_id", .one⟩)]

def flattenedJoin : Lookup :=
  ⟨⟨"author.company", "Company", "companyId", "_id", .one⟩, "author.company", "companyId"⟩

def flattenedCompiler : FilterCompiler := ⟨Catalog.flattened, [], {}⟩

def flattenedFilter : Json :=
  .obj [("author.company", .obj [("name", .str "Acme")]), ("author", .obj [("age", .int 3)])]

theorem flattenedFilter_stages :
    (flattenedCompiler.compilePipeline "Post" flattenedFilter).result.map (·.stages) =
      .ok [.lookup flattenedJoin, .fold "author.company", .lookup authorJoin, .fold "author",
        .filter [("author.company.name", .str "Acme"), ("author.age", .int 3)]] := rfl

theorem flattenedFilter_loses_join :
    ∃ s, (flattenedCompiler.compilePipeline "Post" flattenedFilter).result = .ok s ∧
      ¬ JoinsSurvive s.stages := by
  obtain ⟨s, compiled, stages⟩ := Outcome.map_eq_ok.mp flattenedFilter_stages
  refine ⟨s, compiled, ?_⟩
  rw [stages]
  intro survive
  have again := survive [] flattenedJoin [.fold "author.company"] authorJoin [.fold "author"] _ []
    "author.company.name" rfl ⟨"company", rfl⟩
    (by simp [Predicate.reads, Predicate.memberReads]) (.inr ⟨"name", rfl⟩)
  simp at again

end DocQuery
