import DocQuery.Proofs.JoinStructure

set_option autoImplicit false

namespace DocQuery

namespace Predicate

mutual

def reads : List (String × Json) → List String
  | [] => []
  | (key, value) :: rest => memberReads key value ++ reads rest

def memberReads (key : String) : Json → List String
  | .arr branches =>
    match Connective.ofNative? key with
    | some _ => branchesRead branches
    | none => [key]
  | _ => [key]

def branchesRead : List Json → List String
  | [] => []
  | .obj members :: rest => reads members ++ branchesRead rest
  | _ :: rest => branchesRead rest

end

theorem reads_append (first second : Predicate) :
    reads (first ++ second) = reads first ++ reads second := by
  induction first with
  | nil => rfl
  | cons member rest ih =>
    obtain ⟨key, value⟩ := member
    simp [reads, ih]

theorem reads_single (key : String) (value : Json) :
    reads [(key, value)] = memberReads key value := by
  simp [reads]

theorem branchesRead_append (first second : List Json) :
    branchesRead (first ++ second) = branchesRead first ++ branchesRead second := by
  induction first with
  | nil => rfl
  | cons branch rest ih => cases branch <;> simp [branchesRead, ih]

theorem memberReads_and (items : List Json) :
    memberReads "$and" (.arr items) = branchesRead items := rfl

theorem memberReads_object (key : String) (fields : Fields) :
    memberReads key (.obj fields) = [key] := by
  simp [memberReads]

theorem memberReads_plain {key : String} {value : Json}
    (plain : ¬ ((Connective.ofNative? key).isSome ∧ ∃ items, value = .arr items)) :
    memberReads key value = [key] := by
  cases value with
  | arr items =>
    have field : Connective.ofNative? key = none := by
      cases known : Connective.ofNative? key with
      | none => rfl
      | some connective => exact absurd ⟨by simp [known], items, rfl⟩ plain
    simp [memberReads, field]
  | _ => simp [memberReads]

theorem Merged.reads {key : String} {value : Json} {p q : Predicate} (merged : Merged key value p q)
    {path : String} (read : path ∈ Predicate.reads q) :
    path ∈ Predicate.reads p ∨ path ∈ memberReads key value := by
  cases merged with
  | added fresh => simpa [reads_append, reads_single] using read
  | joined =>
    left
    simpa [reads_append, Predicate.reads, memberReads_object] using read
  | extended asked conjunction =>
    subst asked conjunction
    simp only [reads_append, Predicate.reads, memberReads_and, branchesRead_append,
      List.mem_append] at read ⊢
    tauto
  | conjoined =>
    simp only [reads_append, Predicate.reads, memberReads_and, branchesRead_append, branchesRead,
      List.mem_append, List.not_mem_nil, or_false] at read ⊢
    tauto
  | opened fresh =>
    simp only [reads_append, Predicate.reads, memberReads_and, branchesRead, List.mem_append,
      List.not_mem_nil, or_false] at read ⊢
    exact read
  | displaced unlisted =>
    simp only [reads_append, Predicate.reads, memberReads_and, branchesRead, List.mem_append,
      List.not_mem_nil, or_false] at read ⊢
    tauto

theorem mergeAll_reads {clauses : Fields} {p : Predicate} {path : String}
    (read : path ∈ reads (p.mergeAll clauses)) : path ∈ reads p ∨ path ∈ reads clauses := by
  induction clauses generalizing p with
  | nil => exact .inl read
  | cons clause rest ih =>
    obtain ⟨key, value⟩ := clause
    simp only [reads, List.mem_append]
    rcases ih read with merged | later
    · rcases (merge_merged p key value).reads merged with old | new
      · exact .inl old
      · exact .inr (.inl new)
    · exact .inr (.inr later)

end Predicate

namespace Compile

open Node

def ReadBy (path : String) (located : List Relation × Node) : Prop :=
  ∃ i name operator clause, located.2 = .field i name operator ∧ i.suppressed = false ∧
    fieldClause name operator i.value = .ok clause ∧
      path ∈ Predicate.memberReads (fieldPath located.1 name) clause

def NodeReads (n : Node) : Prop :=
  ∀ chain cs, clauses (chainScope chain) n = .ok cs → ∀ path ∈ Predicate.reads cs,
    ∃ located ∈ reached chain n, ReadBy path located

theorem allClauses_reads {ns : List Node} (each : ∀ n ∈ ns, NodeReads n) {chain : List Relation}
    {cs : Fields} (compiled : allClauses (chainScope chain) ns = .ok cs) {path : String}
    (read : path ∈ Predicate.reads cs) : ∃ located ∈ reachedAll chain ns, ReadBy path located := by
  induction ns generalizing cs with
  | nil =>
    cases compiled
    simp [Predicate.reads] at read
  | cons n rest ih =>
    simp only [allClauses, Outcome.bind_eq_ok] at compiled
    obtain ⟨first, own, others, more, joined⟩ := compiled
    cases joined
    obtain ⟨here, later⟩ := List.forall_mem_cons.mp each
    rw [Predicate.reads_append] at read
    rcases List.mem_append.mp read with inFirst | inRest
    · obtain ⟨located, inside, reads⟩ := here chain first own path inFirst
      exact ⟨located, List.mem_append_left _ inside, reads⟩
    · obtain ⟨located, inside, reads⟩ := ih later more inRest
      exact ⟨located, List.mem_append_right _ inside, reads⟩

theorem branchPredicates_reads {branches : List (List Node)}
    (each : ∀ branch ∈ branches, ∀ n ∈ branch, NodeReads n) {chain : List Relation}
    {items : List Json} (compiled : branchPredicates (chainScope chain) branches = .ok items)
    {path : String} (read : path ∈ Predicate.branchesRead items) :
    ∃ located ∈ reachedBranches chain branches, ReadBy path located := by
  induction branches generalizing items with
  | nil =>
    cases compiled
    simp [Predicate.branchesRead] at read
  | cons branch rest ih =>
    simp only [branchPredicates, Outcome.bind_eq_ok] at compiled
    obtain ⟨cs, own, others, more, joined⟩ := compiled
    obtain ⟨here, later⟩ := List.forall_mem_cons.mp each
    have readRest (inRest : path ∈ Predicate.branchesRead others) :
        ∃ located ∈ reachedBranches chain (branch :: rest), ReadBy path located := by
      obtain ⟨located, inside, reads⟩ := ih later more inRest
      exact ⟨located, List.mem_append_right _ inside, reads⟩
    simp only [Outcome.pure_eq_ok, Except.ok.injEq] at joined
    subst joined
    split at read
    next => exact readRest read
    next =>
      rcases List.mem_append.mp read with inBranch | inRest
      · have merged := (Predicate.mergeAll_reads inBranch).resolve_left (by simp [Predicate.reads])
        obtain ⟨located, inside, reads⟩ := allClauses_reads here own merged
        exact ⟨located, List.mem_append_left _ inside, reads⟩
      · exact readRest inRest

theorem nodeReads_of_active {n : Node} (usual : n.suppressed = false → NodeReads n) :
    NodeReads n := by
  intro chain cs compiled path read
  cases suppressed : n.suppressed with
  | true =>
    rw [clauses_of_suppressed suppressed] at compiled
    cases compiled
    simp [Predicate.reads] at read
  | false => exact usual suppressed chain cs compiled path read

theorem clauses_reads (n : Node) : NodeReads n := by
  induction n with
  | field i name operator =>
    refine nodeReads_of_active ?_
    intro active chain cs compiled path read
    rw [suppressed_field] at active
    simp only [clauses, active, Bool.false_eq_true, if_false, Outcome.bind_eq_ok] at compiled
    obtain ⟨clause, built, made⟩ := compiled
    cases made
    rw [Predicate.reads_single, chainScope_path] at read
    exact ⟨_, List.mem_singleton_self _, i, name, operator, clause, rfl, active, built, read⟩
  | relation i r children ih =>
    refine nodeReads_of_active ?_
    intro active chain cs compiled path read
    rw [suppressed_relation] at active
    simp only [clauses, active, Bool.false_eq_true, if_false, ← chainScope_snoc,
      Outcome.bind_eq_ok] at compiled
    obtain ⟨inner, own, made⟩ := compiled
    cases made
    have merged := (Predicate.mergeAll_reads read).resolve_left (by simp [Predicate.reads])
    obtain ⟨located, inside, reads⟩ := allClauses_reads ih own merged
    exact ⟨located, mem_reached_relation.mpr (.inr ⟨active, inside⟩), reads⟩
  | group i connective branches ih =>
    refine nodeReads_of_active ?_
    intro active chain cs compiled path read
    rw [suppressed_group] at active
    simp only [clauses, active, Bool.false_eq_true, if_false, Outcome.bind_eq_ok] at compiled
    obtain ⟨items, own, made⟩ := compiled
    split at made
    next =>
      cases made
      simp [Predicate.reads] at read
    next =>
      cases made
      rw [Predicate.reads_single] at read
      simp only [Predicate.memberReads, Connective.ofNative?_native] at read
      obtain ⟨located, inside, reads⟩ := branchPredicates_reads ih own read
      exact ⟨located, mem_reached_group.mpr (.inr ⟨active, inside⟩), reads⟩

theorem predicate_reads {ns : List Node} (standard : ∀ m ∈ withinAll ns, m.Standard) {s : Staging}
    {p : Predicate} (compiled : (predicate ns "" s).result = .ok ⟨p, s⟩) {path : String}
    (read : path ∈ Predicate.reads p) : ∃ located ∈ reachedAll [] ns, ReadBy path located := by
  rw [predicate_exact standard, Traced.result_lift, plainPredicate] at compiled
  obtain ⟨q, merged, made⟩ := Outcome.map_eq_ok.mp compiled
  obtain ⟨cs, found, rfl⟩ := Outcome.map_eq_ok.mp merged
  cases made
  have atRoot : allClauses (chainScope []) ns = .ok cs := found
  have inClauses := (Predicate.mergeAll_reads read).resolve_left (by simp [Predicate.reads])
  exact allClauses_reads (fun n _ => clauses_reads n) atRoot inClauses

end Compile

namespace Staging

theorem mem_matchStages {stage : Stage} {p : Predicate} (inside : stage ∈ matchStages p) :
    stage = .filter p := by
  unfold matchStages at inside
  split at inside
  next => simp at inside
  next => exact List.mem_singleton.mp inside

theorem filter_not_mem_joins (p : Predicate) (joins : List Lookup) :
    Stage.filter p ∉ joins.flatMap Lookup.stages := by
  intro inside
  obtain ⟨join, -, listed⟩ := List.mem_flatMap.mp inside
  unfold Lookup.stages at listed
  split at listed <;> simp at listed

theorem mem_lookups {stages : List Stage} {join : Lookup} :
    join ∈ stages.filterMap Stage.lookup? ↔ .lookup join ∈ stages := by
  rw [List.mem_filterMap]
  constructor
  · rintro ⟨stage, inside, own⟩
    cases stage <;> simp [Stage.lookup?] at own
    rwa [own] at inside
  · intro inside
    exact ⟨_, inside, rfl⟩

theorem lookups_joins (joins : List Lookup) :
    (joins.flatMap Lookup.stages).filterMap Stage.lookup? = joins := by
  simp [List.filterMap_flatMap]

theorem lookup_mem_joins {joins : List Lookup} {join : Lookup}
    (inside : .lookup join ∈ joins.flatMap Lookup.stages) : join ∈ joins := by
  rwa [← mem_lookups, lookups_joins] at inside

variable {before after p : Predicate} {joins : List Lookup}

theorem suffix_of_match {stage : Stage} {rest tail : List Stage}
    (suffix : stage :: rest <:+ matchStages before ++ tail) :
    stage = .filter before ∨ stage :: rest <:+ tail := by
  unfold matchStages at suffix
  split at suffix
  next => exact .inr suffix
  next =>
    rcases List.suffix_cons_iff.mp suffix with whole | shorter
    · exact .inl (List.cons.inj whole).1
    · exact .inr shorter

theorem lookups_after_match {rest : List Stage}
    (suffix : .filter p :: rest <:+ joins.flatMap Lookup.stages ++ matchStages after) :
    (.filter p :: rest).filterMap Stage.lookup? = [] := by
  have joinless (front : List Stage) (last : matchStages after = front ++ .filter p :: rest) :
      (.filter p :: rest).filterMap Stage.lookup? = [] := by
    have none := lookups_matchStages after
    rw [last, List.filterMap_append, List.append_eq_nil_iff] at none
    exact none.2
  obtain ⟨front, split⟩ := suffix
  rcases List.append_eq_append_iff.mp split with ⟨more, joining, last⟩ | ⟨more, -, last⟩
  · cases more with
    | nil => exact joinless [] last.symm
    | cons stage others =>
      obtain ⟨same, -⟩ := List.cons.inj last
      have inside : Stage.filter p ∈ joins.flatMap Lookup.stages := by simp [joining, same]
      exact absurd inside (filter_not_mem_joins p joins)
  · exact joinless _ last

theorem match_before_join {earlier later : List Stage} {join : Lookup}
    (split : matchStages before ++ joins.flatMap Lookup.stages ++ matchStages after =
      earlier ++ .filter p :: later)
    (ahead : .lookup join ∈ later) : p = before := by
  rw [List.append_assoc] at split
  rcases suffix_of_match ⟨earlier, split.symm⟩ with same | late
  · exact Stage.filter.inj same
  · have joined := mem_lookups.mpr (List.mem_cons_of_mem (.filter p) ahead)
    rw [lookups_after_match late] at joined
    exact absurd joined List.not_mem_nil

end Staging

namespace Compile.JoinStructure

variable {nodes : List Node} {stages : List Stage} {before after : Predicate} {joins : List Lookup}

theorem needed (made : JoinStructure nodes stages before after joins) {join : Lookup}
    (joined : .lookup join ∈ stages) : join ∈ Node.allChainJoins [] nodes := by
  rw [made.stages, List.mem_append, List.mem_append] at joined
  rcases joined with (first | joining) | last
  · cases Staging.mem_matchStages first
  · exact made.along join (Staging.lookup_mem_joins joining)
  · cases Staging.mem_matchStages last

theorem early_field (made : JoinStructure nodes stages before after joins)
    (standard : ∀ m ∈ Node.withinAll nodes, m.Standard) {earlier later : List Stage} {p : Predicate}
    (split : stages = earlier ++ .filter p :: later) {join : Lookup} (ahead : .lookup join ∈ later)
    {path : String} (read : path ∈ Predicate.reads p) :
    ∃ i name operator clause,
      ([], Node.field i name operator) ∈ Node.reachedAll [] (unjoined nodes) ∧
      i.suppressed = false ∧ fieldClause name operator i.value = .ok clause ∧
      path ∈ Predicate.memberReads name clause := by
  obtain rfl : p = before := Staging.match_before_join (made.stages ▸ split) ahead
  have plain : ∀ m ∈ Node.withinAll (unjoined nodes), m.Standard := withinAll_filter standard _
  obtain ⟨⟨chain, n⟩, inside, i, name, operator, clause, same, active, built, reads⟩ :=
    predicate_reads plain (made.early { collection := "", catalog := .empty }) read
  subst same
  obtain rfl := made.outside chain i name operator inside active
  rw [fieldPath, List.map_nil, List.nil_append, Text.joinPath_single] at reads
  exact ⟨i, name, operator, clause, inside, active, built, reads⟩

end Compile.JoinStructure

def Lookup.Writes (join : Lookup) (path : String) : Prop :=
  path = join.output ∨ ∃ rest, path = join.output ++ "." ++ rest

def ReadsInOrder (stages : List Stage) : Prop :=
  ∀ earlier p later path join, stages = earlier ++ .filter p :: later →
    path ∈ Predicate.reads p → .lookup join ∈ stages → join.Writes path → .lookup join ∈ earlier

open Node in
theorem Node.Declared.unwritten {catalog : Catalog} {collection : String} {nodes : List Node}
    (declared : ∀ n ∈ nodes, Declared catalog (Fresh catalog) collection n) {i : Info}
    {name : String} {operator : Option Operator}
    (inside : ([], Node.field i name operator) ∈ reachedAll [] nodes) (undotted : '.' ∉ name.toList)
    {join : Lookup} (needed : join ∈ allChainJoins [] nodes) : ¬ join.Writes name := by
  have onCollection {m : Node} (reaches : ([], m) ∈ reachedAll [] nodes) :
      Declared catalog (Fresh catalog) collection m := by
    obtain ⟨n, member, within⟩ := mem_reachedAll.mp reaches
    exact (declared n member).reached within
  obtain ⟨located, reaches, some⟩ := List.mem_filterMap.mp needed
  obtain ⟨j, r, children, same, -, rfl⟩ := join?_some some
  rintro (written | ⟨rest, below⟩)
  · by_cases root : located.1 = []
    · rw [same, root] at reaches
      have unrelated := (onCollection inside).self.2.2 name rfl
      have named : name = r.name := by simpa [Lookup.along, root, Text.joinPath_single] using written
      cases onCollection reaches with
      | relation self filled known below => simp [Catalog.isRelation, named, known] at unrelated
    · refine undotted ?_
      rw [written, Lookup.along, Text.joinPath_snoc (by simpa using root)]
      simp
  · refine undotted ?_
    rw [below]
    simp

def dottedFilter : Json :=
  .obj [("author.name", .str "Ann"), ("author", .obj [("age", .int 3)])]

def unvisitedCompiler : FilterCompiler := ⟨Catalog.posts, [], {}⟩

def authorJoin : Lookup := ⟨⟨"author", "User", "authorId", "_id", .one⟩, "author", "authorId"⟩

theorem dottedFilter_stages :
    (unvisitedCompiler.compilePipeline "Post" dottedFilter).result.map (·.stages) =
      .ok [.filter [("author.name", .str "Ann")], .lookup authorJoin, .fold "author",
        .filter [("author.age", .int 3)]] := rfl

theorem dottedFilter_not_in_order :
    ∃ s, (unvisitedCompiler.compilePipeline "Post" dottedFilter).result = .ok s ∧
      ¬ ReadsInOrder s.stages := by
  obtain ⟨s, compiled, stages⟩ := Outcome.map_eq_ok.mp dottedFilter_stages
  refine ⟨s, compiled, ?_⟩
  rw [stages]
  intro ordered
  have early := ordered [] [("author.name", .str "Ann")] _ "author.name" authorJoin rfl
    (by simp [Predicate.reads, Predicate.memberReads]) (by simp) (.inr ⟨"name", rfl⟩)
  simp at early

/-- Without visitors, a match reads what a later join writes only for a field outside every relation
whose name has a dot in it or is a native connective. -/
theorem FilterCompiler.early_reads {c : FilterCompiler} (unvisited : c.visitors = [])
    (deduplicate : c.config.deduplicateJoins = true) {collection : String} {filter : Json}
    {s : Staging} (compiled : (c.compilePipeline collection filter).result = .ok s)
    {earlier later : List Stage} {p : Predicate} (split : s.stages = earlier ++ .filter p :: later)
    {path : String} (read : path ∈ Predicate.reads p) {join : Lookup}
    (joined : .lookup join ∈ s.stages) (writes : join.Writes path) :
    .lookup join ∈ earlier ∨ ∃ nodes i name operator clause,
      (c.parse collection filter).result = .ok nodes ∧
      ([], Node.field i name operator) ∈ Node.reachedAll [] (Compile.unjoined nodes) ∧
      i.suppressed = false ∧ Compile.fieldClause name operator i.value = .ok clause ∧
      path ∈ Predicate.memberReads name clause ∧
      ('.' ∈ name.toList ∨ (Connective.ofNative? name).isSome ∧ ∃ items, clause = .arr items) := by
  rw [c.compilePipeline_stage fun _ parsed => c.parse_standard unvisited parsed] at compiled
  obtain ⟨nodes, parsed, staged⟩ := Outcome.bind_eq_ok.mp compiled
  have declared := c.parse_fresh unvisited parsed
  have plain := c.parse_standard unvisited parsed
  obtain ⟨before, after, joins, made⟩ := Compile.stage_structure (s := c.newPipeline collection)
    (fun n member => (declared n member).mono fun _ _ fresh => fresh.1) plain rfl deduplicate staged
  by_cases inOrder : Stage.lookup join ∈ earlier
  · exact .inl inOrder
  right
  have ahead : Stage.lookup join ∈ later := by
    rw [split] at joined
    simpa [inOrder] using joined
  obtain ⟨i, name, operator, clause, inside, active, built, reads⟩ :=
    made.early_field plain split ahead read
  refine ⟨nodes, i, name, operator, clause, parsed, inside, active, built, reads, ?_⟩
  by_cases raw : (Connective.ofNative? name).isSome ∧ ∃ items, clause = .arr items
  · exact .inr raw
  left
  by_contra undotted
  rw [Predicate.memberReads_plain raw, List.mem_singleton] at reads
  subst reads
  obtain ⟨n, member, within⟩ := Node.mem_reachedAll.mp inside
  have whole := Node.mem_reachedAll.mpr ⟨n, (List.mem_filter.mp member).1, within⟩
  exact Node.Declared.unwritten declared whole undotted (made.needed joined) writes

theorem dottedFilter_early_reads :
    ∃ s earlier, (unvisitedCompiler.compilePipeline "Post" dottedFilter).result = .ok s ∧
      s.stages = earlier ++ .filter [("author.age", .int 3)] :: [] ∧
      "author.age" ∈ Predicate.reads [("author.age", .int 3)] ∧
      .lookup authorJoin ∈ s.stages ∧ authorJoin.Writes "author.age" ∧
      (.lookup authorJoin ∈ earlier ∨ ∃ nodes i name operator clause,
        (unvisitedCompiler.parse "Post" dottedFilter).result = .ok nodes ∧
        ([], Node.field i name operator) ∈ Node.reachedAll [] (Compile.unjoined nodes) ∧
        i.suppressed = false ∧ Compile.fieldClause name operator i.value = .ok clause ∧
        "author.age" ∈ Predicate.memberReads name clause ∧
        ('.' ∈ name.toList ∨
          (Connective.ofNative? name).isSome ∧ ∃ items, clause = .arr items)) := by
  obtain ⟨s, compiled, stages⟩ := Outcome.map_eq_ok.mp dottedFilter_stages
  have split : s.stages = [.filter [("author.name", .str "Ann")], .lookup authorJoin,
      .fold "author"] ++ .filter [("author.age", .int 3)] :: [] := stages
  have read : "author.age" ∈ Predicate.reads [("author.age", .int 3)] := by
    simp [Predicate.reads, Predicate.memberReads, Json.int]
  have joined : .lookup authorJoin ∈ s.stages := by simp [stages]
  have writes : authorJoin.Writes "author.age" := .inr ⟨"age", rfl⟩
  exact ⟨s, _, compiled, split, read, joined, writes,
    FilterCompiler.early_reads rfl rfl compiled split read joined writes⟩

end DocQuery
