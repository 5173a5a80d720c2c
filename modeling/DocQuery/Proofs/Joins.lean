import DocQuery.Compile.Filter
import DocQuery.Proofs.Clauses

set_option autoImplicit false

namespace DocQuery

def Catalog.posts : Catalog where
  entries :=
    [("Post", ⟨"author", "User", "authorId", "_id", .one⟩),
      ("Post", ⟨"comments", "Comment", "_id", "postId", .many⟩),
      ("User", ⟨"company", "Company", "companyId", "_id", .one⟩)]

def commentScore : CustomCompiler where
  name := "comment score"
  compile v _ draft := do
    let joined ← draft.pipeline.lookup "comments" {}
    let joined ← joined.lookup "comments" {}
    return ⟨draft.predicate.merge "comments.score" v.subject.value, joined⟩

def Lookup.stages (join : Lookup) : List Stage :=
  if join.relation.isOne then [.lookup join, .fold join.output] else [.lookup join]

@[simp] theorem Lookup.lookup?_stages (join : Lookup) :
    join.stages.filterMap Stage.lookup? = [join] := by
  cases one : join.relation.isOne <;> simp [stages, one, Stage.lookup?]

def Lookup.kind (join : Lookup) : Relation × String := (join.relation, join.output)

namespace Staging

@[simp] theorem filter_collection (s : Staging) (p : Predicate) :
    (s.filter p).collection = s.collection := by
  unfold filter
  split <;> rfl

@[simp] theorem filter_catalog (s : Staging) (p : Predicate) :
    (s.filter p).catalog = s.catalog := by
  unfold filter
  split <;> rfl

@[simp] theorem filter_deduplicate (s : Staging) (p : Predicate) :
    (s.filter p).deduplicate = s.deduplicate := by
  unfold filter
  split <;> rfl

def matchStages (p : Predicate) : List Stage := if p.isEmpty then [] else [.filter p]

@[simp] theorem filter_stages (s : Staging) (p : Predicate) :
    (s.filter p).stages = s.stages ++ matchStages p := by
  unfold filter matchStages
  split <;> simp [append]

theorem filterMap_matchStages {α : Type} {read : Stage → Option α}
    (blind : ∀ p, read (.filter p) = none) (p : Predicate) :
    (matchStages p).filterMap read = [] := by
  unfold matchStages
  split <;> simp [blind]

@[simp] theorem lookups_matchStages (p : Predicate) :
    (matchStages p).filterMap Stage.lookup? = [] :=
  filterMap_matchStages (fun _ => rfl) p

@[simp] theorem filter_lookups (s : Staging) (p : Predicate) :
    (s.filter p).lookups = s.lookups := by
  simp [lookups]

def addJoin (s : Staging) (join : Lookup) : Staging :=
  if s.deduplicate && s.alreadyStaged join then
    { s with joinsDeduplicated := s.joinsDeduplicated + 1 }
  else s.stageJoin join

@[simp] theorem stageJoin_stages (s : Staging) (join : Lookup) :
    (s.stageJoin join).stages = s.stages ++ join.stages := rfl

@[simp] theorem stageJoin_lookups (s : Staging) (join : Lookup) :
    (s.stageJoin join).lookups = s.lookups ++ [join] := by
  simp [lookups]

@[simp] theorem addJoin_collection (s : Staging) (join : Lookup) :
    (s.addJoin join).collection = s.collection := by
  unfold addJoin
  split <;> rfl

@[simp] theorem addJoin_catalog (s : Staging) (join : Lookup) :
    (s.addJoin join).catalog = s.catalog := by
  unfold addJoin
  split <;> rfl

@[simp] theorem addJoin_deduplicate (s : Staging) (join : Lookup) :
    (s.addJoin join).deduplicate = s.deduplicate := by
  unfold addJoin
  split <;> rfl

def addJoins (s : Staging) (joins : List Lookup) : Staging := joins.foldl addJoin s

@[simp] theorem addJoins_nil (s : Staging) : s.addJoins [] = s := rfl

@[simp] theorem addJoins_cons (s : Staging) (join : Lookup) (rest : List Lookup) :
    s.addJoins (join :: rest) = (s.addJoin join).addJoins rest := rfl

def sameJoin (first second : Lookup) : Bool :=
  first.relation == second.relation && first.output == second.output

-- The joins that are staged when some already are: all of them, or with deduplication the first of
-- each kind that is not there yet.
def newJoins (deduplicate : Bool) (staged : List Lookup) : List Lookup → List Lookup
  | [] => []
  | join :: rest =>
    if deduplicate && staged.any (sameJoin · join) then newJoins deduplicate staged rest
    else join :: newJoins deduplicate (staged ++ [join]) rest

theorem any_sameJoin (staged : List Lookup) (join : Lookup) :
    staged.any (sameJoin · join) = (staged.map Lookup.kind).contains join.kind := by
  have same (other : Lookup) : sameJoin other join = (other.kind == join.kind) := rfl
  simp only [same, List.contains_eq_any_beq, List.any_map, Function.comp_def]
  congr 1
  exact funext fun other => Bool.beq_comm

theorem newJoins_subset (deduplicate : Bool) (staged joins : List Lookup) :
    ∀ join ∈ newJoins deduplicate staged joins, join ∈ joins := by
  induction joins generalizing staged with
  | nil => simp [newJoins]
  | cons first rest ih =>
    intro join inside
    unfold newJoins at inside
    split at inside
    next => exact List.mem_cons_of_mem _ (ih staged join inside)
    next =>
      rcases List.mem_cons.mp inside with rfl | later
      · exact List.mem_cons_self
      · exact List.mem_cons_of_mem _ (ih _ join later)

theorem newJoins_kinds (staged joins : List Lookup) :
    (newJoins true staged joins).map Lookup.kind =
      ((joins.map Lookup.kind).filter fun k => !(staged.map Lookup.kind).contains k).eraseDups := by
  induction joins generalizing staged with
  | nil => rfl
  | cons join rest ih =>
    rw [newJoins, Bool.true_and, any_sameJoin, List.map_cons, List.filter_cons]
    cases (staged.map Lookup.kind).contains join.kind with
    | true => simpa using ih staged
    | false =>
      have later (k : Relation × String) :
          (!((staged ++ [join]).map Lookup.kind).contains k) =
            (!k == join.kind && !(staged.map Lookup.kind).contains k) := by
        simp [Bool.and_comm, Bool.beq_eq_decide_eq]
      simp only [Bool.false_eq_true, if_false, Bool.not_false, if_true, List.map_cons,
        List.eraseDups_cons, ih, List.filter_filter, later]

theorem addJoins_stages (s : Staging) (joins : List Lookup) :
    (s.addJoins joins).stages =
      s.stages ++ (newJoins s.deduplicate s.lookups joins).flatMap Lookup.stages := by
  induction joins generalizing s with
  | nil => simp [newJoins]
  | cons join rest ih =>
    by_cases there : (s.deduplicate && s.alreadyStaged join) = true
    · have same : (s.deduplicate && s.lookups.any (sameJoin · join)) = true := there
      simp only [addJoins_cons, ih, newJoins, same, if_true, addJoin_deduplicate]
      simp [addJoin, there, lookups]
    · have same : ¬ (s.deduplicate && s.lookups.any (sameJoin · join)) = true := there
      simp only [addJoins_cons, ih, newJoins, same, addJoin_deduplicate]
      simp [addJoin, there]

@[simp] theorem addJoins_lookups (s : Staging) (joins : List Lookup) :
    (s.addJoins joins).lookups = s.lookups ++ newJoins s.deduplicate s.lookups joins := by
  simp [lookups, addJoins_stages, List.filterMap_flatMap]

def joinsAsked (s : Staging) : Nat := s.joinsStaged + s.joinsDeduplicated

@[simp] theorem filter_joinsAsked (s : Staging) (p : Predicate) :
    (s.filter p).joinsAsked = s.joinsAsked := by
  unfold filter
  split <;> rfl

theorem addJoin_joinsAsked (s : Staging) (join : Lookup) :
    (s.addJoin join).joinsAsked = s.joinsAsked + 1 := by
  unfold addJoin joinsAsked stageJoin append
  split
  · rfl
  · simp only
    omega

@[simp] theorem addJoins_joinsAsked (s : Staging) (joins : List Lookup) :
    (s.addJoins joins).joinsAsked = s.joinsAsked + joins.length := by
  induction joins generalizing s with
  | nil => rfl
  | cons join rest ih =>
    rw [addJoins_cons, ih, addJoin_joinsAsked, List.length_cons]
    omega

theorem newJoins_eq_nil (deduplicate : Bool) (joins : List Lookup) :
    newJoins deduplicate [] joins = [] ↔ joins = [] := by
  cases joins <;> simp [newJoins]

theorem lookup_result (s : Staging) (name : String) (parent : Option JoinParent) :
    (s.lookup name { parent }).result =
      match s.catalog.relation? ((parent.map (·.collection)).getD s.collection) name with
      | some r => .ok (s.addJoin (joinFor r { parent }))
      | none =>
        .error (.unknownRelation ((parent.map (·.collection)).getD s.collection) name) := by
  simp only [lookup, lookupOn, Option.getD_none]
  cases s.catalog.relation? ((parent.map (·.collection)).getD s.collection) name with
  | none => rfl
  | some r =>
    by_cases there : (s.deduplicate && s.alreadyStaged (joinFor r { parent })) = true <;>
      simp [addJoin, there, Left.result]

end Staging

namespace Compile

open Staging

structure JoinCall where
  relation : String
  parent : Option JoinParent

def joinParent (collection path : String) : Option JoinParent :=
  if path = "" then none else some ⟨collection, path⟩

theorem joinOptions_eq (collection path : String) :
    joinOptions collection path = { parent := joinParent collection path } := by
  unfold joinOptions joinParent
  split <;> rfl

namespace JoinCall

def owner (call : JoinCall) (s : Staging) : String :=
  (call.parent.map (·.collection)).getD s.collection

def resolve (call : JoinCall) (s : Staging) : Except QueryError Lookup :=
  match s.catalog.relation? (call.owner s) call.relation with
  | some r => .ok (joinFor r { parent := call.parent })
  | none => .error (.catalogInconsistent (call.owner s) call.relation)

theorem resolve_congr (call : JoinCall) {s t : Staging} (catalog : s.catalog = t.catalog)
    (collection : s.collection = t.collection) : call.resolve s = call.resolve t := by
  simp [resolve, owner, catalog, collection]

end JoinCall

mutual

def joinCalls (path : String) : Node → List JoinCall
  | .field .. => []
  | .relation i r children =>
    if !(Node.relation i r children).hasEffect || i.compiler.isSome then []
    else ⟨r.name, joinParent i.collection path⟩ :: allJoinCalls (outputBelow path r.name) children
  | .group i c branches =>
    if !(Node.group i c branches).hasEffect || i.compiler.isSome then []
    else branchJoinCalls path branches

def allJoinCalls (path : String) : List Node → List JoinCall
  | [] => []
  | n :: rest => joinCalls path n ++ allJoinCalls path rest

def branchJoinCalls (path : String) : List (List Node) → List JoinCall
  | [] => []
  | branch :: rest => allJoinCalls path branch ++ branchJoinCalls path rest

end

def performCall (s : Staging) (call : JoinCall) : Traced Staging :=
  (s.lookup call.relation { parent := call.parent }).recover catalogDisagreement

theorem joinNodes_calls_of {ns : List Node}
    (each : ∀ n ∈ ns, ∀ path s, joinNode path n s = (joinCalls path n).foldlM performCall s)
    (path : String) (s : Staging) :
    joinNodes path ns s = (allJoinCalls path ns).foldlM performCall s := by
  induction ns generalizing s with
  | nil => rfl
  | cons n rest ih =>
    have others := ih (fun m member => each m (by simp [member]))
    simp [joinNodes, allJoinCalls, List.foldlM_append, each n (by simp), others]

theorem joinBranches_calls_of {branches : List (List Node)}
    (each : ∀ branch ∈ branches, ∀ n ∈ branch, ∀ path s,
      joinNode path n s = (joinCalls path n).foldlM performCall s)
    (path : String) (s : Staging) :
    joinBranches path branches s = (branchJoinCalls path branches).foldlM performCall s := by
  induction branches generalizing s with
  | nil => rfl
  | cons branch rest ih =>
    have first := joinNodes_calls_of (each branch (by simp)) path
    have others := ih (fun b member => each b (by simp [member]))
    simp [joinBranches, branchJoinCalls, List.foldlM_append, first, others]

theorem joinNode_calls (n : Node) (path : String) (s : Staging) :
    joinNode path n s = (joinCalls path n).foldlM performCall s := by
  induction n generalizing path s with
  | field i name operator => rfl
  | relation i r children ih =>
    have inner := joinNodes_calls_of ih
    by_cases skipped :
        (!(Node.relation i r children).hasEffect || i.compiler.isSome) = true
    · simp [joinNode, joinCalls, skipped]
    · simp [joinNode, joinCalls, skipped, inner, performCall, joinOptions_eq]
  | group i connective branches ih =>
    have inner := joinBranches_calls_of ih
    by_cases skipped :
        (!(Node.group i connective branches).hasEffect || i.compiler.isSome) = true
    · simp [joinNode, joinCalls, skipped]
    · simp [joinNode, joinCalls, skipped, inner]

theorem joinNodes_calls (ns : List Node) (path : String) (s : Staging) :
    joinNodes path ns s = (allJoinCalls path ns).foldlM performCall s :=
  joinNodes_calls_of (fun n _ => joinNode_calls n) path s

theorem performCall_result (s : Staging) (call : JoinCall) :
    (performCall s call).result = (call.resolve s).map s.addJoin := by
  have staged := lookup_result s call.relation call.parent
  unfold performCall Traced.recover JoinCall.resolve JoinCall.owner
  cases found : s.catalog.relation? ((call.parent.map (·.collection)).getD s.collection)
      call.relation with
  | some r => simp [staged, found]
  | none => simp [staged, found, catalogDisagreement]

theorem performCalls_result (s : Staging) (calls : List JoinCall) :
    (calls.foldlM performCall s).result =
      (calls.mapM fun call : JoinCall => call.resolve s).map s.addJoins := by
  induction calls generalizing s with
  | nil => rfl
  | cons call rest ih =>
    simp only [List.foldlM_cons, Traced.result_bind, performCall_result, List.mapM_cons]
    cases call.resolve s with
    | error e => rfl
    | ok join =>
      have unmoved : (fun call : JoinCall => call.resolve (s.addJoin join)) =
          fun call => call.resolve s :=
        funext fun call => call.resolve_congr (by simp) (by simp)
      simp only [Outcome.map_ok, Outcome.ok_bind, ih, unmoved]
      cases rest.mapM fun call : JoinCall => call.resolve s <;> simp

theorem matchStage_result {ns : List Node} (standard : ∀ m ∈ Node.withinAll ns, m.Standard)
    (s : Staging) : (matchStage ns s).result = (plainPredicate "" ns).map s.filter := by
  simp only [matchStage, predicate_exact standard]
  cases plainPredicate "" ns <;> simp

theorem withinAll_filter {p : Node → Prop} {ns : List Node}
    (all : ∀ m ∈ Node.withinAll ns, p m) (keep : Node → Bool) :
    ∀ m ∈ Node.withinAll (ns.filter keep), p m := by
  rw [Node.forall_withinAll] at all ⊢
  intro n kept
  exact all n (List.mem_filter.mp kept).1

def plainNodes (ns : List Node) : List Node := ns.filter fun n => !n.embedsRelation

def joiningNodes (ns : List Node) : List Node := ns.filter Node.embedsRelation

theorem plainNodes_eq_self {ns : List Node} (plain : Node.anyEmbeds ns = false) :
    plainNodes ns = ns := by
  rw [plainNodes, List.filter_eq_self]
  simpa [Node.anyEmbeds_eq] using plain

theorem joiningNodes_eq_nil {ns : List Node} (plain : Node.anyEmbeds ns = false) :
    joiningNodes ns = [] := by
  rw [joiningNodes, List.filter_eq_nil_iff]
  simpa [Node.anyEmbeds_eq] using plain

theorem stage_of_plain {ns : List Node} (plain : Node.anyEmbeds ns = false) (s : Staging) :
    stage ns s = matchStage ns s := by
  have nothing (t : Staging) : matchStage [] t = pure t := rfl
  have plainAll := plainNodes_eq_self plain
  have joiningNone := joiningNodes_eq_nil plain
  unfold plainNodes at plainAll
  unfold joiningNodes at joiningNone
  simp [stage, plainAll, joiningNone, joinNodes, nothing]

theorem stage_result {ns : List Node} (standard : ∀ m ∈ Node.withinAll ns, m.Standard)
    (s : Staging) :
    (stage ns s).result = do
      let before ← plainPredicate "" (plainNodes ns)
      let joins ← (allJoinCalls "" (joiningNodes ns)).mapM fun call : JoinCall => call.resolve s
      let after ← plainPredicate "" (joiningNodes ns)
      return ((s.filter before).addJoins joins).filter after := by
  have plain := withinAll_filter standard fun n => !n.embedsRelation
  have joining := withinAll_filter standard Node.embedsRelation
  simp only [stage, Traced.result_bind, matchStage_result plain, matchStage_result joining,
    joinNodes_calls, performCalls_result, plainNodes, joiningNodes]
  cases plainPredicate "" (ns.filter fun n => !n.embedsRelation) with
  | error e => rfl
  | ok before =>
    have unmoved : (fun call : JoinCall => call.resolve (s.filter before)) =
        fun call => call.resolve s :=
      funext fun call => call.resolve_congr (by simp) (by simp)
    simp only [Outcome.map_ok, Outcome.ok_bind, unmoved]
    cases (allJoinCalls "" (ns.filter Node.embedsRelation)).mapM fun call : JoinCall => call.resolve s with
    | error e => rfl
    | ok joins => cases plainPredicate "" (ns.filter Node.embedsRelation) <;> rfl

end Compile

namespace FilterCompiler

theorem compileNodes_result (c : FilterCompiler) (collection : String) {nodes : List Node}
    (standard : ∀ m ∈ Node.withinAll nodes, m.Standard) :
    (c.compileNodes collection nodes).result =
      if Node.anyEmbeds nodes then
        (Compile.stage nodes (c.newPipeline collection)).result.map .staged
      else (Compile.plainPredicate "" nodes).map .predicate := by
  unfold compileNodes
  split
  next => simp
  next =>
    simp only [Compile.predicate_exact standard]
    cases Compile.plainPredicate "" nodes with
    | error e => rfl
    | ok p => simp [newPipeline, Staging.isEmpty]

def toStaging (c : FilterCompiler) (collection : String) : CompiledFilter → Staging
  | .staged s => s
  | .predicate p => (c.newPipeline collection).filter p

theorem compilePipeline_eq (c : FilterCompiler) (collection : String) (filter : Json) :
    c.compilePipeline collection filter = c.toStaging collection <$> c.compile collection filter := by
  rw [compilePipeline, ← bind_pure_comp]
  congr 1
  funext compiled
  cases compiled <;> rfl

theorem compilePipeline_result (c : FilterCompiler) (collection : String) (filter : Json) :
    (c.compilePipeline collection filter).result =
      (c.compile collection filter).result.map (c.toStaging collection) := by
  rw [compilePipeline_eq, Traced.result_fmap]

theorem compilePipeline_stage (c : FilterCompiler) {collection : String} {filter : Json}
    (standard : ∀ nodes, (c.parse collection filter).result = .ok nodes →
      ∀ m ∈ Node.withinAll nodes, m.Standard) :
    (c.compilePipeline collection filter).result =
      (c.parse collection filter).result >>= fun nodes =>
        (Compile.stage nodes (c.newPipeline collection)).result := by
  rw [compilePipeline_result, compile, Traced.result_bind]
  cases parsed : (c.parse collection filter).result with
  | error e => rfl
  | ok nodes =>
    have own := standard nodes parsed
    rw [Outcome.ok_bind, Outcome.ok_bind, c.compileNodes_result collection own]
    split
    next =>
      cases (Compile.stage nodes (c.newPipeline collection)).result <;> rfl
    next plain =>
      rw [Compile.stage_of_plain (by simpa using plain), Compile.matchStage_result own]
      cases Compile.plainPredicate "" nodes <;> rfl

end FilterCompiler

end DocQuery
