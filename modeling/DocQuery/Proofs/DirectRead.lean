import DocQuery.CommandLine.Request
import DocQuery.Proofs.Building
import DocQuery.Proofs.Meaning

set_option autoImplicit false

namespace DocQuery

open Predicate

theorem Predicate.Conjunctive.mergeAll {p : Predicate} {clauses : Fields}
    (conjunctive : Conjunctive p) (added : Conjunctive clauses) :
    Conjunctive (p.mergeAll clauses) := by
  refine mergeAll_induct (motive := Conjunctive) ?_ conjunctive
  intro key value member p q merged standing
  refine standing.merged merged ?_
  rintro rfl
  exact added value member

theorem Predicate.conjunctive_nil : Conjunctive [] := by simp [Conjunctive]

def NodeCompiler.KeepsConjuncts (c : NodeCompiler) : Prop :=
  ∀ scope draft done, Conjunctive draft.predicate →
    (c.run scope draft).result = .ok done → Conjunctive done.predicate

def Node.KeepsConjuncts (n : Node) : Prop :=
  (∀ name, n.fieldName? = some name → isOperatorKey name = false) ∧
    n.Runs NodeCompiler.KeepsConjuncts

namespace Compile

def NodeConjunctive (n : Node) : Prop :=
  ∀ scope draft done, IsScope scope → Conjunctive draft.predicate →
    (node scope n draft).result = .ok done → Conjunctive done.predicate

theorem nodes_conjunctive {ns : List Node} (each : ∀ n ∈ ns, NodeConjunctive n) {scope : String}
    (level : IsScope scope) {draft done : Draft} (conjunctive : Conjunctive draft.predicate)
    (compiled : (nodes scope ns draft).result = .ok done) : Conjunctive done.predicate := by
  induction ns generalizing draft with
  | nil =>
    cases compiled
    exact conjunctive
  | cons n rest ih =>
    simp only [nodes, Traced.result_bind, Outcome.bind_eq_ok] at compiled
    obtain ⟨next, first, others⟩ := compiled
    have kept := each n (by simp) scope draft next level conjunctive first
    exact ih (fun m member => each m (by simp [member])) kept others

theorem nodeConjunctive_of_standard {n : Node}
    (custom : n.Runs NodeCompiler.KeepsConjuncts)
    (usual : n.suppressed = false → n.Standard → NodeConjunctive n) : NodeConjunctive n := by
  intro scope draft done level conjunctive compiled
  cases suppressed : n.suppressed with
  | true =>
    rw [node_of_suppressed suppressed] at compiled
    cases compiled
    exact conjunctive
  | false =>
    cases own : n.info.compiler with
    | some c =>
      rw [node_of_compiler suppressed own] at compiled
      exact custom _ (Node.compiler?_of_some own) scope draft done conjunctive compiled
    | none => exact usual suppressed own scope draft done level conjunctive compiled

theorem node_conjunctive (n : Node) (keeps : ∀ m ∈ n.within, m.KeepsConjuncts) :
    NodeConjunctive n := by
  have own := keeps n (Node.mem_within_self n)
  induction n with
  | field i name operator =>
    refine nodeConjunctive_of_standard own.2 ?_
    intro effective standard scope draft done level conjunctive compiled
    simp only [Node.suppressed_field, Node.standard_field] at effective standard
    simp only [node, effective, standard, Bool.false_eq_true, if_false, Traced.result_bind,
      Traced.result_lift, Outcome.bind_eq_ok] at compiled
    obtain ⟨clause, -, made⟩ := compiled
    cases made
    refine conjunctive.merged (merge_merged _ _ _) ?_
    intro same
    exact absurd same (path_ne_and (ofNative?_path level (own.1 name rfl)))
  | relation i r children ih =>
    simp only [Node.within, List.forall_mem_cons, Node.forall_withinAll] at keeps
    have inner : ∀ n ∈ children, NodeConjunctive n := by
      intro n member
      have below := keeps.2 n member
      exact ih n member below (below n (Node.mem_within_self n))
    refine nodeConjunctive_of_standard own.2 ?_
    intro effective standard scope draft done level conjunctive compiled
    simp only [Node.suppressed_relation, Node.standard_relation] at effective standard
    simp only [node, effective, standard, Bool.false_eq_true, if_false, Traced.result_bind,
      Outcome.bind_eq_ok] at compiled
    obtain ⟨joined, found, made⟩ := compiled
    cases made
    have below := nodes_conjunctive inner (isScope_below scope r.name) conjunctive_nil found
    exact conjunctive.mergeAll below
  | group i connective groups =>
    refine nodeConjunctive_of_standard own.2 ?_
    intro effective standard scope draft done level conjunctive compiled
    simp only [Node.suppressed_group, Node.standard_group] at effective standard
    simp only [node, effective, standard, Bool.false_eq_true, if_false, Traced.result_bind,
      Outcome.bind_eq_ok] at compiled
    obtain ⟨⟨compiledBranches, pipeline⟩, -, made⟩ := compiled
    split at made
    next =>
      cases made
      exact conjunctive
    next =>
      cases made
      exact conjunctive.merged (merge_merged _ _ _) fun _ => ⟨compiledBranches, rfl⟩

theorem predicate_conjunctive {ns : List Node} (keeps : ∀ m ∈ Node.withinAll ns, m.KeepsConjuncts)
    {scope : String} (level : IsScope scope) {s : Staging} {draft : Draft}
    (compiled : (predicate ns scope s).result = .ok draft) : Conjunctive draft.predicate := by
  refine nodes_conjunctive ?_ level conjunctive_nil compiled
  intro n member
  exact node_conjunctive n (Node.forall_withinAll.mp keeps n member)

end Compile

namespace Window

theorem comparison_regular {field : String} (plain : isOperatorKey field = false)
    (direction : SortDirection) (side : PageSide) (value : Json) :
    Regular Patternless [(field, comparison direction side value)] := by
  have fresh : field ≠ "$and" := by
    rintro rfl
    exact absurd plain (by decide)
  refine regular_cons.mpr ⟨fun same => absurd same fresh, ?_, regular_nil⟩
  rintro fields ⟨⟩
  cases direction <;> cases side <;> exact ⟨rfl, rfl⟩

def pivotClauses (side : PageSide) (pivot : Json) (orderBy : List SortKey) : Fields :=
  orderBy.filterMap fun k =>
    (pivot.valueAt? k.field).map fun value => (k.field, comparison k.direction side value)

theorem orderMatch_eq (side : PageSide) (pivot : Json) (orderBy : List SortKey) :
    orderMatch side pivot orderBy = mergeAll [] (pivotClauses side pivot orderBy) := by
  rw [orderMatch, mergeAll, pivotClauses, List.foldl_filterMap]
  congr 1
  funext p k
  cases pivot.valueAt? k.field <;> rfl

theorem pivotClauses_regular {orderBy : List SortKey}
    (plain : ∀ k ∈ orderBy, isOperatorKey k.field = false) (side : PageSide) (pivot : Json) :
    Regular Patternless (pivotClauses side pivot orderBy) := by
  induction orderBy with
  | nil => exact regular_nil
  | cons k rest ih =>
    obtain ⟨named, others⟩ := List.forall_mem_cons.mp plain
    cases found : pivot.valueAt? k.field with
    | none => simpa [pivotClauses, found] using ih others
    | some value =>
      have compared := comparison_regular named k.direction side value
      simpa [pivotClauses, found] using regular_append.mpr ⟨compared, ih others⟩

theorem orderMatch_regular {orderBy : List SortKey}
    (plain : ∀ k ∈ orderBy, isOperatorKey k.field = false) (side : PageSide) (pivot : Json) :
    Regular Patternless (orderMatch side pivot orderBy) := by
  rw [orderMatch_eq]
  exact regular_nil.mergeAll receives_patternless (pivotClauses_regular plain side pivot)

theorem pivotMatchFor_regular {primaryKey : String} {side : PageSide} {orderBy : List SortKey}
    {pivot : Json} {p : Predicate} (key : isOperatorKey primaryKey = false)
    (order : ∀ k ∈ orderBy, isOperatorKey k.field = false)
    (found : pivotMatchFor primaryKey side orderBy pivot = .ok p) : Regular Patternless p := by
  unfold pivotMatchFor at found
  split at found
  next => cases found
  next =>
    split at found
    next =>
      cases present : pivot.valueAt? primaryKey with
      | none => simp [present] at found
      | some value =>
        simp only [present, Except.ok.injEq] at found
        subst found
        exact comparison_regular key .ascending side value
    next =>
      cases found
      exact orderMatch_regular order side pivot

theorem ofArgs_regular {primaryKey : String} {args : PageArgs} {pivot : Option Json} {w : Window}
    (key : isOperatorKey primaryKey = false)
    (order : ∀ k ∈ args.orderBy, isOperatorKey k.field = false)
    (accepted : ofArgs primaryKey args pivot = .ok w) : Regular Patternless w.pivotMatch := by
  simp only [ofArgs, Outcome.bind_eq_ok] at accepted
  obtain ⟨⟨⟩, -, p, found, made⟩ := accepted
  cases made
  unfold pivotMatchOf at found
  split at found
  next => exact pivotMatchFor_regular key order found
  next => cases found
  next => cases found
  next =>
    cases found
    exact regular_nil

end Window

namespace Stage

def sort? : Stage → Option (List SortKey)
  | sort keys => some keys
  | _ => none

def skip? : Stage → Option Nat
  | skip n => some n
  | _ => none

def limit? : Stage → Option Nat
  | limit n => some n
  | _ => none

end Stage

namespace Window

theorem allHold_cut (truth : Atom → Bool) (w : Window) : Stage.allHold truth w.cut = true := by
  unfold cut
  cases w.sort.isEmpty <;> cases w.skip <;> cases w.limit <;> rfl

theorem cut_sort (w : Window) :
    w.cut.filterMap Stage.sort? = if w.sort.isEmpty then [] else [w.sort] := by
  unfold cut
  cases w.sort.isEmpty <;> cases w.skip <;> cases w.limit <;> rfl

theorem cut_skip (w : Window) : w.cut.filterMap Stage.skip? = w.skip.toList := by
  unfold cut
  cases w.sort.isEmpty <;> cases w.skip <;> cases w.limit <;> rfl

theorem cut_limit (w : Window) : w.cut.filterMap Stage.limit? = w.limit.toList := by
  unfold cut
  cases w.sort.isEmpty <;> cases w.skip <;> cases w.limit <;> rfl

end Window

/-- A direct read and a pipeline ask the same: the same documents of one collection, whatever the
truth of the atomic clauses, in the same order and with the same cut. What the read leaves out is no
stage of the pipeline. -/
structure FindRequest.Agrees (r : FindRequest) (q : Pipeline) : Prop where
  collection : q.collection = r.collection
  filter : ∀ truth, Predicate.holds truth r.filter = Stage.allHold truth q.stages
  sort : q.stages.filterMap Stage.sort? = if r.sort.isEmpty then [] else [r.sort]
  skip : q.stages.filterMap Stage.skip? = r.skip.toList
  limit : q.stages.filterMap Stage.limit? = r.limit.toList

namespace FilterCompiler

theorem compile_conjunctive {c : FilterCompiler} {collection : String} {filter : Json}
    (keeps : ∀ nodes, (c.parse collection filter).result = .ok nodes →
      ∀ n ∈ Node.withinAll nodes, n.KeepsConjuncts) {p : Predicate}
    (compiled : (c.compile collection filter).result = .ok (.predicate p)) : Conjunctive p := by
  simp only [compile, Traced.result_bind, Outcome.bind_eq_ok] at compiled
  obtain ⟨nodes, parsed, compiled⟩ := compiled
  unfold compileNodes at compiled
  split at compiled
  next =>
    simp only [Traced.result_bind, Outcome.bind_eq_ok] at compiled
    obtain ⟨s, -, made⟩ := compiled
    cases made
  next =>
    simp only [Traced.result_bind, Outcome.bind_eq_ok] at compiled
    obtain ⟨draft, found, made⟩ := compiled
    split at made
    next =>
      cases made
      exact Compile.predicate_conjunctive (keeps nodes parsed) isScope_root found
    next => cases made

end FilterCompiler

namespace Planner

open CommandLine

theorem compileRequest_result (p : Planner) (r : Request) :
    (p.compileRequest r).result = do
      let compiled ← (p.compiler.compile r.collection r.filter).result
      let window ← Window.ofArgs p.config.primaryKey r.pagination r.pivot
      return (window.appendTo (p.compiler.toStaging r.collection compiled)).finish := by
  simp only [compileRequest, Traced.result_bind, FilterCompiler.compilePipeline_result]
  cases (p.compiler.compile r.collection r.filter).result with
  | error e => rfl
  | ok compiled =>
    cases found : Window.ofArgs p.config.primaryKey r.pagination r.pivot <;>
      simp [Staging.paginate_eq, found]

/-- A request whose fields, sort keys and primary key are no operators, with no compiler that makes
`$and` anything but a list. -/
structure Undollared (p : Planner) (r : Request) : Prop where
  nodes : ∀ nodes, (p.compiler.parse r.collection r.filter).result = .ok nodes →
    ∀ n ∈ Node.withinAll nodes, n.KeepsConjuncts
  order : ∀ k ∈ r.pagination.orderBy, isOperatorKey k.field = false
  key : isOperatorKey p.config.primaryKey = false

theorem finish_agrees (c : FilterCompiler) (collection : String) {window : Window} {p : Predicate}
    (conjunctive : Conjunctive p) (regular : Regular Patternless window.pivotMatch) :
    FindRequest.Agrees
      { collection, filter := p.mergeAll window.pivotMatch, sort := window.sort,
        skip := window.skip, limit := window.limit }
      (window.appendTo (c.toStaging collection (.predicate p))).finish := by
  have stages : (window.appendTo (c.toStaging collection (.predicate p))).finish.stages =
      Staging.matchStages p ++ Staging.matchStages window.pivotMatch ++ window.cut := by
    rw [Staging.finish, Window.appendTo_stages]
    simp [FilterCompiler.toStaging, FilterCompiler.newPipeline]
  -- Matches only filter, so whatever else is read off the stages comes from the cut.
  have others {α : Type} {read : Stage → Option α} (blind : ∀ q, read (.filter q) = none) :
      (window.appendTo (c.toStaging collection (.predicate p))).finish.stages.filterMap read =
        window.cut.filterMap read := by
    simp [stages, Staging.filterMap_matchStages blind]
  constructor
  case collection =>
    rw [Staging.finish, Window.appendTo_collection]
    simp [FilterCompiler.toStaging, FilterCompiler.newPipeline]
  case filter =>
    intro truth
    have any : Regular (fun _ => True) p := ⟨conjunctive, fun _ _ _ => trivial⟩
    rw [holds_mergeAll truth any_receives_patternless any regular, stages]
    simp only [Stage.allHold_append, Stage.allHold_matchStages, window.allHold_cut, Bool.and_true]
  case sort => rw [others fun _ => rfl, window.cut_sort]
  case skip => rw [others fun _ => rfl, window.cut_skip]
  case limit => rw [others fun _ => rfl, window.cut_limit]

theorem plan_agrees (p : Planner) (r : Request) (plain : p.Undollared r) :
    ((∃ e, (p.plan .findMany r.collection r.filter r.pagination r.pivot).result = .error e) ↔
      ∃ e, (p.compileRequest r).result = .error e) ∧
    ∀ planned q, (p.plan .findMany r.collection r.filter r.pagination r.pivot).result = .ok planned →
      (p.compileRequest r).result = .ok q →
        match planned.plan with
        | .aggregate pipeline => pipeline = q
        | .direct request => request.Agrees q := by
  simp only [plan_result, compileRequest_result, windowFor]
  cases accepted : Window.ofArgs p.config.primaryKey r.pagination r.pivot with
  | error e =>
    cases (p.compiler.compile r.collection r.filter).result <;> simp
  | ok window =>
    cases compiled : (p.compiler.compile r.collection r.filter).result with
    | error e => simp
    | ok found =>
      refine ⟨by simp, ?_⟩
      intro planned q planning compiling
      cases planning
      cases compiling
      cases found with
      | staged pipeline => rfl
      | predicate filter =>
        have regular := Window.ofArgs_regular plain.key plain.order accepted
        exact finish_agrees p.compiler r.collection
          (FilterCompiler.compile_conjunctive plain.nodes compiled) regular

def keyPlanner : Planner := ⟨Catalog.posts, { keyType := .int }, []⟩

def keyRequest : Request where
  collection := "Post"
  filter := .obj [("id_gt", .int 3), ("title", .str "Lean")]
  pagination := { after := some (.int 7), first := some 10, orderBy := [] }
  operation := none
  pivot := some (.obj [("_id", .int 7)])

theorem keyRequest_undollared : keyPlanner.Undollared keyRequest where
  nodes := by
    intro nodes parsed
    cases parsed
    have key : isOperatorKey keyPlanner.config.primaryKey = false := rfl
    have title : isOperatorKey (SplitKey.ofKey "title").field = false := rfl
    simp [Node.withinAll, Node.within, Node.KeepsConjuncts, Node.Runs, Node.compiler?,
      Node.fieldName?, Node.info, Node.asField, key, title]
  order := by simp [keyRequest]
  key := rfl

theorem keyRequest_agrees :
    keyPlanner.Undollared keyRequest ∧ ∃ request pipeline,
      (keyPlanner.plan .findMany "Post" keyRequest.filter keyRequest.pagination
        keyRequest.pivot).result = .ok { plan := .direct request } ∧
      (keyPlanner.compileRequest keyRequest).result = .ok pipeline ∧ request.Agrees pipeline :=
  ⟨keyRequest_undollared, _, _, rfl, rfl,
    (plan_agrees keyPlanner keyRequest keyRequest_undollared).2 _ _ rfl rfl⟩

end Planner

end DocQuery
