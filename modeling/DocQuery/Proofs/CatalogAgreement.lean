import DocQuery.Proofs.Grammar
import DocQuery.Proofs.JoinStructure
import DocQuery.Proofs.Rewriting

set_option autoImplicit false

namespace DocQuery

open Outcome Compile

def QueryError.Blameless : QueryError → Prop
  | .unknownRelation .. | .catalogInconsistent .. => False
  | _ => True

def Visitor.FailsOnly (parser : FilterParser) (fine : QueryError → Prop) (v : Visitor) : Prop :=
  ∀ n path, Outcome.FailsOnly fine (v.visit n ⟨parser, n.info.collection, path⟩).result

namespace Visit

section

variable {parser : FilterParser} {fine : QueryError → Prop}

theorem apply_failsOnly {visitors : List Visitor}
    (each : ∀ v ∈ visitors, v.FailsOnly parser fine)
    (deep : ∀ limit path, fine (.depthExceeded limit path)) (nodes : List Node) :
    FailsOnly fine (apply visitors parser nodes).result :=
  apply_closed (Traced.closed_failsOnly fine) (fun _ _ => failsOnly_ok _)
    (fun limit path => failsOnly_error.mpr (deep limit path)) each nodes

end

end Visit

namespace Site

variable {p : FilterParser}

theorem blameless_of_fault? {site : Site} {e : QueryError} (fault : site.fault? p = some e) :
    e.Blameless := by
  have deep (keys : List String) (found : tooDeep? p keys = some e) : e.Blameless := by
    unfold tooDeep? at found
    split at found <;> cases found
    trivial
  cases site with
  | root collection filter =>
    simp only [fault?] at fault
    split at fault <;> cases fault
    trivial
  | entry path owner key value =>
    simp only [fault?] at fault
    repeat' split at fault
    all_goals first
      | exact deep _ fault
      | cases fault <;> trivial
  | item path key value =>
    simp only [fault?] at fault
    split at fault <;> cases fault
    trivial

theorem failsOnly_of_faults {α : Type} {x : Traced α} {sites : List Site}
    (first : x.refusal = sites.findSome? (fault? p)) :
    FailsOnly QueryError.Blameless x.result := by
  intro e failed
  rw [Traced.refusal_eq_some.mpr failed] at first
  obtain ⟨site, -, fault⟩ := List.exists_of_findSome?_eq_some first.symm
  exact blameless_of_fault? fault

end Site

theorem FilterParser.parse_failsOnly (p : FilterParser) (collection : String) (filter : Json) :
    FailsOnly QueryError.Blameless (p.parse collection filter).result :=
  Site.failsOnly_of_faults (p.refusal_parse collection filter)

theorem VisitContext.build_failsOnly (ctx : VisitContext) (key : String) (value : Json) :
    FailsOnly QueryError.Blameless (ctx.build key value).result :=
  Site.failsOnly_of_faults (ctx.parser.refusal_parseEntry (.at ctx.collection ctx.path) key value)

namespace Compile

open Node

theorem fieldClause_failsOnly (name : String) (operator : Option Operator) (value : Json) :
    FailsOnly QueryError.Blameless (fieldClause name operator value) := by
  have pair (op : Operator) : FailsOnly QueryError.Blameless (op.range name value) := by
    unfold Operator.range
    split
    · exact failsOnly_ok _
    · exact failsOnly_error.mpr trivial
  have text (op : Operator) : FailsOnly QueryError.Blameless (op.textOperand name value) := by
    unfold Operator.textOperand
    split
    · exact failsOnly_ok _
    · exact failsOnly_error.mpr trivial
  cases operator with
  | none => exact failsOnly_ok _
  | some op =>
    cases op with
    | between | betweenOrEqual => exact (pair _).bind fun _ _ => failsOnly_ok _
    | regex | startsWith | endsWith => exact (text _).bind fun _ _ => failsOnly_ok _
    | _ => exact failsOnly_ok _

theorem allClauses_failsOnly {fine : QueryError → Prop} {scope : String} {ns : List Node}
    (each : ∀ n ∈ ns, FailsOnly fine (clauses scope n)) : FailsOnly fine (allClauses scope ns) := by
  induction ns with
  | nil => exact failsOnly_ok _
  | cons n rest ih =>
    obtain ⟨first, others⟩ := List.forall_mem_cons.mp each
    exact first.bind fun _ _ => (ih others).bind fun _ _ => failsOnly_ok _

theorem branchPredicates_failsOnly {fine : QueryError → Prop} {scope : String}
    {groups : List (List Node)}
    (each : ∀ branch ∈ groups, ∀ n ∈ branch, FailsOnly fine (clauses scope n)) :
    FailsOnly fine (branchPredicates scope groups) := by
  induction groups with
  | nil => exact failsOnly_ok _
  | cons branch rest ih =>
    obtain ⟨first, others⟩ := List.forall_mem_cons.mp each
    exact (allClauses_failsOnly first).bind fun _ _ =>
      (ih others).bind fun _ _ => failsOnly_ok _

theorem clauses_failsOnly (n : Node) (scope : String) :
    FailsOnly QueryError.Blameless (clauses scope n) := by
  induction n generalizing scope with
  | field i name operator =>
    unfold clauses
    split
    · exact failsOnly_ok _
    · exact (fieldClause_failsOnly name operator i.value).bind fun _ _ => failsOnly_ok _
  | relation i r children ih =>
    unfold clauses
    split
    · exact failsOnly_ok _
    · exact (allClauses_failsOnly fun n inside => ih n inside _).bind fun _ _ => failsOnly_ok _
  | group i connective branches ih =>
    unfold clauses
    split
    · exact failsOnly_ok _
    · exact (branchPredicates_failsOnly fun branch listed n inside =>
        ih branch listed n inside _).bind fun _ _ => failsOnly_ok _

theorem plainPredicate_failsOnly (scope : String) (ns : List Node) :
    FailsOnly QueryError.Blameless (plainPredicate scope ns) :=
  (allClauses_failsOnly fun n _ => clauses_failsOnly n scope).map _

end Compile

open Node in
theorem Node.CopyOf.declared {catalog : Catalog} {owner : String} {n m : Node} (copy : m.CopyOf n)
    (declared : Declared catalog Home owner n) : Declared catalog Home owner m := by
  cases copy with
  | field i name copied operator value suppressed compiler => exact .field declared.self
  | relation i r children value suppressed compiler =>
    cases declared with
    | relation self filled known below => exact .relation self filled known below
  | group i connective branches value suppressed compiler =>
    cases declared with
    | group self below => exact .group self below

theorem Visitor.InPlace.keeps_declared {parser : FilterParser} {v : Visitor}
    (inPlace : v.InPlace parser) :
    Visit.Keeps parser (fun _ owner n => Node.Declared parser.catalog Node.Home owner n) v := by
  intro path owner n declared m acted
  obtain ⟨origin, copy, rfl | ⟨key, value, built⟩⟩ := inPlace n path m acted
  · exact copy.declared declared
  · have read : Node.Declared parser.catalog (Node.AsRead parser.catalog) n.info.collection origin :=
      parser.reads_declared.entry (.at n.info.collection path) key value built
    have home : n.info.collection = owner := declared.self
    rw [home] at read
    exact copy.declared (read.mono fun _ _ read => read.1)

/-- A visitor that lets nodes be, suppresses them, or puts copies of them and nodes built in their
place, all without compilers. No error of its own blames the catalog. -/
structure Visitor.Contained (parser : FilterParser) (v : Visitor) : Prop where
  inPlace : v.InPlace parser
  attachesNone : v.AttachesNone parser
  failsOnly : v.FailsOnly parser QueryError.Blameless

theorem KeyType.coerce_failsOnly (type : KeyType) (field : String) (value : Json) :
    FailsOnly QueryError.Blameless (type.coerce field value) := by
  have scalar (value : Json) : FailsOnly QueryError.Blameless (type.coerceScalar field value) := by
    intro e failed
    cases type <;>
    · simp only [coerceScalar, coerceString, coerceInt, coerceUuid, coerceObjectId, mismatch] at failed
      repeat' split at failed
      all_goals
        cases failed
        try trivial
  unfold coerce
  split
  · exact (FailsOnly.mapM fun item _ => scalar item).map _
  · exact scalar value

namespace Rule

theorem failsOnly_unless {covered : Prop} [Decidable covered]
    {acted : Except QueryError VisitAction} (own : FailsOnly QueryError.Blameless acted) :
    FailsOnly QueryError.Blameless (if covered then acted else pure .keep) := by
  split
  · exact own
  · exact failsOnly_ok _

theorem converted_failsOnly {conversion : Json → Except QueryError Json}
    (own : ∀ value, FailsOnly QueryError.Blameless (conversion value)) (operator : Option Operator)
    (value : Json) : FailsOnly QueryError.Blameless (converted conversion operator value) := by
  unfold converted
  split
  next items =>
    split
    · exact (FailsOnly.mapM fun item _ => own item).map _
    · exact own _
  next => exact own value

theorem act_failsOnly {rule : Rule}
    (own : ∀ target conversion, rule = .convert target conversion →
      ∀ value, FailsOnly QueryError.Blameless (conversion value)) (n : Node) :
    FailsOnly QueryError.Blameless (rule.act n) := by
  cases rule with
  | keyField idAlias primaryKey keyType =>
    cases n with
    | field i name operator =>
      refine failsOnly_unless ?_
      split
      · exact (keyType.coerce_failsOnly name i.value).bind fun _ _ => failsOnly_ok _
      · exact failsOnly_ok _
    | relation i r children => exact failsOnly_ok _
    | group i connective branches => exact failsOnly_ok _
  | rename target name => exact failsOnly_unless (failsOnly_ok _)
  | negate target name =>
    refine failsOnly_unless ?_
    split
    · exact failsOnly_ok _
    · exact failsOnly_error.mpr trivial
  | convert target conversion =>
    exact failsOnly_unless ((converted_failsOnly (own target conversion rfl) _ _).bind
      fun _ _ => failsOnly_ok _)
  | custom target compiler => exact failsOnly_unless (failsOnly_ok _)
  | suppressKey key | suppressField key => exact failsOnly_ok _

theorem copy_of_act {rule : Rule} {n m : Node} (acted : rule.act n = .ok (.replace m)) :
    m.CopyOf n := by
  cases acts_of_act acted with
  | replace i before after operator value compiler named given =>
    exact .field i before after operator value i.suppressed compiler

theorem contained {rule : Rule} (uncustomed : ∀ target c, rule ≠ .custom target c)
    (own : ∀ target conversion, rule = .convert target conversion →
      ∀ value, FailsOnly QueryError.Blameless (conversion value)) (parser : FilterParser) :
    rule.visitor.Contained parser where
  inPlace := by
    intro n path m acted
    rcases acted with replaced | added
    · exact ⟨n, copy_of_act replaced, .inl rfl⟩
    · cases acts_of_act added
  attachesNone := attaches_none uncustomed parser
  failsOnly n _ := act_failsOnly own n

end Rule

namespace FilterCompiler

variable {c : FilterCompiler} {collection : String} {filter : Json}

theorem parse_home (inPlace : ∀ v ∈ c.visitors, v.InPlace c.parser) {nodes : List Node}
    (parsed : (c.parse collection filter).result = .ok nodes) :
    ∀ n ∈ nodes, Node.Declared c.catalog Node.Home collection n := by
  refine parse_keeps (Node.declared_invariant c.catalog) ?_ ?_ parsed
  · exact fun v listed => (inPlace v listed).keeps_declared
  · intro owner n declared
    exact declared.mono fun _ _ read => read.1

theorem parse_failsOnly (own : ∀ v ∈ c.visitors, v.FailsOnly c.parser QueryError.Blameless) :
    FailsOnly QueryError.Blameless (c.parse collection filter).result := by
  rw [parse, Traced.result_bind]
  refine (c.parser.parse_failsOnly collection filter).bind fun nodes _ => ?_
  exact Visit.apply_failsOnly own (fun _ _ => trivial) nodes

theorem compileNodes_failsOnly {nodes : List Node}
    (standard : ∀ m ∈ Node.withinAll nodes, m.Standard)
    (agree : ∀ site ∈ Node.joinSites [] nodes, site.Agrees c.catalog collection) :
    FailsOnly QueryError.Blameless (c.compileNodes collection nodes).result := by
  rw [c.compileNodes_result collection standard]
  split
  next =>
    rw [stage_sites standard, Node.sites_resolve agree]
    refine FailsOnly.map ?_ _
    refine (plainPredicate_failsOnly "" _).bind fun _ _ => (failsOnly_ok _).bind fun _ _ => ?_
    exact (plainPredicate_failsOnly "" _).bind fun _ _ => failsOnly_ok _
  next => exact (plainPredicate_failsOnly "" nodes).map _

variable (collection filter) in
/-- With one catalog for reading and compiling, no error blames the catalog: every look-up finds the
relation of its node on the collection that the node was read on. -/
theorem catalog_agrees (contained : ∀ v ∈ c.visitors, v.Contained c.parser) :
    FailsOnly QueryError.Blameless (c.compile collection filter).result ∧
    ∀ nodes, (c.parse collection filter).result = .ok nodes →
      (∀ site ∈ Node.joinSites [] nodes, site.Agrees c.catalog collection) ∧
      ∀ s, s.catalog = c.catalog → s.collection = collection →
        (∀ site ∈ Node.joinSites [] nodes, site.call.owner s = site.info.collection) ∧
        joinNodes "" (joiningNodes nodes) s =
          ((Node.joinSites [] nodes).map JoinSite.call).foldlM performCall s ∧
        (joinNodes "" (joiningNodes nodes) s).result =
          .ok (s.addJoins ((Node.joinSites [] nodes).map JoinSite.join)) := by
  have inPlace := fun v listed => (contained v listed).inPlace
  have plain := fun v listed => (contained v listed).attachesNone
  have own := fun v listed => (contained v listed).failsOnly
  have agree {nodes : List Node} (parsed : (c.parse collection filter).result = .ok nodes) :=
    Node.joinSites_agree (parse_home inPlace parsed)
  constructor
  · rw [compile, Traced.result_bind]
    refine (parse_failsOnly own).bind fun nodes parsed => ?_
    exact compileNodes_failsOnly (c.parse_attaches_none plain parsed) (agree parsed)
  · intro nodes parsed
    have calls := joinNodes_sites (c.parse_attaches_none plain parsed)
    refine ⟨agree parsed, fun s same home => ⟨?_, calls s, ?_⟩⟩
    · exact fun site inside => (agree parsed site inside).owner home
    · have here : ∀ site ∈ Node.joinSites [] nodes, site.Agrees s.catalog s.collection := by
        rw [same, home]
        exact agree parsed
      have resolved : (Node.joinSites [] nodes).mapM
          ((fun call : JoinCall => call.resolve s) ∘ JoinSite.call) =
            .ok ((Node.joinSites [] nodes).map JoinSite.join) :=
        Node.sites_resolve here
      rw [calls, performCalls_result, List.mapM_map, resolved]
      rfl

end FilterCompiler

theorem wrapField_contained (parser : FilterParser) (field : String) (levels : Nat) :
    (wrapField field levels).Contained parser where
  inPlace := wrapField_inPlace parser field levels
  attachesNone := by
    intro path owner n standard m acted
    simp only [wrapField] at acted
    split at acted
    next =>
      simp only [VisitContext.replace, Traced.result_bind, bind_eq_ok] at acted
      rcases acted with ⟨origin, built, made⟩ | ⟨origin, built, made⟩
      · cases made
        have read : Node.Declared parser.catalog (Node.AsRead parser.catalog) n.info.collection m :=
          parser.reads_declared.entry (.at n.info.collection path) _ _ built
        exact read.within fun _ _ read => read.2.2.1
      · cases made
    next => simp at acted
  failsOnly := by
    intro n path
    simp only [wrapField]
    split
    · simp only [VisitContext.replace, Traced.result_bind]
      exact (VisitContext.build_failsOnly _ _ _).bind fun _ _ => failsOnly_ok _
    · exact failsOnly_ok _

def wrappingCompiler : FilterCompiler where
  catalog := Catalog.posts
  visitors := joiningRules.map Rule.visitor ++ [wrapField "fullName" 2]
  config := {}

theorem wrappingCompiler_contained :
    ∀ v ∈ wrappingCompiler.visitors, v.Contained wrappingCompiler.parser := by
  refine List.forall_mem_append.mpr ⟨?_, ?_⟩
  · refine Rule.forall_visitors rfl fun rule listed => Rule.contained ?_ ?_ _
    all_goals
      rintro target given rfl
      simp [joiningRules] at listed
  · simpa using wrapField_contained _ "fullName" 2

theorem wrappingCompiler_agrees :
    (∀ v ∈ wrappingCompiler.visitors, v.Contained wrappingCompiler.parser) ∧
    ∃ nodes, (wrappingCompiler.parse "Post" joiningFilter).result = .ok nodes ∧
      (Node.joinSites [] nodes).map JoinSite.output = ["author", "author.company", "author"] ∧
      (joinNodes "" (joiningNodes nodes) (wrappingCompiler.newPipeline "Post")).result =
        .ok ((wrappingCompiler.newPipeline "Post").addJoins
          ((Node.joinSites [] nodes).map JoinSite.join)) := by
  have parsed : ∃ nodes, (wrappingCompiler.parse "Post" joiningFilter).result = .ok nodes ∧
      (Node.joinSites [] nodes).map JoinSite.output = ["author", "author.company", "author"] :=
    ⟨_, rfl, rfl⟩
  obtain ⟨nodes, parsed, outputs⟩ := parsed
  have agrees := FilterCompiler.catalog_agrees "Post" joiningFilter wrappingCompiler_contained
  obtain ⟨-, -, joined⟩ := (agrees.2 nodes parsed).2 (wrappingCompiler.newPipeline "Post") rfl rfl
  exact ⟨wrappingCompiler_contained, nodes, parsed, outputs, joined⟩

end DocQuery
