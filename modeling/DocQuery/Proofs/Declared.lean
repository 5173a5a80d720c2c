import DocQuery.Compile.Filter
import DocQuery.Proofs.Parsing
import DocQuery.Proofs.Traversal
import DocQuery.Proofs.Tree
import DocQuery.Visit.Rule

set_option autoImplicit false

namespace DocQuery

theorem Catalog.relation?_name {catalog : Catalog} {collection name : String} {r : Relation}
    (known : catalog.relation? collection name = some r) : r.name = name := by
  simp only [relation?, Option.map_eq_some_iff] at known
  obtain ⟨entry, found, same⟩ := known
  have matched := List.find?_some found
  simp only [Bool.and_eq_true, beq_iff_eq] at matched
  rw [← same, matched.2]

namespace Node

inductive Declared (catalog : Catalog) (own : String → Node → Prop) : String → Node → Prop
  | field {owner : String} {i : Info} {name : String} {operator : Option Operator}
      (self : own owner (.field i name operator)) :
      Declared catalog own owner (.field i name operator)
  | relation {owner : String} {i : Info} {r : Relation} {children : List Node}
      (self : own owner (.relation i r children)) (filled : r.name ≠ "")
      (known : catalog.relation? owner r.name = some r)
      (below : ∀ n ∈ children, Declared catalog own r.target n) :
      Declared catalog own owner (.relation i r children)
  | group {owner : String} {i : Info} {connective : Connective} {branches : List (List Node)}
      (self : own owner (.group i connective branches))
      (below : ∀ branch ∈ branches, ∀ n ∈ branch, Declared catalog own owner n) :
      Declared catalog own owner (.group i connective branches)

variable {catalog : Catalog} {own weaker : String → Node → Prop} {owner : String} {n : Node}

theorem Declared.self (declared : Declared catalog own owner n) : own owner n := by
  cases declared <;> assumption

theorem Declared.mono (weaken : ∀ owner n, own owner n → weaker owner n)
    (declared : Declared catalog own owner n) : Declared catalog weaker owner n := by
  induction declared with
  | field self => exact .field (weaken _ _ self)
  | relation self filled known _ ih => exact .relation (weaken _ _ self) filled known ih
  | group self _ ih => exact .group (weaken _ _ self) ih

theorem Declared.within {p : Node → Prop} (each : ∀ owner n, own owner n → p n)
    (declared : Declared catalog own owner n) : ∀ m ∈ n.within, p m := by
  induction declared with
  | field self =>
    rw [Node.within, List.forall_mem_singleton]
    exact each _ _ self
  | relation self filled known _ ih =>
    rw [Node.within, List.forall_mem_cons, forall_withinAll]
    exact ⟨each _ _ self, ih⟩
  | group self _ ih =>
    rw [Node.within, List.forall_mem_cons, forall_withinBranches]
    exact ⟨each _ _ self, ih⟩

def Fresh (catalog : Catalog) (owner : String) (n : Node) : Prop :=
  n.info.collection = owner ∧ n.Standard ∧
    ∀ name, n.fieldName? = some name → catalog.isRelation owner name = false

def Keyed (catalog : Catalog) (owner : String) : Node → Prop
  | .field i name operator =>
    Connective.ofKey? i.key = none ∧ catalog.isRelation owner i.key = false ∧
      SplitKey.ofKey i.key = ⟨name, operator⟩ ∧ Connective.ofKey? name = none ∧
        catalog.isRelation owner name = false
  | .relation i r _ => Connective.ofKey? i.key = none ∧ i.key = r.name
  | .group i connective _ => Connective.ofKey? i.key = some connective

def AsRead (catalog : Catalog) (owner : String) (n : Node) : Prop :=
  n.info.collection = owner ∧ n.suppressed = false ∧ n.Standard ∧ n.Keyed catalog owner

end Node

open Node in
theorem Node.AsRead.fresh {catalog : Catalog} {owner : String} {n : Node}
    (read : AsRead catalog owner n) : Fresh catalog owner n := by
  obtain ⟨home, -, standard, keyed⟩ := read
  refine ⟨home, standard, ?_⟩
  intro name named
  cases n with
  | field i given operator =>
    cases named
    exact keyed.2.2.2.2
  | _ => cases named

namespace FilterParser

open Node

variable (p : FilterParser)

theorem reads_declared :
    p.Reads fun place _ n => Declared p.catalog (AsRead p.catalog) place.collection n where
  field place key value _ grouping undeclared plain := by
    simp only [isKeyword, Bool.or_eq_false_iff, Option.isSome_eq_false_iff,
      Option.isNone_iff_eq_none] at plain
    refine .field ⟨rfl, rfl, rfl, ?_⟩
    exact ⟨grouping, by simp [Catalog.isRelation, undeclared], rfl, plain.1, plain.2⟩
  relation place key members r children filled grouping known _ below := by
    have named := Catalog.relation?_name known
    subst named
    refine .relation ⟨rfl, rfl, rfl, grouping, rfl⟩ filled known ?_
    intro n inside
    obtain ⟨-, -, declared⟩ := forall₂_right below n inside
    exact declared
  group place key items connective branches grouping _ below := by
    refine .group ⟨rfl, rfl, rfl, grouping⟩ ?_
    intro branch listed n inside
    obtain ⟨-, -, members, -, related⟩ := forall₂_right below branch listed
    obtain ⟨-, -, declared⟩ := forall₂_right related n inside
    exact declared

theorem parse_declared {collection : String} {filter : Json} {nodes : List Node}
    (parsed : (p.parse collection filter).result = .ok nodes) :
    ∀ n ∈ nodes, Declared p.catalog (AsRead p.catalog) collection n := by
  intro n inside
  obtain ⟨-, -, declared⟩ := forall₂_right (p.reads_declared.parse parsed) n inside
  exact declared

end FilterParser

def Node.Home (owner : String) (n : Node) : Prop := n.info.collection = owner

theorem Node.Declared.suppress {catalog : Catalog} {owner : String} {n : Node}
    (declared : Declared catalog Home owner n) : Declared catalog Home owner n.suppress := by
  cases declared with
  | field self => exact .field self
  | relation self filled known below => exact .relation self filled known below
  | group self below => exact .group self below

theorem Node.declared_invariant (catalog : Catalog) :
    Visit.Invariant fun _ owner n => Declared catalog Home owner n where
  suppress _ _ _ declared := declared.suppress
  children _ _ _ _ _ declared := by
    cases declared with
    | relation _ _ _ below => exact below
  relation _ _ _ _ _ _ declared others := by
    cases declared with
    | relation self filled known _ => exact .relation self filled known others
  branches _ _ _ _ _ declared := by
    cases declared with
    | group _ below => exact below
  group _ _ _ _ _ _ declared others := by
    cases declared with
    | group self _ => exact .group self others

def Node.Carries (fit : CustomCompiler → Prop) (n : Node) : Prop :=
  ∀ c, n.info.compiler = some c → fit c

def Node.Runs (fit : NodeCompiler → Prop) (n : Node) : Prop := ∀ c, n.compiler? = some c → fit c

theorem Node.compiler?_of_some {n : Node} {c : CustomCompiler} (own : n.info.compiler = some c) :
    n.compiler? = some (c.on n.view) := by
  simp [compiler?, own]

theorem Node.Carries.runs {fit : NodeCompiler → Prop} {n : Node}
    (carries : n.Carries fun c => ∀ v, fit (c.on v)) : n.Runs fit := by
  intro c placed
  obtain ⟨custom, own, rfl⟩ := Option.map_eq_some_iff.mp placed
  exact carries custom own n.view

theorem Node.Runs.mono {fit other : NodeCompiler → Prop} (weaken : ∀ c, fit c → other c) {n : Node}
    (runs : n.Runs fit) : n.Runs other :=
  fun c placed => weaken c (runs c placed)

theorem Node.within_invariant {p : Node → Prop} (suppress : ∀ n, p n → p n.suppress)
    (relation : ∀ i r children others, p (.relation i r children) → p (.relation i r others))
    (group : ∀ i connective branches others,
      p (.group i connective branches) → p (.group i connective others)) :
    Visit.Invariant fun _ _ n => ∀ m ∈ n.within, p m where
  suppress _ _ n each := by
    have own := suppress n (each n (mem_within_self n))
    cases n <;>
    · simp only [Node.suppress, withInfo, within, List.forall_mem_cons] at own each ⊢
      exact ⟨own, each.2⟩
  children _ _ _ _ _ each := forall_withinAll.mp (List.forall_mem_cons.mp each).2
  relation _ _ i r children others each below := by
    have own := relation i r children others (List.forall_mem_cons.mp each).1
    exact List.forall_mem_cons.mpr ⟨own, forall_withinAll.mpr below⟩
  branches _ _ _ _ _ each := forall_withinBranches.mp (List.forall_mem_cons.mp each).2
  group _ _ i connective branches others each below := by
    have own := group i connective branches others (List.forall_mem_cons.mp each).1
    exact List.forall_mem_cons.mpr ⟨own, forall_withinBranches.mpr below⟩

theorem Node.carries_invariant (fit : CustomCompiler → Prop) :
    Visit.Invariant fun _ _ n => ∀ m ∈ n.within, m.Carries fit := by
  refine within_invariant ?_ (fun _ _ _ _ carried => carried) (fun _ _ _ _ carried => carried)
  intro n carried
  cases n <;> exact carried

theorem Node.standard_iff (n : Node) : n.Standard ↔ n.Carries fun _ => False :=
  Option.eq_none_iff_forall_ne_some

theorem Node.standard_invariant : Visit.Invariant fun _ _ n => ∀ m ∈ n.within, m.Standard := by
  simpa only [standard_iff] using carries_invariant fun _ => False

def Visitor.AttachesNone (parser : FilterParser) (v : Visitor) : Prop :=
  Visit.Keeps parser (fun _ _ n => ∀ m ∈ n.within, m.Standard) v

namespace Rule

open Node

def Renames (rule : Rule) (owner before after : String) : Prop :=
  match rule with
  | .keyField idAlias primaryKey _ =>
    (before = idAlias ∨ before = primaryKey) ∧ after = primaryKey
  | .rename target name | .negate target name =>
    (∀ c, target.collection = some c → c = owner) ∧ before = target.field ∧ after = name
  | _ => False

theorem covers_field {target : FieldTarget} {n : Node} (covered : target.covers n = true) :
    ∃ i operator, n = .field i target.field operator ∧
      ∀ c, target.collection = some c → c = i.collection := by
  unfold FieldTarget.covers at covered
  rw [Bool.and_eq_true, beq_iff_eq] at covered
  obtain ⟨home, named⟩ := covered
  cases n with
  | field i name operator =>
    cases named
    refine ⟨i, operator, rfl, ?_⟩
    intro c own
    simpa [own, info] using home
  | _ => cases named

inductive Acts (rule : Rule) : Node → VisitAction → Prop
  | keep (n : Node) : Acts rule n .keep
  | suppress (n : Node) : Acts rule n .suppress
  | replace (i : Info) (before after : String) (operator : Option Operator) (value : Json)
      (compiler : Option CustomCompiler)
      (named : after = before ∨ rule.Renames i.collection before after)
      (given : compiler = i.compiler ∨ ∃ target c, rule = .custom target c ∧ compiler = some c) :
      Acts rule (.field i before operator)
        (.replace (.field { i with value, compiler } after operator))

theorem Acts.renamed {rule : Rule} {i : Info} {before after : String}
    (named : rule.Renames i.collection before after) (operator : Option Operator) (value : Json) :
    rule.Acts (.field i before operator)
      (.replace ((Node.field i before operator).asField after value)) :=
  .replace i before after operator value i.compiler (.inr named) (.inl rfl)

theorem Acts.unless {rule : Rule} {n : Node} {covered : Prop} [Decidable covered]
    {acted : Except QueryError VisitAction} {action : VisitAction}
    (acts : covered → acted = .ok action → rule.Acts n action)
    (result : (if covered then acted else pure .keep) = .ok action) : rule.Acts n action := by
  split at result
  next holds => exact acts holds result
  next =>
    cases result
    exact .keep n

theorem acts_of_canonicalKey {idAlias primaryKey : String} {keyType : KeyType} {n : Node}
    {action : VisitAction} (acted : canonicalKey idAlias primaryKey keyType n = .ok action) :
    (keyField idAlias primaryKey keyType).Acts n action := by
  cases n with
  | field i name operator =>
    refine Acts.unless (fun canonical converted => ?_) acted
    have named : (keyField idAlias primaryKey keyType).Renames i.collection name primaryKey := by
      simpa [Renames] using canonical
    split at converted
    next =>
      simp only [Outcome.bind_eq_ok] at converted
      obtain ⟨value, -, made⟩ := converted
      cases made
      exact .renamed named operator value
    next =>
      cases converted
      exact .renamed named operator i.value
  | relation i r children =>
    cases acted
    exact .keep _
  | group i connective branches =>
    cases acted
    exact .keep _

theorem acts_of_act {rule : Rule} {n : Node} {action : VisitAction}
    (acted : rule.act n = .ok action) : rule.Acts n action := by
  cases rule with
  | keyField idAlias primaryKey keyType => exact acts_of_canonicalKey acted
  | rename target name =>
    refine Acts.unless (fun covered renamed => ?_) acted
    obtain ⟨i, operator, rfl, home⟩ := covers_field covered
    have named : (rename target name).Renames i.collection target.field name := ⟨home, rfl, rfl⟩
    cases renamed
    exact .renamed named operator i.value
  | negate target name =>
    refine Acts.unless (fun covered negated => ?_) acted
    obtain ⟨i, operator, rfl, home⟩ := covers_field covered
    have named : (negate target name).Renames i.collection target.field name := ⟨home, rfl, rfl⟩
    split at negated
    next =>
      cases negated
      exact .renamed named operator _
    next => cases negated
  | convert target conversion =>
    refine Acts.unless (fun covered converted => ?_) acted
    obtain ⟨i, operator, rfl, -⟩ := covers_field covered
    simp only [Outcome.bind_eq_ok] at converted
    obtain ⟨value, -, made⟩ := converted
    cases made
    exact .replace i _ _ operator value i.compiler (.inl rfl) (.inl rfl)
  | custom target compiler =>
    refine Acts.unless (fun covered attached => ?_) acted
    obtain ⟨i, operator, rfl, -⟩ := covers_field covered
    cases attached
    exact .replace i _ _ operator i.value (some compiler) (.inl rfl)
      (.inr ⟨target, compiler, rfl, rfl⟩)
  | suppressKey key | suppressField key =>
    simp only [act] at acted
    split at acted <;> cases acted
    · exact .suppress n
    · exact .keep n

theorem visitor_keeps (catalog : Catalog) (parser : FilterParser) (rule : Rule) :
    Visit.Keeps parser (fun _ owner n => Declared catalog Home owner n) rule.visitor := by
  intro path owner n declared m acted
  simp only [visitor, Traced.result_lift] at acted
  rcases acted with replaced | added
  · cases acts_of_act replaced with
    | replace i before after operator value compiler named given => exact .field declared.self
  · cases acts_of_act added

theorem visitor_carries {fit : CustomCompiler → Prop} {rule : Rule}
    (attached : ∀ target c, rule = .custom target c → fit c) (parser : FilterParser) :
    Visit.Keeps parser (fun _ _ n => ∀ m ∈ n.within, m.Carries fit) rule.visitor := by
  intro path owner n carried m acted
  simp only [visitor, Traced.result_lift] at acted
  have own : n.Carries fit := carried n (mem_within_self n)
  rcases acted with replaced | added
  · cases acts_of_act replaced with
    | replace i before after operator value compiler named given =>
      rw [within, List.forall_mem_singleton]
      intro c carries
      rcases given with rfl | ⟨target, other, rfl, rfl⟩
      · exact own c carries
      · cases carries
        exact attached target c rfl
  · cases acts_of_act added

theorem attaches_none {rule : Rule} (uncustomed : ∀ target c, rule ≠ .custom target c)
    (parser : FilterParser) : rule.visitor.AttachesNone parser := by
  simpa only [Visitor.AttachesNone, standard_iff] using
    rule.visitor_carries (fun target c same => uncustomed target c same) parser

end Rule

open Node in
theorem FilterCompiler.parse_fresh {c : FilterCompiler} (unvisited : c.visitors = [])
    {collection : String} {filter : Json} {nodes : List Node}
    (parsed : (c.parse collection filter).result = .ok nodes) :
    ∀ n ∈ nodes, Declared c.catalog (Fresh c.catalog) collection n := by
  simp only [parse, unvisited, Visit.apply_nil, bind_pure] at parsed
  intro n inside
  exact (c.parser.parse_declared parsed n inside).mono fun _ _ read => read.fresh

open Node in
theorem FilterCompiler.parse_standard {c : FilterCompiler} (unvisited : c.visitors = [])
    {collection : String} {filter : Json} {nodes : List Node}
    (parsed : (c.parse collection filter).result = .ok nodes) :
    ∀ m ∈ withinAll nodes, m.Standard := by
  refine forall_withinAll.mpr ?_
  intro n member
  exact (c.parse_fresh unvisited parsed n member).within fun _ _ fresh => fresh.2.1

theorem FilterCompiler.parse_keeps {c : FilterCompiler} {holds : List String → String → Node → Prop}
    (inv : Visit.Invariant holds) (keep : ∀ v ∈ c.visitors, Visit.Keeps c.parser holds v)
    (fresh : ∀ owner n, Node.Declared c.catalog (Node.AsRead c.catalog) owner n →
      holds [] owner n)
    {collection : String} {filter : Json} {nodes : List Node}
    (parsed : (c.parse collection filter).result = .ok nodes) :
    ∀ n ∈ nodes, holds [] collection n := by
  simp only [parse, Traced.result_bind, Outcome.bind_eq_ok] at parsed
  obtain ⟨read, reading, visited⟩ := parsed
  refine Visit.apply_keeps inv keep ?_ visited
  intro n member
  exact fresh collection n (c.parser.parse_declared reading n member)

theorem Rule.forall_visitors {rules : List Rule} {visitors : List Visitor}
    (built : visitors = rules.map Rule.visitor) {good : Visitor → Prop}
    (each : ∀ rule ∈ rules, good rule.visitor) : ∀ v ∈ visitors, good v := by
  rw [built]
  simpa using each

open Node in
theorem FilterCompiler.parse_declared {c : FilterCompiler} {rules : List Rule}
    (built : c.visitors = rules.map Rule.visitor) {collection : String} {filter : Json}
    {nodes : List Node} (parsed : (c.parse collection filter).result = .ok nodes) :
    ∀ n ∈ nodes, Declared c.catalog Home collection n := by
  refine parse_keeps (declared_invariant c.catalog) ?_ ?_ parsed
  · exact Rule.forall_visitors built fun rule _ => rule.visitor_keeps c.catalog c.parser
  · intro owner n declared
    exact declared.mono fun _ _ read => read.1

open Node in
theorem FilterCompiler.parse_carries {c : FilterCompiler} {rules : List Rule}
    (built : c.visitors = rules.map Rule.visitor) {fit : CustomCompiler → Prop}
    (attached : ∀ target d, .custom target d ∈ rules → fit d) {collection : String} {filter : Json}
    {nodes : List Node} (parsed : (c.parse collection filter).result = .ok nodes) :
    ∀ m ∈ withinAll nodes, m.Carries fit := by
  refine forall_withinAll.mpr (parse_keeps (carries_invariant fit) ?_ ?_ parsed)
  · exact Rule.forall_visitors built fun rule listed =>
      rule.visitor_carries (fun target d same => attached target d (same ▸ listed)) c.parser
  · intro owner n declared
    refine declared.within fun _ m fresh d carries => ?_
    cases carries.symm.trans fresh.2.2.1

open Node in
theorem FilterCompiler.parse_attaches_none {c : FilterCompiler}
    (plain : ∀ v ∈ c.visitors, v.AttachesNone c.parser) {collection : String} {filter : Json}
    {nodes : List Node} (parsed : (c.parse collection filter).result = .ok nodes) :
    ∀ m ∈ withinAll nodes, m.Standard := by
  refine forall_withinAll.mpr (parse_keeps standard_invariant plain ?_ parsed)
  intro owner n declared
  exact declared.within fun _ _ read => read.2.2.1

end DocQuery
