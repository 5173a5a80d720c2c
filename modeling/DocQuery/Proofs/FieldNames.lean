import DocQuery.Proofs.CatalogAgreement
import Mathlib.Logic.Relation

set_option autoImplicit false

open Relation (ReflTransGen)

namespace DocQuery

def Catalog.IsKeyword (catalog : Catalog) (owner name : String) : Prop :=
  Connective.ofKey? name ≠ none ∨ catalog.isRelation owner name = true

instance (catalog : Catalog) (owner name : String) : Decidable (catalog.IsKeyword owner name) :=
  inferInstanceAs (Decidable (_ ∨ _))

namespace Node

def WellNamed (catalog : Catalog) : Node → Prop
  | .field i name _ => ¬ catalog.IsKeyword i.collection name
  | .relation i r _ => catalog.relation? i.collection i.key = some r
  | .group i connective _ => Connective.ofKey? i.key = some connective

instance (catalog : Catalog) (n : Node) : Decidable (n.WellNamed catalog) :=
  match n with
  | .field i name _ => inferInstanceAs (Decidable (¬ catalog.IsKeyword i.collection name))
  | .relation i r _ => inferInstanceAs (Decidable (catalog.relation? i.collection i.key = some r))
  | .group i connective _ => inferInstanceAs (Decidable (Connective.ofKey? i.key = some connective))

end Node

namespace Rule

def Careful (rule : Rule) (catalog : Catalog) : Prop :=
  ∀ owner before after, rule.Renames owner before after → ¬ catalog.IsKeyword owner before →
    ¬ catalog.IsKeyword owner after

def RenamedTo (rules : List Rule) (owner : String) : String → String → Prop :=
  ReflTransGen fun before after => ∃ rule ∈ rules, rule.Renames owner before after

end Rule

namespace Node

/-- A node of the kind that its key has on its collection. The name of a field is that of its key,
or one that the rules come to from there. -/
def NamedBy (catalog : Catalog) (rules : List Rule) : Node → Prop
  | .field i name operator => ∃ given, Keyed catalog i.collection (.field i given operator) ∧
      Rule.RenamedTo rules i.collection given name
  | .relation i r _ =>
    Connective.ofKey? i.key = none ∧ catalog.relation? i.collection i.key = some r
  | .group i connective _ => Connective.ofKey? i.key = some connective

variable {catalog : Catalog} {rules : List Rule} {owner : String} {n m : Node}

theorem namedBy_invariant (catalog : Catalog) (rules : List Rule) :
    Visit.Invariant fun _ _ n => ∀ m ∈ n.within, m.NamedBy catalog rules := by
  refine within_invariant ?_ (fun _ _ _ _ named => named) (fun _ _ _ _ named => named)
  intro n named
  cases n <;> exact named

theorem Declared.parts {own : String → Node → Prop}
    (home : ∀ owner n, own owner n → n.info.collection = owner)
    (declared : Declared catalog own owner n) :
    ∀ m ∈ n.within, Declared catalog own m.info.collection m := by
  induction declared with
  | field self =>
    rw [Node.within, List.forall_mem_singleton, home _ _ self]
    exact .field self
  | relation self filled known below ih =>
    rw [Node.within, List.forall_mem_cons, forall_withinAll, home _ _ self]
    exact ⟨.relation self filled known below, ih⟩
  | group self below ih =>
    rw [Node.within, List.forall_mem_cons, forall_withinBranches, home _ _ self]
    exact ⟨.group self below, ih⟩

theorem Declared.namedBy (declared : Declared catalog (AsRead catalog) owner n)
    (rules : List Rule) : ∀ m ∈ n.within, m.NamedBy catalog rules := by
  intro m inside
  have part := declared.parts (fun _ _ read => read.1) m inside
  cases part with
  | field self =>
    obtain ⟨-, -, -, keyed⟩ := self
    exact ⟨_, keyed, ReflTransGen.refl⟩
  | relation self filled known below =>
    obtain ⟨-, -, -, grouping, named⟩ := self
    exact ⟨grouping, named ▸ known⟩
  | group self below => exact self.2.2.2

theorem unreserved_of_careful (careful : ∀ rule ∈ rules, rule.Careful catalog)
    {given name : String} (plain : ¬ catalog.IsKeyword owner given)
    (renamed : Rule.RenamedTo rules owner given name) : ¬ catalog.IsKeyword owner name := by
  induction renamed with
  | refl => exact plain
  | tail _ step ih =>
    obtain ⟨rule, listed, renames⟩ := step
    exact careful rule listed owner _ _ renames ih

theorem NamedBy.wellNamed (careful : ∀ rule ∈ rules, rule.Careful catalog)
    (named : n.NamedBy catalog rules) : n.WellNamed catalog := by
  cases n with
  | field i name operator =>
    obtain ⟨given, keyed, renamed⟩ := named
    obtain ⟨-, -, -, ungrouping, undeclared⟩ := keyed
    refine unreserved_of_careful careful ?_ renamed
    simp [Catalog.IsKeyword, ungrouping, undeclared]
  | relation i r children => exact named.2
  | group i connective branches => exact named

theorem NamedBy.field_of_misnamed (named : n.NamedBy catalog rules)
    (misnamed : ¬ n.WellNamed catalog) :
    ∃ before after, n.fieldName? = some after ∧
      ∃ rule ∈ rules, rule.Renames n.info.collection before after := by
  cases n with
  | field i name operator =>
    obtain ⟨given, keyed, renamed⟩ := named
    rcases ReflTransGen.cases_tail renamed with same | ⟨before, -, last⟩
    · obtain ⟨-, -, -, ungrouping, undeclared⟩ := keyed
      rw [same] at misnamed
      simp [WellNamed, Catalog.IsKeyword, ungrouping, undeclared] at misnamed
    · exact ⟨before, name, rfl, last⟩
  | relation i r children => exact absurd named.2 misnamed
  | group i connective branches => exact absurd named misnamed

end Node

theorem Rule.visitor_keeps_names {rules : List Rule} {rule : Rule} (listed : rule ∈ rules)
    (catalog : Catalog) (parser : FilterParser) :
    Visit.Keeps parser (fun _ _ n => ∀ m ∈ n.within, m.NamedBy catalog rules) rule.visitor := by
  intro path owner n named m acted
  simp only [visitor, Traced.result_lift] at acted
  rcases acted with replaced | added
  · cases acts_of_act replaced with
    | replace i before after operator value compiler taken given =>
      have renamed : RenamedTo rules i.collection before after := by
        rcases taken with rfl | renames
        · exact ReflTransGen.refl
        · exact ReflTransGen.single ⟨rule, listed, renames⟩
      rw [Node.within, List.forall_mem_singleton] at named ⊢
      obtain ⟨origin, keyed, first⟩ := named
      exact ⟨origin, keyed, first.trans renamed⟩
  · cases acts_of_act added

open Node in
/-- After any rules in any order, groups and relations have the keys they were read from, and the
name of a field is that of its key or one that the rules came to from there. No rule checks the
name it gives: a field is named like a group or a relation only if a rule did that, and never if the
rules are careful. -/
theorem FilterCompiler.rewritten_names {c : FilterCompiler} {rules : List Rule}
    (built : c.visitors = rules.map Rule.visitor) {collection : String} {filter : Json}
    {nodes : List Node} (parsed : (c.parse collection filter).result = .ok nodes) :
    (∀ m ∈ withinAll nodes, m.NamedBy c.catalog rules) ∧
      (∀ m ∈ withinAll nodes, ¬ m.WellNamed c.catalog → ∃ before after,
        m.fieldName? = some after ∧
          ∃ rule ∈ rules, rule.Renames m.info.collection before after) ∧
      ((∀ rule ∈ rules, rule.Careful c.catalog) →
        ∀ m ∈ withinAll nodes, m.WellNamed c.catalog) := by
  have named : ∀ m ∈ withinAll nodes, m.NamedBy c.catalog rules := by
    refine forall_withinAll.mpr (parse_keeps (namedBy_invariant c.catalog rules) ?_ ?_ parsed)
    · exact Rule.forall_visitors built fun rule listed =>
        rule.visitor_keeps_names listed c.catalog c.parser
    · exact fun owner n declared => declared.namedBy rules
  refine ⟨named, ?_, ?_⟩
  · intro m inside misnamed
    exact (named m inside).field_of_misnamed misnamed
  · intro careful m inside
    exact (named m inside).wellNamed careful

theorem joiningRules_careful : ∀ rule ∈ joiningRules, rule.Careful Catalog.posts := by
  intro rule listed owner before after renames plain
  simp only [joiningRules, List.mem_cons, List.not_mem_nil, or_false] at listed
  rcases listed with rfl | rfl
  · obtain ⟨-, -, rfl⟩ := renames
    have ungrouping : Connective.ofKey? "fullName" = none := by decide
    simp [Catalog.IsKeyword, Catalog.isRelation, Catalog.relation?, Catalog.posts, ungrouping]
  · exact renames.elim

theorem joiningFilter_wellNamed :
    joiningCompiler.visitors = joiningRules.map Rule.visitor ∧
    (∀ rule ∈ joiningRules, rule.Careful Catalog.posts) ∧
    ∃ nodes, (joiningCompiler.parse "Post" joiningFilter).result = .ok nodes ∧
      ∀ m ∈ Node.withinAll nodes, m.WellNamed Catalog.posts := by
  have parsed : ∃ nodes, (joiningCompiler.parse "Post" joiningFilter).result = .ok nodes :=
    ⟨_, rfl⟩
  obtain ⟨nodes, parsed⟩ := parsed
  obtain ⟨-, -, wellNamed⟩ := FilterCompiler.rewritten_names rfl parsed
  exact ⟨rfl, joiningRules_careful, nodes, parsed, wellNamed joiningRules_careful⟩

def careless : FilterCompiler where
  catalog := Catalog.posts
  visitors := [Rule.rename ⟨"writer", none⟩ "author", .negate ⟨"all", none⟩ "OR"].map Rule.visitor
  config := {}

def writerFilter : Json := .obj [("writer", .str "Ann"), ("all", .bool true)]

-- Replacing the node through the parser is refused, where the rule puts the same name unseen.
theorem writerFilter_misnamed :
    (∃ nodes, (careless.parse "Post" writerFilter).result = .ok nodes ∧
      nodes.map (·.fieldName?) = [some "author", some "OR"] ∧
      ∀ n ∈ nodes, ¬ n.WellNamed Catalog.posts) ∧
    (VisitContext.replace ⟨careless.parser, "Post", []⟩ "author" (.str "Ann")).result =
      .error (.malformedFilter
        "relation 'author' on 'Post' expects a nested filter object, got a string") := by
  refine ⟨⟨_, rfl, rfl, ?_⟩, rfl⟩
  decide

end DocQuery
