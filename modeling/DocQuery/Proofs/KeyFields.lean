import DocQuery.Proofs.CanonicalKeys
import DocQuery.Proofs.Joins
import DocQuery.Proofs.RuleComposition

set_option autoImplicit false

namespace DocQuery

open List (Forall₂)

def Operator.Exempts (operator : Option Operator) (value : Json) : Prop :=
  value = .null ∨ ∃ pattern ∈ [contains, notContains, regex, startsWith, endsWith],
    operator = some pattern

theorem Rule.convertsKey_eq_false {operator : Option Operator} {value : Json} :
    convertsKey operator value = false ↔ Operator.Exempts operator value := by
  unfold Operator.Exempts
  have null : value.isNull = true ↔ value = .null := by cases value <;> simp [Json.isNull]
  rcases operator with _ | operator
  · simp [convertsKey, null]
  · cases operator <;> simp [convertsKey, Operator.isPattern, null]

namespace Node

variable {config : Config} {n m : Node}

inductive Rekeyed (config : Config) : Node → Node → Prop
  | other {i : Info} {name : String} {operator : Option Operator}
      (unalias : name ≠ config.idAlias) (unkey : name ≠ config.primaryKey) :
      Rekeyed config (.field i name operator) (.field i name operator)
  | exempt {i : Info} {name : String} {operator : Option Operator}
      (key : name = config.idAlias ∨ name = config.primaryKey)
      (exempt : Operator.Exempts operator i.value) :
      Rekeyed config (.field i name operator) (.field i config.primaryKey operator)
  | converted {i : Info} {name : String} {operator : Option Operator} {value : Json}
      (key : name = config.idAlias ∨ name = config.primaryKey)
      (compared : ¬ Operator.Exempts operator i.value)
      (coerced : config.keyType.coerce name i.value = .ok value) :
      Rekeyed config (.field i name operator) (.field { i with value } config.primaryKey operator)
  | relation {i : Info} {r : Relation} {children others : List Node}
      (below : Forall₂ (Rekeyed config) children others) :
      Rekeyed config (.relation i r children) (.relation i r others)
  | group {i : Info} {connective : Connective} {branches others : List (List Node)}
      (below : Forall₂ (Forall₂ (Rekeyed config)) branches others) :
      Rekeyed config (.group i connective branches) (.group i connective others)

variable {i : Info} {name : String} {operator : Option Operator}

theorem run_keyField (shown : (field i name operator).suppressed = false) :
    Rule.run [.ofConfig config] (.field i name operator) =
      if name = config.idAlias ∨ name = config.primaryKey then
        (if Rule.convertsKey operator i.value then config.keyType.coerce name i.value
          else .ok i.value).map fun value => .field { i with value } config.primaryKey operator
      else .ok (.field i name operator) := by
  have named : (name == config.idAlias || name == config.primaryKey) =
      decide (name = config.idAlias ∨ name = config.primaryKey) := (Bool.decide_or _ _).symm
  by_cases key : name = config.idAlias ∨ name = config.primaryKey
  · simp only [Rule.run, List.foldlM_cons, List.foldlM_nil, Rule.step, shown, Rule.ofConfig,
      Rule.act, Rule.canonicalKey, named, key, decide_true, if_true, Bool.false_eq_true, if_false]
    cases Rule.convertsKey operator i.value
    · rfl
    · cases config.keyType.coerce name i.value <;> rfl
  · simp [Rule.run, Rule.step, Rule.ofConfig, Rule.act, Rule.canonicalKey, named, key]

theorem rekeyed_of_run (shown : (field i name operator).suppressed = false)
    (made : Rule.run [.ofConfig config] (.field i name operator) = .ok m) :
    Rekeyed config (.field i name operator) m := by
  rw [run_keyField shown] at made
  split at made
  next key =>
    obtain ⟨value, given, rfl⟩ := Outcome.map_eq_ok.mp made
    split at given
    next compared =>
      refine .converted key ?_ given
      rw [← Rule.convertsKey_eq_false, compared]
      exact Bool.noConfusion
    next exempt =>
      cases given
      exact .exempt key (Rule.convertsKey_eq_false.mp (Bool.not_eq_true _ ▸ exempt))
  next other =>
    cases made
    exact .other (other ∘ .inl) (other ∘ .inr)

theorem rekeyed_of_mapFields (shown : ∀ k ∈ n.within, k.suppressed = false)
    (made : mapFields (Rule.run [.ofConfig config]) n = .ok m) : Rekeyed config n m := by
  induction n generalizing m with
  | field i name operator => exact rekeyed_of_run (shown _ (mem_within_self _)) made
  | relation i r children ih =>
    rw [within, List.forall_mem_cons, forall_withinAll] at shown
    have seen : i.suppressed = false := shown.1
    rw [mapFields_relation seen] at made
    obtain ⟨others, below, rfl⟩ := Outcome.map_eq_ok.mp made
    refine .relation (Outcome.mapM_related (fun n member m made => ?_) below)
    exact ih n member (shown.2 n member) made
  | group i connective branches ih =>
    rw [within, List.forall_mem_cons, forall_withinBranches] at shown
    have seen : i.suppressed = false := shown.1
    rw [mapFields_group seen] at made
    obtain ⟨others, below, rfl⟩ := Outcome.map_eq_ok.mp made
    refine .group (Outcome.mapM_related (fun branch listed made inner => ?_) below)
    refine Outcome.mapM_related (fun n member m made => ?_) inner
    exact ih branch listed n member (shown.2 branch listed n member) made

theorem Rekeyed.fields (rekeyed : Rekeyed config n m) :
    ∀ k ∈ m.within, k.isField = true → ∃ origin, Rekeyed config origin k := by
  induction n generalizing m with
  | field i name operator =>
    have alone : m.within = [m] := by cases rekeyed <;> rfl
    rw [alone, List.forall_mem_singleton]
    exact fun _ => ⟨_, rekeyed⟩
  | relation i r children ih =>
    cases rekeyed with
    | relation below =>
      rw [within, List.forall_mem_cons, forall_withinAll]
      refine ⟨fun field => Bool.noConfusion field, fun m member => ?_⟩
      obtain ⟨n, inside, rekeyed⟩ := forall₂_right below m member
      exact ih n inside rekeyed
  | group i connective branches ih =>
    cases rekeyed with
    | group below =>
      rw [within, List.forall_mem_cons, forall_withinBranches]
      refine ⟨fun field => Bool.noConfusion field, fun made listed m member => ?_⟩
      obtain ⟨branch, branches, below⟩ := forall₂_right below made listed
      obtain ⟨n, inside, rekeyed⟩ := forall₂_right below m member
      exact ih branch branches n inside rekeyed

theorem Rekeyed.unaliased (rekeyed : Rekeyed config n m)
    (distinct : config.idAlias ≠ config.primaryKey) : m.fieldName? ≠ some config.idAlias := by
  cases rekeyed with
  | other unalias => exact mt Option.some.inj unalias
  | exempt => exact mt Option.some.inj distinct.symm
  | converted => exact mt Option.some.inj distinct.symm
  | relation => exact nofun
  | group => exact nofun

theorem Rekeyed.run_again (rekeyed : Rekeyed config n m) (field : m.isField = true) :
    Rule.run [.ofConfig config] m = .ok m := by
  cases hidden : m.suppressed with
  | true => exact Rule.run_of_suppressed hidden _
  | false =>
    cases rekeyed with
    | other unalias unkey =>
      rw [run_keyField hidden, if_neg (not_or.mpr ⟨unalias, unkey⟩)]
    | exempt key exempt =>
      rw [run_keyField hidden, if_pos (.inr rfl), Rule.convertsKey_eq_false.mpr exempt]
      rfl
    | @converted i _ operator value key compared coerced =>
      rw [run_keyField hidden, if_pos (.inr rfl)]
      dsimp only
      rw [KeyType.coerce_settled coerced, ite_self, Outcome.map_ok]
    | relation => cases field
    | group => cases field

end Node

open Node in
/-- Rewriting a parsed filter with the rule for key fields alone leaves no field under the id alias,
renames and converts the key fields and changes nothing else, and a second time changes nothing. -/
theorem Rule.key_fields_canonicalized {config : Config} {parser : FilterParser}
    {collection : String} {filter : Json} {nodes rewritten : List Node}
    (parsed : (parser.parse collection filter).result = .ok nodes)
    (rewrote : (Visit.apply [(Rule.ofConfig config).visitor] parser nodes).result =
      .ok rewritten) :
    (config.idAlias ≠ config.primaryKey →
      ∀ n ∈ withinAll rewritten, n.fieldName? ≠ some config.idAlias) ∧
    Forall₂ (Rekeyed config) nodes rewritten ∧
    (Visit.apply [(Rule.ofConfig config).visitor] parser rewritten).result = .ok rewritten := by
  have swept (nodes : List Node) := Visit.apply_rules [.ofConfig config] parser nodes
  simp only [List.map_singleton] at swept
  have shown : ∀ n ∈ nodes, ∀ k ∈ n.within, k.suppressed = false := fun n member =>
    (parser.parse_declared parsed n member).within fun _ _ read => read.2.1
  have rekeyed : Forall₂ (Rekeyed config) nodes rewritten := by
    rw [swept] at rewrote
    refine Outcome.mapM_related (fun n member m made => ?_) rewrote
    exact rekeyed_of_mapFields (shown n member) made
  have fields : ∀ m ∈ rewritten, ∀ k ∈ m.within, k.isField = true →
      ∃ origin, Rekeyed config origin k := by
    intro m member
    obtain ⟨n, -, rekeyed⟩ := forall₂_right rekeyed m member
    exact rekeyed.fields
  refine ⟨fun distinct => ?_, rekeyed, ?_⟩
  · rw [forall_withinAll]
    intro m member k inside named
    obtain ⟨origin, rekeyed⟩ := fields m member k inside (by simp [isField, named])
    exact rekeyed.unaliased distinct named
  · rw [swept, Outcome.mapM_eq_ok]
    refine List.map_congr_left fun m member => mapFields_fixed fun k inside field => ?_
    obtain ⟨origin, rekeyed⟩ := fields m member k inside field
    exact rekeyed.run_again field

def keyedFilter : Json :=
  .obj [("id", .str " +7 "), ("author", .obj [("id_in", .arr [.str "01", .int 2])]),
    ("or", .arr [.obj [("id_contains", .str "5"), ("id_not", .null)],
      .obj [("_id_gt", .str "-3")]])]

theorem keyedFilter_canonicalized :
    ∃ nodes rewritten, (FilterParser.parse ⟨.posts, 3⟩ "Post" keyedFilter).result = .ok nodes ∧
      (Visit.apply [(Rule.ofConfig { keyType := .int }).visitor] ⟨.posts, 3⟩ nodes).result =
        .ok rewritten ∧
      (Node.withinAll rewritten).filterMap (fun n => n.fieldName?.map fun name =>
        (name, n.info.value)) =
          [("_id", .int 7), ("_id", .arr [.int 1, .int 2]), ("_id", .str "5"), ("_id", .null),
            ("_id", .int (-3))] ∧
      (∀ n ∈ Node.withinAll rewritten, n.fieldName? ≠ some "id") ∧
      (Visit.apply [(Rule.ofConfig { keyType := .int }).visitor] ⟨.posts, 3⟩ rewritten).result =
        .ok rewritten := by
  obtain ⟨unaliased, -, again⟩ :=
    @Rule.key_fields_canonicalized { keyType := .int } ⟨.posts, 3⟩ "Post" keyedFilter _ _ rfl rfl
  exact ⟨_, _, rfl, rfl, rfl, unaliased (by decide), again⟩

end DocQuery
