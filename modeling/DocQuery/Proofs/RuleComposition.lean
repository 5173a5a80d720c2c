import DocQuery.Proofs.Declared
import DocQuery.Proofs.Rewriting

set_option autoImplicit false

namespace DocQuery

namespace Outcome

variable {ε α β γ : Type}

theorem mapM_comp {f : α → Except ε β} {g : β → Except ε γ} {both : α → Except ε γ} {xs : List α}
    (each : ∀ x ∈ xs, ∀ z, both x = .ok z ↔ ∃ y, f x = .ok y ∧ g y = .ok z) (zs : List γ) :
    xs.mapM both = .ok zs ↔ ∃ ys, xs.mapM f = .ok ys ∧ ys.mapM g = .ok zs := by
  induction xs generalizing zs with
  | nil => simp
  | cons x rest ih =>
    obtain ⟨first, others⟩ := List.forall_mem_cons.mp each
    simp only [List.mapM_cons, bind_eq_ok, pure_eq_ok, Except.ok.injEq, first, ih others]
    constructor
    · rintro ⟨z, ⟨y, made, more⟩, later, ⟨ys, rest, last⟩, rfl⟩
      exact ⟨y :: ys, ⟨y, made, ys, rest, rfl⟩, by simp [more, last]⟩
    · rintro ⟨_, ⟨y, made, ys, rest, rfl⟩, all⟩
      simp only [List.mapM_cons, bind_eq_ok, pure_eq_ok, Except.ok.injEq] at all
      obtain ⟨z, more, later, last, rfl⟩ := all
      exact ⟨z, ⟨y, made, more⟩, later, ⟨ys, rest, last⟩, rfl⟩

theorem map_comp {δ : Type} {first : Except ε α} {second : α → Except ε β} {both : Except ε β}
    {wrap : α → γ} {again : γ → Except ε δ} {wrapped : β → δ}
    (below : ∀ z, both = .ok z ↔ ∃ y, first = .ok y ∧ second y = .ok z)
    (inside : ∀ y, again (wrap y) = (second y).map wrapped) (t : δ) :
    both.map wrapped = .ok t ↔ ∃ s, first.map wrap = .ok s ∧ again s = .ok t := by
  simp only [map_eq_ok, below]
  constructor
  · rintro ⟨z, ⟨y, made, more⟩, rfl⟩
    exact ⟨wrap y, ⟨y, made, rfl⟩, by simp [inside, more]⟩
  · rintro ⟨_, ⟨y, made, rfl⟩, all⟩
    rw [inside, map_eq_ok] at all
    obtain ⟨z, more, last⟩ := all
    exact ⟨z, ⟨y, made, more⟩, last⟩

end Outcome

namespace Node

mutual

def mapFields (f : Node → Except QueryError Node) : Node → Except QueryError Node
  | .field i name operator => f (.field i name operator)
  | .relation i r children =>
    if i.suppressed then return .relation i r children
    else return .relation i r (← mapFieldsAll f children)
  | .group i connective branches =>
    if i.suppressed then return .group i connective branches
    else return .group i connective (← mapFieldsBranches f branches)

def mapFieldsAll (f : Node → Except QueryError Node) : List Node → Except QueryError (List Node)
  | [] => return []
  | n :: rest => return (← mapFields f n) :: (← mapFieldsAll f rest)

def mapFieldsBranches (f : Node → Except QueryError Node) :
    List (List Node) → Except QueryError (List (List Node))
  | [] => return []
  | branch :: rest => return (← mapFieldsAll f branch) :: (← mapFieldsBranches f rest)

end

variable {f g : Node → Except QueryError Node}

theorem mapFieldsAll_eq (f : Node → Except QueryError Node) (ns : List Node) :
    mapFieldsAll f ns = ns.mapM (mapFields f) := by
  induction ns with
  | nil => rfl
  | cons n rest ih => rw [mapFieldsAll, List.mapM_cons, ih]

theorem mapFieldsBranches_eq (f : Node → Except QueryError Node) (branches : List (List Node)) :
    mapFieldsBranches f branches = branches.mapM fun branch => branch.mapM (mapFields f) := by
  induction branches with
  | nil => rfl
  | cons branch rest ih => rw [mapFieldsBranches, List.mapM_cons, ih, mapFieldsAll_eq]

theorem mapFields_relation {i : Info} {r : Relation} (shown : i.suppressed = false)
    (children : List Node) :
    mapFields f (.relation i r children) = (children.mapM (mapFields f)).map (.relation i r) := by
  rw [mapFields, shown, mapFieldsAll_eq]
  cases children.mapM (mapFields f) <;> rfl

theorem mapFields_group {i : Info} {connective : Connective} (shown : i.suppressed = false)
    (branches : List (List Node)) :
    mapFields f (.group i connective branches) =
      (branches.mapM fun branch : List Node => branch.mapM (mapFields f)).map
        (.group i connective) := by
  rw [mapFields, shown, mapFieldsBranches_eq]
  cases branches.mapM fun branch : List Node => branch.mapM (mapFields f) <;> rfl

theorem mapFields_fixed {n : Node} (fixed : ∀ m ∈ n.within, m.isField = true → f m = .ok m) :
    mapFields f n = .ok n := by
  have all (ns : List Node) (each : ∀ n ∈ ns, mapFields f n = .ok n) :
      ns.mapM (mapFields f) = .ok ns :=
    Outcome.mapM_eq_ok.mpr (List.map_congr_left each)
  induction n with
  | field i name operator => exact fixed _ (mem_within_self _) rfl
  | relation i r children ih =>
    cases hidden : i.suppressed with
    | true => simp [mapFields, hidden]
    | false =>
      rw [within, List.forall_mem_cons, forall_withinAll] at fixed
      have below := all children fun n member => ih n member (fixed.2 n member)
      rw [mapFields_relation hidden, below, Outcome.map_ok]
  | group i connective branches ih =>
    cases hidden : i.suppressed with
    | true => simp [mapFields, hidden]
    | false =>
      rw [within, List.forall_mem_cons, forall_withinBranches] at fixed
      have below := List.map_congr_left fun branch listed =>
        all branch fun n member => ih branch listed n member (fixed.2 branch listed n member)
      rw [mapFields_group hidden, Outcome.mapM_eq_ok.mpr below, Outcome.map_ok]

theorem mapFields_comp
    (fields : ∀ n m : Node, n.isField = true → f n = .ok m → m.isField = true) (n t : Node) :
    mapFields (fun n => f n >>= g) n = .ok t ↔
      ∃ s, mapFields f n = .ok s ∧ mapFields g s = .ok t := by
  induction n generalizing t with
  | field i name operator =>
    simp only [mapFields, Outcome.bind_eq_ok]
    refine exists_congr fun s => and_congr_right fun made => ?_
    have field := fields _ s rfl made
    cases s with
    | field i name operator => rfl
    | relation i r children => cases field
    | group i connective branches => cases field
  | relation i r children ih =>
    cases hidden : i.suppressed with
    | true => simp [mapFields, hidden]
    | false =>
      simp only [mapFields_relation hidden]
      exact Outcome.map_comp (Outcome.mapM_comp ih) (mapFields_relation hidden) t
  | group i connective branches ih =>
    cases hidden : i.suppressed with
    | true => simp [mapFields, hidden]
    | false =>
      have below := Outcome.mapM_comp fun branch listed => Outcome.mapM_comp (ih branch listed)
      simp only [mapFields_group hidden]
      exact Outcome.map_comp below (mapFields_group hidden) t

end Node

namespace Rule

def step (n : Node) (rule : Rule) : Except QueryError Node :=
  if n.suppressed then return n
  else do
    match ← rule.act n with
    | .keep => return n
    | .suppress => return n.suppress
    | .replace m => return m
    | .addSibling _ => return n

def run (rules : List Rule) (n : Node) : Except QueryError Node := rules.foldlM step n

variable {rule : Rule} {rules : List Rule} {n m : Node}

theorem run_of_suppressed (suppressed : n.suppressed = true) (rules : List Rule) :
    run rules n = .ok n := by
  induction rules with
  | nil => rfl
  | cons rule rest ih => simpa [run, step, suppressed] using ih

theorem act_of_other (other : n.isField = false) (rule : Rule) : rule.act n = .ok .keep := by
  have unnamed : n.fieldName? = none := by simpa [Node.isField] using other
  cases rule <;> cases n <;> simp_all [act, canonicalKey, FieldTarget.covers, Node.fieldName?]

theorem run_of_other (other : n.isField = false) (rules : List Rule) : run rules n = .ok n := by
  induction rules with
  | nil => rfl
  | cons rule rest ih => simpa [run, step, act_of_other other] using ih

@[simp] theorem isField_suppress (n : Node) : n.suppress.isField = n.isField := by
  cases n <;> rfl

theorem step_field (field : n.isField = true) (made : step n rule = .ok m) : m.isField = true := by
  unfold step at made
  split at made
  next => cases made; exact field
  next =>
    simp only [Outcome.bind_eq_ok] at made
    obtain ⟨action, acted, made⟩ := made
    cases acts_of_act acted with
    | keep => cases made; exact field
    | suppress => cases made; simpa using field
    | replace => cases made; rfl

theorem run_field (field : n.isField = true) (made : run rules n = .ok m) : m.isField = true := by
  induction rules generalizing n with
  | nil => cases made; exact field
  | cons rule rest ih =>
    simp only [run, List.foldlM_cons, Outcome.bind_eq_ok] at made
    obtain ⟨left, first, later⟩ := made
    exact ih (step_field field first) later

end Rule

namespace Visit

open Rule

variable {parser : FilterParser} {path : List String}

theorem showTo_rules (rules : List Rule) (n : Node) :
    (showTo parser path (rules.map Rule.visitor) n).result = (run rules n).map (·, []) := by
  induction rules generalizing n with
  | nil => rfl
  | cons rule rest ih =>
    cases hidden : n.suppressed with
    | true => simp [showTo, hidden, run_of_suppressed hidden]
    | false =>
      have acted : (rule.visitor.visit n ⟨parser, n.info.collection, path⟩).result =
          rule.act n := rfl
      simp only [List.map_cons, showTo, run, List.foldlM_cons, step, hidden, Bool.false_eq_true,
        if_false, Traced.result_bind, acted]
      cases found : rule.act n with
      | error e => rfl
      | ok action =>
        cases acts_of_act found with
        | keep => exact ih n
        | suppress => exact ih n.suppress
        | replace => exact ih _

theorem drain_nil (visit : Pending → Traced (Node × List Pending)) (generations : Nat) :
    drain visit generations [] = pure [] := by
  induction generations with
  | zero => rfl
  | succ generations ih => simp [drain, ih]

theorem drain_alone {visit : Pending → Traced (Node × List Pending)}
    {f : Pending → Except QueryError Node} {waiting : List Pending}
    (alone : ∀ p ∈ waiting, (visit p).result = (f p).map (·, [])) (generations : Nat) :
    (drain visit (generations + 1) waiting).result = waiting.mapM f := by
  simp only [drain, Traced.result_bind, Traced.mapM_result alone, Outcome.mapM_map]
  cases waiting.mapM f with
  | error e => rfl
  | ok nodes =>
    have unjoined : (nodes.map (·, ([] : List Pending))).flatMap (·.2) = [] := by
      simp [List.flatMap_eq_nil_iff]
    simp [unjoined, drain_nil, Function.comp_def]

theorem visitNode_rules (rules : List Rule)
    {enclosed : List String → List Node → Traced (List Node)} {n : Node}
    (inner : ∀ branch ∈ n.branches, (enclosed (path ++ [n.info.key]) branch).result =
      branch.mapM (Node.mapFields (run rules))) :
    (visitNode parser path enclosed ⟨n, rules.map Rule.visitor⟩).result =
      (Node.mapFields (run rules) n).map (·, []) := by
  simp only [visitNode, liftM_traced, Traced.result_bind, showTo_rules]
  cases n with
  | field i name operator =>
    rw [Node.mapFields]
    cases made : run rules (.field i name operator) with
    | error e => rfl
    | ok m =>
      obtain ⟨j, other, op, rfl⟩ : ∃ j other op, m = .field j other op := by
        have field := run_field rfl made
        cases m with
        | field j other op => exact ⟨j, other, op, rfl⟩
        | relation i r children => cases field
        | group i connective branches => cases field
      simp only [Outcome.map_ok, Outcome.ok_bind]
      split <;> rfl
  | relation i r children =>
    rw [run_of_other rfl]
    cases hidden : i.suppressed with
    | true => simp [Node.mapFields, hidden]
    | false =>
      have below := inner children (by simp [Node.branches])
      simp only [Node.info] at below
      simp only [Outcome.map_ok, Outcome.ok_bind, Node.suppressed_relation, hidden,
        Bool.false_eq_true, if_false, Traced.result_bind, below, Node.mapFields_relation hidden]
      cases children.mapM (Node.mapFields (run rules)) <;> rfl
  | group i connective branches =>
    rw [run_of_other rfl]
    cases hidden : i.suppressed with
    | true => simp [Node.mapFields, hidden]
    | false =>
      have below := Traced.mapM_result inner
      simp only [Node.branches, Node.info] at below
      simp only [Outcome.map_ok, Outcome.ok_bind, Node.suppressed_group, hidden,
        Bool.false_eq_true, if_false, Traced.result_bind, below, Node.mapFields_group hidden]
      cases branches.mapM fun branch : List Node => branch.mapM (Node.mapFields (run rules)) <;> rfl

theorem drain_rules (rules : List Rule)
    {enclosed : List String → List Node → Traced (List Node)} {nodes : List Node}
    (inner : ∀ n ∈ nodes, ∀ branch ∈ n.branches,
      (enclosed (path ++ [n.info.key]) branch).result = branch.mapM (Node.mapFields (run rules)))
    (generations : Nat) :
    (drain (visitNode parser path enclosed) (generations + 1)
      (nodes.map (⟨·, rules.map Rule.visitor⟩))).result =
        nodes.mapM (Node.mapFields (run rules)) := by
  have alone : ∀ p ∈ nodes.map (⟨·, rules.map Rule.visitor⟩ : Node → Pending),
      (visitNode parser path enclosed p).result =
        (Node.mapFields (run rules) p.node).map (·, []) := by
    intro p listed
    obtain ⟨n, member, rfl⟩ := List.mem_map.mp listed
    exact visitNode_rules rules (inner n member)
  rw [drain_alone alone, List.mapM_map]
  rfl

theorem visitBranch_rules (rules : List Rule) (cut : Traced (List Node)) {levels : Nat}
    {nodes : List Node} (shallow : ∀ n ∈ nodes, n.Fits levels 0) :
    (visitBranch (rules.map Rule.visitor) parser cut levels path nodes).result =
      nodes.mapM (Node.mapFields (run rules)) := by
  induction levels generalizing path nodes with
  | zero =>
    refine drain_rules rules (fun n member branch listed => ?_) _
    rw [(shallow n member).branches_of_full (Nat.le_refl 0)] at listed
    cases listed
  | succ levels ih =>
    refine drain_rules rules (fun n member branch listed => ih fun m inside => ?_) _
    have fits := (shallow n member).below branch listed m inside
    unfold Node.Fits at fits ⊢
    omega

theorem apply_rules (rules : List Rule) (parser : FilterParser) (nodes : List Node) :
    (apply (rules.map Rule.visitor) parser nodes).result =
      nodes.mapM (Node.mapFields (run rules)) := by
  cases visited : (rules.map Rule.visitor).isEmpty with
  | true =>
    obtain rfl : rules = [] := by simpa using visited
    have idle : Node.mapFields (run []) = .ok := funext fun n => Node.mapFields_fixed fun _ _ _ => rfl
    rw [idle]
    exact (Outcome.mapM_eq_ok.mpr rfl).symm
  | false =>
    have swept (e : QueryError) :
        (visitBranch (rules.map Rule.visitor) parser (Traced.fail e) (Node.heightAll nodes) []
          nodes).result = nodes.mapM (Node.mapFields (run rules)) := by
      refine visitBranch_rules rules _ fun n member => ?_
      simpa [Node.Fits] using Node.heightAll_le.mp (Nat.le_refl _) n member
    obtain ⟨outcome, ended⟩ := ended_of_same_result fun e => by
      rw [orFail_visitBranch]
      exact swept e
    rw [apply_of_attempt visited ended, ← attempt_eq_some.mp ended (.execution "")]
    exact swept _

/-- Rules that are run one after another on each node, in one traversal, do what they do in separate
traversals: the one comes to an end exactly if the others do, and with the same tree. -/
theorem rules_compose (vs ws : List Rule) (parser : FilterParser) (nodes rewritten : List Node) :
    (apply ((vs ++ ws).map Rule.visitor) parser nodes).result = .ok rewritten ↔
      ∃ between, (apply (vs.map Rule.visitor) parser nodes).result = .ok between ∧
        (apply (ws.map Rule.visitor) parser between).result = .ok rewritten := by
  have both : run (vs ++ ws) = fun n => run vs n >>= run ws := funext fun n => List.foldlM_append
  simp only [apply_rules, both]
  exact Outcome.mapM_comp (fun n _ => Node.mapFields_comp (fun _ _ => run_field) n) rewritten

end Visit

end DocQuery
