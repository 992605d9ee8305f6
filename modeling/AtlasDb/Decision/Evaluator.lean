import AtlasDb.Lib.Assoc
import AtlasDb.Lib.Kleene
import Mathlib.Data.List.Dedup
import Mathlib.Data.List.Sort

/-!
# Evaluation of an extracted decision model

`decision/models.py` and `decision/evaluator.py: ModelDrivenDecisionEvaluator`. The rules are tried
in the order of their priorities and the first one whose predicates are all true is taken. A rule
that is open, with an unknown predicate and none that is false, does not stop the search, although
it may turn out to be the first match once its predicates are known. So an outcome is stable under
more knowledge exactly when no open rule precedes the first match (`evaluation_stable_iff`).

The content digest of a result is left out: it is computed from the other fields.
-/

namespace AtlasDb.Decision

open Lib

/-! ## Models and requests -/

/-- `TruthValue`. -/
abbrev TruthValue := Truth

structure DecisionPredicate where
  predicateId : String
  expressionText : String
  evidenceRefs : List String
  sourceLine : Option Int := none
deriving DecidableEq

structure DecisionOutput where
  target : String
  valueExpression : Option String := none
  effectKind : String
  evidenceRefs : List String
deriving DecidableEq

structure DecisionRule where
  ruleId : String
  priority : Int
  predicateIds : List String
  outputs : List DecisionOutput
  sourceBehaviorRef : String
  authority : String := "EXTRACTED_TECHNICAL_EVIDENCE"
  completeness : String := "COMPLETE"
deriving DecidableEq

/-- `ExtractedDecisionModel`, with what `validate_refs` checks. -/
structure ExtractedDecisionModel where
  modelId : String
  procedureRef : String
  semanticDigest : String
  predicates : List DecisionPredicate
  rules : List DecisionRule
  limitations : List String := []
  contentDigest : String
  uniquePriorities : (rules.map DecisionRule.priority).Nodup
  knownPredicates : ∀ rule ∈ rules, ∀ pid ∈ rule.predicateIds,
    pid ∈ predicates.map DecisionPredicate.predicateId

/-- `DecisionEvaluationRequest`; the dictionary is a list of entries with distinct keys. -/
structure DecisionEvaluationRequest where
  modelDigest : String
  predicateValues : List (String × TruthValue)
  distinctKeys : (predicateValues.map Prod.fst).Nodup

/-- `request.predicate_values.get(pid, TruthValue.UNKNOWN)`. -/
def DecisionEvaluationRequest.value (request : DecisionEvaluationRequest) (pid : String) :
    TruthValue :=
  (request.predicateValues.lookup pid).getD .unknown

/-! ## Evaluation -/

inductive DecisionModelError where
  /-- "Decision request model_digest does not match the extracted model." -/
  | digestMismatch
  /-- "Unknown predicate IDs", with the sorted list. -/
  | unknownPredicates (ids : List String)
deriving DecidableEq

inductive EvaluationStatus where
  | matched
  | notMatched
  | noMatch
  | inconclusive
deriving DecidableEq

structure RuleEvaluation where
  ruleId : String
  priority : Int
  status : EvaluationStatus
  predicateValues : List (String × TruthValue)
deriving DecidableEq

structure DecisionEvaluationResult where
  modelDigest : String
  status : EvaluationStatus
  matchedRuleId : Option String := none
  outputs : List DecisionOutput := []
  evaluatedRules : List RuleEvaluation := []
  blockers : List String := []
deriving DecidableEq

/-- The status of one rule: false predicates are looked for first. -/
def ruleStatus (values : List TruthValue) : EvaluationStatus :=
  if values.any (· = .false) then .notMatched
  else if values.all (· = .true) then .matched
  else .inconclusive

def DecisionRule.status (value : String → TruthValue) (rule : DecisionRule) : EvaluationStatus :=
  ruleStatus (rule.predicateIds.map value)

def DecisionRule.evaluation (value : String → TruthValue) (rule : DecisionRule) :
    RuleEvaluation where
  ruleId := rule.ruleId
  priority := rule.priority
  status := rule.status value
  predicateValues := rule.predicateIds.map fun pid => (pid, value pid)

/-- What the loop over the rules leaves behind. -/
structure LoopState where
  evaluated : List RuleEvaluation := []
  blockers : List String := []
  matched : Option DecisionRule := none

/-- The loop of `evaluate` over the rules in order. -/
def evaluateRules (value : String → TruthValue) : List DecisionRule → LoopState
  | [] => {}
  | rule :: rules =>
    match rule.status value with
    | .matched => { evaluated := [rule.evaluation value], matched := some rule }
    | .inconclusive =>
      let rest := evaluateRules value rules
      { rest with
        evaluated := rule.evaluation value :: rest.evaluated
        blockers := rule.predicateIds.filter (fun pid => value pid = .unknown) ++ rest.blockers }
    | _ =>
      let rest := evaluateRules value rules
      { rest with evaluated := rule.evaluation value :: rest.evaluated }

/-- `sorted(model.rules, key=lambda item: item.priority)`. -/
def ExtractedDecisionModel.orderedRules (model : ExtractedDecisionModel) : List DecisionRule :=
  model.rules.mergeSort fun a b => decide (a.priority ≤ b.priority)

def sortedStrings (ids : List String) : List String := ids.mergeSort fun a b => decide (a ≤ b)

/-- The keys of the request that are no predicate of the model. -/
def unknownIds (model : ExtractedDecisionModel) (request : DecisionEvaluationRequest) :
    List String :=
  (request.predicateValues.map Prod.fst).filter fun pid =>
    pid ∉ model.predicates.map DecisionPredicate.predicateId

/-- The result for a request that is accepted. -/
def evaluationResult (model : ExtractedDecisionModel) (request : DecisionEvaluationRequest) :
    DecisionEvaluationResult :=
  let state := evaluateRules request.value model.orderedRules
  { modelDigest := model.contentDigest
    status :=
      if state.matched.isSome then .matched
      else if state.blockers = [] then .noMatch
      else .inconclusive
    matchedRuleId := state.matched.map DecisionRule.ruleId
    outputs := (state.matched.map DecisionRule.outputs).getD []
    evaluatedRules := state.evaluated
    blockers := sortedStrings state.blockers.dedup }

/-- `ModelDrivenDecisionEvaluator.evaluate`. -/
def evaluate (model : ExtractedDecisionModel) (request : DecisionEvaluationRequest) :
    Except DecisionModelError DecisionEvaluationResult :=
  if request.modelDigest ≠ model.contentDigest then .error .digestMismatch
  else if unknownIds model request ≠ [] then
    .error (.unknownPredicates (sortedStrings (unknownIds model request)))
  else .ok (evaluationResult model request)

/-! ## Rules under an assignment -/

/-- All predicates of the rule are true. -/
def DecisionRule.AllTrue (value : String → TruthValue) (rule : DecisionRule) : Prop :=
  ∀ pid ∈ rule.predicateIds, value pid = .true

/-- Some predicate of the rule is false. -/
def DecisionRule.HasFalse (value : String → TruthValue) (rule : DecisionRule) : Prop :=
  ∃ pid ∈ rule.predicateIds, value pid = .false

instance (value : String → TruthValue) (rule : DecisionRule) : Decidable (rule.AllTrue value) :=
  inferInstanceAs (Decidable (∀ pid ∈ rule.predicateIds, value pid = .true))

instance (value : String → TruthValue) (rule : DecisionRule) : Decidable (rule.HasFalse value) :=
  inferInstanceAs (Decidable (∃ pid ∈ rule.predicateIds, value pid = .false))

section Rules

variable {value value' : String → TruthValue} {rule : DecisionRule} {rules : List DecisionRule}

theorem DecisionRule.status_eq (value : String → TruthValue) (rule : DecisionRule) :
    rule.status value = if rule.HasFalse value then .notMatched
      else if rule.AllTrue value then .matched else .inconclusive := by
  simp only [DecisionRule.status, ruleStatus, DecisionRule.HasFalse, DecisionRule.AllTrue,
    List.any_map, List.all_map, List.any_eq_true, List.all_eq_true, Function.comp,
    decide_eq_true_eq]
  congr

theorem DecisionRule.AllTrue.not_hasFalse (h : rule.AllTrue value) : ¬ rule.HasFalse value := by
  rintro ⟨pid, hpid, hfalse⟩
  rw [h pid hpid] at hfalse
  cases hfalse

theorem DecisionRule.exists_unknown (htrue : ¬ rule.AllTrue value)
    (hfalse : ¬ rule.HasFalse value) :
    ∃ pid ∈ rule.predicateIds, value pid = .unknown := by
  obtain ⟨pid, hpid, hne⟩ : ∃ pid ∈ rule.predicateIds, value pid ≠ .true := by
    simpa [DecisionRule.AllTrue] using htrue
  refine ⟨pid, hpid, ?_⟩
  cases hvalue : value pid with
  | true => exact absurd hvalue hne
  | false => exact absurd ⟨pid, hpid, hvalue⟩ hfalse
  | unknown => rfl

theorem evaluateRules_matched (value : String → TruthValue) (rules : List DecisionRule) :
    (evaluateRules value rules).matched = rules.find? (fun rule => rule.AllTrue value) := by
  induction rules with
  | nil => rfl
  | cons rule rules ih =>
    rw [evaluateRules, DecisionRule.status_eq]
    by_cases htrue : rule.AllTrue value
    · simp [htrue, htrue.not_hasFalse]
    · by_cases hfalse : rule.HasFalse value
      · simp [hfalse, htrue, ih]
      · simp [hfalse, htrue, ih]

theorem evaluateRules_blockers (hnone : ∀ rule ∈ rules, ¬ rule.AllTrue value) :
    (evaluateRules value rules).blockers = [] ↔ ∀ rule ∈ rules, rule.HasFalse value := by
  induction rules with
  | nil => simp [evaluateRules]
  | cons rule rules ih =>
    obtain ⟨htrue, hrest⟩ := List.forall_mem_cons.mp hnone
    rw [evaluateRules, DecisionRule.status_eq]
    by_cases hfalse : rule.HasFalse value
    · simp [hfalse, ih hrest]
    · obtain ⟨pid, hpid, hunknown⟩ := DecisionRule.exists_unknown htrue hfalse
      have hblocked : ¬ ∀ pid ∈ rule.predicateIds, value pid ≠ .unknown := fun h =>
        h pid hpid hunknown
      simp only [hfalse, htrue, if_false, List.append_eq_nil_iff, List.filter_eq_nil_iff,
        decide_eq_true_eq, List.forall_mem_cons, false_and, iff_false, not_and]
      exact fun h => absurd h hblocked

theorem evaluateRules_last (h : (evaluateRules value rules).matched = some rule) :
    (evaluateRules value rules).evaluated.getLast? = some (rule.evaluation value) := by
  induction rules with
  | nil => cases h
  | cons first rules ih =>
    revert h
    rw [evaluateRules]
    split
    · rintro ⟨⟩
      rfl
    · intro h
      rw [List.getLast?_cons, ih h]
      rfl
    · intro h
      rw [List.getLast?_cons, ih h]
      rfl

end Rules

/-! ## The first match -/

/-- The rule matches and none of higher priority does. -/
structure IsFirst (model : ExtractedDecisionModel) (value : String → TruthValue)
    (rule : DecisionRule) : Prop where
  mem : rule ∈ model.rules
  allTrue : rule.AllTrue value
  first : ∀ rule' ∈ model.rules, rule'.priority < rule.priority → ¬ rule'.AllTrue value

section Order

variable {model : ExtractedDecisionModel} {value : String → TruthValue} {rule rule' : DecisionRule}

theorem ExtractedDecisionModel.eq_of_priority (hrule : rule ∈ model.rules)
    (hrule' : rule' ∈ model.rules) (h : rule.priority = rule'.priority) : rule = rule' :=
  List.inj_on_of_nodup_map model.uniquePriorities hrule hrule' h

theorem mem_orderedRules : rule ∈ model.orderedRules ↔ rule ∈ model.rules :=
  (List.mergeSort_perm _ _).mem_iff

theorem orderedRules_pairwise (model : ExtractedDecisionModel) :
    model.orderedRules.Pairwise fun a b => a.priority < b.priority := by
  have hsorted : model.orderedRules.Pairwise fun a b => a.priority ≤ b.priority := by
    have h : model.orderedRules.Pairwise fun a b => decide (a.priority ≤ b.priority) = true :=
      List.pairwise_mergeSort (fun a b c hab hbc => by simp only [decide_eq_true_eq] at *; omega)
        (fun a b => by simp only [Bool.or_eq_true, decide_eq_true_eq]; omega) model.rules
    simpa using h
  have hnodup : (model.orderedRules.map DecisionRule.priority).Nodup :=
    ((List.mergeSort_perm _ _).map _).nodup_iff.mpr model.uniquePriorities
  have hne : model.orderedRules.Pairwise fun a b => a.priority ≠ b.priority :=
    List.pairwise_map.mp hnodup
  exact hsorted.imp₂ (fun a b hle hne => lt_of_le_of_ne hle hne) hne

theorem isFirst_iff_find :
    IsFirst model value rule ↔
      model.orderedRules.find? (fun rule => rule.AllTrue value) = some rule := by
  rw [List.find?_eq_some_iff_append]
  constructor
  · rintro ⟨hmem, htrue, hfirst⟩
    obtain ⟨before, after, hsplit⟩ := List.append_of_mem (mem_orderedRules.mpr hmem)
    refine ⟨by simpa using htrue, before, after, hsplit, fun rule' hrule' => ?_⟩
    have hlt : rule'.priority < rule.priority := by
      have hpairwise := orderedRules_pairwise model
      rw [hsplit, List.pairwise_append] at hpairwise
      exact hpairwise.2.2 rule' hrule' rule List.mem_cons_self
    have hmem' : rule' ∈ model.rules := by
      rw [← mem_orderedRules, hsplit]
      exact List.mem_append_left _ hrule'
    simpa using hfirst rule' hmem' hlt
  · rintro ⟨htrue, before, after, hsplit, hbefore⟩
    have hmem : rule ∈ model.orderedRules := by simp [hsplit]
    refine ⟨mem_orderedRules.mp hmem, by simpa using htrue, fun rule' hrule' hlt => ?_⟩
    have hpairwise := orderedRules_pairwise model
    rw [hsplit, List.pairwise_append, List.pairwise_cons] at hpairwise
    rw [← mem_orderedRules, hsplit, List.mem_append, List.mem_cons] at hrule'
    rcases hrule' with hrule' | rfl | hrule'
    · simpa using hbefore rule' hrule'
    · omega
    · have hafter := hpairwise.2.1.1 rule' hrule'
      omega

theorem exists_isFirst (hmem : rule ∈ model.rules) (htrue : rule.AllTrue value) :
    ∃ first, IsFirst model value first := by
  cases hfind : model.orderedRules.find? (fun rule => rule.AllTrue value) with
  | none =>
    rw [List.find?_eq_none] at hfind
    exact absurd htrue (by simpa using hfind rule (mem_orderedRules.mpr hmem))
  | some first => exact ⟨first, isFirst_iff_find.mpr hfind⟩

end Order

/-! ## Outcomes -/

/-- The request names the model and only predicates of it. -/
structure Accepted (model : ExtractedDecisionModel) (request : DecisionEvaluationRequest) :
    Prop where
  digest : request.modelDigest = model.contentDigest
  keys : ∀ pid ∈ request.predicateValues.map Prod.fst,
    pid ∈ model.predicates.map DecisionPredicate.predicateId

/-- `evaluate` returns `MATCHED` with the rule: its identifier and outputs are in the result, and it
is the last rule evaluated. -/
def Selects (model : ExtractedDecisionModel) (request : DecisionEvaluationRequest)
    (rule : DecisionRule) : Prop :=
  rule ∈ model.rules ∧ ∃ result, evaluate model request = .ok result ∧ result.status = .matched ∧
    result.matchedRuleId = some rule.ruleId ∧ result.outputs = rule.outputs ∧
    result.evaluatedRules.getLast?.map RuleEvaluation.priority = some rule.priority

/-- `evaluate` returns `NO_MATCH`. -/
def FindsNoMatch (model : ExtractedDecisionModel) (request : DecisionEvaluationRequest) : Prop :=
  ∃ result, evaluate model request = .ok result ∧ result.status = .noMatch

section Outcomes

variable {model : ExtractedDecisionModel} {request request' : DecisionEvaluationRequest}
  {rule rule' : DecisionRule}

theorem Accepted.evaluate_eq (h : Accepted model request) :
    evaluate model request = .ok (evaluationResult model request) := by
  have hunknown : unknownIds model request = [] := by
    rw [unknownIds, List.filter_eq_nil_iff]
    intro pid hpid
    simpa using h.keys pid hpid
  simp [evaluate, h.digest, hunknown]

theorem evaluationResult_of_isFirst (h : IsFirst model request.value rule) :
    (evaluationResult model request).status = .matched ∧
    (evaluationResult model request).matchedRuleId = some rule.ruleId ∧
    (evaluationResult model request).outputs = rule.outputs ∧
    (evaluationResult model request).evaluatedRules.getLast?.map RuleEvaluation.priority
      = some rule.priority := by
  have hmatched : (evaluateRules request.value model.orderedRules).matched = some rule := by
    rw [evaluateRules_matched]
    exact isFirst_iff_find.mp h
  have hlast := evaluateRules_last hmatched
  simp [evaluationResult, hmatched, hlast, DecisionRule.evaluation]

theorem selects_iff (haccept : Accepted model request) :
    Selects model request rule ↔ IsFirst model request.value rule := by
  constructor
  · rintro ⟨hmem, result, hresult, hstatus, -, -, hpriority⟩
    rw [haccept.evaluate_eq] at hresult
    obtain rfl := Except.ok.inj hresult
    -- the rule the loop stopped at has the same priority, so it is the same rule
    cases hmatched : (evaluateRules request.value model.orderedRules).matched with
    | none =>
      simp only [evaluationResult, hmatched] at hstatus
      split at hstatus
      · contradiction
      · split at hstatus <;> cases hstatus
    | some found =>
      have hfound : IsFirst model request.value found := by
        rw [isFirst_iff_find, ← evaluateRules_matched]
        exact hmatched
      have hsame : found.priority = rule.priority := by
        rw [(evaluationResult_of_isFirst hfound).2.2.2] at hpriority
        exact Option.some.inj hpriority
      rw [← ExtractedDecisionModel.eq_of_priority hfound.mem hmem hsame]
      exact hfound
  · intro hfirst
    exact ⟨hfirst.mem, _, haccept.evaluate_eq, evaluationResult_of_isFirst hfirst⟩

theorem findsNoMatch_iff (haccept : Accepted model request) :
    FindsNoMatch model request ↔ ∀ rule ∈ model.rules, rule.HasFalse request.value := by
  have hmatched := evaluateRules_matched request.value model.orderedRules
  constructor
  · rintro ⟨result, hresult, hstatus⟩
    rw [haccept.evaluate_eq] at hresult
    obtain rfl := Except.ok.inj hresult
    simp only [evaluationResult] at hstatus
    split at hstatus
    · cases hstatus
    · next hnone =>
        split at hstatus
        · next hblockers =>
            rw [hmatched, Option.isSome_iff_ne_none, not_not, List.find?_eq_none] at hnone
            have hopen : ∀ rule ∈ model.orderedRules, ¬ rule.AllTrue request.value :=
              fun rule h => by
              simpa using hnone rule h
            intro rule hrule
            exact (evaluateRules_blockers hopen).mp hblockers rule (mem_orderedRules.mpr hrule)
        · cases hstatus
  · intro hfalse
    have hopen : ∀ rule ∈ model.orderedRules, ¬ rule.AllTrue request.value := fun rule h htrue =>
      htrue.not_hasFalse (hfalse rule (mem_orderedRules.mp h))
    refine ⟨_, haccept.evaluate_eq, ?_⟩
    have hnone : (evaluateRules request.value model.orderedRules).matched = none := by
      rw [hmatched, List.find?_eq_none]
      simpa using hopen
    have hblockers := (evaluateRules_blockers hopen).mpr
      fun rule h => hfalse rule (mem_orderedRules.mp h)
    simp [evaluationResult, hnone, hblockers]

end Outcomes

/-! ## More knowledge -/

/-- The second request replaces unknown or missing values of the first by others and changes no
known one. -/
structure Refines (model : ExtractedDecisionModel) (request request' : DecisionEvaluationRequest) :
    Prop where
  accepted : Accepted model request'
  known : ∀ pid, request.value pid ≠ .unknown → request'.value pid = request.value pid

/-- A match stays the match of every refinement, and no match stays no match. -/
def StableAt (model : ExtractedDecisionModel) (request : DecisionEvaluationRequest) : Prop :=
  ∀ request', Refines model request request' →
    (∀ rule, Selects model request rule → Selects model request' rule) ∧
    (FindsNoMatch model request → FindsNoMatch model request')

/-- A rule with an unknown predicate and no false one does not stand before the first match. -/
def NothingOpenBeforeMatch (model : ExtractedDecisionModel) (request : DecisionEvaluationRequest) :
    Prop :=
  ∀ opened ∈ model.rules, ¬ opened.AllTrue request.value → ¬ opened.HasFalse request.value →
    ∀ rule ∈ model.rules, rule.AllTrue request.value → opened.priority < rule.priority →
      ∃ first ∈ model.rules, first.AllTrue request.value ∧ first.priority < opened.priority

instance (model : ExtractedDecisionModel) (request : DecisionEvaluationRequest) :
    Decidable (NothingOpenBeforeMatch model request) := by
  unfold NothingOpenBeforeMatch
  infer_instance

section Refinement

variable {model : ExtractedDecisionModel} {request request' : DecisionEvaluationRequest}
  {rule rule' : DecisionRule}

theorem Refines.allTrue (h : Refines model request request') (htrue : rule.AllTrue request.value) :
    rule.AllTrue request'.value := by
  intro pid hpid
  rw [h.known pid (by simp [htrue pid hpid]), htrue pid hpid]

theorem Refines.hasFalse (h : Refines model request request')
    (hfalse : rule.HasFalse request.value) :
    rule.HasFalse request'.value := by
  obtain ⟨pid, hpid, hvalue⟩ := hfalse
  exact ⟨pid, hpid, by rw [h.known pid (by simp [hvalue]), hvalue]⟩

theorem NothingOpenBeforeMatch.hasFalse (h : NothingOpenBeforeMatch model request)
    (hfirst : IsFirst model request.value rule) (hmem : rule' ∈ model.rules)
    (hlt : rule'.priority < rule.priority) : rule'.HasFalse request.value := by
  by_contra hfalse
  have htrue := hfirst.first rule' hmem hlt
  obtain ⟨earlier, hearlier, hall, hbefore⟩ := h rule' hmem htrue hfalse rule hfirst.mem
    hfirst.allTrue hlt
  exact hfirst.first earlier hearlier (by omega) hall

theorem IsFirst.refine (hfirst : IsFirst model request.value rule)
    (hopen : NothingOpenBeforeMatch model request) (h : Refines model request request') :
    IsFirst model request'.value rule where
  mem := hfirst.mem
  allTrue := h.allTrue hfirst.allTrue
  first _ hmem hlt htrue :=
    htrue.not_hasFalse (h.hasFalse (hopen.hasFalse hfirst hmem hlt))

/-- The unknown predicates of a rule. -/
def unknownsOf (request : DecisionEvaluationRequest) (rule : DecisionRule) : List String :=
  (rule.predicateIds.filter fun pid => request.value pid = .unknown).dedup

/-- The request in which the unknown predicates of the rule are true. -/
def assumeTrue (request : DecisionEvaluationRequest) (rule : DecisionRule) :
    DecisionEvaluationRequest where
  modelDigest := request.modelDigest
  predicateValues := (unknownsOf request rule).map (fun pid => (pid, Truth.true)) ++
    request.predicateValues.filter fun entry => entry.1 ∉ unknownsOf request rule
  distinctKeys := by
    rw [List.map_append, List.map_map, List.nodup_append]
    refine ⟨?_, request.distinctKeys.sublist (List.filter_sublist.map _), ?_⟩
    · simpa [Function.comp_def, unknownsOf] using List.nodup_dedup _
    · intro pid hpid key hkey
      simp only [Function.comp_def, List.map_id', List.mem_map, List.mem_filter,
        decide_eq_true_eq] at hpid hkey
      obtain ⟨entry, ⟨-, hentry⟩, rfl⟩ := hkey
      rintro rfl
      exact hentry hpid

theorem lookup_map_true {ids : List String} {pid : String} :
    (ids.map fun id => (id, Truth.true)).lookup pid = if pid ∈ ids then some .true else none := by
  induction ids with
  | nil => rfl
  | cons id ids ih =>
    rw [List.map_cons, List.lookup_cons, ih]
    by_cases hid : pid = id
    · simp [hid]
    · rw [beq_eq_false_iff_ne.mpr hid]
      simp [hid]

theorem assumeTrue_value (request : DecisionEvaluationRequest) (rule : DecisionRule)
    (pid : String) :
    (assumeTrue request rule).value pid
      = if pid ∈ unknownsOf request rule then .true else request.value pid := by
  rw [DecisionEvaluationRequest.value, assumeTrue, List.lookup_append, lookup_map_true]
  split
  · rfl
  · next hpid =>
      rw [Option.none_or, lookup_filter_key (p := fun key => key ∉ unknownsOf request rule)
        (by simpa using hpid)]
      rfl

theorem assumeTrue_refines (haccept : Accepted model request) (hmem : rule ∈ model.rules) :
    Refines model request (assumeTrue request rule) where
  accepted :=
    { digest := haccept.digest
      keys := by
        intro pid hpid
        simp only [assumeTrue, List.map_append, List.mem_append, List.map_map, Function.comp_def,
          List.map_id'] at hpid
        rcases hpid with hpid | hpid
        · have hrule : pid ∈ rule.predicateIds := by
            rw [unknownsOf, List.mem_dedup, List.mem_filter] at hpid
            exact hpid.1
          exact model.knownPredicates rule hmem pid hrule
        · exact haccept.keys pid ((List.filter_sublist.map _).subset hpid) }
  known := by
    intro pid hvalue
    have hpid : pid ∉ unknownsOf request rule := by simp [unknownsOf, hvalue]
    rw [assumeTrue_value, if_neg hpid]

theorem assumeTrue_allTrue (hfalse : ¬ rule.HasFalse request.value) :
    rule.AllTrue (assumeTrue request rule).value := by
  intro pid hpid
  rw [assumeTrue_value]
  split
  · rfl
  · next hunknown =>
      cases hvalue : request.value pid with
      | true => rfl
      | false => exact absurd ⟨pid, hpid, hvalue⟩ hfalse
      | unknown => exact absurd (by simp [unknownsOf, hpid, hvalue]) hunknown

end Refinement

/-- An outcome is stable under more knowledge exactly when no open rule stands before the first
match. -/
theorem evaluation_stable_iff (model : ExtractedDecisionModel) (request : DecisionEvaluationRequest)
    (haccept : Accepted model request) :
    StableAt model request ↔ NothingOpenBeforeMatch model request := by
  constructor
  · intro hstable opened hopened hnot hfalse rule hrule htrue hlt
    by_contra hnone
    obtain ⟨first, hfirst⟩ := exists_isFirst hrule htrue
    have hafter : opened.priority < first.priority := by
      rcases lt_trichotomy first.priority opened.priority with hbefore | heq | hafter
      · exact absurd ⟨first, hfirst.mem, hfirst.allTrue, hbefore⟩ hnone
      · exact absurd hfirst.allTrue
          (ExtractedDecisionModel.eq_of_priority hfirst.mem hopened heq ▸ hnot)
      · exact hafter
    -- with its unknown predicates true the open rule comes first
    have hrefines := assumeTrue_refines haccept hopened
    have hselects := (hstable _ hrefines).1 first ((selects_iff haccept).mpr hfirst)
    have hfirst' := (selects_iff hrefines.accepted).mp hselects
    exact hfirst'.first opened hopened hafter (assumeTrue_allTrue hfalse)
  · intro hopen request' hrefines
    refine ⟨fun rule hselects => ?_, fun hnone => ?_⟩
    · rw [selects_iff hrefines.accepted]
      exact ((selects_iff haccept).mp hselects).refine hopen hrefines
    · rw [findsNoMatch_iff hrefines.accepted]
      intro rule hrule
      exact hrefines.hasFalse ((findsNoMatch_iff haccept).mp hnone rule hrule)

/-! ## Open outcomes -/

/-- `evaluate` returns `INCONCLUSIVE`. -/
def IsInconclusive (model : ExtractedDecisionModel) (request : DecisionEvaluationRequest) : Prop :=
  ∃ result, evaluate model request = .ok result ∧ result.status = .inconclusive

/-- The request in which every predicate not known to be true is false. -/
def assumeFalse (model : ExtractedDecisionModel) (request : DecisionEvaluationRequest) :
    DecisionEvaluationRequest where
  modelDigest := request.modelDigest
  predicateValues := (model.predicates.map DecisionPredicate.predicateId).dedup.map fun pid =>
    (pid, if request.value pid = .true then .true else .false)
  distinctKeys := by simpa [Function.comp_def] using List.nodup_dedup _

section Open

variable {model : ExtractedDecisionModel} {request request' : DecisionEvaluationRequest}

theorem assumeFalse_value {pid : String}
    (hpid : pid ∈ model.predicates.map DecisionPredicate.predicateId) :
    (assumeFalse model request).value pid = if request.value pid = .true then .true
    else .false := by
  have hentry := List.mem_map_of_mem
    (f := fun pid => (pid, if request.value pid = .true then Truth.true else .false))
    (List.mem_dedup.mpr hpid)
  rw [DecisionEvaluationRequest.value,
    lookup_of_mem_of_nodup (assumeFalse model request).distinctKeys hentry]
  rfl

theorem assumeFalse_refines (haccept : Accepted model request) :
    Refines model request (assumeFalse model request) where
  accepted := by
    refine ⟨haccept.digest, fun pid hpid => ?_⟩
    simpa [assumeFalse, Function.comp_def] using hpid
  known := by
    intro pid hknown
    -- only a predicate of the request has a known value
    obtain ⟨value, hvalue⟩ : ∃ value, request.predicateValues.lookup pid = some value := by
      apply Option.ne_none_iff_exists'.mp
      intro hnone
      exact hknown (by rw [DecisionEvaluationRequest.value, hnone]; rfl)
    have hkey := haccept.keys pid (List.mem_map_of_mem (f := Prod.fst) (mem_of_lookup hvalue))
    rw [assumeFalse_value hkey]
    cases hcase : request.value pid with
    | true => rfl
    | false => rfl
    | unknown => exact absurd hcase hknown

theorem exists_selects_iff (haccept : Accepted model request) :
    (∃ rule, Selects model request rule) ↔ ∃ rule ∈ model.rules, rule.AllTrue request.value := by
  constructor
  · rintro ⟨rule, hselects⟩
    have hfirst := (selects_iff haccept).mp hselects
    exact ⟨rule, hfirst.mem, hfirst.allTrue⟩
  · rintro ⟨rule, hmem, htrue⟩
    obtain ⟨first, hfirst⟩ := exists_isFirst hmem htrue
    exact ⟨first, (selects_iff haccept).mpr hfirst⟩

theorem isInconclusive_iff (haccept : Accepted model request) :
    IsInconclusive model request ↔
      (∀ rule ∈ model.rules, ¬ rule.AllTrue request.value) ∧
        ∃ rule ∈ model.rules, ¬ rule.HasFalse request.value := by
  have hmatched : (evaluateRules request.value model.orderedRules).matched = none ↔
      ∀ rule ∈ model.rules, ¬ rule.AllTrue request.value := by
    rw [evaluateRules_matched, List.find?_eq_none]
    simp only [decide_eq_true_eq, mem_orderedRules]
  have hreturns : IsInconclusive model request ↔
    (evaluationResult model request).status = .inconclusive := by
    rw [IsInconclusive, haccept.evaluate_eq]
    simp
  rw [hreturns, ← hmatched]
  cases hfound : (evaluateRules request.value model.orderedRules).matched with
  | some rule => simp [evaluationResult, hfound]
  | none =>
    have hblockers := evaluateRules_blockers fun rule hrule =>
      hmatched.mp hfound rule (mem_orderedRules.mp hrule)
    have hopen : (∃ rule ∈ model.rules, ¬ rule.HasFalse request.value) ↔
        (evaluateRules request.value model.orderedRules).blockers ≠ [] := by
      rw [ne_eq, hblockers]
      simp only [mem_orderedRules, not_forall, exists_prop]
    rw [hopen]
    simp [evaluationResult, hfound]

/-- **Inconclusive means undecided**: it is returned just when more knowledge can still bring a
match and can still bring none. -/
theorem inconclusive_iff_undecided (model : ExtractedDecisionModel)
    (request : DecisionEvaluationRequest) (haccept : Accepted model request) :
    IsInconclusive model request ↔
      (∃ request', Refines model request request' ∧ ∃ rule, Selects model request' rule) ∧
        ∃ request', Refines model request request' ∧ FindsNoMatch model request' := by
  rw [isInconclusive_iff haccept]
  constructor
  · rintro ⟨hnone, rule, hrule, hopen⟩
    constructor
    · have hrefines := assumeTrue_refines haccept hrule
      exact
      ⟨_, hrefines,
        (exists_selects_iff hrefines.accepted).mpr ⟨rule, hrule, assumeTrue_allTrue hopen⟩⟩
    · have hrefines := assumeFalse_refines haccept
      refine ⟨_, hrefines, (findsNoMatch_iff hrefines.accepted).mpr fun rule hrule => ?_⟩
      -- a predicate that is not true now is false then
      obtain ⟨pid, hpid, hne⟩ : ∃ pid ∈ rule.predicateIds, request.value pid ≠ .true := by
        simpa [DecisionRule.AllTrue] using hnone rule hrule
      exact
        ⟨pid, hpid,
          by rw [assumeFalse_value (model.knownPredicates rule hrule pid hpid), if_neg hne]⟩
  · rintro ⟨⟨matching, hmatching, hselects⟩, failing, hfailing, hfails⟩
    constructor
    · intro rule hrule htrue
      have hfalse := (findsNoMatch_iff hfailing.accepted).mp hfails rule hrule
      exact (hfailing.allTrue htrue).not_hasFalse hfalse
    · obtain ⟨rule, hrule, htrue⟩ := (exists_selects_iff hmatching.accepted).mp hselects
      exact ⟨rule, hrule, fun hfalse => htrue.not_hasFalse (hmatching.hasFalse hfalse)⟩

end Open

/-! ## Two rules -/

def ruleOn (ruleId : String) (priority : Int) (pid : String) : DecisionRule where
  ruleId := ruleId
  priority := priority
  predicateIds := [pid]
  outputs := [{ target := "P_DECISION", effectKind := "ASSIGNMENT", evidenceRefs := [] }]
  sourceBehaviorRef := "slice"

/-- A rule on the first predicate, then a rule on the second. -/
def twoRules : ExtractedDecisionModel where
  modelId := "model"
  procedureRef := "CLAIMS.DECIDE"
  semanticDigest := "semantic"
  predicates := [⟨"first", "P_RISK > 90", [], some 10⟩, ⟨"second", "P_AMOUNT > 0", [], some 20⟩]
  rules := [ruleOn "reject" 1 "first", ruleOn "approve" 2 "second"]
  contentDigest := "digest"
  uniquePriorities := by decide
  knownPredicates := by decide

def requestOf (values : List (String × TruthValue)) (h : (values.map Prod.fst).Nodup) :
    DecisionEvaluationRequest where
  modelDigest := "digest"
  predicateValues := values
  distinctKeys := h

/-- The first predicate is known to be false. -/
def rejectedFirst : DecisionEvaluationRequest :=
  requestOf [("first", .false), ("second", .true)] (by decide)

/-- Only the second predicate is known. -/
def secondOnly : DecisionEvaluationRequest := requestOf [("second", .true)] (by decide)

/-- Only the second predicate is known, and it is false. -/
def openFirst : DecisionEvaluationRequest := requestOf [("second", .false)] (by decide)

def bothTrue : DecisionEvaluationRequest :=
  requestOf [("first", .true), ("second", .true)] (by decide)

/-- A request that decides both rules. -/
theorem decided_request_stable : Accepted twoRules rejectedFirst ∧
    StableAt twoRules rejectedFirst :=
  have haccept : Accepted twoRules rejectedFirst := ⟨rfl, by decide⟩
  ⟨haccept, (evaluation_stable_iff twoRules rejectedFirst haccept).mpr (by decide)⟩

/-- With the first rule open it may yet be selected, or nothing match. -/
theorem first_rule_undecided :
    (∃ request', Refines twoRules openFirst request' ∧ ∃ rule, Selects twoRules request' rule) ∧
      ∃ request', Refines twoRules openFirst request' ∧ FindsNoMatch twoRules request' :=
  have haccept : Accepted twoRules openFirst := ⟨rfl, by decide⟩
  (inconclusive_iff_undecided twoRules openFirst haccept).mp
    ((isInconclusive_iff haccept).mpr ⟨by decide, by decide⟩)

/-- The second rule is taken while the first is open; once the first predicate is true the first
rule is taken. -/
theorem open_rule_overtakes : Accepted twoRules secondOnly ∧ Refines twoRules secondOnly bothTrue ∧
    Selects twoRules secondOnly (ruleOn "approve" 2 "second") ∧
    Selects twoRules bothTrue (ruleOn "reject" 1 "first") ∧ ¬ StableAt twoRules secondOnly := by
  have haccept : Accepted twoRules secondOnly := ⟨rfl, by decide⟩
  have haccept' : Accepted twoRules bothTrue := ⟨rfl, by decide⟩
  have hrefines : Refines twoRules secondOnly bothTrue := by
    refine ⟨haccept', fun pid hknown => ?_⟩
    by_cases hpid : pid = "second"
    · subst hpid
      rfl
    · refine absurd ?_ hknown
      simp [DecisionEvaluationRequest.value, secondOnly, requestOf, List.lookup_cons,
        beq_eq_false_iff_ne.mpr hpid]
  have hsecond : Selects twoRules secondOnly (ruleOn "approve" 2 "second") :=
    (selects_iff haccept).mpr ⟨by decide, by decide, by decide⟩
  have hfirst : Selects twoRules bothTrue (ruleOn "reject" 1 "first") :=
    (selects_iff haccept').mpr ⟨by decide, by decide, by decide⟩
  refine ⟨haccept, hrefines, hsecond, hfirst, fun hstable => ?_⟩
  have hstill := (selects_iff haccept').mp ((hstable _ hrefines).1 _ hsecond)
  exact hstill.first (ruleOn "reject" 1 "first") (by decide) (by decide) (by decide)

end AtlasDb.Decision
