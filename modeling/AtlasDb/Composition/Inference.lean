import AtlasDb.Composition.CallStatements

/-!
# Compositions of procedures

`composition/inference.py: DirectCallCompositionInferenceService.infer`. Every `CALL` effect of a
run gives a candidate, with the procedure it calls looked up among the runs and its arguments
related to the parameters by position. The candidates stand in the order they are found; their
identifier, a digest, is given by what it is the digest of.
-/

namespace AtlasDb.Composition

open Core

/-! ## Runs -/

/-- A parameter of a parsed procedure: what `get` finds under its two names. -/
structure FormalParameter where
  name : Option String
  parameterName : Option String
deriving DecidableEq

structure SemanticEffect where
  effectKind : String
  target : String
  sourceNodeRef : String
deriving DecidableEq

/-- The artifacts of one run. -/
structure RunRecord where
  schemaName : String
  procedureName : String
  semanticDigest : String
  parameters : List FormalParameter
  nodes : List (String × Option String)
  effects : List SemanticEffect
deriving DecidableEq

/-- `a or b` -/
def orElse (a : Option String) (b : String) : String :=
  match a with
  | some text => if text = "" then b else text
  | none => b

/-- `procedure_ref` -/
def RunRecord.procedureRef (run : RunRecord) : String :=
  Text.upperString (".".intercalate ([run.schemaName, run.procedureName].filter (· ≠ "")))

/-- `invocation_text`: the text of the node. Of two nodes with one reference the later counts. -/
def RunRecord.invocationText (run : RunRecord) (effect : SemanticEffect) : String :=
  orElse ((run.nodes.reverse.lookup effect.sourceNodeRef).getD none)
    ("CALL " ++ Text.upperString effect.target)

/-! ## Candidates -/

inductive CandidateStatus where
  | sourceCallResolved
  | targetSourceUnavailable
  | targetAmbiguous
deriving DecidableEq

inductive CompositionBlocker where
  | callParameterArity
  | overloadedTarget
  | downstreamSourceUnavailable
deriving DecidableEq

structure ParameterMapping where
  upstreamRef : String
  downstreamRef : String
  mappingExpression : String
  evidenceRefs : List String
deriving DecidableEq

/-- What `candidate_id` is the digest of. -/
structure CandidateId where
  upstreamProcedureRef : String
  target : String
  nodeRef : String
deriving DecidableEq

structure CompositionCandidate where
  candidateId : CandidateId
  upstreamProcedureRef : String
  downstreamProcedureRef : String
  upstreamSemanticDigest : String
  downstreamSemanticDigest : Option String
  invocationSiteRef : String
  invocationText : String
  parameterMappings : List ParameterMapping
  status : CandidateStatus
  blockers : List CompositionBlocker
deriving DecidableEq

def argLabel (index : Nat) : String := "ARG_" ++ toString (index + 1)

/-- The name of a parameter. -/
def FormalParameter.label (p : FormalParameter) (index : Nat) : String :=
  orElse p.name (orElse p.parameterName (argLabel index))

/-- The name an argument is related to. -/
def parameterLabel (parameters : List FormalParameter) (index : Nat) : String :=
  match parameters[index]? with
  | some p => p.label index
  | none => argLabel index

def mappingsOf (parameters : List FormalParameter) (arguments : List String) (nodeRef : String) :
    List ParameterMapping :=
  arguments.zipIdx.map fun (argument, index) =>
    ⟨argument, parameterLabel parameters index, argument, [nodeRef]⟩

/-- One turn of the loop over the effects. -/
def candidateOf (runs : List RunRecord) (upstream : RunRecord) (effect : SemanticEffect) :
    CompositionCandidate :=
  let text := upstream.invocationText effect
  let parsed := splitCallArguments text.toList
  let target := orElse (some (String.ofList parsed.1)) (Text.upperString effect.target)
  let arguments := parsed.2.map String.ofList
  let candidate := fun (digest : Option String) (mappings : List ParameterMapping)
      (status : CandidateStatus) (blockers : List CompositionBlocker) =>
    { candidateId := ⟨upstream.procedureRef, target, effect.sourceNodeRef⟩
      upstreamProcedureRef := upstream.procedureRef
      downstreamProcedureRef := target
      upstreamSemanticDigest := upstream.semanticDigest
      downstreamSemanticDigest := digest
      invocationSiteRef := effect.sourceNodeRef
      invocationText := text
      parameterMappings := mappings
      status := status
      blockers := blockers : CompositionCandidate }
  match runs.filter (·.procedureRef = target) with
  | [] => candidate none [] .targetSourceUnavailable [.downstreamSourceUnavailable]
  | [downstream] =>
    candidate (some downstream.semanticDigest)
      (mappingsOf downstream.parameters arguments effect.sourceNodeRef) .sourceCallResolved
      (if arguments.length ≠ downstream.parameters.length then [.callParameterArity] else [])
  | _ => candidate none [] .targetAmbiguous [.overloadedTarget]

/-- `infer`. -/
def infer (runs : List RunRecord) : List CompositionCandidate :=
  runs.flatMap fun upstream =>
    (upstream.effects.filter (·.effectKind = "CALL")).map (candidateOf runs upstream)

/-! ## The pairing of arguments with parameters -/

/-- The candidate of a call: it is of the called routine, and if one run has this the arguments are
related to its parameters by position and the arity blocker is raised iff their numbers differ. -/
def CandidatePairs (call : CallStatement) (runs : List RunRecord)
    (candidate : CompositionCandidate) :
    Prop :=
  candidate.downstreamProcedureRef = String.ofList call.name.value ∧
    ∀ downstream, runs.filter (fun run => run.procedureRef = String.ofList call.name.value) =
    [downstream] →
      candidate.parameterMappings.length = call.actuals.length ∧
      (∀ (index : Nat) (actual : List Char) (formal : FormalParameter),
        call.actuals[index]? = some actual →
        downstream.parameters[index]? = some formal →
        (candidate.parameterMappings[index]?.map fun m => (m.upstreamRef, m.downstreamRef)) =
          some (String.ofList actual, formal.label index)) ∧
      (CompositionBlocker.callParameterArity ∈ candidate.blockers ↔
        call.actuals.length ≠ downstream.parameters.length)

/-- The split finds the name and the arguments of the call, and so every candidate of the call pairs
them with the right parameters. -/
def CallPaired (call : CallStatement) : Prop :=
  splitCallArguments call.text = (call.name.value, call.actuals) ∧
    ∀ runs : List RunRecord, ∀ upstream ∈ runs, ∀ effect ∈ upstream.effects,
      effect.effectKind = "CALL" → upstream.invocationText effect = String.ofList call.text →
      ∃ candidate ∈ infer runs, candidate.invocationSiteRef = effect.sourceNodeRef ∧
        CandidatePairs call runs candidate

theorem mappingsOf_length (parameters : List FormalParameter) (arguments : List String)
    (nodeRef : String) : (mappingsOf parameters arguments nodeRef).length = arguments.length := by
  rw [mappingsOf, List.length_map, List.length_zipIdx]

theorem mappingsOf_getElem? {parameters : List FormalParameter} {arguments : List String}
    {nodeRef argument : String} {formal : FormalParameter} {index : Nat}
    (hargument : arguments[index]? = some argument) (hformal : parameters[index]? = some formal) :
    (mappingsOf parameters arguments nodeRef)[index]? =
      some ⟨argument, formal.label index, argument, [nodeRef]⟩ := by
  rw [mappingsOf, List.getElem?_map, List.getElem?_zipIdx, hargument]
  simp [parameterLabel, hformal]

/-- The candidate pairs the arguments with the parameters. -/
theorem candidateOf_pairs {call : CallStatement}
    (hsplit : splitCallArguments call.text = (call.name.value, call.actuals))
    (runs : List RunRecord) (upstream : RunRecord) (effect : SemanticEffect)
    (htext : upstream.invocationText effect = String.ofList call.text) :
    (candidateOf runs upstream effect).invocationSiteRef = effect.sourceNodeRef ∧
      CandidatePairs call runs (candidateOf runs upstream effect) := by
  have htarget : orElse (some (String.ofList call.name.value)) (Text.upperString effect.target) =
      String.ofList call.name.value := by
    rw [orElse, if_neg]
    intro h
    exact value_ne_nil call.name (by simpa using congrArg String.toList h)
  unfold candidateOf CandidatePairs
  simp only [htext, String.toList_ofList, hsplit, htarget]
  split
  · next hnone => exact ⟨rfl, rfl, fun downstream h => nomatch hnone.symm.trans h⟩
  · next found hfound =>
      refine ⟨rfl, rfl, fun downstream h => ?_⟩
      obtain rfl : found = downstream := by simpa using hfound.symm.trans h
      refine ⟨?_, ?_, ?_⟩
      · rw [mappingsOf_length, List.length_map]
      · intro index actual formal hactual hformal
        have hargument : (call.actuals.map String.ofList)[index]? =
        some (String.ofList actual) := by
          rw [List.getElem?_map, hactual]
          rfl
        rw [mappingsOf_getElem? hargument hformal]
        rfl
      · rw [List.length_map]
        split
        · next hne => exact iff_of_true List.mem_cons_self hne
        · next heq => exact iff_of_false List.not_mem_nil heq
  · next hmany => exact ⟨rfl, rfl, fun downstream h => absurd h (hmany downstream)⟩

/-- **When calls are paired right**: exactly for the statements that are split right. -/
theorem callPaired_iff (call : CallStatement) : CallPaired call ↔ call.IsSplitRight := by
  rw [← CallStatement.split_iff]
  refine ⟨And.left, fun hsplit => ⟨hsplit, ?_⟩⟩
  intro runs upstream hupstream effect heffect hkind htext
  refine ⟨candidateOf runs upstream effect, ?_, candidateOf_pairs hsplit runs upstream effect htext⟩
  refine List.mem_flatMap.mpr ⟨upstream, hupstream, List.mem_map.mpr ⟨effect, ?_, rfl⟩⟩
  exact List.mem_filter.mpr ⟨heffect, by simpa using hkind⟩

/-- The argument `1`. -/
def one : Argument where
  items := [.plain '1' (by decide)]
  hnested := rfl
  hcomments := rfl
  hne := rfl

/-- `CALL`, a new line and `P(1)`. -/
def newlineCall : CallStatement where
  lead := []
  keyword := ['C', 'A', 'L', 'L']
  hkeyword := by decide
  separator := [.space '\n' rfl]
  name := ⟨.plain ['P'] (List.cons_ne_nil _ _) (fun _ hc => List.mem_singleton.mp hc ▸ rfl), []⟩
  hseparator := nofun
  list := some ([], .nonempty one [])
  trail := []
  semicolon := false
  final := []
  lastComment := none

/-- The name is not found when a new line follows the keyword. -/
theorem newlineCall_not_paired : ¬ ∀ call, CallPaired call := by
  intro h
  have hsplit : splitCallArguments newlineCall.text = ([], []) := by decide
  have hname : newlineCall.name.value = ['P'] := by decide
  have hpaired := (h newlineCall).1
  rw [hsplit, hname] at hpaired
  exact nomatch (Prod.mk.inj hpaired).1

end AtlasDb.Composition
