import AtlasDb.Analysis.HandlerFlow
import AtlasDb.Analysis.Modalities
import AtlasDb.Lib.Assoc
import AtlasDb.Semantics.Dominance
import AtlasDb.Semantics.Writes

/-!
# What obligations say about executions

`MUST` rests on dominance, so it holds of executions that follow the graph
(`must_obligation_occurs`). Three things are not covered by it: `MUST_IF_CALLER_CONTRACT_HOLDS` is
given whatever the relationship of the effect to the primary one, postdominance inside a `CONTINUE`
handler ignores where the handler resumes, and postdominance in a loop allows the effect to come in
a later iteration.

What the caller observes needs more (`must_obligation_observed`): an output has to be written last
by the effect, whatever the statements of the procedure assign, and a `SIGNAL` has to leave the
procedure.
-/

namespace AtlasDb.Semantics

open Core Lib Parsing Analysis

/-! ## Occurrence -/

/-- `m` is executed in the iteration of the loop in which `v` is: the header is not visited in
between. -/
def SameIteration (loop m : NodeRef) (before : List Visit) (v : Visit) (after : List Visit) :
    Prop :=
  v.node = m ∨
  (∃ early u late, before = early ++ u :: late ∧ u.node = m ∧ ∀ w ∈ late, w.node ≠ loop) ∨
  ∃ early u late, after = early ++ u :: late ∧ u.node = m ∧ ∀ w ∈ early, w.node ≠ loop

/-- Every path of the graph from the header of the loop to `n`, or every one from `n` back to the
header, goes through `m`. -/
def KeepsIteration (nx : DominatorLibrary) (ast : ProcedureAst) (loop m n : NodeRef) : Prop :=
  m = n ∨
  (dominatesRef nx (.build ast) m n = true ∧ loop ∉ continueRefs ast ∧
    ¬ ReachesBefore (CfgEdgeOf ast) (.ast m) (.ast loop) (.ast n)) ∨
  (postdominatesRef nx (.build ast) m n = true ∧ n ∉ continueRefs ast ∧
    ¬ ReachesBefore (CfgEdgeOf ast) (.ast m) (.ast n) (.ast loop))

section Occurrence

variable {collate : Char → Nat} {M : ConditionModel} {nx : DominatorLibrary} {ast : ProcedureAst}
  {c : Config} {before after : List Visit} {v : Visit} {m loop : NodeRef}

theorem visited_of_dominatesRef
    (run : Run (RegularStep collate M ast []) (start ast) (before ++ v :: after) c)
    (hdom : dominatesRef nx (.build ast) m v.node = true) :
    v.node = m ∨ ∃ u ∈ before, u.node = m :=
  visited_before run (dominates_of_dominatesAnswer (nx.spec _ _) hdom)

theorem visited_of_postdominatesRef
    (run : Run (RegularStep collate M ast []) (start ast) (before ++ v :: after) c)
    (hexit : Exited c) (hv : v.node ∉ continueRefs ast)
    (hdom : postdominatesRef nx (.build ast) m v.node = true) :
    v.node = m ∨ ∃ u ∈ after, u.node = m :=
  visited_after run hexit hv (dominates_of_dominatesAnswer (nx.spec _ _) hdom)

theorem visited_of_isRequired
    (run : Run (RegularStep collate M ast []) (start ast) (before ++ v :: after) c)
    (hexit : Exited c)
    (hplace : dominatesRef nx (.build ast) m v.node = true ∨ v.node ∉ continueRefs ast)
    (hrequired : isRequired nx (.build ast) v.node m = true) :
    ∃ u ∈ before ++ v :: after, u.node = m := by
  have hdom : dominatesRef nx (.build ast) m v.node = true ∨
      postdominatesRef nx (.build ast) m v.node = true := by
    simp only [isRequired, Bool.and_eq_true, Bool.or_eq_true] at hrequired
    exact hrequired.2
  by_cases hbefore : dominatesRef nx (.build ast) m v.node = true
  · rcases visited_of_dominatesRef run hbefore with h | ⟨u, hu, h⟩
    · exact ⟨v, by simp, h⟩
    · exact ⟨u, by simp [hu], h⟩
  · have hv := hplace.resolve_left hbefore
    rcases visited_of_postdominatesRef run hexit hv (hdom.resolve_left hbefore) with h | ⟨u, hu, h⟩
    · exact ⟨v, by simp, h⟩
    · exact ⟨u, by simp [hu], h⟩

/-- What keeps the iteration happens in the same one. -/
theorem sameIteration_of_keepsIteration
    (run : Run (RegularStep collate M ast []) (start ast) (before ++ v :: after) c)
    (hexit : Exited c)
    (hkeeps : KeepsIteration nx ast loop m v.node) : SameIteration loop m before v after := by
  rcases hkeeps with rfl | ⟨hdom, hloop, hpath⟩ | ⟨hdom, hv, hpath⟩
  · exact .inl rfl
  · rcases visited_of_dominatesRef run hdom with h | hearlier
    · exact .inl h
    by_cases hheader : ∃ w ∈ before, w.node = loop
    -- the iteration starts at the last visit of the header before `v`
    · obtain ⟨early, l, mid, rfl, hl, hmid⟩ := exists_last hheader
      rw [List.append_assoc, List.cons_append] at run
      have hbetween : l.node = m ∨ ∃ w ∈ mid, w.node = m :=
        visited_between run (by rwa [hl]) (by rwa [hl])
      rcases hbetween with h | hmem
      · exact .inr (.inl ⟨early, l, mid, rfl, h, hmid⟩)
      · obtain ⟨first, u, late, rfl, hu, -⟩ := exists_first hmem
        refine .inr (.inl ⟨early ++ l :: first, u, late, by simp, hu, fun w hw => ?_⟩)
        exact hmid w (by simp [hw])
    · obtain ⟨early, u, late, rfl, hu, -⟩ := exists_first hearlier
      refine .inr (.inl ⟨early, u, late, rfl, hu, fun w hw hloop => hheader ⟨w, ?_, hloop⟩⟩)
      simp [hw]
  · rcases visited_of_postdominatesRef run hexit hv hdom with h | hlater
    · exact .inl h
    -- whichever of `m` and the header comes first after `v`
    obtain ⟨early, u, late, rfl, hu, hearly⟩ :=
      exists_first (p := fun w => w.node = m ∨ w.node = loop)
      (hlater.imp fun u h => ⟨h.1, .inl h.2⟩)
    have hfree : ∀ w ∈ early, w.node ≠ loop := fun w hw h => hearly w hw (.inr h)
    by_cases hum : u.node = m
    · exact .inr (.inr ⟨early, u, late, rfl, hum, hfree⟩)
    · have hloop := hu.resolve_left hum
      rcases visited_between run hv (by rwa [hloop]) with h | ⟨w, hw, h⟩
      · exact .inl h
      · exact absurd (.inl h) (hearly w hw)

end Occurrence

/-- An obligation with a definite modality is never about a conditional effect, and in every
execution that goes along the graph, executes the primary effect and leaves the procedure its effect
is executed too; in a bundle about an iteration, in the same one. -/
theorem must_obligation_occurs (collate : Char → Nat) (M : ConditionModel)
    (nx : DominatorLibrary) (ast : ProcedureAst) (effects : List EffectCandidate)
    (contract : Option CallerTransactionContract)
    (summaries : List LoopSummaryCandidate) {bundle : BehaviorEffectBundle} {o : EffectObligation}
    (hbundle : bundle ∈ phase1Bundles nx ast effects contract)
    (ho : o ∈ phase1Obligations ast effects contract summaries bundle)
    (hmodality : o.modality = .must ∨ o.modality = .mustIfCallerContractHolds)
    (hcaller : o.modality = .mustIfCallerContractHolds → o.effectRef = bundle.primaryEffectRef ∨
      isRequired nx (.build ast) bundle.primaryEffectRef.nodeRef o.effectRef.nodeRef = true)
    (hplace : dominatesRef nx (.build ast) o.effectRef.nodeRef
      bundle.primaryEffectRef.nodeRef = true ∨
      bundle.primaryEffectRef.nodeRef ∉ continueRefs ast)
    (hiteration : ∀ loop, bundle.actionScope = .cursorIteration →
      bundle.actionScopeRef = some loop →
      loop ∈ loopAncestors ast bundle.primaryEffectRef.nodeRef →
      loop ∈ loopAncestors ast o.effectRef.nodeRef →
      KeepsIteration nx ast loop o.effectRef.nodeRef bundle.primaryEffectRef.nodeRef) :
    o.relationship ≠ .conditionalCoEffect ∧
      ∀ before v after c, Run (RegularStep collate M ast []) (start ast) (before ++ v :: after) c →
        Exited c → v.node = bundle.primaryEffectRef.nodeRef →
        (∃ u ∈ before ++ v :: after, u.node = o.effectRef.nodeRef) ∧
        ∀ loop, bundle.actionScope = .cursorIteration → bundle.actionScopeRef = some loop →
          loop ∈ loopAncestors ast bundle.primaryEffectRef.nodeRef →
          loop ∈ loopAncestors ast o.effectRef.nodeRef →
          SameIteration loop o.effectRef.nodeRef before v after := by
  obtain ⟨primary, e, hprimary, heffect, hrelationship, hmust⟩ := mem_bundleObligations hbundle ho
  have hrequired : o.effectRef = bundle.primaryEffectRef ∨
      isRequired nx (.build ast) bundle.primaryEffectRef.nodeRef o.effectRef.nodeRef = true := by
    rcases hmodality with h | h
    · rw [heffect, hprimary]
      exact required_of_relationship (hrelationship ▸ hmust h)
    · exact hcaller h
  constructor
  · rw [hrelationship]
    apply relationship_ne_conditional
    rwa [heffect, hprimary] at hrequired
  · intro before v after c run hexit hv
    rw [← hv] at hrequired hplace hiteration
    constructor
    · rcases hrequired with heq | hrequired
      · exact ⟨v, by simp, by rw [hv, heq]⟩
      · exact visited_of_isRequired run hexit hplace hrequired
    · intro loop hscope href hprimaryLoop hloop
      rw [← hv] at hprimaryLoop
      exact sameIteration_of_keepsIteration run hexit
        (hiteration loop hscope href hprimaryLoop hloop)

def setStatement (target value : String) (offset : Nat) : Statement where
  kind := .set
  text := "SET " ++ target ++ " = " ++ value
  startOffset := offset
  assignment := some ⟨target, value⟩

/-- Two outputs are set in one arm. -/
def twoOutputs : ProcedureAst where
  nodeId := "procedure"
  parameters := [⟨"STATUS", .out⟩, ⟨"CODE", .out⟩]
  commitOnReturn := none
  body :=
    [.ifRegion "if" [.mk ⟨"arm", .if, some "X = 1"⟩
      [.simple "status" (setStatement "STATUS" "1" 10),
       .simple "code" (setStatement "CODE" "2" 20)]]]
  distinct := by decide

def twoOutputsEffects : List EffectCandidate := directEffects twoOutputs (.build twoOutputs) [] []

theorem StepBy.onlyArm {R : Reading} {M : ConditionModel} {scope : List Handler} {id : NodeRef}
    {header : IfArm} {body : List Node} (htruth : R.truth header ≠ some false) :
    StepBy R M scope (.run [.ifRegion id [.mk header body]] [])
      [⟨id, .completed⟩, ⟨header.armId, .completed⟩] (.run body []) := by
  have htake : CanTakeBy R.truth [.mk header body] (.mk header body) :=
    ⟨[], [], rfl, by simp, htruth⟩
  have hstep := @StepBy.ifArm R M scope id _ _ [] [] htake
  rw [List.append_nil] at hstep
  exact hstep

/-- The body of the arm of `twoOutputs`. -/
def twoOutputsArm : List Node :=
  [.simple "status" (setStatement "STATUS" "1" 10), .simple "code" (setStatement "CODE" "2" 20)]

theorem twoOutputs_arm : RegularStep Char.toNat .single twoOutputs [] (start twoOutputs)
    [⟨"if", .completed⟩, ⟨"arm", .completed⟩] (.run twoOutputsArm []) := by
  refine ⟨.onlyArm (by decide), fun h => ?_⟩
  have hframes : frames (.run twoOutputsArm []) = [] := rfl
  generalize Config.run twoOutputsArm [] = b at h hframes
  cases h with
  | misreadArm harm htruth =>
    obtain rfl := List.mem_singleton.mp harm
    exact htruth (by decide)
  | unboundRaise hat => exact hat.calls_ne hframes
  | nestedRaise hat => exact hat.calls_ne hframes

theorem twoOutputs_run : Run (RegularStep Char.toNat .single twoOutputs []) (start twoOutputs)
    ([⟨"if", .completed⟩, ⟨"arm", .completed⟩] ++ ⟨"status", .completed⟩ :: [⟨"code", .completed⟩])
    .returned :=
  Run.head twoOutputs_arm <| Run.head (RegularStep.complete rfl) <|
    Run.head (RegularStep.complete rfl) <| Run.single RegularStep.finish

/-- The second output is required, and it is set whenever the first one is. -/
theorem must_obligation_occurs_in_arm :
    ∃ bundle ∈ phase1Bundles dominatorLibrary twoOutputs twoOutputsEffects none,
      ∃ o ∈ phase1Obligations twoOutputs twoOutputsEffects none [] bundle,
        o.modality = .must ∧ bundle.primaryEffectRef.nodeRef = "status" ∧
        o.effectRef.nodeRef = "code" ∧
        ∃ before v after, Run (RegularStep Char.toNat .single twoOutputs []) (start twoOutputs)
          (before ++ v :: after) .returned ∧ v.node = "status" ∧
          ∃ u ∈ before ++ v :: after, u.node = "code" := by
  have hfound :
    ((phase1Bundles dominatorLibrary twoOutputs twoOutputsEffects none).any fun bundle =>
      (phase1Obligations twoOutputs twoOutputsEffects none [] bundle).any fun o =>
        o.modality = .must && bundle.primaryEffectRef.nodeRef = "status" &&
        o.effectRef.nodeRef = "code" && bundle.actionScope = .procedureInvocation) = true := by
    decide +kernel
  obtain ⟨bundle, hbundle, hobligations⟩ := List.any_eq_true.mp hfound
  obtain ⟨o, ho, hfacts⟩ := List.any_eq_true.mp hobligations
  simp only [Bool.and_eq_true, decide_eq_true_eq] at hfacts
  obtain ⟨⟨⟨hmust, hprimary⟩, heffect⟩, hscope⟩ := hfacts
  refine ⟨bundle, hbundle, o, ho, hmust, hprimary, heffect, ?_⟩
  have hoccurs :=
    must_obligation_occurs Char.toNat .single dominatorLibrary twoOutputs twoOutputsEffects none []
    hbundle ho (.inl hmust) (fun h => by rw [hmust] at h; cases h)
    (.inr (by rw [hprimary]; decide)) (fun _ h => by rw [hscope] at h; cases h)
  rw [hprimary, heffect] at hoccurs
  exact ⟨_, _, _, twoOutputs_run, rfl, (hoccurs.2 _ _ _ _ twoOutputs_run (.inl rfl) rfl).1⟩

def callerContract : CallerTransactionContract := ⟨"contract", [], "digest"⟩

/-- `SELECT B INTO V FROM U` -/
def queryB : Statement where
  kind := .selectInto
  text := "SELECT B INTO V FROM U"
  startOffset := 20
  selectIntoTargets := some ["V"]

/-- Two updates in one arm, with a query between them that may fail. -/
def updateAroundQuery : ProcedureAst where
  nodeId := "procedure"
  parameters := []
  commitOnReturn := none
  body :=
    [.handler "handler" exitHandler.region [],
     .ifRegion "if" [.mk ⟨"arm", .if, some "X = 1"⟩
      [.simple "first" { kind := .dml, text := "UPDATE T SET A = 1", startOffset := 10 },
       .simple "query" queryB,
       .simple "second" { kind := .dml, text := "UPDATE U SET B = 1", startOffset := 30 }]]]
  distinct := by decide

def updateAroundQueryEffects : List EffectCandidate :=
  directEffects updateAroundQuery (.build updateAroundQuery) [] []

/-- With a caller contract the second update gets a definite modality although it is conditional,
and an execution in which the query fails does only the first one. -/
theorem must_if_contract_skipped :
    ∃ bundle ∈ phase1Bundles dominatorLibrary updateAroundQuery updateAroundQueryEffects
        (some callerContract),
      ∃ o ∈ phase1Obligations updateAroundQuery updateAroundQueryEffects (some callerContract) []
          bundle,
        o.modality = .mustIfCallerContractHolds ∧ o.relationship = .conditionalCoEffect ∧
        ∃ visits, StepsBy (.sql Char.toNat) .single (procedureScope updateAroundQuery)
            (start updateAroundQuery) visits .returned ∧
          ⟨bundle.primaryEffectRef.nodeRef, .completed⟩ ∈ visits ∧
          ∀ u ∈ visits, u.node ≠ o.effectRef.nodeRef := by
  have hfound : ((phase1Bundles dominatorLibrary updateAroundQuery updateAroundQueryEffects
      (some callerContract)).any fun bundle =>
      (phase1Obligations updateAroundQuery updateAroundQueryEffects (some callerContract) []
        bundle).any fun o =>
        o.modality = .mustIfCallerContractHolds && o.relationship = .conditionalCoEffect &&
        bundle.primaryEffectRef.nodeRef = "first" && o.effectRef.nodeRef = "second") = true := by
    decide +kernel
  obtain ⟨bundle, hbundle, hobligations⟩ := List.any_eq_true.mp hfound
  obtain ⟨o, ho, hfacts⟩ := List.any_eq_true.mp hobligations
  simp only [Bool.and_eq_true, decide_eq_true_eq] at hfacts
  obtain ⟨⟨⟨hmodality, hrelationship⟩, hprimary⟩, heffect⟩ := hfacts
  refine ⟨bundle, hbundle, o, ho, hmodality, hrelationship,
    [⟨"if", .completed⟩, ⟨"arm", .completed⟩, ⟨"first", .completed⟩, ⟨"query", .raised⟩,
     ⟨"handler", .completed⟩], ?_, ?_, ?_⟩
  · have htakes : TakesBy (.sql Char.toNat) .single
        (activeScopes (procedureScope updateAroundQuery) none []) queryB () exitHandler :=
      ⟨[], _, [], [], [], rfl, rfl, ⟨trivial, trivial⟩, by simp, by simp⟩
    exact Run.head (StepBy.declaration rfl) <| Run.head (StepBy.onlyArm (by decide)) <|
      Run.head (StepBy.complete rfl) <|
      Run.head (StepBy.raise (.statement (.inl rfl)) (by decide) htakes) <|
      Run.single (StepBy.exitProcedure (by decide) rfl)
  · rw [hprimary]
    decide
  · rw [heffect]
    decide

/-! ## Observation -/

/-- The statement at `m` assigns the symbol, and no other assignment can be the last one in the
graph: each that can be reached from `m` is outside `CONTINUE` handlers and leads to the normal exit
only through `m`. -/
def NotOverwritten (assigned : NodeRef → List String) (ast : ProcedureAst) (symbol : String)
    (m : NodeRef) : Prop :=
  symbol ∈ assigned m ∧ m ∉ continueRefs ast ∧
  ∀ ref, ref ≠ m → symbol ∈ assigned ref →
    Relation.ReflTransGen (CfgEdgeOf ast) (.ast m) (.ast ref) →
    ref ∉ continueRefs ast ∧ ¬ ReachesBefore (CfgEdgeOf ast) (.ast m) (.ast ref) .normalExit

/-- A step for which the graph has the edges, with the writes it makes. -/
def RegularWriting (collate : Char → Nat) (M : ConditionModel) (ast : ProcedureAst) (a : Config)
    (log : WriteLog) (b : Config) : Prop :=
  WritingStep collate M ast a log b ∧ ¬ Irregular collate ast [] a b

section Observation

variable {collate : Char → Nat} {M : ConditionModel} {ast : ProcedureAst} {a c : Config}
  {log : WriteLog} {m : NodeRef} {symbol : String} {assigned : NodeRef → List String}

theorem visits_run (run : Run (RegularWriting collate M ast) a log c) :
    Run (RegularStep collate M ast []) a (log.map Prod.fst) c := by
  induction run with
  | refl => exact .refl
  | tail _ last ih =>
    rw [List.map_append]
    exact .tail ih ⟨last.1.1, last.2⟩

theorem reachable_closed (ast : ProcedureAst) (x : CfgRef) :
    ClosedUnless ast (fun _ => False) (Relation.ReflTransGen (CfgEdgeOf ast) x) :=
  fun e he _ hsource hnode _ => .tail hnode (cfgEdgeOf_iff.mpr ⟨e, he, hsource, rfl⟩)

theorem lastWrite_of_notOverwritten
    (run : Run (RegularWriting collate M ast) (start ast) log .returned)
    (hm : ∃ entry ∈ log, entry.1.node = m)
    (heffect : ∀ entry ∈ log, entry.1.node = m → entry.2 = true)
    (hlast : NotOverwritten assigned ast symbol m) : LastWrite assigned symbol m log := by
  obtain ⟨before, entry, after, rfl, rfl, hafter⟩ := exists_last hm
  refine ⟨before, entry, after, rfl, rfl, ⟨heffect entry (by simp) rfl, hlast.1⟩, ?_⟩
  rintro later hlater ⟨-, hassigned⟩
  obtain ⟨mid, late, rfl⟩ := List.append_of_mem hlater
  have hvisits := visits_run run
  simp only [List.map_append, List.map_cons] at hvisits
  have hreach := run_later_mem (reachable_closed ast (.ast entry.1.node)) hvisits hlast.2.1 .refl
    (by simp)
  obtain ⟨hout, hpath⟩ := hlast.2.2 later.1.node (hafter later hlater) hassigned hreach
  rw [← List.cons_append, ← List.append_assoc] at hvisits
  refine hpath (run_end_mem (reachesBefore_closed ast entry.1.node _) hvisits hout .refl ?_)
  intro w hw
  rw [← List.map_cons, List.mem_map] at hw
  obtain ⟨last, hmem, rfl⟩ := hw
  exact hafter last (List.mem_append_right _ hmem)

end Observation

/-! ### Signals -/

mutual

theorem nodeSites_statements (n : Node) (rest : List Node) (p : List Around) :
    (nodeSites n rest p).map (fun s => (s.id, s.stmt)) = n.statements := by
  cases n with
  | simple id stmt => rfl
  | compound id label text body => exact statementSites_statements body _
  | ifRegion id arms => exact armSites_statements arms rest p
  | loop id region body => exact statementSites_statements body _
  | handler id region body => exact statementSites_statements body _

theorem statementSites_statements (code : List Node) (p : List Around) :
    (statementSites code p).map (fun s => (s.id, s.stmt)) = statementsOf code := by
  cases code with
  | nil => rfl
  | cons n ns =>
    rw [statementSites, List.map_append, nodeSites_statements, statementSites_statements ns p]
    rfl

theorem armSites_statements (arms : List Arm) (rest : List Node) (p : List Around) :
    (armSites arms rest p).map (fun s => (s.id, s.stmt)) = statementsOfArms arms := by
  cases arms with
  | nil => rfl
  | cons a arms =>
    obtain ⟨header, body⟩ := a
    rw [armSites, List.map_append, statementSites_statements, armSites_statements arms rest p]
    rfl

end

variable {ast : ProcedureAst}

theorem signal_edge {m : NodeRef} {stmt : Statement} {e : CfgEdge}
    (hm : (m, stmt) ∈ statementsOf ast.body) (hkind : isSignal stmt.kind = true)
    (he : e ∈ cfgEdges ast) (hsource : e.source = .ast m) :
    e.kind = .handler ∨ e.target = .exceptionalExit := by
  rcases mem_cfgEdges.mp he with hadds | rfl | ⟨b, -, rfl⟩
  · rw [← statementSites_statements ast.body [], List.mem_map] at hm
    obtain ⟨s, hs, heq⟩ := hm
    obtain ⟨rfl, rfl⟩ := Prod.mk.inj heq
    right
    rw [adds_unique ast.distinct hs hadds hsource, StatementSite.edge]
    unfold statementEdge
    split <;> simp_all [isSignal]
  · cases hsource
  · exact .inl rfl

theorem pos_eq_exceptionalExit {c : Config} (h : pos c = .exceptionalExit) :
    c = .escaped := by
  have hseq : ∀ (code : List Node) {x : CfgRef}, x ≠ .exceptionalExit →
      seqEntry code x ≠ .exceptionalExit := by
    intro code x hx
    rcases seqEntry_cases code x with heq | ⟨ref, heq⟩
    · rwa [heq]
    · simp [heq]
  have hcont : ∀ k : List Frame, contRef k ≠ .exceptionalExit := by
    intro k
    induction k with
    | nil =>
      intro h
      cases h
    | cons f k ih =>
      cases f with
      | block label scope rest => exact hseq rest ih
      | loop =>
        intro h
        cases h
      | handler h =>
        simp only [contRef, handlerFallthrough]
        split
        · intro h
          cases h
        · intro h
          cases h
  cases c with
  | run code k => exact absurd h (hseq code (hcont k))
  | header => cases h
  | returned => cases h
  | escaped => rfl

theorem run_from_escaped {collate : Char → Nat} {M : ConditionModel}
    {visits : List Visit} {c : Config}
    (run : Run (RegularStep collate M ast []) .escaped visits c) : c = .escaped ∧ visits = [] := by
  induction run with
  | refl => exact ⟨rfl, rfl⟩
  | tail _ last ih =>
    obtain ⟨rfl, -⟩ := ih
    exact absurd last.1 StepBy.not_escaped

theorem escaped_of_signal {collate : Char → Nat} {M : ConditionModel}
    {c : Config} {m : NodeRef} {stmt : Statement} {before after : List Visit} {v : Visit}
    (hm : (m, stmt) ∈ statementsOf ast.body) (hkind : isSignal stmt.kind = true)
    (hfree : ∀ e ∈ cfgEdges ast, e.source = .ast m → e.kind ≠ .handler)
    (run : Run (RegularStep collate M ast []) (start ast) (before ++ v :: after) c)
    (hv : v.node = m) :
    c = .escaped ∧ after = [] := by
  obtain ⟨s, s', first, inner, inner', last, hfirst, hstep, hlast, rfl, rfl⟩ := run.at_label rfl
  have hplaced := (local_run hfirst ⟨placed_start ast, local_start ast⟩).1
  rcases hstep.walk hplaced with hwalk | ⟨h, source, rest, k, -, -, hnil, -⟩
  · have hexit : ∀ {x : CfgRef} {visits : List Visit} {y : CfgRef}, Walk ast x visits y →
        x = .exceptionalExit → y = .exceptionalExit ∧ visits = [] := by
      intro x visits y walk hx
      cases walk with
      | nil => exact ⟨hx, rfl⟩
      | cons => cases hx
    have htail : pos s' = .exceptionalExit ∧ inner' = [] := by
      obtain ⟨node, outcome⟩ := v
      obtain rfl : node = m := hv
      cases hwalk.from_visit with
      | cons he hsource _ rest =>
        have htarget := (signal_edge hm hkind he hsource).resolve_left (hfree _ he hsource)
        exact hexit rest htarget
    obtain ⟨hpos, rfl⟩ := htail
    obtain rfl := pos_eq_exceptionalExit hpos
    obtain ⟨rfl, rfl⟩ := run_from_escaped hlast
    exact ⟨rfl, rfl⟩
  · simp at hnil

/-! ### Where effects come from -/

theorem updateEffect_effectId (analyses : List EffectTransactionAnalysis) (e : EffectCandidate) :
    (updateEffect analyses e).effectId = e.effectId := by
  unfold updateEffect
  split <;> rfl

theorem obligation_effect {effects : List EffectCandidate}
    {contract : Option CallerTransactionContract} {summaries : List LoopSummaryCandidate}
    {bundle : BehaviorEffectBundle} {o : EffectObligation}
    (ho : o ∈ phase1Obligations ast effects contract summaries bundle) :
    ∃ e ∈ effects, e.effectId = o.effectRef := by
  obtain ⟨member, -, ho⟩ := List.mem_filterMap.mp ho
  obtain ⟨e, he, rfl⟩ := Option.map_eq_some_iff.mp ho
  have hmem := List.mem_reverse.mp (List.mem_of_find?_eq_some he)
  obtain ⟨e', he', rfl⟩ := List.mem_map.mp hmem
  exact ⟨e', he', (updateEffect_effectId _ _).symm⟩

/-- What a `MUST` obligation says about the caller's view, where it is right: an output that no
other assignment can overwrite in the graph has the value the effect gave it, if the assignment does
not fail, and a `SIGNAL` without a handler edge leaves the procedure. -/
theorem must_obligation_observed (collate : Char → Nat) (M : ConditionModel)
    (nx : DominatorLibrary) (ast : ProcedureAst) (assigned : NodeRef → List String)
    (sites : List DynamicSqlSite) (variants : List DynamicSqlVariant)
    (contract : Option CallerTransactionContract) (summaries : List LoopSummaryCandidate)
    {bundle : BehaviorEffectBundle} {o : EffectObligation}
    (hbundle : bundle ∈
      phase1Bundles nx ast (directEffects ast (.build ast) sites variants) contract)
    (ho : o ∈
      phase1Obligations ast (directEffects ast (.build ast) sites variants) contract
      summaries bundle)
    (hmust : o.modality = .must) :
    (o.effectRef.kind = .outParameterAssignment → ∀ symbol, o.effectRef.target = some symbol →
      (dominatesRef nx (.build ast) o.effectRef.nodeRef bundle.primaryEffectRef.nodeRef = true ∨
        bundle.primaryEffectRef.nodeRef ∉ continueRefs ast) →
      NotOverwritten assigned ast symbol o.effectRef.nodeRef →
      ∀ log, Run (RegularWriting collate M ast) (start ast) log .returned →
        (∃ entry ∈ log, entry.1.node = bundle.primaryEffectRef.nodeRef) →
        (∀ entry ∈ log, entry.1.node = o.effectRef.nodeRef → entry.2 = true) →
        LastWrite assigned symbol o.effectRef.nodeRef log) ∧
    (o.effectRef.kind = .signal ∨ o.effectRef.kind = .resignal →
      (∀ e ∈ (ControlFlowGraph.build ast).edges, e.source = .ast o.effectRef.nodeRef →
        e.kind ≠ .handler) →
      ∀ before v after c, Run (RegularStep collate M ast []) (start ast) (before ++ v :: after) c →
        v.node = o.effectRef.nodeRef → c = .escaped ∧ after = []) := by
  constructor
  · rintro - symbol - hplace hlast log run ⟨entry, hentry, hprimary⟩ heffective
    obtain ⟨primary, e, hp, heffect, hrelationship, hrel⟩ := mem_bundleObligations hbundle ho
    have hrequired : o.effectRef = bundle.primaryEffectRef ∨
        isRequired nx (.build ast) bundle.primaryEffectRef.nodeRef o.effectRef.nodeRef = true := by
      rw [heffect, hp]
      exact required_of_relationship (hrelationship ▸ hrel hmust)
    refine lastWrite_of_notOverwritten run ?_ heffective hlast
    rcases hrequired with heq | hrequired
    · exact ⟨entry, hentry, by rw [hprimary, heq]⟩
    · obtain ⟨before, after, rfl⟩ := List.append_of_mem hentry
      rw [← hprimary] at hplace hrequired
      have hvisits := visits_run run
      rw [List.map_append, List.map_cons] at hvisits
      obtain ⟨u, hu, hnode⟩ := visited_of_isRequired hvisits (.inl rfl) hplace hrequired
      rw [← List.map_cons, ← List.map_append, List.mem_map] at hu
      obtain ⟨x, hx, rfl⟩ := hu
      exact ⟨x, hx, hnode⟩
  · intro hkind hfree before v after c run hv
    obtain ⟨e, he, heffect⟩ := obligation_effect ho
    rw [← heffect] at hkind hfree hv
    obtain ⟨stmt, hstmt, hsignal⟩ := directEffects_signal he hkind
    refine escaped_of_signal hstmt ?_ hfree run hv
    rcases hsignal with h | h
    · simp [isSignal, h]
    · simp [isSignal, h]

theorem twoOutputs_notOverwritten :
    NotOverwritten (boundBy twoOutputs) twoOutputs "CODE" "code" := by
  refine ⟨by decide +kernel, by decide, fun ref hne hassigned => absurd ?_ hne⟩
  have hstatements : ∀ s ∈ statementsOf twoOutputs.body, "CODE" ∈ targets s.2 → s.1 = "code" := by
    decide +kernel
  cases hlookup : (statementsOf twoOutputs.body).lookup ref with
  | none => simp [boundBy, hlookup] at hassigned
  | some stmt =>
    have htarget : "CODE" ∈ targets stmt := by simpa [boundBy, hlookup] using hassigned
    exact hstatements (ref, stmt) (mem_of_lookup hlookup) htarget

theorem twoOutputs_log : Run (RegularWriting Char.toNat .single twoOutputs) (start twoOutputs)
    [(⟨"if", .completed⟩, false), (⟨"arm", .completed⟩, false), (⟨"status", .completed⟩, true),
      (⟨"code", .completed⟩, true)] .returned := by
  have harm : RegularWriting Char.toNat .single twoOutputs (start twoOutputs)
      [(⟨"if", .completed⟩, false), (⟨"arm", .completed⟩, false)] (.run twoOutputsArm []) :=
    ⟨⟨twoOutputs_arm.1, logOk_of_not_statement (by decide)⟩, twoOutputs_arm.2⟩
  have hset {id : NodeRef} {stmt : Statement} {ns : List Node}
    (hkind : isOrdinary stmt.kind = true) :
      RegularWriting Char.toNat .single twoOutputs (.run (.simple id stmt :: ns) [])
        [(⟨id, .completed⟩, true)] (.run ns []) :=
    ⟨⟨.complete hkind, logOk_complete⟩, (RegularStep.complete (M := .single) hkind).2⟩
  have hend : RegularWriting Char.toNat .single twoOutputs (.run [] []) [] .returned :=
    ⟨⟨.finish, logOk_nil _ _⟩, nofun⟩
  exact Run.head harm <| Run.head (hset rfl) <| Run.head (hset rfl) <| Run.single hend

/-- The second output is returned as set. -/
theorem must_obligation_observed_in_arm :
    ∃ bundle ∈ phase1Bundles dominatorLibrary twoOutputs
        (directEffects twoOutputs (.build twoOutputs) [] []) none,
      ∃ o ∈ phase1Obligations twoOutputs
      (directEffects twoOutputs (.build twoOutputs) [] []) none []
          bundle,
        o.modality = .must ∧ o.effectRef.nodeRef = "code" ∧
        LastWrite (boundBy twoOutputs) "CODE" "code"
          [(⟨"if", .completed⟩, false), (⟨"arm", .completed⟩, false),
            (⟨"status", .completed⟩, true), (⟨"code", .completed⟩, true)] := by
  have hfound : ((phase1Bundles dominatorLibrary twoOutputs
      (directEffects twoOutputs (.build twoOutputs) [] []) none).any fun bundle =>
      (phase1Obligations twoOutputs (directEffects twoOutputs (.build twoOutputs) [] []) none []
        bundle).any fun o =>
        o.modality = .must && bundle.primaryEffectRef.nodeRef = "status" &&
        o.effectRef.nodeRef = "code" && o.effectRef.kind = .outParameterAssignment &&
        o.effectRef.target = some "CODE") = true := by
    decide +kernel
  obtain ⟨bundle, hbundle, hobligations⟩ := List.any_eq_true.mp hfound
  obtain ⟨o, ho, hfacts⟩ := List.any_eq_true.mp hobligations
  simp only [Bool.and_eq_true, decide_eq_true_eq] at hfacts
  obtain ⟨⟨⟨⟨hmust, hprimary⟩, heffect⟩, hkind⟩, htarget⟩ := hfacts
  refine ⟨bundle, hbundle, o, ho, hmust, heffect, ?_⟩
  have hobserved := (must_obligation_observed Char.toNat .single dominatorLibrary twoOutputs
    (boundBy twoOutputs) [] [] none [] hbundle ho hmust).1 hkind "CODE" htarget
  rw [hprimary, heffect] at hobserved
  refine hobserved (.inr (by decide)) twoOutputs_notOverwritten _ twoOutputs_log ?_ (by decide)
  exact ⟨(⟨"status", .completed⟩, true), by simp, rfl⟩

/-- An output is set, and set again in an arm. -/
def outputSetTwice : ProcedureAst where
  nodeId := "procedure"
  parameters := [⟨"RESULT", .out⟩]
  commitOnReturn := none
  body :=
    [.simple "first" (setStatement "RESULT" "1" 10),
     .ifRegion "if" [.mk ⟨"arm", .if, some "X = 1"⟩
       [.simple "second" (setStatement "RESULT" "2" 20)]]]
  distinct := by decide

/-- The first assignment is said to be observed, because some path does not overwrite it. -/
theorem must_obligation_overwritten :
    ∃ bundle ∈ phase1Bundles dominatorLibrary outputSetTwice
        (directEffects outputSetTwice (.build outputSetTwice) [] []) none,
      ∃ o ∈ phase1Obligations outputSetTwice
          (directEffects outputSetTwice (.build outputSetTwice) [] []) none [] bundle,
        o.modality = .must ∧ o.effectRef.kind = .outParameterAssignment ∧
        o.effectRef.target = some "RESULT" ∧
        ∃ log, Run (WritingStep Char.toNat .single outputSetTwice) (start outputSetTwice) log
            .returned ∧
          (∃ entry ∈ log, entry.1 = ⟨bundle.primaryEffectRef.nodeRef, .completed⟩) ∧
          ¬ LastWrite (boundBy outputSetTwice) "RESULT" o.effectRef.nodeRef log := by
  have hfound : ((phase1Bundles dominatorLibrary outputSetTwice
      (directEffects outputSetTwice (.build outputSetTwice) [] []) none).any fun bundle =>
      (phase1Obligations outputSetTwice
        (directEffects outputSetTwice (.build outputSetTwice) [] []) none [] bundle).any fun o =>
        o.modality = .must && o.effectRef.kind = .outParameterAssignment &&
        o.effectRef.target = some "RESULT" && o.effectRef.nodeRef = "first" &&
        bundle.primaryEffectRef.nodeRef = "first") = true := by
    decide +kernel
  obtain ⟨bundle, hbundle, hobligations⟩ := List.any_eq_true.mp hfound
  obtain ⟨o, ho, hfacts⟩ := List.any_eq_true.mp hobligations
  simp only [Bool.and_eq_true, decide_eq_true_eq] at hfacts
  obtain ⟨⟨⟨⟨hmust, hkind⟩, htarget⟩, heffect⟩, hprimary⟩ := hfacts
  refine ⟨bundle, hbundle, o, ho, hmust, hkind, htarget,
    [(⟨"first", .completed⟩, true), (⟨"if", .completed⟩, false), (⟨"arm", .completed⟩, false),
      (⟨"second", .completed⟩, true)], ?_, ?_, ?_⟩
  · have hset {id : NodeRef} {stmt : Statement} {ns : List Node}
        (hkind : isOrdinary stmt.kind = true) : WritingStep Char.toNat .single outputSetTwice
          (.run (.simple id stmt :: ns) []) [(⟨id, .completed⟩, true)] (.run ns []) :=
      ⟨.complete hkind, logOk_complete⟩
    have harm : WritingStep Char.toNat .single outputSetTwice (.run (outputSetTwice.body.drop 1) [])
        [(⟨"if", .completed⟩, false), (⟨"arm", .completed⟩, false)]
        (.run [.simple "second" (setStatement "RESULT" "2" 20)] []) :=
      ⟨.onlyArm (by decide), logOk_of_not_statement (by decide)⟩
    have hend : WritingStep Char.toNat .single outputSetTwice (.run [] []) [] .returned :=
      ⟨.finish, logOk_nil _ _⟩
    exact Run.head (hset rfl) <| Run.head harm <| Run.head (hset rfl) <| Run.single hend
  · exact ⟨_, List.mem_cons_self, by rw [hprimary]⟩
  · rw [heffect]
    intro hlast
    rcases lastWrite_cons hlast with ⟨before, entry, after, hsplit, hnode, -⟩ | ⟨-, -, hfree⟩
    · have hnone : ∀ entry ∈ [((⟨"if", .completed⟩ : Visit), false), (⟨"arm", .completed⟩, false),
          (⟨"second", .completed⟩, true)], entry.1.node ≠ "first" := by decide
      exact hnone entry (hsplit ▸ by simp) hnode
    · exact hfree (⟨"second", .completed⟩, true) (by simp) ⟨rfl, by decide +kernel⟩

end AtlasDb.Semantics
