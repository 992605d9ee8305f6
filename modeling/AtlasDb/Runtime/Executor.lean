import AtlasDb.Runtime.Safety
import AtlasDb.Runtime.Verifier

/-!
# Live execution

`runtime/executor.py: IbmDbSandboxExecutor.execute_db2` over any behaviour of the driver: each call
of it returns or raises and may change the server. With an assessment of the assessor, nothing is
sent for a procedure that may end the unit of work of the executor, what a called procedure did is
rolled back or committed before the connection is closed, and it is committed only when nothing
speaks against it (`live_run_contained`).
-/

namespace AtlasDb.Runtime.Executor

open Core Parsing Analysis DynamicSql

/-! ## What is handed to the executor -/

inductive RuntimePlanStatus where
  | readyScripted | readyDb2Sandbox | manualApprovalRequired | blocked
deriving DecidableEq

structure RuntimeVerificationPlan where
  procedureSchema : Option String
  procedureName : String
  /-- the names of the parameters -/
  inputRequirements : List String
  planStatus : RuntimePlanStatus

structure RuntimeInvocationParameter where
  parameterName : String
  parameterMode : String
  value : RuntimeValue

structure RuntimeInvocation where
  parameters : List RuntimeInvocationParameter
  contentDigest : String

structure Db2ObservationProbe where
  probeId : String
  effectRef : String
  relationName : String
  operation : String
  snapshotQuery : String

structure Db2SandboxConfig where
  environmentVariable : String
  sandboxAttestation : String
  manualApprovalRef : Option String
  rollbackAfterCall : Bool
  executeLive : Bool
  observationProbes : List Db2ObservationProbe

/-- The arguments of `execute_db2`. -/
structure LiveRequest where
  plan : RuntimeVerificationPlan
  invocation : RuntimeInvocation
  config : Db2SandboxConfig
  safetyAssessment : Option RuntimeSafetyAssessment
  liveEligibility : Option LiveVerificationEligibility

/-- `_validate_invocation`; `digestOf` is `canonical_digest` of the invocation without its
digest. -/
def validateInvocation (digestOf : RuntimeInvocation → String) (plan : RuntimeVerificationPlan)
    (invocation : RuntimeInvocation) : Except String Unit :=
  if digestOf invocation ≠ invocation.contentDigest
    then .error "Runtime invocation digest is invalid."
  else
    let supplied := invocation.parameters.map fun p => Text.upperString p.parameterName
    let missing := plan.inputRequirements.filter fun name => Text.upperString name ∉ supplied
    if missing ≠ [] then
      .error ("Missing required runtime inputs: " ++
        ", ".intercalate (missing.mergeSort fun a b => decide (a ≤ b)))
    else .ok ()

/-- What rollback may be disabled for. -/
def disposable (a : RuntimeSafetyAssessment) : Bool :=
  a.rollbackContainment = .rollbackSafe && a.transactionOwnership = .executorOwned &&
    !a.internalCommitPresent && a.commitOnReturn = .no && a.externalSideEffectsStatus = .absent

/-- The checks before the driver is loaded. -/
def checkRequest (digestOf : RuntimeInvocation → String) (r : LiveRequest) : Except String Unit :=
  if !r.config.executeLive then .error "Live DB2 execution requires execute_live=true."
  else if Text.strip r.config.sandboxAttestation.toList = [] then
    .error "A sandbox attestation is required."
  else
    match (r.safetyAssessment.map RuntimeSafetyAssessment.liveEligibility).or r.liveEligibility with
    | none => .error "A runtime safety assessment or live eligibility is required."
    | some eligibility =>
      if eligibility = .prohibited then
        .error "Live verification is prohibited by the static safety assessment."
      else if eligibility = .manualApprovalRequired ∧ r.config.manualApprovalRef.getD "" = "" then
        .error "Manual approval is required for this live verification plan."
      else if !r.config.rollbackAfterCall && r.safetyAssessment.isNone then
        .error "NO_ROLLBACK_PROHIBITED: a complete runtime safety assessment is required."
      else if !r.config.rollbackAfterCall && !r.safetyAssessment.any disposable then
        .error ("NO_ROLLBACK_PROHIBITED: rollback may be disabled only for an executor-owned, " ++
          "rollback-safe unit of work with no internal commit, COMMIT ON RETURN, or external side effects.")
      else if r.plan.planStatus = .blocked then .error "Blocked runtime plans cannot be executed."
      else validateInvocation digestOf r.plan r.invocation

/-! ## The driver -/

inductive DriverCall where
  | connect | autocommitOff | snapshot (query : String) | callproc (procname : String)
  | rollback | commit | close
deriving DecidableEq

/-- What is around the executor: the process, and `ibm_db` with the server behind it. `ρ` are the
values the driver passes, `snapshot` is `_snapshot`: the digest of the rows and their number. -/
structure Host (σ ρ : Type) where
  digestOf : RuntimeInvocation → String
  environment : String → Option String
  /-- `ibm_db` can be imported. -/
  installed : Bool
  toPython : RuntimeValue → Except String ρ
  fromPython : ρ → RuntimeValue
  connect : String → σ → Except String Unit × σ
  autocommitOff : σ → Except String Unit × σ
  snapshot : String → σ → Except String (String × Nat) × σ
  callproc : String → List ρ → σ → Except String (Option (List ρ)) × σ
  rollback : σ → Except String Unit × σ
  commit : σ → Except String Unit × σ
  close : σ → Except String Unit × σ

structure RuntimeRowChange where
  probe : Db2ObservationProbe
  beforeDigest : String
  afterDigest : String
  rowCount : Nat

inductive EventKind where
  | begin | commit | callerRollback
deriving DecidableEq

/-- The server, the calls made so far, and the lists the executor appends to. -/
structure Live (σ : Type) where
  server : σ
  calls : List DriverCall := []
  outputParameters : List RuntimeObservedParameter := []
  rowChanges : List RuntimeRowChange := []
  /-- with their sequence numbers -/
  events : List (EventKind × Nat) := [(.begin, 0)]

abbrev Exec (σ α : Type) := Live σ → Except String α × Live σ

variable {σ ρ α β : Type}

def Exec.pure (a : α) : Exec σ α := fun s => (.ok a, s)

def Exec.bind (m : Exec σ α) (f : α → Exec σ β) : Exec σ β := fun s =>
  match m s with
  | (.ok a, s) => f a s
  | (.error e, s) => (.error e, s)

def Exec.modify (f : Live σ → Live σ) : Exec σ Unit := fun s => (.ok (), f s)

def emit (c : DriverCall) (op : σ → Except String α × σ) : Exec σ α := fun s =>
  ((op s.server).1, { s with server := (op s.server).2, calls := s.calls ++ [c] })

/-! ## The run -/

variable (host : Host σ ρ) (r : LiveRequest)

def snapshots : List Db2ObservationProbe → Exec σ (List (String × String × Nat))
  | [] => .pure []
  | probe :: probes =>
    .bind (emit (.snapshot probe.snapshotQuery) (host.snapshot probe.snapshotQuery)) fun taken =>
      .bind (snapshots probes) fun rest => .pure ((probe.probeId, taken) :: rest)

/-- The second loop over the probes. Of two snapshots under one id the dictionary has the last. -/
def compareSnapshots (before : List (String × String × Nat)) :
    List Db2ObservationProbe → Exec σ Unit
  | [] => .pure ()
  | probe :: probes =>
    .bind (emit (.snapshot probe.snapshotQuery) (host.snapshot probe.snapshotQuery)) fun after =>
      .bind (.modify fun s =>
        match before.reverse.lookup probe.probeId with
        | some taken =>
          if taken ≠ after then
            { s with rowChanges := s.rowChanges ++ [⟨probe, taken.1, after.1, after.2⟩] }
          else s
        | none => s) fun _ => compareSnapshots before probes

def outputsOf (returned : Option (List ρ)) : List RuntimeObservedParameter :=
  ((r.invocation.parameters.zip (returned.getD [])).filter fun x =>
    x.1.parameterMode = "OUT" || x.1.parameterMode = "INOUT").map fun x =>
      ⟨x.1.parameterName, host.fromPython x.2⟩

def procname : String :=
  match r.plan.procedureSchema with
  | none | some "" => r.plan.procedureName
  | some schema => schema ++ "." ++ r.plan.procedureName

/-- What is done before the unit of work is ended. -/
def callProcedure : Exec σ Unit :=
  .bind (emit .autocommitOff host.autocommitOff) fun _ =>
    .bind (snapshots host r.config.observationProbes) fun before =>
      .bind (fun s => (r.invocation.parameters.mapM fun p => host.toPython p.value, s))
        fun ordered =>
        .bind (emit (.callproc (procname r)) (host.callproc (procname r) ordered)) fun returned =>
          .bind (.modify fun s => { s with outputParameters := outputsOf host r returned }) fun _ =>
            compareSnapshots host before r.config.observationProbes

def ending : DriverCall := if r.config.rollbackAfterCall then .rollback else .commit

def endUnitOfWork : Exec σ Unit :=
  if r.config.rollbackAfterCall then
    .bind (emit .rollback host.rollback) fun _ =>
      .modify fun s => { s with events := s.events ++ [(.callerRollback, 1)] }
  else
    .bind (emit .commit host.commit) fun _ =>
      .modify fun s => { s with events := s.events ++ [(.commit, 1)] }

structure ExecutionRecord where
  executionStatus : RuntimeExecutionStatus
  outputParameters : List RuntimeObservedParameter
  rowChanges : List RuntimeRowChange
  transactionEvents : List (EventKind × Nat)
  errorMessage : Option String

def recordOf (errorMessage : Option String) (s : Live σ) : ExecutionRecord :=
  ⟨if errorMessage.isSome then .failed else .succeeded, s.outputParameters, s.rowChanges, s.events,
    errorMessage⟩

def closed (errorMessage : Option String) (s : Live σ) : Except String ExecutionRecord × Live σ :=
  (.ok (recordOf errorMessage (emit .close host.close s).2), (emit .close host.close s).2)

/-- The `except` branch of a connected session. -/
def rolledBack (s : Live σ) : Live σ :=
  match emit .rollback host.rollback s with
  | (.ok _, s) => { s with events := s.events ++ [(.callerRollback, 1)] }
  | (.error _, s) => s

/-- `execute_db2`. -/
def executeDb2 (server : σ) : Except String ExecutionRecord × Live σ :=
  match checkRequest host.digestOf r with
  | .error message => (.error message, { server := server })
  | .ok _ =>
    let connection := (host.environment r.config.environmentVariable).getD ""
    if connection = "" then
      (.error
        ("Missing DB2 connection string environment variable: " ++ r.config.environmentVariable),
        { server := server })
    else if !host.installed then
      (.error "ibm_db is not installed in the active environment.", { server := server })
    else
      match emit .connect (host.connect connection) { server := server } with
      | (.error message, s) => (.ok (recordOf (some message) s), s)
      | (.ok _, s) =>
        match Exec.bind (callProcedure host r) (fun _ => endUnitOfWork host r) s with
        | (.ok _, s) => closed host none s
        | (.error message, s) => closed host (some message) (rolledBack host s)

/-! ## What a run calls -/

section Trace

/-- A call that leaves the unit of work open. -/
def leavesOpen : DriverCall → Bool
  | .connect | .rollback | .commit | .close => false
  | .autocommitOff | .snapshot _ | .callproc _ => true

/-- Only such calls are made. -/
def Works (m : Exec σ α) : Prop :=
  ∀ s, ∃ made, (m s).2.calls = s.calls ++ made ∧ ∀ c ∈ made, leavesOpen c = true

theorem works_of_calls {m : Exec σ α} (h : ∀ s, (m s).2.calls = s.calls) : Works m := by
  intro s
  exact ⟨[], by rw [h, List.append_nil], fun _ hc => absurd hc List.not_mem_nil⟩

theorem works_emit {c : DriverCall} (h : leavesOpen c = true) (op : σ → Except String α × σ) :
    Works (emit c op) :=
  fun _ => ⟨[c], rfl, List.forall_mem_singleton.mpr h⟩

theorem Works.bind {m : Exec σ α} {f : α → Exec σ β} (h : Works m) (hf : ∀ a, Works (f a)) :
    Works (m.bind f) := by
  intro s
  obtain ⟨made, hcalls, hmade⟩ := h s
  unfold Exec.bind
  cases hm : m s with
  | mk result t =>
    rw [hm] at hcalls
    cases result with
    | error e => exact ⟨made, hcalls, hmade⟩
    | ok a =>
      obtain ⟨more, hcalls', hmore⟩ := hf a t
      refine ⟨made ++ more, ?_, fun c hc => ?_⟩
      · show ((f a) t).2.calls = _
        rw [hcalls', hcalls, List.append_assoc]
      · rcases List.mem_append.mp hc with hc | hc
        · exact hmade c hc
        · exact hmore c hc

variable {host r}

theorem works_snapshots (probes : List Db2ObservationProbe) : Works (snapshots host probes) := by
  induction probes with
  | nil => exact works_of_calls fun _ => rfl
  | cons probe probes ih =>
    exact (works_emit rfl _).bind fun _ => ih.bind fun _ => works_of_calls fun _ => rfl

theorem works_compareSnapshots (before : List (String × String × Nat))
    (probes : List Db2ObservationProbe) :
    Works (compareSnapshots host before probes) := by
  induction probes with
  | nil => exact works_of_calls fun _ => rfl
  | cons probe probes ih =>
    refine (works_emit rfl _).bind fun after => ?_
    refine (works_of_calls fun _ => ?_).bind fun _ => ih
    unfold Exec.modify
    grind

theorem works_callProcedure : Works (callProcedure host r) := by
  refine (works_emit rfl _).bind fun _ => (works_snapshots _).bind fun before => ?_
  refine (works_of_calls fun _ => rfl).bind fun ordered => ?_
  refine (works_emit rfl _).bind fun returned => ?_
  refine Works.bind ?_ fun _ => works_compareSnapshots before _
  exact works_of_calls fun _ => rfl

theorem endUnitOfWork_calls (s : Live σ) :
    (endUnitOfWork host r s).2.calls = s.calls ++ [ending r] := by
  unfold endUnitOfWork ending
  split
  · unfold Exec.bind Exec.modify emit
    grind
  · unfold Exec.bind Exec.modify emit
    grind

theorem rolledBack_calls (s : Live σ) : (rolledBack host s).calls = s.calls ++ [.rollback] := by
  unfold rolledBack emit
  grind

/-- The calls of a run that passes the checks. -/
inductive Calls (r : LiveRequest) : List DriverCall → Prop where
  | unsent : Calls r []
  | unconnected : Calls r [.connect]
  | ended {work : List DriverCall} (h : ∀ c ∈ work, leavesOpen c = true) :
      Calls r (.connect :: work ++ [ending r, .close])
  | failed {work : List DriverCall} (h : ∀ c ∈ work, leavesOpen c = true) :
      Calls r (.connect :: work ++ [.rollback, .close])
  | failedAtEnd {work : List DriverCall} (h : ∀ c ∈ work, leavesOpen c = true) :
      Calls r (.connect :: (work ++ [ending r]) ++ [.rollback, .close])

/-- What an execution sends to the driver. -/
theorem executeDb2_calls (server : σ) : Calls r (executeDb2 host r server).2.calls := by
  unfold executeDb2
  split
  · exact .unsent
  · dsimp only
    split
    · exact .unsent
    · split
      · exact .unsent
      · split
        · next hconnect =>
            obtain rfl := (congrArg Prod.snd hconnect).symm
            exact .unconnected
        · next s hconnect =>
            have hs : s.calls = [.connect] := (congrArg (fun r => r.2.calls) hconnect).symm
            obtain ⟨work, hcalls, hwork⟩ := @works_callProcedure _ _ host r s
            rw [hs] at hcalls
            -- what is called depends on whether the work, and then its end, raise
            cases hm : callProcedure host r s with
            | mk result t =>
              rw [hm] at hcalls
              dsimp only at hcalls
              have hclosed (message : Option String) (u : Live σ) :
                  (closed host message u).2.calls = u.calls ++ [.close] := rfl
              cases result with
              | error e =>
                simp only [Exec.bind, hm, hclosed, rolledBack_calls, hcalls]
                simpa using Calls.failed hwork
              | ok a =>
                have hend := @endUnitOfWork_calls _ _ host r t
                simp only [Exec.bind, hm]
                cases hr : endUnitOfWork host r t with
                | mk result u =>
                  rw [hr, hcalls] at hend
                  dsimp only at hend
                  cases result with
                  | ok a =>
                    simp only [hclosed, hend]
                    simpa using Calls.ended hwork
                  | error e =>
                    simp only [hclosed, rolledBack_calls, hend]
                    simpa using Calls.failedAtEnd hwork

theorem checked_of_calls {server : σ} (h : (executeDb2 host r server).2.calls ≠ []) :
    checkRequest host.digestOf r = .ok () := by
  unfold executeDb2 at h
  split at h
  · exact absurd rfl h
  · next hchecked => exact hchecked

end Trace

/-! ## Runs with an assessment -/

theorem checkRequest_ok {digestOf : RuntimeInvocation → String} {r : LiveRequest}
    {a : RuntimeSafetyAssessment}
    (h : checkRequest digestOf r = .ok ()) (ha : r.safetyAssessment = some a) :
    r.config.executeLive = true ∧ a.liveEligibility ≠ .prohibited ∧
      (a.liveEligibility = .manualApprovalRequired → r.config.manualApprovalRef.getD "" ≠ "") ∧
      (r.config.rollbackAfterCall = false → disposable a = true) := by
  unfold checkRequest at h
  split at h
  · cases h
  next hlive =>
  split at h
  · cases h
  simp only [ha, Option.map_some, Option.some_or, Option.isNone_some, Bool.and_false,
    Option.any_some] at h
  split at h
  · cases h
  next heligible =>
  split at h
  · cases h
  next happroval =>
  split at h
  · cases h
  split at h
  · cases h
  next hdisposable =>
  refine ⟨by simpa using hlive, heligible, fun hmanual hnone => happroval ⟨hmanual, hnone⟩, ?_⟩
  intro hrollback
  simpa [hrollback] using hdisposable

/-- Nothing in the procedure can end the unit of work: of what the assessor looks at only its
boundaries may be open, with an approval. -/
structure Containable (config : Db2SandboxConfig) (outcome : ParseOutcome) (ast : ProcedureAst)
    (effects : List EffectCandidate) (sites : List DynamicSqlSite) : Prop where
  executeLive : config.executeLive = true
  outcome : outcome = .parsesComplete
  commits : internalCommitRefs effects = []
  commitOnReturn : declaredCommitOnReturn ast ≠ .yes
  boundaries : unresolvedCalls effects ≠ [] ∨ unresolvedDynamic sites ≠ [] →
    config.manualApprovalRef.getD "" ≠ ""

variable {outcome : ParseOutcome} {ast : ProcedureAst} {effects : List EffectCandidate}
  {sites : List DynamicSqlSite} {a : RuntimeSafetyAssessment}

theorem containable_of_checked {digestOf : RuntimeInvocation → String} {r : LiveRequest}
    (ha : assess ⟨outcome, some ast⟩ effects sites = .ok a) (hr : r.safetyAssessment = some a)
    (h : checkRequest digestOf r = .ok ()) :
    Containable r.config outcome ast effects sites ∧
      (r.config.rollbackAfterCall = false → Clear outcome ast effects sites) := by
  obtain ⟨hlive, heligible, happroval, hdisposable⟩ := checkRequest_ok h hr
  obtain rfl := Except.ok.inj ha
  simp only at heligible happroval
  simp only [disposable, Bool.and_eq_true, Bool.not_eq_true', decide_eq_true_eq] at hdisposable
  constructor
  · constructor <;> grind
  · intro hrollback
    obtain ⟨⟨⟨-, hcommits⟩, hreturn⟩, habsent⟩ := hdisposable hrollback
    constructor <;> grind

/-- **Live runs are contained.** Whatever the driver does: nothing is sent for a procedure that may
end the unit of work of the executor; when one was called, a rollback or a commit and the closing of
the connection are the last to be sent; and a commit is only sent with the rollback disabled, for a
procedure nothing speaks against. -/
theorem live_run_contained (host : Host σ ρ) (r : LiveRequest) (server : σ)
    (ha : assess ⟨outcome, some ast⟩ effects sites = .ok a) (hr : r.safetyAssessment = some a)
    {calls : List DriverCall} (hcalls : (executeDb2 host r server).2.calls = calls) :
    (calls ≠ [] → Containable r.config outcome ast effects sites) ∧
    (∀ name, .callproc name ∈ calls → ∃ work last, calls = work ++ [last, .close] ∧
      (last = .rollback ∨ last = .commit) ∧ .close ∉ work) ∧
    (.commit ∈ calls → r.config.rollbackAfterCall = false ∧ Clear outcome ast effects sites) := by
  have hcontainable (hne : calls ≠ []) :=
    containable_of_checked ha hr (checked_of_calls (hcalls.symm ▸ hne))
  have hopen {work : List DriverCall} {c : DriverCall} (h : ∀ c ∈ work, leavesOpen c = true)
      (hc : leavesOpen c = false) : c ∉ work := by
    intro hmem
    rw [h c hmem] at hc
    cases hc
  have hending : ending r = .rollback ∨ ending r = .commit ∧
    r.config.rollbackAfterCall = false := by
    unfold ending
    grind
  have hshape := @executeDb2_calls _ _ host r server
  rw [hcalls] at hshape
  refine ⟨fun hne => (hcontainable hne).1, ?_, ?_⟩
  · intro name hname
    cases hshape with
    | unsent => cases hname
    | unconnected => simp at hname
    | @ended work h =>
      have hclose := @hopen work .close h rfl
      exact ⟨.connect :: work, ending r, rfl, hending.imp_right And.left, by simp [hclose]⟩
    | @failed work h =>
      have hclose := @hopen work .close h rfl
      exact ⟨.connect :: work, .rollback, rfl, .inl rfl, by simp [hclose]⟩
    | @failedAtEnd work h =>
      have hclose := @hopen work .close h rfl
      refine ⟨.connect :: (work ++ [ending r]), .rollback, rfl, .inl rfl, ?_⟩
      rcases hending with he | ⟨he, -⟩
      · simp [hclose, he]
      · simp [hclose, he]
  · intro hcommit
    have hrollback : r.config.rollbackAfterCall = false := by
      rcases hending with he | ⟨-, he⟩
      · exfalso
        cases hshape with
        | unsent => cases hcommit
        | unconnected => simp at hcommit
        | @ended work h => simp [@hopen work .commit h rfl, he] at hcommit
        | @failed work h => simp [@hopen work .commit h rfl] at hcommit
        | @failedAtEnd work h => simp [@hopen work .commit h rfl, he] at hcommit
      · exact he
    exact ⟨hrollback, (hcontainable (List.ne_nil_of_mem hcommit)).2 hrollback⟩

/-- The server counts the changes of the unit of work. The procedure makes one and fails. -/
def failingHost : Host Nat Unit where
  digestOf _ := "d"
  environment _ := some "DSN"
  installed := true
  toPython _ := .ok ()
  fromPython _ := .null
  connect _ n := (.ok (), n)
  autocommitOff n := (.ok (), n)
  snapshot _ n := (.ok ("sha256:0", n), n)
  callproc _ _ n := (.error "SQL0911N", n + 1)
  rollback _ := (.ok (), 0)
  commit n := (.ok (), n)
  close n := (.ok (), n)

/-- An update, and a call of a procedure that is not at hand. -/
def updateAndCall : ProcedureAst where
  nodeId := "procedure"
  parameters := []
  commitOnReturn := some "NO"
  body := [.simple "update" { kind := .dml, text := "UPDATE T SET A = 1" },
    .simple "call" { kind := .call, text := "CALL Q()" }]
  distinct := by decide

def updateAndCallEffects : List EffectCandidate :=
  [⟨⟨.dml, "update", some "T", none, .transactionSurvivalUnresolved⟩,
    .transactionSurvivalUnresolved,
      [], none⟩,
    ⟨⟨.call, "call", some "Q", none, .unresolvedEffectBoundary⟩,
      .unresolvedEffectBoundary, [], none⟩]

/-- The assessor leaves the run to an approval, as it does not know what is called. -/
def updateAndCallAssessment : RuntimeSafetyAssessment where
  internalCommitPresent := false
  explicitRollbackPresent := false
  commitOnReturn := .no
  unresolvedCallBoundaries := unresolvedCalls updateAndCallEffects
  unresolvedDynamicBoundaries := []
  externalSideEffectsStatus := .possible
  transactionOwnership := .callerControlled
  rollbackContainment := .unknown
  liveEligibility := .manualApprovalRequired
  reasonCodes := ["UNRESOLVED_CALL_BOUNDARY"]

def approvedRequest : LiveRequest where
  plan := ⟨some "APP", "PAY", ["P_ID"], .manualApprovalRequired⟩
  invocation := ⟨[⟨"P_ID", "IN", .null⟩], "d"⟩
  config := ⟨"DB", "sandbox", some "approval-1", true, true,
    [⟨"probe-1", "update", "T", "UPDATE", "SELECT * FROM T"⟩]⟩
  safetyAssessment := some updateAndCallAssessment
  liveEligibility := none

/-- The call fails after it has changed the server; what is sent last is a rollback and the
closing. -/
theorem failed_call_contained :
    Containable approvedRequest.config .parsesComplete updateAndCall updateAndCallEffects [] ∧
      ∃ work last, (executeDb2 failingHost approvedRequest 0).2.calls = work ++ [last, .close] ∧
        (last = .rollback ∨ last = .commit) ∧ .close ∉ work := by
  have hassess : assess ⟨.parsesComplete, some updateAndCall⟩ updateAndCallEffects [] =
      .ok updateAndCallAssessment := by decide +kernel
  have hcontained := live_run_contained failingHost approvedRequest 0 hassess rfl rfl
  have hcalled : .callproc "APP.PAY" ∈ (executeDb2 failingHost approvedRequest 0).2.calls := by
    decide +kernel
  exact ⟨hcontained.1 (List.ne_nil_of_mem hcalled), hcontained.2.1 _ hcalled⟩

end AtlasDb.Runtime.Executor
