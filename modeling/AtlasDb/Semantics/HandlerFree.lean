import AtlasDb.Analysis.Predicates
import AtlasDb.Semantics.GraphNodes

/-!
# Procedures without handlers

Without handlers no step is irregular, so every execution is a path of the graph from its entry, to
the normal exit if the procedure ends or returns and to the exceptional exit if it signals
(`run_walk`), if the builder reads the labels and the literal comparisons as Db2 does.
-/

namespace AtlasDb.Semantics

open Core Lib Parsing Analysis

/-! ## Where the two readings agree -/

/-- The words of the jump are its tokens, and it has no label of its own. -/
def PlainJump (text : String) : Prop :=
  (Text.split ((Text.strip text.toList).reverse.dropWhile (· = ';')).reverse).map String.ofList
      = (statementTokens text).map Token.value ∧
    (statementTokens text)[1]?.map Token.value ≠ some ":"

instance (text : String) : Decidable (PlainJump text) := by
  unfold PlainJump
  infer_instance

/-- Padding and the collating sequence make no difference to the comparison of two strings. -/
def PlainComparison (collate : Char → Nat) (arm : IfArm) : Prop :=
  ∀ a op b, arm.conditionText.bind literalComparison = some (.string a, op, .string b) →
    stringsHold collate op a b = op.holds a b

theorem afterLabel_of_ne {tokens : List Token} (h : tokens[1]?.map Token.value ≠ some ":") :
    afterLabel tokens = tokens := by
  match tokens with
  | [] => rfl
  | [_] => rfl
  | [_, _] => rfl
  | a :: b :: c :: rest =>
    have hb : ¬ b.value = ":" := fun hb => h (by simp [hb])
    simp [afterLabel, hb]

theorem PlainJump.spelledLabel_eq {text : String} (h : PlainJump text) :
    spelledLabel text = jumpLabel text := by
  obtain ⟨hwords, hlabel⟩ := h
  have hsecond := congrArg (fun words : List String => words[1]?) hwords
  simp only [List.getElem?_map] at hsecond
  rw [spelledLabel, afterLabel_of_ne hlabel, jumpLabel]
  generalize (statementTokens text)[1]? = token at hsecond ⊢
  generalize (Text.split _)[1]? = word at hsecond ⊢
  cases token with
  | none =>
    cases word with
    | none => rfl
    | some word => simp at hsecond
  | some token =>
    cases word with
    | none => simp at hsecond
    | some word =>
      obtain hvalue : String.ofList word = token.value := by simpa using hsecond
      simp [foldLabel, ← hvalue]

theorem literalConditionTruth_eq (condition : Option String) :
    literalConditionTruth condition
      = (condition.bind literalComparison).bind fun
        | (.string a, op, .string b) => some (op.holds a b)
        | (.decimal a s, op, .decimal b t) => some (op.holds (a * 10 ^ t) (b * 10 ^ s))
        | _ => none := by
  cases condition with
  | none => rfl
  | some text =>
    simp only [literalConditionTruth, literalComparison, Option.bind_eq_bind, Option.bind_some,
      Option.bind_assoc]
    refine Option.bind_congr fun ⟨left, _⟩ _ => Option.bind_congr fun op _ =>
      Option.bind_congr fun ⟨right, _⟩ _ => ?_
    split
    · cases left with
      | decimal => cases right <;> rfl
      | string => cases right <;> rfl
    · rfl

variable {collate : Char → Nat}

theorem PlainComparison.sqlTruth_eq {arm : IfArm}
    (h : PlainComparison collate arm) : sqlTruth collate arm = armTruth arm := by
  unfold sqlTruth armTruth
  split
  · rfl
  · rw [literalConditionTruth_eq]
    refine Option.bind_congr fun parts hparts => ?_
    match parts, hparts with
    | (.string a, op, .string b), hparts => exact congrArg some (h a op b hparts)
    | (.decimal a s, op, .decimal b t), _ => rfl
    | (.string _, _, .decimal _ _), _ => rfl
    | (.decimal _ _, _, .string _), _ => rfl

/-- The builder reads the jumps and the arms of the code as Db2 does. -/
structure Agree (collate : Char → Nat) (code : List Node) : Prop where
  label : ∀ s ∈ statementsOf code, isJump s.2.kind = true →
    spelledLabel s.2.text = jumpLabel s.2.text
  truth : ∀ region ∈ ifRegionsOf code, ∀ arm ∈ region.2,
    sqlTruth collate arm.header = armTruth arm.header

theorem ifRegionsOf_append (xs ys : List Node) :
    ifRegionsOf (xs ++ ys) = ifRegionsOf xs ++ ifRegionsOf ys := by
  induction xs with
  | nil => rfl
  | cons x xs ih => simp [ifRegionsOf, ih]

theorem ifRegionsOfArms_arm {arms : List Arm} {arm : Arm} (h : arm ∈ arms) :
    ifRegionsOf arm.body ⊆ ifRegionsOfArms arms := by
  apply subset_of_arm _ h
  rintro ⟨_, _⟩ _
  rfl

namespace Agree

variable {n : Node} {ns code code' : List Node}

theorem mono (h : Agree collate code) (hstmt : statementsOf code' ⊆ statementsOf code)
    (hregion : ifRegionsOf code' ⊆ ifRegionsOf code) : Agree collate code' where
  label s hs := h.label s (hstmt hs)
  truth region hmem := h.truth region (hregion hmem)

theorem nil : Agree collate [] where
  label _ hs := by cases hs
  truth _ hmem := by cases hmem

theorem tail (h : Agree collate (n :: ns)) : Agree collate ns :=
  h.mono (List.subset_append_right _ _) (List.subset_append_right _ _)

theorem compound {id label text body} (h : Agree collate (.compound id label text body :: ns)) :
    Agree collate body :=
  h.mono (List.subset_append_left _ _) (List.subset_append_left _ _)

theorem loop {l : Loop} (h : Agree collate (l.node :: ns)) : Agree collate l.body :=
  h.mono (List.subset_append_left _ _) (List.subset_append_left _ _)

theorem arm {id : NodeRef} {arms : List Arm} {arm : Arm}
    (h : Agree collate (.ifRegion id arms :: ns)) (harm : arm ∈ arms) :
    Agree collate (arm.body ++ ns) := by
  refine h.mono (statementsOf_arm harm) ?_
  rw [ifRegionsOf_append]
  refine List.append_subset.mpr ⟨?_, List.subset_append_right _ _⟩
  intro region hregion
  exact List.mem_append_left _ (List.mem_cons_of_mem _ (ifRegionsOfArms_arm harm hregion))

end Agree

/-! ## Configurations without handlers -/

def frameCodes : List Frame → List (List Node)
  | [] => []
  | .block _ _ rest :: k => rest :: frameCodes k
  | .loop l rest :: k => (l.node :: rest) :: frameCodes k
  | .handler h _ rest :: k => h.body :: rest :: frameCodes k

/-- The code of a configuration, in all its parts. -/
def codes : Config → List (List Node)
  | .run code k => code :: frameCodes k
  | .header l _ rest k => (l.node :: rest) :: frameCodes k
  | .returned => []
  | .escaped => []

theorem Continues.agree {k : List Frame} {c : Config} (h : Continues k c)
    (hk : ∀ code ∈ frameCodes k, Agree collate code) : ∀ code ∈ codes c, Agree collate code := by
  induction h with
  | block => exact hk
  | loopExit =>
    simp only [codes, frameCodes, List.forall_mem_cons] at hk ⊢
    exact ⟨hk.1.tail, hk.2⟩
  | loopHeader => exact hk
  | handlerEnd =>
    simp only [codes, List.forall_mem_cons]
    exact ⟨.nil, hk⟩
  | @outer f k c _ ih =>
    cases f with
    | block => exact ih (List.forall_mem_cons.mp hk).2
    | loop => exact ih (List.forall_mem_cons.mp hk).2
    | handler => exact ih (List.forall_mem_cons.mp (List.forall_mem_cons.mp hk).2).2

/-- A step keeps the two readings in agreement. -/
theorem StepBy.agree {R : Reading} {M : ConditionModel}
    {scope : List Handler} {a b : Config} {visits : List Visit} (step : StepBy R M scope a visits b)
    (hnone : (activeScopes scope none (frames a)).flatten = [])
    (ha : ∀ code ∈ codes a, Agree collate code) : ∀ code ∈ codes b, Agree collate code := by
  cases step with
  | finish => exact nofun
  | leaveBlock => exact (List.forall_mem_cons.mp ha).2
  | nextIteration => exact (List.forall_mem_cons.mp ha).2
  | resume => exact (List.forall_mem_cons.mp (List.forall_mem_cons.mp ha).2).2
  | exitBlock _ hexit =>
    have hk := (List.forall_mem_cons.mp (List.forall_mem_cons.mp ha).2).2
    exact (exitDeclaring_continues hexit).agree (List.forall_mem_cons.mp hk).2
  | exitProcedure => exact nofun
  | declaration =>
    obtain ⟨hcode, hk⟩ := List.forall_mem_cons.mp ha
    exact List.forall_mem_cons.mpr ⟨hcode.tail, hk⟩
  | complete =>
    obtain ⟨hcode, hk⟩ := List.forall_mem_cons.mp ha
    exact List.forall_mem_cons.mpr ⟨hcode.tail, hk⟩
  | raise hat _ htakes =>
    have hmem := htakes.mem
    rw [← hat.frames_eq, hnone] at hmem
    cases hmem
  | escape => exact nofun
  | «return» => exact nofun
  | jump _ hjump =>
    rcases jump_continues hjump with rfl | hb
    · exact nofun
    · exact hb.agree (List.forall_mem_cons.mp ha).2
  | compound =>
    obtain ⟨hcode, hk⟩ := List.forall_mem_cons.mp ha
    exact List.forall_mem_cons.mpr ⟨hcode.compound, List.forall_mem_cons.mpr ⟨hcode.tail, hk⟩⟩
  | ifArm htake =>
    obtain ⟨hcode, hk⟩ := List.forall_mem_cons.mp ha
    obtain ⟨before, after, rfl, -⟩ := htake
    exact List.forall_mem_cons.mpr ⟨hcode.arm (by simp), hk⟩
  | ifNoMatch =>
    obtain ⟨hcode, hk⟩ := List.forall_mem_cons.mp ha
    exact List.forall_mem_cons.mpr ⟨hcode.tail, hk⟩
  | loop => exact ha
  | loopBody =>
    obtain ⟨hcode, hk⟩ := List.forall_mem_cons.mp ha
    exact List.forall_mem_cons.mpr ⟨hcode.loop, List.forall_mem_cons.mpr ⟨hcode, hk⟩⟩
  | loopExit =>
    obtain ⟨hcode, hk⟩ := List.forall_mem_cons.mp ha
    exact List.forall_mem_cons.mpr ⟨hcode.tail, hk⟩

/-! ## Runs are walks -/

theorem inHandler_cons (f : Frame) (k : List Frame)
    (hf : ∀ h source rest, f ≠ .handler h source rest) :
    inHandler (f :: k) = inHandler k := by
  cases f with
  | block => rfl
  | loop => rfl
  | handler h source rest => exact absurd rfl (hf h source rest)

theorem inHandler_of_suffix {k k' : List Frame} (hsuffix : k' <:+ k) (hk : inHandler k = false) :
    inHandler k' = false := by
  induction k with
  | nil =>
    rw [List.suffix_nil.mp hsuffix]
    rfl
  | cons f k ih =>
    rcases List.suffix_cons_iff.mp hsuffix with rfl | hsuffix
    · exact hk
    · refine ih hsuffix ?_
      cases f with
      | block => exact hk
      | loop => exact hk
      | handler => simp [inHandler] at hk

variable {ast : ProcedureAst}

theorem Walk.trans {x y z : CfgRef} {visits visits' : List Visit}
    (first : Walk ast x visits y) (second : Walk ast y visits' z) :
    Walk ast x (visits ++ visits') z := by
  induction first with
  | nil => exact second
  | cons he hsource hkind _ ih => exact .cons he hsource hkind (ih second)

/-- A place in a procedure without handlers, where the builder reads labels and literals right. -/
structure FreeAt (collate : Char → Nat) (ast : ProcedureAst) (c : Config) : Prop where
  placed : Placed ast c
  outside : inHandler (frames c) = false
  agree : ∀ code ∈ codes c, Agree collate code

theorem Placed.frames {c : Config} (h : Placed ast c) :
    FramesPlaced ast (frames c) := by
  cases c with
  | run => exact h.2
  | header => exact h.2
  | returned => trivial
  | escaped => trivial

section Free

variable {M : ConditionModel} {a b c : Config}
  {visits : List Visit}

theorem activeScopes_eq_nil (hfree : handlersOf ast.body = []) {k : List Frame}
    (hk : FramesPlaced ast k) : (activeScopes (procedureScope ast) none k).flatten = [] := by
  have hsubset := @activeScopes_subset k ast none hk
  rw [hfree] at hsubset
  exact List.subset_nil.mp hsubset

theorem FreeAt.regular (hfree : handlersOf ast.body = []) (ha : FreeAt collate ast a) :
    ¬ Irregular collate ast [] a b := by
  have houtside := ha.outside
  intro hirregular
  cases hirregular with
  | @misreadJump id stmt _ _ _ hkind hlabel =>
    exact hlabel ((ha.agree _ List.mem_cons_self).label (id, stmt) List.mem_cons_self hkind)
  | @misreadArm id arms arm _ _ _ harm htruth =>
    exact htruth ((ha.agree _ List.mem_cons_self).truth (id, arms) List.mem_cons_self arm harm)
  | unboundRaise hat hactive =>
    rw [← hat.frames_eq, activeScopes_eq_nil hfree ha.placed.frames] at hactive
    cases hactive
  | nestedRaise hat hin => simp [hat.frames_eq, hin] at houtside
  | exitBlock => simp [frames, inHandler] at houtside
  | resumeSignal => simp [frames, inHandler] at houtside
  | resumeBase => simp [frames, inHandler] at houtside
  | jumpOut _ hin => simp [frames, hin] at houtside

theorem StepBy.freeAt (hfree : handlersOf ast.body = [])
    (step : StepBy (.sql collate) M (procedureScope ast) a visits b) (ha : FreeAt collate ast a) :
    FreeAt collate ast b := by
  have hnone := activeScopes_eq_nil hfree ha.placed.frames
  refine ⟨step.placed ha.placed, ?_, step.agree hnone ha.agree⟩
  rcases Step.frames_cases (step.foreseen (ha.regular hfree)) with
    hdrop | ⟨f, hpush, hf⟩ | ⟨id, stmt, ns, k, h, rfl, rfl, -, -, hmem⟩
  · exact inHandler_of_suffix hdrop ha.outside
  · rw [hpush, inHandler_cons f _ hf]
    exact ha.outside
  · simp only [Semantics.frames] at hnone
    simp [hnone] at hmem

theorem StepBy.walk (hfree : handlersOf ast.body = [])
    (step : StepBy (.sql collate) M (procedureScope ast) a visits b) (ha : FreeAt collate ast a) :
    Walk ast (pos a) visits (pos b) := by
  have hregular : ¬ Irregular collate ast [] a b := ha.regular hfree
  rcases Step.walk (step.foreseen hregular) ha.placed hregular with
    hwalk | ⟨h, source, rest, k, rfl, -⟩
  · exact hwalk
  · have houtside := ha.outside
    simp [Semantics.frames, inHandler] at houtside

theorem freeAt_run (hfree : handlersOf ast.body = [])
    (run : StepsBy (.sql collate) M (procedureScope ast) a visits b) (ha : FreeAt collate ast a) :
    FreeAt collate ast b :=
  run.invariant (fun step => step.freeAt hfree) ha

theorem run_walk (hfree : handlersOf ast.body = [])
    (run : StepsBy (.sql collate) M (procedureScope ast) a visits b) (ha : FreeAt collate ast a) :
    Walk ast (pos a) visits (pos b) := by
  induction run with
  | refl => exact .nil
  | tail run last ih => exact ih.trans (last.walk hfree (freeAt_run hfree run ha))

end Free

/-! ## Arms that are cut off -/

variable {region : NodeRef × List Arm}

mutual

theorem nodeEdges_ifRegion (n : Node) (continuation : CfgRef)
    (stack : List ControlContext) (hfree : n.handlers = []) (h : region ∈ ifRegions n) :
    ∃ exit contexts, armEdges region.1 0 false false region.2 exit contexts
      ⊆ nodeEdges n continuation stack := by
  cases n with
  | simple => cases h
  | compound id label text body =>
    obtain ⟨exit, contexts, hsubset⟩ := seqEdges_ifRegion body continuation
      (blockContext label continuation :: stack) hfree h
    exact ⟨exit, contexts, List.subset_append_of_subset_left _ hsubset⟩
  | ifRegion id arms =>
    rcases List.mem_cons.mp h with rfl | h
    · exact ⟨continuation, stack, List.Subset.refl _⟩
    · exact armEdges_ifRegion id 0 false false arms continuation stack hfree h
  | loop id loopRegion body =>
    obtain ⟨exit, contexts, hsubset⟩ := seqEdges_ifRegion body (.ast id)
      (loopContext id loopRegion continuation :: stack) hfree h
    exact ⟨exit, contexts, List.subset_append_of_subset_left _ hsubset⟩
  | handler => simp [Node.handlers] at hfree

theorem seqEdges_ifRegion (code : List Node) (continuation : CfgRef)
    (stack : List ControlContext) (hfree : handlersOf code = []) (h : region ∈ ifRegionsOf code) :
    ∃ exit contexts, armEdges region.1 0 false false region.2 exit contexts
      ⊆ seqEdges code continuation stack := by
  cases code with
  | nil => cases h
  | cons n ns =>
    obtain ⟨hn, hns⟩ := List.append_eq_nil_iff.mp hfree
    rcases List.mem_append.mp h with h | h
    · obtain ⟨exit, contexts, hsubset⟩ := nodeEdges_ifRegion n _ stack hn h
      exact ⟨exit, contexts, List.subset_append_of_subset_right _ hsubset⟩
    · obtain ⟨exit, contexts, hsubset⟩ := seqEdges_ifRegion ns continuation stack hns h
      exact ⟨exit, contexts, List.subset_append_of_subset_left _ hsubset⟩

theorem armEdges_ifRegion (id : NodeRef) (index : Nat)
    (hasElse always : Bool) (arms : List Arm) (continuation : CfgRef)
    (stack : List ControlContext) (hfree : handlersOfArms arms = [])
    (h : region ∈ ifRegionsOfArms arms) :
    ∃ exit contexts, armEdges region.1 0 false false region.2 exit contexts
      ⊆ armEdges id index hasElse always arms continuation stack := by
  cases arms with
  | nil => cases h
  | cons a arms =>
    obtain ⟨header, body⟩ := a
    obtain ⟨hbody, harms⟩ := List.append_eq_nil_iff.mp hfree
    rcases List.mem_append.mp h with h | h
    · obtain ⟨exit, contexts, hsubset⟩ := seqEdges_ifRegion body continuation stack hbody h
      exact ⟨exit, contexts, List.subset_append_of_subset_left _ hsubset⟩
    · obtain ⟨exit, contexts, hsubset⟩ := armEdges_ifRegion id (index + 1)
        (hasElse || header.armKind = .else) (always || armTruth header = some true) arms
        continuation stack harms h
      refine ⟨exit, contexts, List.subset_append_of_subset_right _ ?_⟩
      exact List.subset_cons_of_subset _ (List.subset_append_of_subset_right _ hsubset)

end

theorem armTruth_of_cutOff {id : NodeRef} {before after : List Arm} {arm : Arm}
    (hfree : handlersOf ast.body = [])
    (hregion : (id, before ++ arm :: after) ∈ ifRegionsOf ast.body)
    (hcut : ∀ e ∈ cfgEdges ast, e.source = .ast id → e.target ≠ .ast arm.header.armId) :
    armTruth arm.header = some false ∨ ∃ a ∈ before, armTruth a.header = some true := by
  by_contra hopen
  simp only [not_or, not_exists, not_and] at hopen
  obtain ⟨exit, contexts, hsubset⟩ := seqEdges_ifRegion ast.body .normalExit [] hfree hregion
  obtain ⟨e, he, hsource, htarget, -⟩ := @armEdges_taken id 0 false before after arm exit contexts
    hopen.2 hopen.1
  have hedge : e ∈ cfgEdges ast := List.mem_append_left _ (List.mem_append_left _ (hsubset he))
  exact hcut e hedge hsource htarget

/-! ## The graph of a procedure without handlers -/

/-- The nodes visited are those on a path from the entry, which ends where the execution does. -/
def FollowsGraph (ast : ProcedureAst) (visits : List Visit) (c : Config) : Prop :=
  ∃ e ∈ (ControlFlowGraph.build ast).edges, e.source = .entry ∧ ∃ y, Walk ast e.target visits y ∧
    (c = .returned → y = .normalExit) ∧ (c = .escaped → y = .exceptionalExit)

/-- The jumps and the literal comparisons are written so that the builder reads them right. -/
structure PlainlyWritten (collate : Char → Nat) (ast : ProcedureAst) : Prop where
  jumps : ∀ s ∈ statementsOf ast.body, isJump s.2.kind = true → PlainJump s.2.text
  comparisons : ∀ region ∈ ifRegionsOf ast.body, ∀ arm ∈ region.2,
    PlainComparison collate arm.header

theorem PlainlyWritten.agree (h : PlainlyWritten collate ast) : Agree collate ast.body where
  label s hs hkind := (h.jumps s hs hkind).spelledLabel_eq
  truth region hregion arm harm := (h.comparisons region hregion arm harm).sqlTruth_eq

theorem freeAt_start (hagree : Agree collate ast.body) :
    FreeAt collate ast (start ast) where
  placed := placed_start ast
  outside := rfl
  agree := List.forall_mem_singleton.mpr hagree

theorem entry_edge_mem (ast : ProcedureAst) :
    ({ source := .entry, target := seqEntry ast.body .normalExit, kind := .entry } : CfgEdge)
      ∈ cfgEdges ast := by
  simp [cfgEdges, structuralEdges]

/-- Every execution of a procedure without handlers is a path of the graph; an arm has no edge only
if a literal comparison rules it out; and every edge joins nodes of the graph. -/
theorem handler_free_executions_follow_graph (collate : Char → Nat) (ast : ProcedureAst)
    (hfree : handlersOf ast.body = []) (hplain : PlainlyWritten collate ast) :
    (∀ (M : ConditionModel) (visits : List Visit) (c : Config),
      StepsBy (.sql collate) M (procedureScope ast) (start ast) visits c →
        FollowsGraph ast visits c) ∧
    (∀ (id : NodeRef) (before : List Arm) (arm : Arm) (after : List Arm),
      (id, before ++ arm :: after) ∈ ifRegionsOf ast.body →
      (∀ e ∈ (ControlFlowGraph.build ast).edges,
        e.source = .ast id → e.target ≠ .ast arm.header.armId) →
      sqlTruth collate arm.header = some false ∨
        ∃ a ∈ before, sqlTruth collate a.header = some true) ∧
    ∀ e ∈ (ControlFlowGraph.build ast).edges,
      e.source ∈ (ControlFlowGraph.build ast).nodes ∧
        e.target ∈ (ControlFlowGraph.build ast).nodes := by
  refine ⟨fun M visits c run => ?_, fun id before arm after hregion hcut => ?_, cfgEdges_join⟩
  · refine ⟨_, entry_edge_mem ast, rfl, pos c,
      run_walk hfree run (freeAt_start hplain.agree), ?_, ?_⟩
    · rintro rfl
      rfl
    · rintro rfl
      rfl
  · have htruth := hplain.agree.truth _ hregion
    rcases armTruth_of_cutOff hfree hregion hcut with harm | ⟨a, ha, htrue⟩
    · exact .inl ((htruth arm (by simp)).trans harm)
    · exact .inr ⟨a, ha, (htruth a (by simp [ha])).trans htrue⟩

theorem StepBy.leaveLoop {R : Reading} {M : ConditionModel} {scope : List Handler} {id : NodeRef}
    {stmt : Statement} {ns rest : List Node} {l : Loop} {k : List Frame}
    (hkind : stmt.kind = .leave) (hlabel : labelMatches (R.label stmt) l.region.label = true) :
    StepBy R M scope (.run (.simple id stmt :: ns) (.loop l rest :: k)) [⟨id, .completed⟩]
      (.run rest k) := by
  refine .jump (by simp [isJump, hkind]) ?_
  simp [Semantics.jump, hkind, hlabel]

/-- A loop that is left at once, an arm that is always taken and one that never is. -/
def plainLeave : ProcedureAst where
  nodeId := "procedure"
  parameters := []
  commitOnReturn := none
  body :=
    [.loop "loop" { loopKind := .loop, label := some "L1" }
        [.simple "leave" { kind := .leave, text := "LEAVE L1;" }],
      .ifRegion "if"
        [.mk ⟨"arm", .if, some "1 = 1"⟩ [.simple "signal" { kind := .signal, text := "SIGNAL X;" }],
          .mk ⟨"other", .else, none⟩ []]]
  distinct := by decide

theorem plainLeave_comparison {arm : IfArm} (hcond : arm.conditionText = none ∨
    arm.conditionText = some "1 = 1") : PlainComparison Char.toNat arm := by
  intro a op b h
  rcases hcond with hcond | hcond
  · simp [hcond] at h
  · have hliteral : literalComparison "1 = 1" = some (.decimal 1 0, .eq, .decimal 1 0) := by
      decide +kernel
    simp [hcond, hliteral] at h

theorem plainLeave_plainlyWritten : PlainlyWritten Char.toNat plainLeave where
  jumps := by decide +kernel
  comparisons := by
    intro region hregion arm harm
    obtain rfl : region = ("if", _) := List.mem_singleton.mp hregion
    refine plainLeave_comparison ?_
    simp only [List.mem_cons, List.not_mem_nil, or_false] at harm
    rcases harm with rfl | rfl
    · exact .inr rfl
    · exact .inl rfl

theorem plainLeave_run : StepsBy (.sql Char.toNat) .single (procedureScope plainLeave)
    (start plainLeave) [⟨"loop", .completed⟩, ⟨"leave", .completed⟩, ⟨"if", .completed⟩,
      ⟨"arm", .completed⟩, ⟨"signal", .raised⟩] .escaped := by
  have hlabel : labelMatches (spelledLabel "LEAVE L1;") (some "L1") = true := by decide +kernel
  have htruth : sqlTruth Char.toNat ⟨"arm", .if, some "1 = 1"⟩ ≠ some false := by decide +kernel
  have htake : CanTakeBy (sqlTruth Char.toNat)
      [.mk ⟨"arm", .if, some "1 = 1"⟩ [.simple "signal" { kind := .signal, text := "SIGNAL X;" }],
        .mk ⟨"other", .else, none⟩ []] (.mk ⟨"arm", .if, some "1 = 1"⟩
        [.simple "signal" { kind := .signal, text := "SIGNAL X;" }]) :=
    ⟨[], _, rfl, List.forall_mem_nil _, htruth⟩
  exact Run.head StepBy.loop (Run.head StepBy.loopBody (Run.head (StepBy.leaveLoop rfl hlabel)
    (Run.head (StepBy.ifArm (R := .sql Char.toNat) htake)
      (Run.single (StepBy.escape () rfl (List.forall_mem_nil _))))))

/-- `LEAVE` out of the loop, then `SIGNAL`. -/
theorem plain_leave_follows_graph : handlersOf plainLeave.body = [] ∧
    PlainlyWritten Char.toNat plainLeave ∧
    FollowsGraph plainLeave [⟨"loop", .completed⟩, ⟨"leave", .completed⟩, ⟨"if", .completed⟩,
      ⟨"arm", .completed⟩, ⟨"signal", .raised⟩] .escaped :=
  ⟨rfl, plainLeave_plainlyWritten, (handler_free_executions_follow_graph Char.toNat plainLeave rfl
    plainLeave_plainlyWritten).1 .single _ _ plainLeave_run⟩

theorem Walk.cons_inv {x y : CfgRef} {v : Visit} {visits : List Visit}
    (walk : Walk ast x (v :: visits) y) :
    x = .ast v.node ∧ ∃ e ∈ cfgEdges ast, e.source = .ast v.node ∧ Walk ast e.target visits y := by
  cases walk with
  | cons he hsource _ rest => exact ⟨rfl, _, he, hsource, rest⟩

/-- The loop is left by a jump with a comment in it. -/
def commentedLeave : ProcedureAst where
  nodeId := "procedure"
  parameters := []
  commitOnReturn := none
  body :=
    [.loop "loop" { loopKind := .loop, label := some "L1" }
        [.simple "leave" { kind := .leave, text := "LEAVE /* done */ L1;" }],
      .simple "set" { kind := .set, text := "SET X = 1;" }]
  distinct := by decide

theorem commentedLeave_run : StepsBy (.sql Char.toNat) .single (procedureScope commentedLeave)
    (start commentedLeave) [⟨"loop", .completed⟩, ⟨"leave", .completed⟩, ⟨"set", .completed⟩]
    .returned := by
  have hlabel : labelMatches (spelledLabel "LEAVE /* done */ L1;") (some "L1") = true := by
    decide +kernel
  exact Run.head StepBy.loop (Run.head StepBy.loopBody (Run.head (StepBy.leaveLoop rfl hlabel)
    (Run.head (StepBy.complete rfl) (Run.single StepBy.finish))))

theorem commentedLeave_edge : ∀ e ∈ cfgEdges commentedLeave,
    e.source = .ast "leave" → e.target = .normalExit := by
  decide +kernel

/-- The jump names the loop around it, but the graph sends it to the normal exit, past the statement
after the loop. -/
theorem commented_leave_leaves_graph :
    handlersOf commentedLeave.body = [] ∧ spelledLabel "LEAVE /* done */ L1;" = some "L1" ∧
    ∃ visits, StepsBy (.sql Char.toNat) .single (procedureScope commentedLeave)
      (start commentedLeave) visits .returned ∧ ¬ FollowsGraph commentedLeave visits .returned := by
  refine ⟨rfl, by decide +kernel, _, commentedLeave_run, ?_⟩
  rintro ⟨e, -, -, y, walk, -⟩
  obtain ⟨-, _, -, -, walk⟩ := walk.cons_inv
  obtain ⟨-, e', he', hsource, walk⟩ := walk.cons_inv
  have htarget := walk.cons_inv.1
  simp [commentedLeave_edge e' he' hsource] at htarget

end AtlasDb.Semantics
