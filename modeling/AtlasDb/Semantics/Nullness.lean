import AtlasDb.Analysis.Nullability
import AtlasDb.Lib.Trace

/-!
# Which values are NULL

Of a value only whether it is NULL is kept. An execution declares variables and runs statements of
the procedure; in which order is left to the control flow, so a run here is any sequence of them. A
write goes to a declaration of the written name, which one is left to scoping. A symbol that the
analyzer reports as definitely null or non-null is so in every state of a run if the analyzer
records each write of the symbol with a known status (`Recorded`) and no operand of an expression
written to it that the analyzer takes for non-null is NULL, the symbol itself apart (`NeverNull`).
-/

namespace AtlasDb.Semantics

open Core Lib Parsing Analysis

/-! ## Expressions -/

/-- Expressions, by what makes them NULL. A `COALESCE` of more arguments nests. -/
inductive SqlExpr where
  | null
  | literal
  /-- A special register, a sequence value, a count: never NULL. -/
  | special
  | name (symbol : String)
  /-- Arithmetic or concatenation. -/
  | operation (a b : SqlExpr)
  | coalesce (a b : SqlExpr)
  /-- Anything else. -/
  | other
deriving DecidableEq

inductive Cell where
  /-- Not declared yet. -/
  | absent
  | null
  | value
deriving DecidableEq

def Cell.of (isNull : Bool) : Cell := if isNull then .null else .value

abbrev NullEnv : Type := DeclaredSymbolType → Cell

/-- The procedure as it runs: its text read as SQL reads it, the symbols it declares, and what the
statement at a node assigns, with the expression where there is one. -/
structure NullProgram where
  ast : ProcedureAst
  declared : List DeclaredSymbolType
  read : String → SqlExpr
  read_null : ∀ {text : String}, Text.upper (collapsed (some text)) = "NULL".toList ∨
    Text.upper (Text.strip text.toList) = "NULL".toList → read text = .null
  writes : NodeRef → List (String × Option String)

namespace NullProgram

variable (P : NullProgram)

/-- The declarations a name may stand for. -/
def named (symbol : String) : List DeclaredSymbolType :=
  P.declared.filter fun d => d.symbol = Text.upperString symbol

/-- The expression may come out NULL, or not NULL. A name that is not declared is a column. -/
def MayGive (env : NullEnv) : SqlExpr → Bool → Prop
  | .null, isNull => isNull = true
  | .literal, isNull => isNull = false
  | .special, isNull => isNull = false
  | .name symbol, isNull => P.named symbol = [] ∨ ∃ d ∈ P.named symbol, env d = Cell.of isNull
  | .operation a b, isNull => ∃ x y, MayGive env a x ∧ MayGive env b y ∧ isNull = (x || y)
  | .coalesce a b, isNull => ∃ x y, MayGive env a x ∧ MayGive env b y ∧ isNull = (x && y)
  | .other, _ => True

/-- No operand that could make the expression NULL is NULL. -/
def NeverNull (env : NullEnv) : SqlExpr → Prop
  | .null => False
  | .literal => True
  | .special => True
  | .name symbol => P.named symbol ≠ [] ∧ ∀ d ∈ P.named symbol, env d ≠ .null
  | .operation a b => NeverNull env a ∧ NeverNull env b
  | .coalesce a b => NeverNull env a ∨ NeverNull env b
  | .other => False

variable {P} in
theorem mayGive_name {env : NullEnv} {symbol : String} {isNull : Bool} {d : DeclaredSymbolType}
    (hd : d ∈ P.named symbol) (h : env d = Cell.of isNull) : P.MayGive env (.name symbol) isNull :=
  .inr ⟨d, hd, h⟩

variable {P} in
theorem mayGive_operation {env : NullEnv} {a b : SqlExpr} {x y : Bool} (ha : P.MayGive env a x)
    (hb : P.MayGive env b y) : P.MayGive env (.operation a b) (x || y) :=
  ⟨x, y, ha, hb, rfl⟩

variable {P} in
theorem neverNull_operation {env : NullEnv} {a b : SqlExpr} (ha : P.NeverNull env a)
    (hb : P.NeverNull env b) : P.NeverNull env (.operation a b) := ⟨ha, hb⟩

variable {P} in
theorem neverNull_name {env : NullEnv} {symbol : String} {d : DeclaredSymbolType}
    (hnamed : P.named symbol = [d]) (h : env d ≠ .null) : P.NeverNull env (.name symbol) := by
  refine ⟨by simp [hnamed], fun d' hd' => ?_⟩
  rw [hnamed] at hd'
  obtain rfl := List.mem_singleton.mp hd'
  exact h

variable {P} in
theorem NeverNull.not_mayGive {env : NullEnv} {e : SqlExpr} (h : P.NeverNull env e) :
    ¬ P.MayGive env e true := by
  induction e with
  | null => exact absurd h id
  | literal => exact Bool.noConfusion
  | special => exact Bool.noConfusion
  | name symbol =>
    rintro (hnone | ⟨d, hd, hnull⟩)
    · exact h.1 hnone
    · exact h.2 d hd hnull
  | operation a b iha ihb =>
    rintro ⟨x, y, ha, hb, hor⟩
    cases x with
    | true => exact iha h.1 ha
    | false =>
      cases y with
      | true => exact ihb h.2 hb
      | false => cases hor
  | coalesce a b iha ihb =>
    rintro ⟨x, y, ha, hb, hand⟩
    cases x with
    | false => cases hand
    | true =>
      cases y with
      | false => cases hand
      | true =>
        rcases h with h | h
        · exact iha h ha
        · exact ihb h hb
  | other => exact absurd h id

variable {P} in
/-- The condition depends on which variables are NULL. -/
theorem NeverNull.mono {env env' : NullEnv} {e : SqlExpr}
    (henv : ∀ d, env' d = .null → env d = .null) (h : P.NeverNull env e) : P.NeverNull env' e := by
  induction e with
  | null => exact h
  | literal => exact h
  | special => exact h
  | name symbol => exact ⟨h.1, fun d hd hnull => h.2 d hd (henv d hnull)⟩
  | operation a b iha ihb => exact ⟨iha h.1, ihb h.2⟩
  | coalesce a b iha ihb => exact h.imp iha ihb
  | other => exact h

/-! ## Executions -/

/-- What a write may leave: the value of its expression, or anything. -/
def Leaves (env : NullEnv) (expression : Option String) (isNull : Bool) : Prop :=
  ∀ text ∈ expression, P.MayGive env (P.read text) isNull

/-- Put the values one after the other. -/
def store (env : NullEnv) (values : List (DeclaredSymbolType × Bool)) : NullEnv :=
  values.foldl (fun env v => fun d => if d = v.1 then Cell.of v.2 else env d) env

/-- What a step did: a declaration, or a statement with the values it stored. -/
inductive DataEvent where
  | declared (d : DeclaredSymbolType)
  | ran (ref : NodeRef) (values : List (DeclaredSymbolType × Bool))

/-- A step on the data. A statement stores some of what it assigns, all of it if nothing goes wrong;
the expressions are evaluated before. -/
inductive DataStep : NullEnv → List DataEvent → NullEnv → Prop where
  | declare {env d isNull} (hd : d ∈ P.declared) (hlocal : d.parameterMode = none)
      (hleaves : P.Leaves env (d.defaultExpression.or (some "NULL")) isNull) :
      DataStep env [.declared d] (store env [(d, isNull)])
  | run {env ref stmt values} (hstmt : (ref, stmt) ∈ statementsOf P.ast.body)
      (hvalues : ∀ v ∈ values, ∃ w ∈ P.writes ref, v.1 ∈ P.named w.1 ∧ P.Leaves env w.2 v.2) :
      DataStep env [.ran ref values] (store env values)

/-- The start of an execution: an `OUT` parameter is NULL, an `IN` or `INOUT` parameter has what the
caller passes, and variables are not declared yet. -/
structure Starts (env : NullEnv) : Prop where
  out : ∀ d ∈ P.declared, d.parameterMode = some .out → env d = .null
  passed : ∀ d ∈ P.declared, d.parameterMode = some .in ∨ d.parameterMode = some .inout →
    env d ≠ .absent
  variable_ : ∀ d ∈ P.declared, d.parameterMode = none → env d = .absent

/-! ## Steps the analyzer accounts for -/

variable (bindings : List QueryBindingFact) (d : DeclaredSymbolType)

/-- The data if the symbol is not NULL. -/
def assume (env : NullEnv) : NullEnv := fun d' => if d' = d then .value else env d'

/-- The analyzer records the write of the symbol, with a known status; if it takes the expression
for non-null, no other symbol makes it NULL. -/
def Recorded (env : NullEnv) (ref : NodeRef) (stmt : Statement) (expression : Option String) :
    Prop :=
  ∃ r ∈ nodeDefinitions bindings ref stmt, (r.symbol = d.symbol ∧ r.expression = expression) ∧
    r.status ≠ .unknown ∧
    (r.status = .definitelyNonNull → ∀ text ∈ expression, P.NeverNull (assume d env) (P.read text))

/-- What the step writes to the symbol is as the analyzer has it: its default, unless that is the
text NULL, cannot be NULL, and each write of a statement is recorded. -/
def Accounted (env : NullEnv) : DataEvent → Prop
  | .declared d' => d' = d → ∀ text ∈ d.defaultExpression,
      defaultStatus (some text) = .definitelyNonNull → P.NeverNull (assume d env) (P.read text)
  | .ran ref _ => ∀ stmt, (ref, stmt) ∈ statementsOf P.ast.body →
      ∀ w ∈ P.writes ref, d ∈ P.named w.1 → P.Recorded bindings d env ref stmt w.2

def AccountedStep (env : NullEnv) (events : List DataEvent) (env' : NullEnv) : Prop :=
  P.DataStep env events env' ∧ ∀ event ∈ events, P.Accounted bindings d env event

/-- If the symbol is an `IN` or `INOUT` parameter, the caller passes NULL, or the procedure assigns
it something that is not recorded as NULL. -/
def PassesFit (env : NullEnv) : Prop :=
  d.parameterMode = some .in ∨ d.parameterMode = some .inout → env d = .null ∨
    ∃ def_ ∈ nullDefinitions P.ast bindings, def_.symbol = d.symbol ∧
      def_.status ≠ .definitelyNull ∧ def_.status ≠ .unknown

/-- The state agrees with the fact of the symbol. -/
def Agrees (env : NullEnv) : Prop :=
  ((nullabilityFact P.ast bindings d).status = .definitelyNonNull → env d ≠ .null) ∧
  ((nullabilityFact P.ast bindings d).status = .definitelyNull → env d ≠ .value)

variable {P} {bindings : List QueryBindingFact} {d : DeclaredSymbolType} {env env' : NullEnv}
  {events : List DataEvent}

theorem store_cases (env : NullEnv) (values : List (DeclaredSymbolType × Bool))
    (d : DeclaredSymbolType) :
    store env values d = env d ∨ ∃ v ∈ values, v.1 = d ∧ store env values d = Cell.of v.2 := by
  induction values generalizing env with
  | nil => exact .inl rfl
  | cons v values ih =>
    rcases ih (fun d => if d = v.1 then Cell.of v.2 else env d) with h | ⟨u, hu, hd, h⟩
    · by_cases hv : d = v.1
      · refine .inr ⟨v, List.mem_cons_self, hv.symm, ?_⟩
        rw [if_pos hv] at h
        exact h
      · refine .inl ?_
        rw [if_neg hv] at h
        exact h
    · exact .inr ⟨u, List.mem_cons_of_mem _ hu, hd, h⟩

theorem cell_ne_null {isNull : Bool} (h : isNull ≠ true) : Cell.of isNull ≠ .null := by
  cases isNull with
  | true => exact absurd rfl h
  | false => decide

theorem cell_ne_value {isNull : Bool} (h : isNull = true) : Cell.of isNull ≠ .value := by
  rw [h]
  decide

/-- Where the symbol is not NULL, what cannot be NULL if it is not cannot be NULL. -/
theorem not_mayGive_of_assume {e : SqlExpr} (hd : env d ≠ .null)
    (h : P.NeverNull (assume d env) e) :
    ¬ P.MayGive env e true := by
  refine (h.mono fun d' hnull => ?_).not_mayGive
  rw [assume, if_neg]
  · exact hnull
  · rintro rfl
    exact hd hnull

/-- A declaration agrees with its nullability fact. -/
theorem declare_agrees {isNull : Bool} (hagrees : P.Agrees bindings d env)
    (hleaves : P.Leaves env (d.defaultExpression.or (some "NULL")) isNull)
    (haccounted : P.Accounted bindings d env (.declared d)) :
    ((nullabilityFact P.ast bindings d).status = .definitelyNonNull → Cell.of isNull ≠ .null) ∧
    ((nullabilityFact P.ast bindings d).status = .definitelyNull → Cell.of isNull ≠ .value) := by
  constructor
  · intro h
    have hdefault := default_of_nonNull h
    cases hexpression : d.defaultExpression with
    | none =>
      rw [hexpression] at hdefault
      cases hdefault
    | some text =>
      rw [hexpression] at hdefault hleaves
      have hnever := haccounted rfl text hexpression hdefault
      refine cell_ne_null ?_
      rintro rfl
      exact not_mayGive_of_assume (hagrees.1 h) hnever (hleaves text rfl)
  · intro h
    have hdefault := default_of_null h
    obtain ⟨text, htext, hread⟩ : ∃ text ∈ d.defaultExpression.or (some "NULL"),
        P.read text = .null := by
      cases hexpression : d.defaultExpression with
      | none => exact ⟨"NULL", rfl, P.read_null (.inr (by decide))⟩
      | some text =>
        refine ⟨text, rfl, P.read_null (.inr ?_)⟩
        rw [hexpression, defaultStatus] at hdefault
        split at hdefault
        · assumption
        · cases hdefault
    have hgives := hleaves text htext
    rw [hread] at hgives
    exact cell_ne_value hgives

theorem run_agrees {ref : NodeRef} {stmt : Statement} {isNull : Bool} {expression : Option String}
    (hstmt : (ref, stmt) ∈ statementsOf P.ast.body) (hagrees : P.Agrees bindings d env)
    (hleaves : P.Leaves env expression isNull)
    (hrecorded : P.Recorded bindings d env ref stmt expression) :
    ((nullabilityFact P.ast bindings d).status = .definitelyNonNull → Cell.of isNull ≠ .null) ∧
    ((nullabilityFact P.ast bindings d).status = .definitelyNull → Cell.of isNull ≠ .value) := by
  obtain ⟨r, hr, ⟨hsymbol, rfl⟩, hknown, hnever⟩ := hrecorded
  have hmem : r ∈ nullDefinitions P.ast bindings := List.mem_flatMap.mpr ⟨(ref, stmt), hstmt, hr⟩
  constructor
  · intro h
    have hstatus := (status_of_nonNull h hmem hsymbol).resolve_left hknown
    obtain ⟨text, htext⟩ := nodeDefinitions_nonNull hr hstatus
    refine cell_ne_null ?_
    rintro rfl
    exact not_mayGive_of_assume (hagrees.1 h) (hnever hstatus text htext) (hleaves text htext)
  · intro h
    have hstatus := (status_of_null h hmem hsymbol).resolve_left hknown
    obtain ⟨text, htext, hnull⟩ := nodeDefinitions_null hr hstatus
    have hgives := hleaves text htext
    rw [P.read_null (.inl hnull)] at hgives
    exact cell_ne_value hgives

/-- One step keeps the agreement. -/
theorem agrees_step (step : P.AccountedStep bindings d env events env')
    (h : P.Agrees bindings d env) : P.Agrees bindings d env' := by
  obtain ⟨step, haccounted⟩ := step
  unfold Agrees
  cases step with
  | @declare d' isNull hd' hlocal hleaves =>
    have hevent := haccounted _ (List.mem_singleton.mpr rfl)
    rcases store_cases env [(d', isNull)] d with hkeep | ⟨v, hv, hvd, hput⟩
    · rw [hkeep]
      exact h
    · obtain rfl := List.mem_singleton.mp hv
      obtain rfl : d' = d := hvd
      rw [hput]
      exact declare_agrees h hleaves hevent
  | @run ref stmt values hstmt hvalues =>
    have hevent := haccounted _ (List.mem_singleton.mpr rfl)
    rcases store_cases env values d with hkeep | ⟨v, hv, rfl, hput⟩
    · rw [hkeep]
      exact h
    · obtain ⟨w, hw, hnamed, hleaves⟩ := hvalues v hv
      rw [hput]
      exact run_agrees hstmt h hleaves (hevent stmt hstmt w hw hnamed)

theorem agrees_start (hd : d ∈ P.declared) (hstart : P.Starts env)
    (hpasses : P.PassesFit bindings d env) : P.Agrees bindings d env := by
  -- a parameter has no default, so it is never reported as non-null
  have hparameter : d.parameterMode ≠ none →
      (nullabilityFact P.ast bindings d).status ≠ .definitelyNonNull := by
    intro hmode h
    have hdefault := default_of_nonNull h
    rw [d.local_default hmode] at hdefault
    cases hdefault
  have hpassed (hmode : d.parameterMode = some .in ∨ d.parameterMode = some .inout) :
      (nullabilityFact P.ast bindings d).status = .definitelyNull → env d ≠ .value := by
    intro h
    rcases hpasses hmode with hnull | ⟨r, hr, hsymbol, hother, hknown⟩
    · simp [hnull]
    · exact absurd ((status_of_null h hr hsymbol).resolve_left hknown) hother
  unfold Agrees
  cases hmode : d.parameterMode with
  | none => simp [hstart.variable_ d hd hmode]
  | some mode =>
    have hmode' : d.parameterMode ≠ none := by simp [hmode]
    refine ⟨fun h => absurd h (hparameter hmode'), ?_⟩
    cases mode with
    | «in» => exact hpassed (.inl hmode)
    | out => simp [hstart.out d hd hmode]
    | inout => exact hpassed (.inr hmode)

theorem mem_analyzeNullability (hd : d ∈ P.declared) :
    nullabilityFact P.ast bindings d ∈ analyzeNullability P.ast P.declared bindings :=
  List.mem_mergeSort.mpr (List.mem_map_of_mem hd)

end NullProgram

/-- **Nullability**: a symbol reported as definitely non-null (null) is never NULL (never anything
else) in a run in which the analyzer accounts for each write of this symbol. -/
theorem nullability_sound (P : NullProgram) (bindings : List QueryBindingFact)
    (d : DeclaredSymbolType)
    (hd : d ∈ P.declared) (env env' : NullEnv) (events : List NullProgram.DataEvent)
    (hstart : P.Starts env) (hpasses : P.PassesFit bindings d env)
    (run : Run (P.AccountedStep bindings d) env events env') :
    nullabilityFact P.ast bindings d ∈ analyzeNullability P.ast P.declared bindings ∧
    ((nullabilityFact P.ast bindings d).status = .definitelyNonNull → env' d ≠ .null) ∧
    ((nullabilityFact P.ast bindings d).status = .definitelyNull → env' d ≠ .value) := by
  have hagrees : P.Agrees bindings d env' :=
    run.invariant (fun step h => NullProgram.agrees_step step h)
      (NullProgram.agrees_start hd hstart hpasses)
  exact ⟨NullProgram.mem_analyzeNullability hd, hagrees⟩

/-! ## A running total -/

def vTotal : DeclaredSymbolType where
  symbolName := "V_TOTAL"
  defaultExpression := some "0"
  sourceRef := "declare"

def pAmount : DeclaredSymbolType where
  symbolName := "P_AMOUNT"
  parameterMode := some .in
  sourceRef := "parameter:P_AMOUNT:0"

def isNullText (text : String) : Prop :=
  Text.upper (collapsed (some text)) = "NULL".toList ∨
    Text.upper (Text.strip text.toList) = "NULL".toList

instance : DecidablePred isNullText := fun _ => inferInstanceAs (Decidable (_ ∨ _))

/-- The expressions of the two procedures below. -/
def readTotal (text : String) : SqlExpr :=
  if isNullText text then .null
  else if text = "0" then .literal
  else if text = "V_TOTAL + 1" then .operation (.name "V_TOTAL") .literal
  else if text = "V_TOTAL + P_AMOUNT" then .operation (.name "V_TOTAL") (.name "P_AMOUNT")
  else .other

/-- `DECLARE V_TOTAL INTEGER DEFAULT 0; SET V_TOTAL = expression;` -/
def addTo (expression : String) : NullProgram where
  ast :=
    { nodeId := "procedure"
      parameters := [{ name := "P_AMOUNT", mode := .in }]
      commitOnReturn := none
      body := [
        .simple "declare"
          { kind := .declareVariable, text := "DECLARE V_TOTAL INTEGER DEFAULT 0" },
        .simple "add" { kind := .set, text := "SET V_TOTAL = " ++ expression,
                        assignment := some ⟨"V_TOTAL", expression⟩ }]
      distinct := by
        show ["declare", "add"].Nodup
        decide }
  declared := [pAmount, vTotal]
  read := readTotal
  read_null h := if_pos h
  writes ref := if ref = "add" then [("V_TOTAL", some expression)] else []

/-- What the caller passes. -/
def passing (isNull : Bool) : NullEnv := fun d => if d = pAmount then Cell.of isNull else .absent

theorem passing_starts (expression : String) (isNull : Bool) :
    (addTo expression).Starts (passing isNull) where
  out := by
    show ∀ d ∈ [pAmount, vTotal], d.parameterMode = some .out → passing isNull d = .null
    cases isNull <;> decide
  passed := by
    show ∀ d ∈ [pAmount, vTotal], d.parameterMode = some .in ∨ d.parameterMode = some .inout →
      passing isNull d ≠ .absent
    cases isNull <;> decide
  variable_ := by
    show ∀ d ∈ [pAmount, vTotal], d.parameterMode = none → passing isNull d = .absent
    cases isNull <;> decide

/-- After the declaration. -/
def declaredTotal (isNull : Bool) : NullEnv := NullProgram.store (passing isNull) [(vTotal, false)]

theorem declare_total (expression : String) (isNull : Bool) :
    (addTo expression).DataStep (passing isNull) [.declared vTotal] (declaredTotal isNull) := by
  have hread : readTotal "0" = .literal := by decide +kernel
  refine .declare (by simp [addTo]) rfl fun text htext => ?_
  obtain rfl : "0" = text := Option.some.inj htext
  show (addTo expression).MayGive (passing isNull) (readTotal "0") false
  rw [hread]
  rfl

theorem add_total (expression : String) (env : NullEnv) (isNull : Bool)
    (h : (addTo expression).MayGive env (readTotal expression) isNull) :
    (addTo expression).DataStep env [.ran "add" [(vTotal, isNull)]]
      (NullProgram.store env [(vTotal, isNull)]) := by
  refine .run (List.mem_cons_of_mem _ List.mem_cons_self) fun v hv => ?_
  obtain rfl := List.mem_singleton.mp hv
  refine ⟨("V_TOTAL", some expression), by simp [addTo], ?_, fun text htext => ?_⟩
  · show vTotal ∈ [pAmount, vTotal].filter fun d => d.symbol = Text.upperString "V_TOTAL"
    decide
  · obtain rfl : expression = text := Option.some.inj htext
    exact h

/-- The caller passes an amount, and one is added to the total. -/
theorem counted_run : Run ((addTo "V_TOTAL + 1").AccountedStep [] vTotal) (passing false)
    [.declared vTotal, .ran "add" [(vTotal, false)]]
    (NullProgram.store (declaredTotal false) [(vTotal, false)]) := by
  have hzero : readTotal "0" = .literal := by decide +kernel
  have hread : readTotal "V_TOTAL + 1" = .operation (.name "V_TOTAL") .literal := by decide +kernel
  have hnamed : (addTo "V_TOTAL + 1").named "V_TOTAL" = [vTotal] := by decide +kernel
  have hadd : (addTo "V_TOTAL + 1").MayGive (declaredTotal false)
    (readTotal "V_TOTAL + 1") false := by
    have htotal : (addTo "V_TOTAL + 1").MayGive (declaredTotal false) (.name "V_TOTAL") false :=
      NullProgram.mayGive_name (d := vTotal) (by simp [hnamed]) (by decide)
    have hone : (addTo "V_TOTAL + 1").MayGive (declaredTotal false) .literal false := rfl
    rw [hread]
    exact NullProgram.mayGive_operation htotal hone
  have hfirst : (addTo "V_TOTAL + 1").AccountedStep [] vTotal (passing false) [.declared vTotal]
      (declaredTotal false) := by
    refine ⟨declare_total _ _, fun event hevent => ?_⟩
    obtain rfl := List.mem_singleton.mp hevent
    intro _ text htext _
    obtain rfl : "0" = text := Option.some.inj htext
    show (addTo "V_TOTAL + 1").NeverNull _ (readTotal "0")
    rw [hzero]
    trivial
  have hsecond : (addTo "V_TOTAL + 1").AccountedStep [] vTotal (declaredTotal false)
      [.ran "add" [(vTotal, false)]]
      (NullProgram.store (declaredTotal false) [(vTotal, false)]) := by
    refine ⟨add_total "V_TOTAL + 1" _ false hadd, fun event hevent => ?_⟩
    obtain rfl := List.mem_singleton.mp hevent
    intro stmt hstmt w hw _
    obtain rfl := List.mem_singleton.mp hw
    have hall : ∀ s ∈ statementsOf (addTo "V_TOTAL + 1").ast.body, s.1 = "add" →
        nodeDefinitions [] "add" s.2 =
          [⟨"V_TOTAL", "add", some "V_TOTAL + 1", .definitelyNonNull⟩] := by decide +kernel
    rw [NullProgram.Recorded, hall _ hstmt rfl]
    refine ⟨_, List.mem_singleton_self _, ⟨by decide, rfl⟩, by decide, fun _ text htext => ?_⟩
    obtain rfl : "V_TOTAL + 1" = text := Option.some.inj htext
    show (addTo "V_TOTAL + 1").NeverNull _ (readTotal "V_TOTAL + 1")
    rw [hread]
    exact NullProgram.neverNull_operation (NullProgram.neverNull_name hnamed (by decide)) trivial
  exact Run.head hfirst (Run.single hsecond)

/-- A total that only literals are added to is never NULL. -/
theorem counted_total_non_null :
    (nullabilityFact (addTo "V_TOTAL + 1").ast [] vTotal).status = .definitelyNonNull ∧
      NullProgram.store (declaredTotal false) [(vTotal, false)] vTotal ≠ .null := by
  have hstatus : (nullabilityFact (addTo "V_TOTAL + 1").ast [] vTotal).status =
    .definitelyNonNull := by
    decide +kernel
  refine ⟨hstatus, ?_⟩
  have hpasses : (addTo "V_TOTAL + 1").PassesFit [] vTotal (passing false) := by
    rintro (hmode | hmode) <;> cases hmode
  exact (nullability_sound _ [] vTotal (by simp [addTo]) _ _ _ (passing_starts _ _) hpasses
    counted_run).2.1 hstatus

/-- The total is reported as non-null, but adding a NULL amount makes it NULL. -/
theorem total_of_null_amount :
    (nullabilityFact (addTo "V_TOTAL + P_AMOUNT").ast [] vTotal).status = .definitelyNonNull ∧
    ∃ env events env', (addTo "V_TOTAL + P_AMOUNT").Starts env ∧
      Run (addTo "V_TOTAL + P_AMOUNT").DataStep env events env' ∧ env' vTotal = .null := by
  have hread : readTotal "V_TOTAL + P_AMOUNT" =
    .operation (.name "V_TOTAL") (.name "P_AMOUNT") := by
    decide +kernel
  have htotal : (addTo "V_TOTAL + P_AMOUNT").MayGive (declaredTotal true) (.name "V_TOTAL") false :=
    NullProgram.mayGive_name (d := vTotal) (by decide +kernel) (by decide)
  have hamount : (addTo "V_TOTAL + P_AMOUNT").MayGive (declaredTotal true)
    (.name "P_AMOUNT") true :=
    NullProgram.mayGive_name (d := pAmount) (by decide +kernel) (by decide)
  have hnull : (addTo "V_TOTAL + P_AMOUNT").MayGive (declaredTotal true)
      (readTotal "V_TOTAL + P_AMOUNT") true := by
    rw [hread]
    exact NullProgram.mayGive_operation htotal hamount
  have hend : NullProgram.store (declaredTotal true) [(vTotal, true)] vTotal = .null := by decide
  have hstatus : (nullabilityFact (addTo "V_TOTAL + P_AMOUNT").ast [] vTotal).status =
      .definitelyNonNull := by decide +kernel
  have hrun : Run (addTo "V_TOTAL + P_AMOUNT").DataStep (passing true)
      ([.declared vTotal] ++ [.ran "add" [(vTotal, true)]])
      (NullProgram.store (declaredTotal true) [(vTotal, true)]) :=
    Run.head (declare_total _ _) (Run.single (add_total "V_TOTAL + P_AMOUNT" _ true hnull))
  exact ⟨hstatus, passing true, _, _, passing_starts _ _, hrun, hend⟩

end AtlasDb.Semantics
