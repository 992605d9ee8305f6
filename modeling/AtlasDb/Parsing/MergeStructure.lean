import AtlasDb.Parsing.TopLevel

/-!
# The arms of a MERGE

`binding_mixin.py: _merge_structure`. The arms are looked for from one `WHEN` to the next, and a
`WHEN` of a `CASE` expression is taken for an arm where it stands outside the parentheses opened
since the one before it. What is reported as complete are the arms of the statement if `CASE`
expressions and words that open a block stand in parentheses, or a branch that is left over has no
action word (`merge_arms_recovered`).
-/

namespace AtlasDb.Parsing

open Core

/-! ## Records -/

inductive MatchKind where
  | matched
  | notMatched
deriving DecidableEq

inductive MergeActionKind where
  | update
  | insert
  | delete
  | signal
  | unknown
deriving DecidableEq

structure MergeAction where
  matchKind : MatchKind
  conditionText : Option String
  actionKind : MergeActionKind
deriving DecidableEq

inductive StructureCompleteness where
  | structureComplete
  | structurePartial
deriving DecidableEq

structure MergeStructure where
  targetText : String
  actions : List MergeAction
  analysisCompleteness : StructureCompleteness
deriving DecidableEq

/-! ## The extractor -/

/-- The kind an action word stands for. -/
def actionKindOf (word : String) : MergeActionKind :=
  match word with
  | "UPDATE" => .update
  | "INSERT" => .insert
  | "DELETE" => .delete
  | "SIGNAL" => .signal
  | _ => .unknown

def isActionWord (t : Token) : Bool := ["UPDATE", "INSERT", "DELETE", "SIGNAL"].contains t.upper

def startsWith (word : String) (tokens : List Token) : Bool :=
  tokens.head?.any fun t => t.upper = word

/-- `text or None`. -/
def textOrNone (text : String) : Option String := if text = "" then none else some text

/-- The action of an arm, given the tokens after its `WHEN` and where its `THEN` is among them. -/
def readArm (source : String) (arm : List Token) (thenIndex : Nat) : MergeAction :=
  let negated := startsWith "NOT" arm
  let cursor := if negated then 1 else 0
  let cursor := if startsWith "MATCHED" (arm.drop cursor) then cursor + 1 else cursor
  let condition := between arm cursor thenIndex
  let condition := if startsWith "AND" condition then condition.tail else condition
  { matchKind := if negated then .notMatched else .matched
    conditionText := textOrNone (textForTokens source condition)
    actionKind := ((arm.drop (thenIndex + 1)).find? isActionWord).elim .unknown fun t =>
      actionKindOf t.upper }

/-- The loop of `_merge_structure`, from the position in the statement the tokens begin at. -/
def mergeActions (source : String) : Nat → List Token → List MergeAction
  | 0, _ => []
  | _ + 1, [] => []
  | fuel + 1, t :: ts =>
    if t.upper ≠ "WHEN" then mergeActions source fuel ts
    else
      let armEnd := (findTopLevelKeyword "WHEN" (some t) ts []).getD ts.length
      let arm := ts.take armEnd
      let later := ts.drop armEnd
      match findTopLevelKeyword "THEN" (some t) arm later with
      | none => mergeActions source fuel later
      | some thenIndex => readArm source arm thenIndex :: mergeActions source fuel later

/-- `target_text`, given what follows the `MERGE`. -/
def mergeTarget (source : String) (merge : Token) (rest : List Token) : String :=
  let into := rest.head?.filter fun t => t.upper = "INTO"
  let target := if into.isSome then rest.tail else rest
  let stop :=
    (findTopLevelKeyword "USING" (some (into.getD merge)) target []).getD (min 1 target.length)
  textForTokens source (target.take stop)

/-- `_merge_structure`. It is called for statements that begin with `MERGE`. -/
def mergeStructure (source : String) (statement : List Token) : Option MergeStructure :=
  match statement.dropWhile fun t => t.upper ≠ "MERGE" with
  | [] => none
  | merge :: rest =>
    let actions := mergeActions source statement.length statement
    some
      { targetText := mergeTarget source merge rest
        actions := actions
        analysisCompleteness :=
          if actions ≠ [] ∧ actions.all (·.actionKind ≠ .unknown) then .structureComplete
          else .structurePartial }

/-! ## The pieces of a statement -/

/-- What the loop takes from one `WHEN` to the next one in view. -/
structure Piece where
  first : Token
  body : List Token
  later : List Token
deriving DecidableEq

def pieceAt (first : Token) (rest : List Token) : Piece :=
  let stop := (findTopLevelKeyword "WHEN" (some first) rest []).getD rest.length
  ⟨first, rest.take stop, rest.drop stop⟩

/-- The statement is divided at its first `WHEN`, at the next one in view of that, and so on. -/
def pieces : Nat → List Token → List Piece
  | 0, _ => []
  | _ + 1, [] => []
  | fuel + 1, t :: ts =>
    if t.upper ≠ "WHEN" then pieces fuel ts else pieceAt t ts :: pieces fuel (pieceAt t ts).later

namespace Piece

variable (p : Piece)

/-- Where the `THEN` in view is. -/
def thenIndex : Option Nat := findTopLevelKeyword "THEN" (some p.first) p.body p.later

def action (source : String) : Option MergeAction := p.thenIndex.map (readArm source p.body)

end Piece

theorem mergeActions_eq (source : String) (fuel : Nat) (tokens : List Token) :
    mergeActions source fuel tokens = (pieces fuel tokens).filterMap fun p => p.action source := by
  induction fuel generalizing tokens with
  | zero => rfl
  | succ fuel ih =>
    cases tokens with
    | nil => rfl
    | cons t ts =>
      rw [mergeActions.eq_def, pieces.eq_def]
      dsimp only
      split
      · exact ih ts
      · rw [List.filterMap_cons]
        show (match (pieceAt t ts).thenIndex with | none => _ | some k => _) = _
        rw [Piece.action]
        cases (pieceAt t ts).thenIndex with
        | none => exact ih _
        | some k => exact congrArg _ (ih _)

/-! ## Written statements -/

/-- `WHEN [NOT] MATCHED [AND condition] THEN action`. -/
structure MergeArm where
  when : Keyword "WHEN"
  not : Option (Keyword "NOT")
  matched : Keyword "MATCHED"
  condition : Option (Keyword "AND" × List Token)
  then_ : Keyword "THEN"
  action : Token
  action_word : isActionWord action = true
  rest : List Token

namespace MergeArm

variable (a : MergeArm)

def conditionTokens : List Token := a.condition.elim [] fun c => c.1.token :: c.2

/-- What stands between the `WHEN` and the `THEN`. -/
def opening : List Token := a.not.toList.map Keyword.token ++ a.matched.token :: a.conditionTokens

/-- What stands after the `WHEN`. -/
def afterWhen : List Token := a.opening ++ a.then_.token :: a.action :: a.rest

def tokens : List Token := a.when.token :: a.afterWhen

/-- The arm as it should be reported. -/
def written (source : String) : MergeAction where
  matchKind := if a.not.isSome then .notMatched else .matched
  conditionText := textOrNone (textForTokens source (a.condition.elim [] Prod.snd))
  actionKind := actionKindOf a.action.upper

end MergeArm

/-- `source` is what stands between the `USING` and the arms, the `ON` condition included. -/
structure MergeStatement where
  merge : Keyword "MERGE"
  into : Option (Keyword "INTO")
  target : List Token
  target_head : startsWith "INTO" target = false
  using_ : Keyword "USING"
  source : List Token
  arms : List MergeArm

namespace MergeStatement

variable (m : MergeStatement)

def afterTarget : List Token :=
  m.using_.token :: (m.source ++ m.arms.flatMap MergeArm.tokens)

def tokens : List Token :=
  m.merge.token :: (m.into.toList.map Keyword.token ++ (m.target ++ m.afterTarget))

/-- The token in front of the target. -/
def beforeTarget : Token := m.into.elim m.merge.token Keyword.token

/-- What is reported as complete is what the statement says. -/
def Recovered (source : String) : Prop :=
  ∀ s, mergeStructure source m.tokens = some s → s.analysisCompleteness = .structureComplete →
    s.actions = m.arms.map (fun a => a.written source) ∧
    s.targetText = textForTokens source m.target

end MergeStatement

/-! ## What stands in view -/

/-- Outside parentheses the part has none of the words, and no word that opens a block there; `rest`
is what comes after the part. Inside, anything may stand. -/
def Clear (words : List String) (rest : List Token) : Option Token → Nat → List Token → Prop
  | _, depth, [] => depth = 0
  | before, depth, t :: ts =>
    if t.value = "(" then Clear words rest (some t) (depth + 1) ts
    else if t.value = ")" then Clear words rest (some t) (depth - 1) ts
    else
      (depth = 0 → t.upper ∉ words ∧
        (t.upper ∈ blockKinds → ScanState.opensBlock before t (ts ++ rest) = false)) ∧
      Clear words rest (some t) depth ts

instance decidableClear (words : List String) (rest : List Token) (before : Option Token)
    (depth : Nat) (part : List Token) : Decidable (Clear words rest before depth part) := by
  induction part generalizing before depth with
  | nil => exact inferInstanceAs (Decidable (depth = 0))
  | cons t ts ih =>
    unfold Clear
    have := ih (some t) depth
    have := ih (some t) (depth + 1)
    have := ih (some t) (depth - 1)
    infer_instance

section Clear

variable {words : List String} {keyword previous : String} {before : Option Token}
  {depth index : Nat} {part segment beyond : List Token}

/-- A search for one of the words goes on behind the part as it would begin there. -/
theorem findFrom_clear (hkeyword : keyword ∈ words)
    (h : Clear words (segment ++ beyond) before depth part) :
    ∃ previous' before',
    findFrom keyword previous before ⟨depth, []⟩ index (part ++ segment) beyond =
      findFrom keyword previous' before' {} (index + part.length) segment beyond := by
  induction part generalizing previous before depth index with
  | nil =>
    obtain rfl : depth = 0 := h
    exact ⟨previous, before, rfl⟩
  | cons t ts ih =>
    rw [List.cons_append, findFrom, List.length_cons, ← Nat.add_assoc, Nat.add_right_comm]
    unfold Clear at h
    split at h
    · next hopen =>
        rw [if_neg (by simp [ScanState.finds, hopen])]
        simpa [ScanState.advance, hopen] using ih h
    split at h
    · next hopen hclose =>
        rw [if_neg (by simp [ScanState.finds, hclose])]
        simpa [ScanState.advance, hopen, hclose] using ih h
    · next hopen hclose =>
        obtain ⟨houtside, hrest⟩ := h
        have hkeep : ScanState.advance ⟨depth, []⟩ previous before t (ts ++ segment) beyond =
          ⟨depth, []⟩ := by
          unfold ScanState.advance
          rw [if_neg hopen, if_neg hclose]
          split
          · rfl
          · next hdepth =>
              have hzero : depth = 0 := not_not.mp hdepth
              split
              · next hblock =>
                  rw [List.append_assoc, (houtside hzero).2 hblock.1, if_neg Bool.false_ne_true]
              · rw [if_neg fun hend => hend.2 rfl]
        rw [if_neg, hkeep]
        · exact ih hrest
        · simp only [ScanState.finds, Bool.and_eq_true, decide_eq_true_eq]
          rintro ⟨⟨⟨-, hzero⟩, -⟩, rfl⟩
          exact (houtside hzero).1 hkeyword

/-- The keyword behind a part without it is the one found. -/
theorem findTopLevelKeyword_clear (hkeyword : keyword ∈ words) (k : Keyword keyword)
    (hparen : keyword ≠ "(" ∧ keyword ≠ ")") {later : List Token}
    (h : Clear words (k.token :: later ++ beyond) before 0 part) :
    findTopLevelKeyword keyword before (part ++ k.token :: later) beyond = some part.length := by
  obtain ⟨_, _, hfind⟩ := @findFrom_clear words keyword "" before 0 0 part _ _ hkeyword h
  have hvalue : ∀ mark, Text.upperString mark = mark → keyword ≠ mark → k.token.value ≠ mark := by
    rintro mark hmark hne rfl
    exact hne (k.value_upper.symm.trans hmark)
  rw [findTopLevelKeyword]
  refine hfind.trans ?_
  rw [findFrom, if_pos, Nat.zero_add]
  simp [ScanState.finds, k.upper_eq, hvalue "(" (by decide) hparen.1,
    hvalue ")" (by decide) hparen.2]

/-- In a part without the keyword, at the end of the search, none is found. -/
theorem findTopLevelKeyword_none (hkeyword : keyword ∈ words)
    (h : Clear words beyond before 0 part) :
    findTopLevelKeyword keyword before part beyond = none := by
  obtain ⟨_, _, hfind⟩ := @findFrom_clear words keyword "" before 0 0 part [] _ hkeyword h
  rw [List.append_nil] at hfind
  exact hfind

end Clear

/-- In a part without the keyword at all none is found. -/
theorem findTopLevelKeyword_free {keyword : String} {before : Option Token}
    {part beyond : List Token}
    (h : ∀ t ∈ part, t.upper ≠ keyword) :
    findTopLevelKeyword keyword before part beyond = none := by
  cases hfind : findTopLevelKeyword keyword before part beyond with
  | none => rfl
  | some k =>
    obtain ⟨t, hget, hupper⟩ := findFrom_upper hfind
    exact absurd hupper (h t (List.mem_of_getElem? hget))

/-! ## Statements that are divided at their `WHEN`s -/

/-- What the loop takes from a `WHEN` on ends in front of a `WHEN`, or at the end of the statement:
outside parentheses there is no `WHEN` in it and no block opens, or there is no `WHEN` in it at
all. -/
inductive EndsBefore (when : Token) (body : List Token) : List Token → Prop
  | next {k : Keyword "WHEN"} {later : List Token}
      (h : Clear ["WHEN"] (k.token :: later) (some when) 0 body) : EndsBefore when body
      (k.token :: later)
  | clear (h : Clear ["WHEN"] [] (some when) 0 body) : EndsBefore when body []
  | free (h : ∀ t ∈ body, t.upper ≠ "WHEN") : EndsBefore when body []

/-- From its first `WHEN` on the statement is divided at each `WHEN` in view of the one before. -/
inductive Divided : List Token → List Piece → Prop
  | nil : Divided [] []
  | cons {when : Keyword "WHEN"} {body later : List Token} {ps : List Piece}
      (hbody : EndsBefore when.token body later) (hlater : Divided later ps) :
      Divided (when.token :: (body ++ later)) (⟨when.token, body, later⟩ :: ps)

theorem pieceAt_endsBefore {when : Token} {body later : List Token}
    (h : EndsBefore when body later) :
    pieceAt when (body ++ later) = ⟨when, body, later⟩ := by
  have hstop : (findTopLevelKeyword "WHEN" (some when) (body ++ later) []).getD
    (body ++ later).length =
      body.length := by
    cases h with
    | @next k later hclear =>
      rw
        [findTopLevelKeyword_clear (List.mem_singleton_self _) k (by decide)
          (by simpa using hclear)]
      rfl
    | clear hclear =>
      rw [List.append_nil, findTopLevelKeyword_none (List.mem_singleton_self _) hclear]
      rfl
    | free hfree =>
      rw [List.append_nil, findTopLevelKeyword_free hfree]
      rfl
  rw [pieceAt, hstop, List.take_left, List.drop_left]

theorem pieces_divided {tokens : List Token} {ps : List Piece} (h : Divided tokens ps) {fuel : Nat}
    (hfuel : tokens.length ≤ fuel) : pieces fuel tokens = ps := by
  induction h generalizing fuel with
  | nil => cases fuel <;> rfl
  | @cons when body later ps hbody hlater ih =>
    cases fuel with
    | zero => simp at hfuel
    | succ fuel =>
      rw [pieces.eq_def]
      dsimp only
      rw [if_neg (not_not.mpr when.upper_eq), pieceAt_endsBefore hbody]
      simp only [List.length_cons, List.length_append] at hfuel
      rw [ih (by omega)]

/-- The part in front of the first `WHEN` is passed over. -/
theorem pieces_append {lead tokens : List Token} {ps : List Piece}
    (hlead : ∀ t ∈ lead, t.upper ≠ "WHEN")
    (h : Divided tokens ps) {fuel : Nat} (hfuel : (lead ++ tokens).length ≤ fuel) :
    pieces fuel (lead ++ tokens) = ps := by
  induction lead generalizing fuel with
  | nil => exact pieces_divided h hfuel
  | cons t lead ih =>
    obtain ⟨ht, hlead⟩ := List.forall_mem_cons.mp hlead
    cases fuel with
    | zero => simp at hfuel
    | succ fuel =>
      rw [List.cons_append, pieces.eq_def]
      dsimp only
      rw [if_pos ht]
      exact ih hlead (Nat.le_of_succ_le_succ hfuel)

/-! ## When the arms are recovered -/

/-- The opening of the arm has no `THEN` outside parentheses, and the arm no second `WHEN` there. -/
structure MergeArm.IsClear (a : MergeArm) (later : List Token) : Prop where
  opening : Clear ["THEN"] (a.then_.token :: (a.action :: a.rest) ++ later)
    (some a.when.token) 0 a.opening
  body : EndsBefore a.when.token a.afterWhen later

def ArmsClear : List MergeArm → Prop
  | [] => True
  | a :: as => a.IsClear (as.flatMap MergeArm.tokens) ∧ ArmsClear as

/-- There is no `USING` outside parentheses in the target, no `WHEN` at all in the target and the
source, and the arms are clear: a `CASE`, and a word that opens a block, stands in parentheses
only. -/
structure MergeStatement.OnlyInParentheses (m : MergeStatement) : Prop where
  target : Clear ["USING"] m.afterTarget (some m.beforeTarget) 0 m.target
  lead : ∀ t ∈ m.target ++ m.source, t.upper ≠ "WHEN"
  arms : ArmsClear m.arms

/-- A `WHEN` in view, as that of a `CASE` in the source or in an action, has a `THEN` and no action
word up to the next `WHEN` in view. -/
def MergeStatement.LeavesOver (m : MergeStatement) : Prop :=
  ∃ lead tokens ps, m.tokens = lead ++ tokens ∧ (∀ t ∈ lead, t.upper ≠ "WHEN") ∧ Divided tokens ps ∧
    ∃ p ∈ ps, ∃ opening, ∃ then_ : Keyword "THEN", ∃ rest, p.body = opening ++ then_.token :: rest ∧
      Clear ["THEN"] (then_.token :: rest ++ p.later) (some p.first) 0 opening ∧
      ∀ t ∈ rest, isActionWord t = false

/-! ## Reading an arm -/

section Arm

variable {a : MergeArm} {later : List Token}

/-- What the loop takes for each arm. -/
def armPieces : List MergeArm → List Piece
  | [] => []
  | a :: as => ⟨a.when.token, a.afterWhen, as.flatMap MergeArm.tokens⟩ :: armPieces as

theorem divided_arms {arms : List MergeArm} (h : ArmsClear arms) :
    Divided (arms.flatMap MergeArm.tokens) (armPieces arms) := by
  induction arms with
  | nil => exact .nil
  | cons a as ih =>
    rw [List.flatMap_cons, MergeArm.tokens, List.cons_append]
    exact .cons h.1.body (ih h.2)

theorem startsWith_keyword {word other : String} (k : Keyword other) (rest : List Token) :
    startsWith word (k.token :: rest) = decide (other = word) := by
  simp [startsWith, k.upper_eq]

theorem readArm_written (source : String) (more : List Token) :
    readArm source (a.opening ++ a.then_.token :: a.action :: more) a.opening.length =
      a.written source := by
  have haction :
    ((a.opening ++ a.then_.token :: a.action :: more).drop (a.opening.length + 1)).find?
      isActionWord = some a.action := by
    rw [List.drop_append, List.drop_eq_nil_of_le (by omega)]
    simp [a.action_word]
  have htake : (a.opening ++ a.then_.token :: a.action :: more).take a.opening.length = a.opening :=
    List.take_left
  have hcondition : (if startsWith "AND" a.conditionTokens then a.conditionTokens.tail
      else a.conditionTokens) = a.condition.elim [] Prod.snd := by
    rw [MergeArm.conditionTokens]
    cases a.condition with
    | none => rfl
    | some c => simp [startsWith_keyword]
  rw [readArm, haction, between, htake, MergeArm.written, ← hcondition]
  unfold MergeArm.opening
  cases a.not with
  | none => simp [startsWith_keyword]
  | some k => simp [startsWith_keyword]

end Arm

/-! ## The statement -/

/-- The arms are read as they are written. -/
theorem actions_of_arms (source : String) {arms : List MergeArm} (h : ArmsClear arms) :
    (armPieces arms).filterMap (fun p => p.action source) = arms.map fun a => a.written source := by
  induction arms with
  | nil => rfl
  | cons a as ih =>
    have hthen : findTopLevelKeyword "THEN" (some a.when.token) a.afterWhen
      (as.flatMap MergeArm.tokens) =
        some a.opening.length :=
      findTopLevelKeyword_clear (List.mem_singleton_self _) a.then_ (by decide) h.1.opening
    rw [armPieces, List.filterMap_cons, Piece.action, Piece.thenIndex, hthen, Option.map_some,
      List.map_cons, ← ih h.2, ← readArm_written source (a := a) a.rest]
    rfl

theorem mergeStructure_actions {source : String} {tokens : List Token} {s : MergeStructure}
    (hs : mergeStructure source tokens = some s) :
    s.actions = (pieces tokens.length tokens).filterMap fun p => p.action source := by
  rw [mergeStructure] at hs
  split at hs
  · cases hs
  · cases hs
    exact mergeActions_eq source _ tokens

theorem known_of_complete {source : String} {tokens : List Token} {s : MergeStructure}
    (hs : mergeStructure source tokens = some s)
    (hc : s.analysisCompleteness = .structureComplete) :
    ∀ action ∈ s.actions, action.actionKind ≠ .unknown := by
  rw [mergeStructure] at hs
  split at hs
  · cases hs
  · cases hs
    dsimp only at hc ⊢
    split at hc
    · next hknown => simpa using hknown.2
    · cases hc

theorem mergeStructure_eq (source : String) (m : MergeStatement) :
    ∃ s, mergeStructure source m.tokens = some s ∧
      s.targetText = mergeTarget source m.merge.token
        (m.into.toList.map Keyword.token ++ (m.target ++ m.afterTarget)) := by
  have hdrop : m.tokens.dropWhile (fun t => t.upper ≠ "MERGE") = m.tokens := by
    rw [MergeStatement.tokens, List.dropWhile_cons_of_neg (by simp [m.merge.upper_eq])]
  rw [mergeStructure, hdrop]
  exact ⟨_, rfl, rfl⟩

theorem mergeTarget_eq (source : String) {m : MergeStatement}
    (h : findTopLevelKeyword "USING" (some m.beforeTarget) (m.target ++ m.afterTarget) [] =
      some m.target.length) :
    mergeTarget source m.merge.token
    (m.into.toList.map Keyword.token ++ (m.target ++ m.afterTarget)) =
      textForTokens source m.target := by
  rw [mergeTarget]
  rw [MergeStatement.beforeTarget] at h
  cases hinto : m.into with
  | none =>
    rw [hinto] at h
    have hhead : (m.target ++ m.afterTarget).head?.filter (fun t => t.upper = "INTO") = none := by
      have htarget := m.target_head
      cases hcase : m.target with
      | nil => simp [MergeStatement.afterTarget, m.using_.upper_eq]
      | cons t ts =>
        rw [hcase] at htarget
        simpa [startsWith] using htarget
    simp only [Option.toList_none, List.map_nil, List.nil_append, hhead, Option.isSome_none,
      Bool.false_eq_true, if_false, Option.getD_none]
    rw [Option.elim_none] at h
    rw [h, Option.getD_some, List.take_left]
  | some k =>
    rw [hinto, Option.elim_some] at h
    have hhead : (some k.token).filter (fun t => t.upper = "INTO") = some k.token := by
      simp [Option.filter, k.upper_eq]
    simp only [Option.toList_some, List.map_cons, List.map_nil, List.cons_append, List.nil_append,
      List.head?_cons, hhead, Option.isSome_some, if_true, List.tail_cons, Option.getD_some]
    rw [h, Option.getD_some, List.take_left]

/-- A branch that is left over is reported without an action, so the structure is not complete. -/
theorem not_complete_of_leavesOver {source : String} {m : MergeStatement} (h : m.LeavesOver)
    {s : MergeStructure} (hs : mergeStructure source m.tokens = some s) :
    s.analysisCompleteness ≠ .structureComplete := by
  intro hc
  obtain ⟨lead, tokens, ps, htokens, hlead, hdivided, p, hp, opening, then_, rest, hbody,
    hclear, hrest⟩ := h
  have hthen : p.thenIndex = some opening.length := by
    rw [Piece.thenIndex, hbody]
    exact findTopLevelKeyword_clear (List.mem_singleton_self _) then_ (by decide) hclear
  have hmem : readArm source p.body opening.length ∈ s.actions := by
    rw [mergeStructure_actions hs, htokens, pieces_append hlead hdivided (Nat.le_refl _)]
    exact List.mem_filterMap.mpr ⟨p, hp, by rw [Piece.action, hthen]; rfl⟩
  refine known_of_complete hs hc _ hmem ?_
  have hdrop : p.body.drop (opening.length + 1) = rest := by
    rw [hbody, List.drop_append, List.drop_eq_nil_of_le (by omega)]
    simp
  have hnone : rest.find? isActionWord = none := by simpa using hrest
  rw [readArm, hdrop, hnone]
  rfl

/-- **The arms of a MERGE.** A MERGE that is reported as complete has the target and the arms of the
statement, if `CASE` and block words stand in parentheses only. If a branch of a `CASE` outside
them, in the source or an action, is left over without an action word, the statement is not reported
as complete. -/
theorem merge_arms_recovered (source : String) (m : MergeStatement)
    (h : m.OnlyInParentheses ∨ m.LeavesOver) : m.Recovered source := by
  obtain ⟨structure_, hs, htarget⟩ := mergeStructure_eq source m
  intro s hs' hc
  obtain rfl := Option.some.inj (hs.symm.trans hs')
  rcases h with h | h
  · have hlead : ∀ t ∈ m.merge.token :: (m.into.toList.map Keyword.token ++
        (m.target ++ (m.using_.token :: m.source))), t.upper ≠ "WHEN" := by
      intro t ht
      simp only [List.mem_cons, List.mem_append, List.mem_map, Option.mem_toList] at ht
      rcases ht with rfl | ⟨k, -, rfl⟩ | ht | rfl | ht
      · rw [m.merge.upper_eq]; decide
      · rw [k.upper_eq]; decide
      · exact h.lead t (List.mem_append_left _ ht)
      · rw [m.using_.upper_eq]; decide
      · exact h.lead t (List.mem_append_right _ ht)
    have htokens : m.tokens = (m.merge.token :: (m.into.toList.map Keyword.token ++
        (m.target ++ (m.using_.token :: m.source)))) ++ m.arms.flatMap MergeArm.tokens := by
      simp [MergeStatement.tokens, MergeStatement.afterTarget]
    refine ⟨?_, htarget.trans (mergeTarget_eq source ?_)⟩
    · rw [mergeStructure_actions hs, htokens,
        pieces_append hlead (divided_arms h.arms) (Nat.le_refl _)]
      exact actions_of_arms source h.arms
    · exact findTopLevelKeyword_clear (List.mem_singleton_self _) m.using_ (by decide)
        (by simpa [MergeStatement.afterTarget] using h.target)
  · exact absurd hc (not_complete_of_leavesOver h hs)

/-! ## A CASE expression in the condition of an arm -/

def keywordToken (word : String) (offset : Nat) (h : Text.upperString word = word) :
    Keyword word where
  token := wordToken word offset
  upper_eq := rfl
  value_upper := h

def numberToken (digits : String) (offset : Nat) : Token := ⟨.number, digits, digits, offset⟩

def caseConditionText : String :=
  "MERGE INTO T USING S ON A = B WHEN MATCHED AND CASE WHEN C = 1 THEN 1 END = 1 THEN DELETE"

def caseConditionArm : MergeArm where
  when := keywordToken "WHEN" 30 (by decide +kernel)
  not := none
  matched := keywordToken "MATCHED" 35 (by decide +kernel)
  condition := some (keywordToken "AND" 43 (by decide +kernel),
    [wordToken "CASE" 47, wordToken "WHEN" 52, wordToken "C" 57, markToken "=" 59,
      numberToken "1" 61,
     wordToken "THEN" 63, numberToken "1" 68, wordToken "END" 70, markToken "=" 74,
       numberToken "1" 76])
  then_ := keywordToken "THEN" 78 (by decide +kernel)
  action := wordToken "DELETE" 83
  action_word := rfl
  rest := []

/-- The statement of `caseConditionText`. -/
def caseCondition : MergeStatement where
  merge := keywordToken "MERGE" 0 (by decide +kernel)
  into := some (keywordToken "INTO" 6 (by decide +kernel))
  target := [wordToken "T" 11]
  target_head := rfl
  using_ := keywordToken "USING" 13 (by decide +kernel)
  source :=
    [wordToken "S" 19, wordToken "ON" 21, wordToken "A" 24, markToken "=" 26, wordToken "B" 28]
  arms := [caseConditionArm]

example : (scan caseConditionText).tokens = caseCondition.tokens := by decide +kernel

theorem caseCondition_structure : mergeStructure caseConditionText caseCondition.tokens =
    some ⟨"T", [⟨.matched, some "C = 1", .delete⟩], .structureComplete⟩ := by
  decide +kernel

theorem case_condition_misread :
    ¬ ∀ (source : String) (m : MergeStatement), m.Recovered source := by
  intro h
  obtain ⟨hactions, -⟩ := h caseConditionText caseCondition _ caseCondition_structure rfl
  revert hactions
  decide +kernel

/-- The same statement with the `CASE` in parentheses. -/
def parenthesizedText : String :=
  "MERGE INTO T USING S ON A = B WHEN MATCHED AND (CASE WHEN C = 1 THEN 1 END) = 1 THEN DELETE"

def parenthesizedArm : MergeArm where
  when := keywordToken "WHEN" 30 (by decide +kernel)
  not := none
  matched := keywordToken "MATCHED" 35 (by decide +kernel)
  condition := some (keywordToken "AND" 43 (by decide +kernel),
    [markToken "(" 47, wordToken "CASE" 48, wordToken "WHEN" 53, wordToken "C" 58, markToken "=" 60,
     numberToken "1" 62, wordToken "THEN" 64, numberToken "1" 69, wordToken "END" 71,
     markToken ")" 74,
     markToken "=" 76, numberToken "1" 78])
  then_ := keywordToken "THEN" 80 (by decide +kernel)
  action := wordToken "DELETE" 85
  action_word := rfl
  rest := []

def parenthesized : MergeStatement := { caseCondition with arms := [parenthesizedArm] }

example : (scan parenthesizedText).tokens = parenthesized.tokens := by decide +kernel

theorem parenthesized_onlyInParentheses : parenthesized.OnlyInParentheses where
  target := by decide +kernel
  lead := by decide +kernel
  arms := ⟨⟨by decide +kernel, .clear (by decide +kernel)⟩, trivial⟩

theorem parenthesized_recovered : parenthesized.Recovered parenthesizedText :=
  merge_arms_recovered parenthesizedText parenthesized (.inl parenthesized_onlyInParentheses)

end AtlasDb.Parsing
