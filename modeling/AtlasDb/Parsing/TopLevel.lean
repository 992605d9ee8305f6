import AtlasDb.Parsing.Definitions

/-!
# Keywords outside parentheses and blocks

`region_mixin.py: _find_top_level_keyword`. Which tokens are in view depends on where the search
starts: parentheses and blocks are counted from there, and a `)` that closes one opened before the
start is taken for nothing. A scalar `CASE` opens a block where a CASE statement could stand, and
its `END` does not close it.
-/

namespace AtlasDb.Parsing

open Core

/-! ## The search -/

def blockKinds : List String := ["IF", "LOOP", "WHILE", "REPEAT", "FOR", "CASE", "BEGIN"]

/-- `_is_case_statement_start`, given the token before the `CASE`. -/
def isCaseStatementStart : Option Token → Bool
  | none => true
  | some previous =>
    previous.value = ";" || previous.value = ":" ||
      ["BEGIN", "THEN", "ELSE", "DO"].contains previous.upper

/-- `_is_for_loop_start`, given the tokens after the `FOR`. -/
def isForLoopStart (later : List Token) : Bool :=
  let lookahead := (later.take 9).map Token.upper
  lookahead.contains "AS" && lookahead.contains "CURSOR"

structure ScanState where
  parenDepth : Nat := 0
  blockStack : List String := []
deriving DecidableEq

namespace ScanState

/-- The innermost block that an `END` with this word after it may end is closed, with all blocks in
it. -/
def close (s : ScanState) (following : String) : ScanState :=
  let expected := if following ≠ "BEGIN" ∧ following ∈ blockKinds then following else "BEGIN"
  if expected ∈ s.blockStack then
    { s with blockStack := (s.blockStack.dropWhile (· ≠ expected)).tail }
  else s

/-- A word of a block that does open one. -/
def opensBlock (before : Option Token) (t : Token) (later : List Token) : Bool :=
  (t.upper ≠ "CASE" || isCaseStatementStart before) && (t.upper ≠ "FOR" || isForLoopStart later)

/-- The effect of a token that is not the keyword looked for: `segment` is what follows up to the
end of the search, `beyond` the tokens after that. `previous` is empty at the start of the
search. -/
def advance (s : ScanState) (previous : String) (before : Option Token) (t : Token)
    (segment beyond : List Token) : ScanState :=
  if t.value = "(" then { s with parenDepth := s.parenDepth + 1 }
  else if t.value = ")" then { s with parenDepth := s.parenDepth - 1 }
  else if s.parenDepth ≠ 0 then s
  else if t.upper ∈ blockKinds ∧ previous ≠ "END" then
    if opensBlock before t (segment ++ beyond) then
      { s with blockStack := t.upper :: s.blockStack }
    else s
  else if t.upper = "END" ∧ s.blockStack ≠ [] then s.close ((segment.head?.map Token.upper).getD "")
  else s

/-- The token is the keyword and in view. -/
def finds (s : ScanState) (keyword : String) (t : Token) : Bool :=
  t.value ≠ "(" && t.value ≠ ")" && s.parenDepth = 0 && s.blockStack = [] && t.upper = keyword

end ScanState

/-- The loop of `_find_top_level_keyword`; the index counts from the start of the search. -/
def findFrom (keyword previous : String) (before : Option Token) (s : ScanState) (index : Nat) :
    List Token → List Token → Option Nat
  | [], _ => none
  | t :: ts, beyond =>
    if s.finds keyword t then some index
    else findFrom keyword t.upper (some t) (s.advance previous before t ts beyond)
      (index + 1) ts beyond

/-- `_find_top_level_keyword` for the part `segment` of a statement, after the token `before` and in
front of `beyond`. -/
def findTopLevelKeyword (keyword : String) (before : Option Token) (segment beyond : List Token) :
    Option Nat :=
  findFrom keyword "" before {} 0 segment beyond

section Found

variable {keyword previous : String} {before : Option Token} {s : ScanState} {index k : Nat}
  {segment beyond : List Token}

theorem findFrom_ge (h : findFrom keyword previous before s index segment beyond = some k) :
    index ≤ k := by
  induction segment generalizing previous before s index with
  | nil => cases h
  | cons t ts ih =>
    rw [findFrom] at h
    split at h
    · cases h
      exact Nat.le_refl _
    · exact Nat.le_of_succ_le (ih h)

theorem findFrom_upper (h : findFrom keyword previous before s index segment beyond = some k) :
    ∃ t, segment[k - index]? = some t ∧ t.upper = keyword := by
  induction segment generalizing previous before s index with
  | nil => cases h
  | cons t ts ih =>
    rw [findFrom] at h
    split at h
    · next hfinds =>
        cases h
        simp only [ScanState.finds, Bool.and_eq_true, decide_eq_true_eq] at hfinds
        exact ⟨t, by simp, hfinds.2⟩
    · obtain ⟨t', hget, hupper⟩ := ih h
      have hle := findFrom_ge h
      refine ⟨t', ?_, hupper⟩
      rw [show k - index = k - (index + 1) + 1 by omega]
      exact hget

end Found

end AtlasDb.Parsing
