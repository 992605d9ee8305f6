import AtlasDb.Dialects.Scanner
import Mathlib.Data.List.TakeWhile

/-!
# What the statement scanner keeps

Every piece the scanner puts into its buffer ends up in one statement, unless it is white space and
semicolons (`Accounted`). Which pieces it puts there is decided by the lines of the masked body,
that it pairs with those of the body by their number (`keptPieces`).
-/

namespace AtlasDb.Dialects

open Core

/-! ## Blank texts -/

theorem stripBy_eq_nil_iff {p : Char → Bool} {text : List Char} :
    Text.stripBy p text = [] ↔ ∀ c ∈ text, p c = true := by
  rw [Text.stripBy, List.reverse_eq_nil_iff, List.dropWhile_eq_nil_iff]
  constructor
  · intro h c hc
    rw [← List.takeWhile_append_dropWhile (p := p) (l := text)] at hc
    rcases List.mem_append.mp hc with hc | hc
    · exact List.mem_takeWhile_imp hc
    · exact h c (List.mem_reverse.mpr hc)
  · exact fun h c hc => h c ((List.dropWhile_suffix p).mem (List.mem_reverse.mp hc))

theorem mem_stripBy {p : Char → Bool} {text : List Char} {c : Char} (hc : c ∈ text)
    (hp : p c = false) : c ∈ Text.stripBy p text := by
  have hdrop (l : List Char) (hl : c ∈ l) : c ∈ l.dropWhile p := by
    rw [← List.takeWhile_append_dropWhile (p := p) (l := l)] at hl
    rcases List.mem_append.mp hl with hl | hl
    · rw [List.mem_takeWhile_imp hl] at hp
      exact nomatch hp
    · exact hl
  rw [Text.stripBy, List.mem_reverse]
  exact hdrop _ (List.mem_reverse.mpr (hdrop _ hc))

/-- White space and semicolons. -/
def isTrivial (text : List Char) : Bool := text.all fun c => Text.isSpace c || c = ';'

theorem trivial_of_no_text {text : List Char} (h : hasText (Text.strip text) = false) :
    isTrivial text = true := by
  have hnil : Text.strip (Text.stripBy (· = ';') (Text.strip text)) = [] := by
    simpa [hasText] using h
  have hspace := stripBy_eq_nil_iff.mp hnil
  refine List.all_eq_true.mpr fun c hc => ?_
  by_contra htrivial
  simp only [Bool.or_eq_true, decide_eq_true_eq, not_or, Bool.not_eq_true] at htrivial
  have hmem : c ∈ Text.strip text := mem_stripBy hc htrivial.1
  have := hspace c (mem_stripBy hmem (decide_eq_false htrivial.2))
  rw [htrivial.1] at this
  exact nomatch this

/-! ## Placed texts -/

/-- Texts one after the other, from an offset on. -/
def placed : Nat → List (List Char) → List Piece
  | _, [] => []
  | o, text :: texts => ⟨o, text⟩ :: placed (o + text.length) texts

def Piece.stop (p : Piece) : Nat := p.offset + p.text.length

section Placed

variable {o : Nat} {texts : List (List Char)} {q : Piece}

theorem placed_bounds (h : q ∈ placed o texts) :
    o ≤ q.offset ∧ q.stop ≤ o + texts.flatten.length := by
  induction texts generalizing o with
  | nil => exact nomatch h
  | cons text texts ih =>
    rw [List.flatten_cons, List.length_append]
    rcases List.mem_cons.mp h with rfl | h
    · simp only [Piece.stop]
      omega
    · have := ih h
      omega

theorem placed_ordered : (placed o texts).Pairwise fun a b => a.stop ≤ b.offset := by
  induction texts generalizing o with
  | nil => exact .nil
  | cons text texts ih =>
    exact .cons (fun b hb => (placed_bounds hb).1) ih

theorem eq_of_between {pieces : List Piece} {i j p : Nat} {a b : Piece}
    (hordered : pieces.Pairwise fun a b => a.stop ≤ b.offset) (ha : pieces[i]? = some a)
    (hb : pieces[j]? = some b) (hpa : a.offset ≤ p ∧ p < a.stop) (hpb : b.offset ≤ p ∧ p < b.stop) :
    i = j := by
  obtain ⟨hi, rfl⟩ := List.getElem?_eq_some_iff.mp ha
  obtain ⟨hj, rfl⟩ := List.getElem?_eq_some_iff.mp hb
  rcases Nat.lt_trichotomy i j with hij | hij | hij
  · have := List.pairwise_iff_getElem.mp hordered i j hi hj hij
    omega
  · exact hij
  · have := List.pairwise_iff_getElem.mp hordered j i hj hi hij
    omega

theorem placed_slice {before tail : List Char} (h : q ∈ placed before.length texts) :
    ((before ++ texts.flatten ++ tail).drop q.offset).take q.text.length = q.text := by
  induction texts generalizing before with
  | nil => exact nomatch h
  | cons text texts ih =>
    rcases List.mem_cons.mp h with rfl | h
    · simp
    · have hlength : before.length + text.length = (before ++ text).length := by simp
      rw [hlength] at h
      simpa using ih h

theorem exists_placed {p : Nat} (hlow : o ≤ p) (hhigh : p < o + texts.flatten.length) :
    ∃ q ∈ placed o texts, q.offset ≤ p ∧ p < q.stop := by
  induction texts generalizing o with
  | nil =>
    simp only [List.flatten_nil, List.length_nil] at hhigh
    omega
  | cons text texts ih =>
    rw [List.flatten_cons, List.length_append] at hhigh
    by_cases hp : p < o + text.length
    · exact ⟨⟨o, text⟩, List.mem_cons_self, hlow, hp⟩
    · obtain ⟨q, hq, hplace⟩ := ih (o := o + text.length) (by omega) (by omega)
      exact ⟨q, List.mem_cons_of_mem _ hq, hplace⟩

end Placed

/-! ## Pieces of a line -/

theorem semicolon_of_ends {s : PieceState} {c : Char} {next : Option Char}
    (h : (s.step c next).2 = true) : c = ';' := by
  unfold PieceState.step at h
  split at h
  · exact nomatch h
  split at h
  · split at h
    · split at h
      · exact nomatch h
      · exact nomatch h
    · exact nomatch h
  split at h
  · split at h
    · exact nomatch h
    · exact nomatch h
  split at h
  · exact nomatch h
  split at h
  · exact nomatch h
  split at h
  · exact nomatch h
  split at h
  · exact nomatch h
  · simp only [Bool.and_eq_true, decide_eq_true_eq] at h
    exact h.1

theorem piecesFrom_flatten (s : PieceState) (piece cs : List Char) :
    ∃ tail, (piecesFrom s piece cs).flatten ++ tail = piece.reverse ++ cs ∧
    isBlank tail = true := by
  induction cs generalizing s piece with
  | nil =>
    rw [piecesFrom]
    split
    · next hblank => exact ⟨piece.reverse, by simp, by simpa [isBlank] using hblank⟩
    · exact ⟨[], by simp, rfl⟩
  | cons c cs ih =>
    rw [piecesFrom]
    cases hstep : s.step c cs.head? with
    | mk s' ends =>
      cases ends with
      | false =>
        obtain ⟨tail, htail, hblank⟩ := ih s' (c :: piece)
        exact ⟨tail, by simpa using htail, hblank⟩
      | true =>
        obtain rfl : c = ';' := semicolon_of_ends (congrArg Prod.snd hstep)
        obtain ⟨tail, htail, hblank⟩ := ih s' []
        have hpiece : isBlank (';' :: piece) = false := rfl
        exact ⟨tail, by simpa [hpiece] using htail, hblank⟩

theorem splitSemicolonPieces_flatten (line : List Char) :
    ∃ tail, (splitSemicolonPieces line).flatten ++ tail = line ∧ isBlank tail = true := by
  exact piecesFrom_flatten {} [] line

theorem piecesFrom_not_blank {s : PieceState} {piece cs : List Char} {q : List Char}
    (hq : q ∈ piecesFrom s piece cs) : isBlank q = false := by
  have hreverse (l : List Char) : isBlank l.reverse = isBlank l := by simp [isBlank]
  induction cs generalizing s piece with
  | nil =>
    rw [piecesFrom] at hq
    split at hq
    · exact nomatch hq
    · next hblank =>
        rw [List.mem_singleton.mp hq, hreverse]
        simpa using hblank
  | cons c cs ih =>
    rw [piecesFrom] at hq
    dsimp only at hq
    split at hq
    · split at hq
      · exact ih hq
      · next hblank =>
          rcases List.mem_cons.mp hq with rfl | hq
          · rw [hreverse]
            simpa using hblank
          · exact ih hq
    · exact ih hq

theorem splitSemicolonPieces_eq_nil_iff (line : List Char) :
    splitSemicolonPieces line = [] ↔ isBlank line = true := by
  constructor
  · intro h
    obtain ⟨tail, htail, hblank⟩ := splitSemicolonPieces_flatten line
    rw [h, List.flatten_nil, List.nil_append] at htail
    exact htail ▸ hblank
  · intro hblank
    obtain ⟨tail, htail, -⟩ := splitSemicolonPieces_flatten line
    refine List.eq_nil_iff_forall_not_mem.mpr fun q hq => ?_
    have hall : isBlank q = true := by
      refine List.all_eq_true.mpr fun c hc => List.all_eq_true.mp hblank c ?_
      rw [← htail]
      exact List.mem_append_left _ (List.mem_flatten.mpr ⟨q, hq, hc⟩)
    rw [piecesFrom_not_blank hq] at hall
    exact nomatch hall

theorem strip_pieceMask (maskedLine : List Char) (cursor : Nat) :
    Text.strip (pieceMask maskedLine cursor) = [] ↔ isBlank maskedLine = true := by
  have hblank (l : List Char) : Text.strip l = [] ↔ isBlank l = true := by
    rw [Text.strip, stripBy_eq_nil_iff, isBlank, List.all_eq_true]
  rw [hblank, pieceMask]
  split
  · rfl
  next hne =>
  have hlength := List.length_pos_iff.mpr hne
  have hlt : min cursor ((splitSemicolonPieces maskedLine).length - 1) <
      (splitSemicolonPieces maskedLine).length := by omega
  rw [List.getElem?_eq_getElem hlt, Option.getD_some]
  rw [piecesFrom_not_blank (List.getElem_mem hlt : _ ∈ splitSemicolonPieces maskedLine)]
  constructor
  · intro h
    cases h
  · exact fun h => absurd ((splitSemicolonPieces_eq_nil_iff _).mpr h) hne

/-! ## Statements and their pieces -/

/-- A statement is the stripped join of its pieces, which stand in order inside its range. -/
structure Statement.WellPlaced (absoluteStart : Nat) (st : Statement) : Prop where
  text : st.text = Text.strip (joinPieces st.pieces)
  nonempty : st.pieces ≠ []
  ordered : st.pieces.Pairwise fun a b => a.stop ≤ b.offset
  inside : ∀ q ∈ st.pieces, st.startOffset ≤ absoluteStart + q.offset ∧
    absoluteStart + q.stop ≤ st.endOffset

/-- After the pieces `all` were met, up to the offset `o`. -/
structure Accounted (absoluteStart : Nat) (all : List Piece) (o : Nat) (s : ScanState) : Prop where
  kept : ∀ q ∈ all, q ∈ s.buffer ∨ (∃ st ∈ s.statements, q ∈ st.pieces) ∨ isTrivial q.text = true
  met : (∀ q ∈ s.buffer, q ∈ all) ∧ ∀ st ∈ s.statements, ∀ q ∈ st.pieces, q ∈ all
  ordered : s.buffer.Pairwise fun a b => a.stop ≤ b.offset
  inside : ∀ q ∈ s.buffer, s.startLocalOffset ≤ q.offset ∧ q.stop ≤ o
  start : s.buffer ≠ [] → s.startLocalOffset ≤ o
  placed : ∀ st ∈ s.statements, st.WellPlaced absoluteStart
  before : ∀ st ∈ s.statements,
    st.endOffset ≤ absoluteStart + if s.buffer = [] then o else s.startLocalOffset
  disjoint : s.statements.Pairwise fun a b => a.endOffset ≤ b.startOffset

namespace Accounted

variable {absoluteStart o : Nat} {all : List Piece} {s : ScanState}

theorem mono (h : Accounted absoluteStart all o s) {o' : Nat} (ho : o ≤ o') :
    Accounted absoluteStart all o' s := by
  refine { h with inside := fun q hq => ?_, start := fun hne => ?_, before := fun st hst => ?_ }
  · have := h.inside q hq
    omega
  · exact Nat.le_trans (h.start hne) ho
  · have := h.before st hst
    split at this
    · next hempty =>
        rw [if_pos hempty]
        omega
    · next hempty =>
        rw [if_neg hempty]
        exact this

theorem advance (h : Accounted absoluteStart all o s) (n : Nat) :
    Accounted absoluteStart all o (s.advance n) := ⟨h.kept, h.met, h.ordered, h.inside, h.start,
      h.placed, h.before, h.disjoint⟩

theorem append (h : Accounted absoluteStart all s.localOffset s) (index : Nat) (piece : List Char) :
    Accounted absoluteStart (all ++ [⟨s.localOffset, piece⟩]) (s.localOffset + piece.length)
      (s.append index piece) := by
  have hstart : (s.append index piece).startLocalOffset ≤ s.localOffset := by
    show (if s.buffer.isEmpty then s.localOffset else s.startLocalOffset) ≤ s.localOffset
    split
    · exact Nat.le_refl _
    · next hempty => exact h.start (by simpa using hempty)
  constructor
  · intro q hq
    rcases List.mem_append.mp hq with hq | hq
    · rcases h.kept q hq with hq | hq
      · exact .inl (List.mem_append_left _ hq)
      · exact .inr hq
    · exact .inl (List.mem_append_right _ hq)
  · refine ⟨fun q hq => ?_, fun st hst q hq => List.mem_append_left _ (h.met.2 st hst q hq)⟩
    rcases List.mem_append.mp hq with hq | hq
    · exact List.mem_append_left _ (h.met.1 q hq)
    · exact List.mem_append_right _ hq
  · refine List.pairwise_append.mpr ⟨h.ordered, List.pairwise_singleton _ _, fun a ha b hb => ?_⟩
    rw [List.mem_singleton.mp hb]
    exact (h.inside a ha).2
  · intro q hq
    rcases List.mem_append.mp hq with hq | hq
    · have hne : s.buffer.isEmpty = false := by
        simpa using List.ne_nil_of_mem hq
      have hinside := h.inside q hq
      refine ⟨?_, by omega⟩
      show (if s.buffer.isEmpty then s.localOffset else s.startLocalOffset) ≤ q.offset
      rw [hne]
      exact hinside.1
    · rw [List.mem_singleton.mp hq]
      exact ⟨hstart, Nat.le_refl _⟩
  · exact fun _ => Nat.le_trans hstart (Nat.le_add_right _ _)
  · exact h.placed
  · intro st hst
    have hbefore := h.before st hst
    have hne : (s.append index piece).buffer ≠ [] :=
      List.append_ne_nil_of_right_ne_nil _ (List.cons_ne_nil _ _)
    rw [if_neg hne]
    show st.endOffset ≤ absoluteStart +
      if s.buffer.isEmpty then s.localOffset else s.startLocalOffset
    simpa using hbefore
  · exact h.disjoint

/-- Flushing keeps the account. -/
theorem flush (h : Accounted absoluteStart all o s) (endLine : Nat) :
    Accounted absoluteStart all o (s.flush absoluteStart endLine o) := by
  have hold (st : Statement) (hst : st ∈ s.statements) : st.endOffset ≤ absoluteStart + o := by
    have hbefore := h.before st hst
    split at hbefore
    · exact hbefore
    · next hne =>
        have := h.start hne
        omega
  have hbuffer : (s.flush absoluteStart endLine o).buffer = [] := rfl
  have hnone (q : Piece) : q ∉ (s.flush absoluteStart endLine o).buffer := by simp [hbuffer]
  by_cases htext : hasText (Text.strip (joinPieces s.buffer)) = true
  · have hne : s.buffer ≠ [] := by
      intro hempty
      rw [hempty] at htext
      exact nomatch htext
    generalize hnew : (⟨Text.strip (joinPieces s.buffer), s.startLine, endLine,
      absoluteStart + s.startLocalOffset, absoluteStart + o, s.buffer⟩ : Statement) = new
    have hstatements : (s.flush absoluteStart endLine o).statements = s.statements ++ [new] := by
      rw [← hnew]
      exact if_pos htext
    have hplaced : new.WellPlaced absoluteStart := by
      rw [← hnew]
      refine ⟨rfl, hne, h.ordered, fun q hq => ?_⟩
      have := h.inside q hq
      dsimp only
      omega
    constructor
    · intro q hq
      refine .inr ?_
      rcases h.kept q hq with hq | ⟨st, hst, hq⟩ | htrivial
      · exact .inl ⟨new, by simp [hstatements], by rw [← hnew]; exact hq⟩
      · exact .inl ⟨st, by simp [hstatements, hst], hq⟩
      · exact .inr htrivial
    · refine ⟨fun q hq => absurd hq (hnone q), fun st hst q hq => ?_⟩
      rw [hstatements] at hst
      rcases List.mem_append.mp hst with hst | hst
      · exact h.met.2 st hst q hq
      · rw [List.mem_singleton.mp hst, ← hnew] at hq
        exact h.met.1 q hq
    · rw [hbuffer]
      exact .nil
    · exact fun q hq => absurd hq (hnone q)
    · exact fun hne => absurd hbuffer hne
    · intro st hst
      rw [hstatements] at hst
      rcases List.mem_append.mp hst with hst | hst
      · exact h.placed st hst
      · exact List.mem_singleton.mp hst ▸ hplaced
    · intro st hst
      rw [if_pos hbuffer]
      rw [hstatements] at hst
      rcases List.mem_append.mp hst with hst | hst
      · exact hold st hst
      · rw [List.mem_singleton.mp hst, ← hnew]
    · rw [hstatements]
      refine List.pairwise_append.mpr ⟨h.disjoint, List.pairwise_singleton _ _, fun a ha b hb => ?_⟩
      have hbefore := h.before a ha
      rw [if_neg hne] at hbefore
      rw [List.mem_singleton.mp hb, ← hnew]
      exact hbefore
  · rw [Bool.not_eq_true] at htext
    have hstatements : (s.flush absoluteStart endLine o).statements = s.statements := by
      show (if hasText (Text.strip (joinPieces s.buffer)) then _ else s.statements) = _
      rw [htext]
      rfl
    constructor
    · intro q hq
      refine .inr ?_
      rw [hstatements]
      rcases h.kept q hq with hq | hq
      · -- The whole buffer is white space and semicolons.
        have hjoin := List.all_eq_true.mp (trivial_of_no_text htext)
        exact .inr (List.all_eq_true.mpr fun c hc => hjoin c (List.mem_flatMap.mpr ⟨q, hq, hc⟩))
      · exact hq
    · refine ⟨fun q hq => absurd hq (hnone q), ?_⟩
      rw [hstatements]
      exact h.met.2
    · rw [hbuffer]
      exact .nil
    · exact fun q hq => absurd hq (hnone q)
    · exact fun hne => absurd hbuffer hne
    · rw [hstatements]
      exact h.placed
    · intro st hst
      rw [if_pos hbuffer]
      rw [hstatements] at hst
      exact hold st hst
    · rw [hstatements]
      exact h.disjoint

end Accounted

/-! ## Runs -/

/-- The pieces of a line that are put into the buffer. -/
def keptOfLine (o : Nat) (rawLine maskedLine : List Char) : List Piece :=
  if isDirective maskedLine ||
    isBlank maskedLine then [] else placed o (splitSemicolonPieces rawLine)

/-- The pieces that are put into the buffer. -/
def keptPieces : Nat → List (List Char × List Char) → List Piece
  | _, [] => []
  | o, line :: lines => keptOfLine o line.1 line.2 ++ keptPieces (o + line.1.length) lines

namespace ScanState

variable {absoluteStart : Nat} {all : List Piece} {s : ScanState}

/-- The state accounts for the pieces, up to where it stands. -/
def Accounts (absoluteStart : Nat) (all : List Piece) (s : ScanState) : Prop :=
  Accounted absoluteStart all s.localOffset s

theorem flush_statements (endLine o : Nat) (s : ScanState) :
    (s.flush absoluteStart endLine o).statements =
      if hasText (Text.strip (joinPieces s.buffer)) then
        s.statements ++ [⟨Text.strip (joinPieces s.buffer), s.startLine, endLine,
          absoluteStart + s.startLocalOffset, absoluteStart + o, s.buffer⟩]
      else s.statements := by
  unfold flush
  rfl

theorem flush_startLine (endLine o : Nat) (s : ScanState) :
    (s.flush absoluteStart endLine o).startLine = s.startLine := by
  unfold flush
  rfl

theorem flush_startLocalOffset (endLine o : Nat) (s : ScanState) :
    (s.flush absoluteStart endLine o).startLocalOffset = s.startLocalOffset := by
  unfold flush
  rfl

theorem flush_localOffset (endLine o : Nat) (s : ScanState) :
    (s.flush absoluteStart endLine o).localOffset = s.localOffset := by
  unfold flush
  rfl

theorem advance_localOffset (n : Nat) (s : ScanState) :
    (s.advance n).localOffset = s.localOffset + n := by
  unfold advance
  rfl

theorem accounts_advance (h : s.Accounts absoluteStart all) (n : Nat) :
    (s.advance n).Accounts absoluteStart all :=
  (h.mono (Nat.le_add_right _ n)).advance n

theorem accounts_flush (h : s.Accounts absoluteStart all) (endLine : Nat) :
    (s.flush absoluteStart endLine s.localOffset).Accounts absoluteStart all := by
  unfold Accounts
  rw [flush_localOffset]
  exact h.flush endLine

theorem onPiece_accounts (h : s.Accounts absoluteStart all) (index : Nat)
    (piece pieceMask : List Char) :
    (s.onPiece absoluteStart index piece pieceMask).localOffset = s.localOffset + piece.length ∧
      (s.onPiece absoluteStart index piece pieceMask).Accounts absoluteStart
        (all ++ if Text.strip pieceMask = [] then [] else [⟨s.localOffset, piece⟩]) := by
  unfold onPiece
  dsimp only
  by_cases hclean : Text.strip pieceMask = []
  · rw [if_pos hclean, if_pos hclean, List.append_nil]
    exact ⟨advance_localOffset _ _, accounts_advance h _⟩
  rw [if_neg hclean, if_neg hclean]
  -- The flush before the piece, the piece, and the flush after it.
  generalize hbefore : (if s.endsBefore (Text.strip pieceMask) then
    s.flush absoluteStart (if s.startLine < index then index - 1 else index) s.localOffset
      else s) = s₁
  have h₁ : s₁.localOffset = s.localOffset ∧ s₁.Accounts absoluteStart all := by
    rw [← hbefore]
    split
    · exact ⟨flush_localOffset _ _ _, accounts_flush h _⟩
    · exact ⟨rfl, h⟩
  have h₂ := h₁.2.append index piece
  have hoffset : (s₁.append index piece).localOffset = s.localOffset := h₁.1
  rw [h₁.1] at h₂
  generalize s₁.append index piece = s₂ at h₂ hoffset
  rw [← hoffset] at h₂ ⊢
  split
  · unfold Accounts
    rw [advance_localOffset, flush_localOffset]
    exact ⟨rfl, (h₂.flush index).advance _⟩
  · unfold Accounts
    rw [advance_localOffset]
    exact ⟨rfl, h₂.advance _⟩

theorem onPieces_accounts (h : s.Accounts absoluteStart all) (index : Nat) (maskedLine : List Char)
    (cursor : Nat) (pieces : List (List Char)) :
    (s.onPieces absoluteStart index maskedLine cursor pieces).localOffset =
        s.localOffset + pieces.flatten.length ∧
      (s.onPieces absoluteStart index maskedLine cursor pieces).Accounts absoluteStart
        (all ++ if isBlank maskedLine then [] else placed s.localOffset pieces) := by
  induction pieces generalizing s all cursor with
  | nil =>
    simp only [onPieces, List.flatten_nil, List.length_nil, placed, ite_self, List.append_nil]
    exact ⟨rfl, h⟩
  | cons piece pieces ih =>
    obtain ⟨hoffset, hpiece⟩ := onPiece_accounts h index piece (pieceMask maskedLine cursor)
    obtain ⟨hoffset', hpieces⟩ := ih hpiece (cursor + 1)
    rw [onPieces]
    refine ⟨?_, ?_⟩
    · rw [hoffset', hoffset, List.flatten_cons, List.length_append, Nat.add_assoc]
    · by_cases hblank : isBlank maskedLine = true
      · rw [if_pos hblank, List.append_nil]
        rwa [if_pos hblank, if_pos ((strip_pieceMask maskedLine cursor).mpr hblank),
          List.append_nil, List.append_nil] at hpieces
      · rw [if_neg hblank]
        rwa [if_neg hblank, if_neg fun h => hblank ((strip_pieceMask maskedLine cursor).mp h),
          hoffset, List.append_assoc] at hpieces

theorem onLine_accounts (h : s.Accounts absoluteStart all) (index : Nat)
    (rawLine maskedLine : List Char) :
    (s.onLine absoluteStart index rawLine maskedLine).localOffset = s.localOffset + rawLine.length ∧
      (s.onLine absoluteStart index rawLine maskedLine).Accounts absoluteStart
        (all ++ keptOfLine s.localOffset rawLine maskedLine) := by
  unfold onLine keptOfLine
  cases hdirective : isDirective maskedLine with
  | true =>
    rw [if_pos rfl, Bool.true_or, if_pos rfl, List.append_nil]
    exact ⟨rfl, accounts_advance h _⟩
  | false =>
    obtain ⟨tail, htail, -⟩ := splitSemicolonPieces_flatten rawLine
    obtain ⟨hoffset, hpieces⟩ :=
      onPieces_accounts h index maskedLine 0 (splitSemicolonPieces rawLine)
    have hlength := congrArg List.length htail
    rw [List.length_append, List.length_flatten] at hlength
    rw [if_neg Bool.false_ne_true, Bool.false_or]
    refine ⟨?_, accounts_advance hpieces _⟩
    show _ + _ = _
    rw [hoffset, List.length_flatten]
    omega

theorem onLines_accounts (h : s.Accounts absoluteStart all) (index : Nat)
    (lines : List (List Char × List Char)) :
    (s.onLines absoluteStart index lines).localOffset =
        s.localOffset + (lines.map Prod.fst).flatten.length ∧
      (s.onLines absoluteStart index lines).Accounts absoluteStart
        (all ++ keptPieces s.localOffset lines) := by
  induction lines generalizing s all index with
  | nil => exact ⟨rfl, by rw [keptPieces, List.append_nil]; exact h⟩
  | cons line lines ih =>
    obtain ⟨hoffset, hline⟩ := onLine_accounts h index line.1 line.2
    obtain ⟨hoffset', hlines⟩ := ih hline (index + 1)
    rw [onLines]
    refine ⟨?_, ?_⟩
    · rw [hoffset', hoffset, List.map_cons, List.flatten_cons, List.length_append, Nat.add_assoc]
    · rw [keptPieces]
      rwa [hoffset, List.append_assoc] at hlines

end ScanState

/-! ## Lines and their masks -/

/-- A piece is kept just when it is one of a line whose number gives a mask that is neither blank
nor a directive. -/
theorem mem_keptPieces {lines masks : List (List Char)} {o : Nat} {q : Piece} :
    q ∈ keptPieces o (lines.zip masks) ↔
      ∃ (i : Nat) (line : Piece) (mask : List Char), (placed o lines)[i]? = some line ∧
      masks[i]? = some mask ∧
        isBlank mask = false ∧ isDirective mask = false ∧
        q ∈ placed line.offset (splitSemicolonPieces line.text) := by
  induction lines generalizing masks o with
  | nil => simp [keptPieces, placed]
  | cons text lines ih =>
    cases masks with
    | nil => simp [keptPieces]
    | cons mask masks =>
      rw [List.zip_cons_cons, keptPieces, List.mem_append, ih]
      constructor
      · rintro (hq | ⟨i, line, m, hline, hm, hrest⟩)
        · rw [keptOfLine] at hq
          split at hq
          · exact nomatch hq
          · next hmask =>
              simp only [Bool.or_eq_true, not_or, Bool.not_eq_true] at hmask
              exact ⟨0, _, mask, rfl, rfl, hmask.2, hmask.1, hq⟩
        · exact ⟨i + 1, line, m, hline, hm, hrest⟩
      · rintro ⟨i, line, m, hline, hm, hblank, hdirective, hq⟩
        cases i with
        | zero =>
          obtain rfl := Option.some.inj hline
          obtain rfl := Option.some.inj hm
          exact .inl (by simpa [keptOfLine, hblank, hdirective] using hq)
        | succ i => exact .inr ⟨i, line, m, hline, hm, hblank, hdirective, hq⟩

theorem splitlinesFrom_flatten (line text : List Char) :
    (splitlinesFrom line text).flatten = line.reverse ++ text := by
  induction text generalizing line with
  | nil =>
    rw [splitlinesFrom]
    split
    · next hline => simp [hline]
    · simp
  | cons c cs ih =>
    rw [splitlinesFrom]
    split
    · simp [ih]
    · simp [ih]

theorem splitlines_flatten (text : List Char) : (splitlines text).flatten = text :=
  splitlinesFrom_flatten [] text

/-- A character is kept or blanked. -/
theorem maskFrom_cons (mode : MaskMode) (c : Char) (cs : List Char) :
    ∃ d mode', maskFrom mode (c :: cs) = d :: maskFrom mode' cs ∧ (d = c ∨ d = ' ') := by
  have hkeep (mode' : MaskMode) : ∃ d mode'', c :: maskFrom mode' cs = d :: maskFrom mode'' cs ∧
      (d = c ∨ d = ' ') := ⟨c, mode', rfl, .inl rfl⟩
  have hblank (mode' : MaskMode) : ∃ d mode'', ' ' :: maskFrom mode' cs = d :: maskFrom mode'' cs ∧
      (d = c ∨ d = ' ') := ⟨' ', mode', rfl, .inr rfl⟩
  cases mode with
  | plain =>
    rw [maskFrom]
    split
    · exact hkeep _
    split
    · exact hblank _
    split
    · exact hblank _
    split
    · exact hkeep _
    · exact hkeep _
  | quote quote =>
    rw [maskFrom]
    split
    · split
      · exact hkeep _
      · exact hkeep _
    · exact hkeep _
  | dollar tag =>
    rw [maskFrom]
    split
    · exact hkeep _
    · exact hkeep _
  | copy n next =>
    cases n with
    | zero =>
      rw [maskFrom]
      exact hkeep _
    | succ n =>
      rw [maskFrom]
      exact hkeep _
  | line =>
    rw [maskFrom]
    split
    · exact hkeep _
    · exact hblank _
  | block =>
    rw [maskFrom]
    split
    · next hlast =>
        subst hlast
        exact ⟨c, .plain, by rw [maskFrom], .inl rfl⟩
    split
    · exact hblank _
    · rw [blanked]
      split
      · exact hkeep _
      · exact hblank _
  | blockEnd =>
    rw [maskFrom]
    exact hblank _

theorem maskFrom_length (mode : MaskMode) (text : List Char) :
    (maskFrom mode text).length = text.length := by
  induction text generalizing mode with
  | nil => simp [maskFrom]
  | cons c cs ih =>
    obtain ⟨d, mode', h, -⟩ := maskFrom_cons mode c cs
    rw [h, List.length_cons, ih, List.length_cons]

theorem maskFrom_char {mode : MaskMode} {text : List Char} {i : Nat} {c : Char}
    (h : (maskFrom mode text)[i]? = some c) : text[i]? = some c ∨ c = ' ' := by
  induction text generalizing mode i with
  | nil => simp [maskFrom] at h
  | cons d cs ih =>
    obtain ⟨d', mode', hmask, hd⟩ := maskFrom_cons mode d cs
    rw [hmask] at h
    cases i with
    | zero =>
      obtain rfl := Option.some.inj h
      rcases hd with rfl | rfl
      · exact .inl rfl
      · exact .inr rfl
    | succ i => exact ih h

/-! ## What is covered -/

/-- The lines of the body at their offsets. -/
def bodyLines (body : List Char) : List Piece := placed 0 (splitlines body)

/-- What is left of a line without the comments. -/
def ownMask (body : List Char) (line : Piece) : List Char :=
  ((maskComments body).drop line.offset).take line.text.length

/-- The character is neither white space nor a semicolon, in no comment and not on a directive
line. -/
def Material (body : List Char) (line : Piece) (p : Nat) : Prop :=
  line.offset ≤ p ∧ p < line.stop ∧ isDirective (ownMask body line) = false ∧
    ∃ c, (maskComments body)[p]? = some c ∧ Text.isSpace c = false ∧ c ≠ ';'

/-- The statements have disjoint ranges, one after the other, and the text of each is the stripped
join of slices of the body in its range. -/
def Arranged (body : List Char) (absoluteStart : Nat) : Prop :=
  (logicalStatements body absoluteStart).Pairwise (fun a b => a.endOffset ≤ b.startOffset) ∧
    ∀ st ∈ logicalStatements body absoluteStart, st.WellPlaced absoluteStart ∧
      ∀ q ∈ st.pieces, (body.drop q.offset).take q.text.length = q.text

/-- The position is in the range of the statement. -/
def Statement.Contains (absoluteStart : Nat) (st : Statement) (p : Nat) : Prop :=
  st.startOffset ≤ absoluteStart + p ∧ absoluteStart + p < st.endOffset

/-- Every such character is in the range of exactly one statement, and in one of its pieces. -/
def Covered (body : List Char) (absoluteStart : Nat) : Prop :=
  ∀ line ∈ bodyLines body, ∀ p, Material body line p →
    ∃ st ∈ logicalStatements body absoluteStart, st.Contains absoluteStart p ∧
      (∃ q ∈ st.pieces, q.offset ≤ p ∧ p < q.stop) ∧
      ∀ st' ∈ logicalStatements body absoluteStart, st'.Contains absoluteStart p → st' = st

/-- A line with such a character has a masked line of its number, which is no directive and not
blank. -/
def Aligned (body : List Char) : Prop :=
  ∀ (i : Nat) (line : Piece) (p : Nat), (bodyLines body)[i]? = some line → Material body line p →
    ∃ mask, (splitlines (maskComments body))[i]? = some mask ∧ isBlank mask = false ∧
      isDirective mask = false

/-- The pieces that are kept of a body. -/
def keptOfBody (body : List Char) : List Piece :=
  keptPieces 0 ((splitlines body).zip (splitlines (maskComments body)))

section Body

variable {body : List Char} {absoluteStart : Nat}

theorem flatten_zip_le (lines masks : List (List Char)) :
    ((lines.zip masks).map Prod.fst).flatten.length ≤ lines.flatten.length := by
  induction lines generalizing masks with
  | nil => simp
  | cons line lines ih =>
    cases masks with
    | nil => simp
    | cons mask masks =>
      have := ih masks
      simp only [List.zip_cons_cons, List.map_cons, List.flatten_cons, List.length_append]
      omega

theorem accounts_start (absoluteStart : Nat) : ScanState.Accounts absoluteStart [] {} := by
  constructor
  · simp
  · simp
  · exact .nil
  · simp
  · simp
  · simp
  · simp
  · exact .nil

theorem exists_accounted (body : List Char) (absoluteStart : Nat) :
    ∃ s o, Accounted absoluteStart (keptOfBody body) o s ∧ s.buffer = [] ∧
      s.statements = logicalStatements body absoluteStart := by
  obtain ⟨hoffset, hlines⟩ := ScanState.onLines_accounts (accounts_start absoluteStart) 1
    ((splitlines body).zip (splitlines (maskComments body)))
  rw [List.nil_append] at hlines
  have hle := flatten_zip_le (splitlines body) (splitlines (maskComments body))
  rw [splitlines_flatten] at hle
  unfold logicalStatements
  dsimp only
  generalize ScanState.onLines absoluteStart 1 _ {} = s at hoffset hlines
  by_cases hbuffer : s.buffer = []
  · rw [if_pos hbuffer]
    exact ⟨s, _, hlines, hbuffer, rfl⟩
  · rw [if_neg hbuffer]
    have hbody : s.localOffset ≤ body.length := by
      rw [hoffset]
      show 0 + _ ≤ _
      omega
    exact ⟨_, _, (hlines.mono hbody).flush _, rfl, rfl⟩

theorem bodyLines_slice {line : Piece} (h : line ∈ bodyLines body) :
    (body.drop line.offset).take line.text.length = line.text := by
  have := @placed_slice (splitlines body) line [] [] h
  rwa [splitlines_flatten, List.append_nil] at this

theorem linePieces_slice {line q : Piece} (hline : line ∈ bodyLines body)
    (hq : q ∈ placed line.offset (splitSemicolonPieces line.text)) :
    (body.drop q.offset).take q.text.length = q.text := by
  obtain ⟨tail, htail, -⟩ := splitSemicolonPieces_flatten line.text
  have hrest : body.drop line.offset = line.text ++
    (body.drop line.offset).drop line.text.length := by
    conv_lhs => rw [← List.take_append_drop line.text.length (body.drop line.offset),
      bodyLines_slice hline]
  generalize (body.drop line.offset).drop line.text.length = rest at hrest
  rw [← htail, List.append_assoc] at hrest
  have hsplit : body = body.take line.offset ++ (splitSemicolonPieces line.text).flatten ++
      (tail ++ rest) := by
    conv_lhs => rw [← List.take_append_drop line.offset body, hrest, ← List.append_assoc]
  have hoffset : (body.take line.offset).length = line.offset := by
    have := (placed_bounds hline).2
    rw [splitlines_flatten, Piece.stop] at this
    rw [List.length_take]
    omega
  rw [← hoffset] at hq
  rw [hsplit]
  exact placed_slice hq

theorem keptOfBody_spec {q : Piece} (h : q ∈ keptOfBody body) :
    (body.drop q.offset).take q.text.length = q.text ∧
      ∃ (i : Nat) (line : Piece) (mask : List Char), (bodyLines body)[i]? = some line ∧
        (splitlines (maskComments body))[i]? = some mask ∧ isBlank mask = false ∧
        isDirective mask = false ∧ line.offset ≤ q.offset ∧ q.stop ≤ line.stop := by
  obtain ⟨i, line, mask, hline, hmask, hblank, hdirective, hq⟩ := mem_keptPieces.mp h
  obtain ⟨tail, htail, -⟩ := splitSemicolonPieces_flatten line.text
  have hlength := congrArg List.length htail
  rw [List.length_append] at hlength
  have hbounds := placed_bounds hq
  refine ⟨?_, i, line, mask, hline, hmask, hblank, hdirective, hbounds.1, ?_⟩
  · exact linePieces_slice (List.mem_of_getElem? hline) hq
  · rw [Piece.stop.eq_def line]
    omega

theorem arranged (body : List Char) (absoluteStart : Nat) : Arranged body absoluteStart := by
  obtain ⟨s, o, hs, -, hstatements⟩ := exists_accounted body absoluteStart
  refine ⟨hstatements ▸ hs.disjoint, fun st hst => ?_⟩
  rw [← hstatements] at hst
  exact ⟨hs.placed st hst, fun q hq => (keptOfBody_spec (hs.met.2 st hst q hq)).1⟩

theorem eq_of_contains {p : Nat} {st st' : Statement}
    (hst : st ∈ logicalStatements body absoluteStart)
    (hst' : st' ∈ logicalStatements body absoluteStart) (h : st.Contains absoluteStart p)
    (h' : st'.Contains absoluteStart p) : st' = st := by
  have hdisjoint := (arranged body absoluteStart).1
  obtain ⟨i, hi, rfl⟩ := List.mem_iff_getElem.mp hst
  obtain ⟨j, hj, rfl⟩ := List.mem_iff_getElem.mp hst'
  rcases Nat.lt_trichotomy i j with hij | rfl | hij
  · have := List.pairwise_iff_getElem.mp hdisjoint i j hi hj hij
    have := h.2
    have := h'.1
    omega
  · rfl
  · have := List.pairwise_iff_getElem.mp hdisjoint j i hj hi hij
    have := h.1
    have := h'.2
    omega

/-- Material lies in some piece of its line. -/
theorem exists_piece_of_material {line : Piece} {p : Nat} (hline : line ∈ bodyLines body)
    (h : Material body line p) : ∃ q ∈ placed line.offset (splitSemicolonPieces line.text),
      q.offset ≤ p ∧ p < q.stop ∧ isTrivial q.text = false := by
  obtain ⟨hlow, hhigh, -, c, hc, hspace, hsemicolon⟩ := h
  have hbody : body[p]? = some c := by
    rcases maskFrom_char hc with hbody | rfl
    · exact hbody
    · exact absurd hspace (by decide)
  have htext : line.text[p - line.offset]? = some c := by
    rw [← bodyLines_slice hline, List.getElem?_take_of_lt (by rw [Piece.stop] at hhigh; omega),
      List.getElem?_drop]
    have : line.offset + (p - line.offset) = p := by omega
    rw [this]
    exact hbody
  obtain ⟨tail, htail, hblank⟩ := splitSemicolonPieces_flatten line.text
  have hfront : p - line.offset < (splitSemicolonPieces line.text).flatten.length := by
    by_contra hback
    rw [← htail, List.getElem?_append_right (by omega)] at htext
    have := List.all_eq_true.mp hblank c (List.mem_of_getElem? htext)
    rw [hspace] at this
    exact nomatch this
  have hplace : ∃ q ∈ placed line.offset (splitSemicolonPieces line.text), q.offset ≤ p ∧
    p < q.stop :=
    exists_placed hlow (by omega)
  obtain ⟨q, hq, hqlow, hqhigh⟩ := hplace
  refine ⟨q, hq, hqlow, hqhigh, ?_⟩
  -- The character itself keeps the piece from being trivial.
  have hmem : q.text[p - q.offset]? = some c := by
    rw [Piece.stop] at hqhigh
    rw [← linePieces_slice hline hq, List.getElem?_take_of_lt (by omega), List.getElem?_drop]
    have : q.offset + (p - q.offset) = p := by omega
    rw [this]
    exact hbody
  by_contra htrivial
  rw [Bool.not_eq_false] at htrivial
  have := List.all_eq_true.mp htrivial c (List.mem_of_getElem? hmem)
  rw [hspace, Bool.false_or, decide_eq_true_eq] at this
  exact hsemicolon this

/-- The scanner covers a body just when its lines and their masks are aligned. -/
theorem scanner_covers_iff (body : List Char) (absoluteStart : Nat) :
    Arranged body absoluteStart ∧ Covered body absoluteStart ↔ Aligned body := by
  obtain ⟨s, o, hs, hbuffer, hstatements⟩ := exists_accounted body absoluteStart
  constructor
  · rintro ⟨-, hcovered⟩ i line p hline hmaterial
    obtain ⟨st, hst, -, ⟨q, hq, hqlow, hqhigh⟩, -⟩ :=
      hcovered line (List.mem_of_getElem? hline) p hmaterial
    rw [← hstatements] at hst
    obtain ⟨-, j, line', mask, hline', hmask, hblank, hdirective, hlow, hhigh⟩ :=
      keptOfBody_spec (hs.met.2 st hst q hq)
    -- The piece is in the line of the position.
    have hij : j = i := by
      refine eq_of_between placed_ordered hline' hline ⟨?_, ?_⟩ ⟨hmaterial.1, hmaterial.2.1⟩
      · omega
      · omega
    exact ⟨mask, hij ▸ hmask, hblank, hdirective⟩
  · intro haligned
    refine ⟨arranged body absoluteStart, fun line hline p hmaterial => ?_⟩
    obtain ⟨i, hline⟩ := List.mem_iff_getElem?.mp hline
    obtain ⟨mask, hmask, hblank, hdirective⟩ := haligned i line p hline hmaterial
    obtain ⟨q, hq, hlow, hhigh, htrivial⟩ :=
      exists_piece_of_material (List.mem_of_getElem? hline) hmaterial
    have hkept : q ∈ keptOfBody body :=
      mem_keptPieces.mpr ⟨i, line, mask, hline, hmask, hblank, hdirective, hq⟩
    rcases hs.kept q hkept with hq | ⟨st, hst, hq⟩ | h
    · rw [hbuffer] at hq
      exact nomatch hq
    · have hst' := hstatements ▸ hst
      have hinside := (hs.placed st hst).inside q hq
      have hcontains : st.Contains absoluteStart p := ⟨by omega, by omega⟩
      exact ⟨st, hst', hcontains, ⟨q, hq, hlow, hhigh⟩,
        fun st'' hst'' h => eq_of_contains hst' hst'' hcontains h⟩
    · rw [htrivial] at h
      exact nomatch h

/-- A comment with a form feed, and a statement on the next line. -/
def formFeedBody : List Char := "-- a\x0cb\nSET A = 1;".toList

/-- The form feed ends a line of the body but none of its mask, and the last line is lost. -/
theorem form_feed_loses_a_statement : ¬(Arranged formFeedBody 0 ∧ Covered formFeedBody 0) := by
  rintro ⟨-, hcovered⟩
  have hline : (⟨7, "SET A = 1;".toList⟩ : Piece) ∈ bodyLines formFeedBody := by decide +kernel
  have hmaterial : Material formFeedBody ⟨7, "SET A = 1;".toList⟩ 7 :=
    ⟨by decide, by decide, by decide +kernel, 'S', by decide +kernel, by decide, by decide⟩
  obtain ⟨st, hst, -, ⟨q, hq, -, hhigh⟩, -⟩ := hcovered _ hline 7 hmaterial
  have hlost : ∀ st ∈ logicalStatements formFeedBody 0, ∀ q ∈ st.pieces, q.stop ≤ 7 := by
    decide +kernel
  have := hlost st hst q hq
  omega

end Body

end AtlasDb.Dialects
