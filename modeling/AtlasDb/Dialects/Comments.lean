import AtlasDb.Dialects.Coverage
import Mathlib.Data.List.Forall2

/-!
# Comments and the statements found

The scan of a body beside the scan of its mask, in which every comment is overwritten by blanks. The
scanner cuts a line into pieces with its comments in it, and compares what it has gathered with the
comments in it, but looks for keywords in the mask. Where the comments change no cut and no
decision, the two scans find the same statements.
-/

namespace AtlasDb.Dialects

open Core

/-! ## Masking a mask -/

/-- The tag of a dollar quote. -/
theorem dollarTag_eq_some {text tag : List Char} :
    dollarTag text = some tag ↔ ∃ name rest, text = '$' :: (name ++ '$' :: rest) ∧
      (∀ c ∈ name, (c.isAlphanum || c = '_') = true) ∧ tag = '$' :: (name ++ ['$']) := by
  constructor
  · intro h
    unfold dollarTag at h
    split at h
    · next cs =>
        dsimp only at h
        split at h
        · next hclose =>
            obtain rfl := Option.some.inj h
            generalize hname : (cs.takeWhile fun c => c.isAlphanum || decide (c = '_')) = name at *
            obtain ⟨rest, hrest⟩ : ∃ rest, cs.drop name.length = '$' :: rest := by
              cases hdrop : cs.drop name.length with
              | nil => rw [hdrop] at hclose; exact nomatch hclose
              | cons d rest =>
                rw [hdrop] at hclose
                exact ⟨rest, by rw [Option.some.inj hclose]⟩
            have htake : cs.take name.length = name := by
              rw [← hname]
              exact List.prefix_iff_eq_take.mp ( List.takeWhile_prefix _) |>.symm
            refine ⟨name, rest, ?_, fun c hc => ?_, rfl⟩
            · rw [← hrest]
              conv_rhs => rw [← htake]
              rw [List.length_take, Nat.min_eq_left, List.take_append_drop]
              rw [← hname]
              exact ( List.takeWhile_prefix _).length_le
            · rw [← hname] at hc
              exact List.mem_takeWhile_imp (p := fun c => c.isAlphanum || decide (c = '_')) hc
        · exact nomatch h
    · exact nomatch h
  · rintro ⟨name, rest, rfl, hname, rfl⟩
    have htake : (name ++ '$' :: rest).takeWhile (fun c => c.isAlphanum ||
      decide (c = '_')) = name := by
      rw [List.takeWhile_append_of_pos hname, List.takeWhile_cons_of_neg (by decide),
        List.append_nil]
    simp only [dollarTag]
    rw [htake, List.drop_left]
    rfl

/-- The mode that goes on reading a mask where this one goes on reading the text. -/
def MaskMode.settled : MaskMode → MaskMode
  | .copy n next => .copy n next.settled
  | .line | .block | .blockEnd => .plain
  | mode => mode

/-- What the mode waits for has no blank in it. -/
def MaskMode.Proper : MaskMode → Prop
  | .quote q => q ≠ ' '
  | .dollar tag => ' ' ∉ tag ∧ 2 ≤ tag.length
  | .copy _ next => next.Proper
  | _ => True

theorem maskFrom_copy (n : Nat) (next : MaskMode) (copied rest : List Char)
    (h : copied.length = n + 1) :
    maskFrom (.copy n next) (copied ++ rest) = copied ++ maskFrom next rest := by
  induction n generalizing copied with
  | zero =>
    obtain ⟨c, rfl⟩ := List.length_eq_one_iff.mp h
    rfl
  | succ n ih =>
    cases copied with
    | nil => exact nomatch h
    | cons c copied =>
      rw [List.cons_append, maskFrom, ih copied (Nat.succ.inj h), List.cons_append]

theorem prefix_of_maskFrom {mode : MaskMode} {text start rest : List Char}
    (h : maskFrom mode text = start ++ rest) (hblank : ' ' ∉ start) :
    ∃ rest', text = start ++ rest' := by
  induction start generalizing mode text with
  | nil => exact ⟨text, rfl⟩
  | cons d start ih =>
    cases text with
    | nil => exact nomatch h
    | cons c cs =>
      obtain ⟨d', mode', hmask, hd⟩ := maskFrom_cons mode c cs
      rw [hmask, List.cons_append, List.cons.injEq] at h
      obtain ⟨rfl, h⟩ := h
      rw [List.mem_cons, not_or] at hblank
      obtain ⟨rest', rfl⟩ := ih h hblank.2
      rcases hd with rfl | rfl
      · exact ⟨rest', rfl⟩
      · exact absurd rfl hblank.1

theorem head_of_maskFrom {mode : MaskMode} {text : List Char} {c : Char}
    (h : (maskFrom mode text).head? = some c) (hc : c ≠ ' ') : text.head? = some c := by
  obtain ⟨rest, hrest⟩ := List.head?_eq_some_iff.mp h
  have hstart : ∃ rest', text = [c] ++ rest' := prefix_of_maskFrom hrest (by simpa using hc.symm)
  obtain ⟨rest', rfl⟩ := hstart
  rfl

theorem maskFrom_plain_of_ordinary {c : Char} {text : List Char} (hquote : c ∉ ['\'', '"', '`'])
    (hline : ¬(c = '-' ∧ text.head? = some '-')) (hblock : ¬(c = '/' ∧ text.head? = some '*'))
    (htag : dollarTag (c :: text) = none) :
    maskFrom .plain (c :: text) = c :: maskFrom .plain text := by
  rw [maskFrom, if_neg hquote, if_neg hline, if_neg hblock, htag]

theorem maskFrom_plain_of_space {c : Char} (hc : c = ' ' ∨ c = '\n') (text : List Char) :
    maskFrom .plain (c :: text) = c :: maskFrom .plain text := by
  rcases hc with rfl | rfl
  · exact maskFrom_plain_of_ordinary (by decide) (by simp) (by simp) rfl
  · exact maskFrom_plain_of_ordinary (by decide) (by simp) (by simp) rfl

theorem blanked_eq (c : Char) : blanked c = ' ' ∨ blanked c = '\n' := by
  rw [blanked]
  split
  · next hc => exact .inr hc
  · exact .inl rfl

theorem maskFrom_plain_singleton (c : Char) : maskFrom .plain [c] = [c] := by
  rw [maskFrom]
  split
  · rfl
  rw [if_neg (by simp), if_neg (by simp)]
  split
  · rfl
  · rfl

theorem dollarTag_mask {c : Char} {text tag : List Char} (h : dollarTag (c :: text) = some tag) :
    dollarTag (c :: maskFrom (.copy (tag.length - 2) (.dollar tag)) text) = some tag ∧
      (MaskMode.dollar tag).Proper := by
  obtain ⟨name, rest, htext, hname, rfl⟩ := dollarTag_eq_some.mp h
  rw [List.cons.injEq] at htext
  obtain ⟨rfl, rfl⟩ := htext
  have hsplit : name ++ '$' :: rest = (name ++ ['$']) ++ rest := by simp
  have hlength : (name ++ ['$']).length = ('$' :: (name ++ ['$'])).length - 2 + 1 := by simp
  refine ⟨?_, ?_, by simp⟩
  · rw [hsplit, maskFrom_copy _ _ _ _ hlength]
    exact dollarTag_eq_some.mpr ⟨name, _, by simp; rfl, hname, rfl⟩
  · intro hmem
    simp only [List.mem_cons, List.mem_append, List.not_mem_nil, or_false] at hmem
    rcases hmem with h | h | h
    · exact absurd h (by decide)
    · exact absurd (hname ' ' h) (by decide)
    · exact absurd h (by decide)

theorem dollarTag_mask_none {c : Char} {text : List Char} {mode : MaskMode}
    (h : dollarTag (c :: text) = none) : dollarTag (c :: maskFrom mode text) = none := by
  by_contra hne
  obtain ⟨tag, htag⟩ := Option.ne_none_iff_exists'.mp hne
  obtain ⟨name, rest, htext, hname, -⟩ := dollarTag_eq_some.mp htag
  rw [List.cons.injEq] at htext
  obtain ⟨rfl, htext⟩ := htext
  have hsplit : name ++ '$' :: rest = (name ++ ['$']) ++ rest := by simp
  rw [hsplit] at htext
  have hstart : ∃ rest', text = (name ++ ['$']) ++ rest' := by
    refine prefix_of_maskFrom htext fun hmem => ?_
    rcases List.mem_append.mp hmem with hmem | hmem
    · exact absurd (hname ' ' hmem) (by decide)
    · exact absurd (List.mem_singleton.mp hmem) (by decide)
  obtain ⟨rest', rfl⟩ := hstart
  have : dollarTag ('$' :: ((name ++ ['$']) ++ rest')) = some ('$' :: (name ++ ['$'])) :=
    dollarTag_eq_some.mpr ⟨name, rest', by simp, hname, rfl⟩
  rw [h] at this
  exact nomatch this

/-- Masking twice changes nothing. -/
theorem maskFrom_maskFrom {mode : MaskMode} (hproper : mode.Proper) (text : List Char) :
    maskFrom mode.settled (maskFrom mode text) = maskFrom mode text := by
  fun_induction maskFrom mode text with
  | case1 mode => cases mode <;> rfl
  | case2 c cs hquote ih =>
    have hblank : c ≠ ' ' := by
      rintro rfl
      exact absurd hquote (by decide)
    show maskFrom .plain _ = _
    rw [maskFrom, if_pos hquote]
    exact congrArg _ (ih hblank)
  | case3 c cs _ _ ih =>
    show maskFrom .plain _ = _
    rw [maskFrom_plain_of_space (.inl rfl)]
    exact congrArg _ (ih trivial)
  | case4 c cs _ _ _ ih =>
    show maskFrom .plain _ = _
    rw [maskFrom_plain_of_space (.inl rfl)]
    exact congrArg _ (ih trivial)
  | case5 c cs hquote hline hblock tag htag ih =>
    obtain ⟨hagain, hproper⟩ := dollarTag_mask htag
    have hc : c = '$' := by
      obtain ⟨name, rest, htext, -⟩ := dollarTag_eq_some.mp htag
      exact (List.cons.inj htext).1
    subst hc
    show maskFrom .plain _ = _
    rw [maskFrom, if_neg hquote, if_neg (by simp), if_neg (by simp), hagain]
    exact congrArg _ (ih hproper)
  | case6 c cs hquote hline hblock htag ih =>
    show maskFrom .plain _ = _
    rw [maskFrom_plain_of_ordinary hquote (fun h => hline ⟨h.1, head_of_maskFrom h.2 (by decide)⟩)
      (fun h => hblock ⟨h.1, head_of_maskFrom h.2 (by decide)⟩) (dollarTag_mask_none htag)]
    exact congrArg _ (ih trivial)
  | case7 q cs hnext ih =>
    obtain ⟨rest, rfl⟩ := List.head?_eq_some_iff.mp hnext
    have hmask : maskFrom (.copy 0 (.quote q)) (q :: rest) = q :: maskFrom (.quote q) rest := rfl
    rw [hmask] at ih ⊢
    show maskFrom (.quote q) _ = _
    have hhead : (q :: maskFrom (.quote q) rest).head? = some q := rfl
    rw [maskFrom, if_pos rfl, if_pos hhead]
    exact congrArg _ (ih hproper)
  | case8 q cs hnext ih =>
    show maskFrom (.quote q) _ = _
    rw [maskFrom, if_pos rfl, if_neg fun h => hnext (head_of_maskFrom h hproper)]
    exact congrArg _ (ih trivial)
  | case9 q c cs hc ih =>
    show maskFrom (.quote q) _ = _
    rw [maskFrom, if_neg hc]
    exact congrArg _ (ih hproper)
  | case10 tag c cs hend ih =>
    obtain ⟨hblank, htwo⟩ := hproper
    obtain ⟨rest, hrest⟩ := List.isPrefixOf_iff_prefix.mp hend
    obtain ⟨d, tag, rfl⟩ := List.exists_cons_of_length_pos (by omega : 0 < tag.length)
    rw [List.cons_append, List.cons.injEq] at hrest
    obtain ⟨rfl, rfl⟩ := hrest
    rw [List.length_cons] at htwo
    have hcopy := maskFrom_copy ((d :: tag).length - 2) .plain tag rest (by
      rw [List.length_cons]
      omega)
    rw [hcopy] at ih ⊢
    have hagain : (d :: tag).isPrefixOf (d :: (tag ++ maskFrom .plain rest)) = true :=
      List.isPrefixOf_iff_prefix.mpr ⟨maskFrom .plain rest, rfl⟩
    show maskFrom (.dollar (d :: tag)) _ = _
    rw [maskFrom, if_pos hagain]
    exact congrArg _ (ih trivial)
  | case11 tag c cs hend ih =>
    have hagain : ¬tag.isPrefixOf (c :: maskFrom (.dollar tag) cs) = true := by
      intro h
      obtain ⟨rest, hrest⟩ := List.isPrefixOf_iff_prefix.mp h
      have hpos : 0 < tag.length := by have := hproper.2; omega
      obtain ⟨d, tag, rfl⟩ := List.exists_cons_of_length_pos hpos
      rw [List.cons_append, List.cons.injEq] at hrest
      obtain ⟨rfl, hrest⟩ := hrest
      obtain ⟨rest', rfl⟩ := prefix_of_maskFrom hrest.symm fun h =>
        hproper.1 (List.mem_cons_of_mem _ h)
      exact hend ( List.isPrefixOf_iff_prefix.mpr ⟨rest', rfl⟩)
    show maskFrom (.dollar tag) _ = _
    rw [maskFrom, if_neg hagain]
    exact congrArg _ (ih hproper)
  | case12 next c cs ih => exact congrArg _ (ih hproper)
  | case13 n next c cs ih => exact congrArg _ (ih hproper)
  | case14 cs ih =>
    show maskFrom .plain _ = _
    rw [maskFrom_plain_of_space (.inr rfl)]
    exact congrArg _ (ih trivial)
  | case15 c cs _ ih =>
    show maskFrom .plain _ = _
    rw [maskFrom_plain_of_space (.inl rfl)]
    exact congrArg _ (ih trivial)
  | case16 c => exact maskFrom_plain_singleton c
  | case17 c cs _ _ ih =>
    show maskFrom .plain _ = _
    rw [maskFrom_plain_of_space (.inl rfl)]
    exact congrArg _ (ih trivial)
  | case18 c cs _ _ ih =>
    show maskFrom .plain _ = _
    rw [maskFrom_plain_of_space (blanked_eq c)]
    exact congrArg _ (ih trivial)
  | case19 c cs ih =>
    show maskFrom .plain _ = _
    rw [maskFrom_plain_of_space (.inl rfl)]
    exact congrArg _ (ih trivial)

@[simp] theorem maskComments_maskComments (text : List Char) :
    maskComments (maskComments text) = maskComments text :=
  @maskFrom_maskFrom .plain trivial text

/-! ## The scan of the mask -/

section Mask

variable (body : List Char)

/-- The piece with its comments overwritten. -/
def uncommentedPiece (p : Piece) : Piece :=
  ⟨p.offset, ((maskComments body).drop p.offset).take p.text.length⟩

/-- The text of the statement with its comments overwritten. -/
def Statement.uncommented (st : Statement) : List Char :=
  Text.strip (joinPieces (st.pieces.map (uncommentedPiece body)))

/-- The same statement but for its comments. -/
structure Statement.Same (st st' : Statement) : Prop where
  startLine : st'.startLine = st.startLine
  endLine : st'.endLine = st.endLine
  startOffset : st'.startOffset = st.startOffset
  endOffset : st'.endOffset = st.endOffset
  text : st'.text = st.uncommented body

/-- The body and its mask have the same statements, but for their comments. -/
def CommentBlind (absoluteStart : Nat) : Prop :=
  List.Forall₂ (Statement.Same body) (logicalStatements body absoluteStart)
    (logicalStatements (maskComments body) absoluteStart)

namespace ScanState

/-- What the buffer is without its comments. -/
def uncommented (s : ScanState) : ScanState :=
  { s with buffer := s.buffer.map (uncommentedPiece body) }

/-- The buffer is a statement with its comments just when it is one without them. -/
def TextAgrees (s : ScanState) : Prop :=
  hasText (Text.strip (joinPieces s.buffer)) =
    hasText (Text.strip (joinPieces (s.uncommented body).buffer))

/-- The piece is put into the buffer, and the statement before it flushed. -/
def begun (absoluteStart index : Nat) (piece clean : List Char) (s : ScanState) : ScanState :=
  (if s.endsBefore clean then
    s.flush absoluteStart (if s.startLine < index then index - 1 else index) s.localOffset
  else s).append index piece

/-- The comments change no decision about the piece: not whether the statement before it ends, nor
whether its own does, nor whether what is flushed is a statement. -/
structure Undisturbed (absoluteStart index : Nat) (piece masked : List Char) (s : ScanState) :
    Prop where
  before : s.endsBefore (Text.strip masked) = (s.uncommented body).endsBefore (Text.strip masked)
  textBefore : s.endsBefore (Text.strip masked) = true → s.TextAgrees body
  after : (s.begun absoluteStart index piece (Text.strip masked)).endsAfter piece
    (Text.strip masked) =
    ((s.begun absoluteStart index piece (Text.strip masked)).uncommented body).endsAfter masked
      (Text.strip masked)
  textAfter : (s.begun absoluteStart index piece (Text.strip masked)).endsAfter piece
    (Text.strip masked) = true →
    (s.begun absoluteStart index piece (Text.strip masked)).TextAgrees body

/-- So it is along the pieces of a line. -/
def PiecesUndisturbed (absoluteStart index : Nat) (maskedLine : List Char) :
    Nat → List (List Char) → ScanState → Prop
  | _, [], _ => True
  | cursor, piece :: pieces, s =>
    s.Undisturbed body absoluteStart index piece (pieceMask maskedLine cursor) ∧
      PiecesUndisturbed absoluteStart index maskedLine (cursor + 1) pieces
        (s.onPiece absoluteStart index piece (pieceMask maskedLine cursor))

/-- So it is along the lines, and each line with something left in its mask is cut where its mask
is. -/
def LinesUndisturbed (absoluteStart : Nat) : Nat → List (List Char × List Char) → ScanState → Prop
  | _, [], s => s.buffer ≠ [] → s.TextAgrees body
  | index, line :: lines, s =>
    (isDirective line.2 = false → isBlank line.2 = false →
      (splitSemicolonPieces line.1).map List.length =
          (splitSemicolonPieces line.2).map List.length ∧
        s.PiecesUndisturbed body absoluteStart index line.2 0 (splitSemicolonPieces line.1)) ∧
      LinesUndisturbed absoluteStart (index + 1) lines
        (s.onLine absoluteStart index line.1 line.2)

end ScanState

/-- The comments end no line, change no cut and no decision. -/
def Undisturbed (absoluteStart : Nat) : Prop :=
  (splitlines body).map List.length = (splitlines (maskComments body)).map List.length ∧
    ScanState.LinesUndisturbed body absoluteStart 1
      ((splitlines body).zip (splitlines (maskComments body))) {}

end Mask

/-! ## Deciding it -/

section Decidable

variable (body : List Char) (absoluteStart : Nat)

instance (s : ScanState) : Decidable (s.TextAgrees body) :=
  inferInstanceAs (Decidable (_ = _))

instance (index : Nat) (piece masked : List Char) (s : ScanState) :
    Decidable (s.Undisturbed body absoluteStart index piece masked) :=
  decidable_of_iff (_ ∧ _ ∧ _ ∧ _)
    ⟨fun h => ⟨h.1, h.2.1, h.2.2.1, h.2.2.2⟩,
      fun h => ⟨h.before, h.textBefore, h.after, h.textAfter⟩⟩

instance decidablePiecesUndisturbed (index : Nat) (maskedLine : List Char) :
    ∀ (cursor : Nat) (pieces : List (List Char)) (s : ScanState),
      Decidable (s.PiecesUndisturbed body absoluteStart index maskedLine cursor pieces)
  | _, [], _ => .isTrue trivial
  | cursor, piece :: pieces, s =>
    haveI := decidablePiecesUndisturbed index maskedLine (cursor + 1) pieces
      (s.onPiece absoluteStart index piece (pieceMask maskedLine cursor))
    inferInstanceAs (Decidable (_ ∧ _))

instance decidableLinesUndisturbed :
    ∀ (index : Nat) (lines : List (List Char × List Char)) (s : ScanState),
      Decidable (s.LinesUndisturbed body absoluteStart index lines)
  | _, [], _ => inferInstanceAs (Decidable (_ → _))
  | index, line :: lines, s =>
    haveI :=
      decidableLinesUndisturbed (index + 1) lines (s.onLine absoluteStart index line.1 line.2)
    inferInstanceAs (Decidable (_ ∧ _))

instance : Decidable (Undisturbed body absoluteStart) := inferInstanceAs (Decidable (_ ∧ _))

end Decidable

/-! ## The two scans side by side -/

namespace ScanState

variable {body : List Char} {absoluteStart : Nat} {s s' : ScanState}

theorem onPiece_eq (absoluteStart index : Nat) (piece masked : List Char) (s : ScanState)
    (hmasked : Text.strip masked ≠ []) :
    s.onPiece absoluteStart index piece masked =
      (if (s.begun absoluteStart index piece (Text.strip masked)).endsAfter piece
        (Text.strip masked) then
        (s.begun absoluteStart index piece (Text.strip masked)).flush absoluteStart index
          (s.localOffset + piece.length)
      else s.begun absoluteStart index piece (Text.strip masked)).advance piece.length := by
  unfold onPiece begun
  dsimp only
  rw [if_neg hmasked]
  split
  · rfl
  · rfl

/-- The second state is the first one without comments. -/
structure Beside (body : List Char) (s s' : ScanState) : Prop where
  statements : List.Forall₂ (Statement.Same body) s.statements s'.statements
  buffer : s'.buffer = s.buffer.map (uncommentedPiece body)
  startLine : s'.startLine = s.startLine
  startLocalOffset : s'.startLocalOffset = s.startLocalOffset
  localOffset : s'.localOffset = s.localOffset

namespace Beside

theorem advance (h : Beside body s s') (n : Nat) : Beside body (s.advance n) (s'.advance n) :=
  ⟨h.statements, h.buffer, h.startLine, h.startLocalOffset,
    congrArg (· + n) h.localOffset⟩

theorem isEmpty (h : Beside body s s') : s'.buffer.isEmpty = s.buffer.isEmpty := by
  rw [h.buffer, List.isEmpty_map]

theorem append (h : Beside body s s') (index : Nat) (piece : List Char) :
    Beside body (s.append index piece)
      (s'.append index (uncommentedPiece body ⟨s.localOffset, piece⟩).text) := by
  constructor
  · exact h.statements
  · show s'.buffer ++ _ = (s.buffer ++ _).map _
    rw [h.buffer, h.localOffset, List.map_append]
    rfl
  · show (if s'.buffer.isEmpty then index else s'.startLine) =
      if s.buffer.isEmpty then index else s.startLine
    rw [h.isEmpty, h.startLine]
  · show (if s'.buffer.isEmpty then s'.localOffset else s'.startLocalOffset) =
      if s.buffer.isEmpty then s.localOffset else s.startLocalOffset
    rw [h.isEmpty, h.localOffset, h.startLocalOffset]
  · exact h.localOffset

theorem flush (h : Beside body s s') (htext : s.TextAgrees body) (endLine o : Nat) :
    Beside body (s.flush absoluteStart endLine o) (s'.flush absoluteStart endLine o) := by
  have hagree : hasText (Text.strip (joinPieces s'.buffer)) =
      hasText (Text.strip (joinPieces s.buffer)) := by
    rw [h.buffer]
    exact htext.symm
  constructor
  · rw [flush_statements, flush_statements, hagree]
    split
    · refine List.rel_append h.statements (.cons ⟨h.startLine, rfl, ?_, rfl, ?_⟩ .nil)
      · show absoluteStart + s'.startLocalOffset = absoluteStart + s.startLocalOffset
        rw [h.startLocalOffset]
      · show Text.strip (joinPieces s'.buffer) = _
        rw [h.buffer]
        rfl
    · exact h.statements
  · rfl
  · rw [flush_startLine, flush_startLine, h.startLine]
  · rw [flush_startLocalOffset, flush_startLocalOffset, h.startLocalOffset]
  · rw [flush_localOffset, flush_localOffset, h.localOffset]

theorem endsBefore (h : Beside body s s') (clean : List Char) :
    s'.endsBefore clean = (s.uncommented body).endsBefore clean := by
  unfold ScanState.endsBefore
  rw [show s'.buffer = (s.uncommented body).buffer from h.buffer]

theorem endsAfter (h : Beside body s s') (piece clean : List Char) :
    s'.endsAfter piece clean = (s.uncommented body).endsAfter piece clean := by
  unfold ScanState.endsAfter
  rw [show s'.buffer = (s.uncommented body).buffer from h.buffer]

theorem onPiece (h : Beside body s s') {index : Nat} {piece masked : List Char}
    (hmasked : masked = (uncommentedPiece body ⟨s.localOffset, piece⟩).text)
    (hlength : masked.length = piece.length)
    (hundisturbed : s.Undisturbed body absoluteStart index piece masked) :
    Beside body (s.onPiece absoluteStart index piece masked)
      (s'.onPiece absoluteStart index masked masked) := by
  by_cases hclean : Text.strip masked = []
  · unfold ScanState.onPiece
    dsimp only
    rw [if_pos hclean, if_pos hclean, hlength]
    exact h.advance _
  rw [onPiece_eq _ _ _ _ _ hclean, onPiece_eq _ _ _ _ _ hclean, hlength, h.localOffset]
  have hbegun : Beside body (s.begun absoluteStart index piece (Text.strip masked))
      (s'.begun absoluteStart index masked (Text.strip masked)) := by
    unfold begun
    rw [h.endsBefore, ← hundisturbed.before, h.startLine, h.localOffset]
    split
    · next hends =>
        have := (@flush body absoluteStart s s' h (hundisturbed.textBefore hends)
          (if s.startLine < index then index - 1 else index) s.localOffset).append index piece
        rwa [hmasked]
    · rw [hmasked]
      exact h.append index piece
  rw [hbegun.endsAfter, ← hundisturbed.after]
  split
  · next hends => exact (hbegun.flush (hundisturbed.textAfter hends) _ _).advance _
  · exact hbegun.advance _

end Beside

theorem onPieces_blank {maskedLine : List Char} (hblank : isBlank maskedLine = true)
    (index cursor : Nat) (pieces : List (List Char)) (s : ScanState) :
    s.onPieces absoluteStart index maskedLine cursor pieces = s.advance pieces.flatten.length := by
  induction pieces generalizing s cursor with
  | nil => rfl
  | cons piece pieces ih =>
    have hpiece : s.onPiece absoluteStart index piece (pieceMask maskedLine cursor) =
        s.advance piece.length := by
      unfold onPiece
      dsimp only
      rw [if_pos ((strip_pieceMask maskedLine cursor).mpr hblank)]
    rw [onPieces, hpiece, ih, List.flatten_cons, List.length_append]
    unfold advance
    dsimp only
    rw [Nat.add_assoc]

theorem pieceMask_of_drop {maskedLine mask : List Char} {masks : List (List Char)} {cursor : Nat}
    (h : (splitSemicolonPieces maskedLine).drop cursor = mask :: masks) :
    pieceMask maskedLine cursor = mask ∧
      (splitSemicolonPieces maskedLine).drop (cursor + 1) = masks := by
  have hget : (splitSemicolonPieces maskedLine)[cursor]? = some mask := by
    rw [← List.head?_drop, h]
    rfl
  have hlt := (List.getElem?_eq_some_iff.mp hget).1
  have hmin : min cursor ((splitSemicolonPieces maskedLine).length - 1) = cursor := by omega
  constructor
  · unfold pieceMask
    dsimp only
    rw [if_neg (List.ne_nil_of_length_pos (by omega)), hmin, hget]
    rfl
  · rw [← List.tail_drop, h]
    rfl

namespace Beside

variable {all : List Piece}

/-- The simulation goes on over the pieces of a line. -/
theorem onPieces (h : Beside body s s') (hall : s.Accounts absoluteStart all) {index cursor : Nat}
    {maskedLine : List Char} {pieces masks : List (List Char)}
    (hmasks : (splitSemicolonPieces maskedLine).drop cursor = masks)
    (hlengths : pieces.map List.length = masks.map List.length)
    (hslices : ∀ q ∈ placed s.localOffset masks,
      ((maskComments body).drop q.offset).take q.text.length = q.text)
    (hundisturbed : s.PiecesUndisturbed body absoluteStart index maskedLine cursor pieces) :
    Beside body (s.onPieces absoluteStart index maskedLine cursor pieces)
      (s'.onPieces absoluteStart index maskedLine cursor masks) := by
  induction pieces generalizing s s' all cursor masks with
  | nil =>
    obtain rfl := List.map_eq_nil_iff.mp hlengths.symm
    exact h
  | cons piece pieces ih =>
    cases masks with
    | nil => exact nomatch hlengths
    | cons mask masks =>
      rw [List.map_cons, List.map_cons, List.cons.injEq] at hlengths
      obtain ⟨hmask, hrest⟩ := pieceMask_of_drop hmasks
      obtain ⟨hundisturbed, hpieces⟩ := hundisturbed
      obtain ⟨hoffset, hall⟩ := onPiece_accounts hall index piece (pieceMask maskedLine cursor)
      have htext : mask = (uncommentedPiece body ⟨s.localOffset, piece⟩).text := by
        have := hslices ⟨s.localOffset, mask⟩ List.mem_cons_self
        rw [uncommentedPiece, hlengths.1]
        exact this.symm
      rw [hmask] at hundisturbed hoffset hall hpieces
      rw [ScanState.onPieces, ScanState.onPieces, hmask]
      refine ih (h.onPiece htext hlengths.1.symm hundisturbed) hall hrest hlengths.2 ?_ hpieces
      intro q hq
      rw [hoffset, hlengths.1] at hq
      exact hslices q (List.mem_cons_of_mem _ hq)

/-- The simulation goes on over a line. -/
theorem onLine (h : Beside body s s') (hall : s.Accounts absoluteStart all) {index : Nat}
    {rawLine maskedLine : List Char} (hlength : rawLine.length = maskedLine.length)
    (hline : ⟨s.localOffset, maskedLine⟩ ∈ bodyLines (maskComments body))
    (hundisturbed : isDirective maskedLine = false → isBlank maskedLine = false →
      (splitSemicolonPieces rawLine).map List.length =
          (splitSemicolonPieces maskedLine).map List.length ∧
        s.PiecesUndisturbed body absoluteStart index maskedLine 0 (splitSemicolonPieces rawLine)) :
    Beside body (s.onLine absoluteStart index rawLine maskedLine)
      (s'.onLine absoluteStart index maskedLine maskedLine) := by
  unfold ScanState.onLine
  cases hdirective : isDirective maskedLine with
  | true =>
    rw [if_pos rfl, if_pos rfl, hlength]
    exact h.advance _
  | false =>
    rw [if_neg Bool.false_ne_true, if_neg Bool.false_ne_true]
    dsimp only
    cases hblank : isBlank maskedLine with
    | true =>
      obtain ⟨tail, htail, -⟩ := splitSemicolonPieces_flatten rawLine
      have hsum := congrArg List.length htail
      rw [List.length_append, List.length_flatten, hlength] at hsum
      rw [onPieces_blank hblank, (splitSemicolonPieces_eq_nil_iff maskedLine).mpr hblank,
        List.length_flatten, hlength]
      have hpassed := h.advance maskedLine.length
      unfold ScanState.advance at hpassed ⊢
      dsimp only at hpassed ⊢
      rwa [Nat.add_assoc, Nat.add_sub_cancel' (by omega)]
    | false =>
      obtain ⟨hlengths, hpieces⟩ := hundisturbed hdirective hblank
      have hslices : ∀ q ∈ placed s.localOffset (splitSemicolonPieces maskedLine),
          ((maskComments body).drop q.offset).take q.text.length = q.text :=
        fun q hq => linePieces_slice hline hq
      rw [hlengths, hlength]
      have hdrop : (splitSemicolonPieces maskedLine).drop 0 = splitSemicolonPieces maskedLine := rfl
      exact (h.onPieces hall hdrop hlengths hslices hpieces).advance _

theorem onLines (h : Beside body s s') (hall : s.Accounts absoluteStart all) {index : Nat}
    {lines masks : List (List Char)} (hlengths : lines.map List.length = masks.map List.length)
    (hmasks : ∀ q ∈ placed s.localOffset masks, q ∈ bodyLines (maskComments body))
    (hundisturbed : s.LinesUndisturbed body absoluteStart index (lines.zip masks)) :
    Beside body (s.onLines absoluteStart index (lines.zip masks))
        (s'.onLines absoluteStart index (masks.zip masks)) ∧
      ((s.onLines absoluteStart index (lines.zip masks)).buffer ≠ [] →
        (s.onLines absoluteStart index (lines.zip masks)).TextAgrees body) := by
  induction lines generalizing s s' all index masks with
  | nil =>
    obtain rfl := List.map_eq_nil_iff.mp hlengths.symm
    exact ⟨h, hundisturbed⟩
  | cons line lines ih =>
    cases masks with
    | nil => exact nomatch hlengths
    | cons mask masks =>
      rw [List.map_cons, List.map_cons, List.cons.injEq] at hlengths
      obtain ⟨hundisturbed, hlines⟩ := hundisturbed
      obtain ⟨hoffset, hall'⟩ := onLine_accounts hall index line mask
      rw [List.zip_cons_cons, List.zip_cons_cons, ScanState.onLines, ScanState.onLines]
      refine ih (h.onLine hall hlengths.1 (hmasks _ List.mem_cons_self) hundisturbed) hall'
        hlengths.2 ?_ hlines
      intro q hq
      rw [hoffset, hlengths.1] at hq
      exact hmasks q (List.mem_cons_of_mem _ hq)

end Beside

end ScanState

/-- Where the comments end no line and change no cut and no decision, overwriting them changes
nothing. -/
theorem comments_change_nothing (body : List Char) (absoluteStart : Nat)
    (h : Undisturbed body absoluteStart) : CommentBlind body absoluteStart := by
  obtain ⟨hlengths, hundisturbed⟩ := h
  have hstart : ScanState.Beside body {} {} := ⟨.nil, rfl, rfl, rfl, rfl⟩
  obtain ⟨hbeside, htext⟩ :=
    hstart.onLines (accounts_start absoluteStart) hlengths (fun q hq => hq) hundisturbed
  have hcount : (splitlines (maskComments body)).length = (splitlines body).length := by
    have := congrArg List.length hlengths
    rwa [List.length_map, List.length_map, eq_comm] at this
  have hsize : (maskComments body).length = body.length := maskFrom_length .plain body
  unfold CommentBlind logicalStatements
  dsimp only
  rw [maskComments_maskComments, hcount, hsize]
  generalize ScanState.onLines absoluteStart 1 _ {} = s at hbeside htext
  generalize ScanState.onLines absoluteStart 1 _ {} = s' at hbeside
  by_cases hbuffer : s.buffer = []
  · rw [if_pos hbuffer, if_pos (by rw [hbeside.buffer, hbuffer]; rfl)]
    exact hbeside.statements
  · rw [if_neg hbuffer, if_neg (by rw [hbeside.buffer]; simpa using hbuffer)]
    exact (hbeside.flush (htext hbuffer) _ _).statements

/-- A comment in a statement that keeps its semicolon last. -/
theorem inner_comment_changes_nothing : CommentBlind "SET A /* c */ = 1;\nSET B = 2;".toList 0 :=
  comments_change_nothing _ _ (by decide +kernel)

/-- A comment after the semicolon of a statement. -/
def trailingComment : List Char := "SET A = 1; -- c\nSET B = 2;".toList

/-- The comment is a statement of its own. -/
theorem trailing_comment_is_a_statement : ¬CommentBlind trailingComment 0 := by
  intro h
  have hlength := h.length_eq
  have hthree : (logicalStatements trailingComment 0).length = 3 := by decide +kernel
  have htwo : (logicalStatements (maskComments trailingComment) 0).length = 2 := by decide +kernel
  rw [hthree, htwo] at hlength
  exact nomatch hlength

end AtlasDb.Dialects
