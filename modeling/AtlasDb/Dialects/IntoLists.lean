import AtlasDb.Dialects.AssignmentText

/-!
# Lists of targets

`adapter.py: parse_text`, the list behind `INTO` of a statement that selects into variables. The
pattern is looked for from left to right and its group is lazy; `intoList` says which part of the
text that is, and the two have the same words (`words_intoGroup`).
-/

namespace AtlasDb.Dialects

open Core Core.Patterns Lib

/-! ## The pattern -/

section
variable (letters : Letters)

/-- `\bFROM\b|;|$` -/
def listEnd : Pattern Char :=
  oneOf [concat [letters.boundary, letters.word "FROM", letters.boundary], .one (· = ';'), dollar]

/-- `\bINTO\s+(.+?)(?:\bFROM\b|;|$)` -/
def intoPattern : Pattern Char :=
  .seq letters.boundary (.seq (letters.word "INTO") (.seq spaces
    (.seq (.group 1 (anything false)) (listEnd letters))))

/-- `into.group(1)`, when the pattern is found. -/
def intoGroup (text : List Char) : List Char :=
  ((intoPattern letters).search none text).elim [] fun m => Inline.groupOf m 1

end

/-! ## The list -/

section
variable (letters : Letters)

/-- `\b` between what stands before and a text. -/
def boundaryAt (prev : Option Char) (text : List Char) : Bool :=
  (prev.any letters.isWord) != (text.head?.any letters.isWord)

/-- A word in either case at the beginning of a text, and what follows it. -/
def readWord : List Char → List Char → Option (List Char × List Char)
  | [], text => some ([], text)
  | _ :: _, [] => none
  | c :: word, d :: text =>
    if letters.same c d then (readWord word text).map fun (read, rest) =>
      (d :: read, rest) else none

/-- A list of targets ends at `FROM`, at a semicolon and at the end of the text. -/
def endsList (prev : Option Char) (text : List Char) : Bool :=
  (boundaryAt letters prev text && match readWord letters "FROM".toList text with
    | some (read, rest) => boundaryAt letters (Pattern.before prev read) rest
    | none => false) || text.head? = some ';' || text = [] || text = ['\n']

/-- The list behind `INTO` and the white space that follows it. -/
def listBehind (text : List Char) : List Char :=
  match text.dropWhile Text.isSpace with
  | [] => []
  | c :: cs => c :: Pattern.upTo (endsList letters) (some c) cs

/-- The list behind the first `INTO` that has something behind it. -/
def intoList : Option Char → List Char → List Char
  | _, [] => []
  | prev, c :: cs =>
    match readWord letters "INTO".toList (c :: cs) with
    | some (_, d :: e :: rest) =>
      if boundaryAt letters prev (c :: cs) &&
        Text.isSpace d then listBehind letters (d :: e :: rest)
      else intoList (some c) cs
    | _ => intoList (some c) cs

end

section Into

variable {letters : Letters}

theorem run_word (word : String) (prev : Option Char) (text : List Char) :
    (letters.word word).run prev text = match readWord letters word.toList text with
      | some (read, rest) => [⟨read, rest, []⟩]
      | none => [] := by
  unfold Letters.word
  induction word.toList generalizing prev text with
  | nil => rfl
  | cons c cs ih =>
    cases text with
    | nil => rfl
    | cons d text =>
      show (Pattern.seq (.one (letters.same c)) _).run prev (d :: text) = _
      rw [Pattern.run, Pattern.run, readWord]
      split
      · rw [List.flatMap_singleton, ih]
        cases readWord letters cs text with
        | none => rfl
        | some found => rfl
      · rfl

theorem run_boundary (prev : Option Char) (text : List Char) :
    letters.boundary.run prev text = if boundaryAt letters prev text then [⟨[], text, []⟩]
    else [] := rfl

theorem isEmpty_boundary_seq (a : Pattern Char) (prev : Option Char) (text : List Char) :
    ((Pattern.seq letters.boundary a).run prev text).isEmpty =
      !(boundaryAt letters prev text && !(a.run prev text).isEmpty) := by
  rw [Pattern.run, run_boundary]
  cases boundaryAt letters prev text with
  | false => rfl
  | true =>
    rw [if_pos rfl, List.flatMap_singleton, List.isEmpty_map, Bool.true_and, Bool.not_not]
    rfl

theorem isEmpty_word_seq (word : String) (a : Pattern Char) (prev : Option Char)
    (text : List Char) :
    ((Pattern.seq (letters.word word) a).run prev text).isEmpty =
      match readWord letters word.toList text with
      | some (read, rest) => (a.run (Pattern.before prev read) rest).isEmpty
      | none => true := by
  rw [Pattern.run, run_word]
  cases readWord letters word.toList text with
  | none => rfl
  | some found =>
    dsimp only
    rw [List.flatMap_singleton, List.isEmpty_map]

theorem isEmpty_dollar (prev : Option Char) (text : List Char) :
    (dollar.run prev text).isEmpty = false ↔ text = [] ∨ text = ['\n'] := by
  have hlast :
    ((Pattern.seq (optional (.one (· = '\n'))) (.between fun _ next => next.isNone)).run prev
      text).isEmpty = false ↔ text = [] ∨ text = ['\n'] := by
    cases text with
    | nil => exact ⟨fun _ => .inl rfl, fun _ => rfl⟩
    | cons c cs =>
      by_cases hc : c = '\n'
      · subst hc
        cases cs with
        | nil => exact ⟨fun _ => .inr rfl, fun _ => rfl⟩
        | cons d cs => simp [Pattern.run, Patterns.optional]
      · simp [Pattern.run, Patterns.optional, hc]
  unfold dollar
  rw [Pattern.run, Pattern.run]
  split
  · next h =>
      rw [h] at hlast
      exact ⟨fun h => absurd h (by simp), fun h => absurd (hlast.mpr h) (by simp)⟩
  · next h =>
      rw [Bool.not_eq_true] at h
      exact ⟨fun _ => hlast.mp h, fun _ => rfl⟩

/-- Where a list may end. -/
theorem listEnd_isEmpty (prev : Option Char) (text : List Char) :
    (!((listEnd letters).run prev text).isEmpty) = endsList letters prev text := by
  have hfrom :
    ((concat [letters.boundary, letters.word "FROM", letters.boundary]).run prev text).isEmpty =
      !(boundaryAt letters prev text && match readWord letters "FROM".toList text with
        | some (read, rest) => boundaryAt letters (Pattern.before prev read) rest
        | none => false) := by
    show
      ((Pattern.seq letters.boundary
        (.seq (letters.word "FROM") (.seq letters.boundary .empty))).run
      prev text).isEmpty = _
    rw [isEmpty_boundary_seq, isEmpty_word_seq]
    cases readWord letters "FROM".toList text with
    | none => rfl
    | some found =>
      dsimp only
      rw [isEmpty_boundary_seq, Bool.not_not]
      show (!(_ && (_ && true))) = _
      rw [Bool.and_true]
  have hsemicolon : ((Pattern.one (· = ';')).run prev text).isEmpty =
    !(text.head? = some ';' : Bool) := by
    cases text with
    | nil => rfl
    | cons c cs =>
      rw [Pattern.run]
      by_cases hc : c = ';'
      · subst hc
        rfl
      · simp [hc]
  have hdollar : (dollar.run prev text).isEmpty = !(text = [] || text = ['\n'] : Bool) := by
    have h := isEmpty_dollar prev text
    cases hrun : (dollar.run prev text).isEmpty with
    | false =>
      rcases h.mp hrun with rfl | rfl
      · rfl
      · rfl
    | true =>
      rw [hrun] at h
      simpa using h
  have happend (a b : Pattern Char) : ((Pattern.alt a b).run prev text).isEmpty =
      ((a.run prev text).isEmpty && (b.run prev text).isEmpty) := by
    rw [Pattern.run]
    cases a.run prev text with
    | nil => rfl
    | cons f fs => rfl
  show (!((Pattern.alt _ (.alt _ (.alt _ (.one fun _ => false)))).run prev text).isEmpty) = _
  have hfalse : ((Pattern.one fun _ : Char => false).run prev text).isEmpty = true := by
    cases text with
    | nil => rfl
    | cons c cs => rfl
  rw [happend, happend, happend, hfrom, hsemicolon, hdollar, hfalse, endsList]
  simp only [Bool.not_and, Bool.not_or, Bool.not_not, Bool.and_true, Bool.or_assoc]

theorem groupFree_listEnd : (listEnd letters).groupFree = true := by
  simp [listEnd, Pattern.groupFree, Letters.boundary, dollar]

theorem listEnd_at_end (prev : Option Char) : ((listEnd letters).run prev []).isEmpty = false := by
  have h := @listEnd_isEmpty letters prev []
  rw [Bool.not_eq_eq_eq_not] at h
  rw [h, endsList]
  simp

theorem head?_list (prev : Option Char) (c : Char) (cs : List Char) :
    ∃ f : Pattern.Found Char,
      ((Pattern.seq (.group 1 (anything false)) (listEnd letters)).run prev (c :: cs)).head? =
      some f ∧
      Inline.groupOf f 1 = c :: Pattern.upTo (endsList letters) (some c) cs := by
  obtain ⟨f, g, hf, hgroups, prev', rest, hg⟩ :=
    Pattern.head?_run_lazyGroup (@listEnd_at_end letters) prev c cs 1
  refine ⟨f, hf, ?_⟩
  have hempty : g.groups = [] :=
    ((Pattern.mem_run_iff _ prev' rest g).mp hg).2.groups_eq_nil groupFree_listEnd
  have hstops : (fun prev text => !((listEnd letters).run prev text).isEmpty) =
    endsList letters := by
    funext prev text
    exact listEnd_isEmpty prev text
  rw [Inline.groupOf, hgroups, hempty, hstops]
  rfl

/-- `\s+(.+?)(?:\bFROM\b|;|$)` -/
def behindInto (letters : Letters) : Pattern Char :=
  .seq spaces (.seq (.group 1 (anything false)) (listEnd letters))

theorem behindInto_isEmpty {prev : Option Char} {text : List Char} :
    ((behindInto letters).run prev text).isEmpty = false ↔
      ∃ d e rest, text = d :: e :: rest ∧ Text.isSpace d = true := by
  rw [Pattern.run_isEmpty_iff]
  constructor
  · rintro ⟨_, rest, _, rfl, blank, _, _, _, rfl, rfl, hspaces, list, after, _, _, rfl, rfl,
      ⟨_, rfl, hlist⟩, -⟩
    obtain ⟨hblank, hne, rfl⟩ := matches_spaces_iff.mp hspaces
    obtain ⟨hlistne, rfl⟩ := matches_anything_iff.mp hlist
    obtain ⟨d, blank, rfl⟩ := List.exists_cons_of_ne_nil hne
    obtain ⟨c, list, rfl⟩ := List.exists_cons_of_ne_nil hlistne
    have hspace := hblank d List.mem_cons_self
    cases blank with
    | nil => exact ⟨d, c, list ++ after ++ rest, by simp, hspace⟩
    | cons e blank => exact ⟨d, e, blank ++ (c :: list ++ after) ++ rest, by simp, hspace⟩
  · rintro ⟨d, e, rest, rfl, hd⟩
    obtain ⟨groups, hmatch⟩ : ∃ groups,
    (behindInto letters).Matches prev (d :: e :: rest) [] groups := by
      refine exists_matches_seq [d] (e :: rest) rfl ⟨[], matches_spaces_iff.mpr ⟨?_, ?_, rfl⟩⟩ ?_
      · exact fun c hc => List.mem_singleton.mp hc ▸ hd
      · exact List.cons_ne_nil _ _
      · refine exists_matches_seq (e :: rest) [] (List.append_nil _).symm
          ⟨_, _, rfl, matches_anything_iff.mpr ⟨List.cons_ne_nil _ _, rfl⟩⟩ ?_
        exact ⟨[], .inr (.inr (.inl (matches_dollar_end _)))⟩
    exact ⟨d :: e :: rest, [], groups, List.append_nil _, hmatch⟩

/-- The list behind `INTO` is the shortest one. -/
theorem head?_behindInto (prev : Option Char) {d e : Char} {rest : List Char}
    (hd : Text.isSpace d = true) :
    ∃ f : Pattern.Found Char, ((behindInto letters).run prev (d :: e :: rest)).head? = some f ∧
      words (Inline.groupOf f 1) = words (listBehind letters (d :: e :: rest)) := by
  have hdrop : (d :: e :: rest).dropWhile Text.isSpace = (e :: rest).dropWhile Text.isSpace :=
    List.dropWhile_cons_of_pos hd
  cases hbody : (d :: e :: rest).dropWhile Text.isSpace with
  | nil =>
    have hblank : ∀ c ∈ d :: e :: rest, Text.isSpace c = true := by
      have h := List.dropWhile_eq_nil_iff.mp hbody
      exact h
    have hlist := @behindInto_isEmpty letters prev (d :: e :: rest)
    obtain ⟨f, hf⟩ :=
      Option.isSome_iff_exists.mp (List.isSome_head?.mpr (List.isEmpty_eq_false_iff.mp
      (hlist.mpr ⟨d, e, rest, rfl, hd⟩)))
    refine ⟨f, hf, ?_⟩
    obtain ⟨happ, hmatch⟩ := (Pattern.mem_run_iff _ prev _ f).mp (List.mem_of_mem_head? hf)
    obtain ⟨blank, _, _, _, hread, hgroups, hspaces, list, after, _, _, rfl, rfl,
      ⟨_, rfl, hlist⟩, hend⟩ :=
      hmatch
    rw [hend.groups_eq_nil groupFree_listEnd] at hgroups
    have hgroup : Inline.groupOf f 1 = list := by rw [Inline.groupOf, hgroups]; rfl
    have hlistBlank : ∀ c ∈ list, isInert (id c) = true := by
      intro c hc
      refine isInert_of_isSpace (hblank c ?_)
      rw [← happ, hread]
      simp [hc]
    rw [hgroup, listBehind, hbody]
    exact wordsFrom_inert hlistBlank []
  | cons c cs =>
    obtain ⟨f, hf, hgroup⟩ := @head?_list letters
      (Pattern.before prev ((d :: e :: rest).takeWhile Text.isSpace)) c cs
    have hspaces : (spaces.run prev (d :: e :: rest)).head? =
        some ⟨(d :: e :: rest).takeWhile Text.isSpace, c :: cs, []⟩ := by
      have hsplit : e :: rest = (e :: rest).takeWhile Text.isSpace ++ c :: cs := by
        rw [← hbody, hdrop, List.takeWhile_append_dropWhile]
      have hhead : Text.isSpace c = false := by
        have h := List.head?_dropWhile_not Text.isSpace (d :: e :: rest)
        rwa [hbody] at h
      have hgreedy : ((Pattern.star true space).run (some d)
          ((e :: rest).takeWhile Text.isSpace ++ c :: cs)).head? =
            some ⟨(e :: rest).takeWhile Text.isSpace, c :: cs, []⟩ := by
        apply Pattern.head?_run_greedy
        · exact fun x hx => List.mem_takeWhile_imp hx
        · intro x hx
          obtain rfl : c = x := Option.some.inj hx
          exact hhead
      rw [← hsplit] at hgreedy
      rw [List.takeWhile_cons_of_pos hd]
      have hone : (space.run prev (d :: e :: rest)).head? = some ⟨[d], e :: rest, []⟩ := by
        show (if Text.isSpace d then _ else _ : List (Pattern.Found Char)).head? = _
        rw [if_pos hd]
        rfl
      exact Pattern.head?_run_seq_of hone hgreedy
    refine ⟨_, Pattern.head?_run_seq_of hspaces hf, ?_⟩
    have hsame : Inline.groupOf (Pattern.Found.append
        ⟨(d :: e :: rest).takeWhile Text.isSpace, c :: cs, []⟩ f) 1 = Inline.groupOf f 1 := by
      show (List.lookup 1 (f.groups ++ [])).getD [] = _
      rw [List.append_nil]
      rfl
    rw [hsame, hgroup, listBehind, hbody]

theorem head?_intoPattern {prev : Option Char} {text into : List Char} {d e : Char}
    {rest : List Char} (hread : readWord letters "INTO".toList text = some (into, d :: e :: rest))
    (hboundary : boundaryAt letters prev text = true) (hd : Text.isSpace d = true) :
    ∃ f : Pattern.Found Char, ((intoPattern letters).run prev text).head? = some f ∧
      words (Inline.groupOf f 1) = words (listBehind letters (d :: e :: rest)) := by
  obtain ⟨f, hf, hwords⟩ := @head?_behindInto letters (Pattern.before prev into) d e rest hd
  have hword : ((letters.word "INTO").run prev text).head? = some ⟨into, d :: e :: rest, []⟩ := by
    rw [run_word, hread]
    rfl
  have hfirst : (letters.boundary.run prev text).head? = some ⟨[], text, []⟩ := by
    rw [run_boundary, if_pos hboundary]
    rfl
  refine ⟨_, Pattern.head?_run_seq_of hfirst (Pattern.head?_run_seq_of hword hf), ?_⟩
  have hsame : Inline.groupOf (Pattern.Found.append ⟨[], text, []⟩
      (Pattern.Found.append ⟨into, d :: e :: rest, []⟩ f)) 1 = Inline.groupOf f 1 := by
    show (List.lookup 1 ((f.groups ++ []) ++ [])).getD [] = _
    rw [List.append_nil, List.append_nil]
    rfl
  rw [hsame]
  exact hwords

theorem intoPattern_isEmpty {prev : Option Char} {text : List Char}
    (h : ∀ into d e rest, readWord letters "INTO".toList text = some (into, d :: e :: rest) →
      ¬ (boundaryAt letters prev text && Text.isSpace d) = true) :
    (intoPattern letters).run prev text = [] := by
  rw [← List.isEmpty_iff]
  show ((Pattern.seq letters.boundary (.seq (letters.word "INTO") (behindInto letters))).run prev
    text).isEmpty = true
  rw [isEmpty_boundary_seq, isEmpty_word_seq]
  cases hboundary : boundaryAt letters prev text with
  | false => rfl
  | true =>
    cases hread : readWord letters "INTO".toList text with
    | none => rfl
    | some found =>
      dsimp only
      rw [Bool.true_and, Bool.not_not]
      by_contra hsome
      rw [Bool.not_eq_true, behindInto_isEmpty] at hsome
      obtain ⟨d, e, rest, hrest, hd⟩ := hsome
      refine h found.1 d e rest (by rw [hread, ← hrest]) ?_
      rw [hboundary, hd]
      rfl

/-- **The list behind `INTO`** has the words of the group that is found. -/
theorem words_search (prev : Option Char) (text : List Char) :
    words (((intoPattern letters).search prev text).elim [] fun m => Inline.groupOf m 1) =
      words (intoList letters prev text) := by
  induction text generalizing prev with
  | nil =>
    have hnone : (intoPattern letters).run prev [] = [] := intoPattern_isEmpty fun _ _ _ _ h => by
      exact absurd h (by simp [readWord])
    rw [Pattern.search, hnone]
    rfl
  | cons c cs ih =>
    have hskip (h : ∀ into d e rest, readWord letters "INTO".toList (c :: cs) =
        some (into, d :: e :: rest) →
        ¬ (boundaryAt letters prev (c :: cs) && Text.isSpace d) = true) :
        (intoPattern letters).search prev (c :: cs) = (intoPattern letters).search (some c) cs := by
      rw [Pattern.search, intoPattern_isEmpty h]
      rfl
    rw [intoList]
    split
    · next _ into d e rest hread =>
        split
        · next h =>
            obtain ⟨hboundary, hd⟩ := Bool.and_eq_true_iff.mp h
            obtain ⟨f, hf, hwords⟩ := head?_intoPattern hread hboundary hd
            rw [Pattern.search, hf]
            exact hwords
        · next h =>
            rw [hskip, ih]
            intro into' d' e' rest' hread'
            rw [hread] at hread'
            cases hread'
            exact h
    · next h =>
        rw [hskip, ih]
        intro into d e rest hread
        exact absurd hread (h into d e rest)

theorem words_intoGroup (text : List Char) :
    words (intoGroup letters text) = words (intoList letters none text) := words_search none text

end Into

end AtlasDb.Dialects
