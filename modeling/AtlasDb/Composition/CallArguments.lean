import AtlasDb.Core.Text
import Mathlib.Data.List.TakeWhile
import Mathlib.Data.List.Basic
import Mathlib.Algebra.GroupWithZero.Nat

/-!
# The arguments of a call

`composition/inference.py: _split_call_arguments`. The text of a `CALL` is cut at its first `(` and
its last `)`, and what is between them is cut at the commas that stand outside quotes and
parentheses. Comments are not known to it.
-/

namespace AtlasDb.Composition

open Core Core.Text

/-! ## The code -/

/-- `text.find(c)` -/
def find (c : Char) (text : List Char) : Option Nat := text.findIdx? (· = c)

/-- `text.rfind(c)` -/
def rfind (c : Char) (text : List Char) : Option Nat :=
  (find c text.reverse).map fun i => text.length - 1 - i

/-- The loop over the text between the parentheses. `current` is what was read since `start`, the
last character first. -/
def splitFrom (quote : Option Char) (depth : Nat) (current : List Char) :
    List Char → List (List Char)
  | [] => if strip current.reverse = [] then [] else [strip current.reverse]
  | c :: cs =>
    match quote with
    | some q =>
      if c = q then
        match cs with
        | [] => splitFrom none depth (c :: current) []
        | next :: rest =>
          if next = q then splitFrom (some q) depth (next :: c :: current) rest
          else splitFrom none depth (c :: current) (next :: rest)
      else splitFrom (some q) depth (c :: current) cs
    | none =>
      if c = '\'' ∨ c = '"' then splitFrom (some c) depth (c :: current) cs
      else if c = '(' then splitFrom none (depth + 1) (c :: current) cs
      else if c = ')' then splitFrom none (depth - 1) (c :: current) cs
      else if c = ',' ∧ depth = 0 then
        strip current.reverse :: splitFrom none depth [] cs
      else splitFrom none depth (c :: current) cs

/-- What is done with the text behind `CALL`. -/
def splitBody (body : List Char) : List Char × List (List Char) :=
  match find '(' body with
  | none => (upper (strip body), [])
  | some openAt =>
    let target := upper (strip (body.take openAt))
    match rfind ')' body with
    | none => (target, [])
    | some closeAt =>
      if closeAt < openAt then (target, [])
      else (target, splitFrom none 0 [] ((body.take closeAt).drop (openAt + 1)))

/-- `_split_call_arguments`: the name of the routine and the arguments. -/
def splitCallArguments (text : List Char) : List Char × List (List Char) :=
  if ['C', 'A', 'L', 'L', ' '].isPrefixOf (strip (upper text)) then
    splitBody (strip ((strip text).drop 5))
  else ([], [])

/-! ## Reading marks -/

/-- The quote a text is in and the depth of its parentheses. -/
structure Marks where
  quote : Option Char
  depth : Nat
deriving DecidableEq

namespace Marks

def outside : Marks := ⟨none, 0⟩

/-- One character, without regard to what follows it. -/
def step : Marks → Char → Marks
  | ⟨some q, depth⟩, c => if c = q then ⟨none, depth⟩ else ⟨some q, depth⟩
  | ⟨none, depth⟩, c =>
    if c = '\'' ∨ c = '"' then ⟨some c, depth⟩
    else if c = '(' then ⟨none, depth + 1⟩
    else if c = ')' then ⟨none, depth - 1⟩
    else ⟨none, depth⟩

/-- The marks after a text. -/
def read (m : Marks) (text : List Char) : Marks := text.foldl step m

/-- No comma of the text stands outside quotes and parentheses. -/
def hidesCommas (m : Marks) : List Char → Bool
  | [] => true
  | c :: cs => !(m = outside && c = ',') && (m.step c).hidesCommas cs

end Marks

open Marks

/-- The loop without the case for a doubled quote, which it reads as an end and a new start. -/
def splitMarks (m : Marks) (current : List Char) : List Char → List (List Char)
  | [] => if strip current.reverse = [] then [] else [strip current.reverse]
  | c :: cs =>
    if m = outside ∧ c = ',' then strip current.reverse :: splitMarks outside [] cs
    else splitMarks (m.step c) (c :: current) cs

def isQuote (c : Char) : Bool := c = '\'' || c = '"'

theorem splitMarks_quoted {q c : Char} {depth : Nat} {current cs : List Char} :
    splitMarks ⟨some q, depth⟩ current (c :: cs) =
      splitMarks (if c = q then ⟨none, depth⟩ else ⟨some q, depth⟩) (c :: current) cs := by
  rw [splitMarks, if_neg (by simp [outside])]
  rfl

/-- The splitter is the reading of marks. -/
theorem splitFrom_eq (quote : Option Char) (hquote : ∀ q ∈ quote, isQuote q = true) (depth : Nat)
    (current text : List Char) :
    splitFrom quote depth current text = splitMarks ⟨quote, depth⟩ current text := by
  induction quote, depth, current, text using splitFrom.induct with
  | case1 quote depth current hblank => rw [splitFrom, splitMarks]
  | case2 quote depth current hblank => rw [splitFrom, splitMarks]
  | case3 depth current q ih =>
    rw [splitFrom, if_pos rfl, splitMarks_quoted, if_pos rfl]
    exact ih nofun
  | case4 depth current q rest ih =>
    -- A doubled quote ends the literal and begins it again.
    have hq : isQuote q = true := hquote q rfl
    have hcomma : q ≠ ',' := by
      rintro rfl
      cases hq
    rw [splitFrom, if_pos rfl, splitMarks_quoted, if_pos rfl, splitMarks,
      if_neg fun h => hcomma h.2, ih hquote]
    have hopen : q = '\'' ∨ q = '"' := by simpa [isQuote] using hq
    simp [step, hopen]
  | case5 depth current q next rest hnext ih =>
    rw [splitFrom, if_pos rfl, if_neg hnext, splitMarks_quoted, if_pos rfl]
    exact ih nofun
  | case6 depth current c rest q hc ih =>
    rw [splitFrom.eq_def]
    dsimp only
    rw [if_neg hc, splitMarks_quoted, if_neg hc]
    exact ih hquote
  | case7 depth current c rest hc ih =>
    have hcomma : c ≠ ',' := by
      rintro rfl
      simp at hc
    rw [splitFrom, if_pos hc, splitMarks, if_neg fun h => hcomma h.2,
      ih (by simpa [isQuote] using hc)]
    simp [step, hc]
  | case8 depth current rest hc ih =>
    rw [splitFrom, if_neg hc, if_pos rfl, splitMarks, if_neg (by simp), ih nofun]
    rfl
  | case9 depth current rest hc hopen ih =>
    rw [splitFrom, if_neg hc, if_neg hopen, if_pos rfl, splitMarks, if_neg (by simp), ih nofun]
    rfl
  | case10 depth current c rest hc hopen hclose hcomma ih =>
    obtain ⟨rfl, rfl⟩ := hcomma
    rw [splitFrom, if_neg hc, if_neg hopen, if_neg hclose, if_pos ⟨rfl, rfl⟩, splitMarks,
      if_pos ⟨rfl, rfl⟩, ih nofun]
    rfl
  | case11 depth current c rest hc hopen hclose hcomma ih =>
    rw [splitFrom, if_neg hc, if_neg hopen, if_neg hclose, if_neg hcomma, splitMarks,
      if_neg (by simpa [outside, and_comm] using hcomma), ih nofun]
    simp [step, hc, hopen, hclose]

/-! ## Counting characters -/

theorem countP_dropWhile {p : Char → Bool} (hp : ∀ c, isSpace c = true → p c = false)
    (text : List Char) : (text.dropWhile isSpace).countP p = text.countP p := by
  have htake : (text.takeWhile isSpace).countP p = 0 := by
    rw [List.countP_eq_zero]
    intro c hc
    simp [hp c (List.mem_takeWhile_imp hc)]
  calc (text.dropWhile isSpace).countP p
      = (text.takeWhile isSpace).countP p + (text.dropWhile isSpace).countP p := by
        rw [htake, Nat.zero_add]
    _ = text.countP p := by rw [← List.countP_append, List.takeWhile_append_dropWhile]

theorem countP_strip {p : Char → Bool} (hp : ∀ c, isSpace c = true → p c = false)
    (text : List Char) : (strip text).countP p = text.countP p := by
  rw [strip, stripBy, List.countP_reverse, countP_dropWhile hp, List.countP_reverse,
    countP_dropWhile hp]

/-- The number of characters that are no white space. -/
def weight (text : List Char) : Nat := text.countP fun c => !isSpace c

theorem weight_append (xs ys : List Char) : weight (xs ++ ys) = weight xs + weight ys :=
  List.countP_append

theorem weight_reverse (text : List Char) : weight text.reverse = weight text := List.countP_reverse

theorem weight_strip (text : List Char) : weight (strip text) = weight text :=
  countP_strip (fun c hc => by simp [hc]) text

theorem weight_cons (c : Char) (text : List Char) : weight (c :: text) = weight [c] + weight text :=
  weight_append [c] text

theorem weight_of_not_isSpace {c : Char} (hc : isSpace c = false) : weight [c] = 1 := by
  simp [weight, hc]

theorem weight_eq_zero {text : List Char} : weight text = 0 ↔ ∀ c ∈ text, isSpace c = true := by
  simp [weight]

theorem strip_eq_nil_iff {text : List Char} : strip text = [] ↔ weight text = 0 := by
  constructor
  · intro h
    rw [← weight_strip, h]
    rfl
  · intro h
    rw [← weight_strip] at h
    cases hstrip : strip text with
    | nil => rfl
    | cons c cs =>
      have hc : isSpace c = false := @head_strip text c (by rw [hstrip]; rfl)
      rw [hstrip, weight_cons, weight_of_not_isSpace hc] at h
      omega

/-! ## Cutting at the commas -/

section Cutting

variable {m : Marks} {current text rest : List Char}

theorem hidesCommas_of_notMem (h : ',' ∉ text) (m : Marks) : m.hidesCommas text = true := by
  induction text generalizing m with
  | nil => rfl
  | cons c text ih =>
    rw [List.mem_cons, not_or] at h
    obtain ⟨hc, htext⟩ := h
    rw [hidesCommas, ih htext]
    simp [Ne.symm hc]

theorem splitMarks_hides {a : List Char} (h : m.hidesCommas a = true) :
    splitMarks m current (a ++ rest) = splitMarks (m.read a) (a.reverse ++ current) rest := by
  induction a generalizing m current with
  | nil => rfl
  | cons c a ih =>
    obtain ⟨hc, ha⟩ := Bool.and_eq_true_iff.mp h
    have hnot : ¬ (m = outside ∧ c = ',') := fun h => by simp [h.1, h.2] at hc
    rw [List.cons_append, splitMarks, if_neg hnot, ih ha, List.reverse_cons, List.append_assoc]
    rfl

theorem splitMarks_exposed {a : List Char} (h : m.hidesCommas a = false) :
    ∃ v vs, splitMarks m current (a ++ rest) = v :: vs ∧ weight v < weight current + weight a := by
  induction a generalizing m current with
  | nil => cases h
  | cons c a ih =>
    rw [List.cons_append, splitMarks, weight_cons]
    by_cases hc : m = outside ∧ c = ','
    · obtain ⟨rfl, rfl⟩ := hc
      have hcomma : weight [','] = 1 := by decide
      refine ⟨strip current.reverse, splitMarks outside [] (a ++ rest), if_pos ⟨rfl, rfl⟩, ?_⟩
      rw [weight_strip, weight_reverse, hcomma]
      omega
    · rw [if_neg hc]
      have ha : (m.step c).hidesCommas a = false := by
        rw [hidesCommas, Bool.and_eq_false_iff] at h
        exact h.resolve_left (by simpa using hc)
      obtain ⟨v, vs, hsplit, hlt⟩ := @ih _ (c :: current) ha
      refine ⟨v, vs, hsplit, ?_⟩
      rw [weight_cons] at hlt
      omega

theorem weight_head {v : List Char} {vs : List (List Char)}
    (h : splitMarks m current text = v :: vs) :
    weight current ≤ weight v := by
  induction text generalizing m current with
  | nil =>
    rw [splitMarks] at h
    split at h
    · cases h
    · cases h
      rw [weight_strip, weight_reverse]
  | cons c text ih =>
    rw [splitMarks] at h
    split at h
    · cases h
      rw [weight_strip, weight_reverse]
    · have hle := ih h
      rw [weight_cons] at hle
      omega

theorem weight_le (m : Marks) (current text : List Char) : weight current + weight text ≤
    ((splitMarks m current text).map weight).sum + (splitMarks m current text).length := by
  induction text generalizing m current with
  | nil =>
    have hnil : weight [] = 0 := rfl
    rw [splitMarks]
    split
    · next hblank =>
        rw [strip_eq_nil_iff, weight_reverse] at hblank
        omega
    · simp [weight_strip, weight_reverse, hnil]
  | cons c text ih =>
    rw [splitMarks]
    split
    · next hcomma =>
        have hc : weight (c :: text) = 1 + weight text := by
          rw [weight_cons, hcomma.2]
          rfl
        have hle := ih outside []
        have hnil : weight [] = 0 := rfl
        simp only [List.map_cons, List.sum_cons, List.length_cons, weight_strip, weight_reverse]
        omega
    · have hle := ih (m.step c) (c :: current)
      rw [weight_cons] at hle
      rw [weight_cons]
      omega

/-- No weight is lost by splitting. -/
theorem weight_succ_le (m : Marks) (current text : List Char) {c : Char} {blank : List Char}
    (hc : isSpace c = false) (hcomma : c ≠ ',') (hblank : weight blank = 0) :
    weight current + weight (text ++ c :: blank) + 1 ≤
      ((splitMarks m current (text ++ c :: blank)).map weight).sum +
        (splitMarks m current (text ++ c :: blank)).length := by
  have hone := weight_of_not_isSpace hc
  induction text generalizing m current with
  | nil =>
    have hhides : m.hidesCommas (c :: blank) = true := by
      refine hidesCommas_of_notMem (fun h => ?_) m
      rcases List.mem_cons.mp h with h | h
      · exact hcomma h.symm
      · exact absurd (weight_eq_zero.mp hblank ',' h) (by decide)
    have hsplit : splitMarks m current (c :: blank ++ []) = _ := splitMarks_hides hhides
    rw [List.append_nil] at hsplit
    rw [List.nil_append, hsplit, splitMarks, if_neg]
    · simp only [List.map_cons, List.map_nil, List.sum_cons, List.sum_nil, List.length_singleton,
        weight_strip, weight_reverse, weight_append]
      omega
    · rw [strip_eq_nil_iff, weight_reverse, weight_append, weight_reverse, weight_cons]
      omega
  | cons d text ih =>
    rw [List.cons_append, splitMarks]
    split
    · next hd =>
        have hweight : weight (d :: (text ++ c :: blank)) = 1 + weight (text ++ c :: blank) := by
          rw [weight_cons, hd.2]
          rfl
        have hle := ih outside []
        have hnil : weight [] = 0 := rfl
        simp only [List.map_cons, List.sum_cons, List.length_cons, weight_strip, weight_reverse]
        omega
    · have hle := ih (m.step d) (d :: current)
      rw [weight_cons] at hle
      rw [weight_cons]
      omega

/-! ## Arguments joined with commas -/

/-- The text of a list of arguments. -/
def joinArguments (first : List Char) : List (List Char) → List Char
  | [] => first
  | next :: more => first ++ ',' :: joinArguments next more

/-- Read without regard to comments, the commas between the arguments and no others are outside
quotes and parentheses. -/
def separates (first : List Char) : List (List Char) → Bool
  | [] => outside.hidesCommas first
  | next :: more =>
    outside.hidesCommas first && outside.read first = outside && separates next more

/-- The arguments are what is cut out exactly when their own commas are hidden and those between
them are not. -/
theorem splitMarks_join {first : List Char} {more : List (List Char)}
    (hfirst : strip first ≠ []) (hmore : ∀ x ∈ more, strip x ≠ []) :
    splitMarks outside [] (joinArguments first more) = (first :: more).map strip ↔
      separates first more = true := by
  induction more generalizing first with
  | nil =>
    rw [joinArguments, separates]
    cases hhides : outside.hidesCommas first with
    | true =>
      have hsplit : splitMarks outside [] (first ++ []) = _ := splitMarks_hides hhides
      rw [List.append_nil] at hsplit
      simp [hsplit, splitMarks, hfirst]
    | false =>
      obtain ⟨v, vs, hsplit, hlt⟩ := @splitMarks_exposed outside [] [] first hhides
      rw [List.append_nil] at hsplit
      rw [hsplit]
      refine iff_of_false (fun h => ?_) (by simp)
      obtain ⟨rfl, -⟩ := List.cons.inj h
      rw [weight_strip] at hlt
      simp [weight] at hlt
  | cons next more ih =>
    rw [joinArguments, separates, Bool.and_eq_true, Bool.and_eq_true, decide_eq_true_eq,
      List.map_cons]
    cases hhides : outside.hidesCommas first with
    | false =>
      obtain ⟨v, vs, hsplit, hlt⟩ :=
        @splitMarks_exposed outside [] (',' :: joinArguments next more) first hhides
      rw [hsplit]
      refine iff_of_false (fun h => ?_) (by simp)
      obtain ⟨rfl, -⟩ := List.cons.inj h
      rw [weight_strip] at hlt
      simp [weight] at hlt
    | true =>
      rw [splitMarks_hides hhides, splitMarks]
      by_cases hclosed : outside.read first = outside
      · rw [if_pos ⟨hclosed, rfl⟩, List.cons.injEq,
          ih (hmore next List.mem_cons_self) fun x hx => hmore x (List.mem_cons_of_mem _ hx)]
        simp [hclosed]
      · rw [if_neg fun h => hclosed h.1]
        refine iff_of_false (fun h => ?_) fun h => hclosed h.1.2
        -- The comma is read as a part of the first value.
        have hle := weight_head h
        rw [List.append_nil, weight_cons, weight_reverse, weight_strip] at hle
        have hcomma : weight [','] = 1 := by decide
        omega

theorem splitMarks_eq_nil : splitMarks m [] text = [] ↔ strip text = [] := by
  rw [strip_eq_nil_iff]
  constructor
  · intro h
    have hle := weight_le m [] text
    rw [h] at hle
    simpa using Nat.le_zero.mp ((Nat.le_add_left _ _).trans hle)
  · intro h
    have hhides : m.hidesCommas text = true :=
      hidesCommas_of_notMem (fun hcomma => absurd (weight_eq_zero.mp h ',' hcomma) (by decide)) m
    have hsplit : splitMarks m [] (text ++ []) = _ := splitMarks_hides hhides
    rw [List.append_nil] at hsplit
    rw [hsplit, splitMarks, if_pos]
    rw [strip_eq_nil_iff, weight_reverse, List.append_nil, weight_reverse, h]

theorem weight_join (first : List Char) (more : List (List Char)) :
    weight (joinArguments first more) + 1 =
      (((first :: more).map strip).map weight).sum + ((first :: more).map strip).length := by
  induction more generalizing first with
  | nil => simp [joinArguments, weight_strip]
  | cons next more ih =>
    have hcomma : weight [','] = 1 := by decide
    rw [joinArguments, weight_append, weight_cons, List.map_cons, List.map_cons, List.sum_cons,
      List.length_cons, weight_strip]
    have hih := ih next
    omega

end Cutting

/-! ## Cutting at the parentheses -/

section Parentheses

variable {c : Char} {before after : List Char}

variable {text : List Char}

theorem find_none (h : c ∉ text) : find c text = none := by
  rw [find, List.findIdx?_eq_none_iff]
  rintro x hx
  simpa using fun heq : x = c => h (heq ▸ hx)

theorem find_first (h : c ∉ before) : find c (before ++ c :: after) = some before.length := by
  induction before with
  | nil => rw [List.nil_append, find, List.findIdx?_cons, if_pos (by simp)]; rfl
  | cons x before ih =>
    rw [List.mem_cons, not_or] at h
    have hih := ih h.2
    rw [find] at hih
    rw [find, List.cons_append, List.findIdx?_cons, hih]
    simp [Ne.symm h.1]

theorem rfind_none (h : c ∉ text) : rfind c text = none := by
  rw [rfind, find_none (by simpa using h)]
  rfl

theorem rfind_last (h : c ∉ after) : rfind c (before ++ c :: after) = some before.length := by
  have hreverse : (before ++ c :: after).reverse = after.reverse ++ c :: before.reverse := by simp
  rw [rfind, hreverse, find_first (by simpa using h)]
  simp only [Option.map_some, List.length_append, List.length_cons, List.length_reverse]
  congr 1
  omega

theorem exists_last (h : c ∈ text) :
    ∃ before after, text = before ++ c :: after ∧ c ∉ after := by
  obtain ⟨xs, ys, heq, hnot⟩ := List.eq_append_cons_of_mem (List.mem_reverse.mpr h)
  refine ⟨ys.reverse, xs.reverse, ?_, by simpa using hnot⟩
  rw [← List.reverse_reverse text, heq]
  simp

/-- The text without the white space at its end. -/
def stripRight (text : List Char) : List Char := (text.reverse.dropWhile isSpace).reverse

theorem dropWhile_append_mark (hc : isSpace c = false) (xs ys : List Char) :
    (xs ++ c :: ys).dropWhile isSpace = xs.dropWhile isSpace ++ c :: ys := by
  induction xs with
  | nil => simp [hc]
  | cons x xs ih =>
    rw [List.cons_append, List.dropWhile_cons, List.dropWhile_cons]
    split
    · exact ih
    · rfl

theorem stripRight_append_mark (hc : isSpace c = false) (xs ys : List Char) :
    stripRight (xs ++ c :: ys) = xs ++ c :: stripRight ys := by
  have hreverse : (xs ++ c :: ys).reverse = ys.reverse ++ c :: xs.reverse := by simp
  rw [stripRight, hreverse, dropWhile_append_mark hc]
  simp [stripRight]

theorem strip_append_mark (hc : isSpace c = false) (xs ys : List Char) :
    strip (xs ++ c :: ys) = xs.dropWhile isSpace ++ c :: stripRight ys := by
  rw [strip, stripBy, dropWhile_append_mark hc]
  exact stripRight_append_mark hc _ _

theorem strip_dropWhile (text : List Char) : strip (text.dropWhile isSpace) = strip text := by
  rw [strip, strip, stripBy, stripBy, dropWhile_eq_self head_dropWhile]

theorem notMem_stripRight (h : c ∉ text) : c ∉ stripRight text := by
  intro hmem
  rw [stripRight, List.mem_reverse] at hmem
  exact h (List.mem_reverse.mp ((List.dropWhile_sublist _).subset hmem))

theorem notMem_dropWhile (h : c ∉ text) : c ∉ text.dropWhile isSpace :=
  fun hmem => h ((List.dropWhile_sublist _).subset hmem)

theorem notMem_strip (h : c ∉ text) : c ∉ strip text :=
  notMem_stripRight (notMem_dropWhile h)

theorem splitBody_name (h : '(' ∉ text) :
    splitBody (strip text) = (upper (strip text), []) := by
  rw [splitBody, find_none (notMem_strip h), strip_strip]

theorem splitBody_open (hbefore : '(' ∉ before) (hafter : ')' ∉ after) :
    splitBody (strip (before ++ '(' :: after)) = (upper (strip before), []) := by
  rw [strip_append_mark (by decide), splitBody, find_first (notMem_dropWhile hbefore)]
  dsimp only
  rw [List.take_left, strip_dropWhile]
  by_cases hmem : ')' ∈ before.dropWhile isSpace
  · obtain ⟨xs, ys, heq, hys⟩ := exists_last hmem
    have hlast : ')' ∉ ys ++ '(' :: stripRight after := by
      simpa using ⟨hys, notMem_stripRight hafter⟩
    rw [heq, List.append_assoc, List.cons_append, rfind_last hlast]
    dsimp only
    rw [if_pos (by simp)]
  · have hnone : ')' ∉ before.dropWhile isSpace ++ '(' :: stripRight after := by
      simpa using ⟨hmem, notMem_stripRight hafter⟩
    rw [rfind_none hnone]

theorem splitBody_closed {inside tail : List Char} (hbefore : '(' ∉ before) (htail : ')' ∉ tail) :
    splitBody (strip (before ++ '(' :: (inside ++ ')' :: tail))) =
      (upper (strip before), splitMarks outside [] inside) := by
  rw [strip_append_mark (by decide), stripRight_append_mark (by decide), splitBody,
    find_first (notMem_dropWhile hbefore)]
  dsimp only
  have hlast := @rfind_last ')' (before.dropWhile isSpace ++ '(' :: inside) (stripRight tail)
    (notMem_stripRight htail)
  rw [List.append_assoc, List.cons_append] at hlast
  rw [List.take_left, strip_dropWhile, hlast]
  dsimp only
  rw [if_neg (by simp), ← List.cons_append, ← List.append_assoc, List.take_left,
    splitFrom_eq none nofun]
  congr 2
  rw [← List.drop_drop, List.drop_left]
  rfl

end Parentheses

/-! ## White space around a text -/

section Blank

/-- The text has white space only. -/
def isBlank (text : List Char) : Bool := text.all isSpace

variable {text blank : List Char}

theorem isBlank_iff : isBlank text = true ↔ weight text = 0 := by
  rw [weight_eq_zero, isBlank, List.all_eq_true]

theorem isBlank_append {xs ys : List Char} :
    isBlank (xs ++ ys) = true ↔ isBlank xs = true ∧ isBlank ys = true := by
  rw [isBlank, List.all_append, Bool.and_eq_true]
  rfl

theorem notMem_of_isBlank {c : Char} (hc : isSpace c = false) (h : isBlank text = true) :
    c ∉ text := by
  intro hmem
  have hspace := List.all_eq_true.mp h c hmem
  rw [hc] at hspace
  cases hspace

theorem dropWhile_blank (h : isBlank blank = true) (text : List Char) :
    (blank ++ text).dropWhile isSpace = text.dropWhile isSpace :=
  List.dropWhile_append_of_pos fun c hc => List.all_eq_true.mp h c hc

theorem strip_blank_append (h : isBlank blank = true) (text : List Char) :
    strip (blank ++ text) = strip text := by
  rw [strip, strip, stripBy, stripBy, dropWhile_blank h]

theorem stripRight_append_blank (h : isBlank blank = true) (text : List Char) :
    stripRight (text ++ blank) = stripRight text := by
  rw [stripRight, stripRight, List.reverse_append, dropWhile_blank]
  rw [isBlank, List.all_reverse]
  exact h

theorem stripRight_stripRight (text : List Char) :
    stripRight (stripRight text) = stripRight text := by
  rw [stripRight, stripRight, List.reverse_reverse, dropWhile_eq_self head_dropWhile]

theorem blank_or_mark (text : List Char) : isBlank text = true ∨
    ∃ blank c rest, text = blank ++ c :: rest ∧ isBlank blank = true ∧ isSpace c = false := by
  cases hdrop : text.dropWhile isSpace with
  | nil =>
    refine .inl (List.all_eq_true.mpr fun c hc => ?_)
    exact List.dropWhile_eq_nil_iff.mp hdrop c hc
  | cons c rest =>
    refine .inr ⟨text.takeWhile isSpace, c, rest, ?_, List.all_eq_true.mpr fun x hx =>
      List.mem_takeWhile_imp hx, @head_dropWhile isSpace text c (by rw [hdrop]; rfl)⟩
    rw [← hdrop, List.takeWhile_append_dropWhile]

theorem strip_append_blank (h : isBlank blank = true) (text : List Char) :
    strip (text ++ blank) = strip text := by
  rcases blank_or_mark text with htext | ⟨front, c, rest, rfl, -, hc⟩
  · rw [strip_eq_nil_iff.mpr (isBlank_iff.mp htext),
      strip_eq_nil_iff.mpr (isBlank_iff.mp (isBlank_append.mpr ⟨htext, h⟩))]
  · rw [List.append_assoc, List.cons_append, strip_append_mark hc, strip_append_mark hc,
      stripRight_append_blank h]

theorem strip_stripRight (text : List Char) : strip (stripRight text) = strip text := by
  rcases blank_or_mark text with htext | ⟨front, c, rest, rfl, -, hc⟩
  · have hright : stripRight text = [] := by
      have h := stripRight_append_blank htext []
      rwa [List.nil_append] at h
    rw [hright, strip_eq_nil_iff.mpr (isBlank_iff.mp htext)]
    rfl
  · rw [stripRight_append_mark hc, strip_append_mark hc, strip_append_mark hc,
      stripRight_stripRight]

end Blank

end AtlasDb.Composition
