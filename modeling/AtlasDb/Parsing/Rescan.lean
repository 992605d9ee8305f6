import AtlasDb.Parsing.Bindings
import Mathlib.Data.List.TakeWhile

/-!
# Scanning a slice again

Bindings keep slices of the source and later passes scan these again. A slice that starts and ends
with a token gives the tokens it was cut from (`Within.textForTokens`): the scanner looks one
character ahead, so what follows a token matters only by that character (`Calm`).
-/

namespace AtlasDb.Parsing

open Core

/-- A token without its place. -/
def Token.bare (t : Token) : Token := { t with offset := 0 }

/-! ## One turn of the loop -/

/-- What one turn of `scan` reads, its token if it reads one, and what follows. -/
def lexStep (c : Char) (cs : List Char) : Option Token × List Char :=
  if Text.isSpace c then (none, cs)
  else if c = '-' ∧ cs.head? = some '-' then (none, cs.dropWhile (· ≠ '\n'))
  else if c = '/' ∧ cs.head? = some '*' then (none, (skipComment 1 cs.tail).1)
  else if c = '\'' then
    let raw := String.ofList (readQuoted '\'' [c] cs).1.reverse
    (some ⟨.string, raw, raw, 0⟩, (readQuoted '\'' [c] cs).2.1)
  else if c = '"' then
    (some (foldedToken .quotedIdentifier (readQuoted '"' [c] cs).1.reverse 0),
      (readQuoted '"' [c] cs).2.1)
  else if isWordStart c then
    (some (foldedToken .word (c :: cs.takeWhile isWordPart) 0), cs.dropWhile isWordPart)
  else if c.isDigit then
    (some (foldedToken .number (c :: cs.takeWhile isNumberPart) 0), cs.dropWhile isNumberPart)
  else if (c :: cs.take 1) ∈ twoCharSymbols then
    let symbol := String.ofList (c :: cs.take 1)
    (some ⟨.symbol, symbol, symbol, 0⟩, cs.tail)
  else (some ⟨.symbol, String.singleton c, String.singleton c, 0⟩, cs)

/-- The token at its place in a text of this length, what follows being so long. -/
def Token.placed (t : Token) (total remaining : Nat) : Token :=
  { t with offset := total - remaining }

theorem scanLoop_cons (total fuel : Nat) (c : Char) (cs : List Char) :
    (scanLoop total (fuel + 1) (c :: cs)).tokens =
      ((lexStep c cs).1.map fun t => t.placed total (cs.length + 1)).toList ++
        (scanLoop total fuel (lexStep c cs).2).tokens := by
  rw [scanLoop, lexStep]
  dsimp only
  split
  · rfl
  split
  · rfl
  split
  · rfl
  split
  · rfl
  split
  · rfl
  split
  · rfl
  split
  · rfl
  split
  · rfl
  · rfl

/-! ## What a turn leaves -/

theorem readQuoted_append (quote : Char) (acc cs : List Char) :
    (readQuoted quote acc cs).1.reverse ++ (readQuoted quote acc cs).2.1 = acc.reverse ++ cs := by
  fun_induction readQuoted quote acc cs with
  | case1 => rfl
  | case2 acc cs ih => simpa using ih
  | case3 => simp
  | case4 => simp
  | case5 acc c cs hc ih => simpa using ih

theorem readQuoted_suffix (quote : Char) (acc cs : List Char) :
    (readQuoted quote acc cs).2.1 <:+ cs := by
  fun_induction readQuoted quote acc cs with
  | case1 => exact List.suffix_rfl
  | case2 acc cs ih => exact ih.trans (by simp [List.suffix_cons_iff])
  | case3 => exact List.suffix_cons _ _
  | case4 => exact List.suffix_cons _ _
  | case5 acc c cs hc ih => exact ih.trans (List.suffix_cons c cs)

theorem skipComment_suffix (depth : Nat) (cs : List Char) : (skipComment depth cs).1 <:+ cs := by
  fun_induction skipComment depth cs with
  | case1 => exact List.suffix_rfl
  | case2 => exact List.suffix_rfl
  | case3 depth cs ih => exact ih.trans (by simp [List.suffix_cons_iff])
  | case4 depth cs ih => exact ih.trans (by simp [List.suffix_cons_iff])
  | case5 depth c cs _ _ ih => exact ih.trans (List.suffix_cons c cs)

theorem lexStep_token {c : Char} {cs rest : List Char} {t : Token}
    (h : lexStep c cs = (some t, rest)) : t.value.toList ++ rest = c :: cs := by
  have hquoted (quote : Char) := readQuoted_append quote [c] cs
  revert h
  unfold lexStep
  dsimp only
  split
  · exact fun h => nomatch h
  split
  · exact fun h => nomatch h
  split
  · exact fun h => nomatch h
  split
  · rintro ⟨⟩
    simpa using hquoted '\''
  split
  · rintro ⟨⟩
    simpa [foldedToken] using hquoted '"'
  split
  · rintro ⟨⟩
    simp [foldedToken]
  split
  · rintro ⟨⟩
    simp [foldedToken]
  split
  · rintro ⟨⟩
    simpa [List.drop_one] using List.take_append_drop 1 cs
  · rintro ⟨⟩
    simp

theorem lexStep_suffix (c : Char) (cs : List Char) : (lexStep c cs).2 <:+ cs := by
  unfold lexStep
  dsimp only
  split
  · exact List.suffix_rfl
  split
  · exact List.dropWhile_suffix _
  split
  · exact (skipComment_suffix 1 cs.tail).trans (List.tail_suffix cs)
  split
  · exact readQuoted_suffix _ _ _
  split
  · exact readQuoted_suffix _ _ _
  split
  · exact List.dropWhile_suffix _
  split
  · exact List.dropWhile_suffix _
  split
  · exact List.tail_suffix cs
  · exact List.suffix_rfl

theorem suffix_of_step {c : Char} {cs rest : List Char} {o : Option Token}
    (h : lexStep c cs = (o, rest)) : rest <:+ cs := by
  have hsuffix := lexStep_suffix c cs
  rwa [h] at hsuffix

/-! ## Readings -/

/-- From the first text the scanner reads the tokens and comes to the second one. -/
inductive Reads (total : Nat) : List Char → List Token → List Char → Prop where
  | refl (text : List Char) : Reads total text [] text
  | skip {c : Char} {cs rest : List Char} {ts : List Token} {w : List Char}
      (step : lexStep c cs = (none, rest)) (h : Reads total rest ts w) : Reads total (c :: cs) ts w
  | token {c : Char} {cs rest : List Char} {t : Token} {ts : List Token} {w : List Char}
      (step : lexStep c cs = (some t, rest)) (h : Reads total rest ts w) :
      Reads total (c :: cs) (t.placed total (cs.length + 1) :: ts) w

namespace Reads

variable {total : Nat} {text middle w : List Char} {ts us : List Token}

theorem suffix (h : Reads total text ts w) : w <:+ text := by
  induction h with
  | refl => exact List.suffix_rfl
  | @skip c cs _ _ _ step _ ih =>
    exact (ih.trans (suffix_of_step step)).trans (List.suffix_cons c cs)
  | @token c cs _ _ _ _ step _ ih =>
    exact (ih.trans (suffix_of_step step)).trans (List.suffix_cons c cs)

theorem append (h : Reads total text ts middle) (h' : Reads total middle us w) :
    Reads total text (ts ++ us) w := by
  induction h with
  | refl => exact h'
  | skip step _ ih => exact .skip step (ih h')
  | token step _ ih => exact .token step (ih h')

theorem split (h : Reads total text (ts ++ us) w) :
    ∃ middle, Reads total text ts middle ∧ Reads total middle us w := by
  generalize hall : ts ++ us = all at h
  induction h generalizing ts with
  | refl text =>
    obtain ⟨rfl, rfl⟩ := List.append_eq_nil_iff.mp hall
    exact ⟨text, .refl text, .refl text⟩
  | @skip c cs rest all w step h ih =>
    cases ts with
    | nil =>
      rw [List.nil_append] at hall
      exact ⟨c :: cs, .refl _, hall ▸ .skip step h⟩
    | cons t ts =>
      obtain ⟨middle, hts, hus⟩ := ih hall
      exact ⟨middle, .skip step hts, hus⟩
  | @token c cs rest t all w step h ih =>
    cases ts with
    | nil =>
      rw [List.nil_append] at hall
      exact ⟨c :: cs, .refl _, hall ▸ .token step h⟩
    | cons t' ts =>
      obtain ⟨rfl, hrest⟩ := List.cons.inj hall
      obtain ⟨middle, hts, hus⟩ := ih hrest
      exact ⟨middle, .token step hts, hus⟩

theorem next {t : Token} (h : Reads total text (t :: ts) w) :
    ∃ c cs t' rest, Reads total text [] (c :: cs) ∧ lexStep c cs = (some t', rest) ∧
      t = t'.placed total (cs.length + 1) ∧ Reads total rest ts w := by
  generalize hall : t :: ts = all at h
  induction h with
  | refl => exact nomatch hall
  | skip step _ ih =>
    obtain ⟨c, cs, t', rest, hskip, hnext⟩ := ih hall
    exact ⟨c, cs, t', rest, .skip step hskip, hnext⟩
  | @token c cs rest t' all w step h ih =>
    obtain ⟨rfl, rfl⟩ := List.cons.inj hall
    exact ⟨c, cs, t', rest, .refl _, step, rfl, h⟩

end Reads

theorem reads_scanLoop {total fuel : Nat} {text : List Char} (h : text.length ≤ fuel) :
    Reads total text (scanLoop total fuel text).tokens [] := by
  induction fuel generalizing text with
  | zero =>
    obtain rfl := List.length_eq_zero_iff.mp (Nat.le_zero.mp h)
    exact .refl _
  | succ fuel ih =>
    cases text with
    | nil => exact .refl _
    | cons c cs =>
      have hle : (lexStep c cs).2.length ≤ fuel :=
        Nat.le_trans (lexStep_suffix c cs).length_le (Nat.le_of_succ_le_succ h)
      have hrest := ih hle
      rw [scanLoop_cons]
      cases hstep : lexStep c cs with
      | mk o rest =>
        rw [hstep] at hrest
        cases o with
        | none => exact .skip hstep hrest
        | some t => exact .token hstep hrest

theorem Reads.scanLoop_eq {total total' fuel : Nat} {text : List Char} {ts : List Token}
    (h : Reads total text ts []) (hfuel : text.length ≤ fuel) :
    (scanLoop total' fuel text).tokens.map Token.bare = ts.map Token.bare := by
  generalize hw : ([] : List Char) = w at h
  induction h generalizing fuel with
  | refl =>
    subst hw
    cases fuel with
    | zero => rfl
    | succ fuel => rfl
  | @skip c cs rest ts w step h ih =>
    obtain ⟨fuel, rfl⟩ := Nat.exists_eq_succ_of_ne_zero (Nat.ne_of_gt (Nat.lt_of_lt_of_le
      (Nat.succ_pos _) hfuel))
    have hle : rest.length ≤ fuel := by
      have := (suffix_of_step step).length_le
      simp only [List.length_cons] at hfuel
      omega
    rw [scanLoop_cons, step]
    exact ih hle hw
  | @token c cs rest t ts w step h ih =>
    obtain ⟨fuel, rfl⟩ := Nat.exists_eq_succ_of_ne_zero (Nat.ne_of_gt (Nat.lt_of_lt_of_le
      (Nat.succ_pos _) hfuel))
    have hle : rest.length ≤ fuel := by
      have := (suffix_of_step step).length_le
      simp only [List.length_cons] at hfuel
      omega
    rw [scanLoop_cons, step]
    simp [ih hle hw, Token.bare, Token.placed]

/-! ## What follows a turn -/

/-- The second text starts with nothing that would go on a lexeme the first one ends. -/
structure Calm (w w' : List Char) : Prop where
  word : ∀ y ∈ w'.head?, isWordPart y → ∃ x ∈ w.head?, isWordPart x
  number : ∀ y ∈ w'.head?, isNumberPart y → ∃ x ∈ w.head?, isNumberPart x
  mark : ∀ y ∈ w'.head?, y ∈ ['\'', '"', '-', '*', '=', '>', '|'] → y ∈ w.head?

theorem not_append_self {u w v : List Char} (h : v <:+ w) (hlt : v.length < w.length) :
    v ≠ u ++ w := by
  rintro rfl
  simp only [List.length_append] at hlt
  omega

section Swap

variable {u w w' : List Char}

variable {cs : List Char}

theorem dropWhile_swap {p : Char → Bool} (hw : w ≠ []) (h : (cs ++ w).dropWhile p = u ++ w)
    (hhead : (∀ x ∈ w.head?, p x = false) → ∀ y ∈ w'.head?, p y = false) :
    (cs ++ w').dropWhile p = u ++ w' ∧ (cs ++ w').takeWhile p = (cs ++ w).takeWhile p := by
  induction cs with
  | nil =>
    obtain ⟨x, xs, rfl⟩ := List.exists_cons_of_ne_nil hw
    have hx : p x = false := by
      by_contra hx
      rw [Bool.not_eq_false] at hx
      rw [List.nil_append, List.dropWhile_cons_of_pos hx] at h
      have hsuffix := List.dropWhile_suffix p (l := xs)
      refine not_append_self (hsuffix.trans (List.suffix_cons x xs)) ?_ h
      have := hsuffix.length_le
      simp only [List.length_cons]
      omega
    have hy := hhead (by simp [hx])
    rw [List.nil_append, List.dropWhile_cons_of_neg (by simp [hx])] at h
    obtain rfl : u = [] := List.self_eq_append_left.mp h
    cases w' with
    | nil => simp [hx]
    | cons y ys =>
      have hpy : p y = false := hy y rfl
      simp [hx, hpy]
  | cons c cs ih =>
    cases hc : p c with
    | true =>
      rw [List.cons_append, List.dropWhile_cons_of_pos hc] at h
      obtain ⟨hdrop, htake⟩ := ih h
      simp [hc, hdrop, htake]
    | false =>
      rw [List.cons_append, List.dropWhile_cons_of_neg (by simp [hc]), ← List.cons_append] at h
      obtain rfl := List.append_cancel_right h
      simp [hc]

theorem skipComment_lt {depth : Nat} (hw : w ≠ []) :
    (skipComment (depth + 1) w).1.length < w.length := by
  generalize hdepth : depth + 1 = d
  have hd : 0 < d := by omega
  clear hdepth depth
  fun_cases skipComment d w with
  | case1 => omega
  | case2 => exact absurd rfl hw
  | case3 depth cs =>
    have := (skipComment_suffix (depth + 2) cs).length_le
    simp only [List.length_cons]
    omega
  | case4 depth cs =>
    have := (skipComment_suffix depth cs).length_le
    simp only [List.length_cons]
    omega
  | case5 depth c cs =>
    have := (skipComment_suffix (depth + 1) cs).length_le
    simp only [List.length_cons]
    omega

theorem skipComment_plain {depth : Nat} {c : Char}
    (hopen : ¬ (c = '/' ∧ cs.head? = some '*')) (hclose : ¬ (c = '*' ∧ cs.head? = some '/')) :
    skipComment (depth + 1) (c :: cs) = skipComment (depth + 1) cs := by
  refine skipComment.eq_5 depth c cs (fun cs' hc hcs => ?_) fun cs' hc hcs => ?_
  · exact hopen ⟨hc, by rw [hcs]; rfl⟩
  · exact hclose ⟨hc, by rw [hcs]; rfl⟩

theorem skipComment_cons_lt {depth : Nat} {c : Char} (hw : w ≠ []) :
    (skipComment (depth + 1) (c :: w)).1.length < w.length := by
  obtain ⟨x, xs, rfl⟩ := List.exists_cons_of_ne_nil hw
  by_cases hopen : c = '/' ∧ x = '*'
  · obtain ⟨rfl, rfl⟩ := hopen
    have := (skipComment_suffix (depth + 2) xs).length_le
    rw [skipComment]
    simp only [List.length_cons]
    omega
  by_cases hclose : c = '*' ∧ x = '/'
  · obtain ⟨rfl, rfl⟩ := hclose
    have := (skipComment_suffix depth xs).length_le
    rw [skipComment]
    simp only [List.length_cons]
    omega
  rw [skipComment_plain (by simpa using hopen) (by simpa using hclose)]
  exact skipComment_lt hw

theorem skipComment_swap (hw : w ≠ []) : ∀ (depth : Nat) (cs : List Char),
    (skipComment depth (cs ++ w)).1 = u ++ w → (skipComment depth (cs ++ w')).1 = u ++ w'
  | 0, cs, h => by
      have h : cs ++ w = u ++ w := by rwa [skipComment] at h
      rw [List.append_cancel_right h, skipComment]
  | depth + 1, [], h => by
      exact absurd h (not_append_self (skipComment_suffix _ _) (skipComment_lt hw))
  | depth + 1, [c], h => by
      have hlt : (skipComment (depth + 1) (c :: w)).1.length < w.length := skipComment_cons_lt hw
      have hlength := congrArg List.length h
      simp only [List.cons_append, List.nil_append, List.length_append] at hlength
      omega
  | depth + 1, c :: d :: cs, h => by
      simp only [List.cons_append] at h ⊢
      by_cases hopen : c = '/' ∧ d = '*'
      · obtain ⟨rfl, rfl⟩ := hopen
        rw [skipComment] at h ⊢
        exact skipComment_swap hw (depth + 2) cs h
      by_cases hclose : c = '*' ∧ d = '/'
      · obtain ⟨rfl, rfl⟩ := hclose
        rw [skipComment] at h ⊢
        exact skipComment_swap hw depth cs h
      rw [skipComment_plain (by simpa using hopen) (by simpa using hclose)] at h ⊢
      exact skipComment_swap hw (depth + 1) (d :: cs) h

theorem readQuoted_other {quote c : Char} (hc : c ≠ quote) (acc cs : List Char) :
    readQuoted quote acc (c :: cs) = readQuoted quote (c :: acc) cs := by
  rw [readQuoted.eq_def]
  exact if_neg hc

theorem readQuoted_doubled (quote : Char) (acc cs : List Char) :
    readQuoted quote acc (quote :: quote :: cs) = readQuoted quote (quote :: quote :: acc) cs := by
  rw [readQuoted.eq_def]
  simp

theorem readQuoted_end {quote : Char} (h : quote ∉ cs.head?) (acc : List Char) :
    readQuoted quote acc (quote :: cs) = (quote :: acc, cs, true) := by
  rw [readQuoted.eq_def]
  cases cs with
  | nil => simp
  | cons c cs =>
    have hc : c ≠ quote := fun hc => h (by simp [hc])
    simp [hc]

theorem readQuoted_lt {quote : Char} {acc : List Char} (hw : w ≠ []) :
    (readQuoted quote acc w).2.1.length < w.length := by
  obtain ⟨x, xs, rfl⟩ := List.exists_cons_of_ne_nil hw
  have hsuffix (acc : List Char) := (readQuoted_suffix quote acc xs).length_le
  by_cases hx : x = quote
  · subst hx
    by_cases hhead : x ∈ xs.head?
    · obtain ⟨ys, rfl⟩ : ∃ ys, xs = x :: ys := by
        cases xs with
        | nil => exact nomatch hhead
        | cons y ys => exact ⟨ys, by rw [Option.some.inj hhead]⟩
      have := (readQuoted_suffix x (x :: x :: acc) ys).length_le
      rw [readQuoted_doubled]
      simp only [List.length_cons]
      omega
    · rw [readQuoted_end hhead]
      simp
  · rw [readQuoted_other hx]
    exact Nat.lt_succ_of_le (hsuffix _)

theorem readQuoted_swap {quote : Char} (hw : w ≠ []) (hhead : quote ∈ w'.head? → quote ∈ w.head?) :
    ∀ (acc cs : List Char), (readQuoted quote acc (cs ++ w)).2.1 = u ++ w →
      (readQuoted quote acc (cs ++ w')).2.1 = u ++ w' ∧
        (readQuoted quote acc (cs ++ w')).1 = (readQuoted quote acc (cs ++ w)).1
  | acc, [], h => by
      exact absurd h (not_append_self (readQuoted_suffix _ _ _) (readQuoted_lt hw))
  | acc, [c], h => by
      simp only [List.singleton_append] at h ⊢
      by_cases hc : c = quote
      · subst hc
        have hx : c ∉ w.head? := by
          intro hx
          obtain ⟨x, xs, rfl⟩ := List.exists_cons_of_ne_nil hw
          obtain rfl := Option.some.inj hx
          rw [readQuoted_doubled] at h
          have hlength := congrArg List.length h
          have := (readQuoted_suffix x (x :: x :: acc) xs).length_le
          simp only [List.length_append, List.length_cons] at hlength
          omega
        rw [readQuoted_end hx] at h ⊢
        obtain rfl : u = [] := List.self_eq_append_left.mp h
        rw [readQuoted_end fun hy => hx (hhead hy)]
        exact ⟨rfl, rfl⟩
      · rw [readQuoted_other hc] at h
        exact absurd h (not_append_self (readQuoted_suffix _ _ _) (readQuoted_lt hw))
  | acc, c :: d :: cs, h => by
      simp only [List.cons_append] at h ⊢
      by_cases hc : c = quote
      · subst hc
        by_cases hd : d = c
        · subst hd
          rw [readQuoted_doubled] at h
          rw [readQuoted_doubled, readQuoted_doubled]
          exact readQuoted_swap hw hhead _ cs h
        · have hplain (v : List Char) : c ∉ (d :: v).head? := fun hmem => hd (Option.some.inj hmem)
          rw [readQuoted_end (hplain _)] at h
          rw [readQuoted_end (hplain _), readQuoted_end (hplain _)]
          have hu : (d :: cs) ++ w = u ++ w := h
          exact ⟨by rw [← List.append_cancel_right hu]; rfl, rfl⟩
      · rw [readQuoted_other hc] at h
        rw [readQuoted_other hc, readQuoted_other hc]
        exact readQuoted_swap hw hhead _ (d :: cs) h

theorem second_of_twoChar {c y : Char} (h : [c, y] ∈ twoCharSymbols) : y ∈ ['=', '>', '|'] := by
  have hall : ∀ symbol ∈ twoCharSymbols,
      symbol[1]? = some '=' ∨ symbol[1]? = some '>' ∨ symbol[1]? = some '|' := by decide
  simpa using hall _ h

/-- A step of the scanner does not see what follows its token. -/
theorem lexStep_swap {c : Char} {o : Option Token} (hw : w ≠ [])
    (h : lexStep c (cs ++ w) = (o, u ++ w)) (hcalm : Calm w w')
    (hline : o = none → '\n' ∈ w.head? → ∀ y ∈ w'.head?, y = '\n') :
    lexStep c (cs ++ w') = (o, u ++ w') := by
  have hnext (y : Char) (hy : y ∈ ['\'', '"', '-', '*', '=', '>', '|'])
      (hhead : (cs ++ w').head? = some y) : (cs ++ w).head? = some y := by
    cases cs with
    | nil => exact hcalm.mark y hhead hy
    | cons d cs => exact hhead
  have hlength : w.length ≤ (u ++ w).length := by simp
  unfold lexStep at h ⊢
  dsimp only at h ⊢
  split at h
  · next hspace =>
      obtain ⟨rfl, hrest⟩ := Prod.mk.inj h
      obtain rfl := List.append_cancel_right hrest
      rw [if_pos hspace]
  next hspace =>
  rw [if_neg hspace]
  split at h
  · next hdash =>
      -- A line comment: its second dash is not the head of what follows.
      obtain ⟨rfl, hrest⟩ := Prod.mk.inj h
      cases cs with
      | nil =>
        obtain ⟨x, xs, rfl⟩ := List.exists_cons_of_ne_nil hw
        have hx : x = '-' := Option.some.inj hdash.2
        rw [List.nil_append, List.dropWhile_cons_of_pos (by simp [hx])] at hrest
        have := (List.dropWhile_suffix (fun c => decide (c ≠ '\n')) (l := xs)).length_le
        rw [hrest] at this
        simp only [List.length_cons] at hlength
        omega
      | cons d cs =>
        rw [if_pos ⟨hdash.1, hdash.2⟩]
        refine Prod.ext rfl (dropWhile_swap hw hrest fun hx y hy => ?_).1
        obtain ⟨x, xs, rfl⟩ := List.exists_cons_of_ne_nil hw
        have hx : x = '\n' := by simpa using hx x rfl
        simp [hline rfl (by simp [hx]) y hy]
  next hdash =>
  rw [if_neg fun hdash' => hdash ⟨hdash'.1, hnext '-' (by simp) hdash'.2⟩]
  split at h
  · next hstar =>
      obtain ⟨rfl, hrest⟩ := Prod.mk.inj h
      cases cs with
      | nil =>
        have := (skipComment_suffix 1 w.tail).length_le
        have hpos := List.length_pos_iff.mpr hw
        rw [List.nil_append] at hrest
        rw [hrest, List.length_tail] at this
        omega
      | cons d cs =>
        rw [if_pos ⟨hstar.1, hstar.2⟩]
        exact Prod.ext rfl (skipComment_swap hw 1 cs hrest)
  next hstar =>
  rw [if_neg fun hstar' => hstar ⟨hstar'.1, hnext '*' (by simp) hstar'.2⟩]
  split at h
  · next hquote =>
      obtain ⟨rfl, hrest⟩ := Prod.mk.inj h
      obtain ⟨hrest', hvalue⟩ :=
        readQuoted_swap hw (fun hy => hcalm.mark '\'' hy (by simp)) [c] cs hrest
      rw [if_pos hquote, hrest', hvalue]
  next hquote =>
  rw [if_neg hquote]
  split at h
  · next hquote =>
      obtain ⟨rfl, hrest⟩ := Prod.mk.inj h
      obtain ⟨hrest', hvalue⟩ :=
        readQuoted_swap hw (fun hy => hcalm.mark '"' hy (by simp)) [c] cs hrest
      rw [if_pos hquote, hrest', hvalue]
  next hquote =>
  rw [if_neg hquote]
  split at h
  · next hword =>
      obtain ⟨rfl, hrest⟩ := Prod.mk.inj h
      obtain ⟨hrest', hvalue⟩ := @dropWhile_swap _ w w' _ _ hw hrest fun hx y hy => by
        by_contra hy'
        rw [Bool.not_eq_false] at hy'
        obtain ⟨x, hmem, hx'⟩ := hcalm.word y hy hy'
        simp [hx x hmem] at hx'
      rw [if_pos hword, hrest', hvalue]
  next hword =>
  rw [if_neg hword]
  split at h
  · next hdigit =>
      obtain ⟨rfl, hrest⟩ := Prod.mk.inj h
      obtain ⟨hrest', hvalue⟩ := @dropWhile_swap _ w w' _ _ hw hrest fun hx y hy => by
        by_contra hy'
        rw [Bool.not_eq_false] at hy'
        obtain ⟨x, hmem, hx'⟩ := hcalm.number y hy hy'
        simp [hx x hmem] at hx'
      rw [if_pos hdigit, hrest', hvalue]
  next hdigit =>
  rw [if_neg hdigit]
  split at h
  · next htwo =>
      obtain ⟨rfl, hrest⟩ := Prod.mk.inj h
      cases cs with
      | nil =>
        have hpos := List.length_pos_iff.mpr hw
        have := congrArg List.length hrest
        rw [List.nil_append, List.length_tail] at this
        omega
      | cons d cs =>
        have htwo' : c :: (d :: cs ++ w').take 1 ∈ twoCharSymbols := htwo
        have hu : cs ++ w = u ++ w := hrest
        rw [if_pos htwo', ← List.append_cancel_right hu]
        rfl
  next htwo =>
  obtain ⟨rfl, hrest⟩ := Prod.mk.inj h
  obtain rfl := List.append_cancel_right hrest
  have htwo' : c :: (cs ++ w').take 1 ∉ twoCharSymbols := by
    cases cs with
    | nil =>
      intro hmem
      cases w' with
      | nil => simp [twoCharSymbols] at hmem
      | cons y ys =>
        have hy := second_of_twoChar hmem
        have hhead : w.head? = some y := hcalm.mark y rfl (by
          simp only [List.mem_cons, List.not_mem_nil, or_false] at hy ⊢
          rcases hy with rfl | rfl | rfl
          · simp
          · simp
          · simp)
        obtain ⟨x, xs, rfl⟩ := List.exists_cons_of_ne_nil hw
        obtain rfl := Option.some.inj hhead
        exact htwo hmem
    | cons d cs => exact htwo
  rw [if_neg htwo']

/-- Nor do its tokens depend on the rest of the text. -/
theorem Reads.swap {total total' : Nat} {ts : List Token}
    (h : Reads total (u ++ w) ts w) (hw : w ≠ []) (hcalm : Calm w w')
    (hline : '\n' ∈ w.head? → ∀ y ∈ w'.head?, y = '\n') :
    ∃ ts', Reads total' (u ++ w') ts' w' ∧ ts'.map Token.bare = ts.map Token.bare := by
  generalize htext : u ++ w = text at h
  -- A turn starts before the text that follows and leaves something before it.
  have hbefore {c : Char} {cs rest u w : List Char} {o : Option Token}
      (htext : u ++ w = c :: cs) (step : lexStep c cs = (o, rest)) (hsuffix : w <:+ rest) :
      ∃ v v', u = c :: v ∧ cs = v ++ w ∧ rest = v' ++ w := by
    obtain ⟨v', rfl⟩ := hsuffix
    cases u with
    | nil =>
      have hlt := (suffix_of_step step).length_le
      have hlength := congrArg List.length htext
      simp only [List.nil_append, List.length_append, List.length_cons] at hlt hlength
      omega
    | cons d v =>
      obtain ⟨rfl, hcs⟩ := List.cons.inj htext
      exact ⟨v, v', rfl, hcs.symm, rfl⟩
  induction h generalizing u with
  | refl =>
    obtain rfl : u = [] := List.append_left_eq_self.mp htext
    exact ⟨[], .refl _, rfl⟩
  | skip step h ih =>
    obtain ⟨v, v', rfl, rfl, rfl⟩ := hbefore htext step h.suffix
    obtain ⟨ts', hts, hbare⟩ := ih hw hcalm hline rfl
    exact ⟨ts', .skip (lexStep_swap hw step hcalm fun _ => hline) hts, hbare⟩
  | token step h ih =>
    obtain ⟨v, v', rfl, rfl, rfl⟩ := hbefore htext step h.suffix
    obtain ⟨ts', hts, hbare⟩ := ih hw hcalm hline rfl
    refine ⟨_, .token (lexStep_swap hw step hcalm fun _ => hline) hts, ?_⟩
    simp [hbare, Token.bare, Token.placed]

end Swap

/-! ## Slices -/

/-- Scanned before nothing or a closing parenthesis, the text gives the tokens. -/
def Rescans (u : List Char) (ts : List Token) : Prop :=
  ∀ total w, (∀ y ∈ w.head?, y = ')') →
    ∃ ts', Reads total (u ++ w) ts' w ∧ ts'.map Token.bare = ts.map Token.bare

theorem calm_of_closing {w w' : List Char} (h : ∀ y ∈ w'.head?, y = ')') : Calm w w' := by
  constructor
  · intro y hy hword
    obtain rfl := h y hy
    exact absurd hword (by decide)
  · intro y hy hnumber
    obtain rfl := h y hy
    exact absurd hnumber (by decide)
  · intro y hy hmark
    obtain rfl := h y hy
    exact absurd hmark (by decide)

theorem Rescans.scan {u : List Char} {ts : List Token} (h : Rescans u ts) :
    (scan (String.ofList u)).tokens.map Token.bare = ts.map Token.bare := by
  obtain ⟨ts', hreads, hbare⟩ := h u.length [] (by simp)
  rw [List.append_nil] at hreads
  rw [← hbare, AtlasDb.Parsing.scan, String.toList_ofList]
  exact hreads.scanLoop_eq (Nat.le_refl _)

theorem rescans_nil : Rescans [] [] := fun _ w _ => ⟨[], .refl w, rfl⟩

variable {source : String} {c : Char} {t : Token} {cs rest : List Char}

theorem lexStep_head (h : lexStep c cs = (some t, rest)) : Text.isSpace c = false := by
  by_contra hspace
  rw [Bool.not_eq_false] at hspace
  rw [lexStep, if_pos hspace] at h
  exact nomatch h

theorem readQuoted_closed {quote : Char} {acc cs : List Char}
    (h : (readQuoted quote acc cs).2.1 ≠ []) : (readQuoted quote acc cs).1.head? = some quote := by
  fun_induction readQuoted quote acc cs with
  | case1 => exact absurd rfl h
  | case2 acc cs ih => exact ih h
  | case3 => rfl
  | case4 => exact absurd rfl h
  | case5 acc c cs hc ih => exact ih h

theorem isSpace_of_digit (h : c.isDigit = true) : Text.isSpace c = false := by
  have hnat : c.toNat = c.val.toNat := rfl
  simp only [Char.isDigit, Bool.and_eq_true, decide_eq_true_eq, ge_iff_le,
    UInt32.le_iff_toNat_le] at h
  change 48 ≤ c.val.toNat ∧ c.val.toNat ≤ 57 at h
  simp [Text.isSpace]
  omega

theorem isSpace_of_wordPart (h : isWordPart c = true) : Text.isSpace c = false := by
  simp only [isWordPart, isWordStart, Bool.or_eq_true, decide_eq_true_eq] at h
  rcases h with ((((h | rfl) | rfl) | rfl) | rfl) | h
  · have hletter := Text.isAlpha_iff.mp h
    simp [Text.isSpace]
    omega
  · decide
  · decide
  · decide
  · decide
  · exact isSpace_of_digit h

theorem isSpace_of_numberPart (h : isNumberPart c = true) : Text.isSpace c = false := by
  simp only [isNumberPart, Bool.or_eq_true, decide_eq_true_eq] at h
  rcases h with ((((h | rfl) | rfl) | rfl) | rfl) | rfl
  · exact isSpace_of_digit h
  · decide
  · decide
  · decide
  · decide
  · decide

theorem lexStep_last (hrest : rest ≠ []) (h : lexStep c cs = (some t, rest)) :
    ∀ y ∈ t.value.toList.getLast?, Text.isSpace y = false := by
  have hhead := lexStep_head h
  have hrun {p : Char → Bool} (hp : ∀ y, p y = true → Text.isSpace y = false) :
      ∀ y ∈ (c :: cs.takeWhile p).getLast?, Text.isSpace y = false := by
    intro y hy
    rcases List.mem_cons.mp (List.mem_of_getLast? hy) with rfl | hy
    · exact hhead
    · exact hp y (List.mem_takeWhile_imp hy)
  have hquoted {quote : Char} (hspace : Text.isSpace quote = false)
      (hclosed : (readQuoted quote [c] cs).2.1 ≠ []) :
      ∀ y ∈ (readQuoted quote [c] cs).1.reverse.getLast?, Text.isSpace y = false := by
    intro y hy
    rw [List.getLast?_reverse, readQuoted_closed hclosed] at hy
    exact Option.some.inj hy ▸ hspace
  revert h
  unfold lexStep
  dsimp only
  split
  · exact fun h => nomatch h
  split
  · exact fun h => nomatch h
  split
  · exact fun h => nomatch h
  split
  · rintro ⟨⟩
    simpa using hquoted (by decide) hrest
  split
  · rintro ⟨⟩
    simpa [foldedToken] using hquoted (by decide) hrest
  split
  · rintro ⟨⟩
    simpa only [foldedToken, String.toList_ofList] using hrun fun _ => isSpace_of_wordPart
  split
  · rintro ⟨⟩
    simpa only [foldedToken, String.toList_ofList] using hrun fun _ => isSpace_of_numberPart
  split
  · next htwo =>
      rintro ⟨⟩ y hy
      rw [String.toList_ofList] at hy
      have hall : ∀ symbol ∈ twoCharSymbols,
        symbol.all (fun y => !Text.isSpace y) = true := by decide
      simpa using List.all_eq_true.mp (hall _ htwo) y (List.mem_of_getLast? hy)
  · rintro ⟨⟩ y hy
    have hy : y = c := by simpa [eq_comm] using hy
    exact hy ▸ hhead

/-- The tokens stand next to each other in the source, with another token after them. -/
def Within (source : String) (tokens : List Token) : Prop :=
  ∃ before after, after ≠ [] ∧ (scan source).tokens = before ++ tokens ++ after

theorem Reads.nil_eq {total : Nat} {ts : List Token} {w : List Char} (h : Reads total [] ts w) :
    ts = [] := by
  cases h
  rfl

theorem lexStep_head_value (h : lexStep c cs = (some t, rest)) : t.value.toList.head? = some c := by
  have hvalue := lexStep_token h
  cases hlist : t.value.toList with
  | nil =>
    rw [hlist, List.nil_append] at hvalue
    have := (suffix_of_step h).length_le
    rw [hvalue, List.length_cons] at this
    omega
  | cons d ds =>
    rw [hlist] at hvalue
    rw [(List.cons.inj hvalue).1]
    rfl

theorem Within.isInfix {tokens part : List Token} (h : Within source tokens)
    (hpart : part <:+: tokens) : Within source part := by
  obtain ⟨before, after, hafter, hscan⟩ := h
  obtain ⟨ts, us, rfl⟩ := hpart
  exact ⟨before ++ ts, us ++ after, by simp [hafter], by rw [hscan]; simp⟩

/-- The text up to a token. -/
theorem Within.upTo {ts us : List Token} {first t : Token}
    (h : Within source (ts ++ t :: us)) (hfirst : (ts ++ t :: us).head? = some first) :
    ∃ total x u c cs t' rest, source.toList = x ++ (u ++ c :: cs) ∧
      Reads total (u ++ c :: cs) ts (c :: cs) ∧ lexStep c cs = (some t', rest) ∧ rest ≠ [] ∧
      t.bare = t'.bare ∧ first.offset = x.length ∧ t.offset = x.length + u.length ∧
      (u ++ c :: cs).head? = first.value.toList.head? ∧
      ∀ y ∈ (u ++ c :: cs).head?, Text.isSpace y = false := by
  obtain ⟨before, after, hafter, hscan⟩ := h
  have hall : Reads source.toList.length source.toList (scan source).tokens [] :=
    reads_scanLoop (Nat.le_refl _)
  generalize htotal : source.toList.length = total at hall
  rw [hscan, List.append_assoc] at hall
  obtain ⟨m, hbefore, hrest⟩ := hall.split
  obtain ⟨more, hmore⟩ : ∃ more, ts ++ t :: us = first :: more := by
    cases hcases : ts ++ t :: us with
    | nil => simp at hcases
    | cons t more =>
      rw [hcases] at hfirst
      exact ⟨more, by rw [Option.some.inj hfirst]⟩
  -- The blanks before the first token are skipped.
  obtain ⟨d, ds, f, rest, hskip, step, hplace, hmoreReads⟩ :
      ∃ d ds f rest, Reads total m [] (d :: ds) ∧ lexStep d ds = (some f, rest) ∧
        first = f.placed total (ds.length + 1) ∧ Reads total rest (more ++ after) [] := by
    rw [hmore] at hrest
    exact hrest.next
  have hstart : Reads total (d :: ds) (ts ++ (t :: (us ++ after))) [] := by
    have hsplit : ts ++ (t :: (us ++ after)) = (ts ++ t :: us) ++ after := by simp
    rw [hsplit, hmore, hplace]
    exact .token step hmoreReads
  obtain ⟨m', hts, ht⟩ := hstart.split
  obtain ⟨c, cs, t', rest', hskip', step', htplace, hafterReads⟩ := ht.next
  have hts : Reads total (d :: ds) ts (c :: cs) := by
    have := hts.append hskip'
    rwa [List.append_nil] at this
  have hrest' : rest' ≠ [] := by
    rintro rfl
    exact hafter (List.append_eq_nil_iff.mp hafterReads.nil_eq).2
  obtain ⟨u, hu⟩ := hts.suffix
  obtain ⟨x₁, hx₁⟩ := hbefore.suffix
  obtain ⟨x₂, hx₂⟩ := hskip.suffix
  have hsource : source.toList = (x₁ ++ x₂) ++ (u ++ c :: cs) := by
    rw [← hx₁, ← hx₂, ← hu, List.append_assoc]
  have hlength := congrArg List.length hsource
  have hcs := congrArg List.length hu
  simp only [List.length_append, List.length_cons] at hlength hcs
  refine ⟨total, x₁ ++ x₂, u, c, cs, t', rest', hsource, hu ▸ hts, step', hrest', ?_,
    ?_, ?_, ?_, ?_⟩
  · rw [htplace]
    rfl
  · rw [hplace]
    simp only [Token.placed, List.length_append]
    omega
  · rw [htplace]
    simp only [Token.placed, List.length_append]
    omega
  · rw [hu, hplace]
    exact (lexStep_head_value step).symm
  · rw [hu]
    rintro y ⟨⟩
    exact lexStep_head step

/-- A slice of tokens is a slice of the text. -/
theorem Within.slice {init : List Token} {first last : Token}
    (h : Within source (init ++ [last])) (hfirst : (init ++ [last]).head? = some first) :
    ∃ x u w, source.toList = x ++ (u ++ w) ∧ first.offset = x.length ∧
      last.offset + last.value.length = x.length + u.length ∧ Text.strip u = u ∧
      u.head? = first.value.toList.head? ∧ Rescans u (init ++ [last]) := by
  obtain ⟨total, x, u₀, d, ds, l, w, hsource, hinit, step, hw, hbare, hstart, hoffset,
    hhead, hspace⟩ :=
    h.upTo hfirst
  obtain ⟨v, rfl⟩ := suffix_of_step step
  have hvalue : l.value.toList = d :: v := by
    have hvalue := lexStep_token step
    rw [← List.cons_append] at hvalue
    exact List.append_cancel_right hvalue
  have hlast : last.bare.value = l.bare.value := congrArg Token.value hbare
  change last.value = l.value at hlast
  have hslice : u₀ ++ d :: (v ++ w) = (u₀ ++ d :: v) ++ w := by simp
  have huhead : (u₀ ++ d :: v).head? = (u₀ ++ d :: (v ++ w)).head? := by
    cases u₀ with
    | nil => rfl
    | cons y u₀ => rfl
  refine ⟨x, u₀ ++ d :: v, w, by rw [hsource, hslice], hstart, ?_, ?_, huhead.trans hhead, ?_⟩
  · have hsize : l.value.length = v.length + 1 := by
      rw [← String.length_toList, hvalue]
      rfl
    rw [hlast, hoffset, hsize]
    simp only [List.length_append, List.length_cons]
    omega
  · refine Text.stripBy_eq_self (huhead ▸ hspace) fun y hy => lexStep_last hw step y ?_
    rw [hvalue]
    rwa [List.getLast?_append_of_ne_nil _ (List.cons_ne_nil _ _)] at hy
  · intro total' w' hclosing
    have step' : lexStep d (v ++ w') = (some l, [] ++ w') :=
      lexStep_swap hw step (calm_of_closing hclosing) fun h => nomatch h
    have hsame : Calm (d :: (v ++ w)) (d :: (v ++ w')) :=
      ⟨fun y hy hp => ⟨y, hy, hp⟩, fun y hy hp => ⟨y, hy, hp⟩, fun y hy _ => hy⟩
    obtain ⟨ts', hts, hbare'⟩ : ∃ ts', Reads total' (u₀ ++ d :: (v ++ w')) ts' (d :: (v ++ w')) ∧
        ts'.map Token.bare = init.map Token.bare :=
      hinit.swap (List.cons_ne_nil _ _) hsame fun hd y hy => Option.some.inj (hy.symm.trans hd)
    refine ⟨ts' ++ [l.placed total' ((v ++ w').length + 1)], ?_, ?_⟩
    · rw [List.append_assoc, List.cons_append]
      exact hts.append (.token step' (.refl _))
    · rw [List.map_append, List.map_append, hbare', List.map_singleton, List.map_singleton, hbare]
      rfl

theorem sliceText_toList {x u w : List Char} {start stop : Nat}
    (hsource : source.toList = x ++ (u ++ w)) (hstart : start = x.length)
    (hstop : stop = x.length + u.length) : (sliceText source start stop).toList = u := by
  rw [sliceText, String.toList_ofList, hsource, hstart, hstop, List.take_length_add_append,
    List.take_left, List.drop_left]

theorem Within.textForTokens {tokens : List Token} (h : Within source tokens) :
    Rescans (textForTokens source tokens).toList tokens := by
  rcases List.eq_nil_or_concat tokens with rfl | ⟨init, last, rfl⟩
  · exact rescans_nil
  rw [List.concat_eq_append] at h ⊢
  obtain ⟨first, hfirst⟩ : ∃ first, (init ++ [last]).head? = some first := by
    cases init with
    | nil => exact ⟨last, rfl⟩
    | cons t init => exact ⟨t, rfl⟩
  obtain ⟨x, u, w, hsource, hstart, hstop, hstrip, -, hrescans⟩ := h.slice hfirst
  have htext : (AtlasDb.Parsing.textForTokens source (init ++ [last])).toList = u := by
    rw [AtlasDb.Parsing.textForTokens, hfirst, List.getLast?_concat]
    dsimp only
    rw [String.toList_ofList, sliceText_toList hsource hstart hstop, hstrip]
  rw [htext]
  exact hrescans

/-! ## A query without its targets -/

/-- A word that starts with a letter which is no exponent mark. -/
def Lettered (t : Token) : Prop :=
  ∃ c, t.value.toList.head? = some c ∧ isWordPart c = true ∧ isNumberPart c = false ∧
    c ∉ ['\'', '"', '-', '*', '=', '>', '|'] ∧ c ≠ '\n'

/-- A token is folded, or it is a literal or a mark. -/
def Token.Lexed (t : Token) : Prop :=
  t.upper = Text.upperString t.value ∨
    t.upper = t.value ∧ ∃ c, t.value.toList.head? = some c ∧ isWordStart c = false ∧ c ≠ '"'

theorem lexStep_lexed (h : lexStep c cs = (some t, rest)) : t.Lexed := by
  have hhead := lexStep_head_value h
  have hfolded (kind : TokenKind) (value : List Char) :
      (foldedToken kind value 0).upper = Text.upperString (foldedToken kind value 0).value := by
    simp [foldedToken, Text.upperString]
  revert h
  unfold lexStep
  dsimp only
  split
  · intro h
    cases h
  split
  · intro h
    cases h
  split
  · intro h
    cases h
  split
  · next hquote =>
      rintro ⟨⟩
      exact .inr ⟨rfl, c, hhead, by rw [hquote]; decide, by rw [hquote]; decide⟩
  next hquote =>
  split
  · rintro ⟨⟩
    exact .inl (hfolded _ _)
  next hdouble =>
  split
  · rintro ⟨⟩
    exact .inl (hfolded _ _)
  next hword =>
  rw [Bool.not_eq_true] at hword
  split
  · rintro ⟨⟩
    exact .inl (hfolded _ _)
  split
  · rintro ⟨⟩
    exact .inr ⟨rfl, c, hhead, hword, hdouble⟩
  · rintro ⟨⟩
    exact .inr ⟨rfl, c, hhead, hword, hdouble⟩

theorem Within.lexed {tokens : List Token} (h : Within source tokens)
    (ht : t ∈ tokens) : t.Lexed := by
  obtain ⟨ts, us, rfl⟩ := List.append_of_mem ht
  have hright : Within source ([] ++ t :: us) := h.isInfix ⟨ts, [], by simp⟩
  obtain ⟨total, x, u, c, cs, t', rest, -, -, step, -, hbare, -⟩ := hright.upTo rfl
  have hvalue : t.bare.value = t'.bare.value := congrArg Token.value hbare
  have hupper : t.bare.upper = t'.bare.upper := congrArg Token.upper hbare
  change t.value = t'.value at hvalue
  change t.upper = t'.upper at hupper
  rw [Token.Lexed, hvalue, hupper]
  exact lexStep_lexed step

theorem eq_of_toUpper {c u : Char} (h : c.toUpper = u) :
    c = u ∨ c.val.toNat = u.val.toNat + 32 := by
  by_cases hlower : 97 ≤ c.val ∧ c.val ≤ 122
  · have hval : u.val = c.val + 4294967264 := by
      rw [← h]
      unfold Char.toUpper
      grind
    have hnat : 97 ≤ c.val.toNat ∧ c.val.toNat ≤ 122 :=
      ⟨UInt32.le_iff_toNat_le.mp hlower.1, UInt32.le_iff_toNat_le.mp hlower.2⟩
    right
    rw [hval, UInt32.toNat_add]
    simp only [UInt32.reduceToNat]
    omega
  · left
    rw [← h]
    unfold Char.toUpper
    grind

theorem lettered_of_upper {ts us : List Token}
    (h : Within source (ts ++ t :: us))
    (ht : t.upper = "INTO" ∨ t.upper = "FROM" ∨ t.upper = "VALUES") :
    Lettered t := by
  have hlexed := h.lexed (List.mem_append_right ts List.mem_cons_self)
  have hfirst : ∃ d, d ∈ ['I', 'F', 'V'] ∧ t.upper.toList.head? = some d := by
    rcases ht with ht | ht | ht
    · exact ⟨'I', by simp, by rw [ht]; decide⟩
    · exact ⟨'F', by simp, by rw [ht]; decide⟩
    · exact ⟨'V', by simp, by rw [ht]; decide⟩
  obtain ⟨d, hd, hhead⟩ := hfirst
  obtain ⟨c, hc, hcd⟩ : ∃ c, t.value.toList.head? = some c ∧ (c.toUpper = d ∨ c = d) := by
    rcases hlexed with hfold | ⟨hsame, c, hc, -⟩
    · rw [hfold, Text.upperString, String.toList_ofList, Text.upper, List.head?_map] at hhead
      obtain ⟨c, hc, hcd⟩ := Option.map_eq_some_iff.mp hhead
      exact ⟨c, hc, .inl hcd⟩
    · rw [hsame, hc] at hhead
      exact ⟨c, hc, .inr (Option.some.inj hhead)⟩
  refine ⟨c, hc, ?_⟩
  have hcases : c ∈ ['I', 'F', 'V', 'i', 'f', 'v'] := by
    have hlower {d e : Char} (he : e.val.toNat = d.val.toNat + 32)
        (hc : c.val.toNat = d.val.toNat + 32) : c = e :=
      Char.ext (UInt32.toNat_inj.mp (hc.trans he.symm))
    simp only [List.mem_cons, List.not_mem_nil, or_false] at hd ⊢
    rcases hcd with hcd | rfl
    · rcases eq_of_toUpper hcd with rfl | hcd
      · grind
      · rcases hd with rfl | rfl | rfl
        · simp [hlower (e := 'i') rfl hcd]
        · simp [hlower (e := 'f') rfl hcd]
        · simp [hlower (e := 'v') rfl hcd]
    · grind
  simp only [List.mem_cons, List.not_mem_nil, or_false] at hcases
  rcases hcases with rfl | rfl | rfl | rfl | rfl | rfl
  all_goals decide

/-- The text before one word with the text from another one on, as in the residual text of a
`SELECT INTO`, gives the tokens before the one and those from the other one on. -/
theorem Within.rescans_without {before removed rest : List Token}
    {first into from_ last : Token}
    (h : Within source (before ++ into :: (removed ++ from_ :: rest)))
    (hfirst : (before ++ into :: (removed ++ from_ :: rest)).head? = some first)
    (hlast : (from_ :: rest).getLast? = some last)
    (hinto : Lettered into) (hfrom : Lettered from_) :
    Rescans ((sliceText source first.offset into.offset).toList ++
      (sliceText source from_.offset (last.offset + last.value.length)).toList)
      (before ++ from_ :: rest) := by
  obtain ⟨total, x, u, c, cs, t, w, hsource, hbefore, step, -, hbare, hstart, hoffset, -, -⟩ :=
    h.upTo hfirst
  obtain ⟨init, hinit⟩ : ∃ init, from_ :: rest = init ++ [last] :=
    ⟨_, (List.dropLast_append_getLast? last hlast).symm⟩
  have hrest : Within source (from_ :: rest) := by
    have hsplit : before ++ into :: (removed ++ from_ :: rest) =
        (before ++ into :: removed) ++ from_ :: rest := by simp
    rw [hsplit] at h
    exact h.isInfix ⟨before ++ into :: removed, [], by simp⟩
  have hfromHead : (init ++ [last]).head? = some from_ := by
    rw [← hinit]
    rfl
  obtain ⟨x', v, w', hsource', hstart', hstop', -, hvhead, hrescans⟩ :=
    (hinit ▸ hrest : Within source (init ++ [last])).slice hfromHead
  rw [sliceText_toList hsource hstart hoffset, sliceText_toList hsource' hstart' hstop', hinit]
  obtain ⟨i, hi, hiword, -, -, hiline⟩ := hinto
  obtain ⟨f, hf, -, hfnumber, hfmark, -⟩ := hfrom
  obtain rfl : i = c := by
    have hvalue : into.bare.value = t.bare.value := congrArg Token.value hbare
    change into.value = t.value at hvalue
    rw [hvalue, lexStep_head_value step] at hi
    exact (Option.some.inj hi).symm
  intro total' w'' hclosing
  obtain ⟨us, hus, husbare⟩ := hrescans total' w'' hclosing
  have hvhead' : (v ++ w'').head? = some f := by
    rw [hf] at hvhead
    cases v with
    | nil => exact nomatch hvhead
    | cons y v => exact hvhead
  have hcalm : Calm (i :: cs) (v ++ w'') := by
    refine ⟨fun y _ _ => ⟨i, rfl, hiword⟩, fun y hy hnumber => ?_, fun y hy hmark => ?_⟩
    · obtain rfl := Option.some.inj (hvhead'.symm.trans hy)
      rw [hfnumber] at hnumber
      exact nomatch hnumber
    · obtain rfl := Option.some.inj (hvhead'.symm.trans hy)
      exact absurd hmark hfmark
  obtain ⟨ts, hts, htsbare⟩ : ∃ ts, Reads total' (u ++ (v ++ w'')) ts (v ++ w'') ∧
      ts.map Token.bare = before.map Token.bare :=
    hbefore.swap (List.cons_ne_nil _ _) hcalm fun hline => absurd (Option.some.inj hline) hiline
  refine ⟨ts ++ us, ?_, by simp [htsbare, husbare]⟩
  rw [List.append_assoc]
  exact hts.append hus

end AtlasDb.Parsing
