import Mathlib.Data.List.Basic

/-!
# Backtracking patterns

Patterns over any alphabet, matched as backtracking engines do: `run` lists every match that begins
at a place in the order in which it is tried, so that the first one is the match found. `Matches`
says what a pattern matches without an order. `mem_run_iff` is soundness and completeness of the one
against the other.
-/

namespace AtlasDb.Lib

inductive Pattern (α : Type) where
  | empty
  | one (accepts : α → Bool)
  | seq (a b : Pattern α)
  | alt (a b : Pattern α)
  /-- As often as possible first, or as seldom as possible first. -/
  | star (greedy : Bool) (a : Pattern α)
  | group (index : Nat) (a : Pattern α)
  /-- A condition on what stands before and behind. -/
  | between (holds : Option α → Option α → Bool)
  | notAhead (a : Pattern α)

namespace Pattern

variable {α : Type}

/-- What the groups have read, the last reading first. -/
abbrev Groups (α : Type) := List (Nat × List α)

/-- A match: what it reads, what follows, and the groups. -/
structure Found (α : Type) where
  read : List α
  rest : List α
  groups : Groups α

/-- One match after the other. -/
def Found.append (f g : Found α) : Found α := ⟨f.read ++ g.read, g.rest, g.groups ++ f.groups⟩

/-- What stands before the place behind `read`. -/
def before (prev : Option α) (read : List α) : Option α := read.getLast?.or prev

/-- Repetitions that read something. -/
def repeated (step : Option α → List α → List (Found α)) (greedy : Bool) :
    Nat → Option α → List α → List (Found α)
  | 0, _, text => [⟨[], text, []⟩]
  | fuel + 1, prev, text =>
    let more := ((step prev text).filter fun f => !f.read.isEmpty).flatMap fun f =>
      (repeated step greedy fuel (before prev f.read) f.rest).map f.append
    if greedy then more ++ [⟨[], text, []⟩] else ⟨[], text, []⟩ :: more

/-- The matches at a place, in the order in which they are tried. -/
def run : Pattern α → Option α → List α → List (Found α)
  | empty, _, text => [⟨[], text, []⟩]
  | one _, _, [] => []
  | one accepts, _, x :: text => if accepts x then [⟨[x], text, []⟩] else []
  | seq a b, prev, text =>
    (run a prev text).flatMap fun f => (run b (before prev f.read) f.rest).map f.append
  | alt a b, prev, text => run a prev text ++ run b prev text
  | star greedy a, prev, text => repeated (run a) greedy text.length prev text
  | group index a, prev, text =>
    (run a prev text).map fun f => { f with groups := (index, f.read) :: f.groups }
  | between holds, prev, text => if holds prev text.head? then [⟨[], text, []⟩] else []
  | notAhead a, prev, text => if (run a prev text).isEmpty then [⟨[], text, []⟩] else []

/-- The match at the beginning of a text. -/
def firstMatch (a : Pattern α) (text : List α) : Option (Found α) := (run a none text).head?

/-- A match begins somewhere in a text. -/
def found (a : Pattern α) : Option α → List α → Bool
  | prev, [] => !(run a prev []).isEmpty
  | prev, x :: text => !(run a prev (x :: text)).isEmpty || found a (some x) text

/-- The first match at the first place at which there is one. -/
def search (a : Pattern α) : Option α → List α → Option (Found α)
  | prev, [] => (run a prev []).head?
  | prev, x :: text => (run a prev (x :: text)).head?.or (search a (some x) text)

/-- The text up to the first place at which `stops` holds. -/
def upTo (stops : Option α → List α → Bool) : Option α → List α → List α
  | _, [] => []
  | prev, x :: text => if stops prev (x :: text) then [] else x :: upTo stops (some x) text

/-! ## What a pattern matches -/

/-- Repetitions of what `step` relates. -/
inductive Repeats (step : Option α → List α → List α → Groups α → Prop) :
    Option α → List α → List α → Groups α → Prop where
  | stop {prev : Option α} {rest : List α} : Repeats step prev [] rest []
  | more {prev : Option α} {read next rest : List α} {groups groups' : Groups α} :
      read ≠ [] → step prev read (next ++ rest) groups →
      Repeats step (before prev read) next rest groups' →
      Repeats step prev (read ++ next) rest (groups' ++ groups)

/-- The pattern matches `read` behind `prev` and in front of `rest`. -/
def Matches : Pattern α → Option α → List α → List α → Groups α → Prop
  | empty, _, read, _, groups => read = [] ∧ groups = []
  | one accepts, _, read, _, groups => (∃ x, accepts x = true ∧ read = [x]) ∧ groups = []
  | seq a b, prev, read, rest, groups =>
    ∃ first second groups₁ groups₂, read = first ++ second ∧ groups = groups₂ ++ groups₁ ∧
      Matches a prev first (second ++ rest) groups₁ ∧
      Matches b (before prev first) second rest groups₂
  | alt a b, prev, read, rest, groups =>
    Matches a prev read rest groups ∨ Matches b prev read rest groups
  | star _ a, prev, read, rest, groups => Repeats (Matches a) prev read rest groups
  | group index a, prev, read, rest, groups =>
    ∃ inner, groups = (index, read) :: inner ∧ Matches a prev read rest inner
  | between holds, prev, read, rest, groups =>
    holds prev rest.head? = true ∧ read = [] ∧ groups = []
  | notAhead a, prev, read, rest, groups =>
    (∀ read' rest' groups', read' ++ rest' = rest → ¬ Matches a prev read' rest' groups') ∧
      read = [] ∧ groups = []

/-- What is said of a list of matches and of a relation that belong together. -/
def Agrees (found : List (Found α)) (text : List α) (rel : List α → List α → Groups α → Prop) :
    Prop :=
  ∀ f : Found α, f ∈ found ↔ f.read ++ f.rest = text ∧ rel f.read f.rest f.groups

theorem agrees_stop (text : List α) :
    Agrees [⟨[], text, []⟩] text fun read _ groups => read = [] ∧ groups = [] := by
  rintro ⟨read, rest, groups⟩
  simp only [List.mem_singleton, Found.mk.injEq]
  constructor
  · rintro ⟨rfl, rfl, rfl⟩
    exact ⟨rfl, rfl, rfl⟩
  · rintro ⟨htext, rfl, rfl⟩
    exact ⟨rfl, htext, rfl⟩

/-- What `repeated` finds are the repetitions, when `fuel` bounds the length of the text. -/
theorem agrees_repeated {step : Option α → List α → List (Found α)}
    {rel : Option α → List α → List α → Groups α → Prop}
    (hstep : ∀ prev text, Agrees (step prev text) text (rel prev)) (greedy : Bool) (fuel : Nat)
    (prev : Option α) (text : List α) (hfuel : text.length ≤ fuel) :
    Agrees (repeated step greedy fuel prev text) text (Repeats rel prev) := by
  induction fuel generalizing prev text with
  | zero =>
    have htext : text = [] := List.length_eq_zero_iff.mp (by omega)
    subst htext
    rintro ⟨read, rest, groups⟩
    rw [repeated, agrees_stop [] ⟨read, rest, groups⟩]
    constructor
    · rintro ⟨happ, rfl, rfl⟩
      exact ⟨happ, .stop⟩
    · rintro ⟨happ, hrel⟩
      refine ⟨happ, ?_⟩
      obtain ⟨rfl, rfl⟩ := List.append_eq_nil_iff.mp happ
      generalize hread : ([] : List α) = read at hrel
      cases hrel with
      | stop => exact ⟨rfl, rfl⟩
      | more hne => exact absurd (List.append_eq_nil_iff.mp hread.symm).1 hne
  | succ fuel ih =>
    rintro ⟨read, rest, groups⟩
    have hmem : (⟨read, rest, groups⟩ : Found α) ∈ repeated step greedy (fuel + 1) prev text ↔
        (⟨read, rest, groups⟩ : Found α) ∈
            ((step prev text).filter fun f => !f.read.isEmpty).flatMap (fun f =>
              (repeated step greedy fuel (before prev f.read) f.rest).map f.append) ∨
          (⟨read, rest, groups⟩ : Found α) = ⟨[], text, []⟩ := by
      cases greedy with
      | true => simp [repeated]
      | false => simp [repeated, or_comm]
    rw [hmem, List.mem_flatMap]
    constructor
    · rintro (⟨f, hf, hmap⟩ | hstop)
      · obtain ⟨g, hg, happ⟩ := List.mem_map.mp hmap
        obtain ⟨hf, hne⟩ := List.mem_filter.mp hf
        obtain ⟨htext, hrel⟩ := (hstep prev text f).mp hf
        have hread : f.read ≠ [] := by simpa using hne
        have hshort : f.rest.length ≤ fuel := by
          have hlen := congrArg List.length htext
          have hpos := List.length_pos_iff.mpr hread
          simp only [List.length_append] at hlen
          omega
        obtain ⟨hrest, hmore⟩ := (ih _ _ hshort g).mp hg
        cases happ
        refine ⟨by rw [← htext, ← hrest, List.append_assoc], ?_⟩
        exact .more hread (hrest ▸ hrel) hmore
      · cases hstop
        exact ⟨rfl, .stop⟩
    · rintro ⟨htext, hrel⟩
      dsimp only at htext hrel
      cases hrel with
      | stop => exact .inr (by rw [← htext, List.nil_append])
      | @more _ first next _ groups₁ groups₂ hne hfirst hnext =>
        left
        have htext' : first ++ (next ++ rest) = text := by rw [← htext, List.append_assoc]
        refine ⟨⟨first, next ++ rest, groups₁⟩, List.mem_filter.mpr ⟨?_, by simpa using hne⟩, ?_⟩
        · exact (hstep prev text _).mpr ⟨htext', hfirst⟩
        · have hshort : (next ++ rest).length ≤ fuel := by
            have hlen := congrArg List.length htext'
            have hpos := List.length_pos_iff.mpr hne
            simp only [List.length_append] at hlen ⊢
            omega
          exact List.mem_map.mpr ⟨⟨next, rest, groups₂⟩,
            (ih _ _ hshort ⟨next, rest, groups₂⟩).mpr ⟨rfl, hnext⟩, rfl⟩

/-- Every match is found, and only matches are. -/
theorem mem_run_iff (a : Pattern α) (prev : Option α) (text : List α) :
    Agrees (run a prev text) text (Matches a prev) := by
  induction a generalizing prev text with
  | empty => exact agrees_stop text
  | one accepts =>
    rintro ⟨read, rest, groups⟩
    cases text with
    | nil =>
      simp only [run, List.not_mem_nil, Matches, false_iff, not_and, List.append_eq_nil_iff]
      rintro ⟨rfl, -⟩ ⟨_, _, hread⟩
      exact absurd hread (List.cons_ne_nil _ _).symm
    | cons x text =>
      simp only [run, Matches]
      split
      · next hx =>
          simp only [List.mem_singleton, Found.mk.injEq]
          constructor
          · rintro ⟨rfl, rfl, rfl⟩
            exact ⟨rfl, ⟨x, hx, rfl⟩, rfl⟩
          · rintro ⟨htext, ⟨y, _, rfl⟩, rfl⟩
            cases htext
            exact ⟨rfl, rfl, rfl⟩
      · next hx =>
          simp only [List.not_mem_nil, false_iff, not_and]
          rintro htext ⟨y, hy, rfl⟩
          cases htext
          exact absurd hy hx
  | seq a b iha ihb =>
    rintro ⟨read, rest, groups⟩
    simp only [run, Matches, List.mem_flatMap, List.mem_map]
    constructor
    · rintro ⟨f, hf, g, hg, happ⟩
      obtain ⟨htext, ha⟩ := (iha prev text f).mp hf
      obtain ⟨hrest, hb⟩ := (ihb _ _ g).mp hg
      cases happ
      exact ⟨by rw [← htext, ← hrest, List.append_assoc],
        f.read, g.read, f.groups, g.groups, rfl, rfl, hrest ▸ ha, hb⟩
    · rintro ⟨htext, first, second, groups₁, groups₂, rfl, rfl, ha, hb⟩
      refine ⟨⟨first, second ++ rest, groups₁⟩, (iha prev text _).mpr ⟨?_, ha⟩,
        ⟨second, rest, groups₂⟩, (ihb _ _ _).mpr ⟨rfl, hb⟩, rfl⟩
      rw [← htext, List.append_assoc]
  | alt a b iha ihb =>
    intro f
    rw [run, List.mem_append, iha prev text f, ihb prev text f]
    exact and_or_left.symm
  | star greedy a ih => exact agrees_repeated ih greedy text.length prev text (Nat.le_refl _)
  | group index a ih =>
    rintro ⟨read, rest, groups⟩
    simp only [run, Matches, List.mem_map]
    constructor
    · rintro ⟨f, hf, happ⟩
      obtain ⟨htext, ha⟩ := (ih prev text f).mp hf
      cases happ
      exact ⟨htext, f.groups, rfl, ha⟩
    · rintro ⟨htext, inner, rfl, ha⟩
      exact ⟨⟨read, rest, inner⟩, (ih prev text _).mpr ⟨htext, ha⟩, rfl⟩
  | between holds =>
    rintro ⟨read, rest, groups⟩
    simp only [run, Matches]
    split
    · next h =>
        rw [agrees_stop text ⟨read, rest, groups⟩]
        constructor
        · rintro ⟨htext, rfl, rfl⟩
          exact ⟨htext, by rw [← htext] at h; exact h, rfl, rfl⟩
        · rintro ⟨htext, _, rfl, rfl⟩
          exact ⟨htext, rfl, rfl⟩
    · next h =>
        simp only [List.not_mem_nil, false_iff, not_and]
        rintro htext hholds rfl
        rw [← htext] at h
        exact absurd hholds h
  | notAhead a ih =>
    rintro ⟨read, rest, groups⟩
    simp only [run, Matches]
    have hempty : (run a prev text).isEmpty = true ↔
        ∀ read' rest' groups', read' ++ rest' = text → ¬ Matches a prev read' rest' groups' := by
      rw [List.isEmpty_iff, List.eq_nil_iff_forall_not_mem]
      constructor
      · intro h read' rest' groups' htext hm
        exact h ⟨read', rest', groups'⟩ ((ih prev text _).mpr ⟨htext, hm⟩)
      · intro h f hf
        obtain ⟨htext, hm⟩ := (ih prev text f).mp hf
        exact h _ _ _ htext hm
    split
    · next h =>
        rw [agrees_stop text ⟨read, rest, groups⟩]
        constructor
        · rintro ⟨htext, rfl, rfl⟩
          exact
          ⟨htext, by rw [← htext] at hempty; exact hempty.mp (by rwa [← htext] at h), rfl, rfl⟩
        · rintro ⟨htext, _, rfl, rfl⟩
          exact ⟨htext, rfl, rfl⟩
    · next h =>
        simp only [List.not_mem_nil, false_iff, not_and]
        rintro htext hnone rfl
        rw [List.nil_append] at htext
        exact absurd (hempty.mpr (htext ▸ hnone)) h

/-- No group in it. -/
def groupFree : Pattern α → Bool
  | empty | one _ | between _ | notAhead _ => true
  | seq a b | alt a b => a.groupFree && b.groupFree
  | star _ a => a.groupFree
  | group _ _ => false

variable {prev : Option α}

theorem Matches.groups_eq_nil {a : Pattern α} (ha : a.groupFree = true)
    {read rest : List α} {groups : Groups α} (h : a.Matches prev read rest groups) :
    groups = [] := by
  induction a generalizing prev read rest groups with
  | empty => exact h.2
  | one accepts => exact h.2
  | seq a b iha ihb =>
    obtain ⟨ha, hb⟩ := Bool.and_eq_true_iff.mp ha
    obtain ⟨_, _, _, _, -, rfl, hfirst, hsecond⟩ := h
    rw [iha ha hfirst, ihb hb hsecond, List.append_nil]
  | alt a b iha ihb =>
    obtain ⟨ha, hb⟩ := Bool.and_eq_true_iff.mp ha
    exact h.elim (iha ha) (ihb hb)
  | star greedy a ih =>
    change Repeats (Matches a) prev read rest groups at h
    induction h with
    | stop => rfl
    | more _ hstep _ ihrest => rw [ih ha hstep, ihrest, List.append_nil]
  | group index a _ => exact absurd ha Bool.false_ne_true
  | between holds => exact h.2.2
  | notAhead a _ => exact h.2.2

/-- Repetitions of a single element. -/
theorem matches_star_one_iff {greedy : Bool} {accepts : α → Bool}
    {read rest : List α} {groups : Groups α} :
    (star greedy (one accepts)).Matches prev read rest groups ↔
      (∀ x ∈ read, accepts x = true) ∧ groups = [] := by
  constructor
  · intro h
    change Repeats (Matches (one accepts)) prev read rest groups at h
    induction h with
    | stop => exact ⟨fun _ hx => absurd hx List.not_mem_nil, rfl⟩
    | more _ hstep _ ih =>
      obtain ⟨⟨x, hx, rfl⟩, rfl⟩ := hstep
      obtain ⟨hnext, rfl⟩ := ih
      refine ⟨fun y hy => ?_, rfl⟩
      rcases List.mem_cons.mp hy with rfl | hy
      · exact hx
      · exact hnext y hy
  · rintro ⟨hread, rfl⟩
    show Repeats (Matches (one accepts)) prev read rest []
    induction read generalizing prev with
    | nil => exact .stop
    | cons x read ih =>
      have hfirst : Matches (one accepts) prev [x] (read ++ rest) [] :=
        ⟨⟨x, hread x List.mem_cons_self, rfl⟩, rfl⟩
      exact .more (List.cons_ne_nil x []) hfirst
        (ih fun y hy => hread y (List.mem_cons_of_mem x hy))

/-- The match at the beginning of a text is one. -/
theorem firstMatch_sound {a : Pattern α} {text : List α} {f : Found α}
    (h : firstMatch a text = some f) :
    f.read ++ f.rest = text ∧ Matches a none f.read f.rest f.groups :=
  (mem_run_iff a none text f).mp (List.mem_of_mem_head? h)

theorem run_isEmpty_iff {a : Pattern α} {text : List α} :
    (run a prev text).isEmpty = false ↔
      ∃ read rest groups, read ++ rest = text ∧ Matches a prev read rest groups := by
  rw [Bool.eq_false_iff, Ne, List.isEmpty_iff]
  constructor
  · intro hne
    obtain ⟨f, hf⟩ := List.exists_mem_of_ne_nil _ hne
    exact ⟨_, _, _, (mem_run_iff a prev text f).mp hf⟩
  · rintro ⟨read, rest, groups, h⟩
    exact List.ne_nil_of_mem ((mem_run_iff a prev text ⟨read, rest, groups⟩).mpr h)

theorem before_append (prev : Option α) (first second : List α) :
    before (before prev first) second = before prev (first ++ second) := by
  simp only [before, List.getLast?_append, Option.or_assoc]

/-- A match begins somewhere: some part of the text is one. -/
theorem found_iff {a : Pattern α} {text : List α} :
    found a prev text = true ↔ ∃ before' read rest groups, before' ++ (read ++ rest) = text ∧
      Matches a (before prev before') read rest groups := by
  induction text generalizing prev with
  | nil =>
    rw [found, Bool.not_eq_true', run_isEmpty_iff]
    constructor
    · rintro ⟨read, rest, groups, happ, hm⟩
      exact ⟨[], read, rest, groups, happ, hm⟩
    · rintro ⟨_, read, rest, groups, happ, hm⟩
      obtain ⟨rfl, happ⟩ := List.append_eq_nil_iff.mp happ
      exact ⟨read, rest, groups, happ, hm⟩
  | cons x text ih =>
    rw [found, Bool.or_eq_true, Bool.not_eq_true', run_isEmpty_iff, ih]
    constructor
    · rintro (⟨read, rest, groups, happ, hm⟩ | ⟨first, read, rest, groups, happ, hm⟩)
      · exact ⟨[], read, rest, groups, happ, hm⟩
      · refine ⟨x :: first, read, rest, groups, congrArg (x :: ·) happ, ?_⟩
        rwa [← List.singleton_append, ← before_append]
    · rintro ⟨first, read, rest, groups, happ, hm⟩
      cases first with
      | nil => exact .inl ⟨read, rest, groups, happ, hm⟩
      | cons y first =>
        obtain ⟨rfl, htext⟩ := List.cons.inj happ
        refine .inr ⟨first, read, rest, groups, htext, ?_⟩
        rwa [← List.singleton_append, ← before_append] at hm

/-! ## Which match comes first -/

theorem head?_run_seq (a b : Pattern α) (prev : Option α) (text : List α) :
    (run (seq a b) prev text).head? = (run a prev text).findSome? fun f =>
      (run b (before prev f.read) f.rest).head?.map f.append := by
  rw [run, List.head?_flatMap]
  simp only [List.head?_map]

/-- A first match that can be gone on with is gone on with. -/
theorem head?_run_seq_of {a b : Pattern α} {text : List α} {f g : Found α}
    (hf : (run a prev text).head? = some f)
    (hg : (run b (before prev f.read) f.rest).head? = some g) :
    (run (seq a b) prev text).head? = some (f.append g) := by
  rw [head?_run_seq]
  obtain ⟨l, hl⟩ := List.head?_eq_some_iff.mp hf
  rw [hl, List.findSome?_cons, hg]
  rfl

theorem run_star_one_cons (greedy : Bool) (accepts : α → Bool) (prev : Option α) (x : α)
    (text : List α) : run (star greedy (one accepts)) prev (x :: text) =
      if accepts x then
        let more :=
  (run (star greedy (one accepts)) (some x) text).map (Found.append ⟨[x], text, []⟩)
        if greedy then more ++ [⟨[], x :: text, []⟩] else ⟨[], x :: text, []⟩ :: more
      else [⟨[], x :: text, []⟩] := by
  show repeated (run (one accepts)) greedy (text.length + 1) prev (x :: text) = _
  rw [repeated, run]
  cases hx : accepts x with
  | true =>
    rw [if_pos rfl, if_pos rfl, List.filter_cons_of_pos rfl, List.filter_nil,
      List.flatMap_singleton]
    rfl
  | false =>
    rw [if_neg Bool.false_ne_true, if_neg Bool.false_ne_true, List.filter_nil, List.flatMap_nil,
      List.nil_append]
    cases greedy with
    | true => rfl
    | false => rfl

theorem run_star_one_nil (greedy : Bool) (accepts : α → Bool) (prev : Option α) :
    run (star greedy (one accepts)) prev [] = [⟨[], [], []⟩] := rfl

/-- A greedy repetition takes all it can. -/
theorem head?_run_greedy {accepts : α → Bool} {front rest : List α}
    (hfront : ∀ x ∈ front, accepts x = true) (hrest : ∀ x ∈ rest.head?, accepts x = false) :
    (run (star true (one accepts)) prev (front ++ rest)).head? = some ⟨front, rest, []⟩ := by
  induction front generalizing prev with
  | nil =>
    cases rest with
    | nil => rfl
    | cons x rest =>
      rw [List.nil_append, run_star_one_cons, hrest x rfl, if_neg Bool.false_ne_true]
      rfl
  | cons x front ih =>
    rw [List.cons_append, run_star_one_cons, if_pos (hfront x List.mem_cons_self)]
    dsimp only
    rw [if_pos rfl, List.head?_append, List.head?_map,
      ih fun y hy => hfront y (List.mem_cons_of_mem x hy)]
    rfl

/-- A lazy repetition stops at the first place that is allowed. -/
theorem find?_run_lazy {stops : Option α → List α → Bool} (hend : ∀ prev, stops prev [] = true)
    (prev : Option α) (text : List α) :
    (run (star false (one fun _ => true)) prev text).find?
    (fun f => stops (before prev f.read) f.rest) =
      some ⟨upTo stops prev text, text.drop (upTo stops prev text).length, []⟩ := by
  induction text generalizing prev with
  | nil =>
    rw [run_star_one_nil, List.find?_cons_of_pos]
    · rfl
    · exact hend prev
  | cons x text ih =>
    rw [run_star_one_cons, if_pos rfl]
    dsimp only
    rw [if_neg Bool.false_ne_true, upTo]
    split
    · next h =>
        rw [List.find?_cons_of_pos]
        · rfl
        · exact h
    · next h =>
        rw [List.find?_cons_of_neg (by exact h), List.find?_map]
        have hbefore (f : Found α) : before prev ((Found.append ⟨[x], text, []⟩ f).read) =
            before (some x) f.read := (before_append prev [x] f.read).symm
        simp only [Function.comp_def, hbefore]
        rw [show (fun f : Found α => stops (before (some x) f.read)
          (Found.append ⟨[x], text, []⟩ f).rest) = fun f =>
          stops (before (some x) f.read) f.rest from rfl,
          ih]
        rfl

theorem findSome?_of_find? {β : Type} {p : α → Bool} {k : α → Option β} {xs : List α} {x : α}
    (hp : ∀ y, p y = (k y).isSome) (h : xs.find? p = some x) : xs.findSome? k = k x := by
  induction xs with
  | nil => exact absurd h (by simp)
  | cons y xs ih =>
    rw [List.find?_cons] at h
    rw [List.findSome?_cons]
    split at h
    · next hy =>
        rw [hp, Option.isSome_iff_exists] at hy
        obtain ⟨b, hb⟩ := hy
        obtain rfl : y = x := Option.some.inj h
        rw [hb]
    · next hy =>
        rw [hp, Option.isSome_eq_false_iff, Option.isNone_iff_eq_none] at hy
        rw [hy]
        exact ih h

/-- What a lazy group reads that has to read something: one element, and on to the first place at
which what follows it matches. -/
theorem head?_run_lazyGroup {b : Pattern α} (hend : ∀ prev, (run b prev []).isEmpty = false)
    (prev : Option α) (x : α) (text : List α) (index : Nat) :
    ∃ f g :
    Found α, (run (seq (group index (seq (one fun _ => true) (star false (one fun _ => true)))) b)
        prev (x :: text)).head? = some f ∧
      f.groups = g.groups ++
      [(index, x :: upTo (fun prev text => !(run b prev text).isEmpty) (some x) text)] ∧
      ∃ prev rest, g ∈ run b prev rest := by
  let stops : Option α → List α → Bool := fun prev text => !(run b prev text).isEmpty
  have hfind :=
    @find?_run_lazy α stops (fun prev => by rw [Bool.not_eq_true']; exact hend prev) (some x) text
  have hany : run (seq (one fun _ => true) (star false (one fun _ => true))) prev (x :: text) =
      (run (star false (one fun _ => true)) (some x) text).map (Found.append ⟨[x], text, []⟩) := by
    rw [run, run, if_pos rfl, List.flatMap_singleton]
    rfl
  have hbefore (f : Found α) : before prev (x :: f.read) = before (some x) f.read :=
    (before_append prev [x] f.read).symm
  rw [head?_run_seq, run, hany, List.findSome?_map, List.findSome?_map]
  rw [findSome?_of_find? _ hfind]
  · have hstops : stops (before (some x) (upTo stops (some x) text))
        (text.drop (upTo stops (some x) text).length) = true := by
      have := List.find?_some hfind
      exact this
    obtain ⟨g, hg⟩ := Option.isSome_iff_exists.mp (List.isSome_head?.mpr
      (List.isEmpty_eq_false_iff.mp (Bool.not_eq_true' _ ▸ hstops)))
    refine
      ⟨Found.append ⟨x :: upTo stops (some x) text, text.drop (upTo stops (some x) text).length,
      [(index, x :: upTo stops (some x) text)]⟩ g, g, ?_, rfl, _, _, List.mem_of_mem_head? hg⟩
    show Option.map _ (run b (before prev (x :: upTo stops (some x) text)) _).head? = _
    rw
      [show before prev (x :: upTo stops (some x) text) =
        before (some x) (upTo stops (some x) text) from
      (before_append prev [x] _).symm]
    show Option.map _ (run b (before (some x) (upTo stops (some x) text))
      (text.drop (upTo stops (some x) text).length)).head? = _
    rw [hg]
    rfl
  · intro f
    show (!(run b (before (some x) f.read) f.rest).isEmpty) = _
    show _ = (Option.map _ (run b (before prev (x :: f.read)) f.rest).head?).isSome
    rw [Option.isSome_map, hbefore]
    cases run b (before (some x) f.read) f.rest with
    | nil => rfl
    | cons g gs => rfl

end Pattern

end AtlasDb.Lib
