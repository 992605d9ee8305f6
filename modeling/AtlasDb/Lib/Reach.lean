import Mathlib.Data.Finset.Card
import Mathlib.Logic.Relation

/-!
# Searches that remember

`trail next` follows a partial function until it ends or comes back to where it has been, and
`explore next` is a search with a queue that marks a node when it puts it in. With fuel for the
nodes there are, both find what can be reached and nothing else (`mem_trail_iff`,
`mem_explore_iff`).
-/

namespace AtlasDb.Lib

/-! ## Leaving a set -/

/-- A path that ends outside a set it starts in has a first step out of it. -/
theorem exists_step_out {α : Type} {edge : α → α → Prop} {P : α → Prop} {a c : α}
    (h : Relation.ReflTransGen edge a c) (ha : P a) (hc : ¬ P c) :
    ∃ x y, Relation.ReflTransGen (fun u v => edge u v ∧ P v) a x ∧ edge x y ∧ ¬ P y := by
  have hway : ∀ {z}, Relation.ReflTransGen edge a z →
      (∃ x y, Relation.ReflTransGen (fun u v => edge u v ∧ P v) a x ∧ edge x y ∧ ¬ P y) ∨
        (P z ∧ Relation.ReflTransGen (fun u v => edge u v ∧ P v) a z) := by
    intro z hz
    induction hz with
    | refl => exact .inr ⟨ha, .refl⟩
    | @tail y z _ hstep ih =>
      rcases ih with ih | ⟨-, hpath⟩
      · exact .inl ih
      by_cases hz : P z
      · exact .inr ⟨hz, .tail hpath ⟨hstep, hz⟩⟩
      · exact .inl ⟨y, z, hpath, hstep, hz⟩
  rcases hway h with hout | ⟨hin, -⟩
  · exact hout
  · exact absurd hin hc

variable {α : Type} [DecidableEq α]

/-! ## Along a partial function -/

def trail (next : α → Option α) : Nat → Option α → List α → List α
  | 0, _, _ => []
  | _ + 1, none, _ => []
  | fuel + 1, some x, seen => if x ∈ seen then [] else x :: trail next fuel (next x) (x :: seen)

section Trail

variable {next : α → Option α} {domain : Finset α}

theorem reaches_of_mem_trail {fuel : Nat} {current : Option α} {seen : List α} {y : α}
    (h : y ∈ trail next fuel current seen) :
    ∃ x, current = some x ∧ Relation.ReflTransGen (fun a b => next a = some b) x y := by
  induction fuel generalizing current seen with
  | zero => exact nomatch h
  | succ fuel ih =>
    cases current with
    | none => exact nomatch h
    | some x =>
      rw [trail] at h
      split at h
      · exact nomatch h
      · rcases List.mem_cons.mp h with rfl | h
        · exact ⟨y, rfl, .refl⟩
        · obtain ⟨z, hz, hreach⟩ := ih h
          exact ⟨x, rfl, .head hz hreach⟩

/-- What was seen and what is still found are closed together, once the fuel is enough for the nodes
that have a successor. -/
theorem trail_closed (hdomain : ∀ a b, next a = some b → a ∈ domain) {fuel : Nat}
    {current : Option α}
    {seen : List α} (hseen : ∀ a ∈ seen, ∀ b, next a = some b → b ∈ seen ∨ current = some b)
    (hnodup : seen.Nodup) (hsub : ∀ x, current = some x → ∀ a ∈ seen, a ∈ domain)
    (hfuel : domain.card + 1 ≤ fuel + seen.length) :
    (∀ x, current = some x → x ∈ seen ++ trail next fuel current seen) ∧
      ∀ a ∈ seen ++ trail next fuel current seen, ∀ b, next a = some b →
        b ∈ seen ++ trail next fuel current seen := by
  induction fuel generalizing current seen with
  | zero =>
    cases current with
    | none =>
      refine ⟨fun x hx => (nomatch hx), fun a ha b hb => ?_⟩
      rw [trail, List.append_nil] at ha ⊢
      exact (hseen a ha b hb).resolve_right (fun h => nomatch h)
    | some x =>
      -- all that was seen has a successor, so it is no more than the domain
      have hcard := Finset.card_le_card (s := seen.toFinset) (t := domain) fun a ha =>
        hsub x rfl a (List.mem_toFinset.mp ha)
      rw [List.toFinset_card_of_nodup hnodup] at hcard
      omega
  | succ fuel ih =>
    cases current with
    | none =>
      refine ⟨fun x hx => (nomatch hx), fun a ha b hb => ?_⟩
      rw [trail, List.append_nil] at ha ⊢
      exact (hseen a ha b hb).resolve_right (fun h => nomatch h)
    | some x =>
      rw [trail]
      split
      · next hx =>
          rw [List.append_nil]
          constructor
          · rintro _ ⟨⟩
            exact hx
          · intro a ha b hb
            rcases hseen a ha b hb with h | h
            · exact h
            · cases h
              exact hx
      · next hx =>
          obtain ⟨-, hclosed⟩ := @ih (next x) (x :: seen)
            (fun a ha b hb => by
              rcases List.mem_cons.mp ha with rfl | ha
              · exact .inr hb
              · rcases hseen a ha b hb with h | h
                · exact .inl (List.mem_cons_of_mem _ h)
                · cases h
                  exact .inl List.mem_cons_self)
            (List.nodup_cons.mpr ⟨hx, hnodup⟩)
            (fun y hy a ha => by
              rcases List.mem_cons.mp ha with rfl | ha
              · exact hdomain a y hy
              · exact hsub x rfl a ha)
            (by rw [List.length_cons]; omega)
          have hmove (z : α) : z ∈ seen ++ x :: trail next fuel (next x) (x :: seen) ↔
              z ∈ x :: seen ++ trail next fuel (next x) (x :: seen) := by
            simp only [List.mem_append, List.mem_cons]
            tauto
          refine ⟨?_, fun a ha b hb => (hmove b).mpr (hclosed a ((hmove a).mp ha) b hb)⟩
          rintro _ ⟨⟩
          exact (hmove x).mpr (List.mem_append_left _ List.mem_cons_self)

/-- The trail of a node holds what can be reached from it. -/
theorem mem_trail_iff (hdomain : ∀ a b, next a = some b → a ∈ domain) {fuel : Nat}
    (hfuel : domain.card + 1 ≤ fuel) {current : Option α} {y : α} :
    y ∈ trail next fuel current [] ↔
      ∃ x, current = some x ∧ Relation.ReflTransGen (fun a b => next a = some b) x y := by
  refine ⟨reaches_of_mem_trail, ?_⟩
  rintro ⟨x, rfl, hreach⟩
  obtain ⟨hstart, hclosed⟩ := @trail_closed _ _ next domain hdomain fuel (some x) []
    (fun a ha => (nomatch ha)) List.nodup_nil (fun _ _ a ha => (nomatch ha)) hfuel
  induction hreach with
  | refl => exact hstart x rfl
  | tail _ hstep ih => exact hclosed _ ih _ hstep

end Trail

/-! ## With a queue -/

/-- A node not met yet is marked and put at the end of the queue. -/
def discover (found : List α × List α) (x : α) : List α × List α :=
  if x ∈ found.2 then found else (found.1 ++ [x], x :: found.2)

def explore (next : α → List α) : Nat → List α → List α → List α
  | 0, _, reached => reached
  | _ + 1, [], reached => reached
  | fuel + 1, x :: queue, reached =>
    explore next fuel ((next x).foldl discover (queue, reached)).1
      ((next x).foldl discover (queue, reached)).2

section Explore

variable {next : α → List α} {domain : Finset α} {found : List α × List α}

theorem mem_discovered {ys : List α} {z : α} :
    z ∈ (ys.foldl discover found).2 ↔ z ∈ found.2 ∨ z ∈ ys := by
  induction ys generalizing found with
  | nil => simp
  | cons y ys ih =>
    rw [List.foldl_cons, ih, discover]
    split
    · next hy =>
        rw [List.mem_cons]
        constructor
        · rintro (h | h)
          · exact .inl h
          · exact .inr (.inr h)
        · rintro (h | rfl | h)
          · exact .inl h
          · exact .inl hy
          · exact .inr h
    · simp only [List.mem_cons]
      tauto

theorem queue_kept {ys : List α} {z : α} (h : z ∈ found.1) :
    z ∈ (ys.foldl discover found).1 := by
  induction ys generalizing found with
  | nil => exact h
  | cons y ys ih =>
    rw [List.foldl_cons]
    apply ih
    rw [discover]
    split
    · exact h
    · exact List.mem_append_left _ h

theorem queued_of_discovered {ys : List α} {z : α}
    (h : z ∈ (ys.foldl discover found).2) : z ∈ found.2 ∨ z ∈ (ys.foldl discover found).1 := by
  induction ys generalizing found with
  | nil => exact .inl h
  | cons y ys ih =>
    rw [List.foldl_cons] at h ⊢
    rcases ih h with hz | hz
    · rw [discover] at hz
      split at hz
      · exact .inl hz
      · next hy =>
          rcases List.mem_cons.mp hz with rfl | hz
          · refine .inr (queue_kept ?_)
            rw [discover, if_neg hy]
            exact List.mem_append_right _ List.mem_cons_self
          · exact .inl hz
    · exact .inr hz

theorem discovered_of_queued {ys : List α} {z : α}
    (h : z ∈ (ys.foldl discover found).1) : z ∈ found.1 ∨ z ∈ ys := by
  induction ys generalizing found with
  | nil => exact .inl h
  | cons y ys ih =>
    rw [List.foldl_cons] at h
    rcases ih h with hz | hz
    · rw [discover] at hz
      split at hz
      · exact .inl hz
      · rcases List.mem_append.mp hz with hz | hz
        · exact .inl hz
        · exact .inr (List.mem_cons.mpr (.inl (List.mem_singleton.mp hz)))
    · exact .inr (List.mem_cons_of_mem _ hz)

/-- The turns still to be taken: what is queued, and what is not marked. -/
def unexplored (domain : Finset α) (queue reached : List α) : Nat :=
  queue.length + (domain \ reached.toFinset).card

/-- Marking moves a node from the one to the other. -/
theorem unexplored_discovered {ys : List α} (hys : ∀ y ∈ ys, y ∈ domain) {found : List α × List α} :
    unexplored domain (ys.foldl discover found).1 (ys.foldl discover found).2
      = unexplored domain found.1 found.2 := by
  induction ys generalizing found with
  | nil => rfl
  | cons y ys ih =>
    rw [List.foldl_cons, ih fun z hz => hys z (List.mem_cons_of_mem _ hz), discover]
    split
    · rfl
    · next hy =>
        have hmem : y ∈ domain \ found.2.toFinset := by
          simp [hys y List.mem_cons_self, hy]
        have herase : domain \ (y :: found.2).toFinset = (domain \ found.2.toFinset).erase y := by
          ext z
          simp only [Finset.mem_sdiff, List.mem_toFinset, List.mem_cons, Finset.mem_erase, not_or]
          tauto
        have hcard := Finset.card_erase_add_one hmem
        rw [unexplored, unexplored, herase, List.length_append, List.length_singleton]
        omega

/-- With enough fuel the search is closed under successors. -/
theorem explore_closed (hdomain : ∀ x ∈ domain, ∀ y ∈ next x, y ∈ domain) {fuel : Nat}
    {queue reached : List α} (hqueue : ∀ x ∈ queue, x ∈ domain)
    (hnext : ∀ x ∈ reached, x ∈ queue ∨ ∀ y ∈ next x, y ∈ reached)
    (hfuel : unexplored domain queue reached ≤ fuel) :
    (∀ x ∈ reached, x ∈ explore next fuel queue reached) ∧
      ∀ x ∈ explore next fuel queue reached, ∀ y ∈ next x, y ∈ explore next fuel queue reached := by
  induction fuel generalizing queue reached with
  | zero =>
    have hlength : queue.length ≤ 0 := (Nat.le_add_right _ _).trans hfuel
    obtain rfl := List.length_eq_zero_iff.mp (Nat.le_zero.mp hlength)
    exact ⟨fun x hx => hx, fun x hx => (hnext x hx).resolve_left List.not_mem_nil⟩
  | succ fuel ih =>
    cases queue with
    | nil => exact ⟨fun x hx => hx, fun x hx => (hnext x hx).resolve_left List.not_mem_nil⟩
    | cons x queue =>
      have hx := hqueue x List.mem_cons_self
      have hturns := @unexplored_discovered _ _ domain (next x) (hdomain x hx) (queue, reached)
      rw [explore]
      obtain ⟨hkeep, hclosed⟩ := @ih ((next x).foldl discover (queue, reached)).1
        ((next x).foldl discover (queue, reached)).2
        (fun y hy => by
          rcases discovered_of_queued hy with hy | hy
          · exact hqueue y (List.mem_cons_of_mem _ hy)
          · exact hdomain x hx y hy)
        (fun y hy => by
          -- a node marked before is in the rest of the queue, is the one popped, or was expanded
          rcases queued_of_discovered hy with hold | hnew
          · rcases hnext y hold with hq | hdone
            · rcases List.mem_cons.mp hq with rfl | hq
              · exact .inr fun z hz => mem_discovered.mpr (.inr hz)
              · exact .inl (queue_kept hq)
            · exact .inr fun z hz => mem_discovered.mpr (.inl (hdone z hz))
          · exact .inl hnew)
        (by
          rw [hturns]
          simp only [unexplored, List.length_cons] at hfuel ⊢
          omega)
      exact ⟨fun y hy => hkeep y (mem_discovered.mpr (.inl hy)), hclosed⟩

theorem reaches_of_mem_explore {start : α} {fuel : Nat} {queue reached : List α}
    (hqueue : ∀ x ∈ queue, Relation.ReflTransGen (fun a b => b ∈ next a) start x)
    (hreached : ∀ x ∈ reached, Relation.ReflTransGen (fun a b => b ∈ next a) start x) {y : α}
    (hy : y ∈ explore next fuel queue reached) :
    Relation.ReflTransGen (fun a b => b ∈ next a) start y := by
  induction fuel generalizing queue reached with
  | zero => exact hreached y hy
  | succ fuel ih =>
    cases queue with
    | nil => exact hreached y hy
    | cons x queue =>
      have hx := hqueue x List.mem_cons_self
      rw [explore] at hy
      apply ih _ _ hy
      · intro z hz
        rcases discovered_of_queued hz with hz | hz
        · exact hqueue z (List.mem_cons_of_mem _ hz)
        · exact hx.tail hz
      · intro z hz
        rcases mem_discovered.mp hz with hz | hz
        · exact hreached z hz
        · exact hx.tail hz

/-- The search from a node marks what can be reached from it. -/
theorem mem_explore_iff (hdomain : ∀ x ∈ domain, ∀ y ∈ next x, y ∈ domain) {start : α}
    (hstart : start ∈ domain) {fuel : Nat} (hfuel : domain.card ≤ fuel) {y : α} :
    y ∈ explore next fuel [start] [start] ↔
      Relation.ReflTransGen (fun a b => b ∈ next a) start y := by
  constructor
  · apply reaches_of_mem_explore
    · rintro x hx
      rw [List.mem_singleton.mp hx]
    · rintro x hx
      rw [List.mem_singleton.mp hx]
  · intro hreach
    have hturns : unexplored domain [start] [start] ≤ fuel := by
      have hcard := Finset.card_erase_add_one hstart
      rw [unexplored, List.toFinset_cons, List.toFinset_nil, insert_empty_eq, List.length_singleton,
        Finset.sdiff_singleton_eq_erase]
      omega
    obtain ⟨hkeep, hclosed⟩ := explore_closed hdomain
      (fun x hx => by rw [List.mem_singleton.mp hx]; exact hstart) (fun x hx => .inl hx) hturns
    induction hreach with
    | refl => exact hkeep start List.mem_cons_self
    | tail _ hstep ih => exact hclosed _ ih _ hstep

end Explore

end AtlasDb.Lib
