import Mathlib.Algebra.BigOperators.Group.Finset.Basic
import Mathlib.Algebra.Order.BigOperators.Group.Finset
import Mathlib.Logic.Relation
import Mathlib.Algebra.GroupWithZero.Nat

/-!
# Search with a stack

`search next fuel stack visited` pops a node, skips it when it was visited, and otherwise visits it
and pushes its successors. A node is expanded once, so the successors of all nodes together bound
the number of turns: with that much fuel the result is exactly what can be reached
(`mem_search_iff`). `traverse` is the same search for a client that keeps a state of its own, and
`drain` one that does not remember what it has visited.
-/

namespace AtlasDb.Lib

variable {α : Type} [DecidableEq α]

def search (next : α → List α) : Nat → List α → List α → List α
  | 0, _, visited => visited
  | _ + 1, [], visited => visited
  | fuel + 1, x :: stack, visited =>
    if x ∈ visited then search next fuel stack visited
    else search next fuel (next x ++ stack) (x :: visited)

/-- The turns still to be taken: what is on the stack, and what the nodes of the domain not yet
visited will push. -/
def pendingTurns (next : α → List α) (domain : Finset α) (stack visited : List α) : Nat :=
  stack.length + ∑ x ∈ domain \ visited.toFinset, (next x).length

theorem pendingTurns_visit {next : α → List α} {domain : Finset α} {stack visited : List α} {x : α}
    (hx : x ∈ domain) (hnew : x ∉ visited) :
    pendingTurns next domain (x :: stack) visited
      = pendingTurns next domain (next x ++ stack) (x :: visited) + 1 := by
  have hmem : x ∈ domain \ visited.toFinset := by simp [hx, hnew]
  have hsplit := Finset.sum_erase_add _ (fun x => (next x).length) hmem
  have herase : (domain \ visited.toFinset).erase x = domain \ (x :: visited).toFinset := by
    ext y
    simp only [Finset.mem_erase, Finset.mem_sdiff, List.mem_toFinset, List.mem_cons, not_or]
    tauto
  simp only [pendingTurns, List.length_cons, List.length_append, ← hsplit, herase]
  omega

/-- A bound on the turns of a search from one node. -/
theorem pendingTurns_start_le {next : α → List α} {domain : Finset α} {start : α} {n m : Nat}
    (hcard : domain.card ≤ n) (hlength : ∀ x, (next x).length ≤ m) :
    pendingTurns next domain [start] [] ≤ n * m + 1 := by
  have hsum : ∑ x ∈ domain, (next x).length ≤ domain.card * m := by
    simpa using Finset.sum_le_card_nsmul domain (fun x => (next x).length) m fun x _ => hlength x
  have hmul := Nat.mul_le_mul_right m hcard
  simp only [pendingTurns, List.length_cons, List.length_nil, List.toFinset_nil,
    Finset.sdiff_empty]
  omega

/-- The stack is empty within the turns that are pending: more fuel changes nothing. -/
theorem search_fuel {next : α → List α} {domain : Finset α} {fuel : Nat} (extra : Nat)
    {stack visited : List α} (hdomain : ∀ x ∈ domain, ∀ y ∈ next x, y ∈ domain)
    (hstack : ∀ x ∈ stack, x ∈ domain) (hfuel : pendingTurns next domain stack visited ≤ fuel) :
    search next (fuel + extra) stack visited = search next fuel stack visited := by
  induction fuel generalizing stack visited with
  | zero =>
    have hlength : stack.length ≤ 0 := (Nat.le_add_right _ _).trans hfuel
    obtain rfl := List.length_eq_zero_iff.mp (Nat.le_zero.mp hlength)
    cases extra with
    | zero => rfl
    | succ extra => rw [Nat.zero_add, search, search]
  | succ fuel ih =>
    rw [Nat.succ_add]
    cases stack with
    | nil => rfl
    | cons x stack =>
      have hx := hstack x List.mem_cons_self
      have hrest (y : α) (hy : y ∈ stack) : y ∈ domain := hstack y (List.mem_cons_of_mem _ hy)
      rw [search, search]
      split
      · apply ih hrest
        simp only [pendingTurns, List.length_cons] at hfuel ⊢
        omega
      · next hnew =>
          apply ih
          · intro y hy
            rcases List.mem_append.mp hy with hy | hy
            · exact hdomain x hx y hy
            · exact hrest y hy
          · rw [pendingTurns_visit hx hnew] at hfuel
            omega

/-! ## Searches with a state

The client does something at each node it visits, and puts the successors before or after what is
pending.
-/

variable {σ : Type}

def traverse (push : List α → List α → List α) (next : α → List α) (visit : σ → α → σ) :
    Nat → List α → List α → σ → List α × σ
  | 0, _, visited, s => (visited, s)
  | _ + 1, [], visited, s => (visited, s)
  | fuel + 1, x :: pending, visited, s =>
    if x ∈ visited then traverse push next visit fuel pending visited s
    else traverse push next visit fuel (push (next x) pending) (x :: visited) (visit s x)

/-- Nothing is lost or made up where successors are put. -/
structure Pushes (push : List α → List α → List α) : Prop where
  mem : ∀ new old x, x ∈ push new old ↔ x ∈ new ∨ x ∈ old
  length : ∀ new old, (push new old).length = new.length + old.length

omit [DecidableEq α] in
theorem pushes_stack : Pushes fun new old : List α => new ++ old :=
  ⟨fun _ _ _ => List.mem_append, fun _ _ => List.length_append⟩

omit [DecidableEq α] in
theorem pushes_queue : Pushes fun new old : List α => old ++ new :=
  ⟨fun _ _ _ => List.mem_append.trans Or.comm, fun _ _ =>
    List.length_append.trans (Nat.add_comm _ _)⟩

theorem search_eq_traverse (next : α → List α) (fuel : Nat) (stack visited : List α) :
    search next fuel stack visited =
      (traverse (fun new old => new ++ old) next (fun (s : Unit) _ => s) fuel stack
        visited ()).1 := by
  induction fuel generalizing stack visited with
  | zero => rfl
  | succ fuel ih =>
    cases stack with
    | nil => rfl
    | cons x stack =>
      simp only [search, traverse]
      split
      · exact ih stack visited
      · exact ih (next x ++ stack) (x :: visited)

section

variable {push : List α → List α → List α} {next : α → List α} {visit : σ → α → σ}
  {domain : Finset α}

/-- With enough fuel the result holds what was visited and pending, and is closed under `next`. -/
theorem traverse_closed (hpush : Pushes push) {fuel : Nat} {pending visited : List α} {s : σ}
    (hdomain : ∀ x ∈ domain, ∀ y ∈ next x, y ∈ domain) (hpending : ∀ x ∈ pending, x ∈ domain)
    (hfuel : pendingTurns next domain pending visited ≤ fuel)
    (hnext : ∀ x ∈ visited, ∀ y ∈ next x, y ∈ visited ∨ y ∈ pending) :
    (∀ x ∈ visited ++ pending, x ∈ (traverse push next visit fuel pending visited s).1) ∧
      ∀ x ∈ (traverse push next visit fuel pending visited s).1, ∀ y ∈ next x,
        y ∈ (traverse push next visit fuel pending visited s).1 := by
  induction fuel generalizing pending visited s with
  | zero =>
    obtain rfl : pending = [] := by
      have : pending.length = 0 := by simp only [pendingTurns] at hfuel; omega
      exact List.length_eq_zero_iff.mp this
    simpa [traverse] using hnext
  | succ fuel ih =>
    cases pending with
    | nil => simpa [traverse] using hnext
    | cons x pending =>
      have hx := hpending x List.mem_cons_self
      have hrest := fun y hy => hpending y (List.mem_cons_of_mem _ hy)
      simp only [traverse]
      split
      · next hvisited =>
          have hfuel' : pendingTurns next domain pending visited ≤ fuel := by
            simp only [pendingTurns, List.length_cons] at hfuel ⊢
            omega
          obtain ⟨hkeep, hclosed⟩ := @ih pending visited s hrest hfuel' fun y hy z hz => by
            rcases hnext y hy z hz with h | h
            · exact .inl h
            · rcases List.mem_cons.mp h with rfl | h
              · exact .inl hvisited
              · exact .inr h
          refine ⟨fun y hy => hkeep y ?_, hclosed⟩
          simp only [List.mem_append, List.mem_cons] at hy ⊢
          rcases hy with h | rfl | h
          · exact .inl h
          · exact .inl hvisited
          · exact .inr h
      · next hnew =>
          rw [pendingTurns_visit hx hnew] at hfuel
          have hlength : pendingTurns next domain (push (next x) pending) (x :: visited) =
              pendingTurns next domain (next x ++ pending) (x :: visited) := by
            simp only [pendingTurns, hpush.length, List.length_append]
          obtain ⟨hkeep, hclosed⟩ := @ih (push (next x) pending) (x :: visited) (visit s x)
            (fun y hy => ((hpush.mem _ _ y).mp hy).elim (hdomain x hx y) (hrest y))
            (by omega) fun y hy z hz => by
              rw [hpush.mem]
              rcases List.mem_cons.mp hy with rfl | hy
              · exact .inr (.inl hz)
              · have := hnext y hy z hz
                simp only [List.mem_cons] at this ⊢
                tauto
          refine ⟨fun y hy => hkeep y ?_, hclosed⟩
          simp only [List.mem_append, List.mem_cons, hpush.mem] at hy ⊢
          tauto

theorem traverse_reachable (hpush : Pushes push) {fuel : Nat} {pending visited : List α} {s : σ}
    {x : α} (hx : x ∈ (traverse push next visit fuel pending visited s).1) :
    x ∈ visited ∨ ∃ y ∈ pending, Relation.ReflTransGen (fun a b => b ∈ next a) y x := by
  induction fuel generalizing pending visited s with
  | zero => exact .inl hx
  | succ fuel ih =>
    cases pending with
    | nil => exact .inl hx
    | cons y pending =>
      simp only [traverse] at hx
      split at hx
      · exact (ih hx).imp_right fun ⟨z, hz, h⟩ => ⟨z, List.mem_cons_of_mem _ hz, h⟩
      · rcases ih hx with h | ⟨z, hz, h⟩
        · rcases List.mem_cons.mp h with rfl | h
          · exact .inr ⟨x, List.mem_cons_self, .refl⟩
          · exact .inl h
        · rcases (hpush.mem _ _ z).mp hz with hz | hz
          · exact .inr ⟨y, List.mem_cons_self, .head hz h⟩
          · exact .inr ⟨z, List.mem_cons_of_mem _ hz, h⟩

/-- With fuel for every turn, the traversal visits what can be reached. -/
theorem mem_traverse_iff (hpush : Pushes push) (domain : Finset α) {fuel : Nat} {pending : List α}
    {s : σ} {x : α} (hdomain : ∀ x ∈ domain, ∀ y ∈ next x, y ∈ domain)
    (hpending : ∀ x ∈ pending, x ∈ domain) (hfuel : pendingTurns next domain pending [] ≤ fuel) :
    x ∈ (traverse push next visit fuel pending [] s).1 ↔
      ∃ y ∈ pending, Relation.ReflTransGen (fun a b => b ∈ next a) y x := by
  constructor
  · intro hx
    rcases traverse_reachable hpush hx with hnil | hreach
    · cases hnil
    · exact hreach
  · rintro ⟨y, hy, hreach⟩
    obtain ⟨hkeep, hclosed⟩ :=
      @traverse_closed α _ σ push next visit domain hpush fuel pending [] s hdomain hpending hfuel
        (fun x hx => (nomatch hx))
    induction hreach with
    | refl => exact hkeep y (by simpa using hy)
    | tail _ hstep ih => exact hclosed _ ih _ hstep

/-- **Invariant rule**: what each visit keeps holds of the nodes visited and the final state. -/
theorem traverse_invariant {P : List α → σ → Prop}
    (hvisit : ∀ visited s x, P visited s → P (x :: visited) (visit s x)) {fuel : Nat}
    {pending visited : List α} {s : σ} (h : P visited s) :
    P (traverse push next visit fuel pending visited s).1
      (traverse push next visit fuel pending visited s).2 := by
  induction fuel generalizing pending visited s with
  | zero => exact h
  | succ fuel ih =>
    cases pending with
    | nil => exact h
    | cons x pending =>
      simp only [traverse]
      split
      · exact ih h
      · exact ih (hvisit visited s x h)

/-- From one node, with fuel for every turn, the search finds what can be reached. -/
theorem mem_search_iff (domain : Finset α) {fuel : Nat} {start x : α}
    (hdomain : ∀ x ∈ domain, ∀ y ∈ next x, y ∈ domain) (hstart : start ∈ domain)
    (hfuel : pendingTurns next domain [start] [] ≤ fuel) :
    x ∈ search next fuel [start] [] ↔ Relation.ReflTransGen (fun a b => b ∈ next a) start x := by
  rw
    [search_eq_traverse, mem_traverse_iff pushes_stack domain hdomain (by simpa using hstart) hfuel]
  simp

end

/-! ## Queues without a memory -/

section Drain

variable {α : Type} {next : α → List α} {visit : σ → α → σ}

/-- Take what is first, and append its successors; nothing is skipped. -/
def drain (next : α → List α) (visit : σ → α → σ) : Nat → List α → σ → σ
  | 0, _, s => s
  | _ + 1, [], s => s
  | fuel + 1, x :: queue, s => drain next visit fuel (queue ++ next x) (visit s x)

/-- What visits keep holds in the end. -/
theorem drain_keeps {P : σ → Prop} (hkeep : ∀ s x, P s → P (visit s x)) {fuel : Nat}
    {queue : List α} {s : σ} (h : P s) : P (drain next visit fuel queue s) := by
  induction fuel generalizing queue s with
  | zero => exact h
  | succ fuel ih =>
    cases queue with
    | nil => exact h
    | cons x queue => exact ih (hkeep s x h)

/-- If the successors of a node weigh less than the node, fuel for the weight of the queue is enough
for everything that can be reached to be visited. -/
theorem drain_visits {weight : α → Nat} (hweight : ∀ x, ((next x).map weight).sum < weight x)
    {P : α → σ → Prop} (hvisit : ∀ s x, P x (visit s x)) (hkeep : ∀ s x y, P x s → P x (visit s y))
    {fuel : Nat} {queue : List α} {s : σ} (hfuel : (queue.map weight).sum ≤ fuel) {x y : α}
    (hy : y ∈ queue) (hpath : Relation.ReflTransGen (fun a b => b ∈ next a) y x) :
    P x (drain next visit fuel queue s) := by
  induction fuel generalizing queue s y with
  | zero =>
    have hmem : weight y ≤ (queue.map weight).sum :=
      List.le_sum_of_mem (List.mem_map.2 ⟨y, hy, rfl⟩)
    have hpos := hweight y
    omega
  | succ fuel ih =>
    cases queue with
    | nil => cases hy
    | cons z queue =>
      have hrest : ((queue ++ next z).map weight).sum ≤ fuel := by
        have hz := hweight z
        rw [List.map_cons, List.sum_cons] at hfuel
        rw [List.map_append, List.sum_append]
        omega
      rw [drain]
      rcases List.mem_cons.1 hy with rfl | hy
      · rcases hpath.cases_head with rfl | ⟨y', hstep, hpath'⟩
        · exact drain_keeps (fun s x => hkeep s _ x) (hvisit s _)
        · exact ih hrest (List.mem_append_right _ hstep) hpath'
      · exact ih hrest (List.mem_append_left _ hy) hpath

/-- The nodes in the order in which a queue takes them. -/
def turns (next : α → List α) : Nat → List α → List α
  | 0, _ => []
  | _ + 1, [] => []
  | fuel + 1, x :: queue => x :: turns next fuel (queue ++ next x)

/-- What a queue leaves behind is folded from its turns. -/
theorem drain_eq_foldl {fuel : Nat} {queue : List α} {s : σ} :
    drain next visit fuel queue s = (turns next fuel queue).foldl visit s := by
  induction fuel generalizing queue s with
  | zero => rfl
  | succ fuel ih =>
    cases queue with
    | nil => rfl
    | cons x queue => rw [drain, ih, turns, List.foldl_cons]

/-- More fuel than the queue weighs takes no further turn. -/
theorem turns_fuel {weight : α → Nat} (hweight : ∀ x, ((next x).map weight).sum < weight x)
    {fuel : Nat} (extra : Nat) {queue : List α} (hfuel : (queue.map weight).sum ≤ fuel) :
    turns next (fuel + extra) queue = turns next fuel queue := by
  induction fuel generalizing queue with
  | zero =>
    cases queue with
    | nil => cases extra with
      | zero => rfl
      | succ extra => rfl
    | cons x queue =>
      have hpos := hweight x
      rw [List.map_cons, List.sum_cons] at hfuel
      omega
  | succ fuel ih =>
    rw [Nat.succ_add]
    cases queue with
    | nil => rfl
    | cons x queue =>
      have hx := hweight x
      rw [List.map_cons, List.sum_cons] at hfuel
      rw [turns, turns, ih]
      rw [List.map_append, List.sum_append]
      omega

/-- Within its fuel a queue takes what can be reached, and nothing else. -/
theorem mem_turns_iff {weight : α → Nat} (hweight : ∀ x, ((next x).map weight).sum < weight x)
    {fuel : Nat} {queue : List α} (hfuel : (queue.map weight).sum ≤ fuel) {x : α} :
    x ∈ turns next fuel queue ↔
      ∃ y ∈ queue, Relation.ReflTransGen (fun a b => b ∈ next a) y x := by
  constructor
  · intro h
    clear hfuel
    induction fuel generalizing queue with
    | zero => cases h
    | succ fuel ih =>
      cases queue with
      | nil => cases h
      | cons z queue =>
        rw [turns] at h
        rcases List.mem_cons.1 h with rfl | h
        · exact ⟨x, List.mem_cons_self, .refl⟩
        · obtain ⟨y, hy, hpath⟩ := ih h
          rcases List.mem_append.1 hy with hy | hy
          · exact ⟨y, List.mem_cons_of_mem _ hy, hpath⟩
          · exact ⟨z, List.mem_cons_self, .head hy hpath⟩
  · rintro ⟨y, hy, hpath⟩
    -- a client that writes down its visits sees the node
    have hvisited : x ∈ drain next (fun seen y => y :: seen) fuel queue [] :=
      drain_visits (P := fun y seen => y ∈ seen) hweight (fun _ _ => List.mem_cons_self)
        (fun _ _ _ h => List.mem_cons_of_mem _ h) hfuel hy hpath
    rw [drain_eq_foldl] at hvisited
    simpa using hvisited

/-- A queue whose nodes are sorted by rank, over at most two ranks, stays so when each successor
ranks one above its node: the turns are sorted by rank. -/
theorem turns_sorted {rank : α → Nat} (hrank : ∀ x, ∀ y ∈ next x, rank y = rank x + 1) {fuel : Nat}
    {queue : List α} (hsorted : queue.Pairwise fun x y => rank x ≤ rank y)
    (hspan : ∀ x ∈ queue.head?, ∀ y ∈ queue, rank y ≤ rank x + 1) :
    (turns next fuel queue).Pairwise fun x y => rank x ≤ rank y := by
  have hbound {fuel : Nat} {queue : List α} {bound : Nat} (hqueue : ∀ x ∈ queue, bound ≤ rank x) :
      ∀ x ∈ turns next fuel queue, bound ≤ rank x := by
    induction fuel generalizing queue with
    | zero => exact nofun
    | succ fuel ih =>
      cases queue with
      | nil => exact nofun
      | cons z queue =>
        have hz := hqueue z List.mem_cons_self
        intro x hx
        rw [turns] at hx
        rcases List.mem_cons.1 hx with rfl | hx
        · exact hz
        · refine ih (fun y hy => ?_) x hx
          rcases List.mem_append.1 hy with hy | hy
          · exact hqueue y (List.mem_cons_of_mem _ hy)
          · rw [hrank z y hy]
            omega
  induction fuel generalizing queue with
  | zero => exact .nil
  | succ fuel ih =>
    cases queue with
    | nil => exact .nil
    | cons z queue =>
      obtain ⟨hfirst, hrest⟩ := List.pairwise_cons.1 hsorted
      have hnext : ∀ y ∈ queue ++ next z, rank z ≤ rank y ∧ rank y ≤ rank z + 1 := by
        intro y hy
        rcases List.mem_append.1 hy with hy | hy
        · exact ⟨hfirst y hy, hspan z rfl y (List.mem_cons_of_mem _ hy)⟩
        · rw [hrank z y hy]
          omega
      rw [turns]
      refine List.pairwise_cons.2 ⟨hbound fun y hy => (hnext y hy).1, ih ?_ ?_⟩
      · refine List.pairwise_append.2 ⟨hrest, ?_, ?_⟩
        · refine List.pairwise_of_forall_mem_list fun x hx y hy => ?_
          rw [hrank z x hx, hrank z y hy]
        · intro x hx y hy
          have hle := hspan z rfl x (List.mem_cons_of_mem _ hx)
          rwa [hrank z y hy]
      · intro x hx y hy
        have hxz := (hnext x (List.mem_of_mem_head? hx)).1
        have hyz := (hnext y hy).2
        omega

end Drain

end AtlasDb.Lib
