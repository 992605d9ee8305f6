import Mathlib.Algebra.BigOperators.Group.Finset.Basic
import Mathlib.Algebra.Order.BigOperators.Group.Finset
import Mathlib.Data.Finset.Union

/-!
# Forward flow of facts

A graph whose nodes generate and kill facts. What reaches a node is what some path from the entry
brings there: an initial fact that no node on the way kills (`Clear`), or one that a node generated
and none after it kills (`Generated`).

`solveFlow` computes this with a work list: the state after a node is recomputed when the state
before it has changed, and merged anew before each of its successors. States only grow, so the
number of nodes times the number of facts bounds the turns, and what is left in the end is exactly
what reaches (`mem_incoming_iff`).
-/

namespace AtlasDb.Lib

structure FlowProblem (N φ : Type) [DecidableEq φ] where
  edges : List (N × N)
  entry : N
  init : Finset φ
  gen : N → Finset φ
  kills : N → φ → Bool

/-- What is known before and after each node reached so far, and the nodes to be looked at. -/
structure FlowState (N φ : Type) where
  incoming : N → Option (Finset φ)
  outgoing : N → Option (Finset φ)
  work : List N

namespace FlowProblem

variable {N φ : Type} [DecidableEq φ] (p : FlowProblem N φ)

/-! ## Paths -/

inductive Reached : N → Prop where
  | entry : Reached p.entry
  | step {n m : N} (h : Reached n) (he : (n, m) ∈ p.edges) : Reached m

/-- Some path from the entry to the node kills the fact nowhere. -/
inductive Clear (x : φ) : N → Prop where
  | entry : Clear x p.entry
  | step {n m : N} (h : Clear x n) (hkill : p.kills n x = false) (he : (n, m) ∈ p.edges) : Clear x m

/-- Some path from the entry generates the fact and does not kill it afterwards. -/
inductive Generated (x : φ) : N → Prop where
  | gen {n m : N} (h : p.Reached n) (hx : x ∈ p.gen n) (he : (n, m) ∈ p.edges) : Generated x m
  | step {n m : N} (h : Generated x n) (hkill : p.kills n x = false) (he : (n, m) ∈ p.edges) :
      Generated x m

/-- The fact reaches the node. -/
def Reaches (x : φ) (n : N) : Prop := (x ∈ p.init ∧ p.Clear x n) ∨ p.Generated x n

/-- The fact leaves the node. -/
def Leaves (x : φ) (n : N) : Prop := (p.Reaches x n ∧ p.kills n x = false) ∨ x ∈ p.gen n

variable {p}

theorem Leaves.step {x : φ} {n m : N} (hn : p.Reached n) (h : p.Leaves x n)
    (he : (n, m) ∈ p.edges) : p.Reaches x m := by
  rcases h with ⟨⟨hinit, hclear⟩ | hgen, hkill⟩ | hx
  · exact .inl ⟨hinit, .step hclear hkill he⟩
  · exact .inr (.step hgen hkill he)
  · exact .inr (.gen hn hx he)

/-! ## The solver -/

variable (p) in
/-- The facts after a node. -/
def transfer (n : N) (facts : Finset φ) : Finset φ :=
  (facts.filter fun x => p.kills n x = false) ∪ p.gen n

theorem mem_transfer {n : N} {facts : Finset φ} {x : φ} :
    x ∈ p.transfer n facts ↔ (x ∈ facts ∧ p.kills n x = false) ∨ x ∈ p.gen n := by
  unfold transfer
  rw [Finset.mem_union, Finset.mem_filter]

theorem transfer_mono {n : N} {A B : Finset φ} (h : A ⊆ B) : p.transfer n A ⊆ p.transfer n B := by
  intro x hx
  rcases mem_transfer.1 hx with ⟨hA, hkill⟩ | hgen
  · exact mem_transfer.2 (.inl ⟨h hA, hkill⟩)
  · exact mem_transfer.2 (.inr hgen)

variable [DecidableEq N] (p)

def succs (n : N) : List N := ((p.edges.filter fun e => e.1 = n).map Prod.snd).dedup

def preds (n : N) : List N := ((p.edges.filter fun e => e.2 = n).map Prod.fst).dedup

/-- The facts that come from the predecessors. -/
def merged (outgoing : N → Option (Finset φ)) (m : N) : Finset φ :=
  (p.preds m).foldr (fun n facts => (outgoing n).getD ∅ ∪ facts) ∅

/-- One successor of the node that was looked at. -/
def spread (s : FlowState N φ) (m : N) : FlowState N φ :=
  if s.incoming m = some (p.merged s.outgoing m) then s
  else
    { s with
      incoming := Function.update s.incoming m (some (p.merged s.outgoing m))
      work := if m ∈ s.work then s.work else s.work ++ [m] }

/-- One turn of the loop, for a node taken from the work list. -/
def visit (s : FlowState N φ) (n : N) : FlowState N φ :=
  let after := p.transfer n ((s.incoming n).getD ∅)
  if s.outgoing n = some after then s
  else (p.succs n).foldl p.spread { s with outgoing := Function.update s.outgoing n (some after) }

def flowLoop : Nat → FlowState N φ → FlowState N φ
  | 0, s => s
  | fuel + 1, s =>
    match s.work with
    | [] => s
    | n :: work => flowLoop fuel (p.visit { s with work := work } n)

def nodes : Finset N := (p.entry :: p.edges.flatMap fun e => [e.1, e.2]).toFinset

def facts : Finset φ := p.init ∪ p.nodes.biUnion p.gen

def start : FlowState N φ where
  incoming := Function.update (fun _ => none) p.entry (some p.init)
  outgoing := fun _ => none
  work := [p.entry]

def solveFlow : FlowState N φ :=
  p.flowLoop (p.nodes.card * (p.facts.card + 1) + 1) p.start

variable {p}

theorem mem_succs {n m : N} : m ∈ p.succs n ↔ (n, m) ∈ p.edges := by
  unfold succs
  rw [List.mem_dedup, List.mem_map]
  constructor
  · rintro ⟨e, he, rfl⟩
    obtain ⟨hmem, hn⟩ := List.mem_filter.1 he
    rw [← of_decide_eq_true hn]
    exact hmem
  · intro h
    exact ⟨(n, m), List.mem_filter.2 ⟨h, decide_eq_true rfl⟩, rfl⟩

theorem mem_preds {n m : N} : n ∈ p.preds m ↔ (n, m) ∈ p.edges := by
  unfold preds
  rw [List.mem_dedup, List.mem_map]
  constructor
  · rintro ⟨e, he, rfl⟩
    obtain ⟨hmem, hm⟩ := List.mem_filter.1 he
    rw [← of_decide_eq_true hm]
    exact hmem
  · intro h
    exact ⟨(n, m), List.mem_filter.2 ⟨h, decide_eq_true rfl⟩, rfl⟩

theorem mem_merged {outgoing : N → Option (Finset φ)} {m : N} {x : φ} :
    x ∈ p.merged outgoing m ↔ ∃ n S, (n, m) ∈ p.edges ∧ outgoing n = some S ∧ x ∈ S := by
  have hfold : ∀ ns : List N, x ∈ ns.foldr (fun n facts => (outgoing n).getD ∅ ∪ facts) ∅ ↔
      ∃ n ∈ ns, ∃ S, outgoing n = some S ∧ x ∈ S := by
    intro ns
    induction ns with
    | nil => simp
    | cons n ns ih =>
      rw [List.foldr_cons, Finset.mem_union, ih]
      cases h : outgoing n with
      | none => simp [h]
      | some S => simp [h]
  unfold merged
  rw [hfold]
  constructor
  · rintro ⟨n, hn, S, hS, hx⟩
    exact ⟨n, S, mem_preds.1 hn, hS, hx⟩
  · rintro ⟨n, S, he, hS, hx⟩
    exact ⟨n, mem_preds.2 he, S, hS, hx⟩

/-! ## The invariant of the loop -/

variable (p) in
/-- What holds while the successors `pending` of `current` have still to be looked at. The states
hold only what reaches; what leaves a node is before its successors; a node whose outgoing state is
out of date is on the work list. -/
structure FlowInv (current : N) (pending : List N) (s : FlowState N φ) : Prop where
  entry : s.incoming p.entry = some p.init
  incoming : ∀ n I, s.incoming n = some I → p.Reached n ∧ ∀ x ∈ I, p.Reaches x n
  outgoing : ∀ n S, s.outgoing n = some S → p.Reached n ∧ ∃ I, s.incoming n = some I ∧
    S ⊆ p.transfer n I
  settled : ∀ n I, s.incoming n = some I → n ∈ s.work ∨ s.outgoing n = some (p.transfer n I)
  flow : ∀ n S m, s.outgoing n = some S → (n, m) ∈ p.edges →
    (∃ I, s.incoming m = some I ∧ S ⊆ I) ∨ n = current ∧ m ∈ pending
  below : ∀ m I, m ≠ p.entry → s.incoming m = some I → I ⊆ p.merged s.outgoing m
  queued : ∀ n ∈ s.work, ∃ I, s.incoming n = some I

namespace FlowInv

variable {current : N} {pending : List N} {s : FlowState N φ}

theorem leaves (h : p.FlowInv current pending s) {n : N} {S : Finset φ}
    (hS : s.outgoing n = some S) {x : φ} (hx : x ∈ S) : p.Leaves x n := by
  obtain ⟨-, I, hI, hsub⟩ := h.outgoing n S hS
  rcases mem_transfer.1 (hsub hx) with ⟨hxI, hkill⟩ | hgen
  · exact .inl ⟨(h.incoming n I hI).2 x hxI, hkill⟩
  · exact .inr hgen

/-- What comes from the predecessors reaches. -/
theorem merged_reaches (h : p.FlowInv current pending s) {m : N} {x : φ}
    (hx : x ∈ p.merged s.outgoing m) : p.Reaches x m := by
  obtain ⟨n, S, he, hS, hxS⟩ := mem_merged.1 hx
  exact (h.leaves hS hxS).step (h.outgoing n S hS).1 he

end FlowInv

variable {s : FlowState N φ}

section Loop

variable (hentry : ∀ n, (n, p.entry) ∉ p.edges)

/-- What looking at a successor does, if it does anything. -/
theorem spread_cases (s : FlowState N φ) (m : N) :
    (s.incoming m = some (p.merged s.outgoing m) ∧ p.spread s m = s) ∨
    (s.incoming m ≠ some (p.merged s.outgoing m) ∧
      (p.spread s m).incoming m = some (p.merged s.outgoing m) ∧
      (∀ n, n ≠ m → (p.spread s m).incoming n = s.incoming n) ∧
      (p.spread s m).outgoing = s.outgoing ∧ m ∈ (p.spread s m).work ∧
      (∀ n ∈ s.work, n ∈ (p.spread s m).work) ∧ (∀ n ∈ (p.spread s m).work, n ∈ s.work ∨ n = m) ∧
      (p.spread s m).work.length ≤ s.work.length + 1) := by
  unfold spread
  by_cases hsame : s.incoming m = some (p.merged s.outgoing m)
  · rw [if_pos hsame]
    exact .inl ⟨hsame, rfl⟩
  · rw [if_neg hsame]
    refine .inr ⟨hsame, Function.update_self .., fun n hn => Function.update_of_ne hn .., rfl, ?_⟩
    by_cases hmem : m ∈ s.work
    · simp only [if_pos hmem]
      exact ⟨hmem, fun _ hn => hn, fun _ hn => .inl hn, Nat.le_succ _⟩
    · simp only [if_neg hmem]
      refine ⟨List.mem_append_right _ (List.mem_singleton.2 rfl),
        fun n hn => List.mem_append_left _ hn,
        fun n hn => (List.mem_append.1 hn).imp_right List.mem_singleton.1, ?_⟩
      rw [List.length_append, List.length_singleton]

include hentry in
/-- Spreading to a successor keeps the invariant. -/
theorem spread_inv {current m : N} {pending : List N}
    (h : p.FlowInv current (m :: pending) s) (hm : (current, m) ∈ p.edges)
    (hcurrent : p.Reached current) : p.FlowInv current pending (p.spread s m) := by
  have hmentry : m ≠ p.entry := fun heq => hentry current (heq ▸ hm)
  have hsub : ∀ n S, (n, m) ∈ p.edges → s.outgoing n = some S → S ⊆ p.merged s.outgoing m :=
    fun n S he hS x hx => mem_merged.2 ⟨n, S, he, hS, hx⟩
  rcases p.spread_cases s m with ⟨hsame, heq⟩ | ⟨-, hself, hother, hout, hmwork, hwork, hwork', -⟩
  · rw [heq]
    refine { h with flow := fun n S m' hS he => ?_ }
    rcases h.flow n S m' hS he with hflow | ⟨hn, hmem⟩
    · exact .inl hflow
    · rcases List.mem_cons.1 hmem with rfl | hmem
      · exact .inl ⟨_, hsame, hsub n S he hS⟩
      · exact .inr ⟨hn, hmem⟩
  · generalize p.spread s m = s' at *
    refine ⟨?_, fun n I hI => ?_, fun n S hS => ?_, fun n I hI => ?_, fun n S m' hS he => ?_,
      fun n I hne hI => ?_, fun n hn => ?_⟩
    · rw [hother _ hmentry.symm]
      exact h.entry
    · by_cases hn : n = m
      · subst hn
        rw [hself] at hI
        cases hI
        exact ⟨.step hcurrent hm, fun x hx => h.merged_reaches hx⟩
      · rw [hother n hn] at hI
        exact h.incoming n I hI
    · rw [hout] at hS
      obtain ⟨hreached, I, hI, hS'⟩ := h.outgoing n S hS
      refine ⟨hreached, ?_⟩
      by_cases hn : n = m
      · subst hn
        exact ⟨_, hself, hS'.trans (transfer_mono (h.below n I hmentry hI))⟩
      · exact ⟨I, (hother n hn).trans hI, hS'⟩
    · by_cases hn : n = m
      · subst hn
        exact .inl hmwork
      · rw [hother n hn] at hI
        rw [hout]
        exact (h.settled n I hI).imp_left (hwork n)
    · rw [hout] at hS
      by_cases hm' : m' = m
      · subst hm'
        exact .inl ⟨_, hself, hsub n S he hS⟩
      · rcases h.flow n S m' hS he with ⟨I, hI, hS'⟩ | ⟨hn, hmem⟩
        · exact .inl ⟨I, (hother m' hm').trans hI, hS'⟩
        · exact .inr ⟨hn, (List.mem_cons.1 hmem).resolve_left hm'⟩
    · rw [hout]
      by_cases hn : n = m
      · subst hn
        rw [hself] at hI
        cases hI
        exact Finset.Subset.refl _
      · rw [hother n hn] at hI
        exact h.below n I hne hI
    · by_cases hnm : n = m
      · subst hnm
        exact ⟨_, hself⟩
      · rw [hother n hnm]
        exact h.queued n ((hwork' n hn).resolve_right hnm)

include hentry in
theorem spread_all_inv {current : N} (hcurrent : p.Reached current) :
    ∀ {pending : List N} {s : FlowState N φ}, (∀ m ∈ pending, (current, m) ∈ p.edges) →
      p.FlowInv current pending s → p.FlowInv current [] (pending.foldl p.spread s)
  | [], _, _, h => h
  | m :: pending, s, hedges, h => by
      rw [List.foldl_cons]
      exact spread_all_inv hcurrent (fun m' hm' => hedges m' (List.mem_cons_of_mem _ hm'))
        (spread_inv hentry h (hedges m List.mem_cons_self) hcurrent)

/-- The node taken from the work list, with the state after it set. -/
theorem record_inv {current n : N} {work : List N} {I : Finset φ}
    (h : p.FlowInv current [] { s with work := n :: work }) (hI : s.incoming n = some I) :
    p.FlowInv n (p.succs n)
      ⟨s.incoming, Function.update s.outgoing n (some (p.transfer n I)), work⟩ := by
  have hgrows : ∀ m S, s.outgoing m = some S →
      ∃ S', Function.update s.outgoing n (some (p.transfer n I)) m = some S' ∧ S ⊆ S' := by
    intro m S hS
    by_cases hm : m = n
    · subst hm
      obtain ⟨-, I', hI', hsub⟩ := h.outgoing m S hS
      cases hI.symm.trans hI'
      exact ⟨_, Function.update_self .., hsub⟩
    · exact ⟨S, (Function.update_of_ne hm ..).trans hS, Finset.Subset.refl S⟩
  refine ⟨h.entry, h.incoming, fun m S hS => ?_, fun m J hJ => ?_, fun m S m' hS he => ?_,
    fun m J hne hJ x hx => ?_, fun m hm => h.queued m (List.mem_cons_of_mem _ hm)⟩
  · by_cases hm : m = n
    · subst hm
      cases (Function.update_self ..).symm.trans hS
      exact ⟨(h.incoming m I hI).1, I, hI, Finset.Subset.refl _⟩
    · exact h.outgoing m S ((Function.update_of_ne hm ..).symm.trans hS)
  · by_cases hm : m = n
    · subst hm
      cases hI.symm.trans hJ
      exact .inr (Function.update_self ..)
    · rcases h.settled m J hJ with hmem | hout
      · exact .inl ((List.mem_cons.1 hmem).resolve_left hm)
      · exact .inr ((Function.update_of_ne hm ..).trans hout)
  · by_cases hm : m = n
    · subst hm
      exact .inr ⟨rfl, mem_succs.2 he⟩
    · rcases h.flow m S m' ((Function.update_of_ne hm ..).symm.trans hS) he with hflow | ⟨-, hmem⟩
      · exact .inl hflow
      · cases hmem
  · obtain ⟨m', S, he, hS, hxS⟩ := mem_merged.1 (h.below m J hne hJ hx)
    obtain ⟨S', hS', hsub⟩ := hgrows m' S hS
    exact mem_merged.2 ⟨m', S', he, hS', hsub hxS⟩

include hentry in
/-- **One turn.** -/
theorem visit_inv {current n : N} {work : List N} (hwork : s.work = n :: work)
    (h : p.FlowInv current [] s) : p.FlowInv n [] (p.visit { s with work := work } n) := by
  obtain ⟨incoming, outgoing, work₀⟩ := s
  cases hwork
  obtain ⟨I, hI⟩ := h.queued n List.mem_cons_self
  have hrecord := record_inv (s := ⟨incoming, outgoing, work⟩) h hI
  have hreached := (h.incoming n I hI).1
  unfold visit
  simp only [show incoming n = some I from hI, Option.getD_some]
  by_cases hsame : outgoing n = some (p.transfer n I)
  · rw [if_pos hsame]
    have hstill : Function.update outgoing n (some (p.transfer n I)) = outgoing := by
      rw [← hsame]
      exact Function.update_eq_self n outgoing
    simp only [hstill] at hrecord
    refine { hrecord with flow := fun m S m' hS he => ?_ }
    rcases h.flow m S m' hS he with hflow | ⟨-, hmem⟩
    · exact .inl hflow
    · cases hmem
  · rw [if_neg hsame]
    exact spread_all_inv hentry hreached (fun m hm => mem_succs.1 hm) hrecord

end Loop

/-! ## Termination -/

theorem Reached.mem_nodes {n : N} (h : p.Reached n) : n ∈ p.nodes := by
  unfold nodes
  rw [List.mem_toFinset]
  cases h with
  | entry => exact List.mem_cons_self
  | step _ he =>
    exact List.mem_cons_of_mem _
      (List.mem_flatMap.2 ⟨_, he, List.mem_cons_of_mem _ List.mem_cons_self⟩)

theorem Generated.mem_facts {x : φ} {n : N} (h : p.Generated x n) : x ∈ p.facts := by
  induction h with
  | gen hn hx _ =>
    exact Finset.mem_union_right _ (Finset.mem_biUnion.2 ⟨_, hn.mem_nodes, hx⟩)
  | step _ _ _ ih => exact ih

theorem Reaches.mem_facts {x : φ} {n : N} (h : p.Reaches x n) : x ∈ p.facts := by
  rcases h with ⟨hinit, -⟩ | hgen
  · exact Finset.mem_union_left _ hinit
  · exact hgen.mem_facts

def weight : Option (Finset φ) → Nat
  | none => 0
  | some S => S.card + 1

variable (p) in
/-- How often the states before the nodes may still grow, and what is on the work list. -/
def turns (s : FlowState N φ) : Nat :=
  s.work.length + ∑ n ∈ p.nodes, (p.facts.card + 1 - weight (s.incoming n))

/-- Spreading to a successor costs no turn. -/
theorem spread_turns {current m : N} {pending : List N}
    (hentry : ∀ n, (n, p.entry) ∉ p.edges) (h : p.FlowInv current (m :: pending) s)
    (hm : (current, m) ∈ p.edges) (hcurrent : p.Reached current) :
    p.turns (p.spread s m) ≤ p.turns s := by
  have hmentry : m ≠ p.entry := fun heq => hentry current (heq ▸ hm)
  rcases p.spread_cases s m with ⟨-, heq⟩ | ⟨hne, hself, hother, -, -, -, -, hlength⟩
  · rw [heq]
  · generalize p.spread s m = s' at *
    have hcard : (p.merged s.outgoing m).card ≤ p.facts.card :=
      Finset.card_le_card fun x hx => (h.merged_reaches hx).mem_facts
    have hweight : ∀ S : Finset φ, weight (some S) = S.card + 1 := fun _ => rfl
    have hgrew : weight (s.incoming m) < (p.merged s.outgoing m).card + 1 := by
      cases hI : s.incoming m with
      | none => exact Nat.succ_pos _
      | some I =>
        have hsub := h.below m I hmentry hI
        have hstrict : I ⊂ p.merged s.outgoing m :=
          Finset.ssubset_iff_subset_ne.2 ⟨hsub, fun heq => hne (by rw [hI, heq])⟩
        exact Nat.succ_lt_succ (Finset.card_lt_card hstrict)
    have hsum : ∑ n ∈ p.nodes, (p.facts.card + 1 - weight (s'.incoming n)) <
        ∑ n ∈ p.nodes, (p.facts.card + 1 - weight (s.incoming n)) := by
      apply Finset.sum_lt_sum
      · intro n _
        by_cases hn : n = m
        · subst hn
          rw [hself, hweight]
          omega
        · rw [hother n hn]
      · refine ⟨m, (Reached.step hcurrent hm).mem_nodes, ?_⟩
        rw [hself, hweight]
        omega
    unfold turns
    omega

theorem spread_all_turns {current : N} (hentry : ∀ n, (n, p.entry) ∉ p.edges)
    (hcurrent : p.Reached current) :
    ∀ {pending : List N} {s : FlowState N φ}, (∀ m ∈ pending, (current, m) ∈ p.edges) →
      p.FlowInv current pending s → p.turns (pending.foldl p.spread s) ≤ p.turns s
  | [], _, _, _ => Nat.le_refl _
  | m :: pending, s, hedges, h => by
      rw [List.foldl_cons]
      have hm := hedges m List.mem_cons_self
      exact (spread_all_turns hentry hcurrent
        (fun m' hm' => hedges m' (List.mem_cons_of_mem _ hm'))
        (spread_inv hentry h hm hcurrent)).trans
        (spread_turns hentry h hm hcurrent)

theorem visit_turns {current n : N} {work : List N}
    (hentry : ∀ n, (n, p.entry) ∉ p.edges) (hwork : s.work = n :: work)
    (h : p.FlowInv current [] s) : p.turns (p.visit { s with work := work } n) < p.turns s := by
  obtain ⟨incoming, outgoing, work₀⟩ := s
  cases hwork
  obtain ⟨I, hI⟩ := h.queued n List.mem_cons_self
  have hrecord := record_inv (s := ⟨incoming, outgoing, work⟩) h hI
  have hreached := (h.incoming n I hI).1
  have hpopped : ∀ out,
    p.turns ⟨incoming, out, work⟩ < p.turns ⟨incoming, outgoing, n :: work⟩ := by
    intro out
    unfold turns
    simp only [List.length_cons]
    omega
  unfold visit
  simp only [show incoming n = some I from hI, Option.getD_some]
  by_cases hsame : outgoing n = some (p.transfer n I)
  · rw [if_pos hsame]
    exact hpopped outgoing
  · rw [if_neg hsame]
    exact
    (spread_all_turns hentry hreached (fun m hm => mem_succs.1 hm) hrecord).trans_lt (hpopped _)

/-- With enough fuel the loop ends with nothing left to do. -/
theorem flowLoop_inv (hentry : ∀ n, (n, p.entry) ∉ p.edges) :
    ∀ {fuel : Nat} {current : N} {s : FlowState N φ}, p.FlowInv current [] s → p.turns s ≤ fuel →
      (∃ last, p.FlowInv last [] (p.flowLoop fuel s)) ∧ (p.flowLoop fuel s).work = []
  | 0, current, s, h, hfuel => by
      refine ⟨⟨current, h⟩, ?_⟩
      unfold turns at hfuel
      have hlength : s.work.length = 0 := by omega
      exact List.length_eq_zero_iff.1 hlength
  | fuel + 1, current, s, h, hfuel => by
      unfold flowLoop
      cases hwork : s.work with
      | nil => exact ⟨⟨current, h⟩, hwork⟩
      | cons n work =>
        have hlt := visit_turns hentry hwork h
        exact flowLoop_inv hentry (visit_inv hentry hwork h) (by omega)

theorem start_inv : p.FlowInv p.entry [] p.start := by
  have hentry : p.start.incoming p.entry = some p.init := by simp [start]
  have hincoming : ∀ n I, p.start.incoming n = some I → n = p.entry ∧ I = p.init := by
    intro n I hI
    by_cases hn : n = p.entry
    · subst hn
      exact ⟨rfl, Option.some.inj (hI.symm.trans hentry)⟩
    · have hnone : p.start.incoming n = none := by simp [start, hn]
      cases hnone.symm.trans hI
  refine ⟨hentry, fun n I hI => ?_, fun n S hS => (nomatch hS), fun n I hI => ?_,
    fun n S m hS _ => (nomatch hS), fun m I hne hI => ?_, fun n hn => ?_⟩
  · obtain ⟨rfl, rfl⟩ := hincoming n I hI
    exact ⟨.entry, fun x hx => .inl ⟨hx, .entry⟩⟩
  · rw [(hincoming n I hI).1]
    exact .inl (List.mem_singleton.2 rfl)
  · exact absurd (hincoming m I hI).1 hne
  · rw [List.mem_singleton.1 hn]
    exact ⟨p.init, hentry⟩

theorem start_turns : p.turns p.start ≤ p.nodes.card * (p.facts.card + 1) + 1 := by
  have hsum : ∑ n ∈ p.nodes, (p.facts.card + 1 - weight (p.start.incoming n)) ≤
      p.nodes.card * (p.facts.card + 1) := by
    simpa using Finset.sum_le_card_nsmul p.nodes
      (fun n => p.facts.card + 1 - weight (p.start.incoming n)) (p.facts.card + 1)
      fun n _ => Nat.sub_le _ _
  have hwork : p.start.work.length = 1 := rfl
  unfold turns
  omega

/-! ## The result -/

/-- **The solver finds exactly what reaches.** -/
theorem mem_incoming_iff (hentry : ∀ n, (n, p.entry) ∉ p.edges) {n : N} {x : φ} :
    x ∈ (p.solveFlow.incoming n).getD ∅ ↔ p.Reaches x n := by
  obtain ⟨⟨last, hinv⟩, hdone⟩ := flowLoop_inv hentry start_inv start_turns
  change p.FlowInv last [] p.solveFlow at hinv
  change p.solveFlow.work = [] at hdone
  generalize p.solveFlow = s at *
  have hsettled : ∀ n I, s.incoming n = some I → s.outgoing n = some (p.transfer n I) := by
    intro n I hI
    rcases hinv.settled n I hI with hmem | hout
    · rw [hdone] at hmem
      cases hmem
    · exact hout
  have hnext : ∀ n I m, s.incoming n = some I → (n, m) ∈ p.edges →
      ∃ J, s.incoming m = some J ∧ p.transfer n I ⊆ J := by
    intro n I m hI he
    rcases hinv.flow n _ m (hsettled n I hI) he with hflow | ⟨-, hmem⟩
    · exact hflow
    · cases hmem
  have hreached : ∀ n, p.Reached n → ∃ I, s.incoming n = some I := by
    intro n hn
    induction hn with
    | entry => exact ⟨_, hinv.entry⟩
    | step _ he ih =>
      obtain ⟨I, hI⟩ := ih
      obtain ⟨J, hJ, -⟩ := hnext _ I _ hI he
      exact ⟨J, hJ⟩
  constructor
  · intro hx
    cases hI : s.incoming n with
    | none =>
      rw [hI] at hx
      cases hx
    | some I =>
      rw [hI] at hx
      exact (hinv.incoming n I hI).2 x hx
  · intro hx
    have hmem : ∃ I, s.incoming n = some I ∧ x ∈ I := by
      rcases hx with ⟨hinit, hclear⟩ | hgen
      · induction hclear with
        | entry => exact ⟨_, hinv.entry, hinit⟩
        | step _ hkill he ih =>
          obtain ⟨I, hI, hxI⟩ := ih
          obtain ⟨J, hJ, hsub⟩ := hnext _ I _ hI he
          exact ⟨J, hJ, hsub (mem_transfer.2 (.inl ⟨hxI, hkill⟩))⟩
      · induction hgen with
        | gen hn hx he =>
          obtain ⟨I, hI⟩ := hreached _ hn
          obtain ⟨J, hJ, hsub⟩ := hnext _ I _ hI he
          exact ⟨J, hJ, hsub (mem_transfer.2 (.inr hx))⟩
        | step _ hkill he ih =>
          obtain ⟨I, hI, hxI⟩ := ih
          obtain ⟨J, hJ, hsub⟩ := hnext _ I _ hI he
          exact ⟨J, hJ, hsub (mem_transfer.2 (.inl ⟨hxI, hkill⟩))⟩
    obtain ⟨I, hI, hxI⟩ := hmem
    rw [hI]
    exact hxI

end FlowProblem

end AtlasDb.Lib
