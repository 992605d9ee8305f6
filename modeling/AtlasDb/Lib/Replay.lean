import AtlasDb.Lib.Session
import Mathlib.Data.Set.Insert

/-!
# Clients that perform the same operation

Several clients perform one operation on a store, their sessions interleaved. An operation that
looks for its row first and writes it in a later session can be disturbed in between: the answer it
acts on no longer stands. `Undisturbed` runs are those in which it does.

In such a run the store moves along the states one client alone would have gone through. The
argument is a simulation: `Follows C lo c` says that the client `c`, wherever on the chain `C` of
these states the store has got since `lo`, can take its next session and stays on the chain. It is
built up from the parts of the operation (`Follows.bind`, `Follows.checkThenInsert`) and gives both
the repeated operation (`Follows.run`) and the interleaved one (`undisturbed_returns`).
-/

namespace AtlasDb.Lib

variable {σ ε α β : Type}

/-! ## Interleaved sessions -/

/-- A client under way, with the states in which its last query would be answered as it was. -/
structure Party (σ ε α : Type) : Type 1 where
  client : Client σ ε α
  stands : σ → Prop

def Party.start (c : Client σ ε α) : Party σ ε α := ⟨c, fun _ => True⟩

/-- The client has returned or raised. -/
def Party.Finished (p : Party σ ε α) : Prop :=
  (∃ a, p.client = .ret a) ∨ ∃ e, p.client = .raise e

/-- One session of one of the parties, if it may be taken. A session that changed nothing was a
query, and its answer is what the party goes on with. -/
inductive PartyStep (May : Party σ ε α → σ → Prop) :
    σ × List (Party σ ε α) → σ × List (Party σ ε α) → Prop where
  | commit {s s' : σ} {before after : List (Party σ ε α)} {γ : Type} {body : Txn σ ε γ}
      {next : γ → Client σ ε α} {stands : σ → Prop} {b : γ}
      (hmay : May ⟨.session body next, stands⟩ s) (h : body s = .ok (b, s')) :
      PartyStep May (s, before ++ ⟨.session body next, stands⟩ :: after)
        (s', before ++ ⟨next b, fun t => s' = s → body t = .ok (b, t)⟩ :: after)
  | fail {s : σ} {before after : List (Party σ ε α)} {γ : Type} {body : Txn σ ε γ}
      {next : γ → Client σ ε α} {stands : σ → Prop} {e : ε}
      (hmay : May ⟨.session body next, stands⟩ s) (h : body s = .error e) :
      PartyStep May (s, before ++ ⟨.session body next, stands⟩ :: after)
        (s, before ++ ⟨.raise e, fun _ => True⟩ :: after)

/-- Any interleaving. -/
abbrev Interleaved : σ × List (Party σ ε α) → σ × List (Party σ ε α) → Prop :=
  Relation.ReflTransGen (PartyStep fun _ _ => True)

/-- An interleaving in which no party goes on from an answer that no longer stands. -/
abbrev Undisturbed : σ × List (Party σ ε α) → σ × List (Party σ ε α) → Prop :=
  Relation.ReflTransGen (PartyStep Party.stands)

/-! ## Following a chain of states -/

section Follows

variable [PartialOrder σ] (C : Set σ)

/-- From `lo` on, wherever the store has got on the chain, the client takes its next session and
stays on the chain; what it returns, and how far it has got by then, satisfies `Q`. -/
def Client.Follows (Q : σ → α → Prop) : Client σ ε α → σ → (σ → Prop) → Prop
  | .ret a, lo, _ => Q lo a
  | .raise _, _, _ => False
  | .session body next, lo, stands => ∀ t ∈ C, lo ≤ t → stands t →
      ∃ b t' lo', body t = .ok (b, t') ∧ t' ∈ C ∧ t ≤ t' ∧ lo ≤ lo' ∧ lo' ≤ t' ∧
        (next b).Follows Q lo' fun u => t' = t → body u = .ok (b, u)

variable {C}

variable {Q : σ → α → Prop} {stands : σ → Prop} {f : α → Client σ ε β}
  {sys sys' : σ × List (Party σ ε α)} {c : Client σ ε α}

theorem Client.Follows.imp_stands {lo : σ}
    {stands stands' : σ → Prop} (h : c.Follows C Q lo stands) (himp : ∀ t, stands' t → stands t) :
    c.Follows C Q lo stands' := by
  cases c with
  | ret a => exact h
  | raise e => exact h
  | session body next => exact fun t ht hlo hstands => h t ht hlo (himp t hstands)

theorem Client.Follows.imp {Q Q' : σ → α → Prop} {lo : σ}
    (h : c.Follows C Q lo stands) (himp : ∀ lo a, Q lo a → Q' lo a) : c.Follows C Q' lo stands := by
  induction c generalizing lo stands with
  | ret a => exact himp lo a h
  | raise e => exact h
  | session body next ih =>
    intro t ht hlo hstands
    obtain ⟨b, t', lo', hbody, ht', hle, hlo', hlot, hnext⟩ := h t ht hlo hstands
    exact ⟨b, t', lo', hbody, ht', hle, hlo', hlot, ih b hnext⟩

theorem Client.Follows.bind {R : σ → β → Prop} {lo : σ} (hc : c.Follows C Q lo stands)
    (hf : ∀ a lo', lo ≤ lo' → Q lo' a → (f a).Follows C R lo' fun _ => True) :
    (c >>= f).Follows C R lo stands := by
  show (Client.bind c f).Follows C R lo stands
  induction c generalizing lo stands with
  | ret a => exact (hf a lo le_rfl hc).imp_stands fun _ _ => trivial
  | raise e => exact hc
  | session body next ih =>
    intro t ht hlo hstands
    obtain ⟨b, t', lo', hbody, ht', hle, hlo', hlot, hnext⟩ := hc t ht hlo hstands
    exact ⟨b, t', lo', hbody, ht', hle, hlo', hlot,
      ih b hnext fun a lo'' hlo'' => hf a lo'' (hlo'.trans hlo'')⟩

/-- Code outside a session that returns. -/
theorem Client.Follows.ofExcept_bind {R : σ → β → Prop} {x : Except ε α} {a : α}
    {lo : σ} (hx : x = .ok a)
    (hf : (f a).Follows C R lo stands) : (Client.ofExcept x >>= f).Follows C R lo stands := by
  subst hx
  exact hf

/-- A client alone, started anywhere on the chain, returns. -/
theorem Client.Follows.run {lo t : σ}
    (h : c.Follows C Q lo stands) (ht : t ∈ C) (hlo : lo ≤ t) (hstands : stands t) :
    ∃ a t' lo', c.run t = (.ok a, t') ∧ t' ∈ C ∧ t ≤ t' ∧ lo' ≤ t' ∧ Q lo' a := by
  induction c generalizing lo t stands with
  | ret a => exact ⟨a, t, lo, rfl, ht, le_rfl, hlo, h⟩
  | raise e => exact h.elim
  | session body next ih =>
    obtain ⟨b, t', lo', hbody, ht', hle, -, hlot, hnext⟩ := h t ht hlo hstands
    have hanswer : t' = t → body t' = .ok (b, t') := by
      intro heq
      rw [heq] at hbody ⊢
      exact hbody
    obtain ⟨a, t'', lo'', hrun, ht'', hle', hlot', hQ⟩ := ih b hnext ht' hlot hanswer
    refine ⟨a, t'', lo'', ?_, ht'', hle.trans hle', hlot', hQ⟩
    simp only [Client.run, hbody, hrun]

/-- **Check, then insert.** The row is found, or it is written in the next session. From `s` on the
chain one client alone goes to `s₁`, in one step, and from there on the row is found. -/
theorem Client.Follows.checkThenInsert {κ : Type} {Q : α → Prop} (query : σ → Option κ)
    {body : Txn σ ε (Option κ)} {next : Option κ → Client σ ε α} {write : Txn σ ε α} {s s₁ lo : σ}
    (hbody : ∀ t, body t = .ok (query t, t)) (hnone : next none = .session write .ret)
    (hnext : s₁ ∈ C) (hcover : ∀ t ∈ C, s ≤ t → t = s ∨ s₁ ≤ t) (hle : s ≤ s₁) (hlo : s ≤ lo)
    (hlater : ∀ t ∈ C, s₁ ≤ t → ∃ x a, query t = some x ∧ next (some x) = .ret a ∧ Q a)
    (halone : query s = none → lo = s → ∃ a, write s = .ok (a, s₁) ∧ Q a)
    (hfound : ∀ x, query s = some x → s₁ = s) :
    (Client.session body next).Follows C (fun lo' a => (s₁ ≤ lo' ∧ lo' ∈ C) ∧ Q a) lo
      fun _ => True := by
  intro t ht hlot _
  rcases hcover t ht (hlo.trans hlot) with rfl | hlate
  · -- the store is where one client alone would look
    obtain rfl : lo = t := le_antisymm hlot hlo
    cases hquery : query lo with
    | some x =>
      have hsame := hfound x hquery
      obtain ⟨y, a, hy, hret, hQ⟩ := hlater lo ht hsame.le
      refine ⟨query lo, lo, lo, hbody lo, ht, le_rfl, le_rfl, le_rfl, ?_⟩
      rw [hy, hret]
      exact ⟨⟨hsame.le, ht⟩, hQ⟩
    | none =>
      refine ⟨none, lo, lo, by rw [hbody, hquery], ht, le_rfl, le_rfl, le_rfl, ?_⟩
      rw [hnone]
      intro u hu hlou hstands
      have hstill : query u = none := by
        have hanswer := hstands rfl
        rw [hbody] at hanswer
        exact (Prod.mk.inj (Except.ok.inj hanswer)).1
      rcases hcover u hu hlou with rfl | hlate
      · obtain ⟨a, hwrite, hQ⟩ := halone hquery rfl
        exact ⟨a, s₁, s₁, hwrite, hnext, hle, hle, le_rfl, ⟨le_rfl, hnext⟩, hQ⟩
      · -- had the row been written meanwhile, the answer would not stand
        obtain ⟨x, a, hx, -, -⟩ := hlater u hu hlate
        rw [hstill] at hx
        cases hx
  · obtain ⟨x, a, hx, hret, hQ⟩ := hlater t ht hlate
    refine ⟨query t, t, t, hbody t, ht, le_rfl, hlot, le_rfl, ?_⟩
    rw [hx, hret]
    exact ⟨⟨hlate, ht⟩, hQ⟩

/-! ## The chain of a client alone -/

/-- Alone from `s` the client returns, and every session takes the store to the next state of the
chain. -/
def Client.Solo (C : Set σ) : Client σ ε α → σ → Prop
  | .ret _, s => s ∈ C
  | .raise _, _ => False
  | .session body next, s => s ∈ C ∧ ∃ b s', body s = .ok (b, s') ∧ s ≤ s' ∧
      (∀ t ∈ C, s ≤ t → t = s ∨ s' ≤ t) ∧ (next b).Solo C s'

theorem Client.Solo.mem {s : σ} (h : c.Solo C s) : s ∈ C := by
  cases c with
  | ret a => exact h
  | raise e => exact h.elim
  | session body next => exact h.1

/-- What is done before the rest returns, and the rest goes on from there. -/
theorem Client.Solo.bind {s : σ} (h : (c >>= f).Solo C s) :
    ∃ a s₁, c.run s = (.ok a, s₁) ∧ c.Solo C s ∧ s ≤ s₁ ∧ (f a).Solo C s₁ := by
  replace h : (Client.bind c f).Solo C s := h
  induction c generalizing s with
  | ret a => exact ⟨a, s, rfl, h.mem, le_rfl, h⟩
  | raise e => exact h.elim
  | session body next ih =>
    obtain ⟨hmem, b, s', hbody, hle, hcover, hnext⟩ := h
    obtain ⟨a, s₁, hrun, hsolo, hle', hrest⟩ := ih b hnext
    refine ⟨a, s₁, ?_, ⟨hmem, b, s', hbody, hle, hcover, hsolo⟩, hle.trans hle', hrest⟩
    simp only [Client.run, hbody, hrun]

theorem Client.Solo.ofExcept_bind {x : Except ε α} {s : σ}
    (h : (Client.ofExcept x >>= f).Solo C s) : ∃ a, x = .ok a ∧ (f a).Solo C s := by
  cases x with
  | error e => exact h.elim
  | ok a => exact ⟨a, rfl, h⟩

/-- The states a client goes through. -/
def Client.chain : Client σ ε α → σ → Set σ
  | .ret _, s => {s}
  | .raise _, s => {s}
  | .session body next, s => insert s (match body s with
      | .ok (b, s') => (next b).chain s'
      | .error _ => ∅)

omit [PartialOrder σ] in
theorem Client.mem_chain_self (c : Client σ ε α) (s : σ) : s ∈ c.chain s := by
  cases c with
  | ret a => exact Set.mem_singleton s
  | raise e => exact Set.mem_singleton s
  | session body next =>
    rw [Client.chain]
    exact Set.mem_insert s _

/-- The chain of a client whose sessions only move on: it starts at `s`, ends in the final state,
and the client goes along it. -/
theorem Client.solo_chain (hmono : ∀ s₀ : σ, c.Preserves fun t => s₀ ≤ t)
    {s s₁ : σ} {a : α} (hrun : c.run s = (.ok a, s₁)) (A : Set σ) (hA : ∀ t ∈ A, t ≤ s) :
    c.Solo (A ∪ c.chain s) s ∧ s₁ ∈ c.chain s ∧ ∀ t ∈ c.chain s, s ≤ t ∧ t ≤ s₁ := by
  induction c generalizing s A with
  | ret b =>
    cases hrun
    refine ⟨Or.inr rfl, rfl, fun t ht => ?_⟩
    rw [Set.mem_singleton_iff.1 ht]
    exact ⟨le_rfl, le_rfl⟩
  | raise e => cases hrun
  | session body next ih =>
    have hmem := Client.mem_chain_self (Client.session body next) s
    cases hbody : body s with
    | error e =>
      simp only [Client.run, hbody] at hrun
      cases hrun
    | ok r =>
      obtain ⟨b, s'⟩ := r
      simp only [Client.run, hbody] at hrun
      have hle : s ≤ s' := (hmono s).1 s b s' le_rfl hbody
      have hchain : (Client.session body next).chain s = insert s ((next b).chain s') := by
        simp only [Client.chain, hbody]
      have hbelow : ∀ t ∈ insert s A, t ≤ s' := by
        intro t ht
        rcases Set.mem_insert_iff.1 ht with rfl | ht
        · exact hle
        · exact (hA t ht).trans hle
      obtain ⟨hsolo, hlast, hbounds⟩ := ih b (fun s₀ => (hmono s₀).2 b) hrun (insert s A) hbelow
      have hsame : insert s A ∪ (next b).chain s' = A ∪ (Client.session body next).chain s := by
        rw [hchain, Set.insert_union, Set.union_insert]
      rw [hsame] at hsolo
      refine ⟨⟨Or.inr hmem, b, s', hbody, hle, fun t ht hst => ?_, hsolo⟩, ?_, fun t ht => ?_⟩
      · rcases ht with ht | ht
        · exact .inl (le_antisymm (hA t ht) hst)
        · rw [hchain] at ht
          rcases Set.mem_insert_iff.1 ht with rfl | ht
          · exact .inl rfl
          · exact .inr (hbounds t ht).1
      · rw [hchain]
        exact Set.mem_insert_of_mem _ hlast
      · rw [hchain] at ht
        rcases Set.mem_insert_iff.1 ht with rfl | ht
        · exact ⟨le_rfl, hle.trans (hbounds s' ((next b).mem_chain_self s')).2⟩
        · exact ⟨hle.trans (hbounds t ht).1, (hbounds t ht).2⟩

/-! ## Any number of parties -/

/-- The store is on the chain, and every party follows it from somewhere behind the store. -/
def OnChain (C : Set σ) (Q : σ → α → Prop) (sys : σ × List (Party σ ε α)) : Prop :=
  sys.1 ∈ C ∧ ∀ p ∈ sys.2, ∃ lo ≤ sys.1, p.client.Follows C Q lo p.stands

theorem onChain_replace {s s' : σ} {before after : List (Party σ ε α)}
    {p p' : Party σ ε α} (h : OnChain C Q (s, before ++ p :: after)) (hs' : s' ∈ C) (hle : s ≤ s')
    (hp : ∃ lo ≤ s', p'.client.Follows C Q lo p'.stands) :
    OnChain C Q (s', before ++ p' :: after) := by
  refine ⟨hs', fun q hq => ?_⟩
  have hother : q ∈ before ++ p :: after →
      ∃ lo ≤ s', q.client.Follows C Q lo q.stands := fun hmem => by
    obtain ⟨lo, hlo, hfollows⟩ := h.2 q hmem
    exact ⟨lo, hlo.trans hle, hfollows⟩
  rcases List.mem_append.1 hq with hq | hq
  · exact hother (List.mem_append_left _ hq)
  · rcases List.mem_cons.1 hq with rfl | hq
    · exact hp
    · exact hother (List.mem_append_right _ (List.mem_cons_of_mem _ hq))

/-- **Step lemma.** -/
theorem onChain_step
    (h : PartyStep Party.stands sys sys') (hsys : OnChain C Q sys) : OnChain C Q sys' := by
  cases h with
  | @commit s s' before after γ body next stands b hmay hbody =>
    obtain ⟨lo, hlo, hfollows⟩ := hsys.2 _ (List.mem_append_right _ List.mem_cons_self)
    obtain ⟨b', t', lo', hbody', ht', hle, -, hlot, hnext⟩ := hfollows s hsys.1 hlo hmay
    rw [hbody] at hbody'
    cases hbody'
    exact onChain_replace hsys ht' hle ⟨lo', hlot, hnext⟩
  | @fail s before after γ body next stands e hmay hbody =>
    obtain ⟨lo, hlo, hfollows⟩ := hsys.2 _ (List.mem_append_right _ List.mem_cons_self)
    obtain ⟨b', t', lo', hbody', -⟩ := hfollows s hsys.1 hlo hmay
    rw [hbody] at hbody'
    cases hbody'

/-- **Run lemma**: in an undisturbed run no party raises, and what a party returns satisfies `Q` of
a state the store has reached. -/
theorem undisturbed_returns (h : Undisturbed sys sys') (hsys : OnChain C Q sys) :
    sys'.1 ∈ C ∧ ∀ p ∈ sys'.2, (∀ e, p.client ≠ .raise e) ∧
      ∀ a, p.client = .ret a → ∃ lo ≤ sys'.1, Q lo a := by
  have hchain : OnChain C Q sys' := by
    induction h with
    | refl => exact hsys
    | tail _ hstep ih => exact onChain_step hstep ih
  refine ⟨hchain.1, fun p hp => ?_⟩
  obtain ⟨lo, hlo, hfollows⟩ := hchain.2 p hp
  constructor
  · intro e he
    rw [he] at hfollows
    exact hfollows
  · intro a ha
    rw [ha] at hfollows
    exact ⟨lo, hlo, hfollows⟩

/-! ## One performance, again and at the same time -/

variable {c : Client σ ε α} {s s₁ : σ} {P : α → Prop}

/-- Performed again, the operation returns as before and changes nothing. -/
theorem Client.Follows.repeated (h : c.Follows C (fun lo a => s₁ ≤ lo ∧ P a) s fun _ => True)
    (hlast : s₁ ∈ C) (hmax : ∀ t ∈ C, t ≤ s₁) (hle : s ≤ s₁) :
    ∃ a, c.run s₁ = (.ok a, s₁) ∧ P a := by
  obtain ⟨a, t', lo', hrun, ht', hge, -, -, hP⟩ := h.run hlast hle trivial
  obtain rfl : t' = s₁ := le_antisymm (hmax t' ht') hge
  exact ⟨a, hrun, hP⟩

omit [PartialOrder σ] in
theorem partyStep_length {May : Party σ ε α → σ → Prop}
    (h : PartyStep May sys sys') : sys'.2.length = sys.2.length := by
  cases h with
  | commit hmay h => simp
  | fail hmay h => simp

omit [PartialOrder σ] in
theorem undisturbed_length (h : Undisturbed sys sys') :
    sys'.2.length = sys.2.length := by
  induction h with
  | refl => rfl
  | tail _ hstep ih => exact (partyStep_length hstep).trans ih

/-- Performed by several clients at the same time, undisturbed, the operation returns for each of
them, and the store ends where one performance takes it. -/
theorem Client.Follows.interleaved (h : c.Follows C (fun lo a => s₁ ≤ lo ∧ P a) s fun _ => True)
    (hmem : s ∈ C) (hmax : ∀ t ∈ C, t ≤ s₁) {clients : List (Party σ ε α)}
    (hstart : ∀ p ∈ clients, p = Party.start c) (hne : clients ≠ [])
    {sys : σ × List (Party σ ε α)} (hsys : Undisturbed (s, clients) sys) :
    (∀ p ∈ sys.2, ∀ e, p.client ≠ .raise e) ∧
      ((∀ p ∈ sys.2, p.Finished) →
        sys.1 = s₁ ∧ ∀ p ∈ sys.2, ∃ a, p.client = .ret a ∧ P a) := by
  have hinit : OnChain C (fun lo a => s₁ ≤ lo ∧ P a) (s, clients) := by
    refine ⟨hmem, fun p hp => ⟨s, le_rfl, ?_⟩⟩
    rw [hstart p hp]
    exact h
  obtain ⟨hC, hreturns⟩ := undisturbed_returns hsys hinit
  refine ⟨fun p hp => (hreturns p hp).1, fun hfinished => ?_⟩
  have hall : ∀ p ∈ sys.2, ∃ a, p.client = .ret a ∧ s₁ ≤ sys.1 ∧ P a := by
    intro p hp
    rcases hfinished p hp with ⟨a, ha⟩ | ⟨e, he⟩
    · obtain ⟨lo, hlo, hlast, hP⟩ := (hreturns p hp).2 a ha
      exact ⟨a, ha, hlast.trans hlo, hP⟩
    · exact absurd he ((hreturns p hp).1 e)
  refine ⟨?_, fun p hp => ?_⟩
  · have hlength := undisturbed_length hsys
    obtain ⟨p, hp⟩ : ∃ p, p ∈ sys.2 := by
      apply List.exists_mem_of_length_pos
      rw [hlength]
      exact List.length_pos_iff.2 hne
    obtain ⟨a, -, hge, -⟩ := hall p hp
    exact le_antisymm (hmax _ hC) hge
  · obtain ⟨a, ha, -, hP⟩ := hall p hp
    exact ⟨a, ha, hP⟩

end Follows

end AtlasDb.Lib
