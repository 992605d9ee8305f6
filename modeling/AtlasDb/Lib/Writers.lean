import AtlasDb.Lib.Session
import Mathlib.Data.List.Basic

/-!
# One writer at a time

Connections to a database with a single write lock. A connection that has begun works on a content
of its own until it commits; the others see what is committed, and may begin only when no
transaction is open. A statement may fail at any time, and then the open transaction is lost.

What a call does between BEGIN and COMMIT is described by a rule of pre- and postconditions on the
content of its transaction (`Client.Within`). If every call, begun on a committed content `d`, can
commit only a `w` with `Q d w`, then whatever the interleaving, the committed content moves only by
such steps (`writers_step`, `writers_reachable`).
-/

namespace AtlasDb.Lib

/-- What is committed, and the content of the open transaction if there is one. -/
structure Connection (δ : Type) where
  committed : δ
  working : Option δ

variable {δ ε α β : Type}

/-- The content the connection sees. -/
def Connection.content (c : Connection δ) : δ := c.working.getD c.committed

/-- `BEGIN IMMEDIATE`; there are no nested transactions. -/
def beginImmediate (nested : ε) : Txn (Connection δ) ε Unit := fun c =>
  match c.working with
  | none => .ok ((), { c with working := some c.committed })
  | some _ => .error nested

/-- `connection.commit()`, which does nothing outside a transaction. -/
def commitWork : Txn (Connection δ) ε Unit := fun c =>
  match c.working with
  | some w => .ok ((), ⟨w, none⟩)
  | none => .ok ((), c)

/-! ## Inside a transaction -/

/-- In a transaction with content `w` the client stays inside it, and leaves a result and a content
with `Q` if it returns. -/
def Client.Within (Q : α → δ → Prop) : Client (Connection δ) ε α → δ → Prop
  | .ret a, w => Q a w
  | .raise _, _ => True
  | .session body next, w => ∀ d b c', body ⟨d, some w⟩ = .ok (b, c') →
      ∃ w', c' = ⟨d, some w'⟩ ∧ (next b).Within Q w'

namespace Client.Within

theorem mono {Q R : α → δ → Prop} {c : Client (Connection δ) ε α} {w : δ} (hc : c.Within Q w)
    (h : ∀ a w', Q a w' → R a w') : c.Within R w := by
  induction c generalizing w with
  | ret a => exact h a w hc
  | raise e => trivial
  | session body next ih =>
    intro d b c' hbody
    obtain ⟨w', rfl, hnext⟩ := hc d b c' hbody
    exact ⟨w', rfl, ih b hnext⟩

variable {f : α → Client (Connection δ) ε β}

theorem bind {Q : α → δ → Prop} {R : β → δ → Prop} {c : Client (Connection δ) ε α}
    {w : δ} (hc : c.Within Q w)
    (hf : ∀ a w', Q a w' → (f a).Within R w') : (c >>= f).Within R w := by
  show (Client.bind c f).Within R w
  induction c generalizing w with
  | ret a => exact hf a w hc
  | raise e => trivial
  | session body next ih =>
    intro d b c' hbody
    obtain ⟨w', rfl, hnext⟩ := hc d b c' hbody
    exact ⟨w', rfl, ih b hnext⟩

theorem ofExcept_bind {R : β → δ → Prop} {x : Except ε α}
    {w : δ} (h : ∀ a, x = .ok a → (f a).Within R w) : (Client.ofExcept x >>= f).Within R w := by
  cases x with
  | error e => trivial
  | ok a => exact h a rfl

/-- A statement that stays in the transaction. -/
theorem transaction_bind {R : β → δ → Prop} {body : Txn (Connection δ) ε α} {w : δ}
    (h : ∀ d a c', body ⟨d, some w⟩ = .ok (a, c') → ∃ w', c' = ⟨d, some w'⟩ ∧ (f a).Within R w') :
    (Client.transaction body >>= f).Within R w := h

end Client.Within

/-! ## Writers -/

/-- A call under way, with the content of its open transaction. -/
structure Writer (δ ε α : Type) : Type 1 where
  client : Client (Connection δ) ε α
  working : Option δ

/-- One step of a system of writers: a call starts, a statement of a call succeeds, or it fails and
the transaction of the call is rolled back. A call without a transaction waits for the lock. -/
inductive WriterStep (Starts : Client (Connection δ) ε α → Prop) :
    δ × List (Writer δ ε α) → δ × List (Writer δ ε α) → Prop where
  | start {d : δ} {writers : List (Writer δ ε α)} {c : Client (Connection δ) ε α} (h : Starts c) :
      WriterStep Starts (d, writers) (d, writers ++ [⟨c, none⟩])
  | statement {d d' : δ} {before after : List (Writer δ ε α)} {γ : Type}
      {body : Txn (Connection δ) ε γ} {next : γ → Client (Connection δ) ε α}
      {working working' : Option δ} {b : γ}
      (hlock : working.isSome = true ∨ ∀ p ∈ before ++ after, p.working = none)
      (h : body ⟨d, working⟩ = .ok (b, ⟨d', working'⟩)) :
      WriterStep Starts (d, before ++ ⟨.session body next, working⟩ :: after)
        (d', before ++ ⟨next b, working'⟩ :: after)
  | fail {d : δ} {before after : List (Writer δ ε α)} {γ : Type} {body : Txn (Connection δ) ε γ}
      {next : γ → Client (Connection δ) ε α} {working : Option δ} (e : ε) :
      WriterStep Starts (d, before ++ ⟨.session body next, working⟩ :: after)
        (d, before ++ ⟨.raise e, none⟩ :: after)
  | rollback {d : δ} {before after : List (Writer δ ε α)} {e : ε} {working : Option δ} :
      WriterStep Starts (d, before ++ ⟨.raise e, working⟩ :: after)
        (d, before ++ ⟨.raise e, none⟩ :: after)

/-- A call: a body between BEGIN and COMMIT, and what is done after it. -/
def inTransaction (nested : ε) (body : Client (Connection δ) ε β)
    (last : Client (Connection δ) ε α) : Client (Connection δ) ε α := do
  Client.transaction (beginImmediate nested)
  let _ ← body
  Client.transaction commitWork
  last

section Safety

variable (Q : δ → δ → Prop) (Done : δ → Prop) (last : Client (Connection δ) ε α)

/-- Where a call is. -/
inductive Phase (d : δ) : Writer δ ε α → Prop where
  | waiting {β : Type} (nested : ε) (body : Client (Connection δ) ε β)
      (h : ∀ d, body.Within (fun _ w => Q d w) d) : Phase d ⟨inTransaction nested body last, none⟩
  | inside {β : Type} (rest : Client (Connection δ) ε β) (w : δ)
      (h : rest.Within (fun _ w' => Q d w') w) :
      Phase d ⟨rest >>= fun _ => Client.transaction commitWork >>= fun _ => last, some w⟩
  | committed (c : Client (Connection δ) ε α) (h : ∀ I, c.Preserves I) (hdone : Done d) :
      Phase d ⟨c, none⟩
  | failed (e : ε) (working : Option δ) : Phase d ⟨.raise e, working⟩

/-- Every call is in one of the phases, and at most one transaction is open. -/
structure Serial (sys : δ × List (Writer δ ε α)) : Prop where
  phases : ∀ p ∈ sys.2, Phase Q Done last sys.1 p
  oneOpen : sys.2.Pairwise fun p q => p.working = none ∨ q.working = none

end Safety

variable {Q : δ → δ → Prop} {Done : δ → Prop} {last : Client (Connection δ) ε α}

/-- A call whose transaction is not open has nothing to do with what is committed meanwhile. -/
theorem Phase.of_commit {d d' : δ} {p : Writer δ ε α} (h : Phase Q Done last d p)
    (hnone : p.working = none) (hdone : Done d → Done d') : Phase Q Done last d' p := by
  cases h with
  | waiting nested body h => exact .waiting nested body h
  | inside rest w h => cases hnone
  | committed c h hd => exact .committed c h (hdone hd)
  | failed e working => exact .failed e working

variable {before after : List (Writer δ ε α)}

theorem pairwise_replace {p p' : Writer δ ε α}
    (h : (before ++ p :: after).Pairwise fun p q => p.working = none ∨ q.working = none)
    (hp : p'.working = none ∨ p'.working.isSome = true ∧ p.working.isSome = true ∨
      ∀ q ∈ before ++ after, q.working = none) :
    (before ++ p' :: after).Pairwise fun p q => p.working = none ∨ q.working = none := by
  rw [List.pairwise_append, List.pairwise_cons] at h ⊢
  obtain ⟨hbefore, ⟨hpafter, hafter⟩, hcross⟩ := h
  have hothers : ∀ q ∈ before ++ after, p'.working = none ∨ q.working = none := by
    intro q hq
    rcases hp with hnone | ⟨-, hsome⟩ | hall
    · exact .inl hnone
    · have hpq : p.working = none ∨ q.working = none := by
        rcases List.mem_append.1 hq with hq | hq
        · exact (hcross q hq p List.mem_cons_self).symm
        · exact hpafter q hq
      rcases hpq with hpnone | hqnone
      · rw [hpnone] at hsome
        cases hsome
      · exact .inr hqnone
    · exact .inr (hall q hq)
  refine ⟨hbefore, ⟨fun q hq => hothers q (List.mem_append_right _ hq), hafter⟩,
    fun q hq r hr => ?_⟩
  rcases List.mem_cons.1 hr with rfl | hr
  · exact (hothers q (List.mem_append_left _ hq)).symm
  · exact hcross q hq r (List.mem_cons_of_mem _ hr)

/-! ## What a statement of a call does -/

/-- What is left of a call when only its COMMIT and what follows it are. -/
abbrev atCommit (last : Client (Connection δ) ε α) : Client (Connection δ) ε α :=
  .session commitWork fun _ => last

variable (Q Done last) in
/-- Either the committed content stays, or the call was at its COMMIT and is past it now. -/
inductive Moved (d : δ) (others : List (Writer δ ε α)) (p : Writer δ ε α) (d' : δ)
    (p' : Writer δ ε α) : Prop where
  | stays (hd : d' = d) (hphase : Phase Q Done last d p')
      (hopen : p'.working = none ∨ p'.working.isSome = true ∧ p.working.isSome = true ∨
        ∀ q ∈ others, q.working = none)
  | commits (hp : p = ⟨atCommit last, some d'⟩) (hQ : Q d d') (hp' : p' = ⟨last, none⟩)

/-- One statement of a call in one of the phases. -/
theorem Phase.statement {d d' : δ} {others : List (Writer δ ε α)} {γ : Type}
    {body : Txn (Connection δ) ε γ} {next : γ → Client (Connection δ) ε α}
    {working working' : Option δ} {b : γ}
    (hphase : Phase Q Done last d ⟨.session body next, working⟩)
    (hlock : working.isSome = true ∨ ∀ p ∈ others, p.working = none)
    (h : body ⟨d, working⟩ = .ok (b, ⟨d', working'⟩)) :
    Moved Q Done last d others ⟨.session body next, working⟩ d' ⟨next b, working'⟩ := by
  generalize hp : (⟨.session body next, working⟩ : Writer δ ε α) = p at hphase ⊢
  cases hphase with
  | waiting nested body₀ hbody =>
    cases hp
    cases h
    refine .stays rfl (.inside body₀ d (hbody d)) (.inr (.inr ?_))
    rcases hlock with hnone | hall
    · cases hnone
    · exact hall
  | inside rest w hrest =>
    cases rest with
    | ret a =>
      cases hp
      cases h
      exact .commits rfl hrest rfl
    | raise e => cases hp
    | session body₁ next₁ =>
      cases hp
      obtain ⟨w', hc', hnext⟩ := hrest d b _ h
      cases hc'
      exact .stays rfl (.inside (next₁ b) w' hnext) (.inr (.inl ⟨rfl, rfl⟩))
  | committed c hc hdone =>
    cases hp
    have hkeeps : d' = d ∧ working' = none := by
      have hI := (hc fun c' => c' = ⟨d, none⟩).1 _ _ _ rfl h
      cases hI
      exact ⟨rfl, rfl⟩
    obtain ⟨rfl, rfl⟩ := hkeeps
    exact .stays rfl (.committed _ (fun I => (hc I).2 b) hdone) (.inl rfl)
  | failed e working => cases hp

/-! ## Steps and runs -/

/-- A call that starts waits for the lock with a body that can only commit as `Q` says. -/
def StartsWaiting (Q : δ → δ → Prop) (last : Client (Connection δ) ε α)
    (Starts : Client (Connection δ) ε α → Prop) : Prop :=
  ∀ c, Starts c → ∃ (β : Type) (nested : ε) (body : Client (Connection δ) ε β),
    c = inTransaction nested body last ∧ ∀ d, body.Within (fun _ w => Q d w) d

/-- The step commits the transaction of one call: the call was at its COMMIT. -/
def Commits (Q : δ → δ → Prop) (last : Client (Connection δ) ε α)
    (sys sys' : δ × List (Writer δ ε α)) : Prop :=
  Q sys.1 sys'.1 ∧ ∃ before after, sys.2 = before ++ ⟨atCommit last, some sys'.1⟩ :: after ∧
    sys'.2 = before ++ ⟨last, none⟩ :: after

section Runs

variable {Starts : Client (Connection δ) ε α → Prop} (hstart : StartsWaiting Q last Starts)
  (hlast : ∀ I, last.Preserves I) (hdone : ∀ d d', Q d d' → Done d')

theorem Serial.replace {d d' : δ} {p p' : Writer δ ε α}
    (hs : Serial Q Done last (d, before ++ p :: after)) (hp' : Phase Q Done last d' p')
    (hothers : ∀ q ∈ before ++ after, Phase Q Done last d q → Phase Q Done last d' q)
    (hopen : p'.working = none ∨ p'.working.isSome = true ∧ p.working.isSome = true ∨
      ∀ q ∈ before ++ after, q.working = none) :
    Serial Q Done last (d', before ++ p' :: after) := by
  refine ⟨fun q hq => ?_, pairwise_replace hs.oneOpen hopen⟩
  rcases List.mem_append.1 hq with hq | hq
  · exact hothers q (List.mem_append_left _ hq) (hs.phases q (List.mem_append_left _ hq))
  · rcases List.mem_cons.1 hq with rfl | hq
    · exact hp'
    · exact hothers q (List.mem_append_right _ hq)
        (hs.phases q (List.mem_append_right _ (List.mem_cons_of_mem _ hq)))

/-- While one transaction is open no other is. -/
theorem Serial.others_closed {d : δ} {p : Writer δ ε α}
    (hs : Serial Q Done last (d, before ++ p :: after)) (hp : p.working ≠ none) :
    ∀ q ∈ before ++ after, q.working = none := by
  intro q hq
  obtain ⟨-, hcons, hcross⟩ := List.pairwise_append.1 hs.oneOpen
  rcases List.mem_append.1 hq with hq | hq
  · exact (hcross q hq p List.mem_cons_self).resolve_right hp
  · exact ((List.pairwise_cons.1 hcons).1 q hq).resolve_left hp

include hstart hlast hdone in
/-- **Step rule.** -/
theorem writers_step {sys sys' : δ × List (Writer δ ε α)} (hs : Serial Q Done last sys)
    (h : WriterStep Starts sys sys') :
    Serial Q Done last sys' ∧ (sys'.1 = sys.1 ∨ Commits Q last sys sys') := by
  cases h with
  | @start d writers c h =>
    obtain ⟨β, nested, body, rfl, hbody⟩ := hstart c h
    refine ⟨⟨fun p hp => ?_, ?_⟩, .inl rfl⟩
    · rcases List.mem_append.1 hp with hp | hp
      · exact hs.phases p hp
      · rw [List.mem_singleton.1 hp]
        exact .waiting nested body hbody
    · refine List.pairwise_append.2 ⟨hs.oneOpen, List.pairwise_singleton _ _, fun p _ q hq => ?_⟩
      rw [List.mem_singleton.1 hq]
      exact .inr rfl
  | @statement d d' before after γ body next working working' b hlock h =>
    have hphase := hs.phases _ (List.mem_append_right _ List.mem_cons_self)
    cases Phase.statement hphase hlock h with
    | stays hd hphase' hopen =>
      subst hd
      exact ⟨hs.replace hphase' (fun q _ hq => hq) hopen, .inl rfl⟩
    | commits hp hQ hp' =>
      have hclosed := hs.others_closed (by rw [hp]; exact Option.some_ne_none d')
      have hpast : Phase Q Done last d' ⟨next b, working'⟩ := by
        rw [hp']
        exact .committed last hlast (hdone d d' hQ)
      refine ⟨hs.replace hpast (fun q hq hphase' => ?_) ?_, .inr ⟨hQ, ?_⟩⟩
      · exact hphase'.of_commit (hclosed q hq) fun _ => hdone d d' hQ
      · exact .inl (by rw [hp'])
      · exact ⟨before, after, by rw [hp], by rw [hp']⟩
  | fail e => exact ⟨hs.replace (.failed e none) (fun q _ hq => hq) (.inl rfl), .inl rfl⟩
  | rollback => exact ⟨hs.replace (.failed _ none) (fun q _ hq => hq) (.inl rfl), .inl rfl⟩

include hstart hlast hdone in
/-- **Run rule**: what is committed moves by `Q` only, and the calls stay serial. -/
theorem writers_reachable {sys sys' : δ × List (Writer δ ε α)} (hs : Serial Q Done last sys)
    (h : Relation.ReflTransGen (WriterStep Starts) sys sys') :
    Serial Q Done last sys' ∧ Relation.ReflTransGen Q sys.1 sys'.1 := by
  induction h with
  | refl => exact ⟨hs, .refl⟩
  | tail _ hstep ih =>
    obtain ⟨hs', hmove⟩ := writers_step hstart hlast hdone ih.1 hstep
    refine ⟨hs', ?_⟩
    rcases hmove with hsame | hcommit
    · rw [hsame]
      exact ih.2
    · exact ih.2.tail hcommit.1

end Runs

/-- Before any call has started. -/
theorem Serial.nil (d : δ) : Serial Q Done last (d, []) :=
  ⟨fun _ hp => (nomatch hp), List.Pairwise.nil⟩

/-- A call that has returned has committed. -/
theorem Serial.done_of_returned {d : δ} {writers : List (Writer δ ε α)} {a : α} {working : Option δ}
    (hs : Serial Q Done last (d, writers)) (h : ⟨.ret a, working⟩ ∈ writers) : Done d := by
  generalize hp : (⟨.ret a, working⟩ : Writer δ ε α) = p at h
  cases hs.phases p h with
  | waiting nested body hbody => cases hp
  | inside rest w hrest =>
    cases rest with
    | ret _ => cases hp
    | raise _ => cases hp
    | session _ _ => cases hp
  | committed c hc hdone => exact hdone
  | failed e working => cases hp

/-- A call that runs alone. -/
theorem writers_of_run (Starts : Client (Connection δ) ε α → Prop) {a : α} {d' : δ}
    {working' : Option δ} (c : Client (Connection δ) ε α) :
    ∀ {d : δ} {working : Option δ}, c.run ⟨d, working⟩ = (.ok a, ⟨d', working'⟩) →
      Relation.ReflTransGen (WriterStep Starts) (d, [⟨c, working⟩]) (d', [⟨.ret a, working'⟩]) := by
  induction c with
  | ret b =>
    intro d working h
    cases h
    exact .refl
  | raise e =>
    intro d working h
    cases h
  | session body next ih =>
    intro d working h
    unfold Client.run at h
    cases hbody : body ⟨d, working⟩ with
    | error e =>
      rw [hbody] at h
      cases h
    | ok r =>
      rw [hbody] at h
      obtain ⟨b, d₁, working₁⟩ := r
      have hstep : WriterStep Starts (d, [] ++ ⟨.session body next, working⟩ :: [])
          (d₁, [] ++ ⟨next b, working₁⟩ :: []) :=
        .statement (.inr fun p hp => absurd hp List.not_mem_nil) hbody
      exact .head hstep (ih b h)

end AtlasDb.Lib
