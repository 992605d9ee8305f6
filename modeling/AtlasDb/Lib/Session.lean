import Mathlib.Logic.Relation

/-!
# Clients of a transactional store

A client of a store works in *sessions*: a session runs its body on the current state, commits the
state the body leaves, and restores the old one when the body raises. Between two sessions of one
client nothing is held, so an operation that opens several of them is not one transaction.

`Client σ ε α` is such an operation as data (the sessions it opens, in order, each next one chosen
by the results so far), and `Client.run` executes it alone. An invariant of the store is proved once
per session body (`Keeps`) and then holds after every operation (`Client.run_preserves`) and after
every sequence of operations (`runAll_preserves`), and, since it does not matter what happens
between two sessions of a client, along every interleaving of clients (`Interleaving.invariant`).
-/

namespace AtlasDb.Lib

/-- The body of a session: it may read and change the state, or raise. -/
abbrev Txn (σ ε α : Type) : Type := StateT σ (Except ε) α

/-- An operation on the store: a sequence of sessions ending in a value or an exception. -/
inductive Client (σ ε α : Type) : Type 1 where
  | ret (value : α)
  | raise (error : ε)
  | session {β : Type} (body : Txn σ ε β) (next : β → Client σ ε α)

variable {σ ε α β : Type}

namespace Client

def bind : Client σ ε α → (α → Client σ ε β) → Client σ ε β
  | ret a, f => f a
  | raise e, _ => raise e
  | session body next, f => session body fun b => (next b).bind f

instance : Monad (Client σ ε) where
  pure := ret
  bind := bind

/-- One session, and nothing else. -/
def transaction (body : Txn σ ε α) : Client σ ε α := session body ret

/-- Code outside any session that may raise. -/
def ofExcept : Except ε α → Client σ ε α
  | .ok a => ret a
  | .error e => raise e

/-- Execute an operation with no other client around. -/
def run : Client σ ε α → σ → Except ε α × σ
  | ret a, s => (.ok a, s)
  | raise e, s => (.error e, s)
  | session body next, s =>
    match body s with
    | .error e => (.error e, s)
    | .ok (b, s') => (next b).run s'

/-- The first session, and what is left of the operation after it. -/
def advance : Client σ ε α → σ → Client σ ε α × σ
  | ret a, s => (ret a, s)
  | raise e, s => (raise e, s)
  | session body next, s =>
    match body s with
    | .error e => (raise e, s)
    | .ok (b, s') => (next b, s')

end Client

/-- Execute operations one after the other, whether they succeed or raise. -/
def runAll (run : α → σ → σ) : List α → σ → σ
  | [], s => s
  | op :: ops, s => runAll run ops (run op s)

/-! ## Invariants -/

/-- A session body keeps `I` when it commits. -/
def Keeps (I : σ → Prop) (body : Txn σ ε α) : Prop :=
  ∀ s a s', I s → body s = .ok (a, s') → I s'

/-- A body that only reads keeps everything. -/
theorem Keeps.of_readOnly {I : σ → Prop} {body : Txn σ ε α}
    (h : ∀ s a s', body s = .ok (a, s') → s' = s) : Keeps I body := by
  intro s a s' hI hrun
  rw [h s a s' hrun]
  exact hI

theorem Keeps.pure {I : σ → Prop} (a : α) : Keeps I (pure a : Txn σ ε α) :=
  Keeps.of_readOnly fun s b s' h => by
    cases h
    rfl

theorem Txn.bind_eq_ok {x : Txn σ ε α} {f : α → Txn σ ε β} {s s' : σ} {b : β} :
    (x >>= f) s = .ok (b, s') ↔ ∃ a s₁, x s = .ok (a, s₁) ∧ f a s₁ = .ok (b, s') := by
  show (StateT.bind x f) s = .ok (b, s') ↔ _
  unfold StateT.bind
  cases h : x s with
  | error e => simp [bind, Except.bind]
  | ok r =>
    constructor
    · exact fun hrun => ⟨r.1, r.2, rfl, hrun⟩
    · rintro ⟨a, s₁, hr, hrun⟩
      cases hr
      exact hrun

theorem Keeps.bind {I : σ → Prop} {x : Txn σ ε α} {f : α → Txn σ ε β}
    (hx : Keeps I x) (hf : ∀ a, Keeps I (f a)) : Keeps I (x >>= f) := by
  intro s b s' hI hrun
  obtain ⟨a, s₁, hxs, hfs⟩ := Txn.bind_eq_ok.mp hrun
  exact hf a s₁ b s' (hx s a s₁ hI hxs) hfs

namespace Client

/-- Every session the operation may open keeps `I`, and whatever it returns satisfies `Q`. -/
def Ensures (I : σ → Prop) (Q : α → Prop) : Client σ ε α → Prop
  | ret a => Q a
  | raise _ => True
  | session body next => Keeps I body ∧ ∀ b, (next b).Ensures I Q

/-- Every session the operation may open keeps `I`. -/
abbrev Preserves (I : σ → Prop) (c : Client σ ε α) : Prop := c.Ensures I fun _ => True

variable {I : σ → Prop} {Q : α → Prop} {c : Client σ ε α} {f : α → Client σ ε β}

theorem Ensures.bind {R : β → Prop} (hc : c.Ensures I Q) (hf : ∀ a, Q a → (f a).Ensures I R) :
    (c >>= f).Ensures I R := by
  show (Client.bind c f).Ensures I R
  induction c with
  | ret a => exact hf a hc
  | raise e => trivial
  | session body next ih => exact ⟨hc.1, fun b => ih b (hc.2 b)⟩

theorem Preserves.bind {R : β → Prop}
    (hc : c.Preserves I) (hf : ∀ a, (f a).Ensures I R) : (c >>= f).Ensures I R :=
  Ensures.bind hc fun a _ => hf a

theorem Preserves.transaction {body : Txn σ ε α} (h : Keeps I body) :
    (Client.transaction body).Preserves I :=
  ⟨h, fun _ => trivial⟩

theorem Preserves.ofExcept (x : Except ε α) :
    (Client.ofExcept x : Client σ ε α).Preserves I := by
  cases x <;> trivial

/-- The continuation of code outside a session only matters where that code returns. -/
theorem Ensures.ofExcept_bind {R : β → Prop} {x : Except ε α}
    (h : ∀ a, x = .ok a → (f a).Ensures I R) :
    (Client.ofExcept x >>= f).Ensures I R := by
  cases x with
  | error e => exact trivial
  | ok a => exact h a rfl

/-- **Run rule**: an operation whose sessions keep `I` keeps `I`, whether it returns or raises. -/
theorem run_preserves (hc : c.Ensures I Q) :
    ∀ {s : σ}, I s → I (c.run s).2 := by
  induction c with
  | ret a => exact fun h => h
  | raise e => exact fun h => h
  | session body next ih =>
    intro s hI
    unfold run
    cases hb : body s with
    | error e => exact hI
    | ok r =>
      obtain ⟨b, s'⟩ := r
      exact ih b (hc.2 b) (hc.1 s b s' hI hb)

theorem bind_assoc {γ : Type} (c : Client σ ε α) (f : α → Client σ ε β) (g : β → Client σ ε γ) :
    c >>= f >>= g = c >>= fun a => f a >>= g := by
  show Client.bind (Client.bind c f) g = Client.bind c fun a => Client.bind (f a) g
  induction c with
  | ret a => rfl
  | raise e => rfl
  | session body next ih =>
    simp only [Client.bind]
    congr 1
    funext b
    exact ih b

theorem run_bind (c : Client σ ε α) (f : α → Client σ ε β) (s : σ) :
    (c >>= f).run s =
      match c.run s with
      | (.ok a, s') => (f a).run s'
      | (.error e, s') => (.error e, s') := by
  show (Client.bind c f).run s = _
  induction c generalizing s with
  | ret a => rfl
  | raise e => rfl
  | session body next ih =>
    simp only [Client.bind, run]
    cases body s with
    | error e => rfl
    | ok r => exact ih r.1 r.2

/-- In state `s` the operation returns a value with `Q` and changes nothing. -/
def Reads (s : σ) (Q : α → Prop) (c : Client σ ε α) : Prop := ∃ a, c.run s = (.ok a, s) ∧ Q a

theorem Reads.ret {s : σ} {a : α} (h : Q a) :
    Reads s Q (pure a : Client σ ε α) :=
  ⟨a, rfl, h⟩

theorem Reads.ofExcept {s : σ} {x : Except ε α} {a : α} (hx : x = .ok a)
    (h : Q a) : (Client.ofExcept x : Client σ ε α).Reads s Q := by
  subst hx
  exact ⟨a, rfl, h⟩

theorem Reads.bind {s : σ} {R : β → Prop} (hc : c.Reads s Q) (hf : ∀ a, Q a → (f a).Reads s R) :
    (c >>= f).Reads s R := by
  obtain ⟨a, hrun, hQ⟩ := hc
  obtain ⟨b, hrun', hR⟩ := hf a hQ
  refine ⟨b, ?_, hR⟩
  rw [run_bind, hrun]
  exact hrun'

end Client

/-- **Invariant rule for runs.** -/
theorem runAll_preserves {I : σ → Prop} {P : α → Prop} {run : α → σ → σ}
    (hstep : ∀ op s, P op → I s → I (run op s)) :
    ∀ (ops : List α) {s : σ}, (∀ op ∈ ops, P op) → I s → I (runAll run ops s)
  | [], _, _, hI => hI
  | op :: ops, s, hP, hI =>
    runAll_preserves hstep ops (fun o ho => hP o (List.mem_cons_of_mem _ ho))
      (hstep op s (hP op List.mem_cons_self) hI)

/-! ## Interleaved clients -/

/-- The state and what is left of each client that has started. -/
structure System (σ ε α : Type) : Type 1 where
  state : σ
  clients : List (Client σ ε α)

/-- One step of a system in which the clients of a kind may start at any time. A session of any
client commits, or is rolled back for a reason of its own or from outside. -/
inductive Interleaving (Starts : Client σ ε α → Prop) : System σ ε α → System σ ε α → Prop where
  | start {s : σ} {clients : List (Client σ ε α)} {c : Client σ ε α} (h : Starts c) :
      Interleaving Starts ⟨s, clients⟩ ⟨s, clients ++ [c]⟩
  | commit {s s' : σ} {before after : List (Client σ ε α)} {γ : Type} {body : Txn σ ε γ}
      {next : γ → Client σ ε α} {b : γ} (h : body s = .ok (b, s')) :
      Interleaving Starts ⟨s, before ++ .session body next :: after⟩ ⟨s', before ++ next b :: after⟩
  | rollback {s : σ} {before after : List (Client σ ε α)} {γ : Type} {body : Txn σ ε γ}
      {next : γ → Client σ ε α} (e : ε) :
      Interleaving Starts ⟨s, before ++ .session body next :: after⟩
        ⟨s, before ++ .raise e :: after⟩

namespace Interleaving

variable {Starts : Client σ ε α → Prop} {I : σ → Prop}

/-- Every client that is under way keeps `I` with the sessions it has left. -/
def ClientsPreserve (I : σ → Prop) (sys : System σ ε α) : Prop := ∀ c ∈ sys.clients, c.Preserves I

theorem clientsPreserve_replace {s s' : σ} {before after : List (Client σ ε α)}
    {c c' : Client σ ε α} (h : ClientsPreserve I ⟨s, before ++ c :: after⟩)
    (hc : c.Preserves I → c'.Preserves I) : ClientsPreserve I ⟨s', before ++ c' :: after⟩ := by
  intro d hd
  rcases List.mem_append.1 hd with hd | hd
  · exact h d (List.mem_append_left _ hd)
  · rcases List.mem_cons.1 hd with rfl | hd
    · exact hc (h c (List.mem_append_right _ List.mem_cons_self))
    · exact h d (List.mem_append_right _ (List.mem_cons_of_mem _ hd))

variable {sys sys' : System σ ε α}

theorem step_clientsPreserve (hstart : ∀ c, Starts c → c.Preserves I)
    (h : Interleaving Starts sys sys') (hc : ClientsPreserve I sys) : ClientsPreserve I sys' := by
  cases h with
  | start h =>
    intro d hd
    rcases List.mem_append.1 hd with hd | hd
    · exact hc d hd
    · rw [List.mem_singleton.1 hd]
      exact hstart _ h
  | commit h => exact clientsPreserve_replace hc fun hsession => hsession.2 _
  | rollback e => exact clientsPreserve_replace hc fun _ => trivial

theorem clientsPreserve (hstart : ∀ c, Starts c → c.Preserves I)
    (h : Relation.ReflTransGen (Interleaving Starts) sys sys') (hc : ClientsPreserve I sys) :
    ClientsPreserve I sys' := by
  induction h with
  | refl => exact hc
  | tail _ hstep ih => exact step_clientsPreserve hstart hstep ih

/-- **Invariant rule for interleavings.** -/
theorem invariant (hstart : ∀ c, Starts c → c.Preserves I)
    (h : Relation.ReflTransGen (Interleaving Starts) sys sys') (hc : ClientsPreserve I sys)
    (hI : I sys.state) : I sys'.state := by
  induction h with
  | refl => exact hI
  | tail hpath hstep ih =>
    have hclients := clientsPreserve hstart hpath hc
    cases hstep with
    | start h => exact ih
    | commit h =>
      exact (hclients _ (List.mem_append_right _ List.mem_cons_self)).1 _ _ _ ih h
    | rollback e => exact ih

theorem of_advance (Starts : Client σ ε α → Prop) (before after : List (Client σ ε α))
    (c : Client σ ε α) (s : σ) :
    Relation.ReflTransGen (Interleaving Starts) ⟨s, before ++ c :: after⟩
      ⟨(c.advance s).2, before ++ (c.advance s).1 :: after⟩ := by
  cases c with
  | ret a => exact .refl
  | raise e => exact .refl
  | session body next =>
    cases hb : body s with
    | error e =>
      simp only [Client.advance, hb]
      exact .single (.rollback e)
    | ok r =>
      simp only [Client.advance, hb]
      exact .single (.commit hb)

/-- A client that runs alone is one of the interleavings. -/
theorem of_run (Starts : Client σ ε α → Prop) (before after : List (Client σ ε α))
    (c : Client σ ε α) (s : σ) :
    ∃ c', Relation.ReflTransGen (Interleaving Starts) ⟨s, before ++ c :: after⟩
      ⟨(c.run s).2, before ++ c' :: after⟩ := by
  induction c generalizing s with
  | ret a => exact ⟨_, .refl⟩
  | raise e => exact ⟨_, .refl⟩
  | session body next ih =>
    cases hb : body s with
    | error e =>
      simp only [Client.run, hb]
      exact ⟨_, .single (.rollback e)⟩
    | ok r =>
      obtain ⟨c', hpath⟩ := ih r.1 r.2
      simp only [Client.run, hb]
      exact ⟨c', .head (.commit hb) hpath⟩

end Interleaving

end AtlasDb.Lib
