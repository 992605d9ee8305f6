import AtlasDb.Governance.Evidence

/-!
# Admissions that fail half way

A batch is admitted member by member, each in a transaction of its own, and re-admitting a stored
member does nothing. So an admission that raises has changed nothing unless a member that was new to
the store went before the one that is refused.
-/

namespace AtlasDb.Governance

open Core Core.Timestamp Lib

variable {nfc : Nfc}

/-! ## Members -/

/-- Admit one member: what is looked up for it goes into its admission. -/
def admitMember (nfc : Nfc) (m : StoreClient Admission) :
    StoreClient (StoredArtifactRecord × Bool) :=
  m >>= admitModel nfc

/-- The members are admitted one after the other; for each it is said whether it was stored
already. -/
inductive AdmitsEach (nfc : Nfc) : List (StoreClient Admission) → Store → List Bool →
    Store → Prop where
  | nil {s : Store} : AdmitsEach nfc [] s [] s
  | cons {m : StoreClient Admission} {ms : List (StoreClient Admission)} {s s₁ s' : Store}
      {record : StoredArtifactRecord} {stored : Bool} {flags : List Bool}
      (hfirst : (admitMember nfc m).run s = (.ok (record, stored), s₁))
      (hrest : AdmitsEach nfc ms s₁ flags s') : AdmitsEach nfc (m :: ms) s (stored :: flags) s'

/-- From `s` the members are admitted as far as one that is refused. -/
def RefusedAt (nfc : Nfc) (ms : List (StoreClient Admission)) (s : Store) (flags : List Bool)
    (s' : Store) : Prop :=
  ∃ done m rest e s₁, ms = done ++ m :: rest ∧ AdmitsEach nfc done s flags s' ∧
    (admitMember nfc m).run s' = (.error e, s₁)

/-- A member of a batch is refused after one that was new to the store. The batch artifact, `head`,
comes first; the others hang from its record. -/
def RefusedAfterNew (nfc : Nfc) (head : Admission)
    (children : StoredArtifactRecord → List (StoreClient Admission)) (s : Store) : Prop :=
  ∃ parent stored s₁ flags s', (admitModel nfc head).run s = (.ok (parent, stored), s₁) ∧
    RefusedAt nfc (children parent) s₁ flags s' ∧ false ∈ stored :: flags

/-- An amendment is refused after its spec was admitted as new: the checks of the original pass. -/
def AmendmentRefused (nfc : Nfc) (originalArtifactId : String) (amendedSpec : ScenarioSpec)
    (editorRef reason amendedAt : String) (s : Store) : Prop :=
  ∃ original record s₁ e s',
    (∃ payload, ((getArtifact nfc originalArtifactId).run s).1 = .ok (original, payload)) ∧
    original.artifactType = .scenarioSpec ∧ some amendedSpec.behaviorId = original.behaviorId ∧
    some amendedSpec.sourceSymbolId = original.sourceSymbolId ∧
    some amendedSpec.symbolLineageId = original.symbolLineageId ∧
    (admitModel nfc (amendedAdmission originalArtifactId amendedSpec editorRef amendedAt)).run s =
      (.ok (record, false), s₁) ∧
    (recordAmendment nfc originalArtifactId amendedSpec editorRef reason amendedAt record).run s₁ =
      (.error e, s')

/-- If it raises, the operation has left the three tables as they were. -/
def AtomicAt {α : Type} (c : StoreClient α) (s : Store) : Prop :=
  ∀ e s', c.run s = (.error e, s') →
    s'.artifacts = s.artifacts ∧ s'.amendments = s.amendments ∧ s'.auditEvents = s.auditEvents

/-- From the given store the operation admits the members in order, as far as it gets. -/
def AdmitsFrom (nfc : Nfc) (s : Store) {α : Type} (c : StoreClient α)
    (ms : List (StoreClient Admission)) :
    Prop :=
  (∀ a s', c.run s = (.ok a, s') → ∃ flags, AdmitsEach nfc ms s flags s') ∧
    ∀ e s', c.run s = (.error e, s') → ∃ flags, RefusedAt nfc ms s flags s'

/-- The operation admits the members in order, as far as it gets. -/
def AdmitsInOrder (nfc : Nfc) {α : Type} (c : StoreClient α) (ms : List (StoreClient Admission)) :
    Prop :=
  ∀ s, AdmitsFrom nfc s c ms

variable {flags more : List Bool}

theorem AdmitsEach.append {ms ns : List (StoreClient Admission)} {s s₁ s' : Store}
    (h : AdmitsEach nfc ms s flags s₁) (h' : AdmitsEach nfc ns s₁ more s') :
    AdmitsEach nfc (ms ++ ns) s (flags ++ more) s' := by
  induction h with
  | nil => exact h'
  | cons hfirst hrest ih => exact .cons hfirst (ih h')

variable {ms : List (StoreClient Admission)}

/-- A list of members ends at one place only: at its end or at the first member that is refused. -/
theorem RefusedAt.unique {s s₁ s₂ : Store}
    (h : RefusedAt nfc ms s flags s₁) (h' : RefusedAt nfc ms s more s₂) :
    flags = more ∧ s₁ = s₂ := by
  obtain ⟨done, m, rest, e, t, rfl, hdone, hrefused⟩ := h
  obtain ⟨done', m', rest', e', t', hsplit, hdone', hrefused'⟩ := h'
  induction done generalizing done' s flags more with
  | nil =>
    cases hdone
    cases done' with
    | nil =>
      cases hdone'
      exact ⟨rfl, rfl⟩
    | cons x xs =>
      obtain ⟨rfl, -⟩ := List.cons.inj hsplit
      cases hdone' with
      | cons hfirst _ =>
        rw [hrefused] at hfirst
        cases hfirst
  | cons x xs ih =>
    cases hdone with
    | cons hfirst hrest =>
      cases done' with
      | nil =>
        obtain ⟨rfl, -⟩ := List.cons.inj hsplit
        cases hdone'
        rw [hfirst] at hrefused'
        cases hrefused'
      | cons x' xs' =>
        obtain ⟨rfl, hrests⟩ := List.cons.inj hsplit
        cases hdone' with
        | cons hfirst' hrest' =>
          rw [hfirst] at hfirst'
          cases hfirst'
          obtain ⟨rfl, rfl⟩ := ih hrest xs' hrests hrest'
          exact ⟨rfl, rfl⟩

theorem RefusedAt.not_admitted {s s₁ s₂ : Store}
    (h : RefusedAt nfc ms s flags s₁) : ¬ AdmitsEach nfc ms s more s₂ := by
  obtain ⟨done, m, rest, e, t, rfl, hdone, hrefused⟩ := h
  intro h'
  induction hdone generalizing more with
  | nil =>
    cases h' with
    | cons hfirst _ =>
      rw [hrefused] at hfirst
      cases hfirst
  | cons hfirst hrest ih =>
    cases h' with
    | cons hfirst' hrest' =>
      rw [hfirst] at hfirst'
      cases hfirst'
      exact ih hrefused hrest'

/-! ## Running one operation after another -/

section Bind

variable {α β : Type} {c : StoreClient α} {f : α → StoreClient β} {s s' : Store}

theorem run_bind_ok {b : β} (h : (c >>= f).run s = (.ok b, s')) :
    ∃ a s₁, c.run s = (.ok a, s₁) ∧ (f a).run s₁ = (.ok b, s') := by
  rw [Client.run_bind] at h
  split at h
  · next a s₁ heq => exact ⟨a, s₁, heq, h⟩
  · simp at h

theorem run_bind_error {e : StoreError} (h : (c >>= f).run s = (.error e, s')) :
    c.run s = (.error e, s') ∨ ∃ a s₁, c.run s = (.ok a, s₁) ∧ (f a).run s₁ = (.error e, s') := by
  rw [Client.run_bind] at h
  split at h
  · next a s₁ heq => exact .inr ⟨a, s₁, heq, h⟩
  · next e' s₁ heq =>
      obtain ⟨rfl, rfl⟩ : e' = e ∧ s₁ = s' := by simpa using h
      exact .inl heq

end Bind

/-- One operation after the other; the members of the second may depend on what the first
returns. -/
theorem AdmitsInOrder.bind {α β : Type} {c : StoreClient α} {f : α → StoreClient β}
    {ms ns : List (StoreClient Admission)} (hc : AdmitsInOrder nfc c ms)
    (hf : ∀ a s s₁, c.run s = (.ok a, s₁) → AdmitsInOrder nfc (f a) ns) :
    AdmitsInOrder nfc (c >>= f) (ms ++ ns) := by
  refine fun s => ⟨fun b s' hrun => ?_, fun e s' hrun => ?_⟩
  · obtain ⟨a, s₁, hfirst, hrest⟩ := run_bind_ok hrun
    obtain ⟨flags, hflags⟩ := (hc s).1 a s₁ hfirst
    obtain ⟨more, hmore⟩ := (hf a s s₁ hfirst s₁).1 b s' hrest
    exact ⟨_, hflags.append hmore⟩
  · rcases run_bind_error hrun with hfirst | ⟨a, s₁, hfirst, hrest⟩
    · obtain ⟨flags, done, m, rest, e', t, rfl, hdone, hrefused⟩ := (hc s).2 e s' hfirst
      exact ⟨flags, done, m, rest ++ ns, e', t, by simp, hdone, hrefused⟩
    · obtain ⟨flags, hflags⟩ := (hc s).1 a s₁ hfirst
      obtain ⟨more, done, m, rest, e', t, rfl, hdone, hrefused⟩ :=
      (hf a s s₁ hfirst s₁).2 e s' hrest
      exact ⟨flags ++ more, ms ++ done, m, rest, e', t, by simp, hflags.append hdone, hrefused⟩

variable {α : Type} {s s' : Store} {m : StoreClient Admission}
  {model : SpecDependent → ArtifactModel} {artifactType : GovernanceArtifactType}
  {parent : StoredArtifactRecord} {createdAt actorRef : String}

theorem AdmitsInOrder.ret (a : α) : AdmitsInOrder nfc (pure a : StoreClient α) [] := by
  refine fun s => ⟨fun b s' hrun => ?_, fun e s' hrun => ?_⟩
  · cases hrun
    exact ⟨[], .nil⟩
  · cases hrun

/-- The operation leaves the store alone, whether it returns or raises. -/
def ReadsOnly {α : Type} (c : StoreClient α) : Prop := ∀ s, (c.run s).2 = s

theorem ReadsOnly.ofExcept (x : Except StoreError α) :
    ReadsOnly (Client.ofExcept x : StoreClient α) := by
  intro s
  cases x <;> rfl

theorem ofExcept_run_ok {x : Except StoreError α} {a : α}
    (h : (Client.ofExcept x : StoreClient α).run s = (.ok a, s')) : x = .ok a := by
  cases x with
  | error e => cases h
  | ok b => exact (Prod.mk.inj h).1

theorem ReadsOnly.bind {α β : Type} {c : StoreClient α} {f : α → StoreClient β} (hc : ReadsOnly c)
    (hf : ∀ a, ReadsOnly (f a)) : ReadsOnly (c >>= f) := by
  intro s
  have hs := hc s
  rw [Client.run_bind]
  cases hrun : c.run s with
  | mk result s₁ =>
    rw [hrun] at hs
    cases hs
    cases result with
    | error e => rfl
    | ok a => exact hf a s₁

theorem readsOnly_getArtifact (nfc : Nfc) (artifactId : String) :
    ReadsOnly (getArtifact nfc artifactId) :=
  ReadsOnly.bind (fun _ => rfl) fun _ => ReadsOnly.ofExcept _

theorem run_reads_bind_ok {α β : Type} {c : StoreClient α} {f : α → StoreClient β}
    {b : β} (hc : ReadsOnly c) (h : (c >>= f).run s = (.ok b, s')) :
    ∃ a, c.run s = (.ok a, s) ∧ (f a).run s = (.ok b, s') := by
  obtain ⟨a, s₁, hfirst, hrest⟩ := run_bind_ok h
  have hsame := hc s
  rw [hfirst] at hsame
  obtain rfl : s₁ = s := hsame
  exact ⟨a, hfirst, hrest⟩

/-! ## The admissions of the store -/

/-- If it raises, the operation has changed nothing. -/
def RaisesClean {α : Type} (c : StoreClient α) : Prop :=
  ∀ s e s', c.run s = (.error e, s') → s' = s

theorem RaisesClean.after_reads {α β : Type} {c : StoreClient α} {f : α → StoreClient β}
    (hc : ReadsOnly c) (hf : ∀ a, RaisesClean (f a)) : RaisesClean (c >>= f) := by
  intro s e s' hrun
  have hs := hc s
  rcases run_bind_error hrun with hfirst | ⟨a, s₁, hfirst, hrest⟩
  · rw [hfirst] at hs
    exact hs
  · rw [hfirst] at hs
    obtain rfl : s₁ = s := hs
    exact hf a s₁ e s' hrest

theorem RaisesClean.session (body : StoreTxn α) :
    RaisesClean (Client.transaction body : StoreClient α) := by
  intro s e s' hrun
  simp only [Client.transaction, Client.run] at hrun
  split at hrun
  · exact (Prod.mk.inj hrun).2.symm
  · cases hrun

theorem RaisesClean.transaction {α β : Type} (body : StoreTxn α) (value : α → β) :
    RaisesClean (Client.transaction body >>= fun a => pure (value a) : StoreClient β) := by
  intro s e s' hrun
  rcases run_bind_error hrun with hfirst | ⟨a, s₁, hfirst, hrest⟩
  · exact RaisesClean.session body s e s' hfirst
  · cases hrest

/-- An admission that raises has changed nothing. -/
theorem raisesClean_admitModel (nfc : Nfc) (a : Admission) : RaisesClean (admitModel nfc a) := by
  refine RaisesClean.after_reads (ReadsOnly.ofExcept _) fun contentDigest => ?_
  refine RaisesClean.after_reads (ReadsOnly.ofExcept _) fun payload => ?_
  refine RaisesClean.after_reads (ReadsOnly.ofExcept _) fun payloadDigest => ?_
  refine RaisesClean.after_reads (ReadsOnly.ofExcept _) fun record => ?_
  refine RaisesClean.after_reads (fun _ => rfl) fun existing => ?_
  cases existing with
  | some row =>
    show RaisesClean (if _ then _ else _)
    split
    · intro s e s' hrun
      cases hrun
      rfl
    · intro s e s' hrun
      cases hrun
  | none => exact RaisesClean.session _

/-- An admission leaves the store alone if the artifact is stored already, and adds a row
otherwise. -/
theorem admitModel_ok {a : Admission} {record : StoredArtifactRecord} {stored : Bool}
    (h : (admitModel nfc a).run s = (.ok (record, stored), s')) :
    s'.artifacts.length = s.artifacts.length + (if stored then 0 else 1) ∧
    (stored = true → s' = s) := by
  obtain ⟨contentDigest, -, h⟩ := run_reads_bind_ok (ReadsOnly.ofExcept _) h
  obtain ⟨payload, -, h⟩ := run_reads_bind_ok (ReadsOnly.ofExcept _) h
  obtain ⟨payloadDigest, -, h⟩ := run_reads_bind_ok (ReadsOnly.ofExcept _) h
  obtain ⟨validated, -, h⟩ := run_reads_bind_ok (ReadsOnly.ofExcept _) h
  obtain ⟨existing, -, h⟩ := run_reads_bind_ok (fun _ => rfl) h
  cases existing with
  | some row =>
    dsimp only at h
    split at h
    · cases h
    · cases h
      exact ⟨rfl, fun _ => rfl⟩
  | none =>
    simp only [Client.transaction, Client.run] at h
    split at h
    · cases h
    · next hstore =>
        cases h
        obtain ⟨-, digest, canonical, rfl⟩ := insertThenAppend_eq_ok hstore
        obtain ⟨_, _, -, hstore⟩ := Txn.bind_eq_ok.mp hstore
        obtain ⟨_, _, -, hstore⟩ := Txn.bind_eq_ok.mp hstore
        cases hstore
        exact ⟨by simp, fun hfalse => absurd hfalse (by decide)⟩

theorem readsOnly_scenarioIdentity (scenarioSpecRef : String) :
    ReadsOnly (scenarioIdentity nfc scenarioSpecRef) := by
  refine ReadsOnly.bind (fun _ => rfl) fun row => ?_
  cases row with
  | none => exact fun _ => rfl
  | some row => exact (readsOnly_getArtifact nfc _).bind fun _ _ => rfl

theorem readsOnly_dependentAdmission {modelName : String} (item : SpecDependent) :
    ReadsOnly
    (dependentAdmission nfc modelName model artifactType parent createdAt actorRef item) :=
  (readsOnly_scenarioIdentity _).bind fun _ _ => rfl

/-- A member that is refused has changed nothing. -/
theorem raisesClean_admitMember (hm : ReadsOnly m) :
    RaisesClean (admitMember nfc m) :=
  RaisesClean.after_reads hm fun a => raisesClean_admitModel nfc a

theorem admitMember_ok (hm : ReadsOnly m) {record : StoredArtifactRecord} {stored : Bool}
    (h : (admitMember nfc m).run s = (.ok (record, stored), s')) :
    s'.artifacts.length = s.artifacts.length + (if stored then 0 else 1) ∧
    (stored = true → s' = s) := by
  obtain ⟨a, -, h⟩ := run_reads_bind_ok hm h
  exact admitModel_ok h

/-- The store is as it was if all members were stored already, and has more rows otherwise. -/
theorem AdmitsEach.same_or_more {flags : List Bool}
    (hms : ∀ m ∈ ms, ReadsOnly m) (h : AdmitsEach nfc ms s flags s') :
    s.artifacts.length ≤ s'.artifacts.length ∧
      (false ∈ flags → s.artifacts.length < s'.artifacts.length) ∧ (false ∉ flags → s' = s) := by
  induction h with
  | nil => exact ⟨le_rfl, nofun, fun _ => rfl⟩
  | @cons m ms s s₁ s' record stored flags hfirst hrest ih =>
    obtain ⟨hlength, hsame⟩ := admitMember_ok (hms m List.mem_cons_self) hfirst
    obtain ⟨hle, hmore, hrestSame⟩ := ih fun x hx => hms x (List.mem_cons_of_mem _ hx)
    cases stored with
    | false =>
      simp only [Bool.false_eq_true, if_false] at hlength
      refine ⟨by omega, fun _ => by omega, fun h => absurd List.mem_cons_self h⟩
    | true =>
      obtain rfl := hsame rfl
      refine ⟨hle, fun h => hmore ?_, fun h => hrestSame fun hmem =>
        h (List.mem_cons_of_mem _ hmem)⟩
      exact (List.mem_cons.mp h).resolve_left nofun

/-! ## The batches -/

theorem admitsInOrder_admitMember (hm : ReadsOnly m) :
    AdmitsInOrder nfc (admitMember nfc m) [m] := by
  refine fun s =>
    ⟨fun r s' hrun => ⟨[r.2], @AdmitsEach.cons _ _ _ _ _ _ r.1 _ _ hrun .nil⟩, fun e s' hrun => ?_⟩
  obtain rfl := raisesClean_admitMember hm s e s' hrun
  exact ⟨[], [], m, [], e, s', rfl, .nil, hrun⟩

theorem admitsInOrder_admitEach {admission : α → StoreClient Admission}
    (hreads : ∀ item, ReadsOnly (admission item)) (items : List α) (result : AdmissionResult) :
    AdmitsInOrder nfc (admitEach nfc admission items result) (items.map admission) := by
  induction items generalizing result with
  | nil => exact AdmitsInOrder.ret _
  | cons item items ih =>
    have hone : AdmitsInOrder nfc (admitMember nfc (admission item)) [admission item] :=
      admitsInOrder_admitMember (hreads item)
    have hboth := hone.bind fun r _ _ _ => ih
      { records := result.records ++ [r.1]
        idempotentArtifactIds :=
          if r.2 then result.idempotentArtifactIds ++ [r.1.artifactId]
          else result.idempotentArtifactIds }
    have hassoc := Client.bind_assoc (admission item) (admitModel nfc) fun r =>
      admitEach nfc admission items
        { records := result.records ++ [r.1]
          idempotentArtifactIds :=
            if r.2 then result.idempotentArtifactIds ++ [r.1.artifactId]
            else result.idempotentArtifactIds }
    rw [admitMember, hassoc] at hboth
    exact hboth

theorem admitsInOrder_admitEach_pure {admission : α → Admission} (items : List α)
    (result : AdmissionResult) :
    AdmitsInOrder nfc (admitEach nfc (fun item => pure (admission item)) items result)
      (items.map fun item => pure (admission item)) :=
  admitsInOrder_admitEach (fun _ _ => rfl) items result

theorem admitsInOrder_dependents {modelName : String}
    (items : List SpecDependent) (result : AdmissionResult) :
    AdmitsInOrder nfc (admitEach nfc
      (dependentAdmission nfc modelName model artifactType parent createdAt actorRef) items result)
      (items.map (dependentAdmission nfc modelName model artifactType parent createdAt actorRef)) :=
  admitsInOrder_admitEach readsOnly_dependentAdmission items result

/-- A batch is atomic iff none of its members is refused after a new one. -/
theorem atomicAt_batch_iff {head : Admission}
    {children : StoredArtifactRecord → List (StoreClient Admission)}
    {rest : StoredArtifactRecord × AdmissionResult → StoreClient AdmissionResult}
    (hreads : ∀ parent, ∀ m ∈ children parent, ReadsOnly m)
    (hrest : ∀ parent result, AdmitsInOrder nfc (rest (parent, result)) (children parent))
    (s : Store) :
    AtomicAt (admitBatchModel nfc head >>= rest) s ↔ ¬ RefusedAfterNew nfc head children s := by
  have hfirst : ∀ {parent stored s₁}, (admitModel nfc head).run s = (.ok (parent, stored), s₁) →
      ∃ result, (admitBatchModel nfc head).run s = (.ok (parent, result), s₁) := by
    intro parent stored s₁ hrun
    refine
      ⟨{ records := [parent], idempotentArtifactIds := if stored then [parent.artifactId]
        else [] }, ?_⟩
    rw [admitBatchModel, Client.run_bind, hrun]
    rfl
  constructor
  · rintro hatomic ⟨parent, stored, s₁, flags, s', hhead, hrefused, hnew⟩
    obtain ⟨result, hbatch⟩ := hfirst hhead
    have hwhole : (admitBatchModel nfc head >>= rest).run s = (rest (parent, result)).run s₁ := by
      rw [Client.run_bind, hbatch]
    cases hrun : (rest (parent, result)).run s₁ with
    | mk value s₂ =>
      cases value with
      | ok a =>
        obtain ⟨more, hmore⟩ := (hrest parent result s₁).1 a s₂ hrun
        exact hrefused.not_admitted hmore
      | error e =>
        obtain ⟨more, hmore⟩ := (hrest parent result s₁).2 e s₂ hrun
        obtain ⟨rfl, rfl⟩ := hrefused.unique hmore
        have hkept := (hatomic e _ (hwhole.trans hrun)).1
        obtain ⟨done, m, others, e', t, hsplit, hdone, -⟩ := hrefused
        obtain ⟨hle, hlt, -⟩ :=
          hdone.same_or_more fun x hx => hreads parent x (by simp [hsplit, hx])
        have hlength := (admitModel_ok hhead).1
        rw [hkept] at hle hlt
        cases stored with
        | false =>
          simp only [Bool.false_eq_true, if_false] at hlength
          omega
        | true =>
          have := hlt ((List.mem_cons.mp hnew).resolve_left nofun)
          simp only [if_true] at hlength
          omega
  · intro hnot e s' hrun
    rcases run_bind_error hrun with hbatch | ⟨⟨parent, result⟩, s₁, hbatch, hlast⟩
    · rcases run_bind_error hbatch with hhead | ⟨⟨parent, stored⟩, s₁, -, hret⟩
      · obtain rfl := raisesClean_admitModel nfc head s e s' hhead
        exact ⟨rfl, rfl, rfl⟩
      · cases hret
    · obtain ⟨⟨parent', stored⟩, s₂, hhead, hret⟩ := run_bind_ok hbatch
      cases hret
      obtain ⟨flags, hrefused⟩ := (hrest parent _ s₁).2 e s' hlast
      have hold : false ∉ stored :: flags :=
        fun hnew => hnot ⟨parent, stored, s₁, flags, s', hhead, hrefused, hnew⟩
      rw [List.mem_cons, not_or] at hold
      obtain rfl := (admitModel_ok hhead).2 (by simpa using hold.1)
      obtain ⟨done, m, others, e', t, hsplit, hdone, -⟩ := hrefused
      obtain ⟨-, -, hsame⟩ := hdone.same_or_more fun x hx => hreads parent x (by simp [hsplit, hx])
      obtain rfl := hsame hold.2
      exact ⟨rfl, rfl, rfl⟩

theorem readsOnly_pure_map {admission : α → Admission} {items : List α}
    (hm : m ∈ items.map fun item => pure (admission item)) : ReadsOnly m := by
  obtain ⟨item, -, rfl⟩ := List.mem_map.mp hm
  exact fun _ => rfl

theorem readsOnly_dependents {modelName : String} {items : List SpecDependent}
    (hm : m ∈ items.map
      (dependentAdmission nfc modelName model artifactType parent createdAt actorRef)) :
    ReadsOnly m := by
  obtain ⟨item, -, rfl⟩ := List.mem_map.mp hm
  exact readsOnly_dependentAdmission item

/-- What `admit_scenario_batch` admits after the batch itself, in order. -/
def ScenarioSpecBatchResult.children (batch : ScenarioSpecBatchResult) (createdAt actorRef : String)
    (parent : StoredArtifactRecord) : List (StoreClient Admission) :=
  (batch.classificationObservations.map fun observation => pure
    (keyedAdmission "ClassificationObservation" classificationObservation .classificationObservation
      parent createdAt actorRef observation)) ++
  ((batch.effectClosures.map fun closure => pure
    (keyedAdmission "EffectClosureArtifact" effectClosureArtifact .effectClosure parent createdAt
      actorRef closure)) ++
  ((batch.resolutionVectors.map fun resolution => pure
    (keyedAdmission "ResolutionVectorArtifact" resolutionVectorArtifact .resolutionVector parent
      createdAt actorRef resolution)) ++
  ((batch.budgetReports.map fun budget => pure
    (keyedAdmission "ScenarioCompilerBudgetReport" scenarioCompilerBudgetReport
      .analysisBudgetReport
      parent createdAt actorRef budget)) ++
  batch.scenarioSpecs.map fun spec => pure (specAdmission parent createdAt actorRef spec))))

/-- What `admit_bdd_batch` admits after the batch itself, in order. -/
def BddCompilationBatch.children (nfc : Nfc) (batch : BddCompilationBatch)
    (createdAt actorRef : String) (parent : StoredArtifactRecord) : List (StoreClient Admission) :=
  (batch.gherkinArtifacts.map fun artifact => pure
    (boundAdmission "GherkinArtifact" artifact.model .gherkinArtifact parent createdAt actorRef
      artifact.toIdentityBound)) ++
  ((batch.traceabilityManifests.map fun manifest => pure
    (boundAdmission "TraceabilityManifest" (traceabilityManifest manifest) .traceabilityManifest
      parent createdAt actorRef manifest)) ++
  batch.candidateBdds.map
    (dependentAdmission nfc "CandidateBdd" candidateBdd .candidateBdd parent createdAt actorRef))

/-- What `admit_runtime_batch` admits after the batch itself, in order. -/
def RuntimeVerificationBatch.children (nfc : Nfc) (batch : RuntimeVerificationBatch)
    (createdAt actorRef : String) (parent : StoredArtifactRecord) : List (StoreClient Admission) :=
  (batch.executionRecords.map fun execution => pure
    (keyedAdmission "RuntimeExecutionRecord" runtimeExecutionRecord .runtimeExecutionRecord parent
      createdAt actorRef execution)) ++
  batch.verificationResults.map
    (dependentAdmission nfc "RuntimeVerificationResult" runtimeVerificationResult
      .runtimeVerificationResult parent createdAt actorRef)

theorem atomicAt_scenarioBatch_iff (batch : ScenarioSpecBatchResult) (createdAt actorRef : String)
    (s : Store) :
    AtomicAt (admitScenarioBatch nfc batch createdAt actorRef) s ↔
      ¬ RefusedAfterNew nfc (batch.admission createdAt actorRef)
      (batch.children createdAt actorRef) s := by
  refine atomicAt_batch_iff (fun parent m hm => ?_) (fun parent result => ?_) s
  · simp only [ScenarioSpecBatchResult.children, List.mem_append] at hm
    rcases hm with hm | hm | hm | hm | hm
    all_goals exact readsOnly_pure_map hm
  · refine (admitsInOrder_admitEach_pure _ _).bind fun result _ _ _ => ?_
    refine (admitsInOrder_admitEach_pure _ _).bind fun result _ _ _ => ?_
    refine (admitsInOrder_admitEach_pure _ _).bind fun result _ _ _ => ?_
    refine (admitsInOrder_admitEach_pure _ _).bind fun result _ _ _ => ?_
    exact admitsInOrder_admitEach_pure _ _

theorem atomicAt_bddBatch_iff (batch : BddCompilationBatch) (createdAt actorRef : String)
    (s : Store) :
    AtomicAt (admitBddBatch nfc batch createdAt actorRef) s ↔
      ¬ RefusedAfterNew nfc (batch.admission createdAt actorRef)
        (batch.children nfc createdAt actorRef) s := by
  refine atomicAt_batch_iff (fun parent m hm => ?_) (fun parent result => ?_) s
  · simp only [BddCompilationBatch.children, List.mem_append] at hm
    rcases hm with hm | hm | hm
    · exact readsOnly_pure_map hm
    · exact readsOnly_pure_map hm
    · exact readsOnly_dependents hm
  · refine (admitsInOrder_admitEach_pure _ _).bind fun result _ _ _ => ?_
    refine (admitsInOrder_admitEach_pure _ _).bind fun result _ _ _ => ?_
    exact admitsInOrder_dependents _ _

theorem atomicAt_runtimeBatch_iff (batch : RuntimeVerificationBatch) (createdAt actorRef : String)
    (s : Store) :
    AtomicAt (admitRuntimeBatch nfc batch createdAt actorRef) s ↔
      ¬ RefusedAfterNew nfc (batch.admission createdAt actorRef)
        (batch.children nfc createdAt actorRef) s := by
  refine atomicAt_batch_iff (fun parent m hm => ?_) (fun parent result => ?_) s
  · simp only [RuntimeVerificationBatch.children, List.mem_append] at hm
    rcases hm with hm | hm
    · exact readsOnly_pure_map hm
    · exact readsOnly_dependents hm
  · refine (admitsInOrder_admitEach_pure _ _).bind fun result _ _ _ => ?_
    exact admitsInOrder_dependents _ _

/-! ## The amendment -/

theorem raisesClean_recordAmendment (originalArtifactId : String) (amendedSpec : ScenarioSpec)
    (editorRef reason amendedAt : String) (record : StoredArtifactRecord) :
    RaisesClean
    (recordAmendment nfc originalArtifactId amendedSpec editorRef reason amendedAt record) := by
  refine RaisesClean.after_reads (ReadsOnly.ofExcept _) fun _ => ?_
  refine RaisesClean.after_reads (ReadsOnly.ofExcept _) fun _ => ?_
  exact RaisesClean.transaction _ _

/-- When an amendment is stored whole or not at all. -/
theorem atomicAt_amendment_iff (originalArtifactId : String) (amendedSpec : ScenarioSpec)
    (editorRef reason amendedAt : String) (s : Store) :
    AtomicAt (amendScenarioSpec nfc originalArtifactId amendedSpec editorRef reason amendedAt) s ↔
      ¬ AmendmentRefused nfc originalArtifactId amendedSpec editorRef reason amendedAt s := by
  have hread := readsOnly_getArtifact nfc originalArtifactId s
  constructor
  · rintro hatomic ⟨original, record, s₁, e, s', ⟨payload, hfound⟩, htype, hbehavior,
      hsymbol, hlineage,
      hadmit, hrecord⟩
    have hrun :
      (amendScenarioSpec nfc originalArtifactId amendedSpec editorRef reason amendedAt).run s =
        (.error e, s') := by
      have hget : (getArtifact nfc originalArtifactId).run s = (.ok (original, payload), s) :=
        Prod.ext hfound hread
      rw [amendScenarioSpec, Client.run_bind, hget]
      dsimp only
      rw [if_neg (not_not_intro htype), if_neg (not_not_intro hbehavior),
        if_neg (not_not_intro hsymbol), if_neg (not_not_intro hlineage), Client.run_bind, hadmit]
      exact hrecord
    obtain rfl := raisesClean_recordAmendment _ _ _ _ _ _ _ _ _ hrecord
    have hlength := (admitModel_ok hadmit).1
    rw [(hatomic e _ hrun).1] at hlength
    simp at hlength
  · intro hnot e s' hrun
    rcases run_bind_error hrun with hfirst | ⟨⟨original, payload⟩, s₁, hfirst, hrest⟩
    · rw [hfirst] at hread
      obtain rfl : s' = s := hread
      exact ⟨rfl, rfl, rfl⟩
    · rw [hfirst] at hread
      obtain rfl : s₁ = s := hread
      dsimp only at hrest
      split at hrest
      · cases hrest
        exact ⟨rfl, rfl, rfl⟩
      next htype =>
      split at hrest
      · cases hrest
        exact ⟨rfl, rfl, rfl⟩
      next hbehavior =>
      split at hrest
      · cases hrest
        exact ⟨rfl, rfl, rfl⟩
      next hsymbol =>
      split at hrest
      · cases hrest
        exact ⟨rfl, rfl, rfl⟩
      next hlineage =>
      rcases run_bind_error hrest with hadmit | ⟨⟨record, stored⟩, s₂, hadmit, hlast⟩
      · obtain rfl := raisesClean_admitModel nfc _ s₁ e s' hadmit
        exact ⟨rfl, rfl, rfl⟩
      · obtain rfl := raisesClean_recordAmendment _ _ _ _ _ _ s₂ e s' hlast
        cases stored with
        | false =>
          exact absurd ⟨original, record, s', e, s', ⟨payload, by rw [hfirst]⟩, not_not.mp htype,
            not_not.mp hbehavior, not_not.mp hsymbol, not_not.mp hlineage, hadmit, hlast⟩ hnot
        | true =>
          obtain rfl := (admitModel_ok hadmit).2 rfl
          exact ⟨rfl, rfl, rfl⟩

/-- **When an admission is atomic.** In every store, a batch admission that raises leaves the tables
as they were iff no member of the batch is refused after one that was new to the store, and an
amendment that raises does iff it is not refused after its spec was admitted as new. -/
theorem admission_atomic_iff (nfc : Nfc) (s : Store) :
    (∀ batch createdAt actorRef, AtomicAt (admitScenarioBatch nfc batch createdAt actorRef) s ↔
      ¬ RefusedAfterNew nfc (batch.admission createdAt actorRef)
      (batch.children createdAt actorRef) s) ∧
    (∀ batch createdAt actorRef, AtomicAt (admitBddBatch nfc batch createdAt actorRef) s ↔
      ¬ RefusedAfterNew nfc (batch.admission createdAt actorRef)
        (batch.children nfc createdAt actorRef) s) ∧
    (∀ batch createdAt actorRef, AtomicAt (admitRuntimeBatch nfc batch createdAt actorRef) s ↔
      ¬ RefusedAfterNew nfc (batch.admission createdAt actorRef)
        (batch.children nfc createdAt actorRef) s) ∧
    ∀ originalArtifactId amendedSpec editorRef reason amendedAt,
      AtomicAt (amendScenarioSpec nfc originalArtifactId amendedSpec editorRef reason amendedAt) s ↔
        ¬ AmendmentRefused nfc originalArtifactId amendedSpec editorRef reason amendedAt s :=
  ⟨fun batch createdAt actorRef => atomicAt_scenarioBatch_iff batch createdAt actorRef s,
    fun batch createdAt actorRef => atomicAt_bddBatch_iff batch createdAt actorRef s,
    fun batch createdAt actorRef => atomicAt_runtimeBatch_iff batch createdAt actorRef s,
    fun originalArtifactId amendedSpec editorRef reason amendedAt =>
      atomicAt_amendment_iff originalArtifactId amendedSpec editorRef reason amendedAt s⟩

/-! ### A batch whose second member is refused -/

/-- A candidate whose `ScenarioSpec` has not been admitted. -/
def orphanCandidateBatch : BddCompilationBatch where
  scenarioSpecBatchDigest := "spec-batch-1"
  gherkinArtifacts := []
  traceabilityManifests := []
  candidateBdds :=
    [{ ref := "candidate-1"
       scenarioSpecRef := "spec-1"
       platformGovernanceRef := none
       other := .none
       contentDigest := "sha256:0" }]
  other := ⟨[("schema_version", .str "bdd-compilation-batch-1.1")], rfl⟩
  contentDigest := "sha256:57a6a8681ece5fb8e104848f01ac7060db79158ae0301c3ac245fe58ae5fde60"

/-- Its admission to the empty store raises, and the batch artifact and its event stay. -/
theorem orphanCandidate_not_atomic :
    ¬ AtomicAt (admitBddBatch asciiNfc orphanCandidateBatch "2026-07-29T00:00:00Z" "actor-1")
      Store.empty := by
  intro hatomic
  have herror : ((admitBddBatch asciiNfc orphanCandidateBatch "2026-07-29T00:00:00Z"
      "actor-1").run Store.empty).1.isOk = false := by decide +kernel
  have hleft : ((admitBddBatch asciiNfc orphanCandidateBatch "2026-07-29T00:00:00Z"
      "actor-1").run Store.empty).2.artifacts.length = 1 := by decide +kernel
  cases hrun : (admitBddBatch asciiNfc orphanCandidateBatch "2026-07-29T00:00:00Z"
      "actor-1").run Store.empty with
  | mk result s' =>
    rw [hrun] at herror hleft
    cases result with
    | ok r => simp [Except.isOk, Except.toBool] at herror
    | error e =>
      rw [(hatomic e s' hrun).1] at hleft
      cases hleft

end AtlasDb.Governance
