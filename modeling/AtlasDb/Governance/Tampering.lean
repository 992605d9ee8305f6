import AtlasDb.Core.Separation
import AtlasDb.Governance.Payloads

/-!
# What the last digest commits to

Two audit logs that the check of `history` accepts and that end in one digest record the same events
in the same order, up to the normal form of their texts; or some two of their events have different
canonical bytes and one digest (`audit_log_committed`).
-/

namespace AtlasDb.Governance

open Core Lib

variable {nfc : Nfc}

/-! ## Canonical bytes of an event -/

def eventKeys : List String :=
  ["event_id", "sequence", "event_type", "artifact_id", "actor_ref", "event_at", "payload_digest",
    "previous_event_digest"]

/-- The documents the payload of an event projects to. -/
def eventItems (nfc : Nfc) (e : GovernanceAuditEvent) : List Json :=
  [.str (nfc.normalize e.eventId), .int e.sequence, .str (nfc.normalize e.eventType.value),
    .str (nfc.normalize e.artifactId), .str (nfc.normalize e.actorRef),
    .str (nfc.normalize e.eventAt),
    .str (nfc.normalize e.payloadDigest),
    e.previousEventDigest.elim .null fun digest => .str (nfc.normalize digest)]

def eventOctets (nfc : Nfc) (e : GovernanceAuditEvent) : List Nat :=
  utf8 (Json.obj (eventKeys.zip (eventItems nfc e))).dumps

theorem projectFields_eq {fields : List (String × PyValue)} {items : List Json}
    {projected : List (String × Json)} (hname : (fields.map Prod.fst).all asciiName = true)
    (hnodup : (projected.map Prod.fst ++ fields.map Prod.fst).Nodup)
    (hvalue : List.Forall₂ (fun f j => project nfc f.2 = .ok j) fields items) :
    projectFields nfc projected fields = .ok (projected ++ (fields.map Prod.fst).zip items) := by
  induction hvalue generalizing projected with
  | nil => rw [projectFields, List.map_nil, List.zip_nil_left, List.append_nil]
  | @cons f j fields items hitem _ ih =>
    obtain ⟨key, value⟩ := f
    simp only [List.map_cons, List.all_cons, Bool.and_eq_true] at hname
    have hkey : nfc.normalize key = key := nfc.ascii key hname.1
    have hfresh : key ∉ projected.map Prod.fst := by
      intro hk
      exact List.disjoint_of_nodup_append hnodup hk List.mem_cons_self
    have hrest := @ih (projected ++ [(key, j)]) hname.2 (by simpa using hnodup)
    simp only [projectFields, hitem, bind, Except.bind, addMember_fresh hkey hfresh, hrest]
    simp

theorem project_payload (e : GovernanceAuditEvent) :
    project nfc e.payload = .ok (.obj (eventKeys.zip (eventItems nfc e))) := by
  have hprevious : project nfc (optionalStr e.previousEventDigest) =
      .ok (e.previousEventDigest.elim .null fun digest => .str (nfc.normalize digest)) := by
    cases e.previousEventDigest <;> rfl
  rw [GovernanceAuditEvent.payload, PyValue.record, project, projectItems_record,
    @projectFields_eq nfc _ (eventItems nfc e)]
  · rfl
  · exact (by decide : eventKeys.all asciiName = true)
  · exact (by decide : eventKeys.Nodup)
  · simp only [eventItems, List.forall₂_cons, List.Forall₂.nil, and_true, hprevious]
    exact ⟨rfl, rfl, rfl, rfl, rfl, rfl, rfl⟩

theorem canonicalJsonBytes_payload (e : GovernanceAuditEvent) :
    canonicalJsonBytes nfc e.payload = .ok (eventOctets nfc e) := by
  rw [canonicalJsonBytes, project_payload]
  rfl

theorem digestOf_payload (e : GovernanceAuditEvent) :
    digestOf nfc e.payload = .ok (sha256Digest (eventOctets nfc e)) := by
  rw [digestOf, canonicalDigest, canonicalJsonBytes_payload]
  rfl

/-- Canonical bytes tell the events apart, up to the normal form of their texts. -/
theorem eventItems_of_octets {e e' : GovernanceAuditEvent}
    (h : eventOctets nfc e = eventOctets nfc e') :
    eventItems nfc e = eventItems nfc e' := by
  have hprintable (e : GovernanceAuditEvent) :
      (Json.obj (eventKeys.zip (eventItems nfc e))).sortKeys.Printable := by
    have hwell : e.payload.WellFormed := by
      refine ⟨trivial, trivial, trivial, trivial, trivial, trivial, trivial, ?_, trivial⟩
      cases e.previousEventDigest <;> trivial
    exact (project_normal hwell (project_payload e)).1.sortKeys.printable
  have hkeys (e : GovernanceAuditEvent) :
      ((eventKeys.zip (eventItems nfc e)).map fun m => (m.1, m.2.sortKeys)).map Prod.fst =
      eventKeys := rfl
  have hsorted := Json.render_injective (hprintable e) (hprintable e') (utf8_injective h)
  have hperm := sortKeysMembers_perm hsorted
  -- the members have one order of keys, and each key once
  have hsame : ((eventKeys.zip (eventItems nfc e)).map fun m => (m.1, m.2.sortKeys)) =
      (eventKeys.zip (eventItems nfc e')).map fun m => (m.1, m.2.sortKeys) := by
    apply List.ext_getElem hperm.length_eq
    intro i hi hi'
    have hkey := List.getElem_of_eq ((hkeys e).trans (hkeys e').symm) (by simpa using hi)
    rw [List.getElem_map (f := Prod.fst), List.getElem_map (f := Prod.fst)] at hkey
    have hnodup := hkeys e' ▸ (by decide : eventKeys.Nodup)
    exact List.inj_on_of_nodup_map hnodup (hperm.mem_iff.mp (List.getElem_mem hi))
      (List.getElem_mem hi')
      hkey
  have hitems (e : GovernanceAuditEvent) : (eventItems nfc e).map Json.sortKeys =
    eventItems nfc e := by
    cases hprevious : e.previousEventDigest <;> simp [eventItems, hprevious, Json.sortKeys]
  rw [← hitems e, ← hitems e']
  exact congrArg (List.map Prod.snd) hsame

theorem normalize_sha256Digest (octets : List Nat) :
    nfc.normalize (sha256Digest octets) = sha256Digest octets := by
  have hdigit : ∀ n < 16, (Sha256.hexDigit n).toNat < 128 := by decide
  apply nfc.ascii
  rw [List.all_eq_true, sha256Digest, String.toList_append]
  intro c hc
  apply decide_eq_true
  rcases List.mem_append.mp hc with hc | hc
  · exact of_decide_eq_true (List.all_eq_true.mp
      (by decide : ("sha256:".toList.all fun c => decide (c.toNat < 128)) = true) c hc)
  · rw [String.toList_ofList, Sha256.hexdigest] at hc
    obtain ⟨word, -, hc⟩ := List.mem_flatMap.mp hc
    obtain ⟨shift, -, rfl⟩ := List.mem_map.mp hc
    exact hdigit _ (Nat.mod_lt _ (by decide))

/-! ## Logs -/

/-- The row with its texts in normal form. -/
def AuditRow.normalized (nfc : Nfc) (row : AuditRow) : AuditRow :=
  ⟨nfc.normalize row.eventId, row.sequence, nfc.normalize row.eventType,
    nfc.normalize row.artifactId,
    nfc.normalize row.actorRef, nfc.normalize row.eventAt, nfc.normalize row.payloadDigest,
    row.previousEventDigest.map nfc.normalize, row.contentDigest⟩

/-- The events of the rows have different canonical bytes and one digest. -/
def Collide (nfc : Nfc) (row row' : AuditRow) : Prop :=
  ∃ type type' octets octets', canonicalJsonBytes nfc (row.event type).payload = .ok octets ∧
    canonicalJsonBytes nfc (row'.event type').payload = .ok octets' ∧ octets ≠ octets' ∧
    sha256Digest octets = sha256Digest octets'

theorem checkEvent_ok {previous : Option String} {row : AuditRow}
    (h : checkEvent nfc previous row = .ok true) :
    row.previousEventDigest = previous ∧ ∃ type, type.value = row.eventType ∧
      row.contentDigest = sha256Digest (eventOctets nfc (row.event type)) := by
  unfold checkEvent at h
  split at h
  · cases h
  · next type htype =>
      have hvalue : type.value = row.eventType := by
        simpa using List.find?_some htype
      split at h
      · cases h
      · next hprevious =>
          rw [digestOf_payload] at h
          exact ⟨not_not.mp hprevious, type, hvalue, of_decide_eq_true (Except.ok.inj h)⟩

/-- Rows with one digest are the same and follow the same digest, or they collide. -/
theorem same_or_collide (previous previous' : Option String) (row row' : AuditRow)
    (hgood : ∀ d ∈ previous, nfc.normalize d = d) (hgood' : ∀ d ∈ previous', nfc.normalize d = d)
    (h : checkEvent nfc previous row = .ok true) (h' : checkEvent nfc previous' row' = .ok true)
    (hdigest : row.contentDigest = row'.contentDigest) :
    (previous = previous' ∧ row.normalized nfc = row'.normalized nfc) ∨ Collide nfc row row' := by
  obtain ⟨rfl, type, htype, hcontent⟩ := checkEvent_ok h
  obtain ⟨rfl, type', htype', hcontent'⟩ := checkEvent_ok h'
  by_cases hoctets : eventOctets nfc (row.event type) = eventOctets nfc (row'.event type')
  · left
    have hitems := eventItems_of_octets hoctets
    simp only [eventItems, AuditRow.event, List.cons.injEq, Json.str.injEq, Json.int.injEq,
      Int.natCast_inj,
      and_true, htype, htype'] at hitems
    obtain ⟨hid, hsequence, hevent, hartifact, hactor, hat, hpayload, hprevious⟩ := hitems
    have hnames : row.previousEventDigest = row'.previousEventDigest := by
      cases hp : row.previousEventDigest with
      | none =>
        cases hp' : row'.previousEventDigest with
        | none => rfl
        | some d' => simp [hp, hp'] at hprevious
      | some d =>
        cases hp' : row'.previousEventDigest with
        | none => simp [hp, hp'] at hprevious
        | some d' =>
          have heq : nfc.normalize d = nfc.normalize d' := by simpa [hp, hp'] using hprevious
          rw [hgood d hp, hgood' d' hp'] at heq
          rw [heq]
    refine ⟨hnames, ?_⟩
    simp only [AuditRow.normalized, hid, hsequence, hevent, hartifact, hactor, hat, hpayload,
      hnames, hdigest]
  · right
    refine ⟨type, type', _, _, canonicalJsonBytes_payload _, canonicalJsonBytes_payload _,
      hoctets, ?_⟩
    rw [← hcontent, ← hcontent', hdigest]

/-- **The last digest commits to the log.** -/
theorem audit_log_committed {rows rows' : List AuditRow} (h : chainValid nfc rows = .ok true)
    (h' : chainValid nfc rows' = .ok true)
    (hlast : rows.getLast?.map AuditRow.contentDigest = rows'.getLast?.map AuditRow.contentDigest) :
    rows.map (AuditRow.normalized nfc) = rows'.map (AuditRow.normalized nfc) ∨
      ∃ row ∈ rows, ∃ row' ∈ rows', Collide nfc row row' := by
  apply HashChain.map_eq_of_lastDigest _ same_or_collide (HashChain.verify_eq_ok_true_iff.mp h)
    (HashChain.verify_eq_ok_true_iff.mp h')
  · rw [HashChain.lastDigest_eq_getLast?, HashChain.lastDigest_eq_getLast?, hlast]
  · intro previous row hrow
    obtain ⟨-, type, -, hcontent⟩ := checkEvent_ok hrow
    rw [hcontent]
    exact normalize_sha256Digest _

/-- The log of two admissions by this actor. -/
def admissionLog (actorRef : String) : List AuditRow :=
  [⟨"audit-000000000001", 1, "ARTIFACT_CACHED", "gov-artifact-6bb18ab7f89ed95dabb5892f", actorRef,
      "2026-07-29T00:00:00.000000Z",
      "sha256:50a65a47e46fb135485e5effe5d259ad3bd43c48484510f16b1fb1f816a587fe", none,
      "sha256:decc41b16cc698f1be3e19926a81e8edc2c5eda97c6575e151bc3d412300fbb8"⟩,
    ⟨"audit-000000000002", 2, "ARTIFACT_CACHED", "gov-artifact-e42ce66db7b8013e55d3813c", actorRef,
      "2026-07-29T12:00:00.000000Z",
      "sha256:7f439e2c48bd74e7c286860829678df11ba773b159810e5134667ab99b7e6266",
      some "sha256:decc41b16cc698f1be3e19926a81e8edc2c5eda97c6575e151bc3d412300fbb8",
      "sha256:9852c76e0caec79a2dcae7e019736e56f37697bf59304c06b0047f1d634b5523"⟩]

/-- In one log the accent of the actor's name stands apart, in the other the letter is composed. -/
theorem admissionLog_committed :
    (admissionLog "e\u0301").map AuditRow.actorRef ≠ (admissionLog "\u00e9").map AuditRow.actorRef ∧
      ((admissionLog "e\u0301").map (AuditRow.normalized Demo.composing) =
          (admissionLog "\u00e9").map (AuditRow.normalized Demo.composing) ∨
        ∃ row ∈ admissionLog "e\u0301", ∃ row' ∈ admissionLog "\u00e9",
          Collide Demo.composing row row') := by
  have hvalid : chainValid Demo.composing (admissionLog "e\u0301") = .ok true := by decide +kernel
  have hvalid' : chainValid Demo.composing (admissionLog "\u00e9") = .ok true := by decide +kernel
  have hlast : (admissionLog "e\u0301").getLast?.map AuditRow.contentDigest =
      (admissionLog "\u00e9").getLast?.map AuditRow.contentDigest := by decide +kernel
  exact ⟨by decide +kernel, audit_log_committed hvalid hvalid' hlast⟩

end AtlasDb.Governance
