import AtlasDb.Bdd.Authority
import AtlasDb.Lib.Guarded

/-!
# The requirements of a compiled specification

What `compiler/scenario_spec.py` puts into a batch, and the requirements `bdd/authority.py` exports
for it: one of each title, one for every precondition and one for every expected effect, and no
other.
-/

namespace AtlasDb.Bdd

open Core Analysis Lib

/-! ## Texts with colons -/

theorem containsList_iff {needle text : List Char} :
    Text.containsList needle text = true ↔ ∃ a b, text = a ++ needle ++ b := by
  induction text with
  | nil =>
    rw [Text.containsList, List.isEmpty_iff]
    constructor
    · rintro rfl
      exact ⟨[], [], rfl⟩
    · rintro ⟨a, b, h⟩
      have hlen := congrArg List.length h
      simp only [List.length_nil, List.length_append] at hlen
      exact List.length_eq_zero_iff.1 (by omega)
  | cons c cs ih =>
    rw [Text.containsList, Bool.or_eq_true, ih, List.isPrefixOf_iff_prefix]
    constructor
    · rintro (⟨b, hb⟩ | ⟨a, b, hab⟩)
      · exact ⟨[], b, by rw [List.nil_append, hb]⟩
      · exact ⟨c :: a, b, by rw [hab]; rfl⟩
    · rintro ⟨a, b, hab⟩
      cases a with
      | nil => exact .inl ⟨b, by rw [hab, List.nil_append]⟩
      | cons c' a =>
        rw [List.cons_append, List.cons_append, List.cons.injEq] at hab
        exact .inr ⟨a, b, hab.2⟩

theorem splitOn_of_contains {word text : List Char} (hword : ':' ∉ word)
    (h : Text.containsList (':' :: word ++ [':']) text = true) :
    ∃ a b, a ≠ [] ∧ b ≠ [] ∧ text.splitOn ':' = a ++ word :: b := by
  obtain ⟨a, b, rfl⟩ := containsList_iff.1 h
  refine ⟨a.splitOn ':', b.splitOn ':', List.splitOn_ne_nil _ _, List.splitOn_ne_nil _ _, ?_⟩
  have hshape : a ++ (':' :: word ++ [':']) ++ b = a ++ ':' :: (word ++ ':' :: b) := by simp
  rw [hshape, List.splitOn_append_cons_self, List.splitOn_append_cons_self_of_not_mem hword]

theorem lastPart_append {start last : String} (h : ':' ∉ last.toList) :
    lastPart (start ++ ":" ++ last) = last := by
  have hchars : (start ++ ":" ++ last).toList.reverse
      = last.toList.reverse ++ ':' :: start.toList.reverse := by simp
  have hall : ∀ c ∈ last.toList.reverse, decide (c ≠ ':') = true := fun c hc => by
    rw [List.mem_reverse] at hc
    exact decide_eq_true fun heq => h (heq ▸ hc)
  rw [lastPart, hchars, List.takeWhile_append_of_pos hall, List.takeWhile_cons_of_neg (by simp),
    List.append_nil, List.reverse_reverse, String.ofList_toList]

/-! ## Dictionaries by key -/

section

variable {α : Type} {key : α → String} {values : List α} {a : α} {wanted : String}

theorem mem_of_findBy (h : findBy key values wanted = some a) : a ∈ values ∧ key a = wanted := by
  have hmem := List.mem_of_find?_eq_some h
  have hkey := List.find?_some h
  exact ⟨List.mem_reverse.1 hmem, of_decide_eq_true hkey⟩

theorem findBy_of_mem (h : a ∈ values) : ∃ b, findBy key values (key a) = some b := by
  rw [findBy, ← Option.isSome_iff_exists, List.find?_isSome]
  exact ⟨a, List.mem_reverse.2 h, decide_eq_true rfl⟩

theorem dictBy_append (values : List α) (a : α) :
    dictBy key (values ++ [a]) = setEntry (dictBy key values) (key a) a := by
  rw [dictBy, List.foldl_append]
  rfl

theorem dictBy_spec (key : α → String) (values : List α) :
    ((dictBy key values).map Prod.fst).Nodup ∧
      (∀ a ∈ values, ∃ b, (dictBy key values).lookup (key a) = some b) ∧
      ∀ k b, (dictBy key values).lookup k = some b → b ∈ values ∧ key b = k := by
  induction values using List.reverseRecOn with
  | nil => exact ⟨List.nodup_nil, by simp, by simp [dictBy]⟩
  | append_singleton values a ih =>
    obtain ⟨hnodup, htotal, hsound⟩ := ih
    rw [dictBy_append]
    refine ⟨nodup_setEntry hnodup, fun b hb => ?_, fun k b hb => ?_⟩
    · rw [lookup_setEntry]
      split
      · exact ⟨a, rfl⟩
      · next hne =>
          rcases List.mem_append.1 hb with hb | hb
          · exact htotal b hb
          · rw [List.mem_singleton.1 hb] at hne
            exact absurd rfl hne
    · rw [lookup_setEntry] at hb
      split at hb
      · next hkey =>
          cases hb
          exact ⟨by simp, hkey.symm⟩
      · obtain ⟨hmem, hkey⟩ := hsound k b hb
        exact ⟨List.mem_append_left _ hmem, hkey⟩

end

/-! ## Batches of the scenario compiler -/

/-- `ScenarioSpecCompiler._vocabulary_slots`, before they are sorted. -/
def vocabularySlots (spec : ScenarioSpec) : List String :=
  [spec.scenarioSpecId ++ ":ACTION", spec.scenarioSpecId ++ ":SCENARIO_NAME"] ++
    spec.preconditions.map
    (fun p => spec.scenarioSpecId ++ ":PRECONDITION" ++ ":" ++ p.preconditionId) ++
    spec.expectedEffects.map (fun e => spec.scenarioSpecId ++ ":EFFECT" ++ ":" ++ e.effectRef)

/-- What `ScenarioSpecCompiler.compile` guarantees of the batch it returns. Its identifiers are a
kind and a hexadecimal digest, so that none has a colon; the digests of different contents are taken
to differ. Everything in the batch has a canonical form, as the digests it carries show. -/
structure FromScenarioCompiler (nfc : Nfc) (batch : ScenarioSpecBatchResult) : Prop where
  ids : (batch.scenarioSpecs.map ScenarioSpec.scenarioSpecId).Nodup
  slots : ∀ spec ∈ batch.scenarioSpecs,
    spec.requiredVocabularySlots = sortBy id (vocabularySlots spec)
  specIds : ∀ spec ∈ batch.scenarioSpecs, ':' ∉ spec.scenarioSpecId.toList
  preconditionIds : ∀ spec ∈ batch.scenarioSpecs, ∀ p ∈ spec.preconditions,
    ':' ∉ p.preconditionId.toList
  facts : ∀ spec ∈ batch.scenarioSpecs, ∀ p ∈ spec.preconditions, ∀ q ∈ spec.preconditions,
    p.preconditionId = q.preconditionId → p.technicalFactRef = q.technicalFactRef
  effectRefs : ∀ spec ∈ batch.scenarioSpecs, ∀ e ∈ spec.expectedEffects, ':' ∉ e.effectRef.toList
  canonical : Projects nfc (.record batch.content)
  budgets : ∀ b ∈ batch.budgetReports, Projects nfc (.record b.content)
  observations : ∀ o ∈ batch.classificationObservations, Projects nfc o.dump

/-! ## Slots -/

section

variable {spec : ScenarioSpec}

theorem splitOn_slot {id kind last : String} (hid : ':' ∉ id.toList) (hkind : ':' ∉ kind.toList)
    (hlast : ':' ∉ last.toList) :
    (id ++ ":" ++ kind ++ ":" ++ last).toList.splitOn ':' =
    [id.toList, kind.toList, last.toList] := by
  have hshape : (id ++ ":" ++ kind ++ ":" ++ last).toList
      = id.toList ++ ':' :: (kind.toList ++ ':' :: last.toList) := by simp
  rw [hshape, List.splitOn_append_cons_self_of_not_mem hid,
    List.splitOn_append_cons_self_of_not_mem hkind, List.splitOn_eq_singleton hlast]

theorem splitOn_title {id kind : String} (hid : ':' ∉ id.toList) (hkind : ':' ∉ kind.toList) :
    (id ++ ":" ++ kind).toList.splitOn ':' = [id.toList, kind.toList] := by
  have hshape : (id ++ ":" ++ kind).toList = id.toList ++ ':' :: kind.toList := by simp
  rw [hshape, List.splitOn_append_cons_self_of_not_mem hid, List.splitOn_eq_singleton hkind]

theorem contains_of_three {word : List Char} {text a b c : List Char} (hword : ':' ∉ word)
    (hsplit : text.splitOn ':' = [a, b, c])
    (h : Text.containsList (':' :: word ++ [':']) text = true) : word = b := by
  obtain ⟨us, vs, hus, hvs, heq⟩ := splitOn_of_contains hword h
  rw [hsplit] at heq
  match us, vs with
  | [], _ => exact absurd rfl hus
  | _, [] => exact absurd rfl hvs
  | [u], v :: vs =>
    rw [List.singleton_append, List.cons.injEq, List.cons.injEq] at heq
    exact heq.2.1.symm
  | u :: u' :: us, v :: vs =>
    have hlen := congrArg List.length heq
    simp only [List.length_cons, List.length_append, List.length_nil] at hlen
    omega

theorem not_contains_of_two {word : List Char} {text a b : List Char} (hword : ':' ∉ word)
    (hsplit : text.splitOn ':' = [a, b]) :
    Text.containsList (':' :: word ++ [':']) text = false := by
  rw [← Bool.not_eq_true]
  intro h
  obtain ⟨us, vs, hus, hvs, heq⟩ := splitOn_of_contains hword h
  rw [hsplit] at heq
  have hlen := congrArg List.length heq
  have hu := List.length_pos_of_ne_nil hus
  have hv := List.length_pos_of_ne_nil hvs
  simp only [List.length_cons, List.length_append, List.length_nil] at hlen
  omega

theorem slotDefinition_title {kind : String} (hid : ':' ∉ spec.scenarioSpecId.toList)
    (hkind : ':' ∉ kind.toList) :
    slotDefinition spec (spec.scenarioSpecId ++ ":" ++ kind) = .ok none := by
  have hsplit := splitOn_title hid hkind
  have hp : Text.containsList ":PRECONDITION:".toList (spec.scenarioSpecId ++ ":" ++ kind).toList
      = false := @not_contains_of_two "PRECONDITION".toList _ _ _ (by decide) hsplit
  have he : Text.containsList ":EFFECT:".toList (spec.scenarioSpecId ++ ":" ++ kind).toList
      = false := @not_contains_of_two "EFFECT".toList _ _ _ (by decide) hsplit
  rw [slotDefinition, hp, he]
  rfl

theorem slotDefinition_precondition {p : ScenarioPrecondition} (hp : p ∈ spec.preconditions)
    (hpid : ':' ∉ p.preconditionId.toList) :
    ∃ q ∈ spec.preconditions, q.preconditionId = p.preconditionId ∧
      slotDefinition spec (spec.scenarioSpecId ++ ":PRECONDITION" ++ ":" ++ p.preconditionId)
        = .ok (some ⟨spec.scenarioSpecId ++ ":PRECONDITION" ++ ":" ++ p.preconditionId,
            .precondition, q.technicalFactRef, none, q.evidenceRefs⟩) := by
  obtain ⟨q, hq⟩ := @findBy_of_mem _ ScenarioPrecondition.preconditionId _ _ hp
  obtain ⟨hmem, hkey⟩ := mem_of_findBy hq
  refine ⟨q, hmem, hkey, ?_⟩
  have hcontains : Text.containsList ":PRECONDITION:".toList
      (spec.scenarioSpecId ++ ":PRECONDITION" ++ ":" ++ p.preconditionId).toList = true :=
    containsList_iff.2 ⟨spec.scenarioSpecId.toList, p.preconditionId.toList, by simp⟩
  rw [slotDefinition, hcontains, lastPart_append hpid, hq]
  rfl

theorem slotDefinition_effect {e : ScenarioEffect} (hspec : ':' ∉ spec.scenarioSpecId.toList)
    (he : e ∈ spec.expectedEffects) (href : ':' ∉ e.effectRef.toList) :
    ∃ modality, slotDefinition spec (spec.scenarioSpecId ++ ":EFFECT" ++ ":" ++ e.effectRef)
        = .ok (some ⟨spec.scenarioSpecId ++ ":EFFECT" ++ ":" ++ e.effectRef, .effect, e.effectRef,
            some modality, spec.evidenceRefs⟩) ∧
      (findBy ScenarioEffect.effectRef spec.effects e.effectRef).map ScenarioEffect.modality
        = some modality := by
  obtain ⟨e', he'⟩ := @findBy_of_mem _ ScenarioEffect.effectRef spec.effects _
    (List.mem_append_left _ he)
  obtain ⟨-, hkey⟩ := mem_of_findBy he'
  have hshape : spec.scenarioSpecId ++ ":EFFECT" ++ ":" ++ e.effectRef
      = spec.scenarioSpecId ++ ":" ++ "EFFECT" ++ ":" ++ e.effectRef :=
    String.toList_inj.1 (by simp)
  have hsplit := @splitOn_slot _ "EFFECT" _ hspec (by decide) href
  rw [← hshape] at hsplit
  have hp : Text.containsList ":PRECONDITION:".toList
      (spec.scenarioSpecId ++ ":EFFECT" ++ ":" ++ e.effectRef).toList = false := by
    rw [← Bool.not_eq_true]
    intro h
    have := @contains_of_three "PRECONDITION".toList _ _ _ _ (by decide) hsplit h
    exact absurd this (by decide)
  have hcontains : Text.containsList ":EFFECT:".toList
      (spec.scenarioSpecId ++ ":EFFECT" ++ ":" ++ e.effectRef).toList = true :=
    containsList_iff.2 ⟨spec.scenarioSpecId.toList, e.effectRef.toList, by simp⟩
  refine ⟨e'.modality, ?_, by rw [he']; rfl⟩
  rw [slotDefinition, hp, hcontains, lastPart_append href, he', ← hkey]
  rfl

end

/-! ## The requirements of a specification -/

/-- The source of a requirement of each kind. -/
def Needs (spec : ScenarioSpec) (kind : VocabularySlotKind) (source : String) : Prop :=
  match kind with
  | .featureTitle => source = spec.procedureIdentityRef
  | .scenarioName => source = spec.scenarioSpecId
  | .action => source = actionSource spec.action
  | .precondition => ∃ p ∈ spec.preconditions, p.technicalFactRef = source
  | .effect => ∃ e ∈ spec.expectedEffects, e.effectRef = source

/-- The modality a requirement of a kind and source has. -/
def neededModality (spec : ScenarioSpec) (kind : VocabularySlotKind) (source : String) :
    Option EffectModality :=
  if kind = .effect then
    (findBy ScenarioEffect.effectRef spec.effects source).map ScenarioEffect.modality
  else none

/-- A definition is one of those a specification needs. -/
def Needed (spec : ScenarioSpec) (d : SlotDefinition) : Prop :=
  Needs spec d.kind d.sourceRef ∧ d.modality = neededModality spec d.kind d.sourceRef

variable {nfc : Nfc} {batch : ScenarioSpecBatchResult} {spec : ScenarioSpec}

theorem mem_vocabularySlots {slot : String} : slot ∈ vocabularySlots spec ↔
    slot = spec.scenarioSpecId ++ ":" ++ "ACTION" ∨
    slot = spec.scenarioSpecId ++ ":" ++ "SCENARIO_NAME" ∨
    (∃ p ∈ spec.preconditions,
      slot = spec.scenarioSpecId ++ ":PRECONDITION" ++ ":" ++ p.preconditionId) ∨
    ∃ e ∈ spec.expectedEffects, slot = spec.scenarioSpecId ++ ":EFFECT" ++ ":" ++ e.effectRef := by
  have haction : spec.scenarioSpecId ++ ":" ++ "ACTION" = spec.scenarioSpecId ++ ":ACTION" :=
    String.toList_inj.1 (by simp)
  have hname : spec.scenarioSpecId ++ ":" ++ "SCENARIO_NAME"
      = spec.scenarioSpecId ++ ":SCENARIO_NAME" := String.toList_inj.1 (by simp)
  rw [haction, hname, vocabularySlots]
  simp only [List.mem_append, List.mem_cons, List.not_mem_nil, or_false, List.mem_map, or_assoc]
  grind

theorem slotDefinition_spec (h : FromScenarioCompiler nfc batch) (hs : spec ∈ batch.scenarioSpecs)
    {slot : String} (hslot : slot ∈ vocabularySlots spec) :
    slotDefinition spec slot = .ok none ∨
      ∃ d, slotDefinition spec slot = .ok (some d) ∧ Needed spec d := by
  rcases mem_vocabularySlots.1 hslot with rfl | rfl | ⟨p, hp, rfl⟩ | ⟨e, he, rfl⟩
  · exact .inl (slotDefinition_title (h.specIds spec hs) (by decide))
  · exact .inl (slotDefinition_title (h.specIds spec hs) (by decide))
  · obtain ⟨q, hq, -, hdef⟩ := slotDefinition_precondition hp (h.preconditionIds spec hs p hp)
    exact .inr ⟨_, hdef, ⟨q, hq, rfl⟩, rfl⟩
  · obtain ⟨modality, hdef, hmodality⟩ :=
      slotDefinition_effect (h.specIds spec hs) he (h.effectRefs spec hs e he)
    exact .inr ⟨_, hdef, ⟨e, he, rfl⟩, by simpa [neededModality] using hmodality.symm⟩

/-- The requirements of a specification are its needs. -/
theorem definitions_spec (h : FromScenarioCompiler nfc batch) (hs : spec ∈ batch.scenarioSpecs) :
    ∃ ds : List SlotDefinition,
    vocabularyRequirements nfc spec = .ok (ds.map (vocabularyRequirement nfc spec)) ∧
      (∀ d ∈ ds, Needed spec d) ∧
      ∀ kind source, Needs spec kind source → ∃ d ∈ ds, d.kind = kind ∧ d.sourceRef = source := by
  have hslots : ∀ slot, slot ∈ spec.requiredVocabularySlots ↔ slot ∈ vocabularySlots spec := by
    intro slot
    rw [h.slots spec hs, mem_sortBy]
  obtain ⟨found, hfound⟩ : ∃ found, spec.requiredVocabularySlots.mapM (slotDefinition spec)
      = .ok found := by
    apply mapM_returns
    intro slot hslot
    rcases slotDefinition_spec h hs ((hslots slot).1 hslot) with hnone | ⟨d, hd, -⟩
    · exact ⟨_, hnone⟩
    · exact ⟨_, hd⟩
  refine ⟨titleDefinitions spec ++ found.filterMap id, ?_, fun d hd => ?_, ?_⟩
  · rw [vocabularyRequirements, hfound]
    rfl
  · rcases List.mem_append.1 hd with hd | hd
    · simp only [titleDefinitions, List.mem_cons, List.not_mem_nil, or_false] at hd
      rcases hd with rfl | rfl | rfl <;> exact ⟨rfl, rfl⟩
    · rw [List.mem_filterMap] at hd
      obtain ⟨o, ho, hod⟩ := hd
      obtain ⟨slot, hslot, hdef⟩ := exists_source hfound ho
      rcases slotDefinition_spec h hs ((hslots slot).1 hslot) with hnone | ⟨d', hd', hneeded⟩
      · rw [hnone] at hdef
        cases hdef
        cases hod
      · rw [hd'] at hdef
        cases hdef
        cases hod
        exact hneeded
  · intro kind source hneeds
    -- the slot of a precondition or of an effect is among the slots that were read
    have hread : ∀ {slot : String} {d : SlotDefinition}, slot ∈ vocabularySlots spec →
        slotDefinition spec slot = .ok (some d) →
        d ∈ titleDefinitions spec ++ found.filterMap id := by
      intro slot d hslot hdef
      obtain ⟨o, ho, hod⟩ := exists_of_mapM hfound ((hslots slot).2 hslot)
      rw [hdef] at hod
      cases hod
      exact List.mem_append_right _ (List.mem_filterMap.2 ⟨_, ho, rfl⟩)
    cases kind with
    | featureTitle =>
      exact ⟨_, List.mem_append_left _ List.mem_cons_self, rfl, hneeds.symm⟩
    | scenarioName =>
      exact ⟨_, List.mem_append_left _ (List.mem_cons_of_mem _ List.mem_cons_self), rfl,
        hneeds.symm⟩
    | action =>
      exact ⟨_, List.mem_append_left _ (List.mem_cons_of_mem _ (List.mem_cons_of_mem _
        List.mem_cons_self)), rfl, hneeds.symm⟩
    | precondition =>
      obtain ⟨p, hp, rfl⟩ := hneeds
      obtain ⟨q, hq, hid, hdef⟩ :=
        slotDefinition_precondition hp (h.preconditionIds spec hs p hp)
      exact ⟨_, hread (mem_vocabularySlots.2 (.inr (.inr (.inl ⟨p, hp, rfl⟩)))) hdef, rfl,
        h.facts spec hs q hq p hp hid⟩
    | effect =>
      obtain ⟨e, he, rfl⟩ := hneeds
      obtain ⟨modality, hdef, -⟩ :=
        slotDefinition_effect (h.specIds spec hs) he (h.effectRefs spec hs e he)
      exact ⟨_, hread (mem_vocabularySlots.2 (.inr (.inr (.inr ⟨e, he, rfl⟩)))) hdef, rfl, rfl⟩

end AtlasDb.Bdd
