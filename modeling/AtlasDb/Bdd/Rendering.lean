import AtlasDb.Bdd.Gates
import AtlasDb.Bdd.Lines

/-!
# Rendering an unblocked specification

A specification whose gates found nothing has one mapping for each requirement. It is rendered when
its requirement identifiers stand for different slots and its templates have neither a replacement
field nor a NUL, and otherwise the guarded block raises.
-/

namespace AtlasDb.Bdd

open Core Analysis Lib

variable {nfc : LineNfc} {batch : ScenarioSpecBatchResult} {v : VocabularySnapshot}
  {c : ClassificationSnapshot} {effectiveTimestamp : Option String} {k : Compilation}
  {spec : ScenarioSpec} {compileAt : String}

/-! ## The requirements of a specification in a batch -/

/-- The requirements a specification is given are those of its slots. -/
structure Requires (nfc : LineNfc) (spec : ScenarioSpec) (rs : List VocabularyRequirement) :
    Prop where
  sound : ∀ r ∈ rs, Needs spec r.slotKind r.sourceRef
  complete : ∀ kind source, Needs spec kind source → ∃ r ∈ rs, r.slotKind = kind ∧
    r.sourceRef = source
  identified : ∀ r ∈ rs, r.requirementId = requirementId spec.scenarioSpecId r.slotKind r.sourceRef
  same : ∀ r ∈ rs, ∀ r' ∈ rs, r.slotKind = r'.slotKind → r.sourceRef = r'.sourceRef →
    ∀ m, mappingMatches m r = mappingMatches m r'

theorem mappingMatches_congr {m : VocabularyMapping} {r r' : VocabularyRequirement}
    (hpattern : r.normalizedTechnicalPatternRef = r'.normalizedTechnicalPatternRef)
    (hstructural : r.structuralContextDigest = r'.structuralContextDigest)
    (hsymbols : r.symbolBindingRefs = r'.symbolBindingRefs)
    (hid : r.requirementId = r'.requirementId) : mappingMatches m r = mappingMatches m r' := by
  unfold mappingMatches
  rw [hpattern, hstructural, hsymbols, hid]

variable {rs : List VocabularyRequirement} {r : VocabularyRequirement} {e : RenderedElement}
  {selected : List (VocabularyRequirement × VocabularyMapping)}

theorem requires_of_batch (h : FromScenarioCompiler nfc.toNfc batch)
    (hs : spec ∈ batch.scenarioSpecs) (hrs : vocabularyRequirements nfc.toNfc spec = .ok rs) :
    Requires nfc spec rs := by
  obtain ⟨ds, hds, hneeded, hcomplete⟩ := definitions_spec h hs
  rw [hrs] at hds
  cases hds
  refine ⟨fun r hr => ?_, fun kind source hneeds => ?_, fun r hr => ?_,
    fun r hr r' hr' hkind hsource m => ?_⟩
  · obtain ⟨d, hd, rfl⟩ := List.mem_map.1 hr
    exact (hneeded d hd).1
  · obtain ⟨d, hd, hkind, hsource⟩ := hcomplete kind source hneeds
    exact ⟨_, List.mem_map.2 ⟨d, hd, rfl⟩, hkind, hsource⟩
  · obtain ⟨d, hd, rfl⟩ := List.mem_map.1 hr
    rfl
  · obtain ⟨d, hd, rfl⟩ := List.mem_map.1 hr
    obtain ⟨d', hd', rfl⟩ := List.mem_map.1 hr'
    have hmodality : d.modality = d'.modality := by
      rw [(hneeded d hd).2, (hneeded d' hd').2]
      exact congrArg₂ (neededModality spec) hkind hsource
    have hk : d.kind = d'.kind := hkind
    have hsrc : d.sourceRef = d'.sourceRef := hsource
    apply mappingMatches_congr <;> simp only [vocabularyRequirement, hk, hsrc, hmodality]

theorem requirementsOf_own (h : FromScenarioCompiler nfc.toNfc batch)
    (hs : spec ∈ batch.scenarioSpecs) (hk : Prepared nfc.toNfc batch v c effectiveTimestamp k)
    (hrs : vocabularyRequirements nfc.toNfc spec = .ok rs) (r : VocabularyRequirement) :
    r ∈ k.requirementsOf spec ↔ r ∈ rs := by
  rw [mem_requirementsOf hk]
  constructor
  · rintro ⟨s, hmem, hid, rs', hrs', hr⟩
    have hsame : s = spec := List.inj_on_of_nodup_map h.ids hmem hs hid
    rw [hsame, hrs] at hrs'
    cases hrs'
    exact hr
  · exact fun hr => ⟨spec, hs, rfl, rs, hrs, hr⟩

theorem Requires.of_mem_iff {rs rs' : List VocabularyRequirement} (h : Requires nfc spec rs)
    (hmem : ∀ r, r ∈ rs' ↔ r ∈ rs) : Requires nfc spec rs' where
  sound r hr := h.sound r ((hmem r).1 hr)
  complete kind source hneeds := by
    obtain ⟨r, hr, hkind, hsource⟩ := h.complete kind source hneeds
    exact ⟨r, (hmem r).2 hr, hkind, hsource⟩
  identified r hr := h.identified r ((hmem r).1 hr)
  same r hr r' hr' := h.same r ((hmem r).1 hr) r' ((hmem r').1 hr')

/-- Requirements with one identifier stand for one slot. -/
def IdsApart (rs : List VocabularyRequirement) : Prop :=
  ∀ r ∈ rs, ∀ r' ∈ rs, r.requirementId = r'.requirementId →
    r.slotKind = r'.slotKind ∧ r.sourceRef = r'.sourceRef

/-! ## The mappings of an unblocked specification -/

/-- The mappings the gate selected: one for each requirement, the only one that is promotable. -/
structure Selects (v : VocabularySnapshot) (compileAt : String) (rs : List VocabularyRequirement)
    (selected : List (VocabularyRequirement × VocabularyMapping)) : Prop where
  total : ∀ r ∈ rs, ∃ m, (r, m) ∈ selected
  sound : ∀ item ∈ selected, item.1 ∈ rs ∧ promotableMappings v compileAt item.1 = [item.2]

theorem mapRequirement_selects {gate : Gate (VocabularyRequirement × VocabularyMapping)}
    (h : mapRequirement v compileAt spec r = .ok gate) :
    (gate.blockers = [] → ∃ m, (r, m) ∈ gate.selected) ∧
      ∀ item ∈ gate.selected, item.1 = r ∧ promotableMappings v compileAt r = [item.2] := by
  have hblocked : ∀ code, gate = ⟨[], [code]⟩ →
      (gate.blockers = [] → ∃ m, (r, m) ∈ gate.selected) ∧
        ∀ item ∈ gate.selected, item.1 = r ∧ promotableMappings v compileAt r = [item.2] := by
    rintro code rfl
    exact ⟨fun hnil => absurd hnil (List.cons_ne_nil _ _),
      fun item hitem => absurd hitem List.not_mem_nil⟩
  rw [mapRequirement] at h
  simp only at h
  split at h
  · exact hblocked _ (Except.ok.inj h).symm
  · split at h
    · exact hblocked _ (Except.ok.inj h).symm
    · split at h
      · exact hblocked _ (Except.ok.inj h).symm
      · next mapping hone =>
          obtain ⟨bound, -, h⟩ := bind_eq_ok.1 h
          cases h
          refine ⟨fun _ => ⟨mapping, List.mem_cons_self⟩, fun item hitem => ?_⟩
          rw [List.mem_singleton.1 hitem]
          exact ⟨rfl, hone⟩
      · exact hblocked _ (Except.ok.inj h).symm

/-- A requirement is gated iff its one template is well formed. -/
theorem mapRequirement_returns_iff :
    (∃ gate, mapRequirement v compileAt spec r = .ok gate) ↔
      ∀ m, promotableMappings v compileAt r = [m] → WellFormed m.phraseTemplate.toList := by
  have hmatches : ∀ m, promotableMappings v compileAt r = [m] →
      (v.mappings.filter fun m => mappingMatches m r).isEmpty = false ∧
        ((v.mappings.filter fun m => mappingMatches m r).filter fun m =>
          timestampActive compileAt m.validFrom m.validTo).isEmpty = false := by
    intro m hm
    rw [promotableMappings] at hm
    have hin := (List.mem_filter.1 (hm ▸ List.mem_cons_self)).1
    have hin' := (List.mem_filter.1 hin).1
    rw [List.isEmpty_eq_false_iff, List.isEmpty_eq_false_iff]
    exact ⟨List.ne_nil_of_mem hin', List.ne_nil_of_mem hin⟩
  constructor
  · rintro ⟨gate, h⟩ m hm
    obtain ⟨hsemantic, hactive⟩ := hmatches m hm
    by_contra hmalformed
    obtain ⟨error, herror⟩ := parseTemplate_of_malformed hmalformed
    rw [mapRequirement, hm] at h
    simp only [hsemantic, hactive, Bool.false_eq_true, if_false] at h
    obtain ⟨bound, hbound, -⟩ := bind_eq_ok.1 h
    rw [placeholderBindingsValid, herror] at hbound
    cases hbound
  · intro h
    rw [mapRequirement]
    simp only
    split
    · exact ⟨_, rfl⟩
    · split
      · exact ⟨_, rfl⟩
      · split
        · exact ⟨_, rfl⟩
        · next m hm =>
            rw [placeholderBindingsValid, parseTemplate_of_wellFormed (h m hm)]
            exact ⟨_, rfl⟩
        · exact ⟨_, rfl⟩

theorem selects_of_unblocked {gates : Gates} {nested : List BddBlockerCode}
    {approvals : List (Gate ClassificationApproval)}
    {mappings : List (Gate (VocabularyRequirement × VocabularyMapping))}
    (hb : Blocked nfc.toNfc k spec gates nested approvals mappings) (hempty : gates.blockers = []) :
    Selects k.vocabulary k.compileAt (k.requirementsOf spec) gates.mappings := by
  have hnil : ∀ gate ∈ mappings, gate.blockers = [] := by
    rw [hb.gates_eq] at hempty
    simp only [List.append_eq_nil_iff] at hempty
    exact List.flatMap_eq_nil_iff.1 hempty.1.2
  have hitems : ∀ item, item ∈ gates.mappings ↔ item ∈ mappings.flatMap Gate.selected := by
    intro item
    rw [hb.gates_eq]
    exact mem_sortBy
  constructor
  · intro r hr
    obtain ⟨gate, hgate, hrun⟩ := exists_of_mapM hb.mappings_eq hr
    obtain ⟨m, hm⟩ := (mapRequirement_selects hrun).1 (hnil gate hgate)
    exact ⟨m, (hitems _).2 (List.mem_flatMap.2 ⟨gate, hgate, hm⟩)⟩
  · intro item hitem
    obtain ⟨gate, hgate, hin⟩ := List.mem_flatMap.1 ((hitems item).1 hitem)
    obtain ⟨r, hr, hrun⟩ := exists_source hb.mappings_eq hgate
    obtain ⟨heq, hone⟩ := (mapRequirement_selects hrun).2 item hin
    rw [heq]
    exact ⟨hr, hone⟩

theorem mappingOf_spec (h : Selects v compileAt rs selected) (hr : r ∈ rs) :
    ∃ m, mappingOf selected r = .ok m ∧ ∃ r' ∈ rs, r'.requirementId = r.requirementId ∧
      promotableMappings v compileAt r' = [m] := by
  obtain ⟨m, hm⟩ := h.total r hr
  obtain ⟨-, htotal, hsound⟩ := dictBy_spec
    (fun item : VocabularyRequirement × VocabularyMapping => item.1.requirementId) selected
  obtain ⟨item, hitem⟩ := htotal _ hm
  obtain ⟨hmem, hid⟩ := hsound _ _ hitem
  obtain ⟨hin, hone⟩ := h.sound item hmem
  refine ⟨item.2, ?_, item.1, hin, hid, hone⟩
  rw [mappingOf, hitem]

/-! ## Requirements by kind -/

theorem mem_ofKind {kind : VocabularySlotKind} (h : r ∈ ofKind rs kind) :
    r ∈ rs ∧ r.slotKind = kind ∧
      (dictBy VocabularyRequirement.requirementId rs).lookup r.requirementId = some r := by
  obtain ⟨hin, hkind⟩ := List.mem_filter.1 h
  obtain ⟨⟨key, r'⟩, hentry, rfl⟩ := List.mem_map.1 hin
  obtain ⟨hnodup, -, hsound⟩ := dictBy_spec VocabularyRequirement.requirementId rs
  have hlookup := lookup_of_mem_of_nodup hnodup hentry
  obtain ⟨hmem, hid⟩ := hsound _ _ hlookup
  refine ⟨hmem, of_decide_eq_true hkind, ?_⟩
  rw [hid]
  exact hlookup

theorem ofKind_unique {kind kind' : VocabularySlotKind}
    {r r' : VocabularyRequirement} (h : r ∈ ofKind rs kind) (h' : r' ∈ ofKind rs kind')
    (hid : r.requirementId = r'.requirementId) : r = r' := by
  have hlookup := (mem_ofKind h).2.2
  have hlookup' := (mem_ofKind h').2.2
  rw [hid, hlookup'] at hlookup
  exact (Option.some.inj hlookup).symm

theorem ofKind_ids_nodup (rs : List VocabularyRequirement) (kind : VocabularySlotKind) :
    ((ofKind rs kind).map VocabularyRequirement.requirementId).Nodup := by
  obtain ⟨hnodup, -, hsound⟩ := dictBy_spec VocabularyRequirement.requirementId rs
  have hkeys : (dictBy VocabularyRequirement.requirementId rs).map Prod.fst
      = ((dictBy VocabularyRequirement.requirementId rs).map Prod.snd).map
          VocabularyRequirement.requirementId := by
    rw [List.map_map]
    exact List.map_congr_left fun entry hentry =>
      (hsound _ _ (lookup_of_mem_of_nodup hnodup hentry)).2.symm
  rw [hkeys] at hnodup
  exact hnodup.sublist (List.filter_sublist.map _)


theorem exists_ofKind {spec : ScenarioSpec}
    (h : Requires nfc spec rs) (hapart : IdsApart rs) {kind : VocabularySlotKind} {source : String}
    (hneeds : Needs spec kind source) : ∃ r ∈ ofKind rs kind, r.sourceRef = source := by
  obtain ⟨r, hr, hkind, hsource⟩ := h.complete kind source hneeds
  obtain ⟨hnodup, htotal, hsound⟩ := dictBy_spec VocabularyRequirement.requirementId rs
  obtain ⟨b, hb⟩ := htotal r hr
  obtain ⟨hmem, hid⟩ := hsound _ _ hb
  obtain ⟨hbkind, hbsource⟩ := hapart b hmem r hr hid
  refine ⟨b, List.mem_filter.2 ⟨List.mem_map.2 ⟨_, mem_of_lookup hb, rfl⟩, ?_⟩,
    hbsource.trans hsource⟩
  exact decide_eq_true (hbkind.trans hkind)

theorem singleRequirement_of_apart (h : Requires nfc spec rs)
    (hapart : IdsApart rs) {kind : VocabularySlotKind} {source : String}
    (hneeds : ∀ source', Needs spec kind source' ↔ source' = source) :
    ∃ r ∈ rs, singleRequirement rs kind = .ok r := by
  obtain ⟨r, hr, -⟩ := exists_ofKind h hapart ((hneeds source).2 rfl)
  have hall : ∀ b ∈ ofKind rs kind, b = r := by
    intro b hb
    apply ofKind_unique hb hr
    obtain ⟨hbmem, hbkind, -⟩ := mem_ofKind hb
    obtain ⟨hrmem, hrkind, -⟩ := mem_ofKind hr
    have hbsource := (hneeds _).1 (hbkind ▸ h.sound b hbmem)
    have hrsource := (hneeds _).1 (hrkind ▸ h.sound r hrmem)
    rw [h.identified b hbmem, h.identified r hrmem, hbkind, hrkind, hbsource, hrsource]
  refine ⟨r, (mem_ofKind hr).1, ?_⟩
  have hnodup := ofKind_ids_nodup rs kind
  rw [singleRequirement]
  match hlist : ofKind rs kind with
  | [] => rw [hlist] at hr; cases hr
  | [b] => rw [hall b (by rw [hlist]; exact List.mem_cons_self)]
  | b :: b' :: rest =>
    rw [hlist] at hall hnodup
    rw [hall b List.mem_cons_self, hall b' (List.mem_cons_of_mem _ List.mem_cons_self)] at hnodup
    simp at hnodup

theorem requirementOf_of_apart (h : Requires nfc spec rs)
    (hapart : IdsApart rs) {kind : VocabularySlotKind} {source : String}
    (hneeds : Needs spec kind source) : ∃ r ∈ rs, requirementOf rs kind source = .ok r := by
  obtain ⟨b, hb, rfl⟩ := exists_ofKind h hapart hneeds
  obtain ⟨r, hr⟩ := @findBy_of_mem _ VocabularyRequirement.sourceRef _ _ hb
  refine ⟨r, (mem_ofKind (mem_of_findBy hr).1).1, ?_⟩
  rw [requirementOf, hr]

/-- The requirement found for a need of the specification is one of the dictionary with its kind and
source. -/
theorem mem_of_singleRequirement {kind : VocabularySlotKind}
    (h : singleRequirement rs kind = .ok r) : r ∈ ofKind rs kind := by
  rw [singleRequirement] at h
  split at h
  · next hlist =>
      cases h
      rw [hlist]
      exact List.mem_cons_self
  · cases h

theorem mem_of_requirementOf {kind : VocabularySlotKind}
    {source : String} (h : requirementOf rs kind source = .ok r) :
    r ∈ ofKind rs kind ∧ r.sourceRef = source := by
  rw [requirementOf] at h
  split at h
  · next hfound =>
      cases h
      exact mem_of_findBy hfound
  · cases h

/-! ## Elements -/

/-- An element rendered from a requirement of the dictionary. -/
structure ElementOf (rs : List VocabularyRequirement)
    (selected : List (VocabularyRequirement × VocabularyMapping)) (e : RenderedElement) : Prop where
  kind : ∃ kind, e.requirement ∈ ofKind rs kind
  mapping : mappingOf selected e.requirement = .ok e.mapping
  phrase : formatTemplate e.mapping.phraseTemplate.toList = .ok e.phrase

theorem renderElement_eq_ok {kind : ElementKind} {refs evidence facts : List String} :
    renderElement selected kind r refs evidence facts = .ok e ↔
      ∃ m phrase, mappingOf selected r = .ok m ∧
        formatTemplate m.phraseTemplate.toList = .ok phrase ∧
        e = ⟨kind, phrase, r, m, refs, evidence, facts⟩ := by
  rw [renderElement]
  constructor
  · intro h
    obtain ⟨m, hm, h⟩ := bind_eq_ok.1 h
    obtain ⟨phrase, hphrase, h⟩ := bind_eq_ok.1 h
    cases h
    refine ⟨m, phrase, hm, ?_, rfl⟩
    rw [renderPhrase] at hphrase
    split at hphrase
    · next heq => cases hphrase; exact heq
    · cases hphrase
    · cases hphrase
  · rintro ⟨m, phrase, hm, hphrase, rfl⟩
    have hrender : renderPhrase m = .ok phrase := by rw [renderPhrase, hphrase]
    simp only [bind, Except.bind, hm, hrender]
    rfl

/-- The parts `_render` is made of. -/
structure RenderRun (spec : ScenarioSpec) (rs : List VocabularyRequirement)
    (selected : List (VocabularyRequirement × VocabularyMapping)) (elements : List RenderedElement)
    (f s a : VocabularyRequirement) (feature scenario action : RenderedElement)
    (preconditions effects : List RenderedElement) : Prop where
  f_eq : singleRequirement rs .featureTitle = .ok f
  s_eq : singleRequirement rs .scenarioName = .ok s
  a_eq : singleRequirement rs .action = .ok a
  feature_eq : renderElement selected .feature f [spec.procedureIdentityRef] spec.evidenceRefs []
    = .ok feature
  scenario_eq : renderElement selected .scenarioName s [spec.scenarioSpecId] spec.evidenceRefs []
    = .ok scenario
  preconditions_eq : (spec.preconditions.zipIdx.mapM fun item =>
    renderPrecondition rs selected item.1 item.2) = .ok preconditions
  action_eq : renderElement selected (.step .when) a [spec.action.invocationContractRef]
    spec.action.evidenceRefs [] = .ok action
  effects_eq : (spec.expectedEffects.zipIdx.mapM fun item =>
    renderEffect rs selected item.1 item.2) = .ok effects
  elements_eq : elements = [feature, scenario] ++ preconditions ++ [action] ++ effects

theorem renderElements_eq_ok {elements : List RenderedElement} :
    renderElements spec rs selected = .ok elements ↔
      ∃ f s a feature scenario action preconditions effects,
        RenderRun spec rs selected elements f s a feature scenario action preconditions
        effects := by
  rw [renderElements]
  constructor
  · intro h
    obtain ⟨f, hf, h⟩ := bind_eq_ok.1 h
    obtain ⟨s, hs, h⟩ := bind_eq_ok.1 h
    obtain ⟨a, ha, h⟩ := bind_eq_ok.1 h
    obtain ⟨feature, hfeature, h⟩ := bind_eq_ok.1 h
    obtain ⟨scenario, hscenario, h⟩ := bind_eq_ok.1 h
    obtain ⟨preconditions, hpreconditions, h⟩ := bind_eq_ok.1 h
    obtain ⟨action, haction, h⟩ := bind_eq_ok.1 h
    obtain ⟨effects, heffects, h⟩ := bind_eq_ok.1 h
    cases h
    exact ⟨f, s, a, feature, scenario, action, preconditions, effects, hf, hs, ha, hfeature,
      hscenario, hpreconditions, haction, heffects, rfl⟩
  · rintro ⟨f, s, a, feature, scenario, action, preconditions, effects, hrun⟩
    have hpre := hrun.preconditions_eq
    have heff := hrun.effects_eq
    rw [hrun.f_eq, hrun.s_eq, hrun.a_eq]
    simp only [bind, Except.bind, hrun.feature_eq, hrun.scenario_eq, hrun.action_eq]
    rw [hpre, heff, hrun.elements_eq]
    rfl

/-! ### A rendering that returns -/

section

variable {elements : List RenderedElement}
  {f s a : VocabularyRequirement} {feature scenario action : RenderedElement}
  {preconditions effects : List RenderedElement}

theorem elementOf_render {kind : ElementKind} {slot : VocabularySlotKind}
    {refs evidence facts : List String}
    (hr : r ∈ ofKind rs slot) (h : renderElement selected kind r refs evidence facts = .ok e) :
    ElementOf rs selected e ∧ e.requirement = r ∧ e.kind = kind := by
  obtain ⟨m, phrase, hm, hphrase, rfl⟩ := renderElement_eq_ok.1 h
  exact ⟨⟨⟨slot, hr⟩, hm, hphrase⟩, rfl, rfl⟩

theorem elementOf_precondition {p : ScenarioPrecondition} {position : Nat}
    (h : renderPrecondition rs selected p position = .ok e) :
    ElementOf rs selected e ∧ e.requirement ∈ ofKind rs .precondition ∧
      e.requirement.sourceRef = p.technicalFactRef ∧ e.kind ≠ .feature := by
  rw [renderPrecondition] at h
  obtain ⟨r, hr, h⟩ := bind_eq_ok.1 h
  obtain ⟨hin, hsource⟩ := mem_of_requirementOf hr
  obtain ⟨helement, hreq, hkind⟩ := elementOf_render hin h
  rw [hreq, hkind]
  exact ⟨helement, hin, hsource, nofun⟩

theorem elementOf_effect {effect : ScenarioEffect} {position : Nat}
    (h : renderEffect rs selected effect position = .ok e) :
    ElementOf rs selected e ∧ e.requirement ∈ ofKind rs .effect ∧
      e.requirement.sourceRef = effect.effectRef ∧ e.kind ≠ .feature := by
  rw [renderEffect] at h
  obtain ⟨r, hr, h⟩ := bind_eq_ok.1 h
  obtain ⟨hin, hsource⟩ := mem_of_requirementOf hr
  obtain ⟨helement, hreq, hkind⟩ := elementOf_render hin h
  rw [hreq, hkind]
  exact ⟨helement, hin, hsource, nofun⟩

theorem mem_zipIdx_exists {α : Type} {xs : List α} {x : α} (h : x ∈ xs) :
    ∃ position, (x, position) ∈ xs.zipIdx := by
  obtain ⟨i, hi, rfl⟩ := List.mem_iff_getElem.1 h
  exact ⟨i, List.mk_mem_zipIdx_iff_getElem?.2 (List.getElem?_eq_getElem hi)⟩

theorem RenderRun.elementOf
    (h : RenderRun spec rs selected elements f s a feature scenario action preconditions effects)
    (he : e ∈ elements) : ElementOf rs selected e := by
  rw [h.elements_eq] at he
  simp only [List.mem_append, List.mem_cons, List.not_mem_nil, or_false] at he
  rcases he with (((rfl | rfl) | he) | rfl) | he
  · exact (elementOf_render (mem_of_singleRequirement h.f_eq) h.feature_eq).1
  · exact (elementOf_render (mem_of_singleRequirement h.s_eq) h.scenario_eq).1
  · obtain ⟨item, -, hrun⟩ := exists_source h.preconditions_eq he
    exact (elementOf_precondition hrun).1
  · exact (elementOf_render (mem_of_singleRequirement h.a_eq) h.action_eq).1
  · obtain ⟨item, -, hrun⟩ := exists_source h.effects_eq he
    exact (elementOf_effect hrun).1

/-- Every need of the specification has its element. -/
theorem RenderRun.covers
    (h : RenderRun spec rs selected elements f s a feature scenario action preconditions effects)
    (hrs : Requires nfc spec rs) {kind : VocabularySlotKind} {source : String}
    (hneeds : Needs spec kind source) : ∃ e ∈ elements, e.requirement ∈ ofKind rs kind ∧
      e.requirement.sourceRef = source := by
  have htitle : ∀ {slot : VocabularySlotKind} {r : VocabularyRequirement}, r ∈ ofKind rs slot →
      Needs spec slot r.sourceRef := by
    intro slot r hr
    obtain ⟨hmem, hkind, -⟩ := mem_ofKind hr
    exact hkind ▸ hrs.sound r hmem
  rw [h.elements_eq]
  simp only [List.mem_append, List.mem_cons, List.not_mem_nil, or_false]
  cases kind with
  | featureTitle =>
    have hr := mem_of_singleRequirement h.f_eq
    obtain ⟨-, hreq, -⟩ := elementOf_render hr h.feature_eq
    exact ⟨feature, .inl (.inl (.inl (.inl rfl))), hreq ▸ hr, hreq ▸ (htitle hr).trans hneeds.symm⟩
  | scenarioName =>
    have hr := mem_of_singleRequirement h.s_eq
    obtain ⟨-, hreq, -⟩ := elementOf_render hr h.scenario_eq
    exact ⟨scenario, .inl (.inl (.inl (.inr rfl))), hreq ▸ hr, hreq ▸ (htitle hr).trans hneeds.symm⟩
  | action =>
    have hr := mem_of_singleRequirement h.a_eq
    obtain ⟨-, hreq, -⟩ := elementOf_render hr h.action_eq
    exact ⟨action, .inl (.inr rfl), hreq ▸ hr, hreq ▸ (htitle hr).trans hneeds.symm⟩
  | precondition =>
    obtain ⟨p, hp, rfl⟩ := hneeds
    obtain ⟨position, hposition⟩ := mem_zipIdx_exists hp
    obtain ⟨e, he, hrun⟩ := exists_of_mapM h.preconditions_eq hposition
    obtain ⟨-, hin, hsource, -⟩ := elementOf_precondition hrun
    exact ⟨e, .inl (.inl (.inr he)), hin, hsource⟩
  | effect =>
    obtain ⟨effect, heffect, rfl⟩ := hneeds
    obtain ⟨position, hposition⟩ := mem_zipIdx_exists heffect
    obtain ⟨e, he, hrun⟩ := exists_of_mapM h.effects_eq hposition
    obtain ⟨-, hin, hsource, -⟩ := elementOf_effect hrun
    exact ⟨e, .inr he, hin, hsource⟩

theorem RenderRun.length
    (h : RenderRun spec rs selected elements f s a feature scenario action preconditions effects) :
    elements.length = 3 + spec.preconditions.length + spec.expectedEffects.length := by
  have hpre := (mapM_eq_ok.1 h.preconditions_eq).length_eq
  have heff := (mapM_eq_ok.1 h.effects_eq).length_eq
  rw [List.length_zipIdx] at hpre heff
  rw [h.elements_eq, hpre, heff]
  simp only [List.length_append, List.length_cons, List.length_nil]
  omega

/-- The kinds and phrases of the elements. -/
def partsOf (elements : List RenderedElement) : List (ElementKind × List Char) :=
  elements.map fun e => (e.kind, e.phrase)

theorem joinedLines_eq (elements : List RenderedElement) :
    joinedLines elements = ['\n'].intercalate (linesOfParts (partsOf elements)) := by
  rw [joinedLines, linesOfParts, partsOf, List.flatMap_map]

theorem RenderRun.titled
    (h : RenderRun spec rs selected elements f s a feature scenario action preconditions effects) :
    Titled (partsOf elements) := by
  have hlast : ∃ e, elements.getLast? = some e ∧ e.kind ≠ .feature := by
    rw [h.elements_eq, List.getLast?_append, List.getLast?_append, List.getLast?_singleton]
    cases heff : effects.getLast? with
    | none =>
      refine ⟨action, rfl, ?_⟩
      rw [(elementOf_render (mem_of_singleRequirement h.a_eq) h.action_eq).2.2]
      nofun
    | some e =>
      refine ⟨e, rfl, ?_⟩
      obtain ⟨item, -, hrun⟩ := exists_source h.effects_eq (List.mem_of_getLast? heff)
      exact (elementOf_effect hrun).2.2.2
  obtain ⟨last, hlast, hkind⟩ := hlast
  refine ⟨fun part hpart => ?_, fun part hpart => ?_, fun hnil => ?_⟩
  · obtain ⟨e, he, rfl⟩ := List.mem_map.1 hpart
    exact approvedPhrase_format e.mapping.phrase (h.elementOf he).phrase
  · rw [partsOf, List.getLast?_map, hlast] at hpart
    cases hpart
    exact hkind
  · rw [List.map_eq_nil_iff.1 hnil] at hlast
    cases hlast

theorem RenderRun.apart
    (h : RenderRun spec rs selected elements f s a feature scenario action preconditions effects)
    (hrs : Requires nfc spec rs) : IdsApart rs := by
  have hstands : ∀ r ∈ rs, ∃ b ∈ ofKind rs r.slotKind, b.requirementId = r.requirementId ∧
      b.slotKind = r.slotKind ∧ b.sourceRef = r.sourceRef := by
    intro r hr
    obtain ⟨e, -, hin, hsource⟩ := h.covers hrs (hrs.sound r hr)
    obtain ⟨hmem, hkind, -⟩ := mem_ofKind hin
    refine ⟨e.requirement, hin, ?_, hkind, hsource⟩
    rw [hrs.identified _ hmem, hrs.identified r hr, hkind, hsource]
  intro r hr r' hr' hid
  obtain ⟨b, hb, hbid, hbkind, hbsource⟩ := hstands r hr
  obtain ⟨b', hb', hbid', hbkind', hbsource'⟩ := hstands r' hr'
  have hsame : b = b' := ofKind_unique hb hb' (hbid.trans (hid.trans hbid'.symm))
  rw [← hbkind, ← hbsource, ← hbkind', ← hbsource', hsame]
  exact ⟨rfl, rfl⟩

theorem RenderRun.mapping_rendered
    (h : RenderRun spec rs selected elements f s a feature scenario action preconditions effects)
    (hrs : Requires nfc spec rs) (hselects : Selects v compileAt rs selected)
    (hr : r ∈ rs) {m : VocabularyMapping}
    (hm : promotableMappings v compileAt r = [m]) : ∃ e ∈ elements, e.mapping = m := by
  have hapart := h.apart hrs
  obtain ⟨e, he, hin, hsource⟩ := h.covers hrs (hrs.sound r hr)
  obtain ⟨hmem, hkind, -⟩ := mem_ofKind hin
  obtain ⟨m', hm', r', hr', hid, hone⟩ := mappingOf_spec hselects hmem
  have hmapping := (h.elementOf he).mapping
  rw [hm'] at hmapping
  cases hmapping
  refine ⟨e, he, ?_⟩
  -- the selected mapping belongs to a requirement of the same slot
  obtain ⟨hkind', hsource'⟩ := hapart r' hr' _ hmem hid
  have hsame : promotableMappings v compileAt r' = promotableMappings v compileAt r := by
    have hmatch := fun m => hrs.same r' hr' r hr (hkind'.trans hkind) (hsource'.trans hsource) m
    rw [promotableMappings, promotableMappings]
    simp only [hmatch]
  rw [hsame, hm] at hone
  exact (List.cons.inj hone).1.symm

/-- **Rendering succeeds** when identifiers are apart and no template has a field. -/
theorem renderElements_returns (hrs : Requires nfc spec rs) (hapart : IdsApart rs)
    (hselects : Selects v compileAt rs selected)
    (hfieldless : ∀ r ∈ rs, ∀ m, promotableMappings v compileAt r = [m] →
      Fieldless m.phraseTemplate.toList) :
    ∃ elements, renderElements spec rs selected = .ok elements := by
  have helement : ∀ (kind : ElementKind) {r : VocabularyRequirement}, r ∈ rs →
      ∀ refs evidence facts, ∃ e, renderElement selected kind r refs evidence facts = .ok e := by
    intro kind r hr refs evidence facts
    obtain ⟨m, hm, r', hr', -, hone⟩ := mappingOf_spec hselects hr
    obtain ⟨phrase, hphrase⟩ := formatTemplate_ok_iff.2 (hfieldless r' hr' m hone)
    exact ⟨_, renderElement_eq_ok.2 ⟨m, phrase, hm, hphrase, rfl⟩⟩
  obtain ⟨f, hfmem, hf⟩ := @singleRequirement_of_apart nfc spec rs hrs hapart .featureTitle
    spec.procedureIdentityRef fun _ => Iff.rfl
  obtain ⟨s, hsmem, hs⟩ := @singleRequirement_of_apart nfc spec rs hrs hapart .scenarioName
    spec.scenarioSpecId fun _ => Iff.rfl
  obtain ⟨a, hamem, ha⟩ := @singleRequirement_of_apart nfc spec rs hrs hapart .action
    (actionSource spec.action) fun _ => Iff.rfl
  obtain ⟨feature, hfeature⟩ := helement .feature hfmem [spec.procedureIdentityRef]
    spec.evidenceRefs []
  obtain ⟨scenario, hscenario⟩ := helement .scenarioName hsmem [spec.scenarioSpecId]
    spec.evidenceRefs []
  obtain ⟨action, haction⟩ := helement (.step .when) hamem [spec.action.invocationContractRef]
    spec.action.evidenceRefs []
  obtain ⟨preconditions, hpreconditions⟩ : ∃ ys, (spec.preconditions.zipIdx.mapM fun item =>
      renderPrecondition rs selected item.1 item.2) = .ok ys := by
    apply mapM_returns
    rintro ⟨p, position⟩ hitem
    obtain ⟨r, hr, hfound⟩ := @requirementOf_of_apart nfc spec rs hrs hapart .precondition
      p.technicalFactRef ⟨p, List.fst_mem_of_mem_zipIdx hitem, rfl⟩
    obtain ⟨e, he⟩ := helement (.step (keywordAt .given position)) hr [p.preconditionId]
      p.evidenceRefs [p.technicalFactRef]
    refine ⟨e, ?_⟩
    rw [renderPrecondition, hfound]
    exact he
  obtain ⟨effects, heffects⟩ : ∃ ys, (spec.expectedEffects.zipIdx.mapM fun item =>
      renderEffect rs selected item.1 item.2) = .ok ys := by
    apply mapM_returns
    rintro ⟨effect, position⟩ hitem
    obtain ⟨r, hr, hfound⟩ := @requirementOf_of_apart nfc spec rs hrs hapart .effect
      effect.effectRef ⟨effect, List.fst_mem_of_mem_zipIdx hitem, rfl⟩
    obtain ⟨e, he⟩ := helement (.step (keywordAt .then position)) hr [effect.effectRef]
      effect.evidenceRefs [effect.effectRef]
    refine ⟨e, ?_⟩
    rw [renderEffect, hfound]
    exact he
  exact ⟨_, renderElements_eq_ok.2 ⟨f, s, a, feature, scenario, action, preconditions, effects,
    hf, hs, ha, hfeature, hscenario, hpreconditions, haction, heffects, rfl⟩⟩

end

end AtlasDb.Bdd
