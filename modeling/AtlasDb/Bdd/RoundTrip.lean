import AtlasDb.Bdd.Totality

/-!
# Does the generated Gherkin parse back?

The phrase validator and the canonical form know two line separators, the parser splits at all that
`str.splitlines` knows. The text of an artifact is read back exactly when none of its phrases has
one of the others.
-/

namespace AtlasDb.Bdd

open Core Core.Text Analysis Lib
open Text (isLineBreak)

variable {nfc : LineNfc} {batch : ScenarioSpecBatchResult} {v : VocabularySnapshot}
  {c : ClassificationSnapshot} {effectiveTimestamp : Option String} {k : Compilation}
  {spec : ScenarioSpec}

/-! ## The lines of a text -/

/-- No character of the text ends a line. -/
def Unbroken (text : List Char) : Prop := ∀ c ∈ text, isLineBreak c = false

theorem unbroken_append {xs ys : List Char} : Unbroken (xs ++ ys) ↔ Unbroken xs ∧ Unbroken ys :=
  List.forall_mem_append

theorem unbroken_of_subset {xs ys : List Char} (h : Unbroken ys) (hsub : ∀ c ∈ xs, c ∈ ys) :
    Unbroken xs :=
  fun c hc => h c (hsub c hc)

variable {number : Nat} {phrase : List Char} {s : ParserState} {e : Emission} {line : List Char}
  {elements : List RenderedElement} {result : BddCompilationResult}

theorem linesAux_break {cs : List Char} {c : Char} (hc : isLineBreak c = true)
    (hret : c ≠ '\r') : linesAux line (c :: cs) = line.reverse :: linesAux [] cs := by
  rw [linesAux.eq_def]
  split
  · next heq => cases heq
  · next heq => exact absurd (List.cons.inj heq).1 hret
  · next heq =>
      obtain ⟨rfl, rfl⟩ := List.cons.inj heq
      rw [if_pos hc]

theorem linesAux_other {cs : List Char} {c : Char} (hc : isLineBreak c = false) :
    linesAux line (c :: cs) = linesAux (c :: line) cs := by
  rw [linesAux.eq_def]
  split
  · next heq => cases heq
  · next heq =>
      rw [(List.cons.inj heq).1] at hc
      exact absurd hc (by decide)
  · next heq =>
      obtain ⟨rfl, rfl⟩ := List.cons.inj heq
      rw [hc]
      rfl

theorem linesAux_line (acc : List Char) (h : Unbroken line) (rest : List Char) :
    linesAux acc (line ++ '\n' :: rest) = (acc.reverse ++ line) :: linesAux [] rest := by
  induction line generalizing acc with
  | nil =>
    rw [List.nil_append, linesAux_break (by decide) (by decide), List.append_nil]
  | cons c cs ih =>
    rw [List.cons_append, linesAux_other (h c List.mem_cons_self),
      ih _ fun d hd => h d (List.mem_cons_of_mem _ hd), List.reverse_cons, List.append_assoc]
    rfl

theorem lines_of_unbroken {ls : List (List Char)} (hne : ls ≠ []) (h : ∀ line ∈ ls, Unbroken line) :
    lines (['\n'].intercalate ls ++ ['\n']) = ls := by
  rw [lines]
  induction ls with
  | nil => exact absurd rfl hne
  | cons line ls ih =>
    rw [List.forall_mem_cons] at h
    cases ls with
    | nil =>
      rw [List.intercalate_singleton, linesAux_line [] h.1]
      rfl
    | cons next ls =>
      have hshape : ['\n'].intercalate (line :: next :: ls) ++ ['\n']
          = line ++ '\n' :: (['\n'].intercalate (next :: ls) ++ ['\n']) := by
        simp only [List.intercalate_cons_cons, List.append_assoc, List.cons_append,
          List.nil_append]
      rw [hshape, linesAux_line [] h.1, ih (by simp) h.2]
      rfl

theorem unbroken_of_mem_linesAux {acc text line : List Char} (hacc : Unbroken acc)
    (h : line ∈ linesAux acc text) : Unbroken line := by
  have hreverse : ∀ {acc : List Char}, Unbroken acc → Unbroken acc.reverse := fun hacc =>
    unbroken_of_subset hacc fun _ hc => List.mem_reverse.1 hc
  have hnil : Unbroken [] := fun _ hc => absurd hc List.not_mem_nil
  fun_induction linesAux acc text with
  | case1 => cases h
  | case2 =>
    rw [List.mem_singleton.1 h]
    exact hreverse hacc
  | case3 acc cs ih =>
    rcases List.mem_cons.1 h with rfl | h
    · exact hreverse hacc
    · exact ih hnil h
  | case4 acc c cs _ hbreak ih =>
    rcases List.mem_cons.1 h with rfl | h
    · exact hreverse hacc
    · exact ih hnil h
  | case5 acc c cs _ hbreak ih =>
    refine ih (fun d hd => ?_) h
    rcases List.mem_cons.1 hd with rfl | hd
    · exact Bool.eq_false_of_not_eq_true hbreak
    · exact hacc d hd

theorem unbroken_of_mem_lines {text line : List Char} (h : line ∈ lines text) : Unbroken line :=
  unbroken_of_mem_linesAux (fun _ hc => absurd hc List.not_mem_nil) h

/-! ## What the parser returns has no line break -/

structure CleanScenario (s : GherkinScenario) : Prop where
  name : Unbroken s.name
  steps : ∀ step ∈ s.steps, Unbroken step.text

/-- The texts the parser holds come from single lines. -/
structure CleanState (s : ParserState) : Prop where
  featureName : ∀ name ∈ s.featureName, Unbroken name
  scenarios : ∀ scenario ∈ s.scenarios, CleanScenario scenario
  currentName : ∀ name ∈ s.currentName, Unbroken name
  currentSteps : ∀ step ∈ s.currentSteps, Unbroken step.text

theorem clean_initial : CleanState ParserState.initial :=
  ⟨nofun, nofun, nofun, nofun⟩

theorem clean_flush {s s' : ParserState} (h : flush s = .ok s') (hs : CleanState s) :
    CleanState s' := by
  rw [flush] at h
  split at h
  · cases h
    exact hs
  · next name hname =>
      split at h
      · cases h
      · split at h
        · cases h
        · cases h
          refine ⟨hs.featureName, fun scenario hmem => ?_, nofun, nofun⟩
          rcases List.mem_append.1 hmem with hmem | hmem
          · exact hs.scenarios scenario hmem
          · rw [List.mem_singleton.1 hmem]
            exact ⟨hs.currentName name hname, hs.currentSteps⟩

theorem mem_of_mem_strip {text : List Char} {c : Char} (h : c ∈ strip text) : c ∈ text := by
  rw [strip, stripBy, List.mem_reverse] at h
  have hdrop := (List.dropWhile_sublist isSpace).subset h
  rw [List.mem_reverse] at hdrop
  exact (List.dropWhile_sublist isSpace).subset hdrop

theorem mem_of_mem_titleOf {c : Char} (h : c ∈ titleOf line) : c ∈ line :=
  (List.dropWhile_sublist _).subset (List.mem_of_mem_drop (mem_of_mem_strip h))

/-- Reading an unbroken line leaves a clean state. -/
theorem clean_readLine {s s' : ParserState} {raw : List Char}
    (h : readLine s number raw = .ok s') (hraw : Unbroken raw) (hs : CleanState s) :
    CleanState s' := by
  have hline : Unbroken (strip raw) := unbroken_of_subset hraw fun c hc => mem_of_mem_strip hc
  have htitle : Unbroken (titleOf (strip raw)) :=
    unbroken_of_subset hline fun c hc => mem_of_mem_titleOf hc
  rw [readLine] at h
  split at h
  · cases h
    exact hs
  · split at h
    · cases h
      exact ⟨hs.featureName, hs.scenarios, hs.currentName, hs.currentSteps⟩
    · split at h
      · rw [readFeature] at h
        split at h
        · cases h
        · split at h
          · cases h
          · cases h
            refine ⟨fun name hname => ?_, hs.scenarios, hs.currentName, hs.currentSteps⟩
            cases hname
            exact htitle
      · split at h
        · rw [readScenario] at h
          split at h
          · cases h
          · next flushed hflush =>
              have hclean := clean_flush hflush hs
              split at h
              · cases h
              · cases h
                refine ⟨hclean.featureName, hclean.scenarios, fun name hname => ?_,
                  hclean.currentSteps⟩
                cases hname
                exact htitle
        · split at h
          · rw [readStep] at h
            split at h
            · cases h
            · cases h
              refine ⟨hs.featureName, hs.scenarios, hs.currentName, fun step hstep => ?_⟩
              rcases List.mem_append.1 hstep with hstep | hstep
              · exact hs.currentSteps step hstep
              · rw [List.mem_singleton.1 hstep]
                exact unbroken_of_subset hline fun c hc => List.mem_of_mem_drop hc
          · split at h
            · cases h
              exact hs
            · split at h
              · cases h
                exact hs
              · cases h

theorem clean_readLines {ls : List (List Char)} {s s' : ParserState}
    (h : readLines s number ls = .ok s') (hls : ∀ line ∈ ls, Unbroken line) (hs : CleanState s) :
    CleanState s' := by
  induction ls generalizing s number with
  | nil =>
    cases h
    exact hs
  | cons raw ls ih =>
    rw [List.forall_mem_cons] at hls
    rw [readLines] at h
    obtain ⟨next, hnext, h⟩ := bind_eq_ok.1 h
    exact ih h hls.2 (clean_readLine hnext hls.1 hs)

/-- **A parsed document** has no line break in a name or in a step. -/
theorem clean_parseGherkin {text : List Char} {doc : GherkinDocument}
    (h : parseGherkin text = .ok doc) :
    Unbroken doc.featureName ∧ ∀ scenario ∈ doc.scenarios, CleanScenario scenario := by
  rw [parseGherkin] at h
  obtain ⟨s, hs, h⟩ := bind_eq_ok.1 h
  obtain ⟨flushed, hflush, h⟩ := bind_eq_ok.1 h
  have hclean := clean_flush hflush
    (clean_readLines hs (fun line hline => unbroken_of_mem_lines hline) clean_initial)
  split at h
  · cases h
  · next name hname =>
      split at h
      · cases h
      · split at h
        · cases h
        · cases h
          exact ⟨hclean.featureName name hname, hclean.scenarios⟩

/-! ## Reading a rendered text -/

/-- What is left of the start of a line when it is stripped. -/
def elementWord : ElementKind → List Char
  | .feature => "Feature:".toList
  | .scenarioName => "Scenario:".toList
  | .step keyword => keyword.text

theorem strip_phraseLine (kind : ElementKind) (h : ApprovedPhrase phrase) :
    strip (phraseLine kind phrase) = elementWord kind ++ ' ' :: phrase := by
  have hdrop : (phraseLine kind phrase).dropWhile isSpace = elementWord kind ++ ' ' :: phrase := by
    cases kind with
    | feature => rfl
    | scenarioName => rfl
    | step keyword => cases keyword <;> rfl
  have hlast : ∀ c ∈ ((phraseLine kind phrase).dropWhile isSpace).reverse.head?,
      isSpace c = false := by
    obtain ⟨d, hd⟩ := Option.isSome_iff_exists.1 (List.getLast?_isSome.2 h.2.1)
    intro c hc
    have hshape : elementWord kind ++ ' ' :: phrase = (elementWord kind ++ [' ']) ++ phrase := by
      simp
    rw [hdrop, List.head?_reverse, hshape, List.getLast?_append, hd] at hc
    have hcd : d = c := Option.some.inj hc
    exact (strip_eq_self_iff.1 h.1).2 c (hcd ▸ hd)
  rw [strip, stripBy, dropWhile_eq_self hlast, List.reverse_reverse, hdrop]

theorem titleOf_word {word phrase : List Char} (hword : ':' ∉ word) (h : ApprovedPhrase phrase) :
    titleOf (word ++ ':' :: ' ' :: phrase) = phrase := by
  have hall : ∀ c ∈ word, decide (c ≠ ':') = true := fun c hc =>
    decide_eq_true fun heq => hword (heq ▸ hc)
  rw [titleOf, List.dropWhile_append_of_pos hall, List.dropWhile_cons_of_neg (by simp),
    List.drop_one, List.tail_cons]
  obtain ⟨hfirst, hlast⟩ := strip_eq_self_iff.1 h.1
  have hspace : (' ' :: phrase).dropWhile isSpace = phrase := by
    rw [List.dropWhile_cons_of_pos (by decide), dropWhile_eq_self hfirst]
  rw [strip, stripBy, hspace, dropWhile_eq_self (by rwa [List.head?_reverse]), List.reverse_reverse]

theorem readLine_feature (h : ApprovedPhrase phrase) (hs : s.featureName = none) :
    readLine s number (phraseLine .feature phrase) = .ok { s with featureName := some phrase } := by
  have htitle : titleOf (elementWord .feature ++ ' ' :: phrase) = phrase :=
    @titleOf_word "Feature".toList phrase (by decide) h
  have hhash : startsWith (elementWord .feature ++ ' ' :: phrase) "#" = false := rfl
  have htag : startsWith (elementWord .feature ++ ' ' :: phrase) "@" = false := rfl
  have hfeature : startsWith (elementWord .feature ++ ' ' :: phrase) "Feature:" = true := rfl
  have hne : elementWord .feature ++ ' ' :: phrase ≠ [] := by simp
  rw [readLine, strip_phraseLine _ h]
  simp only [hne, hhash, htag, hfeature, readFeature, hs, htitle, h.2.1, false_or, if_true,
    Bool.false_eq_true, if_false, Option.isSome_none]

theorem readLine_nil (s : ParserState) (number : Nat) : readLine s number [] = .ok s := by
  rw [readLine]
  exact if_pos (.inl rfl)

theorem feature_chars : "Feature:".toList = ['F', 'e', 'a', 't', 'u', 'r', 'e', ':'] := by
  decide +kernel

theorem scenario_chars : "Scenario:".toList = ['S', 'c', 'e', 'n', 'a', 'r', 'i', 'o', ':'] := by
  decide +kernel

theorem outline_chars : "Scenario Outline:".toList
    = ['S', 'c', 'e', 'n', 'a', 'r', 'i', 'o', ' ', 'O', 'u', 't', 'l', 'i', 'n', 'e', ':'] := by
  decide +kernel

theorem readLine_scenario (h : ApprovedPhrase phrase) (hs : s.currentName = none) :
    readLine s number (phraseLine .scenarioName phrase) = .ok { s with
      currentName := some phrase, currentLine := number, currentTags := s.pendingTags,
      pendingTags := [] } := by
  have htitle : titleOf (elementWord .scenarioName ++ ' ' :: phrase) = phrase :=
    @titleOf_word "Scenario".toList phrase (by decide) h
  have hword : elementWord .scenarioName = ['S', 'c', 'e', 'n', 'a', 'r', 'i', 'o', ':'] := by
    decide +kernel
  have hhash : startsWith (elementWord .scenarioName ++ ' ' :: phrase) "#" = false := by
    rw [hword]
    rfl
  have htag : startsWith (elementWord .scenarioName ++ ' ' :: phrase) "@" = false := by
    rw [hword]
    rfl
  have hfeature : startsWith (elementWord .scenarioName ++ ' ' :: phrase) "Feature:" = false := by
    rw [hword]
    rfl
  have hscenario : startsWith (elementWord .scenarioName ++ ' ' :: phrase) "Scenario:" = true := by
    rw [hword, startsWith, scenario_chars]
    rfl
  have hne : elementWord .scenarioName ++ ' ' :: phrase ≠ [] := by simp
  have hflush : flush s = .ok s := by rw [flush, hs]
  rw [readLine, strip_phraseLine _ h]
  simp only [hne, hhash, htag, hfeature, hscenario, readScenario, hflush, htitle, h.2.1, false_or,
    true_or, if_true, Bool.false_eq_true, if_false]

theorem startsWith_of_ne {c d : Char} {cs ds : List Char} {start : String}
    (hstart : start.toList = d :: ds) (h : d ≠ c) : startsWith (c :: cs) start = false := by
  rw [startsWith, hstart, List.isPrefixOf_cons_cons, beq_eq_false_iff_ne.2 h, Bool.false_and]

theorem keyword_chars (keyword : StepKeyword) :
    ∃ c cs, keyword.text = c :: cs ∧ c ≠ '#' ∧ c ≠ '@' ∧ c ≠ 'F' ∧ c ≠ 'S' := by
  cases keyword
  · exact ⟨'G', ['i', 'v', 'e', 'n'], rfl, by decide⟩
  · exact ⟨'W', ['h', 'e', 'n'], rfl, by decide⟩
  · exact ⟨'T', ['h', 'e', 'n'], rfl, by decide⟩
  · exact ⟨'A', ['n', 'd'], rfl, by decide⟩
  · exact ⟨'B', ['u', 't'], rfl, by decide⟩

theorem stepKeyword_text (keyword : StepKeyword) (phrase : List Char) :
    stepKeyword (keyword.text ++ ' ' :: phrase) = some keyword := by
  cases keyword <;> rfl

theorem readLine_of_keyword {raw line : List Char}
    {keyword : StepKeyword} (hline : strip raw = line) (hne : line ≠ [])
    (hother : ∀ start ∈ ["#", "@", "Feature:", "Scenario:", "Scenario Outline:"],
      startsWith line start = false) (hkeyword : stepKeyword line = some keyword) :
    readLine s number raw = readStep s number line keyword := by
  simp only [List.forall_mem_cons] at hother
  obtain ⟨hhash, htag, hfeature, hscenario, houtline, -⟩ := hother
  rw [readLine, hline]
  simp only [hne, hhash, htag, hfeature, hscenario, houtline, hkeyword, false_or,
    Bool.false_eq_true, if_false]

theorem readLine_step {keyword : StepKeyword}
    (h : ApprovedPhrase phrase) {name : List Char} (hs : s.currentName = some name) :
    readLine s number (phraseLine (.step keyword) phrase)
      = .ok { s with currentSteps := s.currentSteps ++ [⟨keyword, phrase, number⟩] } := by
  obtain ⟨c, cs, hchars, hhash, htag, hfeature, hscenario⟩ := keyword_chars keyword
  have hother : ∀ {start : String} {d : Char} {ds : List Char}, start.toList = d :: ds → d ≠ c →
      startsWith (keyword.text ++ ' ' :: phrase) start = false := by
    intro start d ds hstart hne
    rw [hchars, List.cons_append]
    exact startsWith_of_ne hstart hne
  have hphrase : (keyword.text ++ ' ' :: phrase).drop (keyword.text.length + 1) = phrase := by
    rw [List.drop_append, List.drop_eq_nil_of_le (Nat.le_add_right _ _), Nat.add_sub_cancel_left]
    rfl
  have hstrip : strip (phraseLine (.step keyword) phrase) = keyword.text ++ ' ' :: phrase :=
    strip_phraseLine _ h
  have hstarts : ∀ start ∈ ["#", "@", "Feature:", "Scenario:", "Scenario Outline:"],
      startsWith (keyword.text ++ ' ' :: phrase) start = false := by
    simp only [List.forall_mem_cons]
    exact ⟨@hother "#" '#' [] rfl (Ne.symm hhash), @hother "@" '@' [] rfl (Ne.symm htag),
      hother feature_chars (Ne.symm hfeature), hother scenario_chars (Ne.symm hscenario),
      hother outline_chars (Ne.symm hscenario), nofun⟩
  rw [readLine_of_keyword hstrip (by simp) hstarts (stepKeyword_text keyword phrase), readStep, hs,
    if_neg (Option.some_ne_none _), hphrase]

/-- The steps of the parser, numbered by their lines. -/
def numberedSteps (number : Nat) : List (StepKeyword × List Char) → List GherkinStep
  | [] => []
  | step :: steps => ⟨step.1, step.2, number⟩ :: numberedSteps (number + 1) steps

theorem map_numberedSteps (number : Nat) (steps : List (StepKeyword × List Char)) :
    (numberedSteps number steps).map (fun step => (step.keyword, step.text)) = steps := by
  induction steps generalizing number with
  | nil => rfl
  | cons step steps ih => rw [numberedSteps, List.map_cons, ih]

theorem keywords_numberedSteps (number : Nat) (steps : List (StepKeyword × List Char)) :
    (numberedSteps number steps).map GherkinStep.keyword = steps.map Prod.fst := by
  have h := congrArg (List.map Prod.fst) (map_numberedSteps number steps)
  rwa [List.map_map] at h

theorem texts_numberedSteps (number : Nat) (steps : List (StepKeyword × List Char)) :
    (numberedSteps number steps).map GherkinStep.text = steps.map Prod.snd := by
  have h := congrArg (List.map Prod.snd) (map_numberedSteps number steps)
  rwa [List.map_map] at h

theorem readLines_steps {steps : List (StepKeyword × List Char)}
    {name : List Char} (hsteps : ∀ step ∈ steps, ApprovedPhrase step.2)
    (hs : s.currentName = some name) :
    readLines s number (steps.map fun step => phraseLine (.step step.1) step.2)
      = .ok { s with currentSteps := s.currentSteps ++ numberedSteps number steps } := by
  induction steps generalizing s number with
  | nil =>
    rw [List.map_nil, readLines, numberedSteps, List.append_nil]
  | cons step steps ih =>
    rw [List.forall_mem_cons] at hsteps
    have hnext : ({ s with currentSteps := s.currentSteps ++ [⟨step.1, step.2, number⟩] } :
        ParserState).currentName = some name := hs
    rw [List.map_cons, readLines, readLine_step hsteps.1 hs]
    refine (ih hsteps.2 hnext).trans ?_
    rw [numberedSteps, List.append_assoc, List.singleton_append]

/-- **Reading back** the lines of a feature with one scenario. -/
theorem parseGherkin_lines {text feature scenario : List Char}
    {steps : List (StepKeyword × List Char)} (hfeature : ApprovedPhrase feature)
    (hscenario : ApprovedPhrase scenario) (hsteps : ∀ step ∈ steps, ApprovedPhrase step.2)
    (hwhen : ∃ step ∈ steps, step.1 = .when) (hthen : ∃ step ∈ steps, step.1 = .then)
    (hlines : lines text = phraseLine .feature feature :: [] :: phraseLine .scenarioName scenario ::
      steps.map fun step => phraseLine (.step step.1) step.2) :
    parseGherkin text
      = .ok ⟨feature, [⟨scenario, [], numberedSteps 4 steps, 3⟩]⟩ := by
  have hread : readLines ParserState.initial 1 (lines text)
      = .ok ⟨some feature, [], [], some scenario, 3, [], numberedSteps 4 steps⟩ := by
    rw [hlines, readLines, readLine_feature hfeature rfl]
    show readLines _ 2 _ = _
    rw [readLines, readLine_nil]
    show readLines _ 3 _ = _
    rw [readLines, readLine_scenario hscenario rfl]
    show readLines _ 4 _ = _
    rw [readLines_steps hsteps rfl]
    rfl
  have hany : ∀ keyword, (∃ step ∈ steps, step.1 = keyword) →
      ((numberedSteps 4 steps).any fun step => step.keyword = keyword) = true := by
    rintro keyword ⟨step, hmem, hkeyword⟩
    rw [← map_numberedSteps 4 steps] at hmem
    obtain ⟨numbered, hnumbered, rfl⟩ := List.mem_map.1 hmem
    exact List.any_eq_true.2 ⟨numbered, hnumbered, decide_eq_true hkeyword⟩
  rw [parseGherkin, hread]
  simp only [bind, Except.bind, flush, hany _ hwhen, hany _ hthen, Bool.not_true,
    Bool.false_eq_true,
    if_false, List.nil_append, List.cons_ne_nil, List.map_cons, List.map_nil, List.nodup_singleton,
    not_true_eq_false]

/-! ## The steps of a rendered specification -/

/-- `Given` and `And` for the preconditions, `When`, `Then` and `And` for the effects. -/
def renderedKeywords (spec : ScenarioSpec) : List StepKeyword :=
  (List.range spec.preconditions.length).map (keywordAt .given) ++ [.when] ++
    (List.range spec.expectedEffects.length).map (keywordAt .then)

theorem kinds_of_mapM {α : Type} (first : StepKeyword) {xs : List α}
    {f : α × Nat → Except PyError RenderedElement} {es : List RenderedElement}
    (h : xs.zipIdx.mapM f = .ok es)
    (hkind : ∀ item e, f item = .ok e → e.kind = .step (keywordAt first item.2)) :
    es.map RenderedElement.kind
      = ((List.range xs.length).map (keywordAt first)).map ElementKind.step := by
  have hpositions : es.map RenderedElement.kind
      = (xs.zipIdx.map Prod.snd).map fun position => .step (keywordAt first position) := by
    have hpairs := mapM_eq_ok.1 h
    clear h
    generalize xs.zipIdx = items at hpairs
    induction hpairs with
    | nil => rfl
    | cons hitem _ ih => rw [List.map_cons, List.map_cons, List.map_cons, hkind _ _ hitem, ih]
  rw [hpositions, List.zipIdx_map_snd, ← List.range_eq_range', List.map_map]
  rfl

theorem kinds_of_renderRun {rs : List VocabularyRequirement}
    {selected : List (VocabularyRequirement × VocabularyMapping)}
    {f s a : VocabularyRequirement} {feature scenario action : RenderedElement}
    {preconditions effects : List RenderedElement}
    (h : RenderRun spec rs selected elements f s a feature scenario action preconditions effects) :
    feature.kind = .feature ∧ scenario.kind = .scenarioName ∧
      (preconditions ++ [action] ++ effects).map RenderedElement.kind
        = (renderedKeywords spec).map ElementKind.step := by
  have hpre := kinds_of_mapM .given h.preconditions_eq fun item e he => by
    obtain ⟨r, hr, he⟩ := bind_eq_ok.1 he
    exact (elementOf_render (mem_of_requirementOf hr).1 he).2.2
  have heff := kinds_of_mapM .then h.effects_eq fun item e he => by
    obtain ⟨r, hr, he⟩ := bind_eq_ok.1 he
    exact (elementOf_render (mem_of_requirementOf hr).1 he).2.2
  refine ⟨(elementOf_render (mem_of_singleRequirement h.f_eq) h.feature_eq).2.2,
    (elementOf_render (mem_of_singleRequirement h.s_eq) h.scenario_eq).2.2, ?_⟩
  have haction := (elementOf_render (mem_of_singleRequirement h.a_eq) h.action_eq).2.2
  rw [List.map_append, List.map_append, hpre, heff, List.map_singleton, haction, renderedKeywords,
    List.map_append, List.map_append, List.map_singleton]

theorem parts_eq_zip {es : List RenderedElement} {keywords : List StepKeyword}
    (h : es.map RenderedElement.kind = keywords.map ElementKind.step)
    (phraseOf : RenderedElement → List Char) :
    es.map (fun e => (e.kind, phraseOf e))
      = (keywords.zip (es.map phraseOf)).map fun step => (.step step.1, step.2) := by
  induction es generalizing keywords with
  | nil =>
    rw [List.map_nil, List.map_nil, List.zip_nil_right, List.map_nil]
  | cons e es ih =>
    cases keywords with
    | nil => cases h
    | cons keyword keywords =>
      rw [List.map_cons, List.map_cons, List.cons.injEq] at h
      rw [List.map_cons, List.map_cons, List.zip_cons_cons, List.map_cons, ih h.2, h.1]

/-- The artifact is read back as the document it was rendered from: a feature with one scenario
whose steps are the elements after the first two, one for each of their bindings. -/
def ReadsBack (nfc : LineNfc) (spec : ScenarioSpec) (elements : List RenderedElement)
    (e : Emission) :
    Prop :=
  ∃ feature name steps scenario, elements = feature :: name :: steps ∧
    parseGherkin e.artifact.text
      = .ok ⟨normalizeChars nfc.toNfc feature.phrase, [scenario]⟩ ∧
    scenario.name = normalizeChars nfc.toNfc name.phrase ∧
    scenario.steps.map GherkinStep.keyword = renderedKeywords spec ∧
    scenario.steps.map GherkinStep.text
      = steps.map (fun step => normalizeChars nfc.toNfc step.phrase) ∧
    e.manifest.elementBindings.length = 2 + scenario.steps.length

theorem unbroken_normalizeChars :
    Unbroken (normalizeChars nfc.toNfc phrase) ↔ Unbroken phrase := by
  have hiff : ∀ c, isLineBreak c = true → (c ∈ normalizeChars nfc.toNfc phrase ↔ c ∈ phrase) :=
    fun c hc => mem_normalizeChars (by rw [isSeparator, hc, Bool.or_true])
  constructor
  · intro h c hc
    refine Bool.eq_false_of_not_eq_true fun hbreak => ?_
    rw [h c ((hiff c hbreak).2 hc)] at hbreak
    cases hbreak
  · intro h c hc
    refine Bool.eq_false_of_not_eq_true fun hbreak => ?_
    rw [h c ((hiff c hbreak).1 hc)] at hbreak
    cases hbreak

theorem mem_renderedKeywords (hne : spec.expectedEffects ≠ []) :
    StepKeyword.when ∈ renderedKeywords spec ∧ StepKeyword.then ∈ renderedKeywords spec := by
  have hpos : 0 < spec.expectedEffects.length := List.length_pos_iff.2 hne
  constructor
  · simp [renderedKeywords]
  · rw [renderedKeywords, List.mem_append]
    exact .inr (List.mem_map.2 ⟨0, List.mem_range.2 hpos, rfl⟩)

theorem unbroken_elementStart (kind : ElementKind) : Unbroken (elementStart kind) := by
  have hall : (elementStart kind).all (fun c => !isLineBreak c) = true := by
    cases kind with
    | feature => decide
    | scenarioName => decide
    | step keyword => cases keyword <;> decide
  intro c hc
  simpa using List.all_eq_true.1 hall c hc

theorem unbroken_linesOfParts {parts : List (ElementKind × List Char)}
    (h : ∀ part ∈ parts, Unbroken part.2) : ∀ line ∈ linesOfParts parts, Unbroken line := by
  intro line hline
  obtain ⟨part, hpart, hin⟩ := List.mem_flatMap.1 hline
  rw [linesOf, List.mem_cons] at hin
  rcases hin with rfl | hin
  · rw [phraseLine, unbroken_append]
    refine ⟨unbroken_elementStart part.1, fun c hc => ?_⟩
    rcases List.mem_cons.1 hc with rfl | hc
    · decide
    · exact h part hpart c hc
  · split at hin
    · rw [List.mem_singleton.1 hin]
      exact fun c hc => absurd hc List.not_mem_nil
    · exact absurd hin List.not_mem_nil

/-- With unbroken phrases the rendered text is read back. -/
theorem readsBack_of_unbroken {rs : List VocabularyRequirement}
    {selected : List (VocabularyRequirement × VocabularyMapping)}
    {f s a : VocabularyRequirement} {feature scenario action : RenderedElement}
    {preconditions effects : List RenderedElement}
    (h : RenderRun spec rs selected elements f s a feature scenario action preconditions effects)
    (he : Emits nfc spec elements e) (hne : spec.expectedEffects ≠ [])
    (hphrases : ∀ element ∈ elements, Unbroken element.phrase) : ReadsBack nfc spec elements e := by
  obtain ⟨hfeature, hname, hsteps⟩ := kinds_of_renderRun h
  generalize htail : preconditions ++ [action] ++ effects = tail at hsteps
  have helements : elements = feature :: scenario :: tail := by
    rw [h.elements_eq, ← htail]
    simp only [List.append_assoc, List.cons_append, List.nil_append]
  let read := fun element : RenderedElement => normalizeChars nfc.toNfc element.phrase
  let steps := (renderedKeywords spec).zip (tail.map read)
  have htitled := @titled_normalizeParts nfc _ h.titled
  have hparts : normalizeParts nfc (partsOf elements)
      = (.feature, read feature) :: (.scenarioName, read scenario) ::
          steps.map fun step => (.step step.1, step.2) := by
    rw [normalizeParts, partsOf, List.map_map, helements, List.map_cons, List.map_cons,
      ← parts_eq_zip hsteps read, ← hfeature, ← hname]
    rfl
  rw [hparts] at htitled
  have hlinesOf : linesOfParts (normalizeParts nfc (partsOf elements))
      = phraseLine .feature (read feature) :: [] :: phraseLine .scenarioName (read scenario) ::
          steps.map fun step => phraseLine (.step step.1) step.2 := by
    rw [hparts, linesOfParts, List.flatMap_cons, List.flatMap_cons, List.flatMap_map]
    simp only [linesOf, reduceCtorEq, if_false, if_true, List.cons_append,
      List.nil_append, ← List.map_eq_flatMap]
  have hunbroken : ∀ line ∈ linesOfParts (normalizeParts nfc (partsOf elements)),
    Unbroken line := by
    apply unbroken_linesOfParts
    intro part hpart
    rw [normalizeParts, partsOf, List.map_map, List.mem_map] at hpart
    obtain ⟨element, helement, rfl⟩ := hpart
    exact unbroken_normalizeChars.2 (hphrases element helement)
  have hlines : lines e.artifact.text
      = phraseLine .feature (read feature) :: [] :: phraseLine .scenarioName (read scenario) ::
          steps.map fun step => phraseLine (.step step.1) step.2 := by
    rw [he.text, artifactText, lines_of_unbroken (linesOfParts_ne (titled_normalizeParts h.titled))
      hunbroken, hlinesOf]
  have hlength : (renderedKeywords spec).length = (tail.map read).length := by
    have hmap := congrArg List.length hsteps
    rwa [List.length_map, List.length_map, eq_comm, ← List.length_map read] at hmap
  have hkeywords : steps.map Prod.fst = renderedKeywords spec :=
    List.map_fst_zip (Nat.le_of_eq hlength)
  have htexts : steps.map Prod.snd = tail.map read := List.map_snd_zip (Nat.le_of_eq hlength.symm)
  have hkeyword : ∀ keyword ∈ renderedKeywords spec, ∃ step ∈ steps, step.1 = keyword := by
    intro keyword hmem
    rw [← hkeywords] at hmem
    exact List.mem_map.1 hmem
  obtain ⟨hwhen, hthen⟩ := mem_renderedKeywords hne
  have hparse := parseGherkin_lines (htitled.phrases (.feature, read feature) (by simp))
    (htitled.phrases (.scenarioName, read scenario) (by simp))
    (fun step hstep => htitled.phrases (.step step.1, step.2) (by simp [hstep]))
    (hkeyword _ hwhen) (hkeyword _ hthen) hlines
  refine ⟨feature, scenario, tail, _, helements, hparse, rfl, ?_, ?_, ?_⟩
  · exact (keywords_numberedSteps 4 steps).trans hkeywords
  · exact (texts_numberedSteps 4 steps).trans htexts
  · have hcount := congrArg List.length (texts_numberedSteps 4 steps)
    have htail' := congrArg List.length htexts
    rw [List.length_map, List.length_map] at hcount
    rw [List.length_map, List.length_map] at htail'
    rw [he.bindings, List.length_map, List.length_zipIdx, helements, List.length_cons,
      List.length_cons, hcount, htail']
    omega

theorem unbroken_of_readsBack
    (h : ReadsBack nfc spec elements e) : ∀ element ∈ elements, Unbroken element.phrase := by
  obtain ⟨feature, name, steps, scenario, rfl, hparse, hname, -, htexts, -⟩ := h
  obtain ⟨hfeature, hclean⟩ := clean_parseGherkin hparse
  have hscenario := hclean scenario List.mem_cons_self
  rw [List.forall_mem_cons, List.forall_mem_cons]
  refine ⟨unbroken_normalizeChars.1 hfeature, ?_, fun step hstep => ?_⟩
  · rw [← unbroken_normalizeChars, ← hname]
    exact hscenario.name
  · have hin : normalizeChars nfc.toNfc step.phrase ∈ scenario.steps.map GherkinStep.text := by
      rw [htexts]
      exact List.mem_map.2 ⟨step, hstep, rfl⟩
    obtain ⟨read, hread, heq⟩ := List.mem_map.1 hin
    rw [← unbroken_normalizeChars, ← heq]
    exact hscenario.steps read hread

/-! ## The round trip -/

/-- The round of a specification whose phrases the parser gives back. -/
def RoundTrips (nfc : LineNfc) (k : Compilation) (spec : ScenarioSpec) (e : Emission) : Prop :=
  ∃ gates elements, specGates nfc.toNfc k spec = .ok gates ∧
    renderElements spec (k.requirementsOf spec) gates.mappings = .ok elements ∧
    ReadsBack nfc spec elements e

theorem rendered_of_round (h : compileSpec nfc.toNfc k spec = .ok (result, some e)) :
    ∃ gates elements, specGates nfc.toNfc k spec = .ok gates ∧ gates.blockers = [] ∧
      renderElements spec (k.requirementsOf spec) gates.mappings = .ok elements ∧
      Emits nfc spec elements e := by
  obtain ⟨gates, hgates, -⟩ := blockers_of_compileSpec h
  rw [compileSpec_eq hgates] at h
  split at h
  · cases h
  · next hempty =>
      rw [not_not] at hempty
      split at h
      · next emission hemit =>
          obtain ⟨elements, hrender, hnul⟩ := elements_of_emit hemit
          obtain ⟨emission', hemit', hemits⟩ := emit_returns hrender hnul
          have hsame : emission = emission' := Except.ok.inj (hemit.symm.trans hemit')
          cases h
          rw [← hsame] at hemits
          exact ⟨gates, elements, hgates, hempty, hrender, hemits⟩
      · cases h
      · cases h

theorem effects_of_unblocked {gates : Gates} (hgates : specGates nfc.toNfc k spec = .ok gates)
    (hempty : gates.blockers = []) : spec.expectedEffects ≠ [] := by
  obtain ⟨nested, approvals, mappings, hb⟩ := specGates_eq_ok.1 hgates
  rw [hb.gates_eq] at hempty
  simp only [List.append_eq_nil_iff, effectBlockers] at hempty
  intro hnil
  rw [hnil] at hempty
  exact absurd hempty.2.2 (by decide)

theorem roundTrips_of_unbroken (hround : compileSpec nfc.toNfc k spec = .ok (result, some e))
    (hunbroken : ∀ r ∈ k.requirementsOf spec, ∀ m,
      promotableMappings k.vocabulary k.compileAt r = [m] → Unbroken m.phraseTemplate.toList) :
    RoundTrips nfc k spec e := by
  obtain ⟨gates, elements, hgates, hempty, hrender, hemits⟩ := rendered_of_round hround
  obtain ⟨nested, approvals, mappings, hb⟩ := specGates_eq_ok.1 hgates
  have hselects := selects_of_unblocked hb hempty
  obtain ⟨f, s, a, feature, scenario, action, preconditions, effects, hrun⟩ :=
    renderElements_eq_ok.1 hrender
  refine ⟨gates, elements, hgates, hrender,
    readsBack_of_unbroken hrun hemits (effects_of_unblocked hgates hempty) fun element he => ?_⟩
  have helement := hrun.elementOf he
  obtain ⟨kind, hkind⟩ := helement.kind
  obtain ⟨m, hm, r, hr, -, hone⟩ := mappingOf_spec hselects (mem_ofKind hkind).1
  have hsame : m = element.mapping := Except.ok.inj (hm.symm.trans helement.mapping)
  rw [hsame] at hone
  exact unbroken_of_subset (hunbroken r hr _ hone) fun c hc =>
    ((formatTemplate_unescapes helement.phrase).mem c).1 hc

theorem unbroken_of_roundTrips (hrs : Requires nfc spec (k.requirementsOf spec))
    (hround : compileSpec nfc.toNfc k spec = .ok (result, some e)) (h : RoundTrips nfc k spec e) :
    ∀ r ∈ k.requirementsOf spec, ∀ m, promotableMappings k.vocabulary k.compileAt r = [m] →
      Unbroken m.phraseTemplate.toList := by
  obtain ⟨gates, elements, hgates, hempty, hrender, -⟩ := rendered_of_round hround
  obtain ⟨gates', elements', hgates', hrender', hback⟩ := h
  have hsame : gates = gates' := Except.ok.inj (hgates.symm.trans hgates')
  subst hsame
  have hsame : elements = elements' := Except.ok.inj (hrender.symm.trans hrender')
  subst hsame
  obtain ⟨nested, approvals, mappings, hb⟩ := specGates_eq_ok.1 hgates
  obtain ⟨f, s, a, feature, scenario, action, preconditions, effects, hrun⟩ :=
    renderElements_eq_ok.1 hrender
  intro r hr m hm
  obtain ⟨element, he, rfl⟩ := hrun.mapping_rendered hrs (selects_of_unblocked hb hempty) hr hm
  exact unbroken_of_subset (unbroken_of_readsBack hback element he) fun c hc =>
    ((formatTemplate_unescapes (hrun.elementOf he).phrase).mem c).2 hc

/-- **The Gherkin round trip, exactly**: what a successful round emits is parsed back as the
feature, the scenario and the steps that were rendered, exactly when no template that the gate
selects for a requirement of the specification has a line break that `str.splitlines` knows. -/
theorem gherkin_round_trips_iff (h : FromScenarioCompiler nfc.toNfc batch)
    (hk : compilation nfc.toNfc batch v c effectiveTimestamp = .ok k)
    (hs : spec ∈ batch.scenarioSpecs) {result : BddCompilationResult} {e : Emission}
    (hround : compileSpec nfc.toNfc k spec = .ok (result, some e)) :
    RoundTrips nfc k spec e ↔ ∀ rs, vocabularyRequirements nfc.toNfc spec = .ok rs → ∀ r ∈ rs, ∀ m,
      promotableMappings v k.compileAt r = [m] → Unbroken m.phraseTemplate.toList := by
  have hprepared := prepared_of_compilation hk
  obtain ⟨rs, hrs, hown, hrequires⟩ := requirements_in_batch h hprepared hs
  rw [← hprepared.vocabulary]
  constructor
  · intro htrips rs' hrs' r hr
    have hsame : rs = rs' := Except.ok.inj (hrs.symm.trans hrs')
    rw [← hsame] at hr
    exact unbroken_of_roundTrips hrequires hround htrips r ((hown r).2 hr)
  · intro hunbroken
    exact roundTrips_of_unbroken hround fun r hr => hunbroken rs hrs r ((hown r).1 hr)

theorem tab_approved : ApprovedPhrase "A\x0bB".toList :=
  ⟨by decide, by decide, by decide, by decide⟩

theorem tab_fieldless : Fieldless "A\x0bB".toList := by
  have hnone : (markups "A\x0bB".toList).2.isNone = true := by decide +kernel
  have hfields : ((markups "A\x0bB".toList).1.all fun m => m.field.isNone) = true := by
    decide +kernel
  exact ⟨Option.isNone_iff_eq_none.1 hnone, fun m hm =>
    Option.isNone_iff_eq_none.1 (List.all_eq_true.1 hfields m hm)⟩

theorem sample_slots : ((singleSlots "scenario" "procedure" "effect").map fun slot =>
    requirementId "scenario" slot.kind slot.source).Nodup := by
  decide +kernel

/-- The model accepts a vertical tab in a phrase; the specification succeeds, and its artifact is
not read back. -/
theorem tab_not_read_back : ∃ k result e,
    FromScenarioCompiler asciiLineNfc.toNfc
      (singleBatch asciiLineNfc.toNfc "scenario" "procedure" "effect") ∧
    compilation asciiLineNfc.toNfc (singleBatch asciiLineNfc.toNfc "scenario" "procedure" "effect")
      (manualVocabulary asciiLineNfc.toNfc "scenario" "A\x0bB" tab_approved
        (singleSlots "scenario" "procedure" "effect"))
      (emptyClassification asciiLineNfc.toNfc) none = .ok k ∧
    compileSpec asciiLineNfc.toNfc k
        ((singleSpec "scenario" "procedure" "effect").withDigest asciiLineNfc.toNfc)
      = .ok (result, some e) ∧
    result.compilationStatus = .succeeded ∧
    ¬ RoundTrips asciiLineNfc k
      ((singleSpec "scenario" "procedure" "effect").withDigest asciiLineNfc.toNfc) e := by
  obtain ⟨k, result, e, hk, hround, hstatus, hinstant⟩ := @compiles_single asciiLineNfc "scenario"
    "procedure" "effect" "A\x0bB" tab_approved (by decide) (by decide) sample_slots tab_fieldless
    (by decide)
  have hfrom := @fromScenarioCompiler_single asciiLineNfc.toNfc "scenario" "procedure" "effect"
    (by decide) (by decide)
  have hprepared := prepared_of_compilation hk
  obtain ⟨rs, hrs, hown, hrequires⟩ :=
    requirements_in_batch hfrom hprepared (List.mem_singleton_self _)
  refine ⟨k, result, e, hfrom, hk, hround, hstatus, fun htrips => ?_⟩
  obtain ⟨r, hr, -, -, hone⟩ := @promotable_slot asciiLineNfc "scenario" "procedure" "effect"
    "A\x0bB" tab_approved (singleSlots "scenario" "procedure" "effect")
    ⟨"feature", .featureTitle, "procedure"⟩ _ hrequires rfl
  rw [filter_slot sample_slots List.mem_cons_self, List.map_singleton, ← hinstant,
    ← hprepared.vocabulary] at hone
  have hunbroken := unbroken_of_roundTrips hrequires hround htrips r hr _ hone
  exact absurd (hunbroken '\x0b' (by decide)) (by decide)

theorem gherkin_round_trips_iff_tab : ∃ k result e,
    compileSpec asciiLineNfc.toNfc k
        ((singleSpec "scenario" "procedure" "effect").withDigest asciiLineNfc.toNfc)
      = .ok (result, some e) ∧
    (RoundTrips asciiLineNfc k
        ((singleSpec "scenario" "procedure" "effect").withDigest asciiLineNfc.toNfc) e ↔
      ∀ rs, vocabularyRequirements asciiLineNfc.toNfc
          ((singleSpec "scenario" "procedure" "effect").withDigest asciiLineNfc.toNfc) = .ok rs →
        ∀ r ∈ rs, ∀ m, promotableMappings (manualVocabulary asciiLineNfc.toNfc "scenario" "A\x0bB"
            tab_approved (singleSlots "scenario" "procedure" "effect")) k.compileAt r = [m] →
          Unbroken m.phraseTemplate.toList) := by
  obtain ⟨k, result, e, hk, hround, -⟩ := @compiles_single asciiLineNfc "scenario" "procedure"
    "effect" "A\x0bB" tab_approved (by decide) (by decide) sample_slots tab_fieldless (by decide)
  exact ⟨k, result, e, hround, gherkin_round_trips_iff
    (fromScenarioCompiler_single (by decide) (by decide)) hk (List.mem_singleton_self _) hround⟩

end AtlasDb.Bdd
