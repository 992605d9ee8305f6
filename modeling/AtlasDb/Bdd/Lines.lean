import AtlasDb.Bdd.Compiler
import AtlasDb.Bdd.Requirements

/-!
# Canonical lines

The canonical form of a rendered artifact: its phrases are normalised and nothing else changes.
Normalisation is a parameter; beyond the laws of `Nfc` it is relied on to leave blanks, line breaks
and NUL where they are and to introduce none.
-/

namespace AtlasDb.Bdd

open Core Core.Text
open Text (isLineBreak)

/-! ## Normalisation and separators -/

/-- Blanks, line breaks and NUL: characters no canonical composition or decomposition involves. -/
def isSeparator (c : Char) : Bool := c = ' ' || c = '\t' || c = '\x00' || isLineBreak c

def normalizeChars (nfc : Nfc) (text : List Char) : List Char :=
  (nfc.normalize (String.ofList text)).toList

/-- `unicodedata.normalize("NFC", ·)` works on the texts between separators one by one, introduces
no separator, and maps a text without white space at its ends to such a text. -/
structure LineNfc extends Nfc where
  around : ∀ c, isSeparator c = true → ∀ a b : List Char,
    normalizeChars toNfc (a ++ c :: b) = normalizeChars toNfc a ++ c :: normalizeChars toNfc b
  only : ∀ c, isSeparator c = true → ∀ text : List Char, c ∈ normalizeChars toNfc text → c ∈ text
  stripped : ∀ text : List Char, strip text = text → text ≠ [] →
    strip (normalizeChars toNfc text) = normalizeChars toNfc text ∧ normalizeChars toNfc text ≠ []

/-- Normalisation on ASCII texts. -/
def asciiLineNfc : LineNfc where
  normalize s := s
  idem _ := rfl
  ascii _ _ := rfl
  around c _ a b := by simp [normalizeChars]
  only c _ text h := by simpa [normalizeChars] using h
  stripped text h hne := by simpa [normalizeChars] using ⟨h, hne⟩

variable {nfc : LineNfc}

theorem normalizeChars_ascii {text : List Char}
    (h : (text.all fun c => decide (c.toNat < 128)) = true) :
    normalizeChars nfc.toNfc text = text := by
  rw [normalizeChars, nfc.ascii _ (by rwa [String.toList_ofList]), String.toList_ofList]

theorem normalizeChars_idem (text : List Char) :
    normalizeChars nfc.toNfc (normalizeChars nfc.toNfc text) = normalizeChars nfc.toNfc text := by
  rw [normalizeChars, normalizeChars, String.ofList_toList, nfc.idem]

theorem mem_normalizeChars {c : Char} (hc : isSeparator c = true) {text : List Char} :
    c ∈ normalizeChars nfc.toNfc text ↔ c ∈ text := by
  constructor
  · exact nfc.only c hc text
  · intro h
    obtain ⟨a, b, rfl⟩ := List.append_of_mem h
    rw [nfc.around c hc]
    exact List.mem_append_right _ List.mem_cons_self

theorem normalizeChars_intercalate (lines : List (List Char)) :
    normalizeChars nfc.toNfc (['\n'].intercalate lines)
      = ['\n'].intercalate (lines.map (normalizeChars nfc.toNfc)) := by
  induction lines with
  | nil => exact normalizeChars_ascii rfl
  | cons line lines ih =>
    cases lines with
    | nil => rw [List.intercalate_singleton, List.map_singleton, List.intercalate_singleton]
    | cons next lines =>
      rw [List.intercalate_cons_cons, List.append_assoc, List.singleton_append,
        nfc.around '\n' (by decide), ih]
      simp only [List.map_cons, List.intercalate_cons_cons, List.append_assoc,
        List.singleton_append]

/-! ## Lines that are canonical -/

theorem unifyNewlines_eq {text : List Char} (h : '\r' ∉ text) : unifyNewlines text = text := by
  induction text with
  | nil => rfl
  | cons c cs ih =>
    rw [List.mem_cons, not_or] at h
    have hne : c ≠ '\r' := fun heq => h.1 heq.symm
    rw [unifyNewlines.eq_def]
    split
    · next heq => cases heq
    · next heq => exact absurd (List.cons.inj heq).1 hne
    · next heq =>
        obtain ⟨rfl, rfl⟩ := List.cons.inj heq
        rw [if_neg hne, ih h.2]

theorem rstripBlanks_eq {line : List Char} (h : ∀ c ∈ line.getLast?, isSpace c = false) :
    rstripBlanks line = line := by
  have hlast : ∀ c ∈ line.reverse.head?, (c = ' ' || c = '\t') = false := by
    intro c hc
    rw [List.head?_reverse] at hc
    have hspace := h c hc
    rw [Bool.or_eq_false_iff]
    constructor
    · exact decide_eq_false fun heq => by rw [heq] at hspace; exact absurd hspace (by decide)
    · exact decide_eq_false fun heq => by rw [heq] at hspace; exact absurd hspace (by decide)
  rw [rstripBlanks, dropWhile_eq_self hlast, List.reverse_reverse]

variable {parts : List (ElementKind × List Char)} {lines : List (List Char)}

theorem dropEmptyTail_eq (h : ∀ line ∈ lines.getLast?, line ≠ []) :
    dropEmptyTail lines = lines := by
  have hlast : ∀ line ∈ lines.reverse.head?, line.isEmpty = false := by
    intro line hline
    rw [List.head?_reverse] at hline
    simpa using h line hline
  rw [dropEmptyTail, dropWhile_eq_self hlast, List.reverse_reverse]

theorem dropEmptyTail_append_nil
    (h : ∀ line ∈ lines.getLast?, line ≠ []) : dropEmptyTail (lines ++ [[]]) = lines := by
  have hdrop := dropEmptyTail_eq h
  rw [dropEmptyTail] at hdrop ⊢
  rw [List.reverse_append]
  exact hdrop

/-- A line the canonical form leaves alone. -/
structure CanonicalLine (line : List Char) : Prop where
  feed : '\n' ∉ line
  ret : '\r' ∉ line
  last : ∀ c ∈ line.getLast?, isSpace c = false

theorem canonicalLine_nil : CanonicalLine [] := ⟨by simp, by simp, by simp⟩

theorem not_mem_intercalate {c : Char} (hc : c ≠ '\n')
    (h : ∀ line ∈ lines, c ∉ line) : c ∉ ['\n'].intercalate lines := by
  induction lines with
  | nil => simp
  | cons line lines ih =>
    rw [List.forall_mem_cons] at h
    cases lines with
    | nil => rw [List.intercalate_singleton]; exact h.1
    | cons next lines =>
      rw [List.intercalate_cons_cons, List.append_assoc, List.singleton_append,
        List.mem_append, List.mem_cons, not_or, not_or]
      exact ⟨h.1, hc, ih h.2⟩

/-- **The canonical text** of lines whose normal forms are canonical, the last one apart if it is
empty. -/
theorem canonicalGherkinText_lines {lines kept : List (List Char)}
    (hlines : ∀ line ∈ lines.map (normalizeChars nfc.toNfc), CanonicalLine line)
    (hkept : dropEmptyTail (lines.map (normalizeChars nfc.toNfc)) = kept) (hne : kept ≠ []) :
    canonicalGherkinText nfc.toNfc (['\n'].intercalate lines)
      = if kept.any fun line => line.contains '\x00' then
          .error (.valueError "Gherkin artifact contains a NUL character.")
        else .ok (['\n'].intercalate kept ++ ['\n']) := by
  have hlinesNe : lines.map (normalizeChars nfc.toNfc) ≠ [] := by
    intro hnil
    rw [hnil] at hkept
    exact hne hkept.symm
  have hunified : unifyNewlines (normalizeChars nfc.toNfc (['\n'].intercalate lines))
      = ['\n'].intercalate (lines.map (normalizeChars nfc.toNfc)) := by
    rw [normalizeChars_intercalate]
    exact unifyNewlines_eq (not_mem_intercalate (by decide) fun line hline =>
      (hlines line hline).ret)
  have hsplit : ((['\n'].intercalate (lines.map (normalizeChars nfc.toNfc))).splitOn '\n').map
      rstripBlanks = lines.map (normalizeChars nfc.toNfc) := by
    rw [List.splitOn_intercalate '\n' (fun line hline => (hlines line hline).feed) hlinesNe]
    conv_rhs => rw [← List.map_id (lines.map (normalizeChars nfc.toNfc))]
    exact List.map_congr_left fun line hline => rstripBlanks_eq (hlines line hline).last
  rw [normalizeChars] at hunified
  rw [canonicalGherkinText]
  simp only [hunified, hsplit, hkept, if_neg hne]

/-! ## Phrases -/

theorem approvedPhrase_format {template text : List Char} (h : ApprovedPhrase template)
    (hformat : formatTemplate template = .ok text) : ApprovedPhrase text := by
  obtain ⟨hstrip, hne, hfeed, hret⟩ := h
  have hu := formatTemplate_unescapes hformat
  refine ⟨?_, fun hnil => ?_, fun hmem => hfeed ((hu.mem _).1 hmem),
    fun hmem => hret ((hu.mem _).1 hmem)⟩
  · rw [strip_eq_self_iff, hu.first, hu.last, ← strip_eq_self_iff]
    exact hstrip
  · have hfirst := hu.first
    rw [hnil] at hfirst
    exact hne (List.head?_eq_none_iff.1 hfirst.symm)

theorem approvedPhrase_normalize {phrase : List Char} (h : ApprovedPhrase phrase) :
    ApprovedPhrase (normalizeChars nfc.toNfc phrase) := by
  obtain ⟨hstrip, hne, hfeed, hret⟩ := h
  obtain ⟨hstrip', hne'⟩ := nfc.stripped phrase hstrip hne
  exact ⟨hstrip', hne', fun hmem => hfeed ((mem_normalizeChars (by decide)).1 hmem),
    fun hmem => hret ((mem_normalizeChars (by decide)).1 hmem)⟩

/-! ## Elements -/

theorem elementStart_ascii (kind : ElementKind) :
    ((elementStart kind).all fun c => decide (c.toNat < 128)) = true := by
  cases kind with
  | feature => decide
  | scenarioName => decide
  | step keyword => cases keyword <;> decide

theorem normalize_linesOf (kind : ElementKind) (phrase : List Char) :
    (linesOf kind phrase).map (normalizeChars nfc.toNfc)
      = linesOf kind (normalizeChars nfc.toNfc phrase) := by
  have hline : normalizeChars nfc.toNfc (phraseLine kind phrase)
      = phraseLine kind (normalizeChars nfc.toNfc phrase) := by
    rw [phraseLine, nfc.around ' ' (by decide), normalizeChars_ascii (elementStart_ascii kind)]
    rfl
  have hnil : normalizeChars nfc.toNfc [] = [] := normalizeChars_ascii rfl
  rw [linesOf, linesOf, List.map_cons, hline]
  split
  · rw [List.map_singleton, hnil]
  · rfl

theorem canonicalLine_phraseLine (kind : ElementKind) {phrase : List Char}
    (h : ApprovedPhrase phrase) : CanonicalLine (phraseLine kind phrase) := by
  obtain ⟨hstrip, hne, hfeed, hret⟩ := h
  have hstart : '\n' ∉ elementStart kind ∧ '\r' ∉ elementStart kind := by
    cases kind with
    | feature => decide
    | scenarioName => decide
    | step keyword => cases keyword <;> decide
  refine ⟨?_, ?_, fun c hc => ?_⟩
  · rw [phraseLine, List.mem_append, List.mem_cons, not_or, not_or]
    exact ⟨hstart.1, by decide, hfeed⟩
  · rw [phraseLine, List.mem_append, List.mem_cons, not_or, not_or]
    exact ⟨hstart.2, by decide, hret⟩
  · obtain ⟨d, hd⟩ := Option.isSome_iff_exists.1 (List.getLast?_isSome.2 hne)
    have hlast : (phraseLine kind phrase).getLast? = some d := by
      have hshape : phraseLine kind phrase = (elementStart kind ++ [' ']) ++ phrase := by
        simp [phraseLine]
      rw [hshape, List.getLast?_append, hd]
      rfl
    rw [hlast] at hc
    cases hc
    exact (strip_eq_self_iff.1 hstrip).2 c hd

/-! ## The text of an artifact -/

/-- The elements are titles first: a feature, at least one other element, and no other feature. -/
structure Titled (parts : List (ElementKind × List Char)) : Prop where
  phrases : ∀ part ∈ parts, ApprovedPhrase part.2
  last : ∀ part ∈ parts.getLast?, part.1 ≠ .feature
  ne : parts ≠ []

def normalizeParts (nfc : LineNfc) (parts : List (ElementKind × List Char)) :
    List (ElementKind × List Char) :=
  parts.map fun part => (part.1, normalizeChars nfc.toNfc part.2)

theorem titled_normalizeParts (h : Titled parts) :
    Titled (normalizeParts nfc parts) := by
  refine ⟨fun part hpart => ?_, fun part hpart => ?_, fun hnil => h.ne (List.map_eq_nil_iff.1 hnil)⟩
  · obtain ⟨source, hsource, rfl⟩ := List.mem_map.1 hpart
    exact approvedPhrase_normalize (h.phrases source hsource)
  · rw [normalizeParts, List.getLast?_map] at hpart
    obtain ⟨source, hsource, rfl⟩ := Option.map_eq_some_iff.1 hpart
    exact h.last source hsource

def linesOfParts (parts : List (ElementKind × List Char)) : List (List Char) :=
  parts.flatMap fun part => linesOf part.1 part.2

theorem normalize_linesOfParts (parts : List (ElementKind × List Char)) :
    (linesOfParts parts).map (normalizeChars nfc.toNfc) =
    linesOfParts (normalizeParts nfc parts) := by
  rw [linesOfParts, List.map_flatMap, linesOfParts, normalizeParts, List.flatMap_map]
  exact List.flatMap_congr fun part _ => normalize_linesOf part.1 part.2

theorem canonicalLine_linesOfParts (h : Titled parts)
    {line : List Char} (hline : line ∈ linesOfParts parts) : CanonicalLine line := by
  obtain ⟨part, hpart, hmem⟩ := List.mem_flatMap.1 hline
  rw [linesOf, List.mem_cons] at hmem
  rcases hmem with rfl | hmem
  · exact canonicalLine_phraseLine part.1 (h.phrases part hpart)
  · split at hmem
    · rw [List.mem_singleton.1 hmem]
      exact canonicalLine_nil
    · cases hmem

theorem linesOfParts_last (h : Titled parts) :
    ∀ line ∈ (linesOfParts parts).getLast?, line ≠ [] := by
  obtain ⟨front, part, rfl⟩ : ∃ front part, parts = front ++ [part] :=
    ⟨_, _, (List.dropLast_append_getLast h.ne).symm⟩
  have hkind : part.1 ≠ .feature := h.last part (by simp)
  intro line hline
  rw [linesOfParts, List.flatMap_append, List.flatMap_singleton, linesOf, if_neg hkind,
    List.getLast?_append, List.getLast?_singleton] at hline
  cases hline
  rw [phraseLine]
  simp

theorem linesOfParts_ne (h : Titled parts) :
    linesOfParts parts ≠ [] := by
  intro hnil
  obtain ⟨part, hpart⟩ := List.exists_mem_of_ne_nil _ h.ne
  rw [linesOfParts, List.flatMap_eq_nil_iff] at hnil
  exact absurd (hnil part hpart) (by simp [linesOf])

/-- The text an artifact has: its normalised lines, each ended by a line feed. -/
def artifactText (nfc : LineNfc) (parts : List (ElementKind × List Char)) : List Char :=
  ['\n'].intercalate (linesOfParts (normalizeParts nfc parts)) ++ ['\n']

/-- A NUL in the lines comes from a part. -/
theorem nul_linesOfParts :
    ((linesOfParts (normalizeParts nfc parts)).any fun line => line.contains '\x00') = true ↔
      ∃ part ∈ parts, '\x00' ∈ part.2 := by
  have hstart : ∀ kind : ElementKind, '\x00' ∉ elementStart kind := by
    intro kind
    cases kind with
    | feature => decide
    | scenarioName => decide
    | step keyword => cases keyword <;> decide
  have hline : ∀ (kind : ElementKind) (phrase : List Char),
      '\x00' ∈ phraseLine kind (normalizeChars nfc.toNfc phrase) ↔ '\x00' ∈ phrase := by
    intro kind phrase
    rw [phraseLine, List.mem_append, List.mem_cons, mem_normalizeChars (by decide)]
    constructor
    · rintro (h | h | h)
      · exact absurd h (hstart kind)
      · exact absurd h (by decide)
      · exact h
    · exact fun h => .inr (.inr h)
  rw [List.any_eq_true]
  constructor
  · rintro ⟨line, hmem, hnul⟩
    obtain ⟨part, hpart, hin⟩ := List.mem_flatMap.1 hmem
    obtain ⟨source, hsource, rfl⟩ := List.mem_map.1 hpart
    rw [linesOf, List.mem_cons] at hin
    rcases hin with rfl | hin
    · exact ⟨source, hsource, (hline source.1 source.2).1 (List.contains_iff_mem.1 hnul)⟩
    · split at hin
      · rw [List.mem_singleton.1 hin] at hnul
        cases hnul
      · cases hin
  · rintro ⟨part, hpart, hnul⟩
    refine ⟨_, List.mem_flatMap.2 ⟨_, List.mem_map.2 ⟨part, hpart, rfl⟩, List.mem_cons_self⟩, ?_⟩
    exact List.contains_iff_mem.2 ((hline part.1 part.2).2 hnul)

theorem canonicalGherkinText_parts (h : Titled parts) :
    canonicalGherkinText nfc.toNfc (['\n'].intercalate (linesOfParts parts))
      = if (linesOfParts (normalizeParts nfc parts)).any fun line => line.contains '\x00' then
          .error (.valueError "Gherkin artifact contains a NUL character.")
        else .ok (artifactText nfc parts) := by
  have htitled := @titled_normalizeParts nfc parts h
  rw [artifactText]
  apply canonicalGherkinText_lines
  · rw [normalize_linesOfParts]
    exact fun line hline => canonicalLine_linesOfParts htitled hline
  · rw [normalize_linesOfParts]
    exact dropEmptyTail_eq (linesOfParts_last htitled)
  · exact linesOfParts_ne htitled

theorem intercalate_append_nil (hne : lines ≠ []) :
    ['\n'].intercalate (lines ++ [[]]) = ['\n'].intercalate lines ++ ['\n'] := by
  induction lines with
  | nil => exact absurd rfl hne
  | cons line lines ih =>
    cases lines with
    | nil => simp
    | cons next lines =>
      rw [List.intercalate_cons_cons, List.append_assoc, ← ih (by simp)]
      simp only [List.cons_append, List.intercalate_cons_cons, List.append_assoc]

theorem artifactText_eq (h : Titled parts) :
    artifactText nfc parts
      = ['\n'].intercalate (linesOfParts (normalizeParts nfc parts) ++ [[]]) := by
  rw [intercalate_append_nil (linesOfParts_ne (titled_normalizeParts h)), artifactText]

theorem splitOn_artifactText (h : Titled parts) :
    (artifactText nfc parts).splitOn '\n' = linesOfParts (normalizeParts nfc parts) ++ [[]] := by
  rw [artifactText_eq h]
  apply List.splitOn_intercalate
  · intro line hline
    rcases List.mem_append.1 hline with hline | hline
    · exact (canonicalLine_linesOfParts (titled_normalizeParts h) hline).feed
    · rw [List.mem_singleton.1 hline]
      exact List.not_mem_nil
  · simp

theorem length_nonempty_lines (parts : List (ElementKind × List Char)) :
    ((linesOfParts parts).filter fun line => line ≠ []).length = parts.length := by
  induction parts with
  | nil => rfl
  | cons part parts ih =>
    have hone : ((linesOf part.1 part.2).filter fun line => line ≠ []).length = 1 := by
      rw [linesOf, List.filter_cons_of_pos (by simp [phraseLine])]
      split <;> rfl
    rw [linesOfParts] at ih ⊢
    rw [List.flatMap_cons, List.filter_append, List.length_append, hone, ih, List.length_cons,
      Nat.add_comm]

theorem canonicalGherkinText_artifactText (h : Titled parts)
    (hnul : ¬ ∃ part ∈ parts, '\x00' ∈ part.2) :
    canonicalGherkinText nfc.toNfc (artifactText nfc parts) = .ok (artifactText nfc parts) := by
  have htitled := @titled_normalizeParts nfc parts h
  have hfixed : normalizeParts nfc (normalizeParts nfc parts) = normalizeParts nfc parts := by
    rw [normalizeParts, normalizeParts, List.map_map]
    exact List.map_congr_left fun part _ => by
      rw [Function.comp_apply, normalizeChars_idem]
  have hmap : (linesOfParts (normalizeParts nfc parts) ++ [[]]).map (normalizeChars nfc.toNfc)
      = linesOfParts (normalizeParts nfc parts) ++ [[]] := by
    rw [List.map_append, normalize_linesOfParts, hfixed, List.map_singleton,
      normalizeChars_ascii rfl]
  have htext := @artifactText_eq nfc parts h
  have hcanonical := @canonicalGherkinText_lines nfc
    (linesOfParts (normalizeParts nfc parts) ++ [[]]) (linesOfParts (normalizeParts nfc parts))
    (by
      rw [hmap]
      intro line hline
      rcases List.mem_append.1 hline with hline | hline
      · exact canonicalLine_linesOfParts htitled hline
      · rw [List.mem_singleton.1 hline]
        exact canonicalLine_nil)
    (by
      rw [hmap]
      exact dropEmptyTail_append_nil (linesOfParts_last htitled))
    (linesOfParts_ne htitled)
  rw [htext, hcanonical, if_neg (fun hany => hnul (nul_linesOfParts.1 hany)), ← htext, artifactText]

end AtlasDb.Bdd
