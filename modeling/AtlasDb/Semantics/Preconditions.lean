import AtlasDb.Semantics.Unreachable

/-!
# Preconditions of a branch

The predicate of an arm against what it takes for control to enter it, over the arms around it. The
predicate knows the conditions of its own IF only, and holds `NOT` of an earlier condition, which is
not TRUE when that condition is unknown. Conditions are those of the grammar: no predicate in them
begins with a parenthesis or holds a scalar `CASE` with `AND` or `OR`.
-/

namespace AtlasDb.Semantics

open Core Lib Parsing Analysis

/-! ## Arms in arms -/

/-- An arm of an IF region. -/
structure ArmSite where
  id : NodeRef
  arms : List Arm
  index : Nat

namespace ArmSite

def headers (site : ArmSite) : List IfArm := site.arms.map Arm.header

/-- The conditions before the arm's own. -/
def earlier (site : ArmSite) : List String :=
  (site.headers.take site.index).filterMap IfArm.condition?

/-- `controlling_region_ref` of what stands in the arm. -/
def region (site : ArmSite) (arm : Arm) : ControlRegion :=
  .ifArm site.id site.index arm.header.armKind

end ArmSite

/-- The arm at the end of the chain stands in the body, each arm of the chain in the one before it,
with nothing but compounds in between. -/
inductive ArmChain : List Node → List ArmSite → Prop where
  | arm {code : List Node} {s : ArmSite} (hif : .ifRegion s.id s.arms ∈ code)
      (hindex : s.index < s.arms.length) : ArmChain code [s]
  | inArm {code : List Node} {s : ArmSite} {arm : Arm} {chain : List ArmSite}
      (hif : .ifRegion s.id s.arms ∈ code) (harm : s.arms[s.index]? = some arm)
      (hchain : ArmChain arm.body chain) : ArmChain code (s :: chain)
  | inCompound {code body : List Node} {id : NodeRef} {label : Option String} {text : String}
      {chain : List ArmSite} (hcompound : .compound id label text body ∈ code)
      (hchain : ArmChain body chain) : ArmChain code chain

theorem mem_ifRegionsOf_of_mem {n : Node} {code : List Node} (h : n ∈ code) {e : NodeRef × List Arm}
    (he : e ∈ ifRegions n) : e ∈ ifRegionsOf code := by
  induction code with
  | nil => cases h
  | cons m code ih =>
    rw [ifRegionsOf, List.mem_append]
    rcases List.mem_cons.1 h with rfl | h
    · exact .inl he
    · exact .inr (ih h)

theorem mem_ifRegionsOfArms_of_mem {arm : Arm} {arms : List Arm} (h : arm ∈ arms)
    {e : NodeRef × List Arm} (he : e ∈ ifRegionsOf arm.body) : e ∈ ifRegionsOfArms arms := by
  induction arms with
  | nil => cases h
  | cons a arms ih =>
    obtain ⟨header, body⟩ := a
    rw [ifRegionsOfArms, List.mem_append]
    rcases List.mem_cons.1 h with rfl | h
    · exact .inl he
    · exact .inr (ih h)

theorem ArmChain.mem_ifRegionsOf {code : List Node} {chain : List ArmSite}
    (h : ArmChain code chain) :
    ∀ site ∈ chain, (site.id, site.arms) ∈ ifRegionsOf code := by
  induction h with
  | arm hif hindex =>
    intro site hsite
    obtain rfl := List.mem_singleton.1 hsite
    exact mem_ifRegionsOf_of_mem hif List.mem_cons_self
  | inArm hif harm hchain ih =>
    intro site hsite
    rcases List.mem_cons.1 hsite with rfl | hsite
    · exact mem_ifRegionsOf_of_mem hif List.mem_cons_self
    · refine mem_ifRegionsOf_of_mem hif (List.mem_cons_of_mem _ ?_)
      exact mem_ifRegionsOfArms_of_mem (List.mem_of_getElem? harm) (ih site hsite)
  | inCompound hcompound hchain ih =>
    intro site hsite
    exact mem_ifRegionsOf_of_mem hcompound (ih site hsite)

mutual

theorem ifRegions_sublist (n : Node) : List.Sublist ((ifRegions n).map Prod.fst) n.refs := by
  cases n with
  | simple id stmt => exact List.nil_sublist _
  | compound id label text body => exact (ifRegionsOf_sublist body).cons _
  | ifRegion id arms => exact (ifRegionsOfArms_sublist arms).cons_cons _
  | loop id region body => exact (ifRegionsOf_sublist body).cons _
  | handler id region body => exact (ifRegionsOf_sublist body).cons _

theorem ifRegionsOf_sublist (code : List Node) :
    List.Sublist ((ifRegionsOf code).map Prod.fst) (refsOf code) := by
  cases code with
  | nil => exact List.Sublist.slnil
  | cons n ns =>
    rw [ifRegionsOf, List.map_append, refsOf]
    exact (ifRegions_sublist n).append (ifRegionsOf_sublist ns)

theorem ifRegionsOfArms_sublist (arms : List Arm) :
    List.Sublist ((ifRegionsOfArms arms).map Prod.fst) (refsOfArms arms) := by
  cases arms with
  | nil => exact List.Sublist.slnil
  | cons arm arms =>
    obtain ⟨header, body⟩ := arm
    rw [ifRegionsOfArms, List.map_append, refsOfArms]
    exact ((ifRegionsOf_sublist body).append (ifRegionsOfArms_sublist arms)).cons _

end

theorem regionPredicate_arm {ast : ProcedureAst} {chain : List ArmSite}
    (h : ArmChain ast.body chain) {site : ArmSite} (hsite : site ∈ chain) (arm : Arm) :
    regionPredicate ast (site.region arm) = armPredicate site.headers site.index := by
  have hnodup : ((ifRegionsOf ast.body).map Prod.fst).Nodup :=
    ast.distinct.sublist (ifRegionsOf_sublist ast.body)
  simp only [ArmSite.region, regionPredicate,
    lookup_of_mem_of_nodup hnodup (h.mem_ifRegionsOf site hsite), Option.bind_some]
  rfl

/-! ## Satisfying the predicate -/

section

variable {S : Type} {M : SqlMeaning S}

/-- The texts are search conditions, and their atoms, as the parser renders them, mean what they do
in the source; `τ` is the meaning of the rendered texts. -/
def SqlMeaning.ReadAsWritten (M : SqlMeaning S) (τ : S → String → Truth) (texts : List String) :
    Prop :=
  (∀ text ∈ texts, (scan text).tokens = (M.conditionOf text).tokens) ∧
    ∀ σ, ∀ text ∈ texts, ∀ atom ∈ (M.conditionOf text).atoms,
      M.atomTruth σ atom = readAtoms (τ σ) atom

theorem SqlMeaning.ReadAsWritten.truth_parsePredicate {τ : S → String → Truth} {texts : List String}
    (h : M.ReadAsWritten τ texts) (σ : S) {text : String} (htext : text ∈ texts) :
    exprTruth (τ σ) (parsePredicate text) = M.truth σ text := by
  rw [parsePredicate, h.1 text htext, truth_parseTokens]
  exact (OrCond.truth_congr _ (h.2 σ text htext)).symm

theorem allTruth_eq_true {τ : String → Truth} {es : List PredicateExpr} :
    allTruth τ es = .true ↔ ∀ e ∈ es, exprTruth τ e = .true := by
  induction es with
  | nil => simp [allTruth]
  | cons e es ih => simp [allTruth, Truth.and_eq_true, ih]

theorem satisfied_iff {τ : String → Truth} {arms : List IfArm} {index : Nat} {p : PredicateExpr}
    (hp : armPredicate arms index = some p) :
    exprTruth τ p = .true ↔
      (∀ text ∈ (arms.take index).filterMap IfArm.condition?,
        exprTruth τ (parsePredicate text) = .false) ∧
      ∀ text ∈ arms[index]?.bind IfArm.condition?, exprTruth τ (parsePredicate text) = .true := by
  unfold armPredicate at hp
  split at hp
  · cases hp
  · next current harm =>
      have htruth : exprTruth τ p = allTruth τ (((arms.take index).filterMap IfArm.condition?).map
          (fun text => .not (parsePredicate text)) ++
            (IfArm.condition? current).toList.map parsePredicate) := by
        rw [← Option.some.inj hp]
        split
        · next hnil => rw [hnil]; rfl
        · exact exprTruth_combineAnd τ _
      rw [htruth, allTruth_eq_true]
      simp only [List.mem_append, List.mem_map, Option.mem_toList, harm, Option.bind_some]
      constructor
      · intro h
        refine ⟨fun text htext => ?_, fun text htext => h _ (.inr ⟨text, htext, rfl⟩)⟩
        simpa [exprTruth] using h _ (.inl ⟨text, htext, rfl⟩)
      · rintro ⟨hearlier, hown⟩ e (⟨text, htext, rfl⟩ | ⟨text, htext, rfl⟩)
        · simp [exprTruth, hearlier text htext]
        · exact hown text htext

/-- Control enters every arm of the chain. -/
def SqlMeaning.ChainEntered (M : SqlMeaning S) (σ : S) (chain : List ArmSite) : Prop :=
  ∀ site ∈ chain, M.ArmEntered σ site.headers site.index

/-- For every arm, whatever the arms around it: it has a predicate, and in a state this decides
about entering the arm exactly if, should the conditions of its own IF select the arm, control
enters the arms around it just when none of the earlier conditions is unknown. -/
theorem precondition_decides_iff (M : SqlMeaning S) (τ : S → String → Truth) (ast : ProcedureAst)
    (outer : List ArmSite) (site : ArmSite) (arm : Arm)
    (hchain : ArmChain ast.body (outer ++ [site])) (harm : site.arms[site.index]? = some arm)
    (hread : M.ReadAsWritten τ (armTexts site.headers site.index)) :
    ∃ p, regionPredicate ast (site.region arm) = some p ∧ ∀ σ,
      ((M.ChainEntered σ (outer ++ [site]) ↔ exprTruth (τ σ) p = .true) ↔
        (M.ArmEntered σ site.headers site.index →
          (M.ChainEntered σ outer ↔ ∀ text ∈ site.earlier, M.truth σ text ≠ .unknown))) := by
  have hheader : site.headers[site.index]? = some arm.header := by
    simp [ArmSite.headers, harm]
  obtain ⟨p, hp⟩ : ∃ p, armPredicate site.headers site.index = some p := by
    simp [armPredicate, hheader]
  refine ⟨p, by rw [regionPredicate_arm hchain (by simp), hp], fun σ => ?_⟩
  have hearlier : ∀ text ∈ site.earlier, exprTruth (τ σ) (parsePredicate text) = M.truth σ text :=
    fun text htext => hread.truth_parsePredicate σ (List.mem_append_left _ htext)
  have hown : ∀ text ∈ IfArm.condition? arm.header,
      exprTruth (τ σ) (parsePredicate text) = M.truth σ text :=
    fun text htext => hread.truth_parsePredicate σ
      (List.mem_append_right _ (by simpa [hheader] using htext))
  have hentered : M.ArmEntered σ site.headers site.index ↔
      (∀ text ∈ site.earlier, M.truth σ text ≠ .true) ∧
        ∀ text ∈ IfArm.condition? arm.header, M.truth σ text = .true := by
    constructor
    · rintro ⟨arm', harm', hprior, hcond⟩
      obtain rfl : arm.header = arm' := Option.some.inj (hheader.symm.trans harm')
      exact ⟨hprior, hcond⟩
    · rintro ⟨hprior, hcond⟩
      exact ⟨arm.header, hheader, hprior, hcond⟩
  have hsatisfied : exprTruth (τ σ) p = .true ↔ M.ArmEntered σ site.headers site.index ∧
      ∀ text ∈ site.earlier, M.truth σ text ≠ .unknown := by
    rw [satisfied_iff hp, hentered, hheader, Option.bind_some]
    constructor
    · rintro ⟨hfalse, htrue⟩
      refine ⟨⟨fun text htext h => ?_, fun text htext => hown text htext ▸ htrue text htext⟩,
        fun text htext h => ?_⟩
      · have := hfalse text htext
        rw [hearlier text htext, h] at this
        cases this
      · have := hfalse text htext
        rw [hearlier text htext, h] at this
        cases this
    · rintro ⟨⟨hnotTrue, htrue⟩, hknown⟩
      refine ⟨fun text htext => ?_, fun text htext => (hown text htext).trans (htrue text htext)⟩
      rw [hearlier text htext]
      cases hvalue : M.truth σ text with
      | «true» => exact absurd hvalue (hnotTrue text htext)
      | «false» => rfl
      | unknown => exact absurd hvalue (hknown text htext)
  have hsplit : M.ChainEntered σ (outer ++ [site]) ↔
      M.ChainEntered σ outer ∧ M.ArmEntered σ site.headers site.index := by
    simp [SqlMeaning.ChainEntered, or_imp, forall_and]
  rw [hsplit, hsatisfied]
  tauto

end

/-! ## An arm in an arm -/

local instance asciiPreconditions : Text.CaseMap := Text.asciiCase

def innerArms : List Arm :=
  [.mk { armId := "b0", armKind := .if, conditionText := some "1 = 0" } [],
   .mk { armId := "b1", armKind := .else } []]

def outerArms : List Arm :=
  [.mk { armId := "a0", armKind := .if, conditionText := some "X = 1" }
    [.ifRegion "inner" innerArms],
   .mk { armId := "a1", armKind := .else } []]

/-- `IF X = 1 THEN IF 1 = 0 THEN … ELSE … END IF; ELSE … END IF` -/
def nestedArms : ProcedureAst where
  nodeId := "procedure"
  parameters := []
  commitOnReturn := none
  body := [.ifRegion "outer" outerArms]
  distinct := by decide

def symbolTruth (σ : String → Option (ℚ × List Char)) (text : String) : Truth :=
  (symbolReading σ).truth (foldAtom text)

theorem variableMeaning_readAsWritten {texts : List String}
    (h : ∀ text ∈ texts, text ∈ ["X = 1", "1 = 0", "NOT (X = 1)"]) :
    variableMeaning.ReadAsWritten symbolTruth texts := by
  refine ⟨(variableMeaning_readFaithfully h).1, fun σ text _ atom _ => ?_⟩
  simp only [variableMeaning, readAtoms, symbolTruth, Function.comp]

theorem nestedArms_inner (index : Nat) (hindex : index < 2) :
    ArmChain nestedArms.body ([⟨"outer", outerArms, 0⟩] ++ [⟨"inner", innerArms, index⟩]) :=
  .inArm (s := ⟨"outer", outerArms, 0⟩) List.mem_cons_self rfl
    (.arm (s := ⟨"inner", innerArms, index⟩) List.mem_cons_self hindex)

/-- With `X` equal to 1 the inner ELSE is entered and its predicate is satisfied. -/
theorem inner_else_decided :
    ∃ p, regionPredicate nestedArms (.ifArm "inner" 1 .else) = some p ∧
      (variableMeaning.ChainEntered (fun _ => some (1, [])) [⟨"outer", outerArms, 0⟩,
        ⟨"inner", innerArms, 1⟩] ↔ exprTruth (symbolTruth fun _ => some (1, [])) p = .true) := by
  obtain ⟨p, hp, hdecides⟩ := precondition_decides_iff variableMeaning symbolTruth nestedArms
    [⟨"outer", outerArms, 0⟩] ⟨"inner", innerArms, 1⟩ (.mk { armId := "b1", armKind := .else } [])
    (nestedArms_inner 1 (by decide)) rfl (variableMeaning_readAsWritten (by decide +kernel))
  refine ⟨p, hp, (hdecides _).2 fun _ => ⟨fun _ => by decide +kernel, fun _ => ?_⟩⟩
  intro site hsite
  obtain rfl := List.mem_singleton.1 hsite
  exact ⟨_, rfl, by decide +kernel, by decide +kernel⟩

/-- With `X` NULL the outer ELSE is entered though its predicate is unknown, and the inner ELSE is
not entered though its predicate is satisfied. -/
theorem precondition_misses_null_and_nesting :
    (∃ p, regionPredicate nestedArms (.ifArm "outer" 1 .else) = some p ∧
      variableMeaning.ChainEntered (fun _ => none) [⟨"outer", outerArms, 1⟩] ∧
        exprTruth (symbolTruth fun _ => none) p ≠ .true) ∧
    ∃ p, regionPredicate nestedArms (.ifArm "inner" 1 .else) = some p ∧
      ¬ variableMeaning.ChainEntered (fun _ => none) [⟨"outer", outerArms, 0⟩,
        ⟨"inner", innerArms, 1⟩] ∧ exprTruth (symbolTruth fun _ => none) p = .true := by
  refine ⟨⟨_, rfl, ?_, by decide +kernel⟩, _, rfl, ?_, by decide +kernel⟩
  · intro site hsite
    obtain rfl := List.mem_singleton.1 hsite
    exact ⟨_, rfl, by decide +kernel, by decide +kernel⟩
  · intro hentered
    obtain ⟨arm, harm, -, hown⟩ := hentered _ List.mem_cons_self
    obtain rfl := Option.some.inj harm
    exact absurd (hown "X = 1" (by decide +kernel)) (by decide +kernel)

end AtlasDb.Semantics
