import Mathlib.Data.List.Basic

/-!
# Text helpers

The few methods of Python's `str` the sources call on SQL text. `upper` folds ASCII letters only,
which is all that keywords and ordinary identifiers hold; Python's folds the other letters too.
Where they decide a result the fold is the parameter `CaseMap` below.
-/

namespace AtlasDb.Core.Text

instance lawfulBEqListChar : LawfulBEq (List Char) := inferInstance

/-- The characters `str.strip()` removes and `str.split()` splits at. -/
def isSpace (c : Char) : Bool :=
  let n := c.toNat
  (9 ≤ n && n ≤ 13) || (28 ≤ n && n ≤ 32) || n = 0x85 || n = 0xA0 || n = 0x1680 ||
    (0x2000 ≤ n && n ≤ 0x200A) || n = 0x2028 || n = 0x2029 || n = 0x202F || n = 0x205F ||
    n = 0x3000

/-- The characters `str.splitlines()` breaks lines at. -/
def isLineBreak (c : Char) : Bool :=
  let n := c.toNat
  (10 ≤ n && n ≤ 13) || (28 ≤ n && n ≤ 30) || n = 0x85 || n = 0x2028 || n = 0x2029

def stripBy (p : Char → Bool) (text : List Char) : List Char :=
  ((text.dropWhile p).reverse.dropWhile p).reverse

/-- `str.strip()`. -/
def strip (text : List Char) : List Char := stripBy isSpace text

/-- `str.upper()` on ASCII text. -/
def upper (text : List Char) : List Char := text.map Char.toUpper

/-- `str.split()`: the maximal runs without white space. `word` is the run read so far,
backwards. -/
def splitAux (word : List Char) : List Char → List (List Char)
  | [] => if word = [] then [] else [word.reverse]
  | c :: cs =>
    if isSpace c then
      if word = [] then splitAux [] cs else word.reverse :: splitAux [] cs
    else splitAux (c :: word) cs

def split (text : List Char) : List (List Char) := splitAux [] text

/-- `" ".join(text.upper().split())`. -/
def normalized (text : String) : String :=
  String.ofList (List.intercalate [' '] (split (upper text.toList)))

def upperString (text : String) : String := String.ofList (upper text.toList)

/-- `str.upper()` on one character, `ß` to `SS` among them. The tables of Unicode are not part of
this development: any map with these laws, which the tables have. -/
class CaseMap where
  upper : Char → List Char
  ascii : ∀ c, c.toNat < 128 → upper c = [c.toUpper]
  idem : ∀ c, (upper c).flatMap upper = upper c
  space : ∀ c, isSpace c = true → upper c = [c]
  visible : ∀ c, isSpace c = false → upper c ≠ [] ∧ ∀ d ∈ upper c, isSpace d = false

/-- `str.upper()` with Unicode's tables. -/
def uppercase [CaseMap] (text : List Char) : List Char := text.flatMap CaseMap.upper

def uppercased [CaseMap] (text : String) : String := String.ofList (uppercase text.toList)

theorem isAlpha_iff {c : Char} : c.isAlpha = true ↔
    65 ≤ c.toNat ∧ c.toNat ≤ 90 ∨ 97 ≤ c.toNat ∧ c.toNat ≤ 122 := by
  change (decide (65 ≤ c.val ∧ c.val ≤ 90) ||
    (decide (97 ≤ c.val) && decide (c.val ≤ 122))) = true ↔ _
  simp only [Bool.or_eq_true, Bool.and_eq_true, decide_eq_true_eq, UInt32.le_iff_toNat_le]
  rfl

theorem toUpper_letter (c : Char) : c.toUpper = c ∨
    (97 ≤ c.toNat ∧ c.toNat ≤ 122) ∧ 65 ≤ c.toUpper.toNat ∧ c.toUpper.toNat ≤ 90 := by
  by_cases h : 97 ≤ c.val ∧ c.val ≤ 122
  · have hlower : 97 ≤ c.val.toNat ∧ c.val.toNat ≤ 122 :=
      ⟨UInt32.le_iff_toNat_le.mp h.1, UInt32.le_iff_toNat_le.mp h.2⟩
    have hval : c.toUpper.val = c.val + 4294967264 := by
      unfold Char.toUpper
      grind
    have hupper : c.toUpper.toNat = c.val.toNat - 32 := by
      show c.toUpper.val.toNat = c.val.toNat - 32
      rw [hval, UInt32.toNat_add]
      simp only [UInt32.reduceToNat]
      omega
    exact .inr ⟨hlower, by omega, by omega⟩
  · left
    unfold Char.toUpper
    grind

theorem toLower_letter (c : Char) : c.toLower = c ∨
    (65 ≤ c.toNat ∧ c.toNat ≤ 90) ∧ 97 ≤ c.toLower.toNat ∧ c.toLower.toNat ≤ 122 := by
  by_cases h : 65 ≤ c.val ∧ c.val ≤ 90
  · have hupper : 65 ≤ c.val.toNat ∧ c.val.toNat ≤ 90 :=
      ⟨UInt32.le_iff_toNat_le.mp h.1, UInt32.le_iff_toNat_le.mp h.2⟩
    have hval : c.toLower.val = c.val + 32 := by
      unfold Char.toLower
      grind
    have hlower : c.toLower.toNat = c.val.toNat + 32 := by
      show c.toLower.val.toNat = c.val.toNat + 32
      rw [hval, UInt32.toNat_add]
      simp only [UInt32.reduceToNat]
      omega
    exact .inr ⟨hupper, by omega, by omega⟩
  · left
    unfold Char.toLower
    grind

theorem toUpper_toUpper (c : Char) : c.toUpper.toUpper = c.toUpper := by
  rcases toUpper_letter c with h | ⟨-, hc⟩
  · rw [h, h]
  · rcases toUpper_letter c.toUpper with h | ⟨hlower, -⟩
    · exact h
    · omega

theorem toLower_toLower (c : Char) : c.toLower.toLower = c.toLower := by
  rcases toLower_letter c with h | ⟨-, hc⟩
  · rw [h, h]
  · rcases toLower_letter c.toLower with h | ⟨hupper, -⟩
    · exact h
    · omega

theorem upper_upper (text : List Char) : upper (upper text) = upper text := by
  simp [upper, Function.comp_def, toUpper_toUpper]

theorem upperString_upperString (text : String) :
    upperString (upperString text) = upperString text := by
  rw [upperString, upperString, String.toList_ofList, upper_upper]

theorem isSpace_of_letter {c : Char}
    (h : 65 ≤ c.toNat ∧ c.toNat ≤ 90 ∨ 97 ≤ c.toNat ∧ c.toNat ≤ 122) :
    isSpace c = false := by
  simp [isSpace]
  omega

theorem isSpace_toUpper (c : Char) : isSpace c.toUpper = isSpace c := by
  rcases toUpper_letter c with h | ⟨hlower, hupper⟩
  · rw [h]
  · rw [isSpace_of_letter (.inr hlower), isSpace_of_letter (.inl hupper)]

theorem dropWhile_upper (text : List Char) :
    (upper text).dropWhile isSpace = upper (text.dropWhile isSpace) := by
  rw [upper, List.dropWhile_map]
  simp [Function.comp_def, isSpace_toUpper, upper]

theorem strip_upper (text : List Char) : strip (upper text) = upper (strip text) := by
  have hreverse (t : List Char) : (upper t).reverse = upper t.reverse := by simp [upper]
  rw [strip, stripBy, dropWhile_upper, hreverse, dropWhile_upper, hreverse]
  rfl

/-! ### Unicode upper case -/

theorem uppercase_uppercase [CaseMap] (text : List Char) :
    uppercase (uppercase text) = uppercase text := by
  rw [uppercase, uppercase, List.flatMap_assoc]
  congr 1
  funext c
  exact CaseMap.idem c

theorem uppercased_uppercased [CaseMap] (text : String) :
    uppercased (uppercased text) = uppercased text := by
  rw [uppercased, uppercased, String.toList_ofList, uppercase_uppercase]

theorem dropWhile_flatMap {f : Char → List Char} (hspace : ∀ c, isSpace c = true → f c = [c])
    (hvisible : ∀ c, isSpace c = false → f c ≠ [] ∧ ∀ d ∈ f c, isSpace d = false)
    (text : List Char) :
    (text.flatMap f).dropWhile isSpace = (text.dropWhile isSpace).flatMap f := by
  induction text with
  | nil => rfl
  | cons c text ih =>
    rw [List.flatMap_cons]
    cases hc : isSpace c with
    | true => simpa [hspace c hc, hc] using ih
    | false =>
      obtain ⟨hne, hall⟩ := hvisible c hc
      obtain ⟨d, ds, hd⟩ := List.exists_cons_of_ne_nil hne
      have hfirst : isSpace d = false := hall d (by simp [hd])
      simp [hd, hc, hfirst]

theorem strip_uppercase [CaseMap] (text : List Char) :
    strip (uppercase text) = uppercase (strip text) := by
  have hback : ∀ t : List Char, (t.flatMap CaseMap.upper).reverse =
      t.reverse.flatMap fun c => (CaseMap.upper c).reverse :=
    fun t => List.reverse_flatMap
  have hspace : ∀ c, isSpace c = true → (CaseMap.upper c).reverse = [c] := by
    intro c hc
    rw [CaseMap.space c hc]
    rfl
  have hvisible : ∀ c, isSpace c = false →
      (CaseMap.upper c).reverse ≠ [] ∧ ∀ d ∈ (CaseMap.upper c).reverse, isSpace d = false := by
    simpa using CaseMap.visible
  rw [strip, stripBy, uppercase, dropWhile_flatMap CaseMap.space CaseMap.visible, hback,
    dropWhile_flatMap hspace hvisible, strip, stripBy, uppercase, List.reverse_flatMap]
  simp [Function.comp_def]

/-- Letters other than those of ASCII as they stand. -/
@[reducible] def asciiCase : CaseMap where
  upper := fun c => [c.toUpper]
  ascii := fun _ _ => rfl
  idem := fun c => by simp [toUpper_toUpper]
  space := fun c hc => by
    rcases toUpper_letter c with h | ⟨hlower, -⟩
    · rw [h]
    · rw [isSpace_of_letter (.inr hlower)] at hc
      cases hc
  visible := fun c hc => by simpa [isSpace_toUpper] using hc

theorem dropWhile_eq_self {α : Type} {p : α → Bool} {xs : List α}
    (h : ∀ x ∈ xs.head?, p x = false) : xs.dropWhile p = xs := by
  cases xs with
  | nil => rfl
  | cons x xs => rw [List.dropWhile_cons_of_neg (by simp [h x rfl])]

theorem stripBy_eq_self {p : Char → Bool} {text : List Char} (hhead : ∀ y ∈ text.head?, p y = false)
    (hlast : ∀ y ∈ text.getLast?, p y = false) : stripBy p text = text := by
  rw [stripBy, dropWhile_eq_self hhead, dropWhile_eq_self (by simpa using hlast),
    List.reverse_reverse]

theorem head_dropWhile {p : Char → Bool} {text : List Char} :
    ∀ y ∈ (text.dropWhile p).head?, p y = false := by
  intro y hy
  have h := List.head?_dropWhile_not p text
  rw [Option.mem_def.mp hy] at h
  exact h

theorem head_strip {text : List Char} : ∀ y ∈ (strip text).head?, isSpace y = false := by
  intro y hy
  have hsuffix := List.dropWhile_suffix isSpace (l := (text.dropWhile isSpace).reverse)
  have hfront := List.reverse_prefix.mpr hsuffix
  rw [List.reverse_reverse] at hfront
  obtain ⟨rest, hrest⟩ := hfront
  refine @head_dropWhile isSpace text y ?_
  rw [← hrest, List.head?_append, strip, stripBy] at *
  rw [Option.mem_def.mp hy]
  rfl

theorem getLast_strip {text : List Char} : ∀ y ∈ (strip text).getLast?, isSpace y = false := by
  intro y hy
  rw [strip, stripBy, List.getLast?_reverse] at hy
  exact head_dropWhile y hy

theorem strip_strip (text : List Char) : strip (strip text) = strip text :=
  stripBy_eq_self head_strip getLast_strip

theorem strip_eq_self_iff {text : List Char} : strip text = text ↔
    (∀ c ∈ text.head?, isSpace c = false) ∧ ∀ c ∈ text.getLast?, isSpace c = false := by
  constructor
  · intro h
    rw [← h]
    exact ⟨head_strip, getLast_strip⟩
  · rintro ⟨hfirst, hlast⟩
    exact stripBy_eq_self hfirst hlast

/-- `needle in text`. -/
def containsList (needle : List Char) : List Char → Bool
  | [] => needle.isEmpty
  | c :: cs => needle.isPrefixOf (c :: cs) || containsList needle cs

end AtlasDb.Core.Text
