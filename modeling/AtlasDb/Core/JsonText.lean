import Mathlib.Data.List.TakeWhile
import AtlasDb.Core.CanonicalJson

/-!
# Reading JSON text

`json.loads` on what `canonical_json_bytes` prints. The reader follows the scanner of the standard
library: a value is told by its first character, whitespace may stand between tokens, and a later
member of an object replaces an earlier one of the same key. Reading undoes printing
(`loads_render`), so a printed document determines the document (`render_injective`), and so do its
bytes (`utf8_injective`).
-/

namespace AtlasDb.Core

namespace Json

/-! ## Strings -/

def isBlank (c : Char) : Bool := c = ' ' || c = '\t' || c = '\n' || c = '\r'

/-- Whitespace between tokens. -/
def skip (text : List Char) : List Char := text.dropWhile isBlank

def hexValue (c : Char) : Option Nat :=
  if '0' ≤ c ∧ c ≤ '9' then some (c.toNat - 48)
  else if 'a' ≤ c ∧ c ≤ 'f' then some (c.toNat - 87)
  else if 'A' ≤ c ∧ c ≤ 'F' then some (c.toNat - 55)
  else none

/-- The four digits after `\u`. -/
def codeUnit (a b c d : Char) : Option Nat := do
  let a ← hexValue a
  let b ← hexValue b
  let c ← hexValue c
  let d ← hexValue d
  some (a * 4096 + b * 256 + c * 16 + d)

/-- The character behind a backslash. -/
def unescape (c : Char) : Option Char :=
  if c = '"' ∨ c = '\\' ∨ c = '/' then some c
  else if c = 'b' then some (Char.ofNat 8)
  else if c = 'f' then some (Char.ofNat 12)
  else if c = 'n' then some '\n'
  else if c = 'r' then some '\r'
  else if c = 't' then some '\t'
  else none

/-- A string literal behind its opening quote: the characters, and what follows the closing quote.
An escaped surrogate has no character; the canonical text holds none. -/
def readString : List Char → Option (List Char × List Char)
  | [] => none
  | '\\' :: 'u' :: a :: b :: c :: d :: rest => do
      let code ← codeUnit a b c d
      if 0xD800 ≤ code ∧ code < 0xE000 then none
      else
        let (text, rest) ← readString rest
        some (Char.ofNat code :: text, rest)
  | '\\' :: c :: rest => do
      let c ← unescape c
      let (text, rest) ← readString rest
      some (c :: text, rest)
  | c :: rest =>
    if c = '"' then some ([], rest)
    else if c.toNat < 32 then none
    else do
      let (text, rest) ← readString rest
      some (c :: text, rest)

/-! ## Numbers -/

def isNumberChar (c : Char) : Bool :=
  c.isDigit || c = '-' || c = '+' || c = '.' || c = 'e' || c = 'E'

def isDigits (text : List Char) : Bool := text ≠ [] && text.all Char.isDigit

/-- No leading zero. -/
def isNatural (text : List Char) : Bool := isDigits text && (text = ['0'] || text.head? ≠ some '0')

def dropSign : List Char → List Char
  | '-' :: text => text
  | text => text

def isInteger (text : List Char) : Bool := isNatural (dropSign text)

/-- Nothing, or an exponent. -/
def isExponent : List Char → Bool
  | [] => true
  | c :: text =>
    (c = 'e' || c = 'E') &&
      match text with
      | '+' :: digits | '-' :: digits => isDigits digits
      | digits => isDigits digits

/-- A number with a fraction or an exponent: what is printed for a finite float. -/
def isFloat (text : List Char) : Bool :=
  let whole := (dropSign text).takeWhile Char.isDigit
  match (dropSign text).dropWhile Char.isDigit with
  | [] => false
  | '.' :: rest =>
    isNatural whole && isDigits (rest.takeWhile Char.isDigit) &&
      isExponent (rest.dropWhile Char.isDigit)
  | rest => isNatural whole && isExponent rest

def integerValue : List Char → Int
  | '-' :: digits => -(Nat.ofDigitChars 10 digits 0 : Nat)
  | digits => (Nat.ofDigitChars 10 digits 0 : Nat)

/-- A number; of a float the text is kept, which is how it is printed again. -/
def readNumber (text : List Char) : Option (Json × List Char) :=
  let token := text.takeWhile isNumberChar
  let rest := text.dropWhile isNumberChar
  if isInteger token then some (int (integerValue token), rest)
  else if isFloat token then some (float (String.ofList token), rest)
  else none

/-! ## Documents -/

def readLiteral : List Char → Option (Json × List Char)
  | 'n' :: 'u' :: 'l' :: 'l' :: rest => some (null, rest)
  | 't' :: 'r' :: 'u' :: 'e' :: rest => some (bool true, rest)
  | 'f' :: 'a' :: 'l' :: 's' :: 'e' :: rest => some (bool false, rest)
  | text => readNumber text

/-- `dict` of the members in their order: the last value of a key stands at its first place. -/
def dictOf (members : List (String × Json)) : List (String × Json) :=
  members.foldl (fun dict m =>
    if m.1 ∈ dict.map Prod.fst then dict.map fun old => if old.1 = m.1 then m else old
    else dict ++ [m]) []

mutual

def readValue : Nat → List Char → Option (Json × List Char)
  | 0, _ => none
  | _, [] => none
  | fuel + 1, c :: text =>
    if c = '"' then do
      let (s, rest) ← readString text
      some (str (String.ofList s), rest)
    else if c = '[' then
      if (skip text).head? = some ']' then some (arr [], (skip text).tail)
      else do
        let (items, rest) ← readItems fuel (skip text)
        some (arr items, rest)
    else if c = '\x7b' then
      if (skip text).head? = some '\x7d' then some (obj [], (skip text).tail)
      else do
        let (members, rest) ← readMembers fuel (skip text)
        some (obj (dictOf members), rest)
    else readLiteral (c :: text)

def readItems : Nat → List Char → Option (List Json × List Char)
  | 0, _ => none
  | fuel + 1, text => do
      let (item, rest) ← readValue fuel text
      match skip rest with
      | ']' :: rest => some ([item], rest)
      | ',' :: rest => do
          let (items, rest) ← readItems fuel (skip rest)
          some (item :: items, rest)
      | _ => none

def readMembers : Nat → List Char → Option (List (String × Json) × List Char)
  | 0, _ => none
  | fuel + 1, text => do
      let (key, rest) ← match text with
        | '"' :: text => readString text
        | _ => none
      let rest ← match skip rest with
        | ':' :: rest => some (skip rest)
        | _ => none
      let (value, rest) ← readValue fuel rest
      match skip rest with
      | '\x7d' :: rest => some ([(String.ofList key, value)], rest)
      | ',' :: rest => do
          let (members, rest) ← readMembers fuel (skip rest)
          some ((String.ofList key, value) :: members, rest)
      | _ => none

end

/-- `json.loads`. -/
def loads (text : List Char) : Option Json := do
  let (value, rest) ← readValue (text.length + 1) (skip text)
  if skip rest = [] then some value else none

/-! ## Reading undoes printing: strings -/

theorem hexValue_hexDigit : ∀ n < 16, hexValue (hexDigit n) = some n := by decide

/-- An escaped character is read back. -/
theorem readString_escapeChar (c : Char) (more : List Char) :
    readString (escapeChar c ++ more) = (readString more).map fun r => (c :: r.1, r.2) := by
  unfold escapeChar
  have hbind : ∀ c : Char, ((readString more).bind fun r => some (c :: r.1, r.2))
      = (readString more).map fun r => (c :: r.1, r.2) := fun c => by
    cases readString more <;> rfl
  split
  · next h => subst h; exact hbind _
  split
  · next h => subst h; exact hbind _
  split
  · next h => subst h; exact hbind _
  split
  · next h => subst h; exact hbind _
  split
  · next h => subst h; exact hbind _
  split
  · next h =>
      rw [← Char.ofNat_toNat c, h]
      exact hbind _
  split
  · next h =>
      rw [← Char.ofNat_toNat c, h]
      exact hbind _
  split
  · next hlow =>
      have hcode : codeUnit '0' '0' (hexDigit (c.toNat / 16)) (hexDigit (c.toNat % 16))
          = some c.toNat := by
        unfold codeUnit
        rw [hexValue_hexDigit _ (by omega), hexValue_hexDigit _ (by omega)]
        simp only [hexValue]
        simp
        omega
      show (codeUnit '0' '0' _ _).bind _ = _
      rw [hcode, Option.bind_some, if_neg (by omega), Char.ofNat_toNat]
      exact hbind c
  · next hquote hslash _ _ _ _ _ hlow =>
      rw [List.cons_append, List.nil_append, readString]
      · rw [if_neg hquote, if_neg hlow]
        exact hbind c
      · rintro _ _ _ _ _ rfl
        exact absurd rfl hslash
      · rintro _ _ rfl
        exact absurd rfl hslash

theorem readString_quoted (text rest : List Char) :
    readString (text.flatMap escapeChar ++ '"' :: rest) = some (text, rest) := by
  induction text with
  | nil => rfl
  | cons c text ih =>
    rw [List.flatMap_cons, List.append_assoc, readString_escapeChar, ih]
    rfl

/-! ## Reading undoes printing: numbers -/

variable {text : List Char} {c : Char}

theorem isDigit_toDigits {n : Nat} (h : c ∈ Nat.toDigits 10 n) : c.isDigit = true :=
  Nat.isDigit_of_mem_toDigits (by decide) (by decide) h

theorem head_toDigits {n : Nat} (h : 0 < n) : (Nat.toDigits 10 n).head? ≠ some '0' := by
  induction n using Nat.strongRecOn with
  | _ n ih =>
    rw [Nat.toDigits_eq_if (by decide)]
    split
    · next hlt =>
        have hdigit : ∀ d < 10, 0 < d → d.digitChar ≠ '0' := by decide
        intro heq
        exact hdigit n hlt h (Option.some.inj heq)
    · next hle =>
        rw [List.head?_append_of_ne_nil _ Nat.toDigits_ne_nil]
        exact ih (n / 10) (by omega) (by omega)

theorem isNatural_toDigits (n : Nat) : isNatural (Nat.toDigits 10 n) = true := by
  have hdigits : isDigits (Nat.toDigits 10 n) = true := by
    unfold isDigits
    rw [Bool.and_eq_true, decide_eq_true_iff, List.all_eq_true]
    exact ⟨Nat.toDigits_ne_nil, fun c hc => isDigit_toDigits hc⟩
  unfold isNatural
  rw [hdigits, Bool.true_and]
  rcases Nat.eq_zero_or_pos n with rfl | hpos
  · rfl
  · rw [Bool.or_eq_true]
    exact .inr (decide_eq_true (head_toDigits hpos))

theorem toList_toString_nat (n : Nat) : (toString (n : Int)).toList = Nat.toDigits 10 n := by
  show (Nat.repr n).toList = _
  exact Nat.toList_repr

theorem toList_toString_neg (n : Nat) :
    (toString (Int.negSucc n)).toList = '-' :: Nat.toDigits 10 (n + 1) := by
  show ("-" ++ Nat.repr (n + 1)).toList = _
  rw [String.toList_append, Nat.toList_repr]
  rfl

theorem toDigits_eq_cons (n : Nat) :
    ∃ c digits, Nat.toDigits 10 n = c :: digits ∧ c.isDigit = true := by
  cases h : Nat.toDigits 10 n with
  | nil => exact absurd h Nat.toDigits_ne_nil
  | cons c digits => exact ⟨c, digits, rfl, isDigit_toDigits (h ▸ List.mem_cons_self)⟩

theorem dropSign_of_isDigit (h : c.isDigit = true) :
    dropSign (c :: text) = c :: text := by
  unfold dropSign
  split
  · next heq =>
      rw [(List.cons.inj heq).1] at h
      exact absurd h (by decide)
  · rfl

theorem integerValue_of_isDigit (h : c.isDigit = true) :
    integerValue (c :: text) = (Nat.ofDigitChars 10 (c :: text) 0 : Nat) := by
  unfold integerValue
  split
  · next heq =>
      rw [(List.cons.inj heq).1] at h
      exact absurd h (by decide)
  · rfl

theorem integer_toString (i : Int) :
    isInteger (toString i).toList = true ∧ integerValue (toString i).toList = i := by
  cases i with
  | ofNat n =>
    rw [Int.ofNat_eq_natCast, toList_toString_nat]
    obtain ⟨c, digits, heq, hc⟩ := toDigits_eq_cons n
    unfold isInteger
    rw [heq, dropSign_of_isDigit hc, integerValue_of_isDigit hc, ← heq]
    exact ⟨isNatural_toDigits n, by rw [Nat.ofDigitChars_ten_toDigits]⟩
  | negSucc n =>
    rw [toList_toString_neg]
    refine ⟨isNatural_toDigits (n + 1), ?_⟩
    show -((Nat.ofDigitChars 10 (Nat.toDigits 10 (n + 1)) 0 : Nat) : Int) = _
    rw [Nat.ofDigitChars_ten_toDigits]
    rfl

/-- What follows a value does not continue a number. -/
def Stops (rest : List Char) : Prop := ∀ c ∈ rest.head?, isNumberChar c = false

theorem takeWhile_token {token rest : List Char} (h : ∀ c ∈ token, isNumberChar c = true)
    (hrest : Stops rest) : (token ++ rest).takeWhile isNumberChar = token := by
  rw [List.takeWhile_append_of_pos h]
  cases rest with
  | nil => exact List.append_nil _
  | cons c rest =>
    rw [List.takeWhile_cons_of_neg (by rw [hrest c rfl]; decide)]
    exact List.append_nil _

theorem dropWhile_token {token rest : List Char} (h : ∀ c ∈ token, isNumberChar c = true)
    (hrest : Stops rest) : (token ++ rest).dropWhile isNumberChar = rest := by
  rw [List.dropWhile_append_of_pos h]
  cases rest with
  | nil => rfl
  | cons c rest => exact List.dropWhile_cons_of_neg (by rw [hrest c rfl]; decide)

theorem isNumberChar_of_isDigit (h : c.isDigit = true) : isNumberChar c = true := by
  unfold isNumberChar
  rw [h]
  rfl

theorem isNumberChar_toString {i : Int} (h : c ∈ (toString i).toList) :
    isNumberChar c = true := by
  cases i with
  | ofNat n =>
    rw [Int.ofNat_eq_natCast, toList_toString_nat] at h
    exact isNumberChar_of_isDigit (isDigit_toDigits h)
  | negSucc n =>
    rw [toList_toString_neg] at h
    rcases List.mem_cons.mp h with rfl | h
    · rfl
    · exact isNumberChar_of_isDigit (isDigit_toDigits h)

theorem readNumber_toString (i : Int) {rest : List Char} (hrest : Stops rest) :
    readNumber ((toString i).toList ++ rest) = some (int i, rest) := by
  have hchars : ∀ c ∈ (toString i).toList, isNumberChar c = true :=
    fun c hc => isNumberChar_toString hc
  unfold readNumber
  simp only
  rw [takeWhile_token hchars hrest, dropWhile_token hchars hrest, if_pos (integer_toString i).1,
    (integer_toString i).2]

/-! A float is printed with a point or an exponent, so it is not read as an integer. -/

theorem isDigits_chars (h : isDigits text = true) (hc : c ∈ text) :
    isNumberChar c = true :=
  isNumberChar_of_isDigit (List.all_eq_true.mp (Bool.and_eq_true_iff.mp h).2 c hc)

theorem isNatural_chars (h : isNatural text = true) (hc : c ∈ text) :
    isNumberChar c = true := isDigits_chars (Bool.and_eq_true_iff.mp h).1 hc

theorem isExponent_chars (h : isExponent text = true) (hc : c ∈ text) : isNumberChar c = true := by
  cases text with
  | nil => cases hc
  | cons e text =>
    obtain ⟨he, hdigits⟩ := Bool.and_eq_true_iff.mp h
    rcases List.mem_cons.mp hc with rfl | hc
    · rcases Bool.or_eq_true_iff.mp he with he | he
      · rw [of_decide_eq_true he]; rfl
      · rw [of_decide_eq_true he]; rfl
    · revert hdigits
      split
      · intro hdigits
        rcases List.mem_cons.mp hc with rfl | hc
        · rfl
        · exact isDigits_chars hdigits hc
      · intro hdigits
        rcases List.mem_cons.mp hc with rfl | hc
        · rfl
        · exact isDigits_chars hdigits hc
      · exact fun hdigits => isDigits_chars hdigits hc

theorem isFloat_parts (h : isFloat text = true) :
    isNatural ((dropSign text).takeWhile Char.isDigit) = true ∧
      (dropSign text).dropWhile Char.isDigit ≠ [] ∧
        ∀ c ∈ (dropSign text).dropWhile Char.isDigit, isNumberChar c = true := by
  unfold isFloat at h
  simp only at h
  split at h
  · cases h
  · next rest heq =>
      obtain ⟨h, hexp⟩ := Bool.and_eq_true_iff.mp h
      obtain ⟨hwhole, hfraction⟩ := Bool.and_eq_true_iff.mp h
      refine ⟨hwhole, by rw [heq]; exact List.cons_ne_nil _ _, fun c hc => ?_⟩
      rw [heq] at hc
      rcases List.mem_cons.mp hc with rfl | hc
      · rfl
      · rw [← List.takeWhile_append_dropWhile (p := Char.isDigit) (l := rest)] at hc
        rcases List.mem_append.mp hc with hc | hc
        · exact isDigits_chars hfraction hc
        · exact isExponent_chars hexp hc
  · next hne _ =>
      obtain ⟨hwhole, hexp⟩ := Bool.and_eq_true_iff.mp h
      exact ⟨hwhole, hne, fun c hc => isExponent_chars hexp hc⟩

theorem isFloat_chars (h : isFloat text = true) :
    ∀ c ∈ text, isNumberChar c = true := by
  obtain ⟨hwhole, -, hrest⟩ := isFloat_parts h
  have hunsigned : ∀ c ∈ dropSign text, isNumberChar c = true := by
    intro c hc
    rw [← List.takeWhile_append_dropWhile (p := Char.isDigit) (l := dropSign text)] at hc
    rcases List.mem_append.mp hc with hc | hc
    · exact isNatural_chars hwhole hc
    · exact hrest c hc
  intro c hc
  revert hunsigned
  unfold dropSign
  split
  · intro hunsigned
    rcases List.mem_cons.mp hc with rfl | hc
    · rfl
    · exact hunsigned c hc
  · exact fun hunsigned => hunsigned c hc

theorem not_isInteger_of_isFloat (h : isFloat text = true) :
    isInteger text = false := by
  obtain ⟨-, hrest, -⟩ := isFloat_parts h
  rw [Bool.eq_false_iff]
  intro hinteger
  have hall := (Bool.and_eq_true_iff.mp (Bool.and_eq_true_iff.mp hinteger).1).2
  exact hrest (List.dropWhile_eq_nil_iff.mpr (List.all_eq_true.mp hall))

theorem readNumber_float {text rest : List Char} (h : isFloat text = true) (hrest : Stops rest) :
    readNumber (text ++ rest) = some (float (String.ofList text), rest) := by
  unfold readNumber
  simp only
  rw [takeWhile_token (isFloat_chars h) hrest, dropWhile_token (isFloat_chars h) hrest,
    if_neg (by rw [not_isInteger_of_isFloat h]; decide), if_pos h]

/-- A number begins with a sign or a digit. -/
def NumberHead (c : Char) : Prop := c = '-' ∨ c.isDigit = true

theorem head_toString (i : Int) :
    ∃ c digits, (toString i).toList = c :: digits ∧ NumberHead c := by
  cases i with
  | ofNat n =>
    obtain ⟨c, digits, heq, hc⟩ := toDigits_eq_cons n
    exact ⟨c, digits, by rw [Int.ofNat_eq_natCast, toList_toString_nat, heq], .inr hc⟩
  | negSucc n => exact ⟨'-', _, toList_toString_neg n, .inl rfl⟩

theorem head_float (h : isFloat text = true) :
    ∃ c rest, text = c :: rest ∧ NumberHead c := by
  obtain ⟨hwhole, -, -⟩ := isFloat_parts h
  cases text with
  | nil => exact absurd h (by decide)
  | cons c rest =>
    refine ⟨c, rest, rfl, ?_⟩
    by_cases hsign : c = '-'
    · exact .inl hsign
    · have hdrop : dropSign (c :: rest) = c :: rest := by
        unfold dropSign
        split
        · next heq => exact absurd (List.cons.inj heq).1 hsign
        · rfl
      rw [hdrop] at hwhole
      by_cases hc : c.isDigit = true
      · exact .inr hc
      · rw [List.takeWhile_cons_of_neg hc] at hwhole
        exact absurd hwhole (by decide)

theorem NumberHead.ne {c d : Char} (h : NumberHead c) (hd : d ≠ '-' ∧ d.isDigit = false) :
    c ≠ d := by
  rintro rfl
  rcases h with h | h
  · exact hd.1 h
  · rw [hd.2] at h
    cases h

theorem readLiteral_number (h : NumberHead c) :
    readLiteral (c :: text) = readNumber (c :: text) := by
  unfold readLiteral
  split
  · next heq => exact absurd (List.cons.inj heq).1 (h.ne (by decide))
  · next heq => exact absurd (List.cons.inj heq).1 (h.ne (by decide))
  · next heq => exact absurd (List.cons.inj heq).1 (h.ne (by decide))
  · rfl

theorem readValue_number (h : NumberHead c) (fuel : Nat) :
    readValue (fuel + 1) (c :: text) = readNumber (c :: text) := by
  rw [readValue, if_neg (h.ne (by decide)), if_neg (h.ne (by decide)), if_neg (h.ne (by decide)),
    readLiteral_number h]

/-! ## Reading undoes printing: documents -/

mutual

/-- A document that can be printed: every float is the text of one, and no object has a key
twice. -/
def Printable : Json → Prop
  | float repr => isFloat repr.toList = true
  | arr items => PrintableList items
  | obj members => (members.map Prod.fst).Nodup ∧ PrintableMembers members
  | _ => True

def PrintableList : List Json → Prop
  | [] => True
  | j :: js => Printable j ∧ PrintableList js

def PrintableMembers : List (String × Json) → Prop
  | [] => True
  | (_, j) :: ms => Printable j ∧ PrintableMembers ms

end

/-- What a value can begin with. -/
def ValueHead (c : Char) : Prop := isBlank c = false ∧ c ≠ ']'

instance (c : Char) : Decidable (ValueHead c) :=
  inferInstanceAs (Decidable (isBlank c = false ∧ c ≠ ']'))

theorem NumberHead.valueHead {c : Char} (h : NumberHead c) : ValueHead c := by
  refine ⟨?_, h.ne (by decide)⟩
  unfold isBlank
  rw [decide_eq_false (h.ne (by decide)), decide_eq_false (h.ne (by decide)),
    decide_eq_false (h.ne (by decide)), decide_eq_false (h.ne (by decide))]
  rfl

theorem render_head {j : Json} (h : Printable j) :
    ∃ c text, render j = c :: text ∧ ValueHead c := by
  cases j with
  | null => exact ⟨_, _, rfl, by decide⟩
  | bool b =>
    cases b with
    | true => exact ⟨_, _, rfl, by decide⟩
    | false => exact ⟨_, _, rfl, by decide⟩
  | int i =>
    obtain ⟨c, text, heq, hc⟩ := head_toString i
    exact ⟨c, text, heq, hc.valueHead⟩
  | float repr =>
    obtain ⟨c, text, heq, hc⟩ := head_float h
    exact ⟨c, text, heq, hc.valueHead⟩
  | str s => exact ⟨_, _, rfl, by decide⟩
  | arr items => exact ⟨_, _, rfl, by decide⟩
  | obj members => exact ⟨_, _, rfl, by decide⟩

theorem skip_of_head {c : Char} {text : List Char} (h : isBlank c = false) :
    skip (c :: text) = c :: text := List.dropWhile_cons_of_neg (by rw [h]; decide)

theorem dictOf_of_nodup {members : List (String × Json)} (h : (members.map Prod.fst).Nodup) :
    dictOf members = members := by
  have hfold : ∀ (rest done : List (String × Json)), ((done ++ rest).map Prod.fst).Nodup →
      rest.foldl (fun dict m =>
        if m.1 ∈ dict.map Prod.fst then dict.map fun old => if old.1 = m.1 then m else old
        else dict ++ [m]) done = done ++ rest := by
    intro rest
    induction rest with
    | nil => exact fun done _ => (List.append_nil done).symm
    | cons m rest ih =>
      intro done hnodup
      have hfresh : m.1 ∉ done.map Prod.fst := by
        rw [List.map_append, List.map_cons] at hnodup
        exact fun hm => List.disjoint_of_nodup_append hnodup hm List.mem_cons_self
      rw [List.foldl_cons, if_neg hfresh, ih (done ++ [m]) (by simpa using hnodup)]
      simp
  exact hfold members [] h

theorem stops_cons {c : Char} {rest : List Char} (h : isNumberChar c = false) :
    Stops (c :: rest) := by
  rintro _ ⟨⟩
  exact h

theorem renderList_head {j : Json} (js : List Json) (h : Printable j) :
    ∃ c text, renderList (j :: js) = c :: text ∧ ValueHead c := by
  obtain ⟨c, text, heq, hc⟩ := render_head h
  cases js with
  | nil => exact ⟨c, text, heq, hc⟩
  | cons k ks =>
    refine ⟨c, text ++ ',' :: renderList (k :: ks), ?_, hc⟩
    rw [renderList, heq]
    · rfl
    · exact List.cons_ne_nil _ _

theorem renderMembers_head (m : String × Json) (ms : List (String × Json)) :
    ∃ text, renderMembers (m :: ms) = '"' :: text := by
  obtain ⟨k, j⟩ := m
  cases ms with
  | nil => exact ⟨_, rfl⟩
  | cons m ms => exact ⟨_, rfl⟩

variable {fuel : Nat} {text rest : List Char}

theorem readValue_quote {s : String} {rest : List Char} :
    readValue (fuel + 1) (quote s ++ rest) = some (str s, rest) := by
  rw [quote, List.cons_append, List.append_assoc, readValue, if_pos rfl]
  show (readString (_ ++ '"' :: rest)).bind _ = _
  rw [readString_quoted, Option.bind_some]
  show some (str (String.ofList s.toList), rest) = _
  rw [String.ofList_toList]

theorem readValue_arr {items : List Json} (hskip : skip text = text) (hhead : text.head? ≠ some ']')
    (h : readItems fuel text = some (items, rest)) :
    readValue (fuel + 1) ('[' :: text) = some (arr items, rest) := by
  rw [readValue, if_neg (by decide), if_pos rfl, hskip, if_neg hhead, h]
  rfl

theorem readValue_obj {members : List (String × Json)}
    (hskip : skip text = text) (hhead : text.head? ≠ some '\x7d')
    (h : readMembers fuel text = some (members, rest)) :
    readValue (fuel + 1) ('\x7b' :: text) = some (obj (dictOf members), rest) := by
  rw [readValue, if_neg (by decide), if_neg (by decide), if_pos rfl, hskip, if_neg hhead, h]
  rfl

theorem readItems_cons {item : Json} (h : readValue fuel text = some (item, rest)) :
    readItems (fuel + 1) text = match skip rest with
      | ']' :: rest => some ([item], rest)
      | ',' :: rest => (readItems fuel (skip rest)).map fun r => (item :: r.1, r.2)
      | _ => none := by
  rw [readItems, h]
  show (match skip rest with
    | ']' :: rest => some ([item], rest)
    | ',' :: rest => (readItems fuel (skip rest)).bind fun r => some (item :: r.1, r.2)
    | _ => none) = _
  split
  · rfl
  · cases readItems fuel (skip _) <;> rfl
  · rfl

theorem readMembers_cons {key : String} {value : Json}
    (hhead : skip text = text) (h : readValue fuel text = some (value, rest)) :
    readMembers (fuel + 1) (quote key ++ ':' :: text) = match skip rest with
      | '\x7d' :: rest => some ([(key, value)], rest)
      | ',' :: rest => (readMembers fuel (skip rest)).map fun r => ((key, value) :: r.1, r.2)
      | _ => none := by
  have hkey : readString (key.toList.flatMap escapeChar ++ '"' :: ':' :: text)
      = some (key.toList, ':' :: text) := readString_quoted _ _
  rw [quote, List.cons_append, List.append_assoc, readMembers]
  show ((readString (_ ++ '"' :: ':' :: text)).bind _) = _
  rw [hkey, Option.bind_some]
  show ((some (skip text)).bind _) = _
  rw [hhead, Option.bind_some]
  show (readValue fuel text).bind _ = _
  rw [h]
  show (match skip rest with
    | '\x7d' :: rest => some ([(String.ofList key.toList, value)], rest)
    | ',' :: rest => (readMembers fuel (skip rest)).bind fun r =>
      some ((String.ofList key.toList, value) :: r.1, r.2)
    | _ => none) = _
  rw [String.ofList_toList]
  split
  · rfl
  · cases readMembers fuel (skip _) <;> rfl
  · rfl

mutual

/-- A rendered value is read back, whatever follows. -/
theorem readValue_render : ∀ (j : Json) (fuel : Nat) (rest : List Char), Printable j → Stops rest →
    (render j).length ≤ fuel → readValue fuel (render j ++ rest) = some (j, rest)
  | j, 0, rest, h, _, hfuel => by
      obtain ⟨c, text, heq, -⟩ := render_head h
      rw [heq] at hfuel
      cases hfuel
  | .null, fuel + 1, rest, _, _, _ => by
      simp [render, readValue, readLiteral]
  | .bool true, fuel + 1, rest, _, _, _ => by
      simp [render, readValue, readLiteral]
  | .bool false, fuel + 1, rest, _, _, _ => by
      simp [render, readValue, readLiteral]
  | .int i, fuel + 1, rest, _, hrest, _ => by
      obtain ⟨c, digits, heq, hc⟩ := head_toString i
      have hread := readNumber_toString i hrest
      rw [heq] at hread
      rw [render, heq, List.cons_append, readValue_number hc]
      exact hread
  | .float repr, fuel + 1, rest, h, hrest, _ => by
      obtain ⟨c, digits, heq, hc⟩ := head_float h
      have hread := readNumber_float h hrest
      rw [String.ofList_toList, heq] at hread
      rw [render, heq, List.cons_append, readValue_number hc]
      exact hread
  | .str s, fuel + 1, rest, _, _, _ => by
      rw [render, readValue_quote]
  | .arr [], fuel + 1, rest, _, _, _ => by
      simp [render, renderList, readValue, skip, isBlank]
  | .arr (j :: js), fuel + 1, rest, h, _, hfuel => by
      obtain ⟨c, text, hhead, hc⟩ := renderList_head js h.1
      have hread := readItems_render j js fuel rest h.1 h.2 (by
        simp only [render, List.length_cons, List.length_append, List.length_nil] at hfuel
        omega)
      rw [render, List.cons_append, List.append_assoc]
      refine readValue_arr ?_ ?_ hread
      · rw [hhead, List.cons_append, skip_of_head hc.1]
      · rw [hhead]
        exact fun heq => hc.2 (Option.some.inj heq)
  | .obj [], fuel + 1, rest, _, _, _ => by
      simp [render, renderMembers, readValue, skip, isBlank]
  | .obj (m :: ms), fuel + 1, rest, h, _, hfuel => by
      obtain ⟨text, hhead⟩ := renderMembers_head m ms
      have hread := readMembers_render m ms fuel rest h.2 (by
        simp only [render, List.length_cons, List.length_append, List.length_nil] at hfuel
        omega)
      rw [render, List.cons_append, List.append_assoc, List.cons_append, List.nil_append,
        readValue_obj _ _ hread, dictOf_of_nodup h.1]
      · rw [hhead, List.cons_append, skip_of_head (by decide)]
      · rw [hhead]
        exact fun heq => absurd (Option.some.inj heq) (by decide)

theorem readItems_render : ∀ (j : Json) (js : List Json) (fuel : Nat) (rest : List Char),
    Printable j → PrintableList js → (renderList (j :: js)).length + 1 ≤ fuel →
    readItems fuel (renderList (j :: js) ++ ']' :: rest) = some (j :: js, rest)
  | j, js, 0, rest, _, _, hfuel => by cases hfuel
  | j, [], fuel + 1, rest, hj, _, hfuel => by
      have hread := readValue_render j fuel (']' :: rest) hj (stops_cons (by decide))
        (Nat.le_of_succ_le_succ hfuel)
      show readItems (fuel + 1) (render j ++ ']' :: rest) = _
      rw [readItems_cons hread]
      rfl
  | j, k :: ks, fuel + 1, rest, hj, hjs, hfuel => by
      have hlen : (renderList (j :: k :: ks)).length
          = (render j).length + (1 + (renderList (k :: ks)).length) := by
        rw [renderList, List.length_append, List.length_cons, Nat.add_comm 1]
        exact List.cons_ne_nil _ _
      rw [hlen] at hfuel
      have hread := readValue_render j fuel (',' :: (renderList (k :: ks) ++ ']' :: rest)) hj
        (stops_cons (by decide)) (by omega)
      have hmore := readItems_render k ks fuel rest hjs.1 hjs.2 (by omega)
      obtain ⟨c, text, hhead, hc⟩ := renderList_head ks hjs.1
      have htext : renderList (j :: k :: ks) ++ ']' :: rest
          = render j ++ ',' :: (renderList (k :: ks) ++ ']' :: rest) := by
        rw [renderList, List.append_assoc, List.cons_append]
        exact List.cons_ne_nil _ _
      rw [htext, readItems_cons hread, skip_of_head (by decide)]
      show (readItems fuel (skip _)).map _ = _
      rw [hhead, List.cons_append, skip_of_head hc.1, ← List.cons_append, ← hhead, hmore]
      rfl

theorem readMembers_render : ∀ (m : String × Json) (ms : List (String × Json)) (fuel : Nat)
    (rest : List Char), PrintableMembers (m :: ms) → (renderMembers (m :: ms)).length + 1 ≤ fuel →
    readMembers fuel (renderMembers (m :: ms) ++ '\x7d' :: rest) = some (m :: ms, rest)
  | m, ms, 0, rest, _, hfuel => by cases hfuel
  | (k, j), [], fuel + 1, rest, h, hfuel => by
      have hlen : (renderMembers [(k, j)]).length = (quote k).length + ((render j).length + 1) := by
        rw [renderMembers, List.length_append, List.length_cons]
      rw [hlen] at hfuel
      have hread := readValue_render j fuel ('\x7d' :: rest) h.1 (stops_cons (by decide)) (by omega)
      obtain ⟨c, text, hhead, hc⟩ := render_head h.1
      have hskip : skip (render j ++ '\x7d' :: rest) = render j ++ '\x7d' :: rest := by
        rw [hhead, List.cons_append, skip_of_head hc.1]
      have htext : renderMembers [(k, j)] ++ '\x7d' :: rest
          = quote k ++ ':' :: (render j ++ '\x7d' :: rest) := by
        rw [renderMembers, List.append_assoc, List.cons_append]
      rw [htext, readMembers_cons hskip hread]
      rfl
  | (k, j), m :: ms, fuel + 1, rest, h, hfuel => by
      have hlen : (renderMembers ((k, j) :: m :: ms)).length
          = (quote k).length +
          (1 + ((render j).length + (1 + (renderMembers (m :: ms)).length))) := by
        rw [renderMembers]
        · simp only [List.length_append, List.length_cons]
          omega
        · exact List.cons_ne_nil _ _
      rw [hlen] at hfuel
      have hread := readValue_render j fuel (',' :: (renderMembers (m :: ms) ++ '\x7d' :: rest)) h.1
        (stops_cons (by decide)) (by omega)
      have hmore := readMembers_render m ms fuel rest h.2 (by omega)
      obtain ⟨c, text, hhead, hc⟩ := render_head h.1
      have hskip : skip (render j ++ ',' :: (renderMembers (m :: ms) ++ '\x7d' :: rest))
          = render j ++ ',' :: (renderMembers (m :: ms) ++ '\x7d' :: rest) := by
        rw [hhead, List.cons_append, skip_of_head hc.1]
      have htext : renderMembers ((k, j) :: m :: ms) ++ '\x7d' :: rest
          = quote k ++ ':' :: (render j ++ ',' :: (renderMembers (m :: ms) ++ '\x7d' :: rest)) := by
        rw [renderMembers]
        · simp only [List.append_assoc, List.cons_append]
        · exact List.cons_ne_nil _ _
      obtain ⟨more, hmembers⟩ := renderMembers_head m ms
      rw [htext, readMembers_cons hskip hread, skip_of_head (by decide)]
      show (readMembers fuel (skip _)).map _ = _
      rw [hmembers, List.cons_append, skip_of_head (by decide), ← List.cons_append,
        ← hmembers, hmore]
      rfl

end

/-- **Reading undoes printing.** -/
theorem loads_render {j : Json} (h : Printable j) : loads (render j) = some j := by
  obtain ⟨c, text, heq, hc⟩ := render_head h
  have hread := readValue_render j ((render j).length + 1) [] h nofun (Nat.le_succ _)
  rw [List.append_nil] at hread
  have hskip : skip (render j) = render j := by rw [heq, skip_of_head hc.1]
  unfold loads
  rw [hskip, hread]
  rfl

theorem render_injective {j k : Json} (hj : Printable j) (hk : Printable k)
    (h : render j = render k) : j = k := by
  have hread := loads_render hj
  rw [h, loads_render hk] at hread
  exact (Option.some.inj hread).symm

end Json

/-! ## Bytes -/

/-- The code of the first character of UTF-8 bytes; the first byte tells how many follow. -/
def readUtf8 : List Nat → Option (Nat × List Nat)
  | a :: rest =>
    if a < 0x80 then some (a, rest)
    else
      match rest with
      | b :: rest =>
        if a < 0xE0 then some ((a - 0xC0) * 64 + (b - 0x80), rest)
        else
          match rest with
          | c :: rest =>
            if a < 0xF0 then some ((a - 0xE0) * 4096 + (b - 0x80) * 64 + (c - 0x80), rest)
            else
              match rest with
              | d :: rest =>
                some ((a - 0xF0) * 262144 + (b - 0x80) * 4096 + (c - 0x80) * 64 + (d - 0x80),
                  rest)
              | [] => none
          | [] => none
      | [] => none
  | [] => none

theorem readUtf8_utf8Char (c : Char) (rest : List Nat) :
    readUtf8 (utf8Char c ++ rest) = some (c.toNat, rest) := by
  unfold utf8Char
  generalize c.toNat = n
  simp only
  split
  · next h =>
      simp only [List.cons_append, List.nil_append, readUtf8]
      rw [if_pos h]
  split
  · next h =>
      have hcode : (0xC0 + n / 64 - 0xC0) * 64 + (0x80 + n % 64 - 0x80) = n := by omega
      simp only [List.cons_append, List.nil_append, readUtf8]
      rw [if_neg (by omega), if_pos (by omega), hcode]
  split
  · next h =>
      have hcode : (0xE0 + n / 4096 - 0xE0) * 4096 + (0x80 + n / 64 % 64 - 0x80) * 64
          + (0x80 + n % 64 - 0x80) = n := by omega
      simp only [List.cons_append, List.nil_append, readUtf8]
      rw [if_neg (by omega), if_neg (by omega), if_pos (by omega), hcode]
  · next h =>
      have hcode : (0xF0 + n / 262144 - 0xF0) * 262144 + (0x80 + n / 4096 % 64 - 0x80) * 4096
          + (0x80 + n / 64 % 64 - 0x80) * 64 + (0x80 + n % 64 - 0x80) = n := by omega
      simp only [List.cons_append, List.nil_append, readUtf8]
      rw [if_neg (by omega), if_neg (by omega), if_neg (by omega), hcode]

theorem utf8_injective {xs ys : List Char} (h : utf8 xs = utf8 ys) : xs = ys := by
  induction xs generalizing ys with
  | nil =>
    cases ys with
    | nil => rfl
    | cons d ys =>
      have hread := readUtf8_utf8Char d (utf8 ys)
      rw [show utf8Char d ++ utf8 ys = [] from h.symm] at hread
      cases hread
  | cons c xs ih =>
    have hread := readUtf8_utf8Char c (utf8 xs)
    rw [show utf8Char c ++ utf8 xs = utf8 ys from h] at hread
    cases ys with
    | nil => cases hread
    | cons d ys =>
      rw [show utf8 (d :: ys) = utf8Char d ++ utf8 ys from rfl, readUtf8_utf8Char d] at hread
      obtain ⟨hchar, hrest⟩ := Prod.mk.inj (Option.some.inj hread)
      rw [Char.toNat_inj.mp hchar, ih hrest.symm]

end AtlasDb.Core
