import Mathlib.Tactic.IntervalCases
import AtlasDb.Core.Text
import Mathlib.Tactic.Ring

/-!
# Canonical timestamps

`bdd/models.py: canonical_timestamp` reads an ISO-8601 text, moves it to UTC and prints it with
microseconds and a trailing `Z`:

    text = value.strip()
    parsed = datetime.fromisoformat(text.replace("Z", "+00:00"))
    ... parsed.astimezone(timezone.utc).isoformat(timespec="microseconds").replace("+00:00", "Z")

`fromIsoformat` follows the `datetime` module of Python 3.13 in its pure-Python version, from which
the one in C departs on a few malformed texts (`+00:00:00.5`, `T12:30.5`): the place of the
separator, calendar and week dates with or without dashes, one to three time components with or
without colons, a fraction of any length cut to six digits, and offsets shorter than a day. The
result the store relies on is at the end: a canonical text is read back as itself
(`canonicalTimestamp_idem`).
-/

namespace AtlasDb.Core.Timestamp

open Text (isSpace strip)

/-! ## Fixed-width decimals -/

/-- The value of an ASCII digit. -/
def digitValue (c : Char) : Option Nat :=
  if '0' ≤ c ∧ c ≤ '9' then some (c.toNat - 48) else none

/-- Read a run of digits; any other character is refused. -/
def readDigits (acc : Nat) : List Char → Option Nat
  | [] => some acc
  | c :: cs => do
      let v ← digitValue c
      readDigits (10 * acc + v) cs

def digitChar (n : Nat) : Char := Char.ofNat (48 + n % 10)

/-- Print the last `w` decimal digits of `n`. -/
def pad : Nat → Nat → List Char
  | 0, _ => []
  | w + 1, n => pad w (n / 10) ++ [digitChar n]

theorem digitChar_cases (n : Nat) :
    digitChar n ∈ ['0', '1', '2', '3', '4', '5', '6', '7', '8', '9'] := by
  have h : n % 10 < 10 := Nat.mod_lt _ (by decide)
  unfold digitChar
  interval_cases n % 10 <;> decide

@[simp] theorem digitValue_digitChar (n : Nat) : digitValue (digitChar n) = some (n % 10) := by
  have h : n % 10 < 10 := Nat.mod_lt _ (by decide)
  unfold digitChar
  interval_cases n % 10 <;> decide

theorem readDigits_append (acc : Nat) (xs : List Char) (c : Char) :
    readDigits acc (xs ++ [c])
      = (readDigits acc xs).bind (fun v => (digitValue c).map (fun d => 10 * v + d)) := by
  induction xs generalizing acc with
  | nil =>
    cases h : digitValue c <;> simp [readDigits, h]
  | cons x xs ih =>
    cases h : digitValue x with
    | none => simp [readDigits, h]
    | some v => simpa [readDigits, h] using ih (10 * acc + v)

/-- **Fixed-width decimals are read back.** -/
theorem readDigits_pad (w n : Nat) (h : n < 10 ^ w) : readDigits 0 (pad w n) = some n := by
  induction w generalizing n with
  | zero =>
    have : n = 0 := by simpa using h
    simp [pad, readDigits, this]
  | succ w ih =>
    have hlt : n / 10 < 10 ^ w := by
      rw [Nat.div_lt_iff_lt_mul (by decide)]
      rwa [← Nat.pow_succ]
    rw [pad, readDigits_append, ih _ hlt]
    simp only [digitValue_digitChar, Option.bind_some, Option.map_some]
    congr 1
    omega

/-! ## Dates and clock times -/

def isLeap (year : Nat) : Bool := year % 4 = 0 && (year % 100 ≠ 0 || year % 400 = 0)

def daysInMonth (year month : Nat) : Nat :=
  if month = 2 then (if isLeap year then 29 else 28)
  else if month = 4 ∨ month = 6 ∨ month = 9 ∨ month = 11 then 30 else 31

/-- A proleptic Gregorian date of the years `1..9999`. -/
@[ext] structure Date where
  year : Nat
  month : Nat
  day : Nat
  inRange : (1 ≤ year ∧ year ≤ 9999) ∧ (1 ≤ month ∧ month ≤ 12) ∧ 1 ≤ day ∧
    day ≤ daysInMonth year month
deriving DecidableEq

/-- The constructor of `datetime.date`, which refuses values out of range. -/
def Date.ofYmd (year month day : Nat) : Option Date :=
  if h : (1 ≤ year ∧ year ≤ 9999) ∧ (1 ≤ month ∧ month ≤ 12) ∧ 1 ≤ day ∧
      day ≤ daysInMonth year month then
    some ⟨year, month, day, h⟩
  else none

@[simp] theorem Date.ofYmd_self (d : Date) : Date.ofYmd d.year d.month d.day = some d := by
  simp [Date.ofYmd, d.inRange]

/-- The day after; `none` is the overflow after 9999-12-31. -/
def Date.next (d : Date) : Option Date :=
  if d.day < daysInMonth d.year d.month then Date.ofYmd d.year d.month (d.day + 1)
  else if d.month < 12 then Date.ofYmd d.year (d.month + 1) 1
  else Date.ofYmd (d.year + 1) 1 1

/-- The day before; `none` is the underflow before 0001-01-01. -/
def Date.prev (d : Date) : Option Date :=
  if 1 < d.day then Date.ofYmd d.year d.month (d.day - 1)
  else if 1 < d.month then Date.ofYmd d.year (d.month - 1) (daysInMonth d.year (d.month - 1))
  else Date.ofYmd (d.year - 1) 12 31

def Date.forward : Nat → Date → Option Date
  | 0, d => some d
  | n + 1, d => d.next.bind (Date.forward n)

def Date.back : Nat → Date → Option Date
  | 0, d => some d
  | n + 1, d => d.prev.bind (Date.back n)

/-- The weekday of January 1st, Monday being 0. -/
def firstWeekday (year : Nat) : Nat :=
  let y := year - 1
  (y * 365 + y / 4 - y / 100 + y / 400) % 7

/-- `_isoweek_to_gregorian`: the date of a day of an ISO week. Week 1 is the week of the first
Thursday, and week 53 exists only in years that start on a Thursday, or on a Wednesday in a leap
year. -/
def isoweekToGregorian (year week day : Nat) : Option Date := do
  let first ← Date.ofYmd year 1 1
  let weekday := firstWeekday year
  if 0 < week ∧ (week < 53 ∨
      week = 53 ∧ (weekday = 3 ∨ weekday = 2 ∧ isLeap year = true)) then
    if 0 < day ∧ day < 8 then
      let offset := (week - 1) * 7 + (day - 1) + (if weekday > 3 then 7 else 0)
      if weekday ≤ offset then Date.forward (offset - weekday) first
      else Date.back (weekday - offset) first
    else none
  else none

def microsPerDay : Nat := 86400000000

/-- A time of day, to the microsecond. -/
@[ext] structure Clock where
  hour : Nat
  minute : Nat
  second : Nat
  microsecond : Nat
  inRange : hour < 24 ∧ minute < 60 ∧ second < 60 ∧ microsecond < 1000000
deriving DecidableEq

def Clock.ofHmsf (hour minute second microsecond : Nat) : Option Clock :=
  if h : hour < 24 ∧ minute < 60 ∧ second < 60 ∧ microsecond < 1000000 then
    some ⟨hour, minute, second, microsecond, h⟩
  else none

@[simp] theorem Clock.ofHmsf_self (c : Clock) :
    Clock.ofHmsf c.hour c.minute c.second c.microsecond = some c := by
  simp [Clock.ofHmsf, c.inRange]

/-- Microseconds since midnight. -/
def Clock.micros (c : Clock) : Nat :=
  ((c.hour * 60 + c.minute) * 60 + c.second) * 1000000 + c.microsecond

/-- The clock time `n` microseconds after midnight, days dropped. -/
def Clock.ofMicros (n : Nat) : Clock where
  hour := n / 3600000000 % 24
  minute := n / 60000000 % 60
  second := n / 1000000 % 60
  microsecond := n % 1000000
  inRange := by omega

theorem Clock.micros_lt (c : Clock) : c.micros < microsPerDay := by
  have h := c.inRange
  unfold micros microsPerDay
  omega

@[simp] theorem Clock.ofMicros_micros (c : Clock) : Clock.ofMicros c.micros = c := by
  obtain ⟨hour, minute, second, microsecond, h⟩ := c
  ext <;> simp only [ofMicros, micros] <;> omega

/-- A `datetime` value; `offset` is the distance east of UTC in microseconds, absent when the value
is naive. -/
structure DateTime where
  date : Date
  clock : Clock
  offset : Option Int
deriving DecidableEq

/-- `astimezone(timezone.utc)` of a value with the given offset. An offset is shorter than a day, so
the date moves by one day at most; a date outside the calendar is an overflow. -/
def toUtc (date : Date) (clock : Clock) (offset : Int) : Option (Date × Clock) :=
  let t : Int := clock.micros - offset
  if t < 0 then date.prev.map (·, Clock.ofMicros (t + microsPerDay).toNat)
  else if microsPerDay ≤ t then date.next.map (·, Clock.ofMicros (t - microsPerDay).toNat)
  else some (date, Clock.ofMicros t.toNat)

@[simp] theorem toUtc_zero (date : Date) (clock : Clock) :
    toUtc date clock 0 = some (date, clock) := by
  have h := clock.micros_lt
  have h0 : ¬ ((clock.micros : Int) < 0) := by omega
  have h1 : ¬ ((microsPerDay : Int) ≤ clock.micros) := by omega
  simp only [toUtc, sub_zero, if_neg h0, if_neg h1, Int.toNat_natCast, Clock.ofMicros_micros]

/-! ## Reading -/

/-- `text.replace("Z", "+00:00")`. -/
def replaceZulu : List Char → List Char
  | [] => []
  | c :: cs =>
    if c = 'Z' then ['+', '0', '0', ':', '0', '0'] ++ replaceZulu cs else c :: replaceZulu cs

def isDigit (c : Char) : Bool := (digitValue c).isSome

/-- `_find_isoformat_datetime_separator`. A week date may be followed by a separator that is itself
a dash or a digit; the reading with the dash at index 8, or with an even number of digits after the
week, wins. -/
def findSeparator (text : List Char) : Option Nat :=
  let len := text.length
  if len = 7 then some 7
  else if text[4]? = some '-' then
    if text[5]? = some 'W' then
      if len > 8 ∧ text[8]? = some '-' then
        if len = 9 then none
        else if len > 10 ∧ (text[10]?.map isDigit) = some true then some 8
        else some 10
      else some 8
    else some 10
  else if text[4]? = some 'W' then
    let idx := 7 + ((text.drop 7).takeWhile isDigit).length
    if idx < 9 then some idx else if idx % 2 = 0 then some 7 else some 8
  else some 8

def twoDigits : List Char → Option Nat
  | a :: b :: _ => readDigits 0 [a, b]
  | _ => none

/-- `_parse_isoformat_date`. -/
def parseIsoformatDate (text : List Char) : Option Date := do
  let year ← readDigits 0 (text.take 4)
  let hasSep : Bool := text[4]? = some '-'
  let rest := text.drop (if hasSep then 5 else 4)
  if rest.head? = some 'W' then
    let week ← twoDigits (rest.drop 1)
    let rest := rest.drop 3
    if rest = [] then isoweekToGregorian year week 1
    else if (rest.head? = some '-') = hasSep then
      let rest := rest.drop (if hasSep then 1 else 0)
      if rest = [] then none
      else do
        let day ← readDigits 0 (rest.take 1)
        isoweekToGregorian year week day
    else none
  else do
    let month ← twoDigits rest
    let rest := rest.drop 2
    if (rest.head? = some '-') = hasSep then
      let day ← twoDigits (rest.drop (if hasSep then 1 else 0))
      Date.ofYmd year month day
    else none

/-- The loop of `_parse_hh_mm_ss_ff` over `n` more two-digit components; returns them with what is
left of the text. -/
def timeComponents (hasSep : Bool) : Nat → List Char → Option (List Nat × List Char)
  | 0, text => some ([], text)
  | n + 1, text => do
      let value ← twoDigits text
      match text.drop 2 with
      | [] => some ([value], [])
      | next :: rest =>
        if n = 0 then some ([value], next :: rest)
        else if hasSep && next ≠ ':' then none
        else do
          let (values, left) ← timeComponents hasSep n (if hasSep then rest else next :: rest)
          some (value :: values, left)

/-- The fraction after the seconds, in microseconds; digits after the sixth are dropped. -/
def parseFraction : List Char → Option Nat
  | [] => some 0
  | mark :: digits =>
    if (mark = '.' ∨ mark = ',') ∧ digits ≠ [] ∧ digits.all isDigit then
      (readDigits 0 (digits.take 6)).map (· * 10 ^ (6 - digits.length))
    else none

/-- `_parse_hh_mm_ss_ff`. -/
def parseHhMmSsFf (text : List Char) : Option (Nat × Nat × Nat × Nat) := do
  let (values, left) ← timeComponents (decide (text[2]? = some ':')) 3 text
  let fraction ← parseFraction left
  some (values.getD 0 0, values.getD 1 0, values.getD 2 0, fraction)

/-- The offset of `timezone(sign * timedelta(...))`, which must be shorter than a day. -/
def parseOffset (negative : Bool) (text : List Char) : Option Int := do
  if text.length = 0 ∨ text.length = 1 ∨ text.length = 3 then none
  else
    let (h, m, s, f) ← parseHhMmSsFf text
    let total := ((h * 60 + m) * 60 + s) * 1000000 + f
    if total < microsPerDay then some (if negative then -(total : Int) else total) else none

/-- `_parse_isoformat_time`: a clock time and the offset that follows it, if any. -/
def parseIsoformatTime (text : List Char) : Option (Clock × Option Int) := do
  if text.length < 2 then none
  else
    let mark := (text.idxOf? '-').or ((text.idxOf? '+').or (text.idxOf? 'Z'))
    let (h, m, s, f) ← parseHhMmSsFf (match mark with | some i => text.take i | none => text)
    let clock ← Clock.ofHmsf h m s f
    match mark with
    | none => some (clock, none)
    | some i =>
      if i + 1 = text.length ∧ text[i]? = some 'Z' then some (clock, some 0)
      else do
        let offset ← parseOffset (text[i]? = some '-') (text.drop (i + 1))
        some (clock, some offset)

def midnight : Clock := ⟨0, 0, 0, 0, by decide⟩

/-- `datetime.fromisoformat`. -/
def fromIsoformat (text : List Char) : Option DateTime := do
  if text.length < 7 then none
  else
    let location ← findSeparator text
    let date ← parseIsoformatDate (text.take location)
    let time := text.drop (location + 1)
    if time = [] then some ⟨date, midnight, none⟩
    else do
      let (clock, offset) ← parseIsoformatTime time
      some ⟨date, clock, offset⟩

/-! ## Printing -/

/-- `isoformat(timespec="microseconds")` of a UTC value, its `+00:00` replaced by `Z`. -/
def isoformatUtc (date : Date) (clock : Clock) : List Char :=
  pad 4 date.year ++ '-' :: pad 2 date.month ++ '-' :: pad 2 date.day ++ 'T' ::
    pad 2 clock.hour ++ ':' :: pad 2 clock.minute ++ ':' :: pad 2 clock.second ++ '.' ::
    pad 6 clock.microsecond ++ ['Z']

/-- `canonical_timestamp`; `none` where the source raises. -/
def canonicalTimestamp (value : String) : Option String := do
  let parsed ← fromIsoformat (replaceZulu (strip value.toList))
  let offset ← parsed.offset
  let (date, clock) ← toUtc parsed.date parsed.clock offset
  some (String.ofList (isoformatUtc date clock))

example : canonicalTimestamp "2026-07-29T02:30:00+02:30" = some "2026-07-29T00:00:00.000000Z" := by
  decide +kernel
example : canonicalTimestamp "2026W531T24" = none := by decide +kernel
example : canonicalTimestamp " 2026-W01-1 23:00:00,5-01 " = some "2025-12-30T00:00:00.500000Z" := by
  decide +kernel
example : canonicalTimestamp "20260729T0000Z" = some "2026-07-29T00:00:00.000000Z" := by
  decide +kernel

/-! ## A canonical text is read back as itself -/

theorem digitChar_ne (n : Nat) {c : Char}
    (h : c ∉ ['0', '1', '2', '3', '4', '5', '6', '7', '8', '9']) : digitChar n ≠ c := by
  rintro rfl
  exact h (digitChar_cases n)

@[simp] theorem isSpace_digitChar (n : Nat) : isSpace (digitChar n) = false := by
  have h := digitChar_cases n
  simp only [List.mem_cons, List.not_mem_nil, or_false] at h
  rcases h with h | h | h | h | h | h | h | h | h | h <;> rw [h] <;> decide

@[simp] theorem isDigit_digitChar (n : Nat) : isDigit (digitChar n) = true := by
  simp [isDigit]

theorem strip_isoformatUtc (date : Date) (clock : Clock) :
    strip (isoformatUtc date clock) = isoformatUtc date clock := by
  have hZ : isSpace 'Z' = false := by decide
  simp [strip, Text.stripBy, isoformatUtc, pad, hZ]

theorem replaceZulu_isoformatUtc (date : Date) (clock : Clock) :
    replaceZulu (isoformatUtc date clock)
      = pad 4 date.year ++ '-' :: pad 2 date.month ++ '-' :: pad 2 date.day ++ 'T' ::
        (pad 2 clock.hour ++ ':' :: pad 2 clock.minute ++ ':' :: pad 2 clock.second ++ '.' ::
        pad 6 clock.microsecond ++ ['+', '0', '0', ':', '0', '0']) := by
  have hd : ∀ n, digitChar n ≠ 'Z' := fun n => digitChar_ne n (by decide)
  simp [isoformatUtc, pad, replaceZulu, hd]

theorem twoDigits_pad (n : Nat) (h : n < 100) (rest : List Char) :
    twoDigits (digitChar (n / 10) :: digitChar n :: rest) = some n :=
  readDigits_pad 2 n h

theorem parseIsoformatDate_printed (date : Date) :
    parseIsoformatDate (pad 4 date.year ++ '-' :: pad 2 date.month ++ '-' :: pad 2 date.day)
      = some date := by
  obtain ⟨⟨_, hy⟩, ⟨_, hm⟩, _, hd⟩ := date.inRange
  have hd' : date.day < 100 := by
    have : daysInMonth date.year date.month ≤ 31 := by
      unfold daysInMonth
      split <;> split <;> omega
    omega
  have hy' := readDigits_pad 4 date.year (by omega)
  have hW : digitChar (date.month / 10) ≠ 'W' := digitChar_ne _ (by decide)
  simp only [pad, List.nil_append, List.cons_append] at hy'
  simp [parseIsoformatDate, pad, hy', hW, twoDigits_pad _ (show date.month < 100 by omega),
    twoDigits_pad _ hd']

theorem timeComponents_last (value : Nat) (h : value < 100) (mark : Char) (left : List Char) :
    timeComponents true 1 (digitChar (value / 10) :: digitChar value :: mark :: left)
      = some ([value], mark :: left) := by
  rw [timeComponents, twoDigits_pad _ h]
  rfl

theorem timeComponents_colon (n value : Nat) (h : value < 100) (rest : List Char) :
    timeComponents true (n + 2) (digitChar (value / 10) :: digitChar value :: ':' :: rest)
      = (timeComponents true (n + 1) rest).bind fun r => some (value :: r.1, r.2) := by
  rw [timeComponents, twoDigits_pad _ h]
  show (if n + 1 = 0 then some ([value], ':' :: rest)
    else if (true && decide (':' ≠ ':')) = true then none
    else (timeComponents true (n + 1) rest).bind fun r => some (value :: r.1, r.2)) = _
  rw [if_neg (Nat.succ_ne_zero n), if_neg (by decide)]

theorem timeComponents_printed (h m s : Nat) (hh : h < 100) (hm : m < 100) (hs : s < 100)
    (mark : Char) (left : List Char) :
    timeComponents true 3 (digitChar (h / 10) :: digitChar h :: ':' :: digitChar (m / 10) ::
        digitChar m :: ':' :: digitChar (s / 10) :: digitChar s :: mark :: left)
      = some ([h, m, s], mark :: left) := by
  rw [timeComponents_colon 1 h hh, timeComponents_colon 0 m hm, timeComponents_last s hs]
  rfl

theorem parseFraction_printed (n : Nat) (h : n < 10 ^ 6) :
    parseFraction ('.' :: pad 6 n) = some n := by
  have hread := readDigits_pad 6 n h
  have hdigits : (pad 6 n).all isDigit = true := by
    simp [pad]
  have hlength : (pad 6 n).length = 6 := by
    simp [pad]
  have hne : pad 6 n ≠ [] := List.ne_nil_of_length_pos (by omega)
  rw [parseFraction, if_pos ⟨.inl rfl, hne, hdigits⟩]
  rw [List.take_of_length_le (Nat.le_of_eq hlength), hread, hlength]
  simp

theorem parseHhMmSsFf_printed (clock : Clock) :
    parseHhMmSsFf (pad 2 clock.hour ++ ':' :: pad 2 clock.minute ++ ':' :: pad 2 clock.second ++
        '.' :: pad 6 clock.microsecond)
      = some (clock.hour, clock.minute, clock.second, clock.microsecond) := by
  obtain ⟨hh, hm, hs, hf⟩ := clock.inRange
  have hcomponents := timeComponents_printed clock.hour clock.minute clock.second
    (by omega) (by omega) (by omega) '.' (pad 6 clock.microsecond)
  have hfraction := parseFraction_printed clock.microsecond hf
  have htext : pad 2 clock.hour ++ ':' :: pad 2 clock.minute ++ ':' :: pad 2 clock.second ++
      '.' :: pad 6 clock.microsecond =
        digitChar (clock.hour / 10) :: digitChar clock.hour :: ':' ::
        digitChar (clock.minute / 10) :: digitChar clock.minute :: ':' ::
        digitChar (clock.second / 10) :: digitChar clock.second :: '.' ::
        pad 6 clock.microsecond := rfl
  rw [htext, parseHhMmSsFf]
  show ((timeComponents true 3 _).bind fun r => (parseFraction r.2).bind fun fraction =>
    some (r.1.getD 0 0, r.1.getD 1 0, r.1.getD 2 0, fraction)) = _
  rw [hcomponents, Option.bind_some, hfraction]
  rfl

theorem parseIsoformatTime_printed (clock : Clock) :
    parseIsoformatTime (pad 2 clock.hour ++ ':' :: pad 2 clock.minute ++ ':' ::
        pad 2 clock.second ++ '.' :: pad 6 clock.microsecond ++ ['+', '0', '0', ':', '0', '0'])
      = some (clock, some 0) := by
  have hminus : ∀ n, digitChar n ≠ '-' := fun n => digitChar_ne n (by decide)
  have hplus : ∀ n, digitChar n ≠ '+' := fun n => digitChar_ne n (by decide)
  have htime := parseHhMmSsFf_printed clock
  have hzero : parseOffset false ['0', '0', ':', '0', '0'] = some 0 := by decide
  simp only [pad, List.nil_append, List.cons_append] at htime
  simp [parseIsoformatTime, pad, List.idxOf?, List.findIdx?_cons, hminus, hplus, htime,
    hzero]

/-- **Round trip**: `fromisoformat` reads a printed UTC value back. -/
theorem fromIsoformat_printed (date : Date) (clock : Clock) :
    fromIsoformat (replaceZulu (isoformatUtc date clock)) = some ⟨date, clock, some 0⟩ := by
  rw [replaceZulu_isoformatUtc]
  have hdate := parseIsoformatDate_printed date
  have htime := parseIsoformatTime_printed clock
  have hW : digitChar (date.month / 10) ≠ 'W' := digitChar_ne _ (by decide)
  simp only [pad, List.nil_append, List.cons_append] at hdate htime
  simp [fromIsoformat, findSeparator, pad, hW, hdate, htime]

theorem canonicalTimestamp_eq_some {value text : String}
    (h : canonicalTimestamp value = some text) :
    ∃ date clock, text = String.ofList (isoformatUtc date clock) := by
  unfold canonicalTimestamp at h
  cases hp : fromIsoformat (replaceZulu (strip value.toList)) with
  | none => simp [hp] at h
  | some parsed =>
    cases ho : parsed.offset with
    | none => simp [hp, ho] at h
    | some offset =>
      cases hu : toUtc parsed.date parsed.clock offset with
      | none => simp [hp, ho, hu] at h
      | some utc =>
        refine ⟨utc.1, utc.2, ?_⟩
        simpa [hp, ho, hu] using h.symm

theorem canonicalTimestamp_of {value : String} {parsed : DateTime} {offset : Int} {date : Date}
    {clock : Clock} (hp : fromIsoformat (replaceZulu (strip value.toList)) = some parsed)
    (ho : parsed.offset = some offset)
    (hu : toUtc parsed.date parsed.clock offset = some (date, clock)) :
    canonicalTimestamp value = some (String.ofList (isoformatUtc date clock)) := by
  simp [canonicalTimestamp, hp, ho, hu]

theorem canonicalTimestamp_printed (date : Date) (clock : Clock) :
    canonicalTimestamp (String.ofList (isoformatUtc date clock))
      = some (String.ofList (isoformatUtc date clock)) := by
  have hp : fromIsoformat (replaceZulu (strip (String.ofList (isoformatUtc date clock)).toList))
      = some ⟨date, clock, some 0⟩ := by
    rw [String.toList_ofList, strip_isoformatUtc, fromIsoformat_printed]
  exact canonicalTimestamp_of hp rfl (toUtc_zero date clock)

/-- **`canonical_timestamp` is idempotent**: what it returns, it returns unchanged. -/
theorem canonicalTimestamp_idem {value text : String} (h : canonicalTimestamp value = some text) :
    canonicalTimestamp text = some text := by
  obtain ⟨date, clock, rfl⟩ := canonicalTimestamp_eq_some h
  exact canonicalTimestamp_printed date clock

end AtlasDb.Core.Timestamp
