import Mathlib.Data.String.Basic
import AtlasDb.Core.Timestamp

/-!
# The instant a timestamp denotes

A timestamp text denotes a point in time: days of the proleptic Gregorian calendar and microseconds
of the day, less the offset from UTC. The canonical text of a timestamp denotes the same instant
(`instantOf_canonical`), and canonical texts are ordered as their instants are (`canonical_le_iff`).
Neither holds of texts as they come: the order of two spellings says nothing about the order of the
instants.
-/

namespace AtlasDb.Core.Timestamp

/-! ## Day numbers -/

/-- `_days_before_year`. -/
def daysBeforeYear (year : Nat) : Nat :=
  let y := year - 1
  y * 365 + y / 4 - y / 100 + y / 400

/-- `_days_before_month`. -/
def daysBeforeMonth (year : Nat) : Nat → Nat
  | 0 => 0
  | 1 => 0
  | m + 2 => daysBeforeMonth year (m + 1) + daysInMonth year (m + 1)

/-- `date.toordinal`: the number of the day, 0001-01-01 being day 1. -/
def Date.toOrdinal (d : Date) : Nat :=
  daysBeforeYear d.year + daysBeforeMonth d.year d.month + d.day

example : (Date.ofYmd 2026 7 29).map Date.toOrdinal = some 739826 := by decide +kernel

def daysInYear (year : Nat) : Nat := if isLeap year then 366 else 365

theorem daysBeforeYear_succ {year : Nat} (h : 1 ≤ year) :
    daysBeforeYear (year + 1) = daysBeforeYear year + daysInYear year := by
  obtain ⟨y, rfl⟩ := Nat.exists_eq_add_of_le' h
  have hle : y / 100 ≤ y / 4 := Nat.div_le_div_left (by decide) (by decide)
  have h400 : 400 ∣ y + 1 → 100 ∣ y + 1 := (show 100 ∣ 400 by decide).trans
  have h100 : 100 ∣ y + 1 → 4 ∣ y + 1 := (show 4 ∣ 100 by decide).trans
  simp only [daysBeforeYear, daysInYear, isLeap, Nat.add_sub_cancel, Bool.and_eq_true,
    Bool.or_eq_true, decide_eq_true_eq, Nat.succ_div, ne_eq, ← Nat.dvd_iff_mod_eq_zero]
  generalize y / 4 = a at *
  generalize y / 100 = b at *
  generalize y / 400 = c at *
  by_cases h4 : 4 ∣ y + 1
  · by_cases hb : 100 ∣ y + 1
    · by_cases hc : 400 ∣ y + 1
      · simp only [h4, hb, hc, if_true, not_true, or_true, and_self]
        omega
      · simp only [h4, hb, hc, if_true, if_false, not_true, or_false, and_false]
        omega
    · simp only [h4, hb, mt h400 hb, if_true, if_false, not_false_eq_true, true_or, and_self]
      omega
  · simp only [h4, mt h100 h4, mt h400 (mt h100 h4), if_false, false_and]
    omega

theorem daysBeforeYear_mono {a b : Nat} (ha : 1 ≤ a) (h : a ≤ b) :
    daysBeforeYear a ≤ daysBeforeYear b := by
  induction b, h using Nat.le_induction with
  | base => exact Nat.le_refl _
  | succ b hab ih =>
    rw [daysBeforeYear_succ (Nat.le_trans ha hab)]
    exact Nat.le_trans ih (Nat.le_add_right _ _)

theorem daysBeforeMonth_succ {year month : Nat} (h : 1 ≤ month) :
    daysBeforeMonth year (month + 1) = daysBeforeMonth year month + daysInMonth year month := by
  obtain ⟨m, rfl⟩ := Nat.exists_eq_add_of_le' h
  rfl

theorem daysBeforeMonth_mono {year a b : Nat} (ha : 1 ≤ a) (h : a ≤ b) :
    daysBeforeMonth year a ≤ daysBeforeMonth year b := by
  induction b, h using Nat.le_induction with
  | base => exact Nat.le_refl _
  | succ b hab ih =>
    rw [daysBeforeMonth_succ (Nat.le_trans ha hab)]
    exact Nat.le_trans ih (Nat.le_add_right _ _)

theorem daysBeforeMonth_thirteen (year : Nat) : daysBeforeMonth year 13 = daysInYear year := by
  simp [daysBeforeMonth, daysInMonth, daysInYear]
  split <;> rfl

theorem Date.toOrdinal_le_month (d : Date) :
    d.toOrdinal ≤ daysBeforeYear d.year + daysBeforeMonth d.year (d.month + 1) := by
  have h := d.inRange
  rw [daysBeforeMonth_succ h.2.1.1, toOrdinal]
  omega

theorem Date.toOrdinal_le_year (d : Date) : d.toOrdinal ≤ daysBeforeYear (d.year + 1) := by
  have h := d.inRange
  have hmonth : daysBeforeMonth d.year (d.month + 1) ≤ daysBeforeMonth d.year 13 :=
    daysBeforeMonth_mono (Nat.le_add_left _ _) (by omega)
  rw [daysBeforeMonth_thirteen] at hmonth
  rw [daysBeforeYear_succ h.1.1]
  exact Nat.le_trans d.toOrdinal_le_month (Nat.add_le_add_left hmonth _)

/-- Earlier in the calendar: by the year, then the month, then the day. -/
def Date.Before (d e : Date) : Prop :=
  d.year < e.year ∨ d.year = e.year ∧ (d.month < e.month ∨ d.month = e.month ∧ d.day < e.day)

variable {d e : Date}

theorem Date.Before.toOrdinal_lt (h : d.Before e) : d.toOrdinal < e.toOrdinal := by
  have hd := d.inRange
  have he := e.inRange
  rcases h with hyear | ⟨hyear, hmonth | ⟨hmonth, hday⟩⟩
  · have hyears := daysBeforeYear_mono (Nat.le_add_left 1 d.year) hyear
    have hle := d.toOrdinal_le_year
    have hlt : daysBeforeYear e.year < e.toOrdinal := by
      unfold toOrdinal
      omega
    omega
  · have hmonths := @daysBeforeMonth_mono d.year _ _ (Nat.le_add_left 1 d.month) hmonth
    have hle := d.toOrdinal_le_month
    have hlt : daysBeforeYear d.year + daysBeforeMonth d.year e.month < e.toOrdinal := by
      unfold toOrdinal
      rw [hyear]
      omega
    omega
  · unfold toOrdinal
    rw [hyear, hmonth]
    omega

theorem Date.before_trichotomy (d e : Date) : d.Before e ∨ d = e ∨ e.Before d := by
  unfold Before
  rcases Nat.lt_trichotomy d.year e.year with hy | hy | hy
  · exact .inl (.inl hy)
  · rcases Nat.lt_trichotomy d.month e.month with hm | hm | hm
    · exact .inl (.inr ⟨hy, .inl hm⟩)
    · rcases Nat.lt_trichotomy d.day e.day with hd | hd | hd
      · exact .inl (.inr ⟨hy, .inr ⟨hm, hd⟩⟩)
      · exact .inr (.inl (Date.ext hy hm hd))
      · exact .inr (.inr (.inr ⟨hy.symm, .inr ⟨hm.symm, hd⟩⟩))
    · exact .inr (.inr (.inr ⟨hy.symm, .inl hm⟩))
  · exact .inr (.inr (.inl hy))

theorem Date.before_iff : d.Before e ↔ d.toOrdinal < e.toOrdinal := by
  refine ⟨Before.toOrdinal_lt, fun h => ?_⟩
  rcases d.before_trichotomy e with hlt | rfl | hgt
  · exact hlt
  · exact absurd h (Nat.lt_irrefl _)
  · exact absurd hgt.toOrdinal_lt (by omega)

/-- Consecutive dates have consecutive ordinals. -/
theorem Date.toOrdinal_next (h : d.next = some e) :
    e.toOrdinal = d.toOrdinal + 1 := by
  have hd := d.inRange
  unfold next ofYmd at h
  split at h
  · split at h
    · cases h
      simp only [toOrdinal]
      omega
    · cases h
  · next hlast =>
      have hday : d.day = daysInMonth d.year d.month := by omega
      have hbefore := @daysBeforeMonth_succ d.year d.month hd.2.1.1
      split at h
      · split at h
        · cases h
          simp only [toOrdinal]
          omega
        · cases h
      · next hmonth =>
          split at h
          · cases h
            have htwelve : d.month = 12 := by omega
            have hyear := daysBeforeYear_succ hd.1.1
            rw [htwelve] at hbefore hday
            rw [daysBeforeMonth_thirteen d.year] at hbefore
            have hjanuary : daysBeforeMonth (d.year + 1) 1 = 0 := rfl
            simp only [toOrdinal, htwelve]
            omega
          · cases h

theorem Date.toOrdinal_prev (h : d.prev = some e) :
    e.toOrdinal + 1 = d.toOrdinal := by
  have hd := d.inRange
  unfold prev ofYmd at h
  split at h
  · split at h
    · cases h
      simp only [toOrdinal]
      omega
    · cases h
  · next hfirst =>
      split at h
      · next hmonth =>
          split at h
          · cases h
            have hbefore := @daysBeforeMonth_succ d.year (d.month - 1) (by omega)
            rw [Nat.sub_add_cancel (by omega)] at hbefore
            simp only [toOrdinal]
            omega
          · cases h
      · split at h
        · next hrange =>
            cases h
            have hone : d.month = 1 := by omega
            have hyear := @daysBeforeYear_succ (d.year - 1) hrange.1.1
            rw [Nat.sub_add_cancel (by omega)] at hyear
            have hdecember := @daysBeforeMonth_succ (d.year - 1) 12 (by decide)
            have hdays : daysInMonth (d.year - 1) 12 = 31 := rfl
            have hjanuary : daysBeforeMonth d.year d.month = 0 := by
              rw [hone]
              rfl
            rw [daysBeforeMonth_thirteen, hdays] at hdecember
            simp only [toOrdinal]
            omega
        · cases h

/-! ## Instants -/

/-- Microseconds since the start of the calendar, in UTC. -/
def instant (date : Date) (clock : Clock) (offset : Int) : Int :=
  date.toOrdinal * microsPerDay + clock.micros - offset

/-- The instant a text denotes; a text without an offset denotes none. -/
def instantOf (value : String) : Option Int := do
  let parsed ← fromIsoformat (replaceZulu (Text.strip value.toList))
  let offset ← parsed.offset
  some (instant parsed.date parsed.clock offset)

example : instantOf "2026-07-29T02:30:00+02:30" = instantOf "20260729T00Z" := by decide +kernel

theorem Clock.micros_ofMicros {n : Nat} (h : n < microsPerDay) : (ofMicros n).micros = n := by
  unfold microsPerDay at h
  simp only [ofMicros, micros]
  omega

/-- Going to UTC keeps the instant. -/
theorem instant_toUtc {date date' : Date} {clock clock' : Clock} {offset : Int}
    (h : toUtc date clock offset = some (date', clock')) (hoffset : |offset| < microsPerDay) :
    instant date' clock' 0 = instant date clock offset := by
  have hclock := clock.micros_lt
  rw [abs_lt] at hoffset
  unfold toUtc at h
  simp only at h
  split at h
  · next hneg =>
      rw [Option.map_eq_some_iff] at h
      obtain ⟨d, hd, h⟩ := h
      cases h
      have hday := Date.toOrdinal_prev hd
      have hmicros := @Clock.micros_ofMicros ((clock.micros : Int) - offset + microsPerDay).toNat
        (by omega)
      simp only [instant, hmicros, ← hday]
      push_cast
      rw [Int.toNat_of_nonneg (by omega)]
      ring
  · split at h
    · rw [Option.map_eq_some_iff] at h
      obtain ⟨d, hd, h⟩ := h
      cases h
      have hday := Date.toOrdinal_next hd
      have hmicros := @Clock.micros_ofMicros ((clock.micros : Int) - offset - microsPerDay).toNat
        (by omega)
      simp only [instant, hmicros, hday]
      push_cast
      rw [Int.toNat_of_nonneg (by omega)]
      ring
    · cases h
      have hmicros := @Clock.micros_ofMicros ((clock.micros : Int) - offset).toNat (by omega)
      simp only [instant, hmicros]
      rw [Int.toNat_of_nonneg (by omega)]
      ring

/-! ## Canonical texts are ordered as their instants -/

theorem digitChar_toNat {n : Nat} (h : n < 10) : (digitChar n).toNat = 48 + n := by
  unfold digitChar
  interval_cases n <;> decide

theorem digitChar_lt {m n : Nat} (hm : m < 10) (hn : n < 10) :
    digitChar m < digitChar n ↔ m < n := by
  show (digitChar m).toNat < (digitChar n).toNat ↔ _
  rw [digitChar_toNat hm, digitChar_toNat hn]
  omega

theorem digitChar_mod (n : Nat) : digitChar (n % 10) = digitChar n := by
  simp [digitChar]

theorem digitChar_inj {m n : Nat} (h : digitChar m = digitChar n) : m % 10 = n % 10 := by
  have hvalue := congrArg digitValue h
  simpa using hvalue

theorem pad_append_lt {w m n : Nat} (hm : m < 10 ^ w) (hn : n < 10 ^ w) (xs ys : List Char) :
    pad w m ++ xs < pad w n ++ ys ↔ m < n ∨ m = n ∧ xs < ys := by
  induction w generalizing m n xs ys with
  | zero =>
    obtain rfl : m = 0 := by simpa using hm
    obtain rfl : n = 0 := by simpa using hn
    simp [pad]
  | succ w ih =>
    have hm' : m / 10 < 10 ^ w := by omega
    have hn' : n / 10 < 10 ^ w := by omega
    rw [pad, pad, List.append_assoc, List.append_assoc, ih hm' hn', List.singleton_append,
      List.singleton_append, List.cons_lt_cons_iff, ← digitChar_mod m, ← digitChar_mod n,
      digitChar_lt (Nat.mod_lt _ (by decide)) (Nat.mod_lt _ (by decide))]
    have hdigit : digitChar (m % 10) = digitChar (n % 10) ↔ m % 10 = n % 10 :=
      ⟨fun h => by simpa using digitChar_inj h, fun h => by rw [h]⟩
    rw [hdigit]
    constructor
    · rintro (h | ⟨hdiv, h | ⟨hmod, h⟩⟩)
      · exact .inl (by omega)
      · exact .inl (by omega)
      · exact .inr ⟨by omega, h⟩
    · rintro (h | ⟨rfl, h⟩)
      · rcases Nat.lt_trichotomy (m / 10) (n / 10) with hdiv | hdiv | hdiv
        · exact .inl hdiv
        · exact .inr ⟨hdiv, .inl (by omega)⟩
        · omega
      · exact .inr ⟨rfl, .inr ⟨rfl, h⟩⟩

theorem cons_same_lt (c : Char) (xs ys : List Char) : c :: xs < c :: ys ↔ xs < ys := by
  rw [List.cons_lt_cons_iff]
  simp

theorem Date.day_lt (d : Date) : d.day < 10 ^ 2 := by
  have hd := d.inRange.2.2.2
  have : daysInMonth d.year d.month ≤ 31 := by
    unfold daysInMonth
    split <;> split <;> omega
  omega

theorem isoformatUtc_lt {c k : Clock} :
    isoformatUtc d c < isoformatUtc e k ↔
      d.Before e ∨ d = e ∧ c.micros < k.micros := by
  have hd := d.inRange
  have he := e.inRange
  have hc := c.inRange
  have hk := k.inRange
  unfold isoformatUtc
  simp only [List.append_assoc, List.cons_append]
  rw [pad_append_lt (by omega) (by omega), cons_same_lt, pad_append_lt (by omega) (by omega),
    cons_same_lt, pad_append_lt d.day_lt e.day_lt, cons_same_lt,
    pad_append_lt (by omega) (by omega), cons_same_lt, pad_append_lt (by omega) (by omega),
    cons_same_lt, pad_append_lt (by omega) (by omega), cons_same_lt,
    pad_append_lt (by omega) (by omega)]
  have hdate : d = e ↔ d.year = e.year ∧ d.month = e.month ∧ d.day = e.day :=
    ⟨by rintro rfl; exact ⟨rfl, rfl, rfl⟩, fun h => Date.ext h.1 h.2.1 h.2.2⟩
  rw [hdate]
  simp only [Date.Before, Clock.micros, lt_irrefl, and_false, or_false]
  omega

theorem isoformatUtc_lt_iff {c k : Clock} :
    isoformatUtc d c < isoformatUtc e k ↔ instant d c 0 < instant e k 0 := by
  have hc := c.micros_lt
  have hk := k.micros_lt
  rw [isoformatUtc_lt, Date.before_iff]
  have heq : d = e ↔ d.toOrdinal = e.toOrdinal := by
    refine ⟨fun h => by rw [h], fun h => ?_⟩
    rcases d.before_trichotomy e with hlt | rfl | hgt
    · exact absurd hlt.toOrdinal_lt (by omega)
    · rfl
    · exact absurd hgt.toOrdinal_lt (by omega)
  rw [heq]
  unfold instant microsPerDay at *
  omega

/-! ## Texts -/

theorem parseOffset_lt {negative : Bool} {text : List Char} {offset : Int}
    (h : parseOffset negative text = some offset) : |offset| < microsPerDay := by
  unfold parseOffset at h
  split at h
  · cases h
  · obtain ⟨⟨hour, minute, second, fraction⟩, -, h⟩ := Option.bind_eq_some_iff.1 h
    dsimp only at h
    generalize ((hour * 60 + minute) * 60 + second) * 1000000 + fraction = total at h
    generalize microsPerDay = day at h ⊢
    split at h
    · next hlt =>
        rw [← Option.some.inj h, abs_lt]
        split <;> omega
    · cases h

theorem parseIsoformatTime_offset_lt {text : List Char} {clock : Clock} {offset : Int}
    (h : parseIsoformatTime text = some (clock, some offset)) : |offset| < microsPerDay := by
  unfold parseIsoformatTime at h
  split at h
  · cases h
  · simp only [Option.bind_eq_bind, Option.bind_eq_some_iff] at h
    obtain ⟨parts, -, c, -, h⟩ := h
    generalize (text.idxOf? '-').or ((text.idxOf? '+').or (text.idxOf? 'Z')) = mark at h
    cases mark with
    | none => simp at h
    | some i =>
      dsimp only at h
      split at h
      · simp only [Option.some.injEq, Prod.mk.injEq] at h
        rw [← h.2]
        simp [microsPerDay]
      · simp only [Option.bind_eq_some_iff, Option.some.injEq, Prod.mk.injEq] at h
        obtain ⟨o, ho, -, rfl⟩ := h
        exact parseOffset_lt ho

theorem fromIsoformat_offset_lt {text : List Char} {parsed : DateTime} {offset : Int}
    (h : fromIsoformat text = some parsed) (ho : parsed.offset = some offset) :
    |offset| < microsPerDay := by
  unfold fromIsoformat at h
  split at h
  · cases h
  · simp only [Option.bind_eq_bind, Option.bind_eq_some_iff] at h
    obtain ⟨location, -, date, -, h⟩ := h
    split at h
    · cases h
      cases ho
    · simp only [Option.bind_eq_some_iff] at h
      obtain ⟨⟨clock, o⟩, htime, h⟩ := h
      cases h
      dsimp only at ho
      subst ho
      exact parseIsoformatTime_offset_lt htime

theorem canonicalTimestamp_instant {value text : String}
    (h : canonicalTimestamp value = some text) :
    ∃ date clock, text = String.ofList (isoformatUtc date clock) ∧
      instantOf value = some (instant date clock 0) := by
  unfold canonicalTimestamp at h
  simp only [Option.bind_eq_bind, Option.bind_eq_some_iff] at h
  obtain ⟨parsed, hparsed, offset, hoffset, ⟨date, clock⟩, hutc, h⟩ := h
  cases h
  refine ⟨date, clock, rfl, ?_⟩
  have hsame := instant_toUtc hutc (fromIsoformat_offset_lt hparsed hoffset)
  simp [instantOf, hparsed, hoffset, hsame]

/-- **The canonical text denotes the same instant.** -/
theorem instantOf_canonical {value text : String} (h : canonicalTimestamp value = some text) :
    instantOf text = instantOf value := by
  obtain ⟨date, clock, htext, hinstant⟩ := canonicalTimestamp_instant h
  obtain ⟨date', clock', htext', hinstant'⟩ :=
    canonicalTimestamp_instant (canonicalTimestamp_idem h)
  rw [hinstant, hinstant']
  have hlist : isoformatUtc date clock = isoformatUtc date' clock' :=
    String.ofList_injective (htext.symm.trans htext')
  have hle : ¬ instant date clock 0 < instant date' clock' 0 := by
    rw [← isoformatUtc_lt_iff, hlist]
    exact lt_irrefl _
  have hge : ¬ instant date' clock' 0 < instant date clock 0 := by
    rw [← isoformatUtc_lt_iff, hlist]
    exact lt_irrefl _
  rw [le_antisymm (not_lt.mp hge) (not_lt.mp hle)]

/-- **Order embedding**: canonical texts are ordered as the instants they denote. -/
theorem canonical_le_iff {a b : String} (ha : canonicalTimestamp a = some a)
    (hb : canonicalTimestamp b = some b) :
    ∃ i j, instantOf a = some i ∧ instantOf b = some j ∧ (a ≤ b ↔ i ≤ j) := by
  obtain ⟨date, clock, hatext, hainstant⟩ := canonicalTimestamp_instant ha
  obtain ⟨date', clock', hbtext, hbinstant⟩ := canonicalTimestamp_instant hb
  refine ⟨_, _, hainstant, hbinstant, ?_⟩
  rw [← not_lt, ← not_lt, String.lt_iff_toList_lt, hatext, hbtext, String.toList_ofList,
    String.toList_ofList, isoformatUtc_lt_iff]

/-- **Canonical timestamps embed time order.** What the function returns for two texts is ordered as
the instants of the texts are, is one text exactly if the instants are one, and is returned
unchanged. -/
theorem canonicalTimestamp_order {a b canonical canonical' : String}
    (ha : canonicalTimestamp a = some canonical) (hb : canonicalTimestamp b = some canonical') :
    ∃ i j, instantOf a = some i ∧ instantOf b = some j ∧
      (canonical < canonical' ↔ i < j) ∧ (canonical ≤ canonical' ↔ i ≤ j) ∧
      (canonical = canonical' ↔ i = j) ∧
      canonicalTimestamp canonical = some canonical := by
  have hidem := canonicalTimestamp_idem ha
  have hidem' := canonicalTimestamp_idem hb
  obtain ⟨i, j, hi, hj, hle⟩ := canonical_le_iff hidem hidem'
  obtain ⟨j', i', hj', hi', hge⟩ := canonical_le_iff hidem' hidem
  obtain rfl : i = i' := Option.some.inj (hi.symm.trans hi')
  obtain rfl : j = j' := Option.some.inj (hj.symm.trans hj')
  rw [instantOf_canonical ha] at hi
  rw [instantOf_canonical hb] at hj
  refine ⟨i, j, hi, hj, ?_, hle, ?_, hidem⟩
  · rw [← not_le, ← not_le, hge]
  · rw [le_antisymm_iff, le_antisymm_iff, hle, hge]

/-- Two spellings of instants a microsecond apart, over the end of a year. -/
theorem canonicalTimestamp_order_new_year :
    "2025-12-31T23:59:59.999999Z" < "2026-01-01T00:00:00.000000Z" ∧
      ∃ i j, instantOf "2026-01-01T01:29:59.999999+01:30" = some i ∧
        instantOf "2025-12-31T23:00:00-01:00" = some j ∧ i < j := by
  have ha : canonicalTimestamp "2026-01-01T01:29:59.999999+01:30" =
      some "2025-12-31T23:59:59.999999Z" := by decide +kernel
  have hb : canonicalTimestamp "2025-12-31T23:00:00-01:00" =
      some "2026-01-01T00:00:00.000000Z" := by decide +kernel
  obtain ⟨i, j, hi, hj, hlt, -⟩ := canonicalTimestamp_order ha hb
  have htexts : "2025-12-31T23:59:59.999999Z" < "2026-01-01T00:00:00.000000Z" := by decide +kernel
  exact ⟨htexts, i, j, hi, hj, hlt.mp htexts⟩

end AtlasDb.Core.Timestamp
