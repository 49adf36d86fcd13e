import NdimonR.Library.Calendar
import NdimonR.Library.SortBy
import NdimonR.Library.Text
import NdimonR.Library.ZeroPadded

/-! The times of snapshots: the text of a time, the calendar it comes from, and the order of what is
listed by it. -/

namespace NdimonR.State.Storage

open Calendar ZeroPadded

/-! ### The conversion -/

/-- Nanoseconds since the epoch. -/
abbrev SystemTime := Int

/-- Year, month and day of a number of days since the epoch, over years that begin in March. -/
def civil (days : Int) : Int × Int × Int :=
  let z := days + 719468
  let era := z / 146097
  let doe := z - era * 146097
  let yoe := (doe - doe / 1460 + doe / 36524 - doe / 146096) / 365
  let year := yoe + era * 400
  let doy := doe - (365 * yoe + yoe / 4 - yoe / 100)
  let mp := (5 * doy + 2) / 153
  let day := doy - (153 * mp + 2) / 5 + 1
  let month := mp + if mp < 10 then 3 else -9
  (year + if month ≤ 2 then 1 else 0, month, day)

/-- A time before the epoch counts as the epoch. -/
def iso (t : SystemTime) : String :=
  let duration := t.toNat
  let seconds := duration / 10 ^ 9
  let (year, month, day) := civil (seconds / 86400 : Nat)
  zeroPadded 4 year ++ "-" ++ zeroPadded 2 month ++ "-" ++ zeroPadded 2 day ++ "T" ++
    zeroPadded 2 (seconds / 3600 % 24 : Nat) ++ ":" ++ zeroPadded 2 (seconds / 60 % 60 : Nat) ++
    ":" ++ zeroPadded 2 (seconds % 60 : Nat) ++ "." ++
    zeroPadded 3 (duration % 10 ^ 9 / 10 ^ 6 : Nat) ++ "Z"

/-- The name of an upload or a snapshot made at a time. -/
def stamp (now : SystemTime) : String :=
  let digits := ((iso now).toList.filter Char.isDigit).take 12
  String.ofList (digits.zipIdx.flatMap fun (c, i) => if i = 8 then ['-', c] else [c])

/-- A file of the snapshot directory whose metadata can be read. -/
structure Entry where
  name : String
  isFile : Bool
  bytes : Nat
  modified : SystemTime

structure Snapshot where
  name : String
  bytes : Nat
  mtime : String
  deriving DecidableEq

def Entry.isSnapshot (e : Entry) : Bool :=
  Text.startsWithText "pre-restore-" e.name && Text.endsWithText ".json" e.name && e.isFile

def Entry.shown (e : Entry) : Snapshot := ⟨e.name, e.bytes, iso e.modified⟩

/-- The snapshots, the latest text first. -/
def snapshots (directory : List Entry) : List Snapshot :=
  sortBy (fun s => OrderDual.toDual s.mtime) ((directory.filter Entry.isSnapshot).map Entry.shown)

/-! ### The calendar -/

/-- Where a day lies in its era: centuries, fours of years and years before it, and its day in the
year that began in March. -/
structure EraDay (doe c q r doy : Nat) : Prop where
  sum : doe = 36524 * c + 1461 * q + 365 * r + doy
  century : c ≤ 3
  four : q ≤ 24
  year : r ≤ 3
  day : doy ≤ 365
  leap : doy = 365 → r = 3 ∧ (q = 24 → c = 3)

theorem exists_eraDay {doe : Nat} (h : doe < 146097) : ∃ c q r doy, EraDay doe c q r doy := by
  obtain ⟨c, a, hc, ha⟩ : ∃ c a, doe = 36524 * c + a ∧ c ≤ 3 ∧ (a < 36524 ∨ c = 3 ∧ a = 36524) := by
    by_cases hlast : doe = 146096
    · exact ⟨3, 36524, by omega, le_rfl, .inr ⟨rfl, rfl⟩⟩
    · exact ⟨doe / 36524, doe % 36524, (Nat.div_add_mod _ _).symm, by omega, .inl (by omega)⟩
  obtain ⟨r, b, hb, hr⟩ : ∃ r b, a % 1461 = 365 * r + b ∧ r ≤ 3 ∧ (b < 365 ∨ r = 3 ∧ b = 365) := by
    have hlt : a % 1461 < 1461 := Nat.mod_lt _ (by decide)
    by_cases hlast : a % 1461 = 1460
    · exact ⟨3, 365, by omega, le_rfl, .inr ⟨rfl, rfl⟩⟩
    · exact ⟨a % 1461 / 365, a % 1461 % 365, (Nat.div_add_mod _ _).symm, by omega,
        .inl (by omega)⟩
  have hdiv := Nat.div_add_mod a 1461
  exact ⟨c, a / 1461, r, b, by omega, ha.1, by omega, hr.1, by omega, by omega⟩

/-- The quotient by 365 is the year of the era. -/
theorem EraDay.quotient {doe c q r doy : Nat} (h : EraDay doe c q r doy) :
    (doe - doe / 1460 + doe / 36524 - doe / 146096) / 365 = 100 * c + 4 * q + r := by
  obtain ⟨hsum, hc, hq, hr, hday, hleap⟩ := h
  obtain ⟨extra, hextra, hfours⟩ : ∃ extra, doe / 1460 = 25 * c + q + extra ∧
      (extra = 0 ∧ 24 * c + q + 365 * r + doy < 1460 ∨
        extra = 1 ∧ 1460 ≤ 24 * c + q + 365 * r + doy) := by
    by_cases hlt : 24 * c + q + 365 * r + doy < 1460
    · exact ⟨0, by omega, .inl ⟨rfl, hlt⟩⟩
    · exact ⟨1, by omega, .inr ⟨rfl, by omega⟩⟩
  obtain ⟨last, hlast, hcenturies⟩ : ∃ last, doe / 146096 = last ∧ doe / 36524 = c + last := by
    by_cases hlt : doe < 146096
    · exact ⟨0, by omega, by omega⟩
    · exact ⟨1, by omega, by omega⟩
  rw [hextra, hlast, hcenturies]
  omega

theorem EraDay.yoe {doe c q r doy : Nat} (h : EraDay doe c q r doy) :
    ((doe : Int) - doe / 1460 + doe / 36524 - doe / 146096) / 365 =
      (100 * c + 4 * q + r : Nat) := by
  have hnat : (doe : Int) - doe / 1460 + doe / 36524 - doe / 146096 =
      (doe - doe / 1460 + doe / 36524 - doe / 146096 : Nat) := by omega
  rw [hnat, ← h.quotient]
  rfl

/-- What is left of the era's day is the day of that year. -/
theorem EraDay.doy {doe c q r doy : Nat} (h : EraDay doe c q r doy) :
    (doe : Int) - (365 * (100 * c + 4 * q + r : Nat) + (100 * c + 4 * q + r : Nat) / 4 -
      (100 * c + 4 * q + r : Nat) / 100) = doy := by
  obtain ⟨hsum, -, hq, hr, -, -⟩ := h
  have hfours : ((100 * c + 4 * q + r : Nat) : Int) / 4 = 25 * c + q := by omega
  have hhundreds : ((100 * c + 4 * q + r : Nat) : Int) / 100 = c := by omega
  rw [hfours, hhundreds]
  omega

/-- The month and the day of a year that began in March. -/
theorem march_day : ∀ doy ≤ 365, (5 * doy + 2) / 153 ≤ 11 ∧
    (153 * ((5 * doy + 2) / 153) + 2) / 5 ≤ doy ∧
    ((5 * doy + 2) / 153 < 10 → doy - (153 * ((5 * doy + 2) / 153) + 2) / 5 + 1 ≤
      monthLength 1 ((5 * doy + 2) / 153 + 3)) ∧
    ((5 * doy + 2) / 153 = 10 → doy < 306 + 31) ∧
    ((5 * doy + 2) / 153 = 11 → 306 + 31 ≤ doy) := by
  decide +kernel

theorem march_start {year mp : Nat} (h : mp ≤ 10) :
    monthStart year (mp + 2) = monthStart year 2 + (153 * mp + 2) / 5 := by
  interval_cases mp <;> simp [monthStart, monthLength]

theorem march_length {year mp : Nat} (h : mp < 10) :
    monthLength year (mp + 3) = monthLength 1 (mp + 3) := by
  interval_cases mp <;> simp [monthLength]

/-- The date that the calendar has for a day. -/
structure IsDate (days : Nat) (date : Date) : Prop where
  valid : date.Valid
  number : date.number = days + 719528

/-- The start of the year that a day lies in. -/
theorem EraDay.start {days era doe c q r doy : Nat} (h : EraDay doe c q r doy)
    (hdays : days + 719468 = era * 146097 + doe) :
    yearStart (100 * c + 4 * q + r + era * 400) +
      monthStart (100 * c + 4 * q + r + era * 400) 2 + doy = days + 719528 := by
  have hclosed := marchStart (100 * c + 4 * q + r + era * 400)
  obtain ⟨hsum, hcentury, hfour, hyear, -, -⟩ := h
  have h4 : (100 * c + 4 * q + r + era * 400) / 4 = 25 * c + q + 100 * era := by omega
  have h100 : (100 * c + 4 * q + r + era * 400) / 100 = c + 4 * era := by omega
  have h400 : (100 * c + 4 * q + r + era * 400) / 400 = era := by omega
  omega

/-- The leap day ends a year only where the next one is a leap year. -/
theorem EraDay.february {doe c q r doy : Nat} (h : EraDay doe c q r doy) (era : Nat) :
    doy ≤ 336 + monthLength (100 * c + 4 * q + r + era * 400 + 1) 2 := by
  obtain ⟨-, hc, hq, -, hday, hleap⟩ := h
  change doy ≤ 336 + if isLeap _ then 29 else 28
  split
  · omega
  · rename_i hnot
    have hyear := mt isLeap_iff.mpr hnot
    omega

theorem civil_date (days : Nat) : ∃ date : Date, IsDate days date ∧
    civil days = ((date.year : Int), (date.month : Int), (date.day : Int)) := by
  obtain ⟨era, doe, hz, hdoe⟩ : ∃ era doe, days + 719468 = era * 146097 + doe ∧ doe < 146097 :=
    ⟨(days + 719468) / 146097, (days + 719468) % 146097, (Nat.div_add_mod' _ _).symm,
      Nat.mod_lt _ (by decide)⟩
  obtain ⟨c, q, r, doy, hday⟩ := exists_eraDay hdoe
  have hstart := hday.start hz
  have hfebruary := hday.february era
  have hyoe := hday.yoe
  have hdoy := hday.doy
  obtain ⟨mp, hmp⟩ : ∃ mp, mp = (5 * doy + 2) / 153 := ⟨_, rfl⟩
  obtain ⟨hlast, hle, hlength, hten, heleven⟩ := march_day doy hday.day
  rw [← hmp] at hlast hle hlength hten heleven
  generalize 100 * c + 4 * q + r = year at *
  have hcivil : civil days = ((year : Int) + era * 400 +
      (if (mp : Int) + (if (mp : Int) < 10 then 3 else -9) ≤ 2 then 1 else 0),
      (mp : Int) + (if (mp : Int) < 10 then 3 else -9), (doy : Int) - (153 * mp + 2) / 5 + 1) := by
    have hera : ((days : Int) + 719468) / 146097 = era := by omega
    have hrest : (days : Int) + 719468 - era * 146097 = doe := by omega
    have hmarch : (5 * (doy : Int) + 2) / 153 = mp := by omega
    simp only [civil, hera, hrest, hyoe, hdoy, hmarch]
  rw [hcivil]
  clear hcivil hyoe hdoy hz hday hdoe
  by_cases hearly : mp < 10
  · have hmonth := @march_start (year + era * 400) mp hearly.le
    refine ⟨⟨year + era * 400, mp + 3, doy - (153 * mp + 2) / 5 + 1⟩, ⟨⟨?_, ?_⟩, ?_⟩, ?_⟩
    · constructor <;> dsimp only <;> omega
    · exact ⟨Nat.le_add_left 1 _, march_length hearly ▸ hlength hearly⟩
    · change yearStart _ + monthStart _ (mp + 2) + _ = _
      dsimp only
      omega
    · have hshift : (if (mp : Int) < 10 then (3 : Int) else -9) = 3 := if_pos (by omega)
      rw [hshift, if_neg (by omega)]
      simp only [Prod.mk.injEq]
      omega
  · -- January and February belong to the next year.
    have hnext : yearStart (year + era * 400 + 1) =
        yearStart (year + era * 400) + monthStart (year + era * 400) 12 := by
      rw [monthStart_twelve]
      rfl
    have hmonths : monthStart (year + era * 400) 12 = monthStart (year + era * 400) 2 + 306 :=
      march_start le_rfl
    have hjanuary : monthLength (year + era * 400 + 1) 1 = 31 := rfl
    have hone : monthStart (year + era * 400 + 1) 1 = 31 := rfl
    have hzero : monthStart (year + era * 400 + 1) 0 = 0 := rfl
    obtain rfl | rfl : mp = 10 ∨ mp = 11 := by omega
    · refine ⟨⟨year + era * 400 + 1, 1, doy - 306 + 1⟩, ⟨⟨?_, ?_⟩, ?_⟩, ?_⟩
      · constructor <;> dsimp only <;> omega
      · dsimp only
        omega
      · change yearStart _ + monthStart _ 0 + _ = _
        dsimp only
        omega
      · simp only [Prod.mk.injEq]
        omega
    · refine ⟨⟨year + era * 400 + 1, 2, doy - 337 + 1⟩, ⟨⟨?_, ?_⟩, ?_⟩, ?_⟩
      · constructor <;> dsimp only <;> omega
      · dsimp only
        omega
      · change yearStart _ + monthStart _ 1 + _ = _
        dsimp only
        omega
      · simp only [Prod.mk.injEq]
        omega

/-! ### The text -/

/-- A time from the epoch up to the end of the year 9999. -/
structure Time where
  ns : Nat
  bounded : ns < 253402300800 * 10 ^ 9

def Time.millis (t : Time) : Nat := t.ns / 10 ^ 6

/-- A date and a time of day to the millisecond. -/
structure Reading where
  date : Date
  hour : Nat
  minute : Nat
  second : Nat
  milli : Nat

/-- The reading of a time by the calendar and the clock. -/
structure Reading.Of (c : Reading) (t : Time) : Prop where
  date : IsDate (t.ns / 10 ^ 9 / 86400) c.date
  year : c.date.year ≤ 9999
  hour : c.hour < 24
  minute : c.minute < 60
  second : c.second < 60
  milli : c.milli < 1000
  millis : t.millis = (((t.ns / 10 ^ 9 / 86400 * 24 + c.hour) * 60 + c.minute) * 60 + c.second) *
    1000 + c.milli

/-- The fields of a reading, each with all its digits. -/
def Reading.text (c : Reading) : List Char :=
  digits 4 c.date.year ++ '-' :: (digits 2 c.date.month ++ '-' :: (digits 2 c.date.day ++ 'T' ::
    (digits 2 c.hour ++ ':' :: (digits 2 c.minute ++ ':' :: (digits 2 c.second ++ '.' ::
      (digits 3 c.milli ++ ['Z']))))))

theorem yearStart_last : yearStart 10000 = 3652425 := by
  have hclosed := marchStart 10000
  have hmonths : monthStart 10000 2 = 60 := rfl
  omega

/-- The day of a date has two digits. -/
theorem Date.Valid.day_lt {date : Date} (h : date.Valid) : date.day < 10 ^ 2 := by
  have hlength : monthLength date.year date.month ≤ 31 := by
    unfold monthLength
    split_ifs <;> omega
  have hday := h.day
  omega

theorem IsDate.year_le {days : Nat} {date : Date} (h : IsDate days date) (hdays : days < 2932897) :
    date.year ≤ 9999 := by
  by_contra hlate
  have hmono := yearStart_mono (show 10000 ≤ date.year by omega)
  have hnumber := h.number
  rw [yearStart_last] at hmono
  unfold Date.number at hnumber
  omega

theorem iso_reading (t : Time) : ∃ c : Reading, c.Of t ∧ iso t.ns = String.ofList c.text := by
  obtain ⟨date, hdate, hcivil⟩ := civil_date (t.ns / 10 ^ 9 / 86400)
  have hbounded := t.bounded
  have hyear := hdate.year_le (by omega)
  have hmonth := hdate.valid.month
  have hday := Date.Valid.day_lt hdate.valid
  refine ⟨⟨date, t.ns / 10 ^ 9 / 3600 % 24, t.ns / 10 ^ 9 / 60 % 60, t.ns / 10 ^ 9 % 60,
    t.ns % 10 ^ 9 / 10 ^ 6⟩, ⟨hdate, hyear, ?_, ?_, ?_, ?_, ?_⟩, ?_⟩
  · exact Nat.mod_lt _ (by decide)
  · exact Nat.mod_lt _ (by decide)
  · exact Nat.mod_lt _ (by decide)
  · dsimp only
    omega
  · simp only [Time.millis]
    omega
  · apply String.toList_inj.mp
    rw [iso, Int.toNat_natCast, hcivil, String.toList_ofList]
    simp only [String.toList_append]
    rw [zeroPadded_toList (by decide) (by omega), zeroPadded_toList (by decide) (by omega),
      zeroPadded_toList (by decide) hday, zeroPadded_toList (by decide) (by omega),
      zeroPadded_toList (by decide) (by omega), zeroPadded_toList (by decide) (by omega),
      zeroPadded_toList (by decide) (by omega)]
    simp [Reading.text]

/-! ### Its order -/

section
variable {c d : Reading} {t u : Time}

/-- One field and what follows it. -/
theorem field_lt {width m n : Nat} (hm : m < 10 ^ width) (hn : n < 10 ^ width) (sep : Char)
    (x y : List Char) : digits width m ++ sep :: x < digits width n ++ sep :: y ↔
      m < n ∨ m = n ∧ x < y := by
  rw [append_lt_append (by simp), digits_lt hm hn, digits_inj hm hn, List.cons_lt_cons_iff]
  simp only [lt_self_iff_false, true_and, false_or]

/-- The dates of two times are ordered as their days. -/
theorem Reading.Of.dates (hc : c.Of t) (hd : d.Of u) :
    (c.date.Before d.date ↔ t.ns / 10 ^ 9 / 86400 < u.ns / 10 ^ 9 / 86400) ∧
      (c.date = d.date ↔ t.ns / 10 ^ 9 / 86400 = u.ns / 10 ^ 9 / 86400) := by
  have hbefore := Date.before_iff hc.date.valid hd.date.valid
  have heq : c.date = d.date ↔ c.date.number = d.date.number :=
    ⟨congrArg _, Date.eq_of_number hc.date.valid hd.date.valid⟩
  rw [hc.date.number, hd.date.number, Nat.add_lt_add_iff_right] at hbefore
  rw [hc.date.number, hd.date.number, Nat.add_right_cancel_iff] at heq
  exact ⟨hbefore, heq⟩

/-- The texts of two times are ordered as their milliseconds. -/
theorem text_lt (hc : c.Of t) (hd : d.Of u) : c.text < d.text ↔ t.millis < u.millis := by
  obtain ⟨hbefore, heq⟩ := hc.dates hd
  rw [Date.ext_iff] at heq
  unfold Date.Before at hbefore
  obtain ⟨hdate, hyear, hhour, hminute, hsecond, hmilli, hmillis⟩ := hc
  obtain ⟨hdate', hyear', hhour', hminute', hsecond', hmilli', hmillis'⟩ := hd
  have hmonth := hdate.valid.month
  have hmonth' := hdate'.valid.month
  rw [Reading.text, Reading.text, field_lt (by omega) (by omega), field_lt (by omega) (by omega),
    field_lt (Date.Valid.day_lt hdate.valid) (Date.Valid.day_lt hdate'.valid),
    field_lt (by omega) (by omega), field_lt (by omega) (by omega), field_lt (by omega) (by omega),
    field_lt (by omega) (by omega)]
  simp only [lt_self_iff_false, and_false, or_false]
  rw [hmillis, hmillis']
  omega

/-! ### What is named and listed by it -/

/-- The digits of a reading up to its minute, with a dash after the date. -/
def Reading.minuteText (c : Reading) : List Char :=
  digits 4 c.date.year ++ (digits 2 c.date.month ++ (digits 2 c.date.day ++ '-' ::
    (digits 2 c.hour ++ digits 2 c.minute)))

theorem filter_digits (width n : Nat) : (digits width n).filter Char.isDigit = digits width n :=
  List.filter_eq_self.mpr fun _ => isDigit_of_mem

/-- No dash goes where no character is the ninth. -/
theorem dashed_eq_self {l : List Char} {k : Nat} (h : k + l.length ≤ 8 ∨ 8 < k) :
    ((l.zipIdx k).flatMap fun (c, i) => if i = 8 then ['-', c] else [c]) = l := by
  induction l generalizing k with
  | nil => rfl
  | cons c l ih =>
    rw [List.length_cons] at h
    rw [List.zipIdx_cons, List.flatMap_cons, ih (by omega)]
    dsimp only
    rw [if_neg (by omega)]
    rfl

theorem dashed_ninth {l rest : List Char} {c : Char} (h : l.length = 8) :
    ((l ++ c :: rest).zipIdx.flatMap fun (c, i) => if i = 8 then ['-', c] else [c]) =
      l ++ '-' :: c :: rest := by
  rw [List.zipIdx_append, List.flatMap_append, dashed_eq_self (by omega), List.zipIdx_cons,
    List.flatMap_cons, dashed_eq_self (by omega), Nat.zero_add, h]
  rfl

theorem stamp_reading (hiso : iso t.ns = String.ofList c.text) :
    stamp t.ns = String.ofList c.minuteText := by
  obtain ⟨h, rest, hhour⟩ := List.exists_cons_of_length_eq_add_one (@length_digits 2 c.hour)
  have hdigits : (c.text.filter Char.isDigit).take 12 =
      (digits 4 c.date.year ++ (digits 2 c.date.month ++ digits 2 c.date.day)) ++
        h :: (rest ++ digits 2 c.minute) := by
    have hfilter : c.text.filter Char.isDigit =
        (digits 4 c.date.year ++ (digits 2 c.date.month ++ digits 2 c.date.day)) ++
          (digits 2 c.hour ++ digits 2 c.minute) ++ (digits 2 c.second ++ digits 3 c.milli) := by
      have hseparators : '-'.isDigit = false ∧ 'T'.isDigit = false ∧ ':'.isDigit = false ∧
          '.'.isDigit = false ∧ 'Z'.isDigit = false := by decide
      simp only [Reading.text, List.filter_append, List.filter_cons, filter_digits, hseparators,
        Bool.false_eq_true, if_false, List.filter_nil, List.append_assoc, List.append_nil]
    rw [hfilter, List.take_left' (by simp), hhour]
    rfl
  rw [stamp, hiso, String.toList_ofList, hdigits]
  dsimp only
  rw [dashed_ninth (by simp), Reading.minuteText, hhour]
  simp

theorem stamp_lt (hc : c.Of t) (hd : d.Of u) :
    c.minuteText < d.minuteText ↔ t.ns / (60 * 10 ^ 9) < u.ns / (60 * 10 ^ 9) := by
  obtain ⟨hbefore, heq⟩ := hc.dates hd
  rw [Date.ext_iff] at heq
  unfold Date.Before at hbefore
  obtain ⟨hdate, hyear, hhour, hminute, hsecond, hmilli, hmillis⟩ := hc
  obtain ⟨hdate', hyear', hhour', hminute', hsecond', hmilli', hmillis'⟩ := hd
  have hmonth := hdate.valid.month
  have hmonth' := hdate'.valid.month
  have hday := Date.Valid.day_lt hdate.valid
  have hday' := Date.Valid.day_lt hdate'.valid
  have htime : t.ns / (60 * 10 ^ 9) =
      (t.ns / 10 ^ 9 / 86400 * 24 + c.hour) * 60 + c.minute := by
    unfold Time.millis at hmillis
    omega
  have htime' : u.ns / (60 * 10 ^ 9) =
      (u.ns / 10 ^ 9 / 86400 * 24 + d.hour) * 60 + d.minute := by
    unfold Time.millis at hmillis'
    omega
  rw [Reading.minuteText, Reading.minuteText, append_lt_append (by simp),
    append_lt_append (by simp), field_lt hday hday', append_lt_append (by simp),
    digits_lt (by omega) (by omega), digits_lt (by omega) (by omega),
    digits_lt (by omega) (by omega), digits_lt (by omega) (by omega),
    digits_inj (by omega) (by omega), digits_inj (by omega) (by omega),
    digits_inj (by omega) (by omega), htime, htime']
  clear hmillis hmillis' htime htime'
  omega

/-- The list of snapshots is that of the files, the latest millisecond first. -/
theorem snapshots_sorted {directory : List Entry}
    (htimes : ∀ e ∈ directory, ∃ t : Time, e.modified = t.ns) :
    ∃ l : List Entry, l.Perm (directory.filter Entry.isSnapshot) ∧ snapshots directory = l.map Entry.shown ∧
      l.Pairwise fun a b => b.modified / 10 ^ 6 ≤ a.modified / 10 ^ 6 := by
  let key : Entry → Stringᵒᵈ := fun e => OrderDual.toDual (iso e.modified)
  refine ⟨sortBy key (directory.filter Entry.isSnapshot), SortBy.perm _ _,
    (SortBy.map_sortBy fun _ => rfl).symm, ?_⟩
  refine (SortBy.sorted key _).imp_of_mem fun {a b} ha hb hle => ?_
  obtain ⟨t, ht⟩ := htimes a (List.mem_filter.mp (SortBy.mem_iff.mp ha)).1
  obtain ⟨u, hu⟩ := htimes b (List.mem_filter.mp (SortBy.mem_iff.mp hb)).1
  obtain ⟨c, hc, hctext⟩ := iso_reading t
  obtain ⟨d, hd, hdtext⟩ := iso_reading u
  have hle' : iso b.modified ≤ iso a.modified := hle
  rw [ht, hu, hctext, hdtext, ← not_lt, String.lt_iff_toList_lt, String.toList_ofList,
    String.toList_ofList, text_lt hc hd, not_lt] at hle'
  rw [ht, hu]
  exact_mod_cast hle'

end

/-- The text of a time is what calendar and clock read at its millisecond, texts and the names made
of them are ordered by time, and so is the list of snapshots. -/
theorem snapshot_times :
    (∀ t : Time, ∃ c : Reading, c.Of t ∧ iso t.ns = String.ofList c.text) ∧
    (∀ t u : Time, iso t.ns < iso u.ns ↔ t.millis < u.millis) ∧
    (∀ t u : Time, stamp t.ns < stamp u.ns ↔ t.ns / (60 * 10 ^ 9) < u.ns / (60 * 10 ^ 9)) ∧
    ∀ directory : List Entry, (∀ e ∈ directory, ∃ t : Time, e.modified = t.ns) →
      ∃ l : List Entry, l.Perm (directory.filter Entry.isSnapshot) ∧ snapshots directory = l.map Entry.shown ∧
        l.Pairwise fun a b => b.modified / 10 ^ 6 ≤ a.modified / 10 ^ 6 := by
  refine ⟨iso_reading, fun t u => ?_, fun t u => ?_, fun _ => snapshots_sorted⟩
  · obtain ⟨c, hc, hctext⟩ := iso_reading t
    obtain ⟨d, hd, hdtext⟩ := iso_reading u
    rw [hctext, hdtext, String.lt_iff_toList_lt, String.toList_ofList, String.toList_ofList]
    exact text_lt hc hd
  · obtain ⟨c, hc, hctext⟩ := iso_reading t
    obtain ⟨d, hd, hdtext⟩ := iso_reading u
    rw [stamp_reading hctext, stamp_reading hdtext, String.lt_iff_toList_lt, String.toList_ofList,
      String.toList_ofList]
    exact stamp_lt hc hd

/-- The last millisecond of a leap day, and the next. -/
def leapDay : Time := ⟨1709251199999 * 10 ^ 6, by decide⟩

def marchFirst : Time := ⟨1709251200000 * 10 ^ 6, by decide⟩

def twoSnapshots : List Entry :=
  [⟨"pre-restore-a.json", true, 2, leapDay.ns⟩, ⟨"pre-restore-b.json", true, 2, marchFirst.ns⟩]

theorem twoSnapshots_times : iso leapDay.ns < iso marchFirst.ns ∧
    ∃ l : List Entry, l.Perm (twoSnapshots.filter Entry.isSnapshot) ∧
      snapshots twoSnapshots = l.map Entry.shown ∧
      l.Pairwise fun a b => b.modified / 10 ^ 6 ≤ a.modified / 10 ^ 6 := by
  refine ⟨(snapshot_times.2.1 _ _).mpr (by decide), snapshot_times.2.2.2 twoSnapshots ?_⟩
  intro e he
  simp only [twoSnapshots, List.mem_cons, List.not_mem_nil, or_false] at he
  rcases he with rfl | rfl
  · exact ⟨leapDay, rfl⟩
  · exact ⟨marchFirst, rfl⟩

end NdimonR.State.Storage
