import Mathlib.Data.Nat.Find
import FullstackSvc.Text.Decimal

/-!
# Dates as text

`Date.prototype.toISOString` of JavaScript and `DateTime.parse` of Dart, on the proleptic
Gregorian calendar.  A date is its milliseconds from 1970 on, and what is parsed is in
microseconds.

* `dayOf_civil`: a day has one year, month and day of the month.
* `parseDateTime_toISOString`: **the text of a date is parsed as that date**.
-/

namespace FullstackSvc.Text

/-! ### The calendar -/

/-- The days from 1 January 1970 to 1 January of a year. -/
def dayFromYear (y : Int) : Int :=
  365 * (y - 1970) + (y - 1969) / 4 - (y - 1901) / 100 + (y - 1601) / 400

def isLeapYear (y : Int) : Bool := decide (y % 4 = 0) && (decide (y % 100 ≠ 0) || decide (y % 400 = 0))

/-- The days of a year before a month; January is 0. -/
def daysUntilMonth (leap : Bool) (month : Nat) : Nat :=
  if leap then [0, 31, 60, 91, 121, 152, 182, 213, 244, 274, 305, 335].getD month 366
  else [0, 31, 59, 90, 120, 151, 181, 212, 243, 273, 304, 334].getD month 365

/-- The day of a year, a month from 0 and a day of the month; months beyond a year count on. -/
def dayOf (year month day : Int) : Int :=
  let y := year + month / 12
  dayFromYear y + daysUntilMonth (isLeapYear y) (month % 12).toNat + (day - 1)

/-- The last year that has begun, counted from 1970. -/
def yearsTo (day : Nat) : Nat :=
  Nat.findGreatest (fun n => dayFromYear (1970 + n) ≤ day) (day / 365)

/-- The last month that has begun by a day of the year; January is 0. -/
def monthOf (leap : Bool) (dayInYear : Nat) : Nat :=
  Nat.findGreatest (fun month => daysUntilMonth leap month ≤ dayInYear) 11

structure CivilDate where
  year : Nat
  month : Nat
  day : Nat
  deriving DecidableEq

/-- The date of a day from 1970 on; January is 0. -/
def civil (day : Nat) : CivilDate :=
  let year := 1970 + yearsTo day
  let dayInYear := day - (dayFromYear year).toNat
  let month := monthOf (isLeapYear year) dayInYear
  ⟨year, month, dayInYear - daysUntilMonth (isLeapYear year) month + 1⟩

theorem dayFromYear_succ (y : Int) :
    dayFromYear (y + 1) = dayFromYear y + if isLeapYear y then 366 else 365 := by
  by_cases h : isLeapYear y = true
  · rw [if_pos h]
    simp only [isLeapYear, Bool.and_eq_true, Bool.or_eq_true, decide_eq_true_eq] at h
    unfold dayFromYear
    omega
  · rw [if_neg h]
    simp only [isLeapYear, Bool.and_eq_true, Bool.or_eq_true, decide_eq_true_eq] at h
    unfold dayFromYear
    omega

theorem le_dayFromYear (n : Nat) : (365 * n : Int) ≤ dayFromYear (1970 + n) := by
  induction n with
  | zero => decide
  | succ n ih =>
    have h := dayFromYear_succ (1970 + n)
    rw [Int.natCast_succ, ← Int.add_assoc, h]
    split <;> omega

/-- A day is in the last year that has begun. -/
theorem yearsTo_spec (day : Nat) :
    dayFromYear (1970 + yearsTo day) ≤ day ∧ (day : Int) < dayFromYear (1970 + yearsTo day + 1) := by
  have h0 : dayFromYear (1970 + (0 : Nat)) ≤ day := by
    show (0 : Int) ≤ day
    omega
  constructor
  · exact Nat.findGreatest_spec (P := fun n : Nat => dayFromYear (1970 + n) ≤ day)
      (Nat.zero_le (day / 365)) h0
  · by_contra hle
    rw [Int.not_lt] at hle
    have hle' : dayFromYear (1970 + (yearsTo day + 1 : Nat)) ≤ day := by
      rw [Int.natCast_succ, ← Int.add_assoc]
      exact hle
    have hbound : yearsTo day + 1 ≤ day / 365 := by
      have := le_dayFromYear (yearsTo day + 1)
      omega
    have := Nat.le_findGreatest (P := fun n : Nat => dayFromYear (1970 + n) ≤ day) hbound hle'
    have : yearsTo day + 1 ≤ yearsTo day := this
    omega

theorem monthOf_lt (leap : Bool) (dayInYear : Nat) : monthOf leap dayInYear < 12 :=
  Nat.lt_succ_of_le (Nat.findGreatest_le 11)

theorem daysUntilMonth_le (leap : Bool) (dayInYear : Nat) :
    daysUntilMonth leap (monthOf leap dayInYear) ≤ dayInYear := by
  have h0 : daysUntilMonth leap 0 ≤ dayInYear := by
    cases leap <;> exact Nat.zero_le _
  exact Nat.findGreatest_spec (P := fun month => daysUntilMonth leap month ≤ dayInYear)
    (Nat.zero_le 11) h0

/-- No month has more than 31 days. -/
theorem daysUntilMonth_succ_le (leap : Bool) {month : Nat} (h : month < 12) :
    daysUntilMonth leap (month + 1) ≤ daysUntilMonth leap month + 31 := by
  have key : ∀ (leap : Bool) (m : Fin 12),
      daysUntilMonth leap (m + 1) ≤ daysUntilMonth leap m + 31 := by decide
  exact key leap ⟨month, h⟩

theorem lt_daysUntilMonth_succ (leap : Bool) {dayInYear : Nat}
    (h : dayInYear < daysUntilMonth leap 12) :
    dayInYear < daysUntilMonth leap (monthOf leap dayInYear + 1) := by
  by_cases hlast : monthOf leap dayInYear = 11
  · rw [hlast]
    exact h
  · have hlt := monthOf_lt leap dayInYear
    by_contra hle
    have : monthOf leap dayInYear + 1 ≤ monthOf leap dayInYear :=
      Nat.le_findGreatest (P := fun month => daysUntilMonth leap month ≤ dayInYear) (by omega)
        (Nat.not_lt.mp hle)
    omega

section Civil

variable (day : Nat)

/-- The day in its year. -/
theorem dayInYear_lt : day - (dayFromYear (1970 + yearsTo day : Nat)).toNat <
    daysUntilMonth (isLeapYear (1970 + yearsTo day : Nat)) 12 := by
  obtain ⟨hle, hlt⟩ := yearsTo_spec day
  have hnat : ((1970 + yearsTo day : Nat) : Int) = 1970 + (yearsTo day : Int) := by omega
  have hsucc := dayFromYear_succ (1970 + yearsTo day)
  have hpos := le_dayFromYear (yearsTo day)
  rw [hnat]
  cases hl : isLeapYear (1970 + yearsTo day) with
  | false =>
    rw [hl] at hsucc
    show _ < 365
    simp only [Bool.false_eq_true, if_false] at hsucc
    omega
  | true =>
    rw [hl] at hsucc
    show _ < 366
    simp only [if_true] at hsucc
    omega

theorem civil_month_lt : (civil day).month < 12 := monthOf_lt _ _

theorem civil_day_le : (civil day).day ≤ 31 := by
  have hlt := lt_daysUntilMonth_succ _ (dayInYear_lt day)
  have hmonth := daysUntilMonth_succ_le (isLeapYear (1970 + yearsTo day : Nat))
    (monthOf_lt (isLeapYear (1970 + yearsTo day : Nat))
      (day - (dayFromYear (1970 + yearsTo day : Nat)).toNat))
  show _ - _ + 1 ≤ 31
  omega

theorem civil_year_le : (civil day).year ≤ 1970 + day / 365 :=
  Nat.add_le_add_left (Nat.findGreatest_le _) _

/-- **A day has one date.** -/
theorem dayOf_civil :
    dayOf (civil day).year (civil day).month (civil day).day = day := by
  have hm := civil_month_lt day
  have hdiv : ((civil day).month : Int) / 12 = 0 := by omega
  have hmod : (((civil day).month : Int) % 12).toNat = (civil day).month := by omega
  rw [dayOf, hdiv, hmod, Int.add_zero]
  obtain ⟨hle, -⟩ := yearsTo_spec day
  have hpos := le_dayFromYear (yearsTo day)
  have hnat : ((1970 + yearsTo day : Nat) : Int) = 1970 + (yearsTo day : Int) := by omega
  have hmonth := daysUntilMonth_le (isLeapYear (1970 + yearsTo day : Nat))
    (day - (dayFromYear (1970 + yearsTo day : Nat)).toNat)
  show dayFromYear (1970 + yearsTo day : Nat) +
    daysUntilMonth (isLeapYear (1970 + yearsTo day : Nat)) (monthOf _ _) + (((day - (dayFromYear (1970 + yearsTo day : Nat)).toNat -
      daysUntilMonth (isLeapYear (1970 + yearsTo day : Nat)) (monthOf _ _) + 1 : Nat) : Int) - 1)
      = day
  rw [hnat] at hmonth ⊢
  omega

end Civil

/-! ### Writing -/

/-- The last `k` digits of a number. -/
def pad : Nat → Nat → JsString
  | 0, _ => []
  | k + 1, n => pad k (n / 10) ++ [UInt16.ofNat (48 + n % 10)]

/-- Four digits, or a sign and six. -/
def yearText (year : Nat) : JsString := if year ≤ 9999 then pad 4 year else 43 :: pad 6 year

/-- `Date.prototype.toISOString`. -/
def toISOString (ms : Nat) : JsString :=
  let date := civil (ms / 86400000)
  let t := ms % 86400000
  yearText date.year ++ js "-" ++ pad 2 (date.month + 1) ++ js "-" ++ pad 2 date.day ++ js "T" ++
    pad 2 (t / 3600000) ++ js ":" ++ pad 2 (t / 60000 % 60) ++ js ":" ++ pad 2 (t / 1000 % 60) ++
    js "." ++ pad 3 (t % 1000) ++ js "Z"

/-! ### Reading -/

/-- `(\d{k})`. -/
def readDigits (k : Nat) (s : JsString) : Option (Nat × JsString) :=
  if (s.take k).length = k ∧ (s.take k).all isDigit then some (parseDecimal (s.take k), s.drop k)
  else none

/-- `u?`. -/
def skipUnit (u : UInt16) : JsString → JsString
  | [] => []
  | v :: t => if v = u then t else v :: t

/-- `(?:[.,](\d+))?`, in microseconds; only six digits count. -/
def readFraction : JsString → Nat × JsString
  | [] => (0, [])
  | u :: t =>
    if (u = 46 ∨ u = 44) ∧ t.takeWhile isDigit ≠ [] then
      (parseDecimal ((t.takeWhile isDigit ++ List.replicate 6 48).take 6), t.dropWhile isDigit)
    else (0, u :: t)

structure ClockTime where
  hour : Nat
  minute : Nat
  second : Nat
  microsecond : Nat

/-- `(?::?(\d\d)(?:[.,](\d+))?)?`, after the minutes. -/
def readSeconds (hour minute : Nat) (s : JsString) : ClockTime × JsString :=
  match readDigits 2 (skipUnit 58 s) with
  | none => (⟨hour, minute, 0, 0⟩, s)
  | some (second, s) => (⟨hour, minute, second, (readFraction s).1⟩, (readFraction s).2)

/-- `[ T](\d\d)(?::?(\d\d)(...)?)?`. -/
def readClock : JsString → Option (ClockTime × JsString)
  | [] => none
  | u :: s =>
    if u = 32 ∨ u = 84 then
      match readDigits 2 s with
      | none => none
      | some (hour, s) =>
        match readDigits 2 (skipUnit 58 s) with
        | none => some (⟨hour, 0, 0, 0⟩, s)
        | some (minute, s) => some (readSeconds hour minute s)
    else none

/-- `( ?[zZ]| ?([-+])(\d\d)(?::?(\d\d))?)$`, in minutes east of Greenwich. -/
def readZone (s : JsString) : Option Int :=
  match skipUnit 32 s with
  | [] => none
  | u :: t =>
    if u = 122 ∨ u = 90 then if t = [] then some 0 else none
    else if u = 43 ∨ u = 45 then
      match readDigits 2 t with
      | none => none
      | some (hours, t) =>
        let minutes := if t = [] then some 0 else
          (readDigits 2 (skipUnit 58 t)).bind fun p => if p.2 = [] then some p.1 else none
        minutes.map fun minutes => (if u = 45 then -1 else 1) * (60 * hours + minutes : Nat)
    else none

/-- The last millisecond of a date of either language. -/
def maxMilliseconds : Nat := 8640000000000000

/-- A date and a time of a zone, in microseconds; none beyond the range of dates. -/
def fromParts (year month day : Int) (clock : ClockTime) (zone : Int) : Option Int :=
  let minutes := (dayOf year (month - 1) day * 24 + clock.hour) * 60 + clock.minute - zone
  let us := (minutes * 60 + clock.second) * 1000000 + clock.microsecond
  if us.natAbs ≤ maxMilliseconds * 1000 then some us else none

/-- What follows the year. -/
def readDate (year : Int) (s : JsString) : Option Int :=
  match readDigits 2 (skipUnit 45 s) with
  | none => none
  | some (month, s) =>
    match readDigits 2 (skipUnit 45 s) with
    | none => none
    | some (day, s) =>
      match readClock s with
      | none => none
      | some (clock, s) => (readZone s).bind (fromParts year month day clock)

/-- `([+-]?\d{4,6})`, with as many digits as what follows allows. -/
def readYear (sign : Int) (s : JsString) : Option Int :=
  [6, 5, 4].findSome? fun k =>
    (readDigits k s).bind fun p => readDate (sign * p.1) p.2

/-- `DateTime.parse(...).microsecondsSinceEpoch`.  A text without a time zone, which is in local
time, is left out. -/
def parseDateTime : JsString → Option Int
  | [] => none
  | u :: s =>
    if u = 43 then readYear 1 s else if u = 45 then readYear (-1) s else readYear 1 (u :: s)

/-! ### The round trip -/

theorem length_pad (k n : Nat) : (pad k n).length = k := by
  induction k generalizing n with
  | zero => rfl
  | succ k ih => rw [pad, List.length_append, ih]; rfl

theorem isDigit_pad {k n : Nat} {u : UInt16} (h : u ∈ pad k n) : isDigit u = true := by
  induction k generalizing n with
  | zero => cases h
  | succ k ih =>
    rcases List.mem_append.mp h with h | h
    · exact ih h
    · rw [List.mem_singleton.mp h, isDigit, toNat_digit]
      exact decide_eq_true (by omega)

theorem parseDecimal_pad {k n : Nat} (h : n < 10 ^ k) : parseDecimal (pad k n) = n := by
  induction k generalizing n with
  | zero =>
    rw [Nat.pow_zero] at h
    exact (Nat.lt_one_iff.mp h).symm
  | succ k ih =>
    rw [Nat.pow_succ] at h
    have ih := ih (n := n / 10) (by omega)
    rw [parseDecimal, parseDecimalFrom] at ih
    rw [pad, parseDecimal, parseDecimalFrom, List.foldl_append, ih, List.foldl_cons, List.foldl_nil,
      toNat_digit]
    omega

/-- **Digits read back.** -/
theorem readDigits_pad {k n : Nat} (h : n < 10 ^ k) (t : JsString) :
    readDigits k (pad k n ++ t) = some (n, t) := by
  have htake : (pad k n ++ t).take k = pad k n := List.take_left' (length_pad k n)
  have hdrop : (pad k n ++ t).drop k = t := List.drop_left' (length_pad k n)
  rw [readDigits, htake, hdrop, if_pos, parseDecimal_pad h]
  exact ⟨length_pad k n, List.all_eq_true.mpr fun u hu => isDigit_pad hu⟩

theorem readDigits_two {n : Nat} (h : n < 100) (t : JsString) :
    readDigits 2 (pad 2 n ++ t) = some (n, t) := readDigits_pad (k := 2) h t

/-- There are not as many digits. -/
theorem readDigits_none {k : Nat} {d : JsString} (hd : d.length < k) {u : UInt16}
    (hu : isDigit u = false) (t : JsString) : readDigits k (d ++ u :: t) = none := by
  rw [readDigits, if_neg]
  rintro ⟨-, hall⟩
  have hmem : u ∈ (d ++ u :: t).take k := by
    rw [List.take_append, List.take_of_length_le (Nat.le_of_lt hd)]
    obtain ⟨m, hm⟩ : ∃ m, k - d.length = m + 1 := ⟨k - d.length - 1, by omega⟩
    rw [hm, List.take_succ_cons]
    exact List.mem_append_right _ (List.mem_cons_self ..)
  have := List.all_eq_true.mp hall u hmem
  rw [hu] at this
  cases this

/-- Milliseconds, in front of the zone. -/
theorem readFraction_pad {ms : Nat} (h : ms < 1000) :
    readFraction (46 :: (pad 3 ms ++ [90])) = (ms * 1000, [90]) := by
  have hall : ∀ u ∈ pad 3 ms, isDigit u = true := fun u hu => isDigit_pad hu
  have htake : (pad 3 ms ++ [90]).takeWhile isDigit = pad 3 ms := by
    rw [List.takeWhile_append_of_pos hall]
    exact List.append_nil _
  have hdrop : (pad 3 ms ++ [90]).dropWhile isDigit = [90] := by
    rw [List.dropWhile_append_of_pos hall]
    rfl
  have hne : pad 3 ms ≠ [] := by
    rw [ne_eq, ← List.length_eq_zero_iff, length_pad]
    decide
  have hsix : (pad 3 ms ++ List.replicate 6 48).take 6 = pad 3 ms ++ [48, 48, 48] := by
    rw [List.take_append, length_pad, List.take_of_length_le (by rw [length_pad]; decide)]
    rfl
  have hzeros : parseDecimal (pad 3 ms ++ [48, 48, 48]) = ms * 1000 := by
    have hread := parseDecimal_pad (k := 3) (n := ms) h
    rw [parseDecimal, parseDecimalFrom] at hread ⊢
    rw [List.foldl_append, hread]
    simp only [List.foldl_cons, List.foldl_nil]
    show ((ms * 10 + 0) * 10 + 0) * 10 + 0 = ms * 1000
    omega
  rw [readFraction, htake, hdrop, if_pos ⟨Or.inl rfl, hne⟩, hsix, hzeros]

theorem skipUnit_self (u : UInt16) (t : JsString) : skipUnit u (u :: t) = t := if_pos rfl

theorem readClock_pad {hour minute second ms : Nat} (hh : hour < 100) (hm : minute < 100)
    (hs : second < 100) (hms : ms < 1000) :
    readClock (84 :: (pad 2 hour ++ 58 :: (pad 2 minute ++ 58 :: (pad 2 second ++
      46 :: (pad 3 ms ++ [90]))))) = some (⟨hour, minute, second, ms * 1000⟩, [90]) := by
  rw [readClock, if_pos (Or.inr rfl), readDigits_two hh]
  simp only [skipUnit_self, readDigits_two hm, readSeconds, readDigits_two hs,
    readFraction_pad hms]

section Parse

variable {year month day hour minute second ms : Nat}

/-- What `toISOString` writes after the year. -/
def afterYear (month day hour minute second ms : Nat) : JsString :=
  45 :: (pad 2 month ++ 45 :: (pad 2 day ++ 84 :: (pad 2 hour ++ 58 :: (pad 2 minute ++
    58 :: (pad 2 second ++ 46 :: (pad 3 ms ++ [90]))))))

theorem readDate_afterYear (year : Int) (hmonth : month < 100) (hday : day < 100)
    (hh : hour < 100) (hm : minute < 100) (hs : second < 100) (hms : ms < 1000) :
    readDate year (afterYear month day hour minute second ms) =
      fromParts year month day ⟨hour, minute, second, ms * 1000⟩ 0 := by
  rw [readDate, afterYear, skipUnit_self, readDigits_two hmonth]
  simp only [skipUnit_self, readDigits_two hday, readClock_pad hh hm hs hms]
  rfl

/-- Four digits are taken for a year when a dash follows. -/
theorem readYear_four (hyear : year ≤ 9999) {v : Int}
    (h : readDate year (afterYear month day hour minute second ms) = some v) :
    readYear 1 (pad 4 year ++ afterYear month day hour minute second ms) = some v := by
  have hnot : ∀ k, 4 < k →
      readDigits k (pad 4 year ++ afterYear month day hour minute second ms) = none :=
    fun k hk => readDigits_none (by rw [length_pad]; exact hk) (by decide) _
  rw [readYear, List.findSome?_cons, hnot 6 (by decide)]
  simp only [Option.bind_none, List.findSome?_cons, hnot 5 (by decide)]
  rw [readDigits_pad (k := 4) (n := year) (by omega)]
  simp only [Option.bind_some, Int.one_mul, h]

theorem readYear_six (hyear : year ≤ 999999) {v : Int}
    (h : readDate year (afterYear month day hour minute second ms) = some v) :
    readYear 1 (pad 6 year ++ afterYear month day hour minute second ms) = some v := by
  rw [readYear, List.findSome?_cons, readDigits_pad (k := 6) (n := year) (by omega)]
  simp only [Option.bind_some, Int.one_mul, h]

/-- The first unit of four digits is no sign. -/
theorem parseDateTime_yearText (hyear : year ≤ 999999) {v : Int}
    (h : readDate year (afterYear month day hour minute second ms) = some v) :
    parseDateTime (yearText year ++ afterYear month day hour minute second ms) = some v := by
  by_cases hfour : year ≤ 9999
  · rw [yearText, if_pos hfour]
    have hread := readYear_four hfour h
    cases hpad : pad 4 year with
    | nil =>
      have hlen := length_pad 4 year
      rw [hpad] at hlen
      cases hlen
    | cons u t =>
      have hu : isDigit u = true := isDigit_pad (hpad ▸ List.mem_cons_self ..)
      have hplus : u ≠ 43 := by
        rintro rfl
        cases hu
      have hminus : u ≠ 45 := by
        rintro rfl
        cases hu
      rw [hpad] at hread
      rw [List.cons_append, parseDateTime, if_neg hplus, if_neg hminus]
      exact hread
  · rw [yearText, if_neg hfour, List.cons_append, parseDateTime, if_pos rfl]
    exact readYear_six hyear h

end Parse

theorem toISOString_eq (ms : Nat) : toISOString ms =
    yearText (civil (ms / 86400000)).year ++
      afterYear ((civil (ms / 86400000)).month + 1) (civil (ms / 86400000)).day
        (ms % 86400000 / 3600000) (ms % 86400000 / 60000 % 60) (ms % 86400000 / 1000 % 60)
        (ms % 86400000 % 1000) := by
  have hdash : js "-" = [45] := by decide
  have hcolon : js ":" = [58] := by decide
  have ht : js "T" = [84] := by decide
  have hdot : js "." = [46] := by decide
  have hz : js "Z" = [90] := by decide
  rw [toISOString, hdash, hcolon, ht, hdot, hz, afterYear]
  simp only [List.append_assoc, List.cons_append, List.nil_append]

/-- **The text of a date is parsed as that date.** -/
theorem parseDateTime_toISOString {ms : Nat} (h : ms ≤ maxMilliseconds) :
    parseDateTime (toISOString ms) = some ((ms : Int) * 1000) := by
  have hday := civil_day_le (ms / 86400000)
  have hmonth := civil_month_lt (ms / 86400000)
  have hyear := civil_year_le (ms / 86400000)
  have hmax : ms / 86400000 ≤ 100000000 := by
    rw [maxMilliseconds] at h
    omega
  rw [toISOString_eq]
  refine parseDateTime_yearText (by omega) ?_
  rw [readDate_afterYear _ (by omega) (by omega) (by omega) (by omega) (by omega) (by omega)]
  have hdate : dayOf (civil (ms / 86400000)).year (((civil (ms / 86400000)).month + 1 : Nat) - 1)
      (civil (ms / 86400000)).day = (ms / 86400000 : Nat) := by
    rw [Int.natCast_succ, Int.add_sub_cancel]
    exact dayOf_civil _
  have hus : (((dayOf (civil (ms / 86400000)).year (((civil (ms / 86400000)).month + 1 : Nat) - 1)
      (civil (ms / 86400000)).day * 24 + (ms % 86400000 / 3600000 : Nat)) * 60 +
        (ms % 86400000 / 60000 % 60 : Nat) - 0) * 60 + (ms % 86400000 / 1000 % 60 : Nat)) * 1000000 +
          (ms % 86400000 % 1000 * 1000 : Nat) = ((ms * 1000 : Nat) : Int) := by
    rw [hdate]
    omega
  have hrange : ((ms * 1000 : Nat) : Int).natAbs ≤ maxMilliseconds * 1000 := by
    rw [Int.natAbs_natCast]
    exact Nat.mul_le_mul_right 1000 h
  rw [fromParts]
  simp only [hus]
  exact (if_pos hrange).trans (congrArg some (Int.natCast_mul ms 1000))

end FullstackSvc.Text
