import NexusEngine.TextEncodings

/-!
# Instants and their ISO text

An instant is a number of microseconds since the first of January of the year 1, in UTC. The
proleptic Gregorian calendar is computed with the cycle arithmetic of the standard library,
and `ymd2ord` undoes it, so that the ISO text of an instant determines it.
-/

namespace NexusEngine.CalendarTime

open TextEncodings

abbrev Instant := ℕ

/-! ## The calendar -/

def isLeap (year : ℕ) : Bool := year % 4 = 0 && (year % 100 ≠ 0 || year % 400 = 0)

def daysInMonth (month : ℕ) : ℕ :=
  [0, 31, 28, 31, 30, 31, 30, 31, 31, 30, 31, 30, 31].getD month 0

def daysBeforeMonth (month : ℕ) : ℕ :=
  [0, 0, 31, 59, 90, 120, 151, 181, 212, 243, 273, 304, 334].getD month 0

/-- Month and day of a day of the year, both counted from one. The first guess for the month
is never too small and at most one too large. -/
def monthDay (leap : Bool) (n : ℕ) : ℕ × ℕ :=
  let month := (n + 50) / 32
  let preceding := daysBeforeMonth month + if 2 < month && leap then 1 else 0
  if n < preceding then
    let month := month - 1
    (month, n - (preceding - (daysInMonth month + if month = 2 && leap then 1 else 0)) + 1)
  else (month, n - preceding + 1)

/-- Year, month and day of an ordinal, where day 1 is the first of January of the year 1. -/
def ord2ymd (ordinal : ℕ) : ℕ × ℕ × ℕ :=
  let n := ordinal - 1
  let n400 := n / 146097
  let n := n % 146097
  let n100 := n / 36524
  let n := n % 36524
  let n4 := n / 1461
  let n := n % 1461
  let n1 := n / 365
  let n := n % 365
  let year := n400 * 400 + 1 + n100 * 100 + n4 * 4 + n1
  if n1 = 4 ∨ n100 = 4 then (year - 1, 12, 31)
  else (year, monthDay (decide (n1 = 3 ∧ (n4 ≠ 24 ∨ n100 = 3))) n)

def daysBeforeYear (year : ℕ) : ℕ :=
  (year - 1) * 365 + (year - 1) / 4 - (year - 1) / 100 + (year - 1) / 400

def ymd2ord (year month day : ℕ) : ℕ :=
  daysBeforeYear year +
    (daysBeforeMonth month + if 2 < month && isLeap year then 1 else 0) + day

theorem monthDay_undo (leap : Bool) {n : ℕ} (h : n < if leap then 366 else 365) :
    daysBeforeMonth (monthDay leap n).1 +
      (if 2 < (monthDay leap n).1 && leap then 1 else 0) + (monthDay leap n).2 = n + 1 := by
  revert n
  cases leap <;> decide +kernel

/-- The leap years in terms of the position in the cycles. -/
theorem isLeap_cycles {a b c d : ℕ} (hb : b < 4) (hc : c < 25) (hd : d < 4) :
    isLeap (a * 400 + 1 + b * 100 + c * 4 + d) =
      decide (d = 3 ∧ (c ≠ 24 ∨ b = 3)) := by
  rw [Bool.eq_iff_iff]
  simp only [isLeap, ne_eq, Bool.and_eq_true, Bool.or_eq_true, decide_eq_true_eq]
  omega

theorem daysBeforeYear_cycles {a b c d : ℕ} (hb : b < 4) (hc : c < 25) (hd : d < 4) :
    daysBeforeYear (a * 400 + 1 + b * 100 + c * 4 + d) =
      a * 146097 + b * 36524 + c * 1461 + d * 365 := by
  unfold daysBeforeYear
  omega

theorem ymd2ord_ord2ymd (n : ℕ) :
    ymd2ord (ord2ymd (n + 1)).1 (ord2ymd (n + 1)).2.1 (ord2ymd (n + 1)).2.2 = n + 1 := by
  simp only [ord2ymd, Nat.add_sub_cancel]
  generalize ha : n / 146097 = a
  generalize hb : n % 146097 / 36524 = b
  generalize hc : n % 146097 % 36524 / 1461 = c
  generalize hd : n % 146097 % 36524 % 1461 / 365 = d
  generalize he : n % 146097 % 36524 % 1461 % 365 = e
  have hn : n = a * 146097 + b * 36524 + c * 1461 + d * 365 + e := by omega
  split
  · next hlast =>
    -- the last day of a cycle, which the division puts into a year of its own
    have hleap : isLeap (a * 400 + 1 + b * 100 + c * 4 + d - 1) = true := by
      simp only [isLeap, ne_eq, Bool.and_eq_true, Bool.or_eq_true, decide_eq_true_eq]
      omega
    have hdays : daysBeforeYear (a * 400 + 1 + b * 100 + c * 4 + d - 1) + 366 = n + 1 := by
      unfold daysBeforeYear
      rcases hlast with rfl | rfl
      · have hb3 : b < 4 := by omega
        have hc23 : c < 24 := by omega
        have hyear : (a * 400 + 1 + b * 100 + c * 4 + 4 - 1 - 1) / 100 = 4 * a + b := by omega
        have hyear' : (a * 400 + 1 + b * 100 + c * 4 + 4 - 1 - 1) / 400 = a := by omega
        omega
      · have hc0 : c = 0 := by omega
        have hd0 : d = 0 := by omega
        subst hc0 hd0
        omega
    simp only [ymd2ord, hleap]
    exact hdays
  · next hinner =>
    have hb4 : b < 4 := by omega
    have hc25 : c < 25 := by omega
    have hd4 : d < 4 := by omega
    have hlt : e < if decide (d = 3 ∧ (c ≠ 24 ∨ b = 3)) then 366 else 365 := by
      split <;> omega
    have hundo := monthDay_undo _ hlt
    simp only [ymd2ord, isLeap_cycles hb4 hc25 hd4, daysBeforeYear_cycles hb4 hc25 hd4]
    omega

theorem ord2ymd_injective {m n : ℕ} (h : ord2ymd (m + 1) = ord2ymd (n + 1)) : m = n := by
  have hm := ymd2ord_ord2ymd m
  rw [h, ymd2ord_ord2ymd n] at hm
  omega

/-! ## ISO text -/

/-- A date and time with its offset from UTC in seconds. Two of them are the same instant
when they agree on `utc`. -/
structure Datetime where
  utc : Instant
  utcoffset : ℤ
  deriving DecidableEq, Repr

def Datetime.astimezoneUtc (t : Datetime) : Datetime := { t with utcoffset := 0 }

/-- Date and time without an offset, with the microseconds where there are any. -/
def naiveText (t : ℕ) : List Char :=
  let date := ord2ymd (t / 86400000000 + 1)
  let second := t / 1000000 % 86400
  padded 4 date.1 ++ '-' :: (padded 2 date.2.1 ++ '-' :: (padded 2 date.2.2 ++ 'T' ::
    (padded 2 (second / 3600) ++ ':' :: (padded 2 (second / 60 % 60) ++ ':' ::
      (padded 2 (second % 60) ++
        if t % 1000000 = 0 then [] else '.' :: padded 6 (t % 1000000))))))

def offsetText (offset : ℤ) : List Char :=
  let seconds := offset.natAbs
  (if offset < 0 then '-' else '+') :: (padded 2 (seconds / 3600) ++ ':' ::
    (padded 2 (seconds / 60 % 60) ++
      if seconds % 60 = 0 then [] else ':' :: padded 2 (seconds % 60)))

def Datetime.isoformat (t : Datetime) : List Char :=
  naiveText (t.utc + t.utcoffset * 1000000).toNat ++ offsetText t.utcoffset

/-- Two runs of digits end at the first character that is none. -/
theorem digits_append_inj {ds ds' rest rest' : List Char} {c c' : Char}
    (hds : ∀ d ∈ ds, d.isDigit = true) (hds' : ∀ d ∈ ds', d.isDigit = true)
    (hc : c.isDigit = false) (hc' : c'.isDigit = false)
    (h : ds ++ c :: rest = ds' ++ c' :: rest') : ds = ds' ∧ c = c' ∧ rest = rest' := by
  induction ds generalizing ds' with
  | nil =>
    cases ds' with
    | nil => simpa using h
    | cons d' ds' =>
      obtain ⟨rfl, -⟩ := List.cons.inj h
      simp [hds' c List.mem_cons_self] at hc
  | cons d ds ih =>
    cases ds' with
    | nil =>
      obtain ⟨rfl, -⟩ := List.cons.inj h
      simp [hds d List.mem_cons_self] at hc'
    | cons d' ds' =>
      obtain ⟨rfl, htail⟩ := List.cons.inj h
      obtain ⟨rfl, hrest⟩ := ih (fun e he => hds e (List.mem_cons_of_mem _ he))
        (fun e he => hds' e (List.mem_cons_of_mem _ he)) htail
      exact ⟨rfl, hrest⟩

theorem padded_append_inj {width m n : ℕ} {rest rest' : List Char} {c c' : Char}
    (hc : c.isDigit = false) (hc' : c'.isDigit = false)
    (h : padded width m ++ c :: rest = padded width n ++ c' :: rest') :
    m = n ∧ c = c' ∧ rest = rest' := by
  obtain ⟨hds, hrest⟩ := digits_append_inj (fun _ => isDigit_of_mem_padded)
    (fun _ => isDigit_of_mem_padded) hc hc' h
  exact ⟨padded_injective width hds, hrest⟩

/-- The UTC text determines the instant. -/
theorem isoformat_utc_injective {t t' : Datetime}
    (h : t.astimezoneUtc.isoformat = t'.astimezoneUtc.isoformat) : t.utc = t'.utc := by
  simp only [Datetime.isoformat, Datetime.astimezoneUtc, Int.zero_mul, Int.add_zero,
    Int.toNat_natCast, naiveText, List.append_assoc, List.cons_append] at h
  obtain ⟨hyear, -, h⟩ := padded_append_inj rfl rfl h
  obtain ⟨hmonth, -, h⟩ := padded_append_inj rfl rfl h
  obtain ⟨hday, -, h⟩ := padded_append_inj rfl rfl h
  obtain ⟨hhour, -, h⟩ := padded_append_inj rfl rfl h
  obtain ⟨hminute, -, h⟩ := padded_append_inj rfl rfl h
  have hdays := ord2ymd_injective (Prod.ext hyear (Prod.ext hmonth hday))
  have hrest : t.utc / 1000000 % 86400 % 60 = t'.utc / 1000000 % 86400 % 60 ∧
      t.utc % 1000000 = t'.utc % 1000000 := by
    by_cases hz : t.utc % 1000000 = 0 <;> by_cases hz' : t'.utc % 1000000 = 0 <;>
      simp only [hz, hz', ↓reduceIte, List.nil_append, List.cons_append, offsetText] at h
    · obtain ⟨hsecond, -, -⟩ := padded_append_inj rfl rfl h
      exact ⟨hsecond, hz.trans hz'.symm⟩
    · exact absurd (padded_append_inj rfl rfl h).2.1 (by decide)
    · exact absurd (padded_append_inj rfl rfl h).2.1 (by decide)
    · obtain ⟨hsecond, -, h⟩ := padded_append_inj rfl rfl h
      obtain ⟨hmicro, -, -⟩ := padded_append_inj rfl rfl h
      exact ⟨hsecond, hmicro⟩
  have clock : ∀ s, s = s / 3600 * 3600 + s / 60 % 60 * 60 + s % 60 := by
    intro s
    omega
  have hclock : t.utc / 1000000 % 86400 = t'.utc / 1000000 % 86400 := by
    rw [clock (t.utc / 1000000 % 86400), hhour, hminute, hrest.1, ← clock]
  have instant : ∀ n, n = n / 86400000000 * 86400000000 + n / 1000000 % 86400 * 1000000 +
      n % 1000000 := by
    intro n
    omega
  rw [instant t.utc, hdays, hclock, hrest.2, ← instant]

example : (Datetime.mk 63839664000000042 7200).astimezoneUtc.isoformat =
    "2024-01-01T00:00:00.000042+00:00".toList := by decide +kernel

end NexusEngine.CalendarTime
