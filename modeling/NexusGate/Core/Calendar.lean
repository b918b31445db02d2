import Mathlib.Algebra.GroupWithZero.Nat
import Mathlib.Data.List.Basic

/-! # Dates

A day of the proleptic Gregorian calendar, the day before it, and how `isoformat` writes it: years of four digits,
months and days of two. -/

namespace NexusGate.Core

def isLeap (year : Nat) : Bool := year % 4 == 0 && (year % 100 != 0 || year % 400 == 0)

def daysInMonth (year month : Nat) : Nat :=
  if month = 2 then if isLeap year then 29 else 28
  else if month = 4 ∨ month = 6 ∨ month = 9 ∨ month = 11 then 30
  else 31

/-- `datetime.date`. -/
structure Date where
  year : Nat
  month : Nat
  day : Nat
  year_range : 1 ≤ year ∧ year ≤ 9999
  month_range : 1 ≤ month ∧ month ≤ 12
  day_range : 1 ≤ day ∧ day ≤ daysInMonth year month
  deriving DecidableEq

namespace Date

theorem daysInMonth_range {year month : Nat} : 1 ≤ daysInMonth year month ∧ daysInMonth year month ≤ 31 := by
  unfold daysInMonth
  split
  · split <;> decide
  · split <;> decide

/-- The day before, if there is a year for it. -/
def yesterday (d : Date) : Option Date :=
  if h : 1 < d.day then
    some { d with day := d.day - 1, day_range := ⟨by omega, by have := d.day_range; omega⟩ }
  else if h : 1 < d.month then
    some { d with
      month := d.month - 1
      day := daysInMonth d.year (d.month - 1)
      month_range := ⟨by omega, by have := d.month_range; omega⟩
      day_range := ⟨daysInMonth_range.1, Nat.le_refl _⟩ }
  else if h : 1 < d.year then
    some {
      year := d.year - 1
      month := 12
      day := 31
      year_range := ⟨by omega, by have := d.year_range; omega⟩
      month_range := by decide
      day_range := ⟨by decide, Nat.le_refl _⟩ }
  else none

/-- `d - timedelta(days=n)`. -/
def minusDays (d : Date) : Nat → Option Date
  | 0 => some d
  | n + 1 => d.yesterday.bind fun d => d.minusDays n

/-- The last `width` decimal digits of a number, zeros in front. -/
def digits : Nat → Nat → List Char
  | 0, _ => []
  | width + 1, n => digits width (n / 10) ++ [Nat.digitChar (n % 10)]

def isoformat (d : Date) : String := .ofList (digits 4 d.year ++ '-' :: digits 2 d.month ++ '-' :: digits 2 d.day)

theorem length_digits : ∀ {width n : Nat}, (digits width n).length = width
  | 0, _ => rfl
  | width + 1, n => by rw [digits, List.length_append, length_digits, List.length_singleton]

theorem digitChar_inj : ∀ {a b : Fin 10}, Nat.digitChar a = Nat.digitChar b → a = b := by decide

theorem digits_inj : ∀ {width n m : Nat}, n < 10 ^ width → m < 10 ^ width → digits width n = digits width m → n = m
  | 0, n, m, hn, hm, _ => by
    rw [Nat.pow_zero] at hn hm
    omega
  | width + 1, n, m, hn, hm, h => by
    obtain ⟨hrest, hlast⟩ := List.append_inj' h rfl
    have hdigit := digitChar_inj (a := ⟨n % 10, Nat.mod_lt _ (by decide)⟩) (b := ⟨m % 10, Nat.mod_lt _ (by decide)⟩)
      (List.cons.inj hlast).1
    have hdigit := congrArg Fin.val hdigit
    rw [Nat.pow_succ] at hn hm
    have hquot : n / 10 = m / 10 := digits_inj (by omega) (by omega) hrest
    dsimp only at hdigit
    omega

theorem length_isoformat {d : Date} : d.isoformat.toList.length = 10 := by
  simp [isoformat, length_digits]

/-- No two days are written alike. -/
theorem isoformat_inj {d d' : Date} (h : d.isoformat = d'.isoformat) : d = d' := by
  have h := String.ofList_injective h
  obtain ⟨hymd, hday⟩ := List.append_inj' h (by simp [length_digits])
  obtain ⟨hyear, hmonth⟩ := List.append_inj hymd (by simp [length_digits])
  have hd := @daysInMonth_range d.year d.month
  have hd' := @daysInMonth_range d'.year d'.month
  have year_eq : d.year = d'.year := by
    refine digits_inj ?_ ?_ hyear
    · have := d.year_range
      omega
    · have := d'.year_range
      omega
  have month_eq : d.month = d'.month := by
    refine digits_inj ?_ ?_ (List.cons.inj hmonth).2
    · have := d.month_range
      omega
    · have := d'.month_range
      omega
  have day_eq : d.day = d'.day := by
    refine digits_inj ?_ ?_ (List.cons.inj hday).2
    · have := d.day_range
      omega
    · have := d'.day_range
      omega
  cases d
  cases d'
  cases year_eq
  cases month_eq
  cases day_eq
  rfl

end Date
end NexusGate.Core
