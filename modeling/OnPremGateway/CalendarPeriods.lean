import Mathlib

/-!
# Calendar periods

Time is divided by marks: the full hours, the midnights, the Mondays, the firsts
of the months. A period begins at the last mark that is not later than the time.
Days are counted from the first of January of the year one, a Monday, in the
Gregorian calendar.
-/

set_option autoImplicit false

namespace OnPremGateway.CalendarPeriods
open Nat

/-- The last mark that is not later than `t`. -/
structure LastMark (marks : ℕ → Prop) (t s : ℕ) : Prop where
  mark : marks s
  le : s ≤ t
  last : ∀ r, marks r → r ≤ t → r ≤ s

theorem LastMark.mono {marks : ℕ → Prop} {t t' s s' : ℕ} (h : LastMark marks t s) (h' : LastMark marks t' s')
    (htt : t ≤ t') : s ≤ s' :=
  h'.last s h.mark (h.le.trans htt)

/-- Between a time and its mark the mark is the same. -/
theorem LastMark.between {marks : ℕ → Prop} {t t' s s' : ℕ} (h : LastMark marks t s)
    (h' : LastMark marks t' s')
    (hs : s' ≤ t) (htt : t ≤ t') : s = s' :=
  le_antisymm (h.mono h' htt) (h.last s' h'.mark hs)

theorem floor_between {n t t' : ℕ} (hn : 0 < n) (hs : t'/n*n ≤ t) (htt : t ≤ t') : t/n*n = t'/n*n := by
  have hle : t'/n ≤ t/n := (le_div_iff_mul_le hn).mpr hs
  rw [le_antisymm (Nat.div_le_div_right htt) hle]

theorem floor_mono (n : ℕ) {t t' : ℕ} (h : t ≤ t') : t/n*n ≤ t'/n*n :=
  Nat.mul_le_mul_right n (Nat.div_le_div_right h)

/-! ### Months

The years of this count begin with March, so that the leap day is the last of its
year; 400 of them have 146097 days. -/

def yearStart (y : ℕ) : ℕ := 365*y + y/4 - y/100

def monthStart (m : ℕ) : ℕ := (153*m+2)/5

def firstOfMonth (cycle y m : ℕ) : ℕ := 146097*cycle + yearStart y + monthStart m

def IsFirst (z : ℕ) : Prop := ∃ cycle y m, y ≤ 399 ∧ m ≤ 11 ∧ z = firstOfMonth cycle y m

def yearIn (day : ℕ) : ℕ := Nat.findGreatest (fun y => yearStart y ≤ day) 399

def monthIn (day : ℕ) : ℕ := Nat.findGreatest (fun m => monthStart m ≤ day) 11

def dayInMonth (z : ℕ) : ℕ :=
  let year := z % 146097 - yearStart (yearIn (z % 146097))
  year - monthStart (monthIn year)

theorem yearStart_mono {a b : ℕ} (h : a < b) : yearStart a + 365 ≤ yearStart b := by
  -- a century that skips a leap day has counted it before
  have hcentury : ∀ y : ℕ, y/100 = y/4/25 := fun y => (Nat.div_div_eq_div_mul y 4 25).symm
  have hleap : a/4 ≤ b/4 := Nat.div_le_div_right h.le
  simp only [yearStart, hcentury]
  omega

theorem monthStart_mono {a b : ℕ} (h : a ≤ b) : monthStart a ≤ monthStart b := by
  simp only [monthStart]
  omega

theorem yearStart_yearIn (day : ℕ) : yearStart (yearIn day) ≤ day :=
  findGreatest_spec (P := fun y => yearStart y ≤ day) (zero_le 399) (zero_le day)

theorem monthStart_monthIn (day : ℕ) : monthStart (monthIn day) ≤ day :=
  findGreatest_spec (P := fun m => monthStart m ≤ day) (zero_le 11) (zero_le day)

theorem sub_dayInMonth (z : ℕ) : z - dayInMonth z = firstOfMonth (z/146097) (yearIn (z % 146097))
      (monthIn (z % 146097 - yearStart (yearIn (z % 146097)))) := by
  have hyear := yearStart_yearIn (z % 146097)
  have hmonth := monthStart_monthIn (z % 146097 - yearStart (yearIn (z % 146097)))
  simp only [dayInMonth, firstOfMonth]
  omega

theorem firstOfMonth_lt (cycle : ℕ) {y m : ℕ} (hy : y ≤ 399) (hm : m ≤ 11) :
    firstOfMonth cycle y m < 146097*(cycle+1) := by
  simp only [firstOfMonth, yearStart, monthStart]
  omega

theorem lastMark_first (z : ℕ) : LastMark IsFirst z (z - dayInMonth z) where
  mark := by
    refine ⟨_,_,_,?_,?_,sub_dayInMonth z⟩
    · exact findGreatest_le 399
    · exact findGreatest_le 11
  le := sub_le z _
  last := by
    rintro _ ⟨cycle,y,m,hy,hm,rfl⟩ hle
    rw [sub_dayInMonth]
    -- cycle, year and month of the first are compared with those of the day in turn
    have hcycle : cycle ≤ z/146097 := by
      rw [firstOfMonth] at hle
      omega
    rcases lt_or_eq_of_le hcycle with hlt | rfl
    · have hbound := firstOfMonth_lt cycle hy hm
      simp only [firstOfMonth] at hbound ⊢
      omega
    have hin : yearStart y + monthStart m ≤ z % 146097 := by
      rw [firstOfMonth] at hle
      omega
    have hyear : y ≤ yearIn (z % 146097) := le_findGreatest hy (le_of_add_right_le hin)
    rcases lt_or_eq_of_le hyear with hlt | rfl
    · have hnext := yearStart_mono hlt
      have hmonth : monthStart m ≤ 337 := by
        simp only [monthStart]
        omega
      simp only [firstOfMonth]
      omega
    have hmonth : m ≤ monthIn (z % 146097 - yearStart (yearIn (z % 146097))) :=
      le_findGreatest hm (by omega)
    have hstart := monthStart_mono hmonth
    simp only [firstOfMonth]
    omega

def dayOfMonth (d : ℕ) : ℕ := dayInMonth (d+306)

theorem sub_dayOfMonth_mono {d d' : ℕ} (h : d ≤ d') : d - dayOfMonth d ≤ d' - dayOfMonth d' := by
  have hmono := (lastMark_first (d+306)).mono (lastMark_first (d'+306)) (by omega)
  -- the count itself begins with a first of the month
  have hbegin : IsFirst 306 := ⟨0,0,10,by decide,by decide,rfl⟩
  have hd := (lastMark_first (d+306)).last 306 hbegin (by omega)
  simp only [dayOfMonth]
  omega

theorem sub_dayOfMonth_between {d d' : ℕ} (hs : d' - dayOfMonth d' ≤ d) (h : d ≤ d') :
    d - dayOfMonth d = d' - dayOfMonth d' := by
  have hbegin : IsFirst 306 := ⟨0,0,10,by decide,by decide,rfl⟩
  have hd' := (lastMark_first (d'+306)).last 306 hbegin (by omega)
  have hsame := (lastMark_first (d+306)).between (lastMark_first (d'+306))
    (by rw [dayOfMonth] at hs; omega) (by omega)
  simp only [dayOfMonth]
  omega

def weekday (d : ℕ) : ℕ := (d+1) % 7

theorem sub_weekday_mono {d d' : ℕ} (h : d ≤ d') :
    d - (weekday d+6) % 7 ≤ d' - (weekday d'+6) % 7 := by
  simp only [weekday]
  omega

theorem sub_weekday_between {d d' : ℕ} (hs : d' - (weekday d'+6) % 7 ≤ d) (h : d ≤ d') :
    d - (weekday d+6) % 7 = d' - (weekday d'+6) % 7 := by
  simp only [weekday] at hs ⊢
  omega

-- the 29th of February 2024, a Thursday
example : dayOfMonth 738944 = 28 ∧ weekday 738944 = 4 := by decide +kernel

end OnPremGateway.CalendarPeriods
