import BlockBot.Decimal.Shortest
import Mathlib.Algebra.Order.Field.Power
import Mathlib.Data.Rat.Cast.Order
import Mathlib.Tactic.FieldSimp
import Mathlib.Tactic.Linarith
import Mathlib.Tactic.Positivity
import Mathlib.Tactic.Ring

/-!
# Shortest decimals tell numbers apart

The shortest decimal of a number lies in the window of the numbers that round to it. The search for
it never runs out of grids: after seventeen of them a step of the grid is smaller than the window,
so one of the two points around the value is inside. Windows of different magnitudes have no point
in common, as they meet at most in an end that only one of them includes. A larger magnitude
therefore has a larger decimal.

Windows have four natural numbers over one denominator; here they are read as intervals of rational
numbers.
-/

namespace BlockBot.Decimal

/-- The number that digits and a decimal exponent stand for. -/
def decimalValue (p : Nat × Int) : ℚ :=
  p.1 * 10 ^ p.2

namespace Window

/-- A rational number lies in the window. -/
def Contains (w : Window) (q : ℚ) : Prop :=
  if w.closed then w.low ≤ q * w.den ∧ q * w.den ≤ w.high
  else w.low < q * w.den ∧ q * w.den < w.high

variable {w : Window} {tie : Tie} {e : Int}

/-! ## One grid -/

/-- How far a window is stretched for the grid of multiples of `10 ^ e`. -/
def stretch (e : Int) : Nat :=
  if e < 0 then Nat.pow 10 (-e).toNat else 1

/-- A step of that grid, as long as it is in the stretched window. -/
def step (w : Window) (e : Int) : Nat :=
  if e < 0 then w.den else w.den * Nat.pow 10 e.toNat

/-- The last point of the grid that is not above the value. -/
def floor (w : Window) (e : Int) : Nat :=
  w.value * stretch e / w.step e

theorem stretch_pos (e : Int) : 0 < stretch e := by
  unfold stretch
  split
  · exact Nat.pow_pos (by decide)
  · decide

theorem cast_step (w : Window) (e : Int) : (w.step e : ℚ) = 10 ^ e * w.den * stretch e := by
  unfold step stretch
  by_cases he : e < 0
  · obtain ⟨n, rfl⟩ : ∃ n : Nat, e = -n := ⟨(-e).toNat, by omega⟩
    simp only [he, if_true, neg_neg, Int.toNat_natCast, Nat.pow_eq, Nat.cast_pow,
      Nat.cast_ofNat, zpow_neg, zpow_natCast]
    field_simp
  · obtain ⟨n, rfl⟩ : ∃ n : Nat, e = n := ⟨e.toNat, by omega⟩
    simp only [he, if_false, Int.toNat_natCast, Nat.pow_eq, Nat.cast_mul, Nat.cast_pow,
      Nat.cast_ofNat, zpow_natCast, Nat.cast_one]
    ring

theorem holds_iff (w : Window) (e : Int) (c : Nat) :
    w.holds (stretch e) (w.step e) c = true ↔ w.Contains (c * 10 ^ e) := by
  have hpos : (0 : ℚ) < stretch e := by exact_mod_cast stretch_pos e
  have hpoint : ((c * w.step e : Nat) : ℚ) = c * 10 ^ e * w.den * stretch e := by
    rw [Nat.cast_mul, cast_step]
    ring
  unfold holds Contains
  cases w.closed with
  | true =>
      simp only [if_true, Bool.and_eq_true, decide_eq_true_eq]
      rw [← Nat.cast_le (α := ℚ), ← Nat.cast_le (α := ℚ), hpoint, Nat.cast_mul, Nat.cast_mul,
        mul_le_mul_iff_left₀ hpos, mul_le_mul_iff_left₀ hpos]
  | false =>
      simp only [Bool.false_eq_true, if_false, Bool.and_eq_true, decide_eq_true_eq]
      rw [← Nat.cast_lt (α := ℚ), ← Nat.cast_lt (α := ℚ), hpoint, Nat.cast_mul, Nat.cast_mul,
        mul_lt_mul_iff_left₀ hpos, mul_lt_mul_iff_left₀ hpos]

/-- The nearer one of the two points around the value. -/
def nearer (w : Window) (tie : Tie) (e : Int) : Nat :=
  let r := w.value * stretch e - w.floor e * w.step e
  if 2 * r < w.step e then w.floor e
  else if w.step e < 2 * r then w.floor e + 1
  else match tie with
    | .toEven => w.floor e + w.floor e % 2
    | .upwards => w.floor e + 1

theorem nearer_cases (w : Window) (tie : Tie) (e : Int) :
    w.nearer tie e = w.floor e ∨ w.nearer tie e = w.floor e + 1 := by
  simp only [nearer]
  split
  · exact .inl rfl
  · split
    · exact .inr rfl
    · cases tie with
      | toEven => rcases Nat.mod_two_eq_zero_or_one (w.floor e) with h | h <;> simp [h]
      | upwards => exact .inr rfl

theorem pick_eq (w : Window) (tie : Tie) (e : Int) :
    w.pick tie e =
      if w.holds (stretch e) (w.step e) (w.floor e) &&
        w.holds (stretch e) (w.step e) (w.floor e + 1) then
        some (w.nearer tie e)
      else if w.holds (stretch e) (w.step e) (w.floor e) then some (w.floor e)
      else if w.holds (stretch e) (w.step e) (w.floor e + 1) then some (w.floor e + 1)
      else none := by
  simp only [nearer]
  rw [apply_ite some, apply_ite some]
  cases tie <;> rfl

theorem pick_contains {c : Nat} (h : w.pick tie e = some c) : w.Contains (c * 10 ^ e) := by
  rw [← holds_iff]
  rw [pick_eq] at h
  split at h
  · next hboth =>
      obtain ⟨hbelow, habove⟩ := (Bool.and_eq_true _ _).mp hboth
      obtain rfl := Option.some.inj h
      rcases w.nearer_cases tie e with hc | hc
      · rwa [hc]
      · rwa [hc]
  · split at h
    · next hbelow => exact Option.some.inj h ▸ hbelow
    · split at h
      · next habove => exact Option.some.inj h ▸ habove
      · cases h

theorem pick_eq_none (h : w.pick tie e = none) :
    ¬ w.Contains (w.floor e * 10 ^ e) ∧ ¬ w.Contains ((w.floor e + 1 : Nat) * 10 ^ e) := by
  rw [← holds_iff, ← holds_iff]
  rw [pick_eq] at h
  split at h
  · cases h
  · split at h
    · cases h
    · next hbelow =>
        split at h
        · cases h
        · next habove => exact ⟨hbelow, habove⟩

theorem floor_le (w : Window) (e : Int) : w.floor e * 10 ^ e * w.den ≤ (w.value : ℚ) := by
  have hpos : (0 : ℚ) < stretch e := by exact_mod_cast stretch_pos e
  have hle : ((w.floor e * w.step e : Nat) : ℚ) ≤ (w.value * stretch e : Nat) := by
    exact_mod_cast Nat.div_mul_le_self _ _
  rw [Nat.cast_mul, cast_step, Nat.cast_mul] at hle
  refine le_of_mul_le_mul_right ?_ hpos
  linarith

theorem lt_floor_succ (hden : 0 < w.den) :
    (w.value : ℚ) < (w.floor e + 1 : Nat) * 10 ^ e * w.den := by
  have hpos : (0 : ℚ) < stretch e := by exact_mod_cast stretch_pos e
  have hstep : 0 < w.step e := by
    have : (0 : ℚ) < w.step e := by
      rw [cast_step]
      positivity
    exact_mod_cast this
  have hlt : ((w.value * stretch e : Nat) : ℚ) < ((w.floor e + 1) * w.step e : Nat) := by
    exact_mod_cast Nat.lt_mul_of_div_lt (Nat.lt_succ_self _) hstep
  rw [Nat.cast_mul, Nat.cast_mul, cast_step] at hlt
  refine lt_of_mul_lt_mul_right ?_ hpos.le
  linarith

/-- A grid with steps shorter than the window has a point inside: otherwise the window lies between
two points. -/
theorem exists_pick (tie : Tie) (hden : 0 < w.den) (hlow : w.low < w.value)
    (hhigh : w.value < w.high) (hfine : 10 ^ e * w.den < (w.high : ℚ) - w.low) :
    ∃ c, w.pick tie e = some c := by
  by_contra hpick
  obtain ⟨hbelow, habove⟩ :=
    pick_eq_none (Option.eq_none_iff_forall_not_mem.mpr fun c hc => hpick ⟨c, hc⟩)
  have hfloor := w.floor_le e
  have hsucc := lt_floor_succ (e := e) hden
  have hlow' : (w.low : ℚ) < w.value := by exact_mod_cast hlow
  have hhigh' : (w.value : ℚ) < w.high := by exact_mod_cast hhigh
  have hfirst : w.floor e * 10 ^ e * w.den ≤ (w.low : ℚ) := by
    by_contra hin
    apply hbelow
    unfold Contains
    split
    · exact ⟨by linarith, by linarith⟩
    · exact ⟨by linarith, by linarith⟩
  have hsecond : (w.high : ℚ) ≤ (w.floor e + 1 : Nat) * 10 ^ e * w.den := by
    by_contra hin
    apply habove
    unfold Contains
    split
    · exact ⟨by linarith, by linarith⟩
    · exact ⟨by linarith, by linarith⟩
  rw [Nat.cast_succ] at hsecond
  linarith

/-! ## The search -/

/-- The search finds a point as soon as its finest grid has one. -/
theorem search_contains (n : Nat) (h : ∃ c, w.pick tie (e - n) = some c) :
    w.Contains (decimalValue (w.search tie (n + 1) e)) := by
  induction n generalizing e with
  | zero =>
      obtain ⟨c, hc⟩ := h
      rw [Nat.cast_zero, sub_zero] at hc
      simp only [search, hc]
      exact pick_contains hc
  | succ n ih =>
      rw [search]
      cases hpick : w.pick tie e with
      | some c => exact pick_contains hpick
      | none => exact ih (by rwa [Nat.cast_succ, ← sub_sub, sub_right_comm] at h)

end Window

theorem decimalValue_stripZeros (fuel : Nat) (p : Nat × Int) :
    decimalValue (stripZeros fuel p) = decimalValue p := by
  induction fuel generalizing p with
  | zero => rfl
  | succ fuel ih =>
      obtain ⟨c, e⟩ := p
      rw [stripZeros]
      split
      · next hzero =>
          have hten : c = 10 * (c / 10) := by
            simp only [Bool.and_eq_true, beq_iff_eq] at hzero
            omega
          rw [ih, decimalValue, decimalValue, zpow_add_one₀ (by norm_num)]
          simp only
          conv_rhs => rw [hten, Nat.cast_mul]
          push_cast
          ring
      · rfl

theorem leadingExponent_le {num den : Nat} (hnum : 0 < num) (hden : 0 < den) :
    10 ^ leadingExponent num den * den ≤ (num : ℚ) := by
  unfold leadingExponent
  split
  · next hle =>
      -- the digits of the whole part
      have hpos : 0 < num / den := Nat.div_pos hle hden
      obtain ⟨k, hk⟩ : ∃ k, (Nat.toDigits 10 (num / den)).length = k + 1 :=
        Nat.exists_eq_add_one.mpr Nat.length_toDigits_pos
      have hpow : 10 ^ k ≤ num / den := by
        rcases Nat.eq_zero_or_pos k with rfl | hkpos
        · exact hpos
        · by_contra hlt
          have := (Nat.length_toDigits_le_iff (by decide) hkpos).mpr (Nat.lt_of_not_le hlt)
          omega
      have hmul : 10 ^ k * den ≤ num :=
        (Nat.mul_le_mul_right den hpow).trans (Nat.div_mul_le_self num den)
      rw [hk, Nat.cast_succ, add_sub_cancel_right, zpow_natCast]
      exact_mod_cast hmul
  · next hlt =>
      -- the digits of the whole part of the quotient the other way round, a little less than that
      set k := (Nat.toDigits 10 ((den + num - 1) / num - 1)).length with hk
      have hpow : (den + num - 1) / num - 1 < 10 ^ k :=
        (Nat.length_toDigits_le_iff (by decide) Nat.length_toDigits_pos).mp hk.ge
      have hmul : den ≤ 10 ^ k * num := by
        have hquot : (den + num - 1) / num < 10 ^ k + 1 := by omega
        have := (Nat.div_lt_iff_lt_mul hnum).mp hquot
        rw [Nat.add_mul] at this
        omega
      rw [zpow_neg, zpow_natCast, inv_mul_le_iff₀ (by positivity)]
      exact_mod_cast hmul

/-! ## Windows of numbers -/

namespace Binary64

variable {x y : Binary64}

/-- The distance from a number down to the end of its window, in quarters of a unit in its last
place. -/
def gapBelow (x : Binary64) : Nat :=
  if x.fraction.val = 0 && decide (1 < x.exponent.val) then 1 else 2

/-- A quarter of a unit in the last place. -/
def quarter (x : Binary64) : ℚ :=
  2 ^ (x.scale - 2)

theorem significand_lt (x : Binary64) : x.significand < 9007199254740992 := by
  have hfraction : x.fraction.val < 4503599627370496 := x.fraction.isLt
  have hpow : Nat.pow 2 52 = 4503599627370496 := rfl
  unfold significand
  split <;> omega

theorem significand_pos (h : x.isZero = false) : 0 < x.significand := by
  have : x.significand ≠ 0 := by simpa [isZero] using h
  omega

theorem quarter_pos (x : Binary64) : 0 < x.quarter := by
  unfold quarter
  positivity

/-- The window is narrower below the powers of two only. -/
theorem gapBelow_cases (x : Binary64) :
    x.gapBelow = 2 ∨ x.gapBelow = 1 ∧ x.significand = 4503599627370496 := by
  have hpow : Nat.pow 2 52 = 4503599627370496 := rfl
  unfold gapBelow significand
  split
  · next h =>
      simp only [Bool.and_eq_true, decide_eq_true_eq] at h
      refine .inr ⟨rfl, ?_⟩
      rw [if_neg (by omega), h.1]
  · exact .inl rfl

end Binary64

namespace Window

variable {x y : Binary64} {r : ℚ}

theorem den_pos (x : Binary64) : 0 < (Window.of x).den := by
  simp only [Window.of]
  split
  · exact Nat.pow_pos (by decide)
  · decide

/-- The numbers of a window count quarters of a unit in the last place. -/
theorem of_eq (x : Binary64) : ∃ up : Nat, 0 < up ∧ (up : ℚ) = x.quarter * (Window.of x).den ∧
    (Window.of x).value = 4 * x.significand * up ∧
    (Window.of x).low = (4 * x.significand - x.gapBelow) * up ∧
    (Window.of x).high = (4 * x.significand + 2) * up := by
  have hup : ((if x.scale - 2 < 0 then 1 else Nat.pow 2 (x.scale - 2).toNat : Nat) : ℚ) =
      x.quarter * (Window.of x).den := by
    simp only [Window.of, Binary64.quarter]
    generalize x.scale - 2 = q
    by_cases hq : q < 0
    · obtain ⟨n, rfl⟩ : ∃ n : Nat, q = -n := ⟨(-q).toNat, by omega⟩
      simp only [hq, if_true, neg_neg, Int.toNat_natCast, Nat.pow_eq, Nat.cast_one, Nat.cast_pow,
        Nat.cast_ofNat, zpow_neg, zpow_natCast]
      exact (inv_mul_cancel₀ (by positivity)).symm
    · obtain ⟨n, rfl⟩ : ∃ n : Nat, q = n := ⟨q.toNat, by omega⟩
      simp [hq]
  refine ⟨_, ?_, hup, rfl, rfl, rfl⟩
  split
  · decide
  · exact Nat.pow_pos (by decide)

theorem of_contains (h : (Window.of x).Contains r) :
    ((4 * x.significand - x.gapBelow : Nat) * x.quarter ≤ r ∧
      r ≤ (4 * x.significand + 2 : Nat) * x.quarter) ∧ (x.significand % 2 = 1 →
        (4 * x.significand - x.gapBelow : Nat) * x.quarter < r ∧
          r < (4 * x.significand + 2 : Nat) * x.quarter) := by
  have hden : (0 : ℚ) < (Window.of x).den := by exact_mod_cast den_pos x
  obtain ⟨up, -, hup, -, hlow, hhigh⟩ := of_eq x
  have hclosed : (Window.of x).closed = (x.significand % 2 == 0) := rfl
  unfold Contains at h
  rw [hlow, hhigh, hclosed, Nat.cast_mul, Nat.cast_mul, hup, ← mul_assoc, ← mul_assoc] at h
  simp only [mul_le_mul_iff_left₀ hden, mul_lt_mul_iff_left₀ hden] at h
  by_cases heven : x.significand % 2 = 0
  · rw [if_pos (by simpa using heven)] at h
    exact ⟨h, fun hodd => absurd hodd (by omega)⟩
  · rw [if_neg (by simpa using heven)] at h
    exact ⟨⟨h.1.le, h.2.le⟩, fun _ => h⟩

theorem pos_of_contains (hx : x.isZero = false) (h : (Window.of x).Contains r) : 0 < r := by
  have hsignificand := Binary64.significand_pos hx
  have hquarter := x.quarter_pos
  have hlow : 0 < 4 * x.significand - x.gapBelow := by
    rcases x.gapBelow_cases with hgap | ⟨hgap, -⟩ <;> omega
  have hlow' : (0 : ℚ) < (4 * x.significand - x.gapBelow : Nat) := by exact_mod_cast hlow
  exact (mul_pos hlow' hquarter).trans_le (of_contains h).1.1

/-- The seventeenth grid is finer than the window. -/
theorem fine_enough (hx : x.isZero = false) :
    10 ^ (leadingExponent (Window.of x).value (Window.of x).den - (16 : Nat)) * (Window.of x).den
      < ((Window.of x).high : ℚ) - (Window.of x).low := by
  have hsignificand := Binary64.significand_pos hx
  have hden := den_pos x
  obtain ⟨up, hpos, -, hvalue, hlow, hhigh⟩ := of_eq x
  have hvaluePos : 0 < (Window.of x).value := by
    rw [hvalue]
    positivity
  have hlead := leadingExponent_le hvaluePos hden
  -- the value is less than 10 ^ 16 times the width
  have hwidth : 4 * x.significand + 10 ^ 16 * (4 * x.significand - x.gapBelow) <
      10 ^ 16 * (4 * x.significand + 2) := by
    have hlt := x.significand_lt
    rcases x.gapBelow_cases with hgap | ⟨hgap, hpower⟩ <;> omega
  have hwidth' : (Window.of x).value + 10 ^ 16 * ((Window.of x).low : ℚ) <
      10 ^ 16 * (Window.of x).high := by
    have := Nat.mul_lt_mul_of_pos_right hwidth hpos
    rw [hvalue, hlow, hhigh]
    exact_mod_cast (by linarith : _ < _)
  rw [zpow_sub₀ (by norm_num), zpow_natCast, div_mul_eq_mul_div, div_lt_iff₀ (by positivity)]
  linarith

end Window

/-- The shortest decimal of a number rounds to it. -/
theorem shortest_contains (tie : Tie) {x : Binary64} (hx : x.isZero = false) :
    (Window.of x).Contains (decimalValue (shortest tie x)) := by
  have hsignificand := Binary64.significand_pos hx
  obtain ⟨up, hpos, -, hvalue, hlow, hhigh⟩ := Window.of_eq x
  have hbelow : (Window.of x).low < (Window.of x).value := by
    rw [hvalue, hlow]
    refine Nat.mul_lt_mul_of_pos_right ?_ hpos
    rcases x.gapBelow_cases with hgap | ⟨hgap, -⟩ <;> omega
  have habove : (Window.of x).value < (Window.of x).high := by
    rw [hvalue, hhigh]
    exact Nat.mul_lt_mul_of_pos_right (by omega) hpos
  have hpick := Window.exists_pick tie (Window.den_pos x) hbelow habove (Window.fine_enough hx)
  simp only [shortest, hx, Bool.false_eq_true, if_false, decimalValue_stripZeros]
  exact Window.search_contains 16 hpick

/-! ## The order of numbers -/

namespace Binary64

variable {x y : Binary64} {q r : ℚ}

/-- The magnitude of `x` is below that of `y`. -/
def Below (x y : Binary64) : Prop :=
  x.exponent < y.exponent ∨ x.exponent = y.exponent ∧ x.fraction < y.fraction

theorem Below.isZero_right (h : x.Below y) : y.isZero = false := by
  have hpow : Nat.pow 2 52 = 4503599627370496 := rfl
  have : y.significand ≠ 0 := by
    unfold significand
    split
    · next hy =>
        rcases h with hlt | ⟨-, hlt⟩
        · exact absurd hlt (by rw [Fin.lt_def]; omega)
        · rw [Fin.lt_def] at hlt
          omega
    · omega
  simpa [isZero] using this

/-- Numbers with one unit in the last place are told apart by their significands. The larger one of
two numbers with different units is at least a power of two, which the smaller one does not
reach. -/
theorem Below.cases (h : x.Below y) :
    x.scale = y.scale ∧ x.significand < y.significand ∧ y.gapBelow = 2 ∨
      x.scale < y.scale ∧ 18014398509481983 ≤ 4 * y.significand - y.gapBelow := by
  have hfx : x.fraction.val < 4503599627370496 := x.fraction.isLt
  have hfy : y.fraction.val < 4503599627370496 := y.fraction.isLt
  have hpow : Nat.pow 2 52 = 4503599627370496 := rfl
  unfold Below at h
  rw [Fin.lt_def, Fin.lt_def, Fin.ext_iff] at h
  unfold scale significand gapBelow
  simp only [Bool.and_eq_true, decide_eq_true_eq]
  split_ifs <;> omega

/-- The end of one window is not above the start of the next one. Where they meet, one of the two
significands is odd, so one of the windows does not include its end. -/
theorem Below.ends (h : x.Below y) :
    (4 * x.significand + 2 : Nat) * x.quarter < (4 * y.significand - y.gapBelow : Nat) * y.quarter ∨
      (4 * x.significand + 2 : Nat) * x.quarter ≤
        (4 * y.significand - y.gapBelow : Nat) * y.quarter ∧
        (x.significand % 2 = 1 ∨ y.significand % 2 = 1) := by
  have hquarter := x.quarter_pos
  rcases h.cases with ⟨hscale, hsignificand, hgap⟩ | ⟨hscale, hlow⟩
  · have hunit : y.quarter = x.quarter := by rw [quarter, quarter, hscale]
    rw [hunit]
    by_cases hnext : y.significand = x.significand + 1
    · refine .inr ⟨?_, by omega⟩
      rw [show 4 * y.significand - y.gapBelow = 4 * x.significand + 2 by omega]
    · refine .inl (mul_lt_mul_of_pos_right ?_ hquarter)
      exact_mod_cast (by omega : 4 * x.significand + 2 < 4 * y.significand - y.gapBelow)
  · have hunit : 2 * x.quarter ≤ y.quarter := by
      rw [quarter, quarter, ← zpow_one_add₀ (by norm_num)]
      exact zpow_le_zpow_right₀ (by norm_num) (by omega)
    have hlow' : (18014398509481983 : ℚ) ≤ (4 * y.significand - y.gapBelow : Nat) := by
      exact_mod_cast hlow
    have hstart : (36028797018963966 : Nat) * x.quarter ≤
        (4 * y.significand - y.gapBelow : Nat) * y.quarter :=
      calc (36028797018963966 : Nat) * x.quarter
        _ = 18014398509481983 * (2 * x.quarter) := by push_cast; ring
        _ ≤ (4 * y.significand - y.gapBelow : Nat) * y.quarter :=
          mul_le_mul hlow' hunit (by positivity) (by positivity)
    have hlt := x.significand_lt
    by_cases hlast : x.significand = 9007199254740991
    · rw [hlast]
      exact .inr ⟨hstart, .inl rfl⟩
    · refine .inl (lt_of_lt_of_le (mul_lt_mul_of_pos_right ?_ hquarter) hstart)
      exact_mod_cast (by omega : 4 * x.significand + 2 < 36028797018963966)

/-- What rounds to a number is below everything that rounds to a larger one. -/
theorem Below.separates (h : x.Below y) (hq : (Window.of x).Contains q)
    (hr : (Window.of y).Contains r) : q < r := by
  obtain ⟨⟨-, hle⟩, hlt⟩ := Window.of_contains hq
  obtain ⟨⟨hge, -⟩, hgt⟩ := Window.of_contains hr
  rcases h.ends with hends | ⟨hends, hodd | hodd⟩
  · linarith
  · linarith [(hlt hodd).2]
  · linarith [(hgt hodd).1]

end Binary64

/-- A larger magnitude has a larger decimal. -/
theorem decimalValue_lt_of_below (tie : Tie) {x y : Binary64} (h : x.Below y) :
    decimalValue (shortest tie x) < decimalValue (shortest tie y) := by
  have hy := shortest_contains tie h.isZero_right
  cases hx : x.isZero with
  | true =>
      have hzero : decimalValue (shortest tie x) = 0 := by simp [shortest, hx, decimalValue]
      rw [hzero]
      exact Window.pos_of_contains h.isZero_right hy
  | false => exact h.separates (shortest_contains tie hx) hy

/-- The shortest decimal tells magnitudes apart. -/
theorem eq_of_decimalValue_eq (tie : Tie) {x y : Binary64}
    (h : decimalValue (shortest tie x) = decimalValue (shortest tie y)) :
    x.exponent = y.exponent ∧ x.fraction = y.fraction := by
  have hx : ¬ x.Below y := fun hlt => (decimalValue_lt_of_below tie hlt).ne h
  have hy : ¬ y.Below x := fun hlt => (decimalValue_lt_of_below tie hlt).ne h.symm
  unfold Binary64.Below at hx hy
  rw [Fin.lt_def, Fin.lt_def, Fin.ext_iff] at hx hy
  rw [Fin.ext_iff, Fin.ext_iff]
  omega

end BlockBot.Decimal
