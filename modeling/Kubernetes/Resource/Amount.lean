import Mathlib.Tactic.Linarith
import Mathlib.Tactic.Positivity
import Mathlib.Tactic.Ring

/-!
# Amounts of 64 bits

`int64Amount` is a 64-bit value with a 32-bit decimal scale.  It is compared and added without
arbitrary precision where the scales are close enough, and falls back to `inf.Dec` elsewhere.
Negating and subtracting scales wraps around, so a comparison that negates the smallest scale is not
exact.
-/

namespace Kubernetes.Resource

open Option
open Int32 (lt_iff_toInt_lt toInt_inj toInt_zero le_iff_toInt_le)

/-- `int64Add`: the sum, unless it overflows. -/
def int64Add (a b : Int64) : Option Int64 :=
  let c := a + b
  if 0 < a ∧ 0 < b then
    if c < 0 then none else some c
  else if a < 0 ∧ b < 0 then
    if 0 < c then none
    else if a = Int64.minValue ∧ b = Int64.minValue then none
    else some c
  else some c

/-- `int64MultiplyScale`: the product with a factor greater than one, unless it overflows. -/
def int64MultiplyScale (a b : Int64) : Option Int64 :=
  if a = 0 ∨ a = 1 then some (a * b)
  else if a = Int64.minValue ∧ b ≠ 1 then none
  else
    let c := a * b
    if c / b = a then some c else none

/-- The loop of `positiveScaleInt64`: multiply by ten the given number of times. -/
def multiplyTens : ℕ → Int64 → Option Int64
  | 0, value => some value
  | count + 1, value => (int64MultiplyScale value 10).bind (multiplyTens count)

/-- `positiveScaleInt64`: the value times a power of ten, unless it overflows. -/
def positiveScaleInt64 (base : Int64) (scale : Int32) : Option Int64 :=
  if scale = 0 then some base
  else if scale = 1 then int64MultiplyScale base 10
  else if scale = 2 then int64MultiplyScale base 100
  else if scale = 3 then int64MultiplyScale base 1000
  else if scale = 6 then int64MultiplyScale base 1000000
  else if scale = 9 then int64MultiplyScale base 1000000000
  else multiplyTens scale.toInt.toNat base

/-- `pow10Int64`, which is zero where the power does not fit. -/
def pow10Int64 (exponent : ℤ) : ℤ :=
  if 0 ≤ exponent ∧ exponent ≤ 18 then 10 ^ exponent.toNat else 0

/-- Quotient and remainder, and whether the scale is small enough.  There is no result where the
divisor is zero. -/
def divideByScaleInt64 (base : Int64) (scale : Int32) : Option (ℤ × ℤ × Bool) :=
  if scale = 0 then some (base.toInt, 0, true)
  else if 18 ≤ scale then some (0, base.toInt, false)
  else
    let divisor := pow10Int64 scale.toInt
    if divisor = 0 then none
    else some (base.toInt.tdiv divisor, base.toInt.tmod divisor, true)

/-- An `inf.Dec`: the unscaled value divided by ten to the power of the scale. -/
structure Dec where
  unscaled : ℤ
  scale : Int32
  deriving DecidableEq

namespace Dec

def number (x : Dec) : ℚ := x.unscaled * (10 : ℚ) ^ (-x.scale.toInt)

/-- `exp10`: the table of small powers has no negative indices, and the program ends there. -/
def exp10 (exponent : Int32) : Option ℤ :=
  if exponent < 0 then none else some (10 ^ exponent.toInt.toNat)

/-- `rescale` rounds towards zero. -/
def rescale (x : Dec) (newScale : Int32) : Option Dec :=
  let shift := newScale - x.scale
  if shift < 0 then (exp10 (-shift)).map fun power ↦ ⟨x.unscaled.tdiv power, newScale⟩
  else if 0 < shift then (exp10 shift).map fun power ↦ ⟨x.unscaled * power, newScale⟩
  else some x

/-- `upscale` brings two decimals to the greater scale. -/
def upscale (a b : Dec) : Option (Dec × Dec) :=
  if a.scale = b.scale then some (a, b)
  else if b.scale < a.scale then (b.rescale a.scale).map fun b ↦ (a, b)
  else (a.rescale b.scale).map fun a ↦ (a, b)

def cmp (x y : Dec) : Option Ordering :=
  (upscale x y).map fun pair ↦ compare pair.1.unscaled pair.2.unscaled

end Dec

/-- A value times ten to the power of the scale. -/
structure Int64Amount where
  value : Int64
  scale : Int32
  deriving DecidableEq

namespace Int64Amount

def number (a : Int64Amount) : ℚ := a.value.toInt * (10 : ℚ) ^ a.scale.toInt

def asDec (a : Int64Amount) : Dec := ⟨a.value.toInt, -a.scale⟩

def cmpQuotient (value result remainder : ℤ) : Ordering :=
  if result = value then
    if remainder = 0 then .eq else if 0 < remainder then .lt else .gt
  else compare value result

/-- `Cmp`.  There is no result where the program ends. -/
def cmp (a b : Int64Amount) : Option Ordering :=
  if a.scale = b.scale then some (compare a.value.toInt b.value.toInt)
  else if b.scale < a.scale then
    match divideByScaleInt64 b.value (a.scale - b.scale) with
    | none => none
    | some (_, _, false) => a.asDec.cmp b.asDec
    | some (result, remainder, true) => some (cmpQuotient a.value.toInt result remainder)
  else
    match divideByScaleInt64 a.value (b.scale - a.scale) with
    | none => none
    | some (_, _, false) => a.asDec.cmp b.asDec
    | some (result, remainder, true) => some (cmpQuotient b.value.toInt result remainder).swap

/-- The two ways `Add` ends: with the sum at a scale, or without a change. -/
def addResult (a : Int64Amount) (scale : Int32) : Option Int64 → Int64Amount × Bool
  | none => (a, false)
  | some value => (⟨value, scale⟩, true)

/-- `Add` aligns the scales.  It says whether it succeeded. -/
def add (a b : Int64Amount) : Int64Amount × Bool :=
  if b.value = 0 then (a, true)
  else if a.value = 0 then (b, true)
  else if a.scale = b.scale then a.addResult a.scale (int64Add a.value b.value)
  else if b.scale < a.scale then
    a.addResult b.scale
      ((positiveScaleInt64 a.value (a.scale - b.scale)).bind fun c ↦ int64Add c b.value)
  else
    a.addResult a.scale
      ((positiveScaleInt64 b.value (b.scale - a.scale)).bind fun c ↦ int64Add a.value c)

end Int64Amount

/-! ## The arithmetic is exact -/

def Fits (n : ℤ) : Prop := -2 ^ 63 ≤ n ∧ n < 2 ^ 63

instance fitsDecidable (n : ℤ) : Decidable (Fits n) := inferInstanceAs (Decidable (_ ∧ _))

/-- A number as a 64-bit value, if it fits. -/
def exact (n : ℤ) : Option Int64 :=
  if Fits n then some (Int64.ofInt n) else none

theorem fits_toInt (a : Int64) : Fits a.toInt := ⟨a.le_toInt, a.toInt_lt⟩

variable {n : ℤ}

theorem bmod_of_fits (hfits : Fits n) : n.bmod (2 ^ 64) = n := by
  obtain ⟨hlow, hhigh⟩ := hfits
  exact Int.bmod_eq_of_le (by norm_num; omega) (by norm_num; omega)

theorem exact_eq_some {c : Int64} : exact n = some c ↔ c.toInt = n := by
  unfold exact
  split_ifs with hfits
  · rw [Option.some.injEq, ← Int64.toInt_inj, Int64.toInt_ofInt,
      show Int64.size = 2 ^ 64 from rfl, bmod_of_fits hfits, eq_comm]
  · refine iff_of_false nofun fun h ↦ hfits (h ▸ fits_toInt c)

theorem exact_toInt (a : Int64) : exact a.toInt = some a := exact_eq_some.mpr rfl

theorem exact_of_not_fits (hfits : ¬ Fits n) : exact n = none :=
  if_neg hfits

/-- An operation of the machine changes the exact result by a multiple of the range. -/
theorem exists_bmod_eq (n : ℤ) : ∃ turns : ℤ, n.bmod (2 ^ 64) = n - 2 ^ 64 * turns :=
  ⟨n.bdiv (2 ^ 64), by exact_mod_cast Int.bmod_eq_self_sub_mul_bdiv n (2 ^ 64)⟩

/-- The signs tell whether a sum overflows. -/
theorem int64Add_eq (a b : Int64) : int64Add a b = exact (a.toInt + b.toInt) := by
  have hsum := Int64.toInt_add a b
  obtain ⟨turns, hturns⟩ := exists_bmod_eq (a.toInt + b.toInt)
  have ha := fits_toInt a
  have hb := fits_toInt b
  have hc := fits_toInt (a + b)
  unfold Fits at ha hb hc
  have hmin (c : Int64) : c = Int64.minValue ↔ c.toInt = -2 ^ 63 := by
    rw [← Int64.toInt_inj, Int64.toInt_minValue]
  unfold int64Add
  simp only [Int64.lt_iff_toInt_lt, hmin, Int64.toInt_zero]
  by_cases hfits : Fits (a.toInt + b.toInt)
  · rw [exact_eq_some.mpr (by unfold Fits at hfits; omega : (a + b).toInt = _)]
    unfold Fits at hfits
    split_ifs <;> first | rfl | omega
  · rw [exact_of_not_fits hfits]
    unfold Fits at hfits
    split_ifs <;> first | rfl | omega

theorem toInt_div_of_pos (c : Int64) {b : Int64} (hb : 0 < b.toInt) :
    (c / b).toInt = c.toInt.tdiv b.toInt := by
  rw [Int64.toInt_div, bmod_of_fits]
  have hc := fits_toInt c
  have hquo := Int.mul_tdiv_add_tmod c.toInt b.toInt
  have hlow := Int.lt_tmod_of_pos c.toInt hb
  have hhigh := Int.tmod_lt_of_pos c.toInt hb
  unfold Fits at hc ⊢
  constructor
  · nlinarith
  · nlinarith

/-- The quotient tells whether a product overflows. -/
theorem int64MultiplyScale_eq (a : Int64) {b : Int64} (hb : 1 < b.toInt) :
    int64MultiplyScale a b = exact (a.toInt * b.toInt) := by
  have hproduct := Int64.toInt_mul a b
  obtain ⟨turns, hturns⟩ := exists_bmod_eq (a.toInt * b.toInt)
  have hc := fits_toInt (a * b)
  have hbound := fits_toInt b
  unfold Fits at hc hbound
  unfold int64MultiplyScale
  split_ifs with hsmall hmin
  · refine (exact_eq_some.mpr ?_).symm
    rw [Int64.toInt_mul]
    rcases hsmall with rfl | rfl
    · simp
    · simp
  · refine (exact_of_not_fits ?_).symm
    rw [hmin.1, Int64.toInt_minValue]
    unfold Fits
    omega
  · have hiff : a * b / b = a ↔ (a * b).toInt.tdiv b.toInt = a.toInt := by
      rw [← Int64.toInt_inj, toInt_div_of_pos _ (by omega)]
    dsimp only
    split_ifs with hquo
    all_goals rw [hiff] at hquo
    · -- an overflow changes the product by more than a remainder
      have hrem := Int.mul_tdiv_add_tmod (a * b).toInt b.toInt
      have hlow := Int.lt_tmod_of_pos (a * b).toInt (show 0 < b.toInt by omega)
      have hhigh := Int.tmod_lt_of_pos (a * b).toInt (show 0 < b.toInt by omega)
      rw [hquo, mul_comm] at hrem
      exact (exact_eq_some.mpr (by omega)).symm
    · refine (exact_of_not_fits fun hfits ↦ hquo ?_).symm
      unfold Fits at hfits
      rw [show (a * b).toInt = a.toInt * b.toInt by omega]
      exact Int.mul_tdiv_cancel _ (by omega)

theorem not_fits_mul (hfits : ¬ Fits n) (count : ℕ) : ¬ Fits (n * 10 ^ count) := by
  have hpow : (1 : ℤ) ≤ 10 ^ count := one_le_pow₀ (by norm_num)
  unfold Fits at hfits ⊢
  rintro ⟨hlow, hhigh⟩
  by_cases h : n < -2 ^ 63
  · nlinarith
  · have hn : 2 ^ 63 ≤ n := by omega
    nlinarith

theorem multiplyTens_eq (count : ℕ) (value : Int64) :
    multiplyTens count value = exact (value.toInt * 10 ^ count) := by
  induction count generalizing value with
  | zero => rw [multiplyTens, pow_zero, mul_one, exact_toInt]
  | succ count ih =>
    rw [multiplyTens, int64MultiplyScale_eq value (show 1 < (10 : Int64).toInt by decide),
      pow_succ', ← mul_assoc, show (10 : Int64).toInt = 10 from rfl]
    cases hproduct : exact (value.toInt * 10) with
    | none =>
      have hfits : ¬ Fits (value.toInt * 10) := by
        intro hfits
        rw [exact, if_pos hfits] at hproduct
        cases hproduct
      rw [bind_none, exact_of_not_fits (not_fits_mul hfits count)]
    | some c => rw [bind_some, ih, exact_eq_some.mp hproduct]

theorem positiveScaleInt64_eq (base : Int64) (scale : Int32) :
    positiveScaleInt64 base scale = exact (base.toInt * 10 ^ scale.toInt.toNat) := by
  unfold positiveScaleInt64
  split_ifs with h h h h h h
  · rw [h, toInt_zero, Int.toNat_zero, pow_zero, mul_one, exact_toInt]
  any_goals
    rw [int64MultiplyScale_eq base (by decide), h]
    rfl
  exact multiplyTens_eq _ base

namespace Int64Amount

def byScale (a b : Int64Amount) : Int64Amount × Int64Amount :=
  if b.scale ≤ a.scale then (a, b) else (b, a)

def scaledUp (high low : Int64Amount) : ℤ :=
  high.value.toInt * 10 ^ (high.scale - low.scale).toInt.toNat

/-- The sum of two values at the smaller scale, if both steps fit. -/
def scaledSum (high low : Int64Amount) : Option Int64 :=
  if Fits (scaledUp high low) then exact (scaledUp high low + low.value.toInt) else none

theorem bind_int64Add (high low : Int64Amount) :
    ((positiveScaleInt64 high.value (high.scale - low.scale)).bind fun c ↦
      int64Add c low.value) = scaledSum high low := by
  rw [positiveScaleInt64_eq, scaledSum, scaledUp]
  split_ifs with hfits
  · obtain ⟨c, hc⟩ : ∃ c, exact (scaledUp high low) = some c := ⟨_, if_pos hfits⟩
    rw [← scaledUp, hc, bind_some, int64Add_eq, exact_eq_some.mp hc]
  · rw [exact_of_not_fits hfits, bind_none]

theorem int64Add_comm (a b : Int64) : int64Add a b = int64Add b a := by
  rw [int64Add_eq, int64Add_eq, add_comm]

variable {a b : Int64Amount}

theorem add_eq (ha : a.value ≠ 0) (hb : b.value ≠ 0) :
    a.add b = a.addResult (byScale a b).2.scale (scaledSum (byScale a b).1 (byScale a b).2) := by
  rw [add, if_neg hb, if_neg ha, byScale]
  by_cases heq : a.scale = b.scale
  · rw [if_pos heq, if_pos (heq ▸ Int32.le_refl _), ← bind_int64Add, heq, Int32.sub_self,
      positiveScaleInt64, if_pos rfl, bind_some]
  · have hlt : b.scale < a.scale ↔ b.scale ≤ a.scale := by
      rw [Int32.lt_iff_le_and_ne]
      exact and_iff_left (Ne.symm heq)
    simp only [if_neg heq, hlt, bind_int64Add, int64Add_comm a.value]
    split_ifs
    · rfl
    · rfl

theorem number_eq (a : Int64Amount) {scale : ℤ} (hle : scale ≤ a.scale.toInt) :
    a.number = ((a.value.toInt * 10 ^ (a.scale.toInt - scale).toNat : ℤ) : ℚ) * 10 ^ scale := by
  have hcast : ((a.scale.toInt - scale).toNat : ℤ) = a.scale.toInt - scale :=
    Int.toNat_of_nonneg (by omega)
  rw [number]
  push_cast
  rw [← zpow_natCast, hcast, mul_assoc, ← zpow_add₀ (by norm_num), sub_add_cancel]

theorem compare_mul_zpow (m n scale : ℤ) :
    compare ((m : ℚ) * 10 ^ scale) ((n : ℚ) * 10 ^ scale) = compare m n := by
  have hpos : (0 : ℚ) < 10 ^ scale := zpow_pos (by norm_num) _
  rcases lt_trichotomy m n with h | h | h
  · rw [compare_lt_iff_lt.mpr h, compare_lt_iff_lt]
    exact mul_lt_mul_of_pos_right (by exact_mod_cast h) hpos
  · rw [h, compare_eq_iff_eq.mpr rfl, compare_eq_iff_eq.mpr rfl]
  · rw [compare_gt_iff_gt.mpr h, compare_gt_iff_gt]
    exact mul_lt_mul_of_pos_right (by exact_mod_cast h) hpos

theorem compare_number (hle : b.scale.toInt ≤ a.scale.toInt) :
    compare a.number b.number =
      compare (a.value.toInt * 10 ^ (a.scale.toInt - b.scale.toInt).toNat) b.value.toInt := by
  rw [number_eq a hle, ← compare_mul_zpow _ _ b.scale.toInt]
  rfl

theorem toInt_sub_of_lt {a b : Int32} (hle : b.toInt ≤ a.toInt) (hlt : a.toInt - b.toInt < 2 ^ 31) :
    (a - b).toInt = a.toInt - b.toInt := by
  rw [Int32.toInt_sub]
  exact Int.bmod_eq_of_le (by norm_num; omega) (by norm_num; omega)

theorem toInt_sub_of_far {a b : Int32} (hfar : 2 ^ 31 ≤ a.toInt - b.toInt) : (a - b).toInt < 0 := by
  have := a.toInt_lt
  have := b.le_toInt
  rw [Int32.toInt_sub, ← Int.sub_bmod_right, Int.bmod_eq_of_le (by omega) (by omega)]
  omega

theorem byScale_le (a b : Int64Amount) :
    (byScale a b).2.scale.toInt ≤ (byScale a b).1.scale.toInt := by
  unfold byScale
  split_ifs with hle
  · exact le_iff_toInt_le.mp hle
  · rw [le_iff_toInt_le] at hle
    exact (not_le.mp hle).le

theorem byScale_gap (a b : Int64Amount) :
    (byScale a b).1.scale.toInt - (byScale a b).2.scale.toInt =
      |a.scale.toInt - b.scale.toInt| := by
  have hle := byScale_le a b
  unfold byScale at hle ⊢
  split_ifs at hle ⊢
  · exact (abs_of_nonneg (sub_nonneg.mpr hle)).symm
  · rw [abs_sub_comm]
    exact (abs_of_nonneg (sub_nonneg.mpr hle)).symm

theorem byScale_number (a b : Int64Amount) :
    (byScale a b).1.number + (byScale a b).2.number = a.number + b.number := by
  unfold byScale
  split_ifs
  · rfl
  · exact add_comm ..

theorem add_exact (hgap : |a.scale.toInt - b.scale.toInt| < 2 ^ 31) :
    (a.add b).2 = true ∧ (a.add b).1.number = a.number + b.number ∨ a.add b = (a, false) := by
  by_cases hb : b.value = 0
  · simp [add, hb, number]
  by_cases ha : a.value = 0
  · simp [add, ha, hb, number]
  rw [add_eq ha hb]
  cases hsum : scaledSum (byScale a b).1 (byScale a b).2 with
  | none => exact .inr rfl
  | some c =>
    refine .inl ⟨rfl, ?_⟩
    rw [scaledSum, scaledUp, toInt_sub_of_lt (byScale_le a b) (by rwa [byScale_gap])] at hsum
    split_ifs at hsum
    rw [← byScale_number, number_eq _ (byScale_le a b), addResult, number, number,
      exact_eq_some.mp hsum]
    push_cast
    ring

/-! ## Comparison -/

theorem cmpQuotient_eq (value n : ℤ) {power : ℤ} (hpower : 0 < power) :
    cmpQuotient value (n.tdiv power) (n.tmod power) = compare (value * power) n := by
  have hrem := Int.mul_tdiv_add_tmod n power
  have hlow := Int.lt_tmod_of_pos n hpower
  have hhigh := Int.tmod_lt_of_pos n hpower
  unfold cmpQuotient
  split_ifs with heq hzero hpos
  · rw [heq, hzero, add_zero, mul_comm] at hrem
    exact (compare_eq_iff_eq.mpr hrem).symm
  · rw [heq, mul_comm] at hrem
    exact (compare_lt_iff_lt.mpr (by omega)).symm
  · rw [heq, mul_comm] at hrem
    exact (compare_gt_iff_gt.mpr (by omega)).symm
  · rcases lt_or_gt_of_ne (Ne.symm heq) with hlt | hgt
    · rw [compare_lt_iff_lt.mpr hlt, eq_comm, compare_lt_iff_lt]
      nlinarith
    · rw [compare_gt_iff_gt.mpr hgt, eq_comm, compare_gt_iff_gt]
      nlinarith

/-- The scale of the second amount does not survive its negation, and the fallback loses the digits
in which the two differ. -/
def Truncates (a b : Int64Amount) : Prop :=
  let gap := a.scale.toInt - b.scale.toInt
  b.scale = Int32.minValue ∧ 18 ≤ gap ∧ a.value.toInt = b.value.toInt.tdiv (10 ^ gap.toNat) ∧
    b.value.toInt.tmod (10 ^ gap.toNat) ≠ 0

theorem exp10_of_nonneg {exponent : Int32} (hexponent : 0 ≤ exponent.toInt) :
    Dec.exp10 exponent = some (10 ^ exponent.toInt.toNat) := by
  rw [Dec.exp10, if_neg]
  rw [lt_iff_toInt_lt, toInt_zero]
  omega

theorem toInt_neg_of_ne {scale : Int32} (hne : scale ≠ Int32.minValue) :
    (-scale).toInt = -scale.toInt := by
  have hlow := scale.le_toInt
  have hhigh := scale.toInt_lt
  rw [Ne, ← toInt_inj, Int32.toInt_minValue] at hne
  rw [Int32.toInt_neg]
  exact Int.bmod_eq_of_le (by norm_num; omega) (by norm_num; omega)

theorem asDec_cmp (hlt : b.scale.toInt < a.scale.toInt)
    (hgap : a.scale.toInt - b.scale.toInt < 2 ^ 31) :
    a.asDec.cmp b.asDec = some
      (if b.scale = Int32.minValue then
        compare a.value.toInt
          (b.value.toInt.tdiv (10 ^ (a.scale.toInt - b.scale.toInt).toNat))
      else
        compare (a.value.toInt * 10 ^ (a.scale.toInt - b.scale.toInt).toNat) b.value.toInt) := by
  have hlow := b.scale.le_toInt
  have hhigh := a.scale.toInt_lt
  have ha : (-a.scale).toInt = -a.scale.toInt := by
    apply toInt_neg_of_ne
    rw [Ne, ← toInt_inj, Int32.toInt_minValue]
    omega
  have hsub := toInt_sub_of_lt hlt.le hgap
  have hne : -a.scale ≠ -b.scale := fun h ↦ hlt.ne (by rw [Int32.neg_inj.mp h])
  rw [Dec.cmp, Dec.upscale, asDec, asDec, if_neg hne]
  by_cases hwrap : b.scale = Int32.minValue
  · have hgreater : -b.scale < -a.scale := by
      rw [lt_iff_toInt_lt, hwrap, show (-Int32.minValue).toInt = -2 ^ 31 from rfl]
      omega
    have hshift : (-a.scale - -b.scale).toInt = -(a.scale.toInt - b.scale.toInt) := by
      rw [show -a.scale - -b.scale = -(a.scale - b.scale) by grind, toInt_neg_of_ne, hsub]
      rw [Ne, ← toInt_inj, Int32.toInt_minValue]
      omega
    have hback : - (-a.scale - -b.scale) = a.scale - b.scale := by grind
    rw [if_pos hgreater, if_pos hwrap, Dec.rescale, if_pos, hback, exp10_of_nonneg (by omega), hsub]
    · rfl
    · rw [lt_iff_toInt_lt, hshift, toInt_zero]
      omega
  · have hb := toInt_neg_of_ne hwrap
    have hless : ¬ -b.scale < -a.scale := by
      rw [lt_iff_toInt_lt]
      omega
    have hshift : -b.scale - -a.scale = a.scale - b.scale := by grind
    rw [if_neg hless, if_neg hwrap, Dec.rescale, hshift, if_neg, if_pos,
      exp10_of_nonneg (by omega), hsub]
    · rfl
    all_goals
      rw [lt_iff_toInt_lt, toInt_zero]
      omega

theorem compare_swap (m n : ℤ) : compare m n = (compare n m).swap := Std.OrientedCmp.eq_swap

theorem lt_or_lt_of_ne {a b : Int32} (hne : a ≠ b) : a < b ∧ ¬ b < a ∨ b < a ∧ ¬ a < b := by
  have hint := mt toInt_inj.mp hne
  rw [lt_iff_toInt_lt, lt_iff_toInt_lt]
  omega

theorem dec_cmp_swap (x y : Dec) : x.cmp y = (y.cmp x).map Ordering.swap := by
  rw [Dec.cmp, Dec.cmp, Dec.upscale, Dec.upscale]
  by_cases heq : x.scale = y.scale
  · rw [if_pos heq, if_pos heq.symm]
    exact congrArg some (compare_swap _ _)
  · rw [if_neg heq, if_neg (Ne.symm heq)]
    rcases lt_or_lt_of_ne heq with ⟨hlt, hgt⟩ | ⟨hgt, hlt⟩
    · rw [if_neg hgt, if_pos hlt]
      cases x.rescale y.scale with
      | none => rfl
      | some x => exact congrArg some (compare_swap _ _)
    · rw [if_pos hgt, if_neg hlt]
      cases y.rescale x.scale with
      | none => rfl
      | some y => exact congrArg some (compare_swap _ _)

theorem cmp_swap (hlt : a.scale < b.scale) (hgt : ¬ b.scale < a.scale) (hne : a.scale ≠ b.scale) :
    a.cmp b = (b.cmp a).map Ordering.swap := by
  rw [cmp, cmp, if_neg hne, if_neg (Ne.symm hne), if_neg hgt, if_pos hlt]
  split
  · rfl
  · exact dec_cmp_swap _ _
  · rfl

theorem cmp_eq_iff_of_lt (hlt : b.scale.toInt < a.scale.toInt)
    (hgap : a.scale.toInt - b.scale.toInt < 2 ^ 31) :
    a.cmp b = some (compare a.number b.number) ↔ ¬ Truncates a b := by
  have hpower : (0 : ℤ) < 10 ^ (a.scale.toInt - b.scale.toInt).toNat := by positivity
  have hsub := toInt_sub_of_lt hlt.le hgap
  have hne : a.scale - b.scale ≠ 0 := by
    rw [Ne, ← toInt_inj, toInt_zero]
    omega
  have hle : 18 ≤ a.scale - b.scale ↔ 18 ≤ a.scale.toInt - b.scale.toInt := by
    rw [le_iff_toInt_le, hsub]
    rfl
  rw [compare_number hlt.le, cmp, if_neg fun h ↦ hlt.ne (by rw [h]),
    if_pos (lt_iff_toInt_lt.mpr hlt), divideByScaleInt64, if_neg hne]
  by_cases hfar : 18 ≤ a.scale.toInt - b.scale.toInt
  · rw [if_pos (hle.mpr hfar), ← cmpQuotient_eq _ _ hpower]
    rw [asDec_cmp hlt hgap]
    by_cases hmin : b.scale = Int32.minValue
    · rw [if_pos hmin, cmpQuotient]
      by_cases hquo : b.value.toInt.tdiv (10 ^ (a.scale.toInt - b.scale.toInt).toNat) =
          a.value.toInt
      · have htruncates : Truncates a b ↔ b.value.toInt.tmod
            (10 ^ (a.scale.toInt - b.scale.toInt).toNat) ≠ 0 :=
          ⟨fun h ↦ h.2.2.2, fun h ↦ ⟨hmin, hfar, hquo.symm, h⟩⟩
        rw [if_pos hquo, hquo, compare_eq_iff_eq.mpr rfl, htruncates, not_not]
        split_ifs with hzero hpos
        · exact iff_of_true rfl hzero
        · exact iff_of_false nofun hzero
        · exact iff_of_false nofun hzero
      · rw [if_neg hquo]
        exact iff_of_true rfl fun h ↦ hquo h.2.2.1.symm
    · rw [if_neg hmin, cmpQuotient_eq _ _ hpower]
      exact iff_of_true rfl fun h ↦ hmin h.1
  · have hdivisor : pow10Int64 (a.scale - b.scale).toInt =
        10 ^ (a.scale.toInt - b.scale.toInt).toNat := by
      rw [pow10Int64, hsub, if_pos (by omega)]
    simp only [if_neg (mt hle.mp hfar), hdivisor, if_neg hpower.ne', cmpQuotient_eq _ _ hpower]
    exact iff_of_true trivial fun h ↦ hfar h.2.1

/-- The difference of scales that are too far apart wraps around, and there is no power of ten to
divide by. -/
theorem divideByScaleInt64_of_far (base : Int64) {a b : Int32}
    (hfar : 2 ^ 31 ≤ a.toInt - b.toInt) : divideByScaleInt64 base (a - b) = none := by
  have hneg := toInt_sub_of_far hfar
  have hpow : pow10Int64 (a - b).toInt = 0 := if_neg fun h ↦ by omega
  rw [divideByScaleInt64, hpow, if_neg fun h ↦ hneg.ne (by rw [h]; rfl),
    if_neg fun h ↦ by have : (18 : ℤ) ≤ _ := le_iff_toInt_le.mp h; omega]
  rfl

/-- Amounts whose scales are too far apart cannot be compared. -/
theorem cmp_of_far (hfar : 2 ^ 31 ≤ |a.scale.toInt - b.scale.toInt|) :
    a.cmp b = none := by
  have hne : a.scale ≠ b.scale := by
    rintro heq
    simp [heq] at hfar
  rw [cmp, if_neg hne]
  rcases le_abs.mp hfar with hfar | hfar
  · rw [if_pos (lt_iff_toInt_lt.mpr (by omega)), divideByScaleInt64_of_far _ hfar]
  · rw [if_neg fun h ↦ by rw [lt_iff_toInt_lt] at h; omega,
      divideByScaleInt64_of_far _ (by omega)]

/-- `Cmp` gives the order of the numbers, and `Add` the exact sum or no change, just if the
difference of the scales is a 32-bit number and no digits are lost. -/
theorem cmp_add_exact_iff (a b : Int64Amount) :
    (a.cmp b = some (compare a.number b.number) ∧
      ((a.add b).2 = true ∧ (a.add b).1.number = a.number + b.number ∨ a.add b = (a, false))) ↔
    |a.scale.toInt - b.scale.toInt| < 2 ^ 31 ∧ ¬ Truncates a b ∧ ¬ Truncates b a := by
  by_cases hgap : |a.scale.toInt - b.scale.toInt| < 2 ^ 31
  swap
  · rw [cmp_of_far (not_lt.mp hgap)]
    exact iff_of_false (fun h ↦ nomatch h.1) fun h ↦ hgap h.1
  rw [and_iff_right hgap, and_iff_left (add_exact hgap)]
  rw [abs_lt] at hgap
  rcases lt_trichotomy b.scale.toInt a.scale.toInt with hlt | heq | hgt
  · rw [cmp_eq_iff_of_lt hlt (by omega), and_iff_left fun h ↦ by have := h.2.1; omega]
  · rw [cmp, if_pos (toInt_inj.mp heq.symm), compare_number heq.le, heq, sub_self,
      Int.toNat_zero, pow_zero, mul_one]
    exact iff_of_true rfl ⟨fun h ↦ by have := h.2.1; omega, fun h ↦ by have := h.2.1; omega⟩
  · have hscale : a.scale < b.scale := lt_iff_toInt_lt.mpr hgt
    rw [and_iff_right fun h ↦ by have := h.2.1; omega, ← cmp_eq_iff_of_lt hgt (by omega),
      cmp_swap hscale (Int32.lt_asymm hscale) fun h ↦ hgt.ne (by rw [h])]
    cases b.cmp a with
    | none => simp
    | some order =>
      rw [map_some, Option.some.injEq, Option.some.injEq,
        show compare a.number b.number = (compare b.number a.number).swap from
          Std.OrientedCmp.eq_swap, Ordering.swap_inj]

/-- One and a half at the smallest scale compares equal to one. -/
theorem cmp_loses_half :
    cmp ⟨1, -2147483630⟩ ⟨1500000000000000000, -2147483648⟩ = some .eq ∧
      number ⟨1, -2147483630⟩ < number ⟨1500000000000000000, -2147483648⟩ := by
  refine ⟨by decide, compare_lt_iff_lt.mp ?_⟩
  rw [compare_number (by decide)]
  decide

end Int64Amount

end Kubernetes.Resource
