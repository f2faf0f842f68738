import Mathlib.Algebra.Order.Round
import Mathlib.Data.Int.Log
import Mathlib.Data.Rat.Floor
import Mathlib.Tactic.Linarith
import Mathlib.Tactic.Ring

/-!
# Rounding to a grid and to binary64

Numbers are exact rationals. A grid is the set of multiples of a unit, a binary64 number a multiple
of a power of two with 53 bits; the largest exponent plays no role here.

* `roundEven` rounds to an integer, ties to even, and `toGrid u` to a multiple of `u`.
  `toGrid_nearest`: no multiple of `u` is nearer.
* `IsDouble` and `toDouble`: the numbers of binary64 and the one nearest to a rational
  (`toDouble_nearest`).
* `IsDouble.gap`: how far a binary64 number is from all others.
* `toDouble_toGrid`: a number that is not small against the unit survives the way over the grid, and
  `toDouble_toGrid_toDouble`: whatever came over the grid once does.
-/

namespace Rounding

/-! ## Integers and grids -/

/-- The integer nearest to `x`, the even one of two. -/
def roundEven (x : ℚ) : ℤ :=
  if Int.fract x < 1 / 2 then ⌊x⌋
  else if 1 / 2 < Int.fract x then ⌊x⌋ + 1
  else if ⌊x⌋ % 2 = 0 then ⌊x⌋ else ⌊x⌋ + 1

theorem abs_sub_roundEven (x : ℚ) : |x - roundEven x| = min (Int.fract x) (1 - Int.fract x) := by
  have h0 := Int.fract_nonneg x
  have h1 := Int.fract_lt_one x
  have hdown : |x - (⌊x⌋ : ℤ)| = Int.fract x := by
    rw [Int.self_sub_floor, abs_of_nonneg h0]
  have hup : |x - ((⌊x⌋ + 1 : ℤ) : ℚ)| = 1 - Int.fract x := by
    rw [Int.cast_add, Int.cast_one, ← sub_sub, Int.self_sub_floor, abs_of_nonpos (by linarith)]
    ring
  unfold roundEven
  split_ifs with hlt hgt heven
  · rw [hdown, min_eq_left (by linarith)]
  · rw [hup, min_eq_right (by linarith)]
  · rw [hdown, min_eq_left (by linarith)]
  · rw [hup, min_eq_right (by linarith)]

/-- No integer is nearer. -/
theorem roundEven_nearest (x : ℚ) (z : ℤ) : |x - roundEven x| ≤ |x - z| := by
  rw [abs_sub_roundEven, ← abs_sub_round_eq_min]
  exact round_le x z

theorem abs_sub_roundEven_le (x : ℚ) : |x - roundEven x| ≤ 1 / 2 := by
  rw [abs_sub_roundEven, ← abs_sub_round_eq_min]
  exact abs_sub_round x

theorem roundEven_intCast (k : ℤ) : roundEven k = k := by simp [roundEven]

/-- Rounding is symmetric. -/
theorem roundEven_neg (x : ℚ) : roundEven (-x) = -roundEven x := by
  by_cases hx : Int.fract x = 0
  · obtain ⟨k, rfl⟩ : ∃ k : ℤ, x = k := ⟨⌊x⌋, by linarith [Int.self_sub_floor x]⟩
    rw [← Int.cast_neg, roundEven_intCast, roundEven_intCast]
  · have hfract : Int.fract (-x) = 1 - Int.fract x := Int.fract_neg hx
    have hfloor : ⌊-x⌋ = -⌊x⌋ - 1 := by
      have h1 := Int.self_sub_floor (-x)
      have h2 := Int.self_sub_floor x
      have hcast : ((⌊-x⌋ : ℤ) : ℚ) = ((-⌊x⌋ - 1 : ℤ) : ℚ) := by
        push_cast
        linarith
      exact_mod_cast hcast
    unfold roundEven
    rw [hfract, hfloor]
    split_ifs <;> first | omega | (exfalso; linarith)

theorem roundEven_nonneg {x : ℚ} (hx : 0 ≤ x) : 0 ≤ roundEven x := by
  have hfloor : 0 ≤ ⌊x⌋ := Int.floor_nonneg.mpr hx
  unfold roundEven
  split_ifs <;> omega

/-- The multiples of `u`. -/
def Grid (u x : ℚ) : Prop := ∃ k : ℤ, x = k * u

/-- The multiple of `u` nearest to `x`. -/
def toGrid (u x : ℚ) : ℚ := roundEven (x / u) * u

theorem grid_toGrid (u x : ℚ) : Grid u (toGrid u x) := ⟨roundEven (x / u), rfl⟩

theorem toGrid_neg (u x : ℚ) : toGrid u (-x) = -toGrid u x := by
  rw [toGrid, neg_div, roundEven_neg, Int.cast_neg, neg_mul, toGrid]

variable {u : ℚ}

theorem toGrid_nonneg (hu : 0 < u) {x : ℚ} (hx : 0 ≤ x) : 0 ≤ toGrid u x := by
  have hround : (0 : ℚ) ≤ roundEven (x / u) := by
    exact_mod_cast roundEven_nonneg (div_nonneg hx hu.le)
  exact mul_nonneg hround hu.le

/-- A multiple of a larger unit. -/
theorem Grid.mono {x : ℚ} (h : Grid u x) {v : ℚ} {n : ℤ} (hn : u = n * v) : Grid v x := by
  obtain ⟨k, rfl⟩ := h
  exact ⟨k * n, by rw [hn]; push_cast; ring⟩

theorem Grid.neg {x : ℚ} (hx : Grid u x) : Grid u (-x) := by
  obtain ⟨k, rfl⟩ := hx
  exact ⟨-k, by push_cast; ring⟩

/-- Two multiples of `u` are the same or `u` apart. -/
theorem Grid.gap (hu : 0 < u) {x y : ℚ} (hx : Grid u x) (hy : Grid u y) (hne : x ≠ y) :
    u ≤ |x - y| := by
  obtain ⟨k, rfl⟩ := hx
  obtain ⟨l, rfl⟩ := hy
  have hkl : k - l ≠ 0 := by
    intro h
    exact hne (by rw [sub_eq_zero.mp h])
  have hone : (1 : ℚ) ≤ |((k - l : ℤ) : ℚ)| := by
    rw [← Int.cast_abs]
    exact_mod_cast Int.one_le_abs hkl
  calc u = 1 * u := (one_mul u).symm
    _ ≤ |((k - l : ℤ) : ℚ)| * u := mul_le_mul_of_nonneg_right hone hu.le
    _ = |(k : ℚ) * u - l * u| := by
        rw [← sub_mul, abs_mul, abs_of_pos hu]
        push_cast
        rfl

/-- How far from `x` a multiple of `u` is. -/
theorem abs_mul_sub (hu : 0 < u) (x : ℚ) (k : ℤ) : |(k : ℚ) * u - x| = |x / u - k| * u := by
  have hx : x = x / u * u := (div_mul_cancel₀ x hu.ne').symm
  conv_lhs => rw [hx, ← sub_mul, abs_mul, abs_of_pos hu, abs_sub_comm]

/-- **No multiple of `u` is nearer.** -/
theorem toGrid_nearest (hu : 0 < u) (x : ℚ) {y : ℚ} (hy : Grid u y) : |toGrid u x - x| ≤ |y - x| := by
  obtain ⟨k, rfl⟩ := hy
  rw [toGrid, abs_mul_sub hu, abs_mul_sub hu]
  exact mul_le_mul_of_nonneg_right (roundEven_nearest _ k) hu.le

theorem abs_toGrid_sub_le (hu : 0 < u) (x : ℚ) : |toGrid u x - x| ≤ u / 2 := by
  rw [toGrid, abs_mul_sub hu]
  calc _ ≤ 1 / 2 * u := mul_le_mul_of_nonneg_right (abs_sub_roundEven_le _) hu.le
    _ = u / 2 := by ring

theorem toGrid_of_grid (hu : 0 < u) {x : ℚ} (hx : Grid u x) : toGrid u x = x := by
  have h := toGrid_nearest hu x hx
  rw [sub_self, abs_zero] at h
  exact sub_eq_zero.mp (abs_nonpos_iff.mp h)

/-- A multiple of `u` less than half a unit away is the nearest. -/
theorem toGrid_eq (hu : 0 < u) {x y : ℚ} (hy : Grid u y) (h : |y - x| < u / 2) : toGrid u x = y := by
  by_contra hne
  have hgap := Grid.gap hu (grid_toGrid u x) hy hne
  have htri := abs_sub_le (toGrid u x) x y
  have hnear := abs_toGrid_sub_le hu x
  rw [abs_sub_comm x y] at htri
  linarith

/-! ## Binary64 -/

/-- The numbers of binary64. -/
def IsDouble (x : ℚ) : Prop := ∃ m e : ℤ, |m| < 2 ^ 53 ∧ -1074 ≤ e ∧ x = m * 2 ^ e

/-- The exponent of the last bit of a binary64 number as large as `q`. -/
def exponent (q : ℚ) : ℤ := max (Int.log 2 |q| - 52) (-1074)

/-- The unit of the last bit. -/
def ulp (q : ℚ) : ℚ := 2 ^ exponent q

/-- The binary64 number nearest to `q`. -/
def toDouble (q : ℚ) : ℚ := toGrid (ulp q) q

theorem two_zpow_pos (a : ℤ) : (0 : ℚ) < 2 ^ a := zpow_pos (by norm_num) a

theorem ulp_pos (q : ℚ) : 0 < ulp q := two_zpow_pos _

theorem two_zpow_add (a b : ℤ) : (2 : ℚ) ^ (a + b) = 2 ^ a * 2 ^ b := zpow_add₀ (by norm_num) a b

theorem two_zpow_le {a b : ℤ} (h : a ≤ b) : (2 : ℚ) ^ a ≤ 2 ^ b :=
  zpow_le_zpow_right₀ (by norm_num) h

theorem two_zpow_lt {a b : ℤ} (h : (2 : ℚ) ^ a < 2 ^ b) : a < b :=
  (zpow_lt_zpow_iff_right₀ (by norm_num)).mp h

/-- A power of two is a multiple of a smaller one. -/
theorem grid_two_zpow {a b : ℤ} (h : a ≤ b) {x : ℚ} (hx : Grid (2 ^ b) x) : Grid (2 ^ a) x := by
  apply hx.mono (n := 2 ^ (b - a).toNat)
  have hb : b = ((b - a).toNat : ℤ) + a := by omega
  conv_lhs => rw [hb, two_zpow_add, zpow_natCast]
  push_cast
  rfl

theorem grid_two_zpow_self {a b : ℤ} (h : a ≤ b) : Grid (2 ^ a) (2 ^ b) :=
  grid_two_zpow h (x := 2 ^ b) ⟨1, by simp⟩

/-- A binary64 number of at least `2 ^ t` is a multiple of `2 ^ (t - 52)`. -/
theorem IsDouble.grid {x : ℚ} (hx : IsDouble x) {t : ℤ} (ht : 2 ^ t ≤ |x|) : Grid (2 ^ (t - 52)) x := by
  obtain ⟨m, e, hm, -, rfl⟩ := hx
  have hpos := two_zpow_pos e
  have habs : |(m : ℚ) * 2 ^ e| < 2 ^ (53 + e) := by
    rw [abs_mul, abs_of_pos hpos, two_zpow_add, ← Int.cast_abs]
    apply mul_lt_mul_of_pos_right _ hpos
    exact_mod_cast hm
  have hlt := two_zpow_lt (lt_of_le_of_lt ht habs)
  exact grid_two_zpow (by omega) ⟨m, rfl⟩

/-- **How far a binary64 number is from all others.** -/
theorem IsDouble.gap {x y : ℚ} (hx : IsDouble x) (hy : IsDouble y) (hne : x ≠ y) {t : ℤ}
    (ht : 2 ^ t < |x|) : 2 ^ (t - 52) ≤ |x - y| := by
  have hpos := two_zpow_pos (t - 52)
  have hgx := hx.grid ht.le
  by_cases hty : 2 ^ t ≤ |y|
  · exact hgx.gap hpos (hy.grid hty) hne
  · -- The power of two between them is a multiple too.
    have hgt : Grid (2 ^ (t - 52)) (2 ^ t) := grid_two_zpow_self (by omega)
    have hgabs : Grid (2 ^ (t - 52)) |x| := by
      obtain ⟨k, hk⟩ := hgx
      exact ⟨|k|, by rw [hk, abs_mul, abs_of_pos hpos, Int.cast_abs]⟩
    have hstep := hgabs.gap hpos hgt ht.ne'
    rw [abs_of_pos (by linarith)] at hstep
    have htri := abs_sub_abs_le_abs_sub x y
    linarith

theorem two_zpow_log_le {q : ℚ} (hq : q ≠ 0) : 2 ^ Int.log 2 |q| ≤ |q| := by
  exact_mod_cast Int.zpow_log_le_self (b := 2) (by norm_num) (abs_pos.mpr hq)

theorem abs_lt_two_zpow (q : ℚ) : |q| < 2 ^ (exponent q + 53) := by
  have hlog : |q| < 2 ^ (Int.log 2 |q| + 1) := by
    exact_mod_cast Int.lt_zpow_succ_log_self (b := 2) (by norm_num) |q|
  apply lt_of_lt_of_le hlog
  apply two_zpow_le
  unfold exponent
  omega

/-- **The result is a binary64 number.** -/
theorem isDouble_toDouble (q : ℚ) : IsDouble (toDouble q) := by
  have hexp : -1074 ≤ exponent q := le_max_right _ _
  have hpos := ulp_pos q
  have hlt : |q / ulp q| < 2 ^ 53 := by
    rw [abs_div, abs_of_pos hpos, div_lt_iff₀ hpos]
    have h := abs_lt_two_zpow q
    rw [add_comm, two_zpow_add] at h
    exact h
  have hround := abs_sub_roundEven_le (q / ulp q)
  have hle : |roundEven (q / ulp q)| ≤ 2 ^ 53 := by
    have htri := abs_sub_abs_le_abs_sub ((roundEven (q / ulp q) : ℤ) : ℚ) (q / ulp q)
    rw [abs_sub_comm] at htri
    have hcast : ((|roundEven (q / ulp q)| : ℤ) : ℚ) < ((2 ^ 53 + 1 : ℤ) : ℚ) := by
      push_cast
      linarith
    have hint : |roundEven (q / ulp q)| < 2 ^ 53 + 1 := by exact_mod_cast hcast
    omega
  rcases lt_or_eq_of_le hle with hlt | heq
  · exact ⟨_, _, hlt, hexp, rfl⟩
  · -- The last number below a power of two rounds up to it.
    rcases abs_eq (by norm_num : (0 : ℤ) ≤ 2 ^ 53) |>.mp heq with h | h
    · refine ⟨2 ^ 52, exponent q + 1, by norm_num, by omega, ?_⟩
      rw [toDouble, toGrid, h, ulp, two_zpow_add]
      push_cast
      ring
    · refine ⟨-2 ^ 52, exponent q + 1, by norm_num, by omega, ?_⟩
      rw [toDouble, toGrid, h, ulp, two_zpow_add]
      push_cast
      ring

/-- **No binary64 number is nearer.** -/
theorem toDouble_nearest (q : ℚ) {y : ℚ} (hy : IsDouble y) : |toDouble q - q| ≤ |y - q| := by
  by_cases hq : q = 0
  · subst hq
    have hzero : toDouble 0 = 0 := toGrid_of_grid (ulp_pos 0) ⟨0, by simp⟩
    rw [hzero, sub_self, abs_zero]
    exact abs_nonneg _
  obtain ⟨m, s, hm, hs, rfl⟩ := hy
  by_cases hse : exponent q ≤ s
  · exact toGrid_nearest (ulp_pos q) q (grid_two_zpow hse ⟨m, rfl⟩)
  · -- The smallest number with the exponent of `q` is between `q` and the other one.
    have hexp : exponent q = Int.log 2 |q| - 52 := by
      unfold exponent at hse ⊢
      omega
    have hlow : 2 ^ (exponent q + 52) ≤ |q| := by
      have h := two_zpow_log_le hq
      rw [hexp, sub_add_cancel]
      exact h
    have hpos := two_zpow_pos s
    have hsmall : |(m : ℚ) * 2 ^ s| ≤ 2 ^ (exponent q + 52) := by
      have habs : |(m : ℚ) * 2 ^ s| ≤ 2 ^ (53 + s) := by
        rw [abs_mul, abs_of_pos hpos, two_zpow_add, ← Int.cast_abs]
        apply mul_le_mul_of_nonneg_right _ hpos.le
        exact_mod_cast hm.le
      exact habs.trans (two_zpow_le (by omega))
    have hgrid : Grid (ulp q) (2 ^ (exponent q + 52)) := grid_two_zpow_self (by omega)
    have htri := abs_sub_abs_le_abs_sub q (m * 2 ^ s)
    rw [abs_sub_comm] at htri
    rcases le_or_gt 0 q with hsign | hsign
    · have hnear := toGrid_nearest (ulp_pos q) q hgrid
      rw [abs_of_nonneg hsign] at hlow htri
      have hdist : |2 ^ (exponent q + 52) - q| = q - 2 ^ (exponent q + 52) := by
        rw [abs_sub_comm, abs_of_nonneg (by linarith)]
      rw [hdist] at hnear
      exact hnear.trans (by linarith)
    · have hnear := toGrid_nearest (ulp_pos q) q hgrid.neg
      rw [abs_of_neg hsign] at hlow htri
      have hdist : |-2 ^ (exponent q + 52) - q| = -q - 2 ^ (exponent q + 52) := by
        rw [abs_of_nonneg (by linarith)]
        ring
      rw [hdist] at hnear
      exact hnear.trans (by linarith)

theorem toDouble_of_isDouble {x : ℚ} (hx : IsDouble x) : toDouble x = x := by
  have h := toDouble_nearest x hx
  rw [sub_self, abs_zero] at h
  exact sub_eq_zero.mp (abs_nonpos_iff.mp h)

/-! ## Over a grid and back -/

theorem isDouble_two_zpow {t : ℤ} (ht : -1074 ≤ t) : IsDouble (2 ^ t) :=
  ⟨1, t, by norm_num, ht, by simp⟩

theorem IsDouble.neg {x : ℚ} (hx : IsDouble x) : IsDouble (-x) := by
  obtain ⟨m, e, hm, he, rfl⟩ := hx
  exact ⟨-m, e, by rwa [abs_neg], he, by push_cast; ring⟩

/-- A number comes back over the grid as one not further away than a unit. -/
theorem abs_toDouble_toGrid_sub_le (hu : 0 < u) {x : ℚ} (hx : IsDouble x) :
    |toDouble (toGrid u x) - x| ≤ u := by
  have hnear := toDouble_nearest (toGrid u x) hx
  have hgrid := abs_toGrid_sub_le hu x
  have htri := abs_sub_le (toDouble (toGrid u x)) (toGrid u x) x
  rw [abs_sub_comm x] at hnear
  linarith

/-- **A number that is not small against the unit comes back.** -/
theorem toDouble_toGrid (hu : 0 < u) {t : ℤ} (hut : u < 2 ^ (t - 52)) (hgt : Grid u (2 ^ t)) {x : ℚ}
    (hx : IsDouble x) (ht : 2 ^ t ≤ |x|) : toDouble (toGrid u x) = x := by
  rcases lt_or_eq_of_le ht with hlt | heq
  · by_contra hne
    have hgap := hx.gap (isDouble_toDouble (toGrid u x)) (Ne.symm hne) hlt
    have hle := abs_toDouble_toGrid_sub_le hu hx
    rw [abs_sub_comm] at hle
    linarith
  · have hgrid : Grid u x := by
      rcases abs_choice x with h | h
      · rw [← h, ← heq]
        exact hgt
      · rw [← neg_neg x, ← h, ← heq]
        exact hgt.neg
    rw [toGrid_of_grid hu hgrid, toDouble_of_isDouble hx]

/-- What is nearest to a large number is large. -/
theorem le_abs_toDouble {t : ℤ} (ht : -1074 ≤ t) {q : ℚ} (hq : 2 ^ t ≤ |q|) : 2 ^ t ≤ |toDouble q| := by
  by_contra hlt
  rw [not_le] at hlt
  have htri := abs_sub_abs_le_abs_sub q (toDouble q)
  rw [abs_sub_comm] at htri
  rcases le_or_gt 0 q with hsign | hsign
  · have hnear := toDouble_nearest q (isDouble_two_zpow ht)
    rw [abs_of_nonneg hsign] at hq htri
    have hdist : |2 ^ t - q| = q - 2 ^ t := by
      rw [abs_sub_comm, abs_of_nonneg (by linarith)]
    rw [hdist] at hnear
    linarith
  · have hnear := toDouble_nearest q (isDouble_two_zpow ht).neg
    rw [abs_of_neg hsign] at hq htri
    have hdist : |-2 ^ t - q| = -q - 2 ^ t := by
      rw [abs_of_nonneg (by linarith)]
      ring
    rw [hdist] at hnear
    linarith

/-- **What came over the grid once comes back.** The unit is between the gaps on both sides of
`2 ^ t`. -/
theorem toDouble_toGrid_toDouble (hu : 0 < u) {t : ℤ} (ht : -1022 < t) (hut : u < 2 ^ (t - 52))
    (hut' : 2 ^ (t - 53) < u) (hgt : Grid u (2 ^ t)) {d : ℚ} (hd : Grid u d) :
    toDouble (toGrid u (toDouble d)) = toDouble d := by
  by_cases hnear : |d - toDouble d| < u / 2
  · rw [toGrid_eq hu hd hnear]
  · -- The binary64 numbers are further apart than the decimals there.
    rw [not_lt, abs_sub_comm] at hnear
    have hhalf : |toDouble d - d| ≤ ulp d / 2 := abs_toGrid_sub_le (ulp_pos d) d
    have hexp : t - 53 < exponent d := two_zpow_lt (hut'.trans_le (show u ≤ ulp d by linarith))
    have hlog : t ≤ Int.log 2 |d| := by
      unfold exponent at hexp
      omega
    have hne : d ≠ 0 := by
      rintro rfl
      have hzero : toDouble 0 = 0 := toGrid_of_grid (ulp_pos 0) ⟨0, by simp⟩
      rw [hzero, sub_self, abs_zero] at hnear
      linarith
    have hlarge : 2 ^ t ≤ |d| := (two_zpow_le hlog).trans (two_zpow_log_le hne)
    exact toDouble_toGrid hu hut hgt (isDouble_toDouble d) (le_abs_toDouble (by omega) hlarge)

end Rounding
