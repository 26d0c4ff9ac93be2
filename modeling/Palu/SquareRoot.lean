import Mathlib

namespace Palu

/-- The exact square root of a non-negative number, kept as its square. -/
structure Root where
  square : ℚ
  nonneg : 0 ≤ square

namespace Root

theorem ext_square {r s : Root} (h : r.square = s.square) : r = s := by
  cases r
  cases s
  simpa using h

/-- Roots compare as their squares do. -/
instance : LinearOrder Root := LinearOrder.lift' Root.square fun _ _ => ext_square

theorem le_iff {r s : Root} : r ≤ s ↔ r.square ≤ s.square := Iff.rfl

/-- The root scaled by a non-negative factor. -/
def scale (r : Root) (k : ℚ) : Root := ⟨r.square * (k * k), mul_nonneg r.nonneg (mul_self_nonneg k)⟩

/-- The root divided by a positive number. -/
def div (r : Root) (d : ℚ) : Root := r.scale d⁻¹

/-- The nearest whole number, halves rounded up. -/
def round (r : Root) : ℕ := (Nat.sqrt ⌊4 * r.square⌋₊ + 1) / 2

noncomputable def toReal (r : Root) : ℝ := √(r.square : ℝ)

theorem toReal_nonneg (r : Root) : 0 ≤ r.toReal := Real.sqrt_nonneg _

/-- The order of roots is the order of the numbers they stand for. -/
theorem toReal_le {r s : Root} : r.toReal ≤ s.toReal ↔ r ≤ s := by
  have hs : (0 : ℝ) ≤ s.square := by exact_mod_cast s.nonneg
  rw [toReal, toReal, Real.sqrt_le_sqrt_iff hs, le_iff]
  exact_mod_cast Iff.rfl

theorem toReal_scale (r : Root) {k : ℚ} (hk : 0 ≤ k) : (r.scale k).toReal = r.toReal * k := by
  have hr : (0 : ℝ) ≤ r.square := by exact_mod_cast r.nonneg
  have hk : (0 : ℝ) ≤ k := by exact_mod_cast hk
  simp only [toReal, scale]
  push_cast
  rw [Real.sqrt_mul hr, Real.sqrt_mul_self hk]

theorem toReal_div (r : Root) {d : ℚ} (hd : 0 < d) : (r.div d).toReal = r.toReal / d := by
  rw [div, toReal_scale r (inv_nonneg.mpr hd.le)]
  push_cast
  rw [div_eq_mul_inv]

/-- A root is at most a non-negative number when its square is. -/
theorem toReal_le_iff (r : Root) {x : ℚ} (hx : 0 ≤ x) :
    r.toReal ≤ x ↔ r.square ≤ x * x := by
  have hx' : (0 : ℝ) ≤ x := by exact_mod_cast hx
  rw [toReal, Real.sqrt_le_left hx', ← sq]
  exact_mod_cast Iff.rfl

/-- Twice a root lies between the integer root of four times its square and the next. -/
theorem sqrt_bounds (r : Root) :
    (Nat.sqrt ⌊4 * r.square⌋₊ : ℝ) ≤ 2 * r.toReal ∧
      2 * r.toReal < Nat.sqrt ⌊4 * r.square⌋₊ + 1 := by
  have hr : (0 : ℝ) ≤ r.square := by exact_mod_cast r.nonneg
  have hsq : (2 * r.toReal) ^ 2 = 4 * (r.square : ℝ) := by
    rw [mul_pow, toReal, Real.sq_sqrt hr]
    norm_num
  have h4 : 0 ≤ 4 * r.square := mul_nonneg (by norm_num) r.nonneg
  set m := Nat.sqrt ⌊4 * r.square⌋₊ with hm
  have hlow : ((m * m : ℕ) : ℚ) ≤ 4 * r.square :=
    (Nat.cast_le.mpr (Nat.sqrt_le _)).trans (Nat.floor_le h4)
  have hhigh : 4 * r.square < ((m + 1) * (m + 1) : ℕ) :=
    (Nat.floor_lt h4).mp (Nat.lt_succ_sqrt _)
  have hlow : ((m : ℝ)) ^ 2 ≤ (2 * r.toReal) ^ 2 := by
    rw [hsq, sq]
    exact_mod_cast hlow
  have hhigh : (2 * r.toReal) ^ 2 < ((m : ℝ) + 1) ^ 2 := by
    rw [hsq, sq]
    exact_mod_cast hhigh
  have hroot : 0 ≤ 2 * r.toReal := mul_nonneg zero_le_two r.toReal_nonneg
  exact ⟨(sq_le_sq₀ (Nat.cast_nonneg m) hroot).mp hlow,
    (sq_lt_sq₀ hroot (by positivity)).mp hhigh⟩

end Root

/-- `Root.round` rounds the number the root stands for. -/
theorem round_toReal (r : Root) : round r.toReal = r.round := by
  obtain ⟨hlow, hhigh⟩ := r.sqrt_bounds
  have hfloor : ⌊2 * r.toReal⌋ = (Nat.sqrt ⌊4 * r.square⌋₊ : ℤ) :=
    Int.floor_eq_iff.mpr ⟨by exact_mod_cast hlow, by exact_mod_cast hhigh⟩
  rw [round_eq_div, hfloor, Root.round]
  push_cast
  rfl

end Palu
