import Mathlib

namespace Palu.Floats

/-- The whole numbers of at most `p` significant binary digits. -/
def Representable (p x : ℕ) : Prop := ∃ m e, m < 2 ^ p ∧ x = m * 2 ^ e

theorem representable_of_lt {p x : ℕ} (h : x < 2 ^ p) : Representable p x :=
  ⟨x, 0, h, by rw [pow_zero, mul_one]⟩

/-- The multiple of the last place nearest to `x`, the even one of two as near. -/
def roundNearestEven (p x : ℕ) : ℕ :=
  let ulp := 2 ^ (x.size - p)
  let down := x / ulp
  let rest := x % ulp
  if 2 * rest < ulp ∨ 2 * rest = ulp ∧ down % 2 = 0 then down * ulp else (down + 1) * ulp

/-- What fits is kept. -/
theorem Representable.round {p x : ℕ} (h : Representable p x) : roundNearestEven p x = x := by
  obtain ⟨m, e, hm, rfl⟩ := h
  have hsize : (m * 2 ^ e).size ≤ p + e := by
    rw [Nat.size_le, pow_add]
    exact Nat.mul_lt_mul_of_pos_right hm (Nat.two_pow_pos e)
  have hulp : 2 ^ ((m * 2 ^ e).size - p) ∣ m * 2 ^ e :=
    (pow_dvd_pow 2 (by omega)).trans (Dvd.intro_left m rfl)
  have hpos : 0 < 2 ^ ((m * 2 ^ e).size - p) := Nat.two_pow_pos _
  simp only [roundNearestEven, Nat.mod_eq_zero_of_dvd hulp, mul_zero, hpos, true_or, if_true]
  exact Nat.div_mul_cancel hulp

end Palu.Floats
