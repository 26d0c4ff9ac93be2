import Palu.Model.Domain
import Palu.SquareRoot

namespace Palu

/-- Metres in one light-year. -/
def LY_IN_METERS : ℚ := 9460700000000000

/-- Default Jump Drive Calibration level: maxed. -/
def DEFAULT_JDC_LEVEL : ℕ := 5

/-- A hull's effective jump range in light-years. -/
def effectiveLy (baseLy bonusPerLevel : ℚ) (jdcLevel : ℕ) : ℚ :=
  baseLy * (1 + bonusPerLevel * jdcLevel)

/-- A light-year range as a squared-metre radius. -/
def radiusM2 (ly : ℚ) : ℚ :=
  let m := ly * LY_IN_METERS
  m * m

/-- The squared distance of two points, in square metres. -/
def squaredEuclidean (a b : Coords) : ℚ :=
  let dx := a.1 - b.1
  let dy := a.2.1 - b.2.1
  let dz := a.2.2 - b.2.2
  dx * dx + dy * dy + dz * dz

theorem squaredEuclidean_nonneg (a b : Coords) : 0 ≤ squaredEuclidean a b :=
  add_nonneg (add_nonneg (mul_self_nonneg _) (mul_self_nonneg _)) (mul_self_nonneg _)

theorem squaredEuclidean_comm (a b : Coords) : squaredEuclidean a b = squaredEuclidean b a := by
  unfold squaredEuclidean
  ring

/-- Distance in light-years between two points. -/
def lyBetween (a b : Coords) : Root :=
  (Root.mk (squaredEuclidean a b) (squaredEuclidean_nonneg a b)).div LY_IN_METERS

theorem lyBetween_comm (a b : Coords) : lyBetween a b = lyBetween b a := by
  simp only [lyBetween, squaredEuclidean_comm]

/-- Round a light-year distance to two decimals. -/
def round2 (ly : Root) : ℚ := (ly.scale 100).round / 100

/-- A distance in light-years is the square root of the sum of squares, over the
metres in one. -/
theorem lyBetween_toReal (a b : Coords) :
    (lyBetween a b).toReal = √(squaredEuclidean a b : ℝ) / LY_IN_METERS :=
  Root.toReal_div _ (by norm_num [LY_IN_METERS])

/-- Inside the squared radius is within the range, read without its sign. -/
theorem squaredEuclidean_le_radiusM2 (a b : Coords) (ly : ℚ) :
    squaredEuclidean a b ≤ radiusM2 ly ↔ (lyBetween a b).toReal ≤ |ly| := by
  have hly : (0 : ℚ) < LY_IN_METERS * LY_IN_METERS := by norm_num [LY_IN_METERS]
  rw [Root.toReal_le_iff _ (abs_nonneg ly), abs_mul_abs_self]
  change _ ↔ squaredEuclidean a b * (LY_IN_METERS⁻¹ * LY_IN_METERS⁻¹) ≤ ly * ly
  rw [← mul_inv, ← div_eq_mul_inv, div_le_iff₀ hly, mul_mul_mul_comm]
  rfl

/-- `round2` is the nearest hundredth of a light-year. -/
theorem round2_eq (ly : Root) : (round2 ly : ℝ) = round (ly.toReal * 100) / 100 := by
  have h := Root.toReal_scale ly (show (0 : ℚ) ≤ 100 by norm_num)
  have hr := round_toReal (ly.scale 100)
  rw [h] at hr
  push_cast at hr
  rw [hr, round2]
  push_cast
  rfl

end Palu
