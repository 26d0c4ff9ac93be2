import Palu.Floats
import Palu.Proofs.Sums

namespace Palu

open Floats Paths

/-- The `f32` of a whole number below its overflow. -/
def roundF32 (x : ℕ) : ℕ := roundNearestEven 24 x

theorem roundF32_eq : ∀ x < 2 ^ 24, roundF32 x = x :=
  fun _ hx => (representable_of_lt hx).round

variable {g : GraphData}

theorem fewestHops_lt {ctx : RouteContext g} {src : g.NodeIndex} {D : ℕ}
    (hD : IsGreatest (ctx.fewestHops src) D) : D < g.systems.length := by
  rw [ctx.fewestHops_eq] at hD
  obtain ⟨v, p, hp, hlen⟩ := hD.1
  have hcard : p.length ≤ g.systems.length := by simpa using hp.length_le
  omega

/-- The searches, with every sum an `f32` addition, answer as they do in whole
numbers, where one hop more than any node takes costs less than `2 ^ 24`. -/
theorem f32_searches_exact (ctx : RouteContext g) (src : g.NodeIndex) :
    ∃ D, IsGreatest (ctx.fewestHops src) D ∧ D < g.systems.length ∧
      ((D + 1) * ctx.preference.maxWeight < 2 ^ 24 → ∀ dst targets scratch,
        shortestPath.rounded roundF32 ctx src dst scratch = shortestPath ctx src dst scratch ∧
        shortestPathMulti.rounded roundF32 ctx src targets scratch =
          shortestPathMulti ctx src targets scratch) := by
  obtain ⟨D, hD⟩ := exists_greatest_hops ctx.network src
  rw [← ctx.fewestHops_eq] at hD
  refine ⟨D, hD, fewestHops_lt hD, fun hlt dst targets scratch => ?_⟩
  exact ⟨rounded_eq roundF32_eq hD hlt scratch dst, multi_rounded_eq roundF32_eq hD hlt scratch targets⟩

end Palu
