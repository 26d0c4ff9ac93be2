import Palu.Model.Reachable
import Palu.Proofs.Staging

namespace Palu

open Paths Collections

variable {g : GraphData} {within : WithinUnsorted g} {ctx : RouteContext g}
  {src dst a b : g.NodeIndex} {C : Set g.NodeIndex} {ly : ℚ}

theorem lyToB_comm (a b : g.NodeIndex) : lyToB a b = lyToB b a := lyBetween_comm _ _

/-- What a jump fan-out lists: the other K-space systems in range, without highsec. -/
theorem mem_reachableHits (h : WithinExact within) : b ∈ reachableHits within a ly ↔
    b ≠ a ∧ (g.systems.get b).isWormhole = false ∧ (g.systems.get b).secClass ≠ .highsec ∧
      (lyToB a b).toReal ≤ |ly| := by
  simp only [reachableHits, List.mem_filter, mem_within h, decide_eq_true_eq]
  constructor
  · intro ⟨⟨⟨hw, hle⟩, hne⟩, hsec⟩
    exact ⟨hne, hw, hsec, hle⟩
  · intro ⟨hne, hw, hsec, hle⟩
    exact ⟨⟨⟨hw, hle⟩, hne⟩, hsec⟩

theorem best_self (ctx : RouteContext g) (v : g.NodeIndex) : best ctx.network v v = some [v] :=
  best_eq_some.mpr .start

/-- A route without a jump stays at its source. -/
theorem CheapestRoute.eq_of_length_le {p : Path g} (h : CheapestRoute ctx src dst p)
    (hp : p.length - 1 = 0) : dst = src := by
  obtain ⟨t, rfl⟩ := List.head?_eq_some_iff.mp h.admits.head
  have ht : t = [] := List.length_eq_zero_iff.mp (by simpa using hp)
  subst ht
  simpa using h.admits.last.symm

namespace StagingChoice
variable {R : Set g.NodeIndex} {star : g.NodeIndex} {path : Path g} {alts : List g.NodeIndex}
  {response : BlopsRouteResponse}

theorem eq_src (h : StagingChoice ctx src dst R star path alts response)
    (hj : response.chosen.gateJumps = 0) : star = src := by
  have hroute := cheapestRoute_of_canonical h.answer.canonical
  exact hroute.eq_of_length_le (h.gateJumps.symm.trans hj)

/-- Nothing ranks before the source, which is no jump away. -/
theorem gateJumps_eq_zero (h : StagingChoice ctx src dst R star path alts response)
    (hsrc : src ∈ R) : response.chosen.gateJumps = 0 := by
  have hle := h.star_least src hsrc
  unfold stagingRank at hle
  rw [best_self, ← h.answer.eq_best, Prod.Lex.toLex_le_toLex] at hle
  rw [h.gateJumps]
  simpa using hle.elim Nat.le_of_lt fun he => he.1.le

end StagingChoice

end Palu
