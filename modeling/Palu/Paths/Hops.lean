import Palu.Paths.Distance

namespace Palu.Paths

variable {V : Type*} {N : Network V} {a v : V} {p : List V} {k W : ℕ}

theorem Walk.length_pos (h : Walk N a v p) : 0 < p.length := by
  cases h <;> simp

/-- A walk of the fewest hops between its ends. -/
structure Fewest (N : Network V) (a v : V) (p : List V) : Prop where
  walk : Walk N a v p
  least : ∀ q, Walk N a v q → p.length ≤ q.length

theorem exists_fewest (h : Walk N a v p) : ∃ q, Fewest N a v q := by
  obtain ⟨q, hq, hmin⟩ := exists_minimalFor_of_wellFoundedLT (fun q => Walk N a v q)
    List.length ⟨p, h⟩
  refine ⟨q, hq, fun r hr => ?_⟩
  rcases le_total q.length r.length with hle | hle
  · exact hle
  · exact hmin hr hle

theorem Fewest.length_le [Fintype V] (h : Fewest N a v p) : p.length ≤ Fintype.card V := by
  obtain ⟨q, hq, hn, _⟩ := h.walk.exists_simple
  exact (h.least q hq).trans hn.length_le_card

theorem Walk.cost_le_mul (h : Walk N a v p) (hW : ∀ {u v}, N.edge u v → N.weight u v ≤ W) :
    cost N p ≤ (p.length - 1) * W := by
  rw [← length_steps, ← List.length_map fun e : V × V => N.weight e.1 e.2, ← smul_eq_mul]
  apply List.sum_le_card_nsmul
  intro w hw
  obtain ⟨e, he, rfl⟩ := List.mem_map.mp hw
  exact hW (h.steps_edge e he)

/-- The numbers of hops that it takes to reach a node. -/
def hops (N : Network V) (a : V) : Set ℕ := {k | ∃ v p, Fewest N a v p ∧ p.length = k + 1}

/-- Of finitely many nodes, some node takes the most hops. -/
theorem exists_greatest_hops [Finite V] (N : Network V) (a : V) :
    ∃ D, IsGreatest (hops N a) D := by
  have : Fintype V := Fintype.ofFinite V
  have hne : (hops N a).Nonempty := ⟨0, a, [a], ⟨.start, fun q hq => hq.length_pos⟩, rfl⟩
  have hbdd : BddAbove (hops N a) := by
    refine ⟨Fintype.card V, ?_⟩
    intro k hk
    obtain ⟨v, p, hp, hlen⟩ := hk
    have hcard := hp.length_le
    omega
  exact ⟨sSup (hops N a), Nat.sSup_mem hne hbdd, fun _ hk => le_csSup hbdd hk⟩

/-- No node is farther than its hops, all at the highest weight. -/
theorem dist_le_hops {D : ℕ} (hD : IsGreatest (hops N a) D)
    (hW : ∀ {u v}, N.edge u v → N.weight u v ≤ W) (hd : dist N a v ≠ ⊤) :
    dist N a v ≤ (D * W : ℕ) := by
  obtain ⟨p, hp, _⟩ := exists_walk hd
  obtain ⟨q, hq⟩ := exists_fewest hp
  have hlen : q.length - 1 ≤ D := by
    apply hD.2
    exact ⟨v, q, hq, by have := hq.walk.length_pos; omega⟩
  calc dist N a v ≤ cost N q := dist_le_cost hq.walk
    _ ≤ (D * W : ℕ) := by
      exact_mod_cast (hq.walk.cost_le_mul hW).trans (Nat.mul_le_mul_right W hlen)

end Palu.Paths
