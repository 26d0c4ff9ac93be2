import Palu.Paths.Distance

namespace Palu.Paths

variable {V : Type*} {N M : Network V} {a b c u v : V} {p q : List V}

theorem Network.eq_of (hedge : ∀ u v, N.edge u v ↔ M.edge u v)
    (hweight : ∀ u v, N.weight u v = M.weight u v) : N = M := by
  obtain ⟨edge, weight, _⟩ := N
  obtain ⟨edge', weight', _⟩ := M
  obtain rfl : edge = edge' := funext fun u => funext fun v => propext (hedge u v)
  obtain rfl : weight = weight' := funext fun u => funext fun v => hweight u v
  rfl

section Extends

/-- Every edge of `N` is one of `M`, and no dearer there. -/
structure Extends (N M : Network V) : Prop where
  edge : ∀ {u v}, N.edge u v → M.edge u v
  weight : ∀ {u v}, N.edge u v → M.weight u v ≤ N.weight u v

theorem Extends.walk (h : Extends N M) (hp : Walk N a b p) : Walk M a b p := by
  induction hp with
  | start => exact .start
  | snoc _ step ih => exact .snoc ih (h.edge step)

theorem Extends.cost_le (h : Extends N M) (hp : Walk N a b p) : cost M p ≤ cost N p := by
  induction hp with
  | start => exact le_rfl
  | snoc walk step ih =>
    rw [cost_snoc walk, cost_snoc (h.walk walk)]
    exact Nat.add_le_add ih (h.weight step)

/-- Where the first network has a path, the second has one, no dearer. -/
theorem Extends.best [LinearOrder V] [WellFoundedLT V] (h : Extends N M)
    (hp : best N a b = some p) : ∃ q, best M a b = some q ∧ cost M q ≤ cost N p := by
  have hwalk := h.walk (best_eq_some.mp hp).walk
  obtain ⟨q, hq⟩ := exists_canonical (dist_ne_top hwalk)
  exact ⟨q, best_eq_some.mpr hq, (hq.cheapest hwalk).trans
    (h.cost_le (best_eq_some.mp hp).walk)⟩

end Extends

section Reversal

theorem Walk.cons (hab : N.edge a b) (h : Walk N b c p) : Walk N a c (a :: p) := by
  induction h with
  | start => exact .snoc .start hab
  | snoc walk step ih => exact .snoc ih step

theorem cost_cons (h : Walk N b c p) (a : V) : cost N (a :: p) = N.weight a b + cost N p := by
  obtain ⟨t, rfl⟩ := List.head?_eq_some_iff.mp h.head
  simp [cost]

/-- The nodes of `S` are the ones that may be entered. Edges between them go
both ways, and cost the same both ways once each end has paid its own fee. -/
structure Reversible (N : Network V) (S : Set V) (fee : V → ℕ) : Prop where
  enters : ∀ {u v}, N.edge u v → v ∈ S
  back : ∀ {u v}, N.edge u v → u ∈ S → N.edge v u
  weight : ∀ u v, N.weight u v + fee u = N.weight v u + fee v

section
variable {S : Set V} {fee : V → ℕ}

theorem Reversible.mem_of_walk (h : Reversible N S fee) (ha : a ∈ S) (hp : Walk N a v p) :
    v ∈ S := by
  cases hp with
  | start => exact ha
  | snoc _ step => exact h.enters step

theorem Reversible.walk (h : Reversible N S fee) (ha : a ∈ S) (hp : Walk N a b p) :
    Walk N b a p.reverse := by
  induction hp with
  | start => exact .start
  | snoc walk step ih =>
    rw [List.reverse_append]
    exact ih.cons (h.back step (h.mem_of_walk ha walk))

theorem Reversible.cost (h : Reversible N S fee) (ha : a ∈ S) (hp : Walk N a b p) :
    cost N p + fee a = cost N p.reverse + fee b := by
  induction hp with
  | start => simp
  | @snoc u v p walk step ih =>
    have hw := h.weight u v
    rw [cost_snoc walk, List.reverse_append, List.reverse_singleton, List.singleton_append,
      cost_cons (h.walk ha walk)]
    omega

/-- Cheapest walks there and back differ by what their ends have to pay. -/
theorem Reversible.canonical [LinearOrder V] (h : Reversible N S fee) (ha : a ∈ S)
    (hp : Canonical N a b p) (hq : Canonical N b a q) :
    Paths.cost N p + fee a = Paths.cost N q + fee b := by
  have hb := h.mem_of_walk ha hp.walk
  have hthere := hq.cheapest (h.walk ha hp.walk)
  have hback := hp.cheapest (h.walk hb hq.walk)
  have hcost := h.cost ha hp.walk
  have hcost' := h.cost hb hq.walk
  omega

theorem Reversible.best [LinearOrder V] [WellFoundedLT V] (h : Reversible N S fee) (ha : a ∈ S)
    (hp : best N a b = some p) :
    ∃ q, Paths.best N b a = some q ∧ Paths.cost N p + fee a = Paths.cost N q + fee b := by
  have hp := best_eq_some.mp hp
  obtain ⟨q, hq⟩ := exists_canonical (dist_ne_top (h.walk ha hp.walk))
  exact ⟨q, best_eq_some.mpr hq, h.canonical ha hp hq⟩

end

end Reversal

end Palu.Paths
