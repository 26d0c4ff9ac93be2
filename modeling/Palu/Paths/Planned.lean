import Palu.Paths.Spreading

namespace Palu.Paths

variable {V : Type*} {N : Network V} {offer : V → ℕ → V → ℕ} {a b u v : V} {p : List V} {k : ℕ}

/-- A search laid out beforehand: the turn at which each node is settled, the
node it is labelled from, and the label. -/
structure Plan (V : Type*) where
  turn : V → ℕ
  parent : V → V
  label : V → ℕ

/-- The labels of the plan from `a` after `k` turns. -/
def Plan.labels [DecidableEq V] (P : Plan V) (a : V) (k : ℕ) : Labels V where
  settled := {v | P.turn v < k}
  label v := if v = a ∨ P.turn (P.parent v) < k then P.label v else ⊤
  pred v := if v ≠ a ∧ P.turn (P.parent v) < k then some (P.parent v) else none

/-- The plan is the only one open to a search from `a` until it settles `b`: the
node of each turn is the least one labelled, and the first offer to reach a node
is never undercut. -/
structure Plan.Forced [LinearOrder V] (P : Plan V) (N : Network V) (offer : V → ℕ → V → ℕ)
    (a b : V) : Prop where
  start : P.turn a = 0 ∧ P.label a = 0
  injective : Function.Injective P.turn
  onto : ∀ k ≤ P.turn b, ∃ v, P.turn v = k
  parent : ∀ v, v ≠ a → P.turn (P.parent v) < P.turn v ∧ N.edge (P.parent v) v ∧
    offer (P.parent v) (P.label (P.parent v)) v = P.label v
  first : ∀ u v, N.edge u v → P.turn u < P.turn b → P.turn u < P.turn v →
    P.turn (P.parent v) ≤ P.turn u ∧ P.label v ≤ offer u (P.label u) v
  least : ∀ u v, P.turn u ≤ P.turn b → P.turn u < P.turn v → P.turn (P.parent v) < P.turn u →
    toLex (P.label u, u) < toLex (P.label v, v)

theorem Plan.label_after [DecidableEq V] {P : Plan V} (h : P.turn (P.parent v) < k) :
    (P.labels a k).label v = P.label v :=
  if_pos (.inr h)

theorem Plan.label_before [DecidableEq V] {P : Plan V} (ha : v ≠ a)
    (h : k ≤ P.turn (P.parent v)) : (P.labels a k).label v = ⊤ :=
  if_neg (not_or.mpr ⟨ha, h.not_gt⟩)

theorem Plan.pred_eq_some [DecidableEq V] {P : Plan V} :
    (P.labels a k).pred v = some u ↔ (v ≠ a ∧ P.turn (P.parent v) < k) ∧ P.parent v = u := by
  simp [Plan.labels]

namespace Plan.Forced
variable [LinearOrder V] {P : Plan V}

theorem initial (h : P.Forced N offer a b) {s : Labels V} (hs : Initial a s)
    (hp : ∀ x, s.pred x = none) : s = P.labels a 0 := by
  obtain ⟨settled, label, pred⟩ := s
  have hlabel : ∀ x, label x = (P.labels a 0).label x := by
    intro x
    by_cases hx : x = a
    · simpa [Plan.labels, hx, h.start.2] using hs.start
    · simpa [Plan.labels, hx] using hs.other x hx
  obtain rfl : settled = ∅ := hs.settled
  obtain rfl : label = (P.labels a 0).label := funext hlabel
  obtain rfl : pred = fun _ => none := funext hp
  simp [Plan.labels]

/-- The node whose turn it is has been labelled. -/
theorem labelled (h : P.Forced N offer a b) (hv : P.turn v = k) :
    (P.labels a k).label v = P.label v := by
  refine if_pos ?_
  by_cases ha : v = a
  · exact .inl ha
  · exact .inr (hv ▸ (h.parent v ha).1)

theorem next (h : P.Forced N offer a b) (hk : k ≤ P.turn b) (hv : Next (P.labels a k) v) :
    P.turn v = k := by
  obtain ⟨u, hu⟩ := h.onto k hk
  have hle : k ≤ P.turn v := not_lt.mp hv.unsettled
  by_contra hne
  have hlt : P.turn u < P.turn v := by omega
  have ha : v ≠ a := by
    intro ha
    rw [ha, h.start.1] at hlt
    omega
  have hearly : P.turn (P.parent v) < k := by
    by_contra hlate
    exact hv.labelled (label_before ha (not_lt.mp hlate))
  have hbefore := h.least u v (hu ▸ hk) hlt (hu ▸ hearly)
  have hafter := hv.least u (by simp [Plan.labels, hu])
  rw [h.labelled hu, label_after hearly, Prod.Lex.toLex_le_toLex] at hafter
  rw [Prod.Lex.toLex_lt_toLex] at hbefore
  rcases hafter with hlt' | ⟨heq, hle'⟩
  · have hlt' : P.label v < P.label u := ENat.natCast_lt_natCast.mp hlt'
    rcases hbefore with hlt | ⟨heq, _⟩
    · exact lt_asymm hlt hlt'
    · exact hlt'.ne' heq
  · have heq : P.label v = P.label u := ENat.natCast_inj.mp heq
    rcases hbefore with hlt | ⟨_, hlt⟩
    · exact hlt.ne' heq
    · exact hlt.not_ge hle'

/-- At its turn a node labels those it is the parent of, and no other. -/
theorem takes_iff (h : P.Forced N offer a b) (hv : P.turn v = k) (hk : k < P.turn b) (x : V) :
    Takes N (offer v (P.label v)) (P.labels a k) v x ↔ x ≠ a ∧ P.parent x = v := by
  constructor
  · intro ⟨hne, hunsettled, hedge, hlt⟩
    have hle : k ≤ P.turn x := not_lt.mp hunsettled
    have hlater : P.turn v < P.turn x := by
      have hturn : P.turn x ≠ P.turn v := fun he => hne (h.injective he)
      omega
    have ha : x ≠ a := by
      intro ha
      rw [ha, h.start.1] at hlater
      omega
    obtain ⟨hfirst, hoffer⟩ := h.first v x hedge (hv ▸ hk) hlater
    refine ⟨ha, h.injective (le_antisymm hfirst ?_)⟩
    by_contra hearly
    rw [hv, not_le] at hearly
    rw [label_after hearly] at hlt
    exact hoffer.not_gt (by exact_mod_cast hlt)
  · rintro ⟨ha, rfl⟩
    obtain ⟨hlater, hedge, _⟩ := h.parent x ha
    refine ⟨fun he => by rw [← he] at hlater; exact lt_irrefl _ hlater, ?_, hedge, ?_⟩
    · exact not_lt.mpr (hv ▸ hlater.le)
    · rw [label_before ha hv.ge]
      exact ENat.natCast_lt_top _

theorem spreads (h : P.Forced N offer a b) (hv : P.turn v = k) (hk : k < P.turn b) :
    Spreads N (offer v (P.label v)) v (P.labels a k) (P.labels a (k + 1)) := by
  refine ⟨?_, ?_, ?_⟩
  · ext x
    have hiff : P.turn x = k ↔ x = v := by rw [← hv, h.injective.eq_iff]
    simp only [Plan.labels, Set.mem_ofPred_eq, Set.mem_insert_iff, ← hiff]
    omega
  · intro x hx
    obtain ⟨ha, rfl⟩ := (h.takes_iff hv hk x).mp hx
    have hnow : P.turn (P.parent x) < k + 1 := by omega
    rw [(h.parent x ha).2.2]
    exact ⟨if_pos (.inr hnow), if_pos ⟨ha, hnow⟩⟩
  · intro x hx
    rw [h.takes_iff hv hk] at hx
    have hiff : x ≠ a → (P.turn (P.parent x) < k + 1 ↔ P.turn (P.parent x) < k) := by
      intro ha
      have hturn : P.turn (P.parent x) ≠ k := fun he => hx ⟨ha, h.injective (he.trans hv.symm)⟩
      omega
    by_cases ha : x = a
    · simp [Plan.labels, ha]
    · simp only [Plan.labels, ha, hiff ha, ne_eq, not_false_eq_true, true_and, and_self]

/-- What a chain of the plan costs, where every hop of it is known. -/
theorem cost_of_chain (h : P.Forced N offer a b) {cost : V → ℕ} (ha : cost a = 0)
    (hcost : ∀ v, v ≠ a → cost v = cost (P.parent v) + N.weight (P.parent v) v)
    (hc : PredChain (P.labels a k).pred a v p) : Walk N a v p ∧ Paths.cost N p = cost v := by
  induction hc with
  | start =>
    rw [ha]
    exact ⟨.start, rfl⟩
  | @snoc u v p chain ne back ih =>
    obtain ⟨hwalk, hu⟩ := ih
    have hparent : P.parent v = u := (Plan.pred_eq_some.mp back).2
    have hedge := (h.parent v ne).2.1
    rw [hparent] at hedge
    rw [cost_snoc hwalk, hu, hcost v ne, hparent]
    exact ⟨.snoc hwalk hedge, rfl⟩

end Plan.Forced

end Palu.Paths
