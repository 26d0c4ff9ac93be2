import Palu.Paths.Distance

namespace Palu.Paths

/-- What a label-setting search knows: the settled nodes, the tentative
distances, and the node each label was last lowered from. -/
structure Labels (V : Type*) where
  settled : Set V
  label : V → ℕ∞
  pred : V → Option V

variable {V : Type*} {N : Network V} {a u v : V} {p q : List V} {s t : Labels V}

/-- Only the start carries a label, and nothing is settled. -/
structure Initial (a : V) (s : Labels V) : Prop where
  settled : s.settled = ∅
  start : s.label a = 0
  other : ∀ x, x ≠ a → s.label x = ⊤

/-- Settling `v` lowers the label of `x` to the cost through `v`. -/
def Improves (N : Network V) (s : Labels V) (v x : V) : Prop :=
  x ≠ v ∧ x ∉ s.settled ∧ N.edge v x ∧ s.label v + N.weight v x < s.label x

/-- Settling `v`: its unsettled successors get the better of their label and
the cost through `v`, everything else is left alone. -/
structure Settles (N : Network V) (v : V) (s t : Labels V) : Prop where
  settled : t.settled = insert v s.settled
  improved : ∀ x, Improves N s v x → t.label x = s.label v + N.weight v x ∧ t.pred x = some v
  kept : ∀ x, ¬ Improves N s v x → t.label x = s.label x ∧ t.pred x = s.pred x

namespace Settles

theorem label_le (h : Settles N v s t) (x : V) : t.label x ≤ s.label x := by
  by_cases hi : Improves N s v x
  · rw [(h.improved x hi).1]
    exact hi.2.2.2.le
  · rw [(h.kept x hi).1]

theorem same (h : Settles N v s t) : ∀ x ∈ t.settled,
    t.label x = s.label x ∧ t.pred x = s.pred x := by
  intro x hx
  rw [h.settled] at hx
  apply h.kept x
  intro hi
  rcases hx with rfl | hx
  · exact hi.1 rfl
  · exact hi.2.1 hx

/-- An unsettled successor of `v` is labelled by at most the cost through `v`. -/
theorem label_le_add {x : V} (h : Settles N v s t) (hx : x ∉ t.settled) (he : N.edge v x) :
    t.label x ≤ s.label v + N.weight v x := by
  by_cases hi : Improves N s v x
  · rw [(h.improved x hi).1]
  · rw [h.settled, Set.mem_insert_iff, not_or] at hx
    rw [(h.kept x hi).1]
    exact not_lt.mp fun hlt => hi ⟨hx.1, hx.2, he, hlt⟩

end Settles

section Order
variable [LinearOrder V]

/-- `v` is next: unsettled, labelled, and least by label and then by number. -/
structure Next (s : Labels V) (v : V) : Prop where
  unsettled : v ∉ s.settled
  labelled : s.label v ≠ ⊤
  least : ∀ x, x ∉ s.settled → toLex (s.label v, v) ≤ toLex (s.label x, x)

/-- What holds of the labels between two settling steps. -/
structure Settling (N : Network V) (a : V) (s : Labels V) : Prop where
  start : s.label a = 0
  relaxed : ∀ u ∈ s.settled, ∀ x, N.edge u x → s.label x ≤ dist N a u + N.weight u x
  pred : ∀ x, x ≠ a → s.label x ≠ ⊤ → ∃ u ∈ s.settled, s.pred x = some u ∧ N.edge u x ∧
    s.label x = dist N a u + N.weight u x ∧
    ∀ w ∈ s.settled, N.edge w x → dist N a w + N.weight w x = s.label x →
      rank N a u ≤ rank N a w
  exact : ∀ x ∈ s.settled, s.label x = dist N a x ∧ dist N a x ≠ ⊤
  closed : ∀ x ∈ s.settled, ∀ u, rank N a u < rank N a x → u ∈ s.settled

theorem Initial.settling (h : Initial a s) : Settling N a s := by
  refine ⟨h.start, ?_, ?_, ?_, ?_⟩
  · simp [h.settled]
  · intro x hx hl
    exact absurd (h.other x hx) hl
  · simp [h.settled]
  · simp [h.settled]

namespace Settling

theorem lower (h : Settling N a s) (x : V) : dist N a x ≤ s.label x := by
  by_cases hx : x = a
  · rw [hx, dist_self]
    exact zero_le
  · by_cases hl : s.label x = ⊤
    · rw [hl]
      exact le_top
    · obtain ⟨u, _, _, he, hu, _⟩ := h.pred x hx hl
      rw [hu]
      exact dist_le_add he

/-- The label of a node is exact once a tight stop before it is settled. -/
theorem label_of_tight (h : Settling N a s) (hu : u ∈ s.settled) (ht : Tight N a u v) :
    s.label v = dist N a v :=
  le_antisymm (ht.sum ▸ h.relaxed u hu v ht.edge) (h.lower v)

/-- Below every reachable unsettled node there is one with an exact label. -/
theorem exists_exact (h : Settling N a s) (hv : v ∉ s.settled) (hd : dist N a v ≠ ⊤) :
    ∃ y, y ∉ s.settled ∧ s.label y = dist N a y ∧ dist N a y ≤ dist N a v := by
  -- Walking back over tight stops gets strictly closer to `a` at every step.
  induction he : dist N a v using WellFoundedLT.induction generalizing v with
  | ind d ih =>
    subst he
    by_cases hva : v = a
    · subst hva
      exact ⟨v, hv, by rw [h.start, dist_self], le_rfl⟩
    · obtain ⟨u, hu⟩ := exists_tight hva hd
      by_cases hs : u ∈ s.settled
      · exact ⟨v, hv, h.label_of_tight hs hu, le_rfl⟩
      · obtain ⟨y, hy, hl, hle⟩ := ih _ hu.lt hs hu.lt.ne_top rfl
        exact ⟨y, hy, hl, hle.trans hu.lt.le⟩

/-- When no unsettled node carries a label, every reachable node is settled. -/
theorem exhausted (h : Settling N a s) (hl : ∀ x, x ∉ s.settled → s.label x = ⊤)
    (hd : dist N a v ≠ ⊤) : v ∈ s.settled := by
  by_contra hv
  obtain ⟨y, hy, he, hle⟩ := h.exists_exact hv hd
  rw [← he, hl y hy, top_le_iff] at hle
  exact hd hle

theorem next_label_le (h : Settling N a s) (hn : Next s v) (hu : u ∉ s.settled)
    (hd : dist N a u ≠ ⊤) : s.label v ≤ dist N a u := by
  obtain ⟨y, hy, he, hle⟩ := h.exists_exact hu hd
  have := (Prod.Lex.toLex_le_toLex.mp (hn.least y hy))
  have hly : s.label v ≤ s.label y := by
    rcases this with hlt | ⟨heq, _⟩
    · exact hlt.le
    · exact heq.le
  exact hly.trans (he ▸ hle)

/-- The next node's label is its distance. -/
theorem next_exact (h : Settling N a s) (hn : Next s v) :
    s.label v = dist N a v ∧ dist N a v ≠ ⊤ := by
  have hd : dist N a v ≠ ⊤ := ne_top_of_le_ne_top hn.labelled (h.lower v)
  exact ⟨le_antisymm (h.next_label_le hn hn.unsettled hd) (h.lower v), hd⟩

/-- The next node comes first, by distance and number, among the unsettled ones. -/
theorem next_rank_le (h : Settling N a s) (hn : Next s v) (hu : u ∉ s.settled) :
    rank N a v ≤ rank N a u := by
  obtain ⟨he, hv⟩ := h.next_exact hn
  by_cases hd : dist N a u = ⊤
  · exact (rank_lt.mpr (Or.inl (hd ▸ hv.lt_top))).le
  have hle := h.next_label_le hn hu hd
  rw [he] at hle
  rcases hle.lt_or_eq with hlt | heq
  · exact (rank_lt.mpr (Or.inl hlt)).le
  -- At equal distance the label of `u` is exact too, so the numbers decide.
  have hlu : s.label u = dist N a u := by
    by_cases hua : u = a
    · subst hua
      rw [h.start, dist_self]
    · obtain ⟨w, hw⟩ := exists_tight hua hd
      by_cases hs : w ∈ s.settled
      · exact h.label_of_tight hs hw
      · have := h.next_label_le hn hs hw.lt.ne_top
        rw [he, heq] at this
        exact absurd this hw.lt.not_ge
  have := hn.least u hu
  rwa [he, hlu] at this

theorem rank_le_next (h : Settling N a s) (hn : Next s v) (hu : u ∈ s.settled) :
    rank N a u ≤ rank N a v := by
  by_contra hlt
  exact hn.unsettled (h.closed u hu v (not_le.mp hlt))

/-- The predecessor recorded for the next node is its first stop. -/
theorem next_pred (h : Settling N a s) (hn : Next s v) (hv : v ≠ a) :
    ∃ u ∈ s.settled, s.pred v = some u ∧ FirstStop N a u v := by
  obtain ⟨he, hd⟩ := h.next_exact hn
  obtain ⟨u, hu, hp, hedge, hl, hmin⟩ := h.pred v hv hn.labelled
  refine ⟨u, hu, hp, ⟨hedge, by rw [← hl, he], hd⟩, fun w hw => ?_⟩
  have hws : w ∈ s.settled := by
    by_contra hs
    exact absurd (h.next_rank_le hn hs) hw.rank_lt.not_ge
  exact hmin w hws hw.edge (by rw [hw.sum, he])

theorem settled_pred (h : Settling N a s) (hs : v ∈ s.settled) (hv : v ≠ a) :
    ∃ u ∈ s.settled, s.pred v = some u ∧ FirstStop N a u v := by
  obtain ⟨he, hd⟩ := h.exact v hs
  obtain ⟨u, hu, hp, hedge, hl, hmin⟩ := h.pred v hv (he ▸ hd)
  refine ⟨u, hu, hp, ⟨hedge, by rw [← hl, he], hd⟩, fun w hw => ?_⟩
  exact hmin w (h.closed v hs w hw.rank_lt) hw.edge (by rw [hw.sum, he])

theorem settle_exact (h : Settling N a s) (hn : Next s v) (ht : Settles N v s t) :
    ∀ x ∈ t.settled, t.label x = dist N a x ∧ dist N a x ≠ ⊤ := by
  intro x hx
  rw [(ht.same x hx).1]
  rw [ht.settled] at hx
  rcases hx with rfl | hx
  · exact h.next_exact hn
  · exact h.exact x hx

theorem settle_relaxed (h : Settling N a s) (hn : Next s v) (ht : Settles N v s t) :
    ∀ u ∈ t.settled, ∀ x, N.edge u x → t.label x ≤ dist N a u + N.weight u x := by
  intro u hu x hedge
  rw [ht.settled] at hu
  rcases hu with rfl | hu
  · by_cases hx : x ∈ t.settled
    · rw [(h.settle_exact hn ht x hx).1]
      exact dist_le_add hedge
    · rw [← (h.next_exact hn).1]
      exact ht.label_le_add hx hedge
  · exact (ht.label_le x).trans (h.relaxed u hu x hedge)

/-- A label that is lowered has `v` as its predecessor, and no older stop ties
with it; a label that is kept keeps its predecessor, and `v` ranks after it. -/
theorem settle_pred (h : Settling N a s) (hn : Next s v) (ht : Settles N v s t) :
    ∀ x, x ≠ a → t.label x ≠ ⊤ → ∃ u ∈ t.settled, t.pred x = some u ∧ N.edge u x ∧
      t.label x = dist N a u + N.weight u x ∧
      ∀ w ∈ t.settled, N.edge w x → dist N a w + N.weight w x = t.label x →
        rank N a u ≤ rank N a w := by
  have he := (h.next_exact hn).1
  intro x hx hl
  by_cases hi : Improves N s v x
  · obtain ⟨hlab, hpred⟩ := ht.improved x hi
    rw [hlab, he]
    refine ⟨v, by simp [ht.settled], hpred, hi.2.2.1, rfl, fun w hw hedge hsum => ?_⟩
    rw [ht.settled] at hw
    rcases hw with rfl | hw
    · exact le_rfl
    · have hold := h.relaxed w hw x hedge
      rw [hsum, ← he] at hold
      exact absurd hi.2.2.2 hold.not_gt
  · obtain ⟨hlab, hpred⟩ := ht.kept x hi
    rw [hlab] at hl
    obtain ⟨u, hu, hp, hedge, hsum, hmin⟩ := h.pred x hx hl
    rw [hlab, hpred]
    refine ⟨u, by simp [ht.settled, hu], hp, hedge, hsum, fun w hw hwe hws => ?_⟩
    rw [ht.settled] at hw
    rcases hw with rfl | hw
    · exact h.rank_le_next hn hu
    · exact hmin w hw hwe hws

theorem settle_closed (h : Settling N a s) (hn : Next s v) (ht : Settles N v s t) :
    ∀ x ∈ t.settled, ∀ u, rank N a u < rank N a x → u ∈ t.settled := by
  intro x hx u hu
  rw [ht.settled] at hx ⊢
  rcases hx with rfl | hx
  · apply Or.inr
    by_contra hs
    exact absurd (h.next_rank_le hn hs) hu.not_ge
  · exact Or.inr (h.closed x hx u hu)

/-- Settling the next node keeps every fact about the labels. -/
theorem settle (h : Settling N a s) (hn : Next s v) (ht : Settles N v s t) :
    Settling N a t where
  start := le_antisymm ((ht.label_le a).trans h.start.le) zero_le
  relaxed := h.settle_relaxed hn ht
  pred := h.settle_pred hn ht
  exact := h.settle_exact hn ht
  closed := h.settle_closed hn ht

end Settling

/-- A run of the search: any number of settling steps from the initial labels. -/
inductive Run (N : Network V) (a : V) : Labels V → Prop where
  | initial {s : Labels V} : Initial a s → Run N a s
  | settle {v : V} {s t : Labels V} : Run N a s → Next s v → Settles N v s t → Run N a t

theorem Run.settling (h : Run N a s) : Settling N a s := by
  induction h with
  | initial h => exact h.settling
  | settle _ hn ht ih => exact ih.settle hn ht

/-- Following `pred` from `v` leads back to `a` through `p`. -/
inductive PredChain (pred : V → Option V) (a : V) : V → List V → Prop where
  | start : PredChain pred a a [a]
  | snoc {u v : V} {p : List V} (chain : PredChain pred a u p) (ne : v ≠ a)
      (back : pred v = some u) : PredChain pred a v (p ++ [v])

omit [LinearOrder V] in
theorem PredChain.unique {pred : V → Option V} (h : PredChain pred a v p)
    (h' : PredChain pred a v q) : p = q := by
  induction h generalizing q with
  | start =>
    cases h' with
    | start => rfl
    | snoc _ ne _ => exact absurd rfl ne
  | snoc _ ne back ih =>
    cases h' with
    | start => exact absurd rfl ne
    | snoc chain' _ back' =>
      obtain rfl := Option.some.inj (back.symm.trans back')
      rw [ih chain']

/-- The predecessors of a settled node spell out its canonical path. -/
theorem Settling.chain (h : Settling N a s) (hc : Canonical N a v p) (hv : v ∈ s.settled) :
    PredChain s.pred a v p := by
  induction hc with
  | start => exact .start
  | snoc path stop ih =>
    obtain ⟨w, hw, hp, hf⟩ := h.settled_pred hv stop.ne_start
    obtain rfl := stop.unique hf
    exact .snoc (ih hw) stop.ne_start hp

/-- So do those of the node about to be settled. -/
theorem Settling.next_chain (h : Settling N a s) (hn : Next s v) (hc : Canonical N a v p) :
    PredChain s.pred a v p := by
  cases hc with
  | start => exact .start
  | snoc path stop =>
    obtain ⟨w, hw, hp, hf⟩ := h.next_pred hn stop.ne_start
    obtain rfl := stop.unique hf
    exact .snoc (h.chain path hw) stop.ne_start hp

end Order

end Palu.Paths
