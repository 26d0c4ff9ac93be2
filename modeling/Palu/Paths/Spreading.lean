import Palu.Paths.Settling

namespace Palu.Paths

variable {V : Type*} {N : Network V} {offer : V → ℕ} {a u v x : V} {p : List V}
  {s t t' : Labels V}

/-- What `v` offers is better than what `x` has. -/
def Takes (N : Network V) (offer : V → ℕ) (s : Labels V) (v x : V) : Prop :=
  x ≠ v ∧ x ∉ s.settled ∧ N.edge v x ∧ (offer x : ℕ∞) < s.label x

/-- Settling `v` with whatever it offers to its unsettled successors. An offer
need not be the label of `v` and a weight added up. -/
structure Spreads (N : Network V) (offer : V → ℕ) (v : V) (s t : Labels V) : Prop where
  settled : t.settled = insert v s.settled
  taken : ∀ x, Takes N offer s v x → t.label x = offer x ∧ t.pred x = some v
  kept : ∀ x, ¬ Takes N offer s v x → t.label x = s.label x ∧ t.pred x = s.pred x

/-- A walk to `v` along the predecessors, all of it settled but `v` itself. -/
structure Trail (N : Network V) (a : V) (s : Labels V) (v : V) (p : List V) : Prop where
  chain : PredChain s.pred a v p
  walk : Walk N a v p
  nodup : p.Nodup
  settled : ∀ u ∈ p, u ≠ v → u ∈ s.settled

/-- What holds of the labels between two steps, whatever is offered. -/
structure Spreading (N : Network V) (a : V) (s : Labels V) : Prop where
  start : s.label a ≠ ⊤
  settled : ∀ x ∈ s.settled, s.label x ≠ ⊤
  closed : ∀ u ∈ s.settled, ∀ x, N.edge u x → s.label x ≠ ⊤
  trail : ∀ x, s.label x ≠ ⊤ → ∃ p, Trail N a s x p

theorem PredChain.congr {pred pred' : V → Option V} (h : PredChain pred a v p)
    (hp : ∀ x ∈ p, pred' x = pred x) : PredChain pred' a v p := by
  induction h with
  | start => exact .start
  | @snoc u v p chain ne back ih =>
    refine .snoc (ih fun x hx => hp x (List.mem_append_left _ hx)) ne ?_
    rw [hp v (by simp), back]

namespace Spreads

/-- The labels after a step are determined by those before. -/
theorem unique (h : Spreads N offer v s t) (h' : Spreads N offer v s t') : t = t' := by
  have hx : ∀ x, t.label x = t'.label x ∧ t.pred x = t'.pred x := by
    intro x
    by_cases hx : Takes N offer s v x
    · rw [(h.taken x hx).1, (h.taken x hx).2, (h'.taken x hx).1, (h'.taken x hx).2]
      exact ⟨rfl, rfl⟩
    · rw [(h.kept x hx).1, (h.kept x hx).2, (h'.kept x hx).1, (h'.kept x hx).2]
      exact ⟨rfl, rfl⟩
  obtain ⟨settled, label, pred⟩ := t
  obtain ⟨settled', label', pred'⟩ := t'
  obtain rfl : settled = settled' := h.settled.trans h'.settled.symm
  obtain rfl : label = label' := funext fun x => (hx x).1
  obtain rfl : pred = pred' := funext fun x => (hx x).2
  rfl

theorem label_ne_top (h : Spreads N offer v s t) (hx : s.label x ≠ ⊤) : t.label x ≠ ⊤ := by
  by_cases ht : Takes N offer s v x
  · rw [(h.taken x ht).1]
    exact ENat.natCast_ne_top _
  · rwa [(h.kept x ht).1]

/-- Every successor of `v` is labelled in the end. -/
theorem label_of_edge (h : Spreads N offer v s t) (hs : ∀ x ∈ t.settled, s.label x ≠ ⊤)
    (he : N.edge v x) : t.label x ≠ ⊤ := by
  by_cases ht : Takes N offer s v x
  · rw [(h.taken x ht).1]
    exact ENat.natCast_ne_top _
  · rw [(h.kept x ht).1]
    by_cases hx : x ∈ t.settled
    · exact hs x hx
    · rw [h.settled, Set.mem_insert_iff, not_or] at hx
      have hle : s.label x ≤ offer x := not_lt.mp fun hlt => ht ⟨hx.1, hx.2, he, hlt⟩
      exact ne_top_of_le_ne_top (ENat.natCast_ne_top _) hle

/-- A step leaves alone what is settled after it. -/
theorem pred_of_settled (h : Spreads N offer v s t) (hx : x ∈ t.settled) :
    t.pred x = s.pred x := by
  rw [h.settled] at hx
  refine (h.kept x fun ht => ?_).2
  exact hx.elim ht.1 ht.2.1

end Spreads

/-- So a trail stays a trail, also where its end gets another label. -/
theorem Trail.keep (h : Trail N a s x p) (hs : Spreads N offer v s t)
    (hx : t.pred x = s.pred x) : Trail N a t x p := by
  have hsub : s.settled ⊆ t.settled := hs.settled ▸ Set.subset_insert v s.settled
  refine ⟨h.chain.congr fun y hy => ?_, h.walk, h.nodup, fun y hy hne => hsub (h.settled y hy hne)⟩
  by_cases hne : y = x
  · rw [hne, hx]
  · exact hs.pred_of_settled (hsub (h.settled y hy hne))

namespace Spreading

theorem trail_of_taken (h : Spreading N a s) (hv : s.label v ≠ ⊤) (hs : Spreads N offer v s t)
    (hx : Takes N offer s v x) : ∃ p, Trail N a t x p := by
  by_cases ha : x = a
  · subst ha
    exact ⟨[x], .start, .start, List.nodup_singleton x, by simp⟩
  obtain ⟨p, hp⟩ := h.trail v hv
  have hsettled : ∀ y ∈ p, y ∈ t.settled := by
    intro y hy
    rw [hs.settled]
    by_cases hne : y = v
    · exact .inl hne
    · exact .inr (hp.settled y hy hne)
  have hnew : x ∉ p := by
    intro hm
    have hxs := hsettled x hm
    rw [hs.settled] at hxs
    exact hxs.elim hx.1 hx.2.1
  refine ⟨p ++ [x], ?_, .snoc hp.walk hx.2.2.1, ?_, ?_⟩
  · exact .snoc (hp.chain.congr fun y hy => hs.pred_of_settled (hsettled y hy)) ha (hs.taken x hx).2
  · simpa [List.nodup_append] using ⟨hp.nodup, fun y hy he => hnew (he ▸ hy)⟩
  · intro y hy hne
    exact hsettled y ((List.mem_append.mp hy).resolve_right (by simpa using hne))

theorem spread (h : Spreading N a s) (hv : s.label v ≠ ⊤) (hs : Spreads N offer v s t) :
    Spreading N a t := by
  have hlabelled : ∀ x ∈ t.settled, s.label x ≠ ⊤ := by
    intro x hx
    rw [hs.settled] at hx
    rcases hx with rfl | hx
    · exact hv
    · exact h.settled x hx
  refine ⟨hs.label_ne_top h.start, fun x hx => hs.label_ne_top (hlabelled x hx), ?_, ?_⟩
  · intro u hu x he
    rw [hs.settled] at hu
    rcases hu with rfl | hu
    · exact hs.label_of_edge hlabelled he
    · exact hs.label_ne_top (h.closed u hu x he)
  · intro x hx
    by_cases ht : Takes N offer s v x
    · exact h.trail_of_taken hv hs ht
    · obtain ⟨hlabel, hpred⟩ := hs.kept x ht
      obtain ⟨p, hp⟩ := h.trail x (hlabel ▸ hx)
      exact ⟨p, hp.keep hs hpred⟩

/-- With every labelled node settled, every reachable one is. -/
theorem exhausted (h : Spreading N a s) (hall : ∀ x, x ∉ s.settled → s.label x = ⊤)
    (hw : Walk N a v p) : v ∈ s.settled := by
  induction hw with
  | start =>
    by_contra hv
    exact h.start (hall _ hv)
  | snoc walk step ih =>
    by_contra hv
    exact h.closed _ ih _ step (hall _ hv)

end Spreading

theorem Initial.spreading (h : Initial a s) : Spreading N a s := by
  refine ⟨by simp [h.start], by simp [h.settled], by simp [h.settled], fun x hx => ?_⟩
  obtain rfl : x = a := by
    by_contra hne
    exact hx (h.other x hne)
  exact ⟨[x], .start, .start, List.nodup_singleton x, by simp⟩

end Palu.Paths
