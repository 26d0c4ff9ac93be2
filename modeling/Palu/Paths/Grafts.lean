import Palu.Paths.Compare
import Palu.Paths.Settling

namespace Palu.Paths

variable {V : Type*} {N M : Network V} {a t u v w x : V} {p q r : List V}

theorem Extends.dist_le (h : Extends N M) (a v : V) : dist M a v ≤ dist N a v := by
  by_cases hv : dist N a v = ⊤
  · simp [hv]
  · obtain ⟨p, hp, hc⟩ := exists_walk hv
    rw [← hc]
    exact (dist_le_cost (h.walk hp)).trans (by exact_mod_cast h.cost_le hp)

section Grafts

/-- All that `M` adds to `N` begins or ends at `t`. -/
structure Grafts (N M : Network V) (t : V) : Prop where
  edge : ∀ {u v}, N.edge u v → M.edge u v
  only : ∀ {u v}, M.edge u v → u = t ∨ v = t ∨ N.edge u v
  weight : ∀ {u v}, N.edge u v → N.weight u v = M.weight u v

theorem Grafts.extends (h : Grafts N M t) : Extends N M := ⟨h.edge, fun he => (h.weight he).ge⟩

/-- A walk around `t` was there before, at the same cost. -/
theorem Grafts.walk (h : Grafts N M t) (hp : Walk M a v p) (ht : t ∉ p) :
    Walk N a v p ∧ cost N p = cost M p := by
  induction hp with
  | start => exact ⟨.start, by simp [cost]⟩
  | @snoc u v p walk step ih =>
    rw [List.mem_append, List.mem_singleton, not_or] at ht
    obtain ⟨hwalk, hcost⟩ := ih ht.1
    have hu : u ≠ t := fun he => ht.1 (he ▸ List.mem_of_getLast? walk.getLast)
    have hedge := (h.only step).resolve_left hu |>.resolve_left (Ne.symm ht.2)
    exact ⟨.snoc hwalk hedge, by rw [cost_snoc hwalk, cost_snoc walk, hcost, h.weight hedge]⟩

variable [LinearOrder V] [WellFoundedLT V]

/-- Nothing changes for what is nearer than `t`. -/
theorem Grafts.dist_eq (h : Grafts N M t) (hv : dist M a v < dist M a t) :
    dist N a v = dist M a v := by
  apply le_antisymm _ (h.extends.dist_le a v)
  obtain ⟨p, hp⟩ := exists_canonical hv.ne_top
  have ht : t ∉ p := fun hm => (hp.dist_le t hm).not_gt hv
  obtain ⟨hwalk, hcost⟩ := h.walk hp.walk ht
  rw [← hp.cost_eq, ← hcost]
  exact dist_le_cost hwalk

theorem Grafts.tight_iff (h : Grafts N M t) (hv : dist M a v < dist M a t) :
    Tight N a u v ↔ Tight M a u v := by
  constructor
  · intro hu
    have hlt : dist M a u < dist M a t :=
      ((h.extends.dist_le a u).trans_lt hu.lt).trans_le ((h.dist_eq hv).trans_le hv.le)
    refine ⟨h.edge hu.edge, ?_, hv.ne_top⟩
    rw [← h.dist_eq hlt, ← h.dist_eq hv, ← h.weight hu.edge, hu.sum]
  · intro hu
    have hlt := hu.lt.trans hv
    have hedge : N.edge u v := by
      rcases h.only hu.edge with rfl | rfl | he
      · exact absurd hlt (lt_irrefl _)
      · exact absurd hv (lt_irrefl _)
      · exact he
    refine ⟨hedge, ?_, by rw [h.dist_eq hv]; exact hv.ne_top⟩
    rw [h.dist_eq hlt, h.dist_eq hv, h.weight hedge, hu.sum]

/-- The canonical path to what is nearer than `t` stays. -/
theorem Grafts.canonical (h : Grafts N M t) (hp : Canonical M a v p)
    (hv : dist M a v < dist M a t) : Canonical N a v p := by
  induction hp with
  | start => exact .start
  | @snoc u v p path stop ih =>
    have hu := stop.lt.trans hv
    have hrank : ∀ w, Tight M a w v → (rank N a w = rank M a w) := by
      intro w hw
      rw [rank, rank, h.dist_eq (hw.lt.trans hv)]
    refine .snoc (ih hu) ⟨(h.tight_iff hv).mpr stop.toTight, fun w hw => ?_⟩
    have hw := (h.tight_iff hv).mp hw
    rw [hrank u stop.toTight, hrank w hw]
    exact stop.first w hw

end Grafts

section Trees
variable [LinearOrder V]

/-- A canonical path is made of canonical paths. -/
theorem Canonical.initial (h : Canonical N a v (q ++ x :: r)) :
    Canonical N a x (q ++ [x]) ∧ (r ≠ [] → dist N a x < dist N a v) := by
  generalize hp : q ++ x :: r = p at h
  induction h generalizing r with
  | start =>
    obtain ⟨rfl, hcons⟩ := (List.append_eq_singleton_iff.mp hp).resolve_right (by simp)
    cases hcons
    exact ⟨.start, fun hne => absurd rfl hne⟩
  | @snoc u v p path stop ih =>
    rcases r.eq_nil_or_concat with rfl | ⟨r, w, rfl⟩
    · obtain ⟨rfl, hcons⟩ := List.append_inj' hp rfl
      cases hcons
      exact ⟨.snoc path stop, fun hne => absurd rfl hne⟩
    · have hsnoc : (q ++ x :: r) ++ [w] = p ++ [v] := by simpa using hp
      obtain ⟨rfl, -⟩ := List.append_inj' hsnoc rfl
      exact ⟨(ih rfl).1, fun _ => (path.dist_le x (by simp)).trans_lt stop.lt⟩

open Classical in
/-- The stop before each node on its canonical path. -/
noncomputable def parent (N : Network V) (a v : V) : Option V :=
  if h : ∃ u, FirstStop N a u v then some h.choose else none

/-- All canonical paths are branches of one tree. -/
theorem Canonical.branch (h : Canonical N a v p) : PredChain (parent N a) a v p := by
  induction h with
  | start => exact .start
  | @snoc u v p path stop ih =>
    have hex : ∃ u, FirstStop N a u v := ⟨u, stop⟩
    refine .snoc ih stop.ne_start ?_
    rw [parent, dif_pos hex, hex.choose_spec.unique stop]

end Trees

end Palu.Paths
