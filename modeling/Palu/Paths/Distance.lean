import Palu.Paths.Walk

namespace Palu.Paths

variable {V : Type*} {N : Network V} {a u v : V} {p q : List V}

/-- The least cost of a walk from `a` to `v`, `⊤` where there is none. -/
noncomputable def dist (N : Network V) (a v : V) : ℕ∞ :=
  sInf {c | ∃ p, Walk N a v p ∧ (cost N p : ℕ∞) = c}

theorem dist_le_cost (h : Walk N a v p) : dist N a v ≤ cost N p :=
  sInf_le ⟨p, h, rfl⟩

theorem exists_walk (h : dist N a v ≠ ⊤) :
    ∃ p, Walk N a v p ∧ (cost N p : ℕ∞) = dist N a v := by
  apply csInf_mem (s := {c | ∃ p, Walk N a v p ∧ (cost N p : ℕ∞) = c})
  by_contra he
  rw [Set.not_nonempty_iff_eq_empty] at he
  exact h (by rw [dist, he, sInf_empty])

theorem dist_ne_top (h : Walk N a v p) : dist N a v ≠ ⊤ :=
  ne_top_of_le_ne_top (ENat.natCast_ne_top _) (dist_le_cost h)

theorem dist_self (N : Network V) (a : V) : dist N a a = 0 := by
  have h := dist_le_cost (N := N) (Walk.start (a := a))
  simpa [cost] using h

theorem dist_le_add (h : N.edge u v) : dist N a v ≤ dist N a u + N.weight u v := by
  by_cases hu : dist N a u = ⊤
  · simp [hu]
  · obtain ⟨p, hp, hc⟩ := exists_walk hu
    have hle := dist_le_cost (hp.snoc h)
    rw [cost_snoc hp] at hle
    simpa [← hc] using hle

/-- `u` is the last stop of a cheapest walk to `v`. -/
structure Tight (N : Network V) (a u v : V) : Prop where
  edge : N.edge u v
  sum : dist N a u + N.weight u v = dist N a v
  reached : dist N a v ≠ ⊤

theorem Tight.lt (h : Tight N a u v) : dist N a u < dist N a v := by
  have hw := N.weight_pos h.edge
  have hu : dist N a u ≠ ⊤ := by
    intro he
    exact h.reached (by rw [← h.sum, he, top_add])
  obtain ⟨d, hd⟩ := ENat.ne_top_iff_exists.mp hu
  rw [← h.sum, ← hd]
  exact_mod_cast Nat.lt_add_of_pos_right hw

theorem Tight.ne_start (h : Tight N a u v) : v ≠ a := by
  intro he
  subst he
  have := h.lt
  simp [dist_self] at this

theorem exists_tight (hv : v ≠ a) (h : dist N a v ≠ ⊤) : ∃ u, Tight N a u v := by
  obtain ⟨p, hp, hc⟩ := exists_walk h
  cases hp with
  | start => exact absurd rfl hv
  | @snoc u _ q walk step =>
    refine ⟨u, step, le_antisymm ?_ (dist_le_add step), h⟩
    rw [← hc, cost_snoc walk, Nat.cast_add]
    gcongr
    exact dist_le_cost walk

/-- Nodes ordered by distance from `a`, then by number: the order of settling. -/
noncomputable def rank (N : Network V) (a v : V) : ℕ∞ ×ₗ V := toLex (dist N a v, v)

theorem rank_injective (N : Network V) (a : V) : Function.Injective (rank N a) := by
  intro u v h
  exact (Prod.mk.inj (toLex.injective h)).2

section Order
variable [LinearOrder V]

theorem rank_lt : rank N a u < rank N a v ↔
    dist N a u < dist N a v ∨ dist N a u = dist N a v ∧ u < v :=
  Prod.Lex.toLex_lt_toLex

theorem Tight.rank_lt (h : Tight N a u v) : rank N a u < rank N a v :=
  Paths.rank_lt.mpr (Or.inl h.lt)

/-- The stop before `v` that is settled first among those of cheapest walks. -/
structure FirstStop (N : Network V) (a u v : V) : Prop extends Tight N a u v where
  first : ∀ w, Tight N a w v → rank N a u ≤ rank N a w

theorem FirstStop.unique {w : V} (hu : FirstStop N a u v) (hw : FirstStop N a w v) : u = w :=
  rank_injective N a (le_antisymm (hu.first w hw.toTight) (hw.first u hu.toTight))

theorem exists_firstStop [WellFoundedLT V] (hv : v ≠ a) (h : dist N a v ≠ ⊤) :
    ∃ u, FirstStop N a u v := by
  obtain ⟨u, hu⟩ := exists_tight hv h
  obtain ⟨w, hw, hmin⟩ := exists_minimalFor_of_wellFoundedLT (fun w => Tight N a w v)
    (rank N a) ⟨u, hu⟩
  refine ⟨w, hw, fun x hx => ?_⟩
  rcases le_total (rank N a w) (rank N a x) with hle | hle
  · exact hle
  · exact hmin hx hle

/-- The cheapest walk whose every stop is the one settled first. -/
inductive Canonical (N : Network V) (a : V) : V → List V → Prop where
  | start : Canonical N a a [a]
  | snoc {u v : V} {p : List V} (path : Canonical N a u p) (stop : FirstStop N a u v) :
      Canonical N a v (p ++ [v])

theorem Canonical.walk (h : Canonical N a v p) : Walk N a v p := by
  induction h with
  | start => exact .start
  | snoc _ stop ih => exact .snoc ih stop.edge

theorem Canonical.cost_eq (h : Canonical N a v p) : (cost N p : ℕ∞) = dist N a v := by
  induction h with
  | start => simp [cost, dist_self]
  | snoc path stop ih => rw [cost_snoc path.walk, Nat.cast_add, ih, stop.sum]

/-- A canonical path costs no more than any walk between the same ends. -/
theorem Canonical.cheapest (h : Canonical N a v p) (hq : Walk N a v q) :
    cost N p ≤ cost N q := by
  have hle := dist_le_cost hq
  rw [← h.cost_eq] at hle
  exact_mod_cast hle

theorem Canonical.dist_le (h : Canonical N a v p) : ∀ x ∈ p, dist N a x ≤ dist N a v := by
  induction h with
  | start => simp
  | snoc path stop ih =>
    intro x hx
    rcases List.mem_append.mp hx with hx | hx
    · exact (ih x hx).trans stop.lt.le
    · rw [List.mem_singleton.mp hx]

theorem Canonical.nodup (h : Canonical N a v p) : p.Nodup := by
  induction h with
  | start => simp
  | @snoc u v p path stop ih =>
    have hv : v ∉ p := fun hm => (path.dist_le v hm).not_gt stop.lt
    simpa [List.nodup_append] using ⟨ih, fun x hx he => hv (he ▸ hx)⟩

theorem Canonical.unique (hp : Canonical N a v p) (hq : Canonical N a v q) : p = q := by
  induction hp generalizing q with
  | start =>
    cases hq with
    | start => rfl
    | snoc _ stop => exact absurd rfl stop.ne_start
  | snoc path stop ih =>
    cases hq with
    | start => exact absurd rfl stop.ne_start
    | snoc path' stop' =>
      obtain rfl := stop.unique stop'
      rw [ih path']

theorem exists_canonical [WellFoundedLT V] (h : dist N a v ≠ ⊤) : ∃ p, Canonical N a v p := by
  -- Every tight stop is strictly closer to `a`, so the induction is on the distance.
  induction hd : dist N a v using WellFoundedLT.induction generalizing v with
  | ind d ih =>
    subst hd
    by_cases hv : v = a
    · exact ⟨[a], hv ▸ .start⟩
    · obtain ⟨u, hu⟩ := exists_firstStop hv h
      obtain ⟨p, hp⟩ := ih _ hu.lt (hu.lt.ne_top) rfl
      exact ⟨p ++ [v], hp.snoc hu⟩

open Classical in
/-- The canonical path to `v`, where `v` can be reached at all. -/
noncomputable def best (N : Network V) (a v : V) : Option (List V) :=
  if h : ∃ p, Canonical N a v p then some h.choose else none

theorem best_eq_some : best N a v = some p ↔ Canonical N a v p := by
  unfold best
  split
  · rename_i h
    rw [Option.some.injEq]
    exact ⟨fun he => he ▸ h.choose_spec, fun hp => h.choose_spec.unique hp⟩
  · rename_i h
    exact ⟨fun he => (Option.some_ne_none p he.symm).elim, fun hp => (h ⟨p, hp⟩).elim⟩

theorem best_eq_none [WellFoundedLT V] : best N a v = none ↔ ∀ p, ¬ Walk N a v p := by
  constructor
  · intro hb p hp
    obtain ⟨q, hq⟩ := exists_canonical (dist_ne_top hp)
    rw [best_eq_some.mpr hq] at hb
    cases hb
  · intro h
    cases hb : best N a v with
    | none => rfl
    | some p => exact (h p (best_eq_some.mp hb).walk).elim

end Order

end Palu.Paths
