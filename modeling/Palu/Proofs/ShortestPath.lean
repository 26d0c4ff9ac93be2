import Palu.Proofs.Passes

namespace Palu

open Paths Collections

section Loops
variable {g : GraphData} {ctx : RouteContext g} {src dst : g.NodeIndex} {κ : Type*}
  {expand : g.NodeIndex → ℕ → Search g.systems.length → Search g.systems.length}
  {settle : κ → g.NodeIndex → Option κ} {k : κ} {s u : Search g.systems.length}
  {r : Record g.systems.length}

namespace Runs

/-- Where a search stops, every visited node leads back along its canonical path. -/
theorem left_chain (hr : Runs (expandNode ctx) settle k s r) (h : Running ctx src s)
    (hu : r.ending.left = .ok u) {v : g.NodeIndex} (hv : u.visited.get v = true) :
    ∃ p, Canonical ctx.network src v p ∧ PredChain (fun x => u.prev.get x) src v p := by
  induction hr with
  | drained empty =>
    cases hu
    obtain ⟨p, hc⟩ := exists_canonical (h.visited_reached hv)
    exact ⟨p, hc, h.run.settling.chain hc hv⟩
  | skip pop seen rest ih => exact ih (h.skip pop seen) hu
  | @finish k s t i pop unseen stop =>
    cases hu
    change ∃ p, _ ∧ PredChain (fun x => t.prev.get x) src v p
    rw [pop.prev]
    by_cases hn : v = i.node
    · subst hn
      obtain ⟨p, hc⟩ := exists_canonical (h.popped_reached pop unseen)
      exact ⟨p, hc, h.run.settling.next_chain (pop.next h.queued unseen) hc⟩
    · simp only [Search.visit, get_put_other _ _ hn, pop.visited] at hv
      obtain ⟨p, hc⟩ := exists_canonical (h.visited_reached hv)
      exact ⟨p, hc, h.run.settling.chain hc hv⟩
  | expand pop unseen go rest ih => exact ih (h.expand pop unseen) hu

/-- A search that empties its heap has visited every reachable node. -/
theorem drained_visited (hr : Runs (expandNode ctx) settle k s r) (h : Running ctx src s)
    (hu : r.ending = .drained u) {v : g.NodeIndex} (hd : dist ctx.network src v ≠ ⊤) :
    u.visited.get v = true := by
  induction hr with
  | drained empty =>
    cases hu
    exact h.drained empty hd
  | skip pop seen rest ih => exact ih (h.skip pop seen) hu
  | finish pop unseen stop => cases hu
  | expand pop unseen go rest ih => exact ih (h.expand pop unseen) hu

/-- A search for `dst` that empties its heap has not come by `dst`. -/
theorem drained_unvisited {k : Unit} (hr : Runs expand (stopAt dst) k s r)
    (hx : Relaxes ctx expand) (hd : s.visited.get dst = false) (hu : r.ending = .drained u) :
    u.visited.get dst = false := by
  induction hr with
  | drained empty =>
    cases hu
    exact hd
  | skip pop seen rest ih => exact ih (pop.visited ▸ hd) hu
  | finish pop unseen stop => cases hu
  | @expand k k' s t i r pop unseen go rest ih =>
    have hne : dst ≠ i.node := by
      intro he
      simp [stopAt, he] at go
    exact ih ((hx.unvisited pop dst).mpr ⟨hne, hd⟩) hu

theorem finished_visited {k : Unit} (hr : Runs expand (stopAt dst) k s r)
    (hu : r.ending = .finished u) : u.visited.get dst = true := by
  induction hr with
  | drained empty => cases hu
  | skip pop seen rest ih => exact ih hu
  | @finish k s t i pop unseen stop =>
    cases hu
    have he : i.node = dst := by simpa [stopAt] using stop
    simp [Search.visit, he]
  | expand pop unseen go rest ih => exact ih hu

end Runs

theorem shortestPath_eq (ctx : RouteContext g) (src dst : g.NodeIndex)
    (scratch : DijkstraScratch) :
    ∃ left, shortestPath ctx src dst scratch = .ok (best ctx.network src dst, left) := by
  have h := start_running ctx src scratch
  have hr := recorded_runs ctx src dst scratch
  have hd : (startSearch src scratch).visited.get dst = false := start_unvisited src dst scratch
  rw [shortestPath_recorded]
  cases he : (shortestPath.recorded ctx src dst scratch).ending with
  | outOfFuel => exact absurd he hr.ends
  | drained u =>
    have hb : best ctx.network src dst = none := by
      apply best_eq_none.mpr
      intro p hw
      have hv := hr.drained_visited h he (dist_ne_top hw)
      rw [hr.drained_unvisited (expandNode_relaxes ctx) hd he] at hv
      cases hv
    exact ⟨u.scratch, by rw [hb]; rfl⟩
  | finished u =>
    obtain ⟨p, hc, hp⟩ := hr.left_chain h (by rw [he]; rfl) (hr.finished_visited he)
    refine ⟨u.scratch, ?_⟩
    rw [best_eq_some.mpr hc, Ending.route, reconstruct_chain hp hc.nodup]
    rfl

/-- The buffers a multi-target search stops with: exactly the reachable targets
are visited, and each visited node leads back along its canonical path. -/
structure Collected (ctx : RouteContext g) (src : g.NodeIndex) (targets : List g.NodeIndex)
    (s : Search g.systems.length) : Prop where
  visited : ∀ t ∈ targets, s.visited.get t = true ↔ dist ctx.network src t ≠ ⊤
  path : ∀ t ∈ targets, s.visited.get t = true → ∀ p, Canonical ctx.network src t p →
    reconstructPath s.prev src t = .ok p

section Wanted
variable {want : Finset g.NodeIndex} {v : g.NodeIndex}

/-- With an exact count, the search stops on the last node it wants. -/
theorem stopWhenSettled_none (h : stopWhenSettled (want, want.card) v = none) :
    want.erase v = ∅ := by
  simp only [stopWhenSettled, ← Finset.card_erase_eq_ite, Finset.card_eq_zero] at h
  by_contra hne
  rw [if_neg fun hs => hne hs.2] at h
  cases h

theorem stopWhenSettled_some {k' : Finset g.NodeIndex × ℕ}
    (h : stopWhenSettled (want, want.card) v = some k') :
    k' = (want.erase v, (want.erase v).card) := by
  simp only [stopWhenSettled, ← Finset.card_erase_eq_ite] at h
  split at h
  · cases h
  · exact (Option.some.inj h).symm

end Wanted

/-- A multi-target search that stops early has visited every target. -/
theorem Runs.targets_visited {targets : List g.NodeIndex} {k : Finset g.NodeIndex × ℕ}
    (hr : Runs (expandNode ctx) stopWhenSettled k s r) (hk : k = (k.1, k.1.card))
    (hw : ∀ t ∈ targets, s.visited.get t = false → t ∈ k.1) (hu : r.ending = .finished u) :
    ∀ t ∈ targets, u.visited.get t = true := by
  induction hr with
  | drained empty => cases hu
  | skip pop seen rest ih => exact ih hk (pop.visited ▸ hw) hu
  | @finish k s t i pop unseen stop =>
    cases hu
    intro x hx
    rw [hk] at stop
    have hlast := stopWhenSettled_none stop
    by_cases hn : x = i.node
    · subst hn
      simp [Search.visit]
    · simp only [Search.visit, get_put_other _ _ hn, pop.visited]
      by_contra hv
      have hm := Finset.mem_erase.mpr ⟨hn, hw x hx (by simpa using hv)⟩
      rw [hlast] at hm
      exact Finset.notMem_empty x hm
  | @expand k k' s t i r pop unseen go rest ih =>
    rw [hk] at go
    obtain rfl := stopWhenSettled_some go
    refine ih rfl (fun x hx hv => ?_) hu
    obtain ⟨hn, hv⟩ := (pop.unvisited_expand x).mp hv
    exact Finset.mem_erase.mpr ⟨hn, hw x hx hv⟩

theorem multi_collected (ctx : RouteContext g) (src : g.NodeIndex) (targets : List g.NodeIndex)
    (scratch : DijkstraScratch) :
    ∃ u, (shortestPathMulti.recorded ctx src targets scratch).ending.left = .ok u ∧
      Collected ctx src targets u := by
  have h := start_running ctx src scratch
  have hr := multi_recorded_runs ctx src targets scratch
  obtain ⟨u, hu, hall⟩ : ∃ u,
      (shortestPathMulti.recorded ctx src targets scratch).ending.left = .ok u ∧
      ∀ t ∈ targets, dist ctx.network src t ≠ ⊤ → u.visited.get t = true := by
    cases he : (shortestPathMulti.recorded ctx src targets scratch).ending with
    | outOfFuel => exact absurd he hr.ends
    | drained u => exact ⟨u, rfl, fun t _ hd => hr.drained_visited h he hd⟩
    | finished u =>
      refine ⟨u, rfl, fun t ht _ => ?_⟩
      exact hr.targets_visited rfl (fun x hx _ => List.mem_toFinset.mpr hx) he t ht
  refine ⟨u, hu, fun t ht => ⟨fun hv => ?_, hall t ht⟩, fun t ht hv p hc => ?_⟩
  · obtain ⟨p, hc, _⟩ := hr.left_chain h hu hv
    exact dist_ne_top hc.walk
  · obtain ⟨q, hq, hp⟩ := hr.left_chain h hu hv
    obtain rfl := hc.unique hq
    exact reconstruct_chain hp hc.nodup

/-- The answer to each target: its canonical path, if it can be reached. -/
noncomputable def settledTargets (ctx : RouteContext g) (src : g.NodeIndex)
    (targets : List g.NodeIndex) : List (SettledTarget g) :=
  targets.filterMap fun t => (best ctx.network src t).map fun p => ⟨t, p.length - 1, p⟩

theorem collect_targets {targets : List g.NodeIndex} (h : Collected ctx src targets s) :
    ((targets.filter fun t => s.visited.get t).mapM fun t => do
      let path ← reconstructPath s.prev src t
      pure (⟨t, path.length - 1, path⟩ : SettledTarget g)) =
    Except.ok (ε := Fault) (settledTargets ctx src targets) := by
  induction targets with
  | nil => rfl
  | cons t targets ih =>
    have ih := ih ⟨fun x hx => h.visited x (List.mem_cons_of_mem _ hx),
      fun x hx => h.path x (List.mem_cons_of_mem _ hx)⟩
    have ht := h.visited t (by simp)
    rw [settledTargets] at ih ⊢
    cases hv : s.visited.get t with
    | false =>
      have hb : best ctx.network src t = none := by
        apply best_eq_none.mpr
        intro p hp
        rw [ht.mpr (dist_ne_top hp)] at hv
        cases hv
      rw [List.filter_cons_of_neg (by simp [hv]), List.filterMap_cons, hb]
      exact ih
    | true =>
      obtain ⟨p, hc⟩ := exists_canonical (ht.mp hv)
      rw [List.filter_cons_of_pos (by simp [hv]), List.mapM_cons, List.filterMap_cons,
        best_eq_some.mpr hc, h.path t (by simp) hv p hc, ih]
      rfl

theorem shortestPathMulti_eq (ctx : RouteContext g) (src : g.NodeIndex)
    (targets : List g.NodeIndex) (scratch : DijkstraScratch) :
    ∃ left, shortestPathMulti ctx src targets scratch =
      .ok (settledTargets ctx src targets, left) := by
  obtain ⟨u, hu, hc⟩ := multi_collected ctx src targets scratch
  refine ⟨u.scratch, ?_⟩
  rw [shortestPathMulti_recorded, Ending.settled, hu]
  have := collect_targets hc
  simp only [bind, Except.bind] at this ⊢
  rw [this]
  rfl

end Loops

end Palu
