import Palu.Proofs.ShortestPath

namespace Palu

open Paths

variable {g : GraphData} {ctx : RouteContext g} {src dst cur : g.NodeIndex}
  {prev : Vector (Option g.NodeIndex) g.systems.length} {p path : Path g}

theorem rawPrev_get (x : g.NodeIndex) :
    (rawPrev prev)[(x : ℕ)]? = some ((prev.get x).elim NO_PREV Fin.val) := by
  simp [rawPrev, Vector.get]

/-- Where the debug build puts a path together, the release build puts together
the same one. -/
theorem release_of_go (fuel : ℕ) (h : reconstructPath.go prev src fuel cur path = .ok p) :
    reconstructPath.release (rawPrev prev) src fuel cur (path.map Fin.val) =
      .ok (p.map Fin.val) := by
  induction fuel generalizing cur path with
  | zero => cases h
  | succ fuel ih =>
    rw [reconstructPath.go] at h
    rw [reconstructPath.release]
    by_cases hc : cur = src
    · rw [if_pos hc] at h
      cases h
      rw [if_pos (congrArg Fin.val hc)]
    · rw [if_neg hc] at h
      rw [if_neg (Fin.val_ne_of_ne hc), rawPrev_get]
      cases hp : prev.get cur with
      | none =>
        rw [hp] at h
        cases h
      | some u =>
        rw [hp] at h
        exact ih h

/-- A call of `reconstructPath` that comes back: each node it meets has a
predecessor until it is at `src`, no node is met twice, and both builds return
the nodes met. -/
structure Traced (prev : Vector (Option g.NodeIndex) g.systems.length)
    (src dst : g.NodeIndex) (p : Path g) : Prop where
  chain : PredChain (fun x => prev.get x) src dst p
  nodup : p.Nodup
  hops : (steps p).length ≤ g.systems.length - 1
  debug : reconstructPath prev src dst = .ok p
  release : ∀ fuel, g.systems.length ≤ fuel →
    reconstructPath.release (rawPrev prev) src fuel dst [(dst : ℕ)] = .ok (p.map Fin.val)

theorem traced_of_canonical (h : PredChain (fun x => prev.get x) src dst p)
    (hc : Canonical ctx.network src dst p) : Traced prev src dst p := by
  have hlen : p.length ≤ g.systems.length := by simpa using hc.nodup.length_le_card
  have hgo : ∀ fuel, g.systems.length ≤ fuel →
      reconstructPath.go prev src fuel dst [dst] = .ok p := by
    intro fuel hf
    simpa using reconstruct_go h fuel (hlen.trans hf) []
  refine ⟨h, hc.nodup, ?_, hgo _ le_rfl, fun fuel hf => release_of_go fuel (hgo fuel hf)⟩
  rw [length_steps]
  omega

/-- The target of a single search is looked up where the search stops at it,
and those of a multi-target search where they have been visited. -/
theorem reconstruct_traced (ctx : RouteContext g) (src dst : g.NodeIndex)
    (targets : List g.NodeIndex) (scratch : DijkstraScratch) :
    (shortestPath ctx src dst scratch =
        (shortestPath.recorded ctx src dst scratch).ending.route src dst ∧
      ∀ u, (shortestPath.recorded ctx src dst scratch).ending = .finished u →
        ∃ p, Traced u.prev src dst p) ∧
    (shortestPathMulti ctx src targets scratch =
        (shortestPathMulti.recorded ctx src targets scratch).ending.settled src targets ∧
      ∀ u, (shortestPathMulti.recorded ctx src targets scratch).ending.left = .ok u →
        ∀ t ∈ targets.filter fun t => u.visited.get t, ∃ p, Traced u.prev src t p) := by
  have h := start_running ctx src scratch
  constructor
  · refine ⟨shortestPath_recorded ctx src dst scratch, fun u hu => ?_⟩
    have hr := recorded_runs ctx src dst scratch
    obtain ⟨p, hc, hp⟩ := hr.left_chain h (by rw [hu]; rfl) (hr.finished_visited hu)
    exact ⟨p, traced_of_canonical hp hc⟩
  · refine ⟨shortestPathMulti_recorded ctx src targets scratch, fun u hu t ht => ?_⟩
    have hr := multi_recorded_runs ctx src targets scratch
    obtain ⟨p, hc, hp⟩ := hr.left_chain h hu (List.mem_filter.mp ht).2
    exact ⟨p, traced_of_canonical hp hc⟩

end Palu
