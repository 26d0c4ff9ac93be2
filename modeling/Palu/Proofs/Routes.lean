import Palu.Proofs.ShortestPath

namespace Palu

open Paths

variable {g : GraphData} {ctx : RouteContext g} {src dst : g.NodeIndex} {p q : Path g}

namespace RouteContext

/-- Two systems joined by a gate or by the overlay. -/
def Joined (ctx : RouteContext g) (a b : g.NodeIndex) : Prop :=
  ctx.hasGateEdge a b = true ∨ ctx.isOverlayEdge a b = true

instance (a b : g.NodeIndex) : Decidable (ctx.Joined a b) :=
  inferInstanceAs (Decidable (_ ∨ _))

theorem isOverlayEdge_iff {a b : g.NodeIndex} :
    ctx.isOverlayEdge a b = true ↔ ∃ k, (b, k) ∈ ctx.connections a := by
  simp [isOverlayEdge, overlayEdgeKind]

theorem mem_neighbors {a b : g.NodeIndex} :
    b ∈ ctx.neighbors a ↔ ctx.Joined a b ∧ b ∉ ctx.avoid := by
  simp [neighbors, Joined, hasGateEdge, isOverlayEdge_iff, g.gateGraph.mem_neighbors_iff,
    or_and_right]

/-- A walk over gates and overlay edges that enters no avoided node. -/
structure Admits (ctx : RouteContext g) (src dst : g.NodeIndex) (p : Path g) : Prop where
  head : p.head? = some src
  last : p.getLast? = some dst
  joined : p.IsChain ctx.Joined
  clear : ∀ v ∈ p.tail, v ∉ ctx.avoid

/-- The admissible walks are the walks of the network that is searched. -/
theorem admits_iff : ctx.Admits src dst p ↔ Walk ctx.network src dst p := by
  have hedge : p.IsChain ctx.network.edge ↔
      p.IsChain ctx.Joined ∧ ∀ v ∈ p.tail, v ∉ ctx.avoid := by
    rw [isChain_iff_steps, isChain_iff_steps, ← map_snd_steps, List.forall_mem_map,
      ← forall₂_and]
    exact forall₂_congr fun e _ => mem_neighbors
  rw [walk_iff, hedge]
  exact ⟨fun h => ⟨h.head, h.last, h.joined, h.clear⟩,
    fun ⟨hh, hl, hj, hc⟩ => ⟨hh, hl, hj, hc⟩⟩

/-- The sum of the edge weights along a path. -/
def pathCost (ctx : RouteContext g) (p : Path g) : ℕ :=
  ((steps p).map fun e => ctx.edgeWeight e.1 e.2).sum

/-- What a search from `src` to `dst` answers, whatever is in its buffers. -/
def Answers (ctx : RouteContext g) (src dst : g.NodeIndex) (found : Option (Path g)) : Prop :=
  ∀ scratch, ∃ left, shortestPath ctx src dst scratch = .ok (found, left)

theorem answers_best (ctx : RouteContext g) (src dst : g.NodeIndex) :
    ctx.Answers src dst (best ctx.network src dst) :=
  shortestPath_eq ctx src dst

theorem Answers.eq_best {found : Option (Path g)} (h : ctx.Answers src dst found) :
    found = best ctx.network src dst := by
  obtain ⟨left, hl⟩ := h {}
  obtain ⟨left', hb⟩ := shortestPath_eq ctx src dst {}
  rw [hl] at hb
  exact congrArg Prod.fst (Except.ok.inj hb)

/-- One run tells what every run answers. -/
theorem answers_of_run {found : Option (Path g)}
    (h : (shortestPath ctx src dst {}).map Prod.fst = .ok found) :
    ctx.Answers src dst found := by
  obtain ⟨left, hl⟩ := ctx.answers_best src dst {}
  rw [hl] at h
  cases h
  exact ctx.answers_best src dst

theorem Answers.canonical (h : ctx.Answers src dst (some p)) :
    Canonical ctx.network src dst p :=
  best_eq_some.mp h.eq_best.symm

theorem best_isSome : (best ctx.network src dst).isSome = true ↔ ∃ p, ctx.Admits src dst p := by
  rw [← Option.ne_none_iff_isSome, ne_eq, best_eq_none]
  simp only [not_forall, not_not, admits_iff]

end RouteContext

/-- A returned path is admissible, simple and no dearer than any admissible walk. -/
structure CheapestRoute (ctx : RouteContext g) (src dst : g.NodeIndex) (p : Path g) : Prop where
  admits : ctx.Admits src dst p
  nodup : p.Nodup
  cheapest : ∀ q, ctx.Admits src dst q → ctx.pathCost p ≤ ctx.pathCost q

theorem cheapestRoute_of_canonical (h : Canonical ctx.network src dst p) :
    CheapestRoute ctx src dst p :=
  ⟨RouteContext.admits_iff.mpr h.walk, h.nodup,
    fun _ hq => h.cheapest (RouteContext.admits_iff.mp hq)⟩

/-- The search finds a route exactly when there is one, and then a cheapest
one. Its answer does not depend on what the buffers held before. -/
theorem shortestPath_correct (ctx : RouteContext g) (src dst : g.NodeIndex) :
    ∃ found, ctx.Answers src dst found ∧
      (found.isSome = true ↔ ∃ p, ctx.Admits src dst p) ∧
      ∀ p, found = some p → CheapestRoute ctx src dst p := by
  refine ⟨best ctx.network src dst, ctx.answers_best src dst, RouteContext.best_isSome, ?_⟩
  intro p hp
  exact cheapestRoute_of_canonical (best_eq_some.mp hp)

/-- The multi-target search answers each target as a search of its own would. -/
theorem shortestPathMulti_agrees (ctx : RouteContext g) (src : g.NodeIndex)
    (targets : List g.NodeIndex) (scratch : DijkstraScratch) :
    ∃ found : g.NodeIndex → Option (Path g), (∀ t, ctx.Answers src t (found t)) ∧
      ∃ left, shortestPathMulti ctx src targets scratch = .ok
        (targets.filterMap fun t => (found t).map fun p => ⟨t, p.length - 1, p⟩, left) :=
  ⟨fun t => best ctx.network src t, fun t => ctx.answers_best src t,
    shortestPathMulti_eq ctx src targets scratch⟩

end Palu
