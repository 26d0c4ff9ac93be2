import Palu.Proofs.Rounding

namespace Palu

open Paths Collections

variable {g : GraphData} {ctx : RouteContext g} {src dst v : g.NodeIndex} {p : Path g}
  {round : ℕ → ℕ}

section Loops
variable {κ : Type*} {expand : g.NodeIndex → ℕ → Search g.systems.length → Search g.systems.length}
  {settle : κ → g.NodeIndex → Option κ} {k : κ} {s t u : Search g.systems.length}
  {i : HeapItem g.systems.length} {r : Record g.systems.length}

/-- What a search keeps whatever it offers: its buffers are labels that spread
from the source, and its heap serves them. -/
structure Spread (ctx : RouteContext g) (src : g.NodeIndex) (s : Search g.systems.length) :
    Prop where
  spreading : Spreading ctx.network src s.labels
  queued : Queued s

theorem start_spread (ctx : RouteContext g) (src : g.NodeIndex) (scratch : DijkstraScratch) :
    Spread ctx src (startSearch src scratch) :=
  ⟨(start_initial src scratch).spreading, start_queued src scratch⟩

namespace Spread

theorem skip (h : Spread ctx src s) (hp : Popped s i t) (hv : s.visited.get i.node = true) :
    Spread ctx src t :=
  ⟨hp.labels ▸ h.spreading, hp.queued h.queued hv⟩

theorem labelled (h : Spread ctx src s) (hp : Popped s i t)
    (hv : s.visited.get i.node = false) : s.labels.label i.node ≠ ⊤ :=
  (hp.next h.queued hv).labelled

theorem expanded (h : Spread ctx src s) (he : Relaxes ctx expand) (hp : Popped s i t)
    (hv : s.visited.get i.node = false) :
    Spread ctx src (expand i.node i.dist (t.visit i.node)) := by
  obtain ⟨offer, hr⟩ := he i.node i.dist (t.visit i.node)
  exact ⟨h.spreading.spread (h.labelled hp hv) (hp.spreads hr), hp.queued_expand h.queued hr⟩

/-- With an empty heap, every reachable node has been visited. -/
theorem drained (h : Spread ctx src s) (empty : s.heap = []) (hw : Walk ctx.network src v p) :
    s.visited.get v = true := by
  refine h.spreading.exhausted (fun x hx => ?_) hw
  by_contra hl
  obtain ⟨d, hd⟩ := ENat.ne_top_iff_exists.mp hl
  have hm := h.queued.covers x (by simpa [Search.labels] using hx) d hd.symm
  rw [empty] at hm
  cases hm

end Spread

namespace Runs

theorem drained_spread (hr : Runs expand settle k s r) (he : Relaxes ctx expand)
    (h : Spread ctx src s) (hu : r.ending = .drained u) (hw : Walk ctx.network src v p) :
    u.visited.get v = true := by
  induction hr with
  | drained empty =>
    cases hu
    exact h.drained empty hw
  | skip pop seen rest ih => exact ih (h.skip pop seen) hu
  | finish pop unseen stop => cases hu
  | expand pop unseen go rest ih => exact ih (h.expanded he pop unseen) hu

/-- A search that stops at a node leaves a simple walk to it in the predecessors. -/
theorem finished_trail {k : Unit} (hr : Runs expand (stopAt dst) k s r) (he : Relaxes ctx expand)
    (h : Spread ctx src s) (hu : r.ending = .finished u) :
    ∃ p, PredChain (fun x => u.prev.get x) src dst p ∧ Walk ctx.network src dst p ∧ p.Nodup := by
  induction hr with
  | drained empty => cases hu
  | skip pop seen rest ih => exact ih (h.skip pop seen) hu
  | @finish k s t i pop unseen stop =>
    cases hu
    obtain rfl : i.node = dst := by simpa [stopAt] using stop
    obtain ⟨p, hp⟩ := h.spreading.trail _ (h.labelled pop unseen)
    refine ⟨p, ?_, hp.walk, hp.nodup⟩
    change PredChain (fun x => t.prev.get x) src _ p
    rw [pop.prev]
    exact hp.chain
  | expand pop unseen go rest ih => exact ih (h.expanded he pop unseen) hu

end Runs

end Loops

/-- What a node popped at `dist` offers when every sum is rounded. -/
def RouteContext.offersRounded (round : ℕ → ℕ) (ctx : RouteContext g) (cur : g.NodeIndex)
    (dist : ℕ) (x : g.NodeIndex) : ℕ :=
  round (dist + ctx.edgeWeightRounded round cur x)

theorem expandRounded_relaxed (cur : g.NodeIndex) (d : ℕ) (s : Search g.systems.length) :
    Relaxed (ctx.offersRounded round cur d) cur (ctx.neighbors cur) s
      (expandRounded round ctx cur d s) :=
  relaxed_fold _ _

theorem expandRounded_relaxes (round : ℕ → ℕ) (ctx : RouteContext g) :
    Relaxes ctx (expandRounded round ctx) :=
  fun node d s => ⟨_, expandRounded_relaxed node d s⟩

theorem recordedRounded_runs (round : ℕ → ℕ) (ctx : RouteContext g) (src dst : g.NodeIndex)
    (scratch : DijkstraScratch) :
    Runs (expandRounded round ctx) (stopAt dst) () (startSearch src scratch)
      (shortestPath.recordedRounded round ctx src dst scratch) :=
  record_runs (expandRounded_relaxes round ctx) _ _ (start_queued src scratch)
    (start_pending src scratch)

/-- What a search with rounded sums answers, whatever is in its buffers. -/
def RouteContext.AnswersRounded (round : ℕ → ℕ) (ctx : RouteContext g) (src dst : g.NodeIndex)
    (found : Option (Path g)) : Prop :=
  ∀ scratch, ∃ left, shortestPath.rounded round ctx src dst scratch = .ok (found, left)

/-- One run tells what every run answers. -/
theorem answersRounded_of_run {found : Option (Path g)} {scratch left : DijkstraScratch}
    (h : shortestPath.rounded round ctx src dst scratch = .ok (found, left)) :
    ctx.AnswersRounded round src dst found :=
  fun _ => ⟨left, h⟩

/-- However the sums are rounded, the search answers, and finds a route exactly
when there is one. Rounding may only cost it the cheapest. -/
theorem rounded_answers (round : ℕ → ℕ) (ctx : RouteContext g) (src dst : g.NodeIndex) :
    ∃ found, ctx.AnswersRounded round src dst found ∧
      (found.isSome = true ↔ ∃ p, ctx.Admits src dst p) ∧
      ∀ p, found = some p → ctx.Admits src dst p ∧ p.Nodup := by
  have hx := expandRounded_relaxes round ctx
  have h := start_spread ctx src {}
  have hr := recordedRounded_runs round ctx src dst {}
  have hanswer : shortestPath.rounded round ctx src dst {} =
      (shortestPath.recordedRounded round ctx src dst {}).ending.route src dst := rfl
  cases he : (shortestPath.recordedRounded round ctx src dst {}).ending with
  | outOfFuel => exact absurd he hr.ends
  | drained u =>
    rw [he] at hanswer
    refine ⟨none, answersRounded_of_run hanswer, ?_, by simp⟩
    simp only [Option.isSome_none, Bool.false_eq_true, false_iff, RouteContext.admits_iff]
    intro ⟨p, hw⟩
    have hv := hr.drained_spread hx h he hw
    rw [hr.drained_unvisited hx (start_unvisited src dst {}) he] at hv
    cases hv
  | finished u =>
    obtain ⟨p, hp, hw, hn⟩ := hr.finished_trail hx h he
    rw [he, Ending.route, reconstruct_chain hp hn] at hanswer
    have ha : ctx.Admits src dst p := RouteContext.admits_iff.mpr hw
    refine ⟨some p, answersRounded_of_run hanswer, ?_, ?_⟩
    · simp only [Option.isSome_some, true_iff]
      exact ⟨p, ha⟩
    · rintro q hq
      cases hq
      exact ⟨ha, hn⟩

end Palu
