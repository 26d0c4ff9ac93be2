import Palu.Proofs.Staging

namespace Palu

open Paths

variable {g : GraphData} {ctx : RouteContext g} {src dst : g.NodeIndex}
  {targets : List g.NodeIndex} {p : Path g}

/-- The contract of the avoided nodes: they appear in no path, and as source or
destination they yield no route. -/
structure AvoidContract (ctx : RouteContext g) (src dst : g.NodeIndex)
    (targets : List g.NodeIndex) : Prop where
  no_route : src ∈ ctx.avoid ∨ dst ∈ ctx.avoid → ctx.Answers src dst none
  clear : ∀ p, ctx.Answers src dst (some p) → ∀ v ∈ p, v ∉ ctx.avoid
  multi : ∀ scratch, ∃ settled left,
    shortestPathMulti ctx src targets scratch = .ok (settled, left) ∧
    (∀ t ∈ settled, t.node ∉ ctx.avoid) ∧ (src ∈ ctx.avoid → settled = []) ∧
    ∀ t ∈ settled, ∀ v ∈ t.path, v ∉ ctx.avoid

/-- A walk that leaves a node that is not avoided meets none that is. -/
theorem RouteContext.Admits.clear_of_source (h : ctx.Admits src dst p) (hsrc : src ∉ ctx.avoid) :
    ∀ v ∈ p, v ∉ ctx.avoid := by
  obtain ⟨rest, rfl⟩ := List.head?_eq_some_iff.mp h.head
  intro v hv
  rcases List.mem_cons.mp hv with rfl | hv
  · exact hsrc
  · exact h.clear v hv

theorem RouteContext.Admits.last_mem (h : ctx.Admits src dst p) : dst ∈ p :=
  List.mem_of_getLast? h.last

theorem admits_of_best (h : best ctx.network src dst = some p) : ctx.Admits src dst p :=
  RouteContext.admits_iff.mpr (best_eq_some.mp h).walk

theorem best_eq_none_iff : best ctx.network src dst = none ↔ ∀ p, ¬ ctx.Admits src dst p := by
  rw [best_eq_none]
  exact forall_congr' fun p => RouteContext.admits_iff.not.symm

/-- From a source that is not avoided, the contract is kept. -/
theorem avoidContract_of_source (hsrc : src ∉ ctx.avoid) : AvoidContract ctx src dst targets := by
  refine ⟨fun h => ?_, fun p hp => ?_, fun scratch => ?_⟩
  · have hnone : best ctx.network src dst = none := by
      rw [best_eq_none_iff]
      intro p hp
      exact hp.clear_of_source hsrc dst hp.last_mem (h.resolve_left hsrc)
    rw [← hnone]
    exact ctx.answers_best src dst
  · exact (admits_of_best hp.eq_best.symm).clear_of_source hsrc
  · obtain ⟨left, hl⟩ := shortestPathMulti_eq ctx src targets scratch
    refine ⟨_, left, hl, fun t ht => ?_, fun h => absurd h hsrc, fun t ht => ?_⟩
    · have hp := admits_of_best (mem_settledTargets.mp ht).2.1
      exact hp.clear_of_source hsrc _ hp.last_mem
    · exact (admits_of_best (mem_settledTargets.mp ht).2.1).clear_of_source hsrc

/-- Where nothing is found, there is nothing to keep clear. -/
theorem avoidContract_of_nothing (hdst : ∀ p, ¬ ctx.Admits src dst p)
    (htargets : ∀ t ∈ targets, ∀ p, ¬ ctx.Admits src t p) :
    AvoidContract ctx src dst targets := by
  have hnone := best_eq_none_iff.mpr hdst
  have hempty : settledTargets ctx src targets = [] := by
    apply List.eq_nil_iff_forall_not_mem.mpr
    intro t ht
    obtain ⟨hm, hp, _⟩ := mem_settledTargets.mp ht
    exact htargets _ hm _ (admits_of_best hp)
  refine ⟨fun _ => hnone ▸ ctx.answers_best src dst, fun p hp => ?_, fun scratch => ?_⟩
  · exact absurd (admits_of_best hp.eq_best.symm) (hdst p)
  · obtain ⟨left, hl⟩ := shortestPathMulti_eq ctx src targets scratch
    rw [hempty] at hl
    exact ⟨[], left, hl, by simp, fun _ => rfl, by simp⟩

/-- An avoided source that leads nowhere, as the contract has it. -/
theorem AvoidContract.nothing (h : AvoidContract ctx src dst targets) (hsrc : src ∈ ctx.avoid) :
    (∀ p, ¬ ctx.Admits src dst p) ∧ ∀ t ∈ targets, ∀ p, ¬ ctx.Admits src t p := by
  constructor
  · exact best_eq_none_iff.mp (h.no_route (.inl hsrc)).eq_best.symm
  · intro t ht
    rw [← best_eq_none_iff]
    obtain ⟨settled, left, hrun, _, hempty, _⟩ := h.multi {}
    obtain ⟨left', hl⟩ := shortestPathMulti_eq ctx src targets {}
    obtain ⟨rfl, _⟩ := Prod.mk.inj (Except.ok.inj (hrun.symm.trans hl))
    cases hp : best ctx.network src t with
    | none => rfl
    | some p =>
      have hm : (⟨t, p.length - 1, p⟩ : SettledTarget g) ∈ settledTargets ctx src targets :=
        mem_settledTargets.mpr ⟨ht, hp, rfl⟩
      rw [hempty hsrc] at hm
      cases hm

/-- The contract is kept exactly where the source is not avoided, or leads to
none of the nodes asked for. -/
theorem avoid_contract_iff (ctx : RouteContext g) (src dst : g.NodeIndex)
    (targets : List g.NodeIndex) :
    AvoidContract ctx src dst targets ↔ src ∉ ctx.avoid ∨
      (∀ p, ¬ ctx.Admits src dst p) ∧ ∀ t ∈ targets, ∀ p, ¬ ctx.Admits src t p := by
  constructor
  · intro h
    by_cases hsrc : src ∈ ctx.avoid
    · exact .inr (h.nothing hsrc)
    · exact .inl hsrc
  · intro h
    rcases h with hsrc | ⟨hdst, htargets⟩
    · exact avoidContract_of_source hsrc
    · exact avoidContract_of_nothing hdst htargets

def startNode : turnurStaging.NodeIndex := ⟨0, by decide⟩

/-- A fleet that is told to avoid the system it is in. -/
def avoidStart : RouteContext turnurStaging := .new {startNode} .shortest

/-- The avoided source is routed from, to itself and to its neighbour. -/
theorem avoided_source_routes :
    ¬ AvoidContract avoidStart startNode startNode [⟨1, by decide⟩] ∧
      startNode ∈ avoidStart.avoid ∧ avoidStart.Answers startNode startNode (some [startNode]) ∧
      avoidStart.Answers startNode ⟨1, by decide⟩ (some [startNode, ⟨1, by decide⟩]) := by
  have hself : avoidStart.Answers startNode startNode (some [startNode]) :=
    RouteContext.answers_of_run (by decide +kernel)
  have hmem : startNode ∈ avoidStart.avoid := Finset.mem_singleton_self _
  refine ⟨fun h => ?_, hmem, hself, RouteContext.answers_of_run (by decide +kernel)⟩
  exact h.clear _ hself startNode (by simp) hmem

end Palu
