import Palu.Paths.Planned
import Palu.Proofs.Mapping
import Palu.Proofs.Reversing

namespace Palu

open Paths Collections

section Planned
variable {g : GraphData} {ctx : RouteContext g} {src dst : g.NodeIndex} {P : Plan g.NodeIndex}
  {offer : g.NodeIndex → ℕ → g.NodeIndex → ℕ} {round : ℕ → ℕ}
  {expand : g.NodeIndex → ℕ → Search g.systems.length → Search g.systems.length}
  {s : Search g.systems.length} {r : Record g.systems.length} {n : ℕ} {k : Unit}

theorem start_planned (h : P.Forced ctx.network offer src dst) (scratch : DijkstraScratch) :
    (startSearch src scratch).labels = P.labels src 0 := by
  refine h.initial (start_initial src scratch) fun x => ?_
  simp [Search.labels, startSearch, Search.push, DijkstraScratch.reset, clearResize]

/-- A search with a forced plan keeps to it until it stops at the end of the plan. -/
theorem Runs.planned (hr : Runs expand (stopAt dst) k s r)
    (hx : ∀ cur d s, Relaxed (offer cur d) cur (ctx.neighbors cur) s (expand cur d s))
    (h : P.Forced ctx.network offer src dst) (hq : Queued s) (hn : n ≤ P.turn dst)
    (hs : s.labels = P.labels src n) :
    ∃ u, r.ending = .finished u ∧
      (fun x => u.prev.get x) = (P.labels src (P.turn dst)).pred := by
  induction hr generalizing n with
  | @drained k s empty =>
    obtain ⟨v, hv⟩ := h.onto n hn
    have hlabel : s.labels.label v = P.label v := hs ▸ h.labelled hv
    have hunsettled : v ∉ s.labels.settled := by
      rw [hs]
      exact not_lt.mpr hv.ge
    have hm := hq.covers v (by simpa [Search.labels] using hunsettled) _ hlabel
    rw [empty] at hm
    cases hm
  | skip pop seen rest ih => exact ih (pop.queued hq seen) hn (pop.labels.trans hs)
  | @finish k s t i pop unseen stop =>
    obtain rfl : i.node = dst := by simpa [stopAt] using stop
    obtain rfl : P.turn i.node = n := h.next hn (hs ▸ pop.next hq unseen)
    refine ⟨_, rfl, ?_⟩
    change t.labels.pred = _
    rw [pop.labels, hs]
  | @expand k k' s t i r pop unseen go rest ih =>
    have hne : i.node ≠ dst := by
      rintro rfl
      simp [stopAt] at go
    have hturn : P.turn i.node = n := h.next hn (hs ▸ pop.next hq unseen)
    have hlt : n < P.turn dst := by
      have : P.turn i.node ≠ P.turn dst := fun he => hne (h.injective he)
      omega
    have hdist : P.label i.node = i.dist := by
      have hlabel := pop.dist_eq hq unseen
      change s.labels.label i.node = _ at hlabel
      rw [hs, h.labelled hturn] at hlabel
      exact ENat.natCast_inj.mp hlabel
    have hstep := h.spreads hturn hlt
    rw [hdist, ← hs] at hstep
    exact ih (pop.queued_expand hq (hx _ _ _)) hlt ((pop.spreads (hx _ _ _)).unique hstep)

/-- So a search with rounded sums finds the way of its plan, and what it costs with
nothing rounded is added up along it. -/
theorem planned_found (h : P.Forced ctx.network (ctx.offersRounded round) src dst)
    {cost : g.NodeIndex → ℕ} (hstart : cost src = 0)
    (hcost : ∀ v, v ≠ src → cost v = cost (P.parent v) + ctx.network.weight (P.parent v) v) :
    ∃ p, foundRounded round ctx src dst = some p ∧ ctx.Admits src dst p ∧
      ctx.pathCost p = cost dst := by
  have hr := recordedRounded_runs round ctx src dst {}
  obtain ⟨u, hu, hpred⟩ := hr.planned expandRounded_relaxed h (start_queued src {})
    (Nat.zero_le _) (start_planned h {})
  obtain ⟨p, hp, hwalk, hn⟩ :=
    hr.finished_trail (expandRounded_relaxes round ctx) (start_spread ctx src {}) hu
  refine ⟨p, ?_, RouteContext.admits_iff.mpr hwalk, (h.cost_of_chain hstart hcost (hpred ▸ hp)).2⟩
  apply RouteContext.AnswersRounded.foundRounded_eq
  apply answersRounded_of_run
  change (shortestPath.recordedRounded round ctx src dst {}).ending.route src dst = _
  rw [hu, Ending.route, reconstruct_chain hp hn]
  rfl

end Planned

section Numbered
variable {systems : List System} {gateRows : List RawStargate}

/-- The map of some systems and gates. -/
def mapOf (systems : List System) (gateRows : List RawStargate) : GraphData :=
  buildGraphData
    { systems := systems
      gatePairs := (gateRows.foldl GatePass.addRow {}).pairs } 0

/-- Each system has its position for an id. -/
def Numbered (g : GraphData) : Prop :=
  ∀ v : g.NodeIndex, (g.systems.get v).id = v.val

theorem mapOf_systems : (mapOf systems gateRows).systems = systems := rfl

theorem Numbered.idToIdx (h : Numbered (mapOf systems gateRows)) {k : ℤ}
    {v : (mapOf systems gateRows).NodeIndex} :
    (mapOf systems gateRows).idToIdx k = some v ↔ k = v.val := by
  refine ((indexAligned _ 0).id_some k v).trans ?_
  constructor
  · intro hv
    exact hv.1.symm.trans (h v)
  · rintro rfl
    refine ⟨h v, fun u hu => Fin.le_def.mpr ?_⟩
    have hu := (h u).symm.trans hu
    omega

theorem Numbered.adjacent (h : Numbered (mapOf systems gateRows))
    {u v : (mapOf systems gateRows).NodeIndex} :
    (mapOf systems gateRows).gateGraph.containsEdge u v = true ↔
      ∃ row ∈ gateRows, row.Links u.val v.val := by
  have hexact : AdjacencyExact gateRows (mapOf systems gateRows) :=
    adjacencyExact (GatePass.pairsExact gateRows) { systems := systems, gatePairs := [] } 0
  rw [hexact.adjacent]
  simp only [h.idToIdx]
  constructor
  · rintro ⟨row, hrow, _, _, hlink, rfl, rfl⟩
    exact ⟨row, hrow, hlink⟩
  · intro ⟨row, hrow, hlink⟩
    exact ⟨row, hrow, _, _, hlink, rfl, rfl⟩

end Numbered

section Corridor

/-- Lowsec up to system 1678, highsec after it. -/
def corridorSystem (i : ℕ) : System :=
  sysAt (i, if i < 1679 then .lowsec else .highsec, i)

def corridorSystems : List System := (List.range 1683).map corridorSystem

def corridorRows : List RawStargate :=
  (List.range 1682).map (fun i => ⟨i, i + 1⟩) ++ [⟨1678, 1682⟩]

/-- Systems 0 to 1682 in a chain, with a gate from 1678 past the three after it. -/
def corridor : GraphData := mapOf corridorSystems corridorRows

/-- The gates of the corridor, between positions. -/
def Abuts (i j : ℕ) : Prop :=
  i + 1 = j ∨ j + 1 = i ∨ i = 1678 ∧ j = 1682 ∨ i = 1682 ∧ j = 1678

variable {u v : corridor.NodeIndex}

theorem corridor_systems : corridor.systems = (List.range 1683).map corridorSystem := by
  rw [corridor, mapOf_systems, corridorSystems]

theorem corridor_length : corridor.systems.length = 1683 := by
  rw [corridor_systems, List.length_map, List.length_range]

theorem corridor_lt (v : corridor.NodeIndex) : v.val < 1683 := by
  simpa only [corridor_length] using v.isLt

theorem corridor_get (v : corridor.NodeIndex) : corridor.systems.get v = corridorSystem v := by
  simp only [List.get_eq_getElem, corridor_systems, List.getElem_map, List.getElem_range]

theorem corridor_numbered : Numbered corridor := by
  intro v
  simp only [corridor_get, corridorSystem, sysAt]

theorem corridor_id {k : ℤ} : corridor.idToIdx k = some v ↔ k = v.val :=
  Numbered.idToIdx corridor_numbered

theorem corridor_gates : corridor.gateGraph.containsEdge u v = true ↔ Abuts u v := by
  have hu := corridor_lt u
  have hv := corridor_lt v
  refine (Numbered.adjacent corridor_numbered).trans ?_
  simp only [corridorRows, RawStargate.Links, Abuts, List.mem_append, List.mem_map, List.mem_range,
    List.mem_singleton, or_and_right, exists_or, exists_exists_and_eq_and, exists_eq_left]
  constructor
  · rintro (⟨i, hi, hlink⟩ | hlink)
    · omega
    · omega
  · rintro (h | h | h | h)
    · exact .inl ⟨u, by omega, by omega⟩
    · exact .inl ⟨v, by omega, by omega⟩
    · exact .inr (by omega)
    · exact .inr (by omega)

/-- The context of a safest search that nothing is asked of besides. -/
def corridorContext : RouteContext corridor := .new ∅ .safest

/-- What entering a system costs: the hop, and in lowsec the penalty. -/
def entryCost (i : ℕ) : ℕ := if i < 1679 then 10001 else 1

theorem corridor_entryPenalty (v : corridor.NodeIndex) :
    entryPenalty corridorContext v = if v.val < 1679 then 10000 else 0 := by
  rw [entryPenalty, corridor_get]
  by_cases hv : v.val < 1679
  · simp [corridorContext, RouteContext.new, RouteContext.securityPenalty, corridorSystem, sysAt, hv,
      SECURITY_PENALTY]
  · simp [corridorContext, RouteContext.new, RouteContext.securityPenalty, corridorSystem, sysAt, hv]

theorem corridor_weight (u v : corridor.NodeIndex) :
    corridorContext.network.weight u v = entryCost v := by
  change 1 + entryPenalty corridorContext v + 0 = _
  rw [corridor_entryPenalty, entryCost]
  split
  · rfl
  · rfl

theorem corridor_edge : corridorContext.network.edge u v ↔ Abuts u v := by
  change v ∈ corridorContext.neighbors u ↔ _
  rw [RouteContext.mem_neighbors]
  simp [RouteContext.Joined, RouteContext.hasGateEdge, corridor_gates, corridorContext,
    RouteContext.new, RouteContext.isOverlayEdge, RouteContext.overlayEdgeKind]

theorem corridor_offers (u : corridor.NodeIndex) (d : ℕ) (v : corridor.NodeIndex) :
    corridorContext.offersRounded roundF32 u d v = roundF32 (d + entryCost v) := by
  rw [RouteContext.offersRounded, RouteContext.edgeWeightRounded_eq roundF32_eq]
  exact congrArg (fun w => roundF32 (d + w)) (corridor_weight u v)

section Plans

def onwardParent (i : ℕ) : ℕ := if i = 1682 then 1678 else i - 1

theorem onwardParent_lt {i : ℕ} (h : i < 1683) : onwardParent i < 1683 := by
  unfold onwardParent
  split <;> omega

/-- From 1678 on, every sum comes out at the same `f32`. -/
def onwardLabel (i : ℕ) : ℕ := if i ≤ 1678 then 10001 * i else 16781680

/-- The search from 0 goes down the chain. -/
def onwardPlan : Plan corridor.NodeIndex where
  turn v := v.val
  parent v := ⟨onwardParent v, (onwardParent_lt (corridor_lt v)).trans_eq corridor_length.symm⟩
  label v := onwardLabel v

theorem onward_sum {i : ℕ} (hi : 0 < i) (hlt : i < 1683) :
    roundF32 (onwardLabel (onwardParent i) + entryCost i) = onwardLabel i := by
  by_cases hlow : i < 1678
  · have hsum : onwardLabel (onwardParent i) + entryCost i = onwardLabel i := by
      unfold onwardLabel onwardParent entryCost
      split_ifs <;> omega
    rw [hsum]
    apply roundF32_eq
    unfold onwardLabel
    split_ifs <;> omega
  · obtain rfl | rfl | rfl | rfl | rfl : i = 1678 ∨ i = 1679 ∨ i = 1680 ∨ i = 1681 ∨ i = 1682 := by
      omega
    all_goals decide +kernel

theorem onward_forced {a b : corridor.NodeIndex} (ha : a.val = 0) (hb : b.val = 1681) :
    onwardPlan.Forced corridorContext.network (corridorContext.offersRounded roundF32) a b where
  start := ⟨ha, by simp [onwardPlan, onwardLabel, ha]⟩
  injective _ _ h := Fin.ext h
  onto k hk := by
    have hk : k ≤ b.val := hk
    exact ⟨⟨k, by omega⟩, rfl⟩
  parent v hv := by
    have hlt := corridor_lt v
    have hpos : 0 < v.val := by
      have : v.val ≠ a.val := fun h => hv (Fin.ext h)
      omega
    have hparent : onwardParent v < v := by
      unfold onwardParent
      split <;> omega
    refine ⟨hparent, corridor_edge.mpr ?_, (corridor_offers _ _ v).trans (onward_sum hpos hlt)⟩
    change Abuts (onwardParent v) v
    unfold Abuts onwardParent
    split <;> omega
  first u v hedge hu huv := by
    have hlt := corridor_lt v
    have hu : u.val < b.val := hu
    have huv : u.val < v.val := huv
    have hparent : onwardParent v = u := by
      have hedge := corridor_edge.mp hedge
      unfold Abuts at hedge
      unfold onwardParent
      split <;> omega
    have hsum := onward_sum (by omega) hlt
    rw [hparent] at hsum
    refine ⟨hparent.le, ?_⟩
    rw [corridor_offers]
    exact hsum.ge
  least u v hu huv hparent := by
    have hlt := corridor_lt v
    have hu : u.val ≤ b.val := hu
    have huv : u.val < v.val := huv
    have hparent : onwardParent v < u := hparent
    rw [Prod.Lex.toLex_lt_toLex]
    refine .inr ⟨?_, huv⟩
    change onwardLabel u = onwardLabel v
    unfold onwardParent at hparent
    unfold onwardLabel
    split_ifs at hparent ⊢ <;> omega

def backTurn (i : ℕ) : ℕ :=
  if i ≤ 1678 then 1682 - i
  else if i = 1679 then 3 else if i = 1680 then 1 else if i = 1681 then 0 else 2

def backParent (i : ℕ) : ℕ := if i = 1678 then 1682 else if 1681 ≤ i then 1681 else i + 1

theorem backParent_lt {i : ℕ} (h : i < 1683) : backParent i < 1683 := by
  unfold backParent
  split_ifs <;> omega

/-- No sum is rounded before the last two. -/
def backLabel (i : ℕ) : ℕ :=
  if i = 1681 then 0 else if 1679 < i then 1 else if i = 1679 then 2
  else if 2 ≤ i then 10002 + 10001 * (1678 - i) else if i = 1 then 16781680 else 16791680

/-- The search from 1681 takes the gate to 1682 and on to 1678. -/
def backPlan : Plan corridor.NodeIndex where
  turn v := backTurn v
  parent v := ⟨backParent v, (backParent_lt (corridor_lt v)).trans_eq corridor_length.symm⟩
  label v := backLabel v

theorem back_sum {i : ℕ} (hi : i ≠ 1681) (hlt : i < 1683) :
    roundF32 (backLabel (backParent i) + entryCost i) = backLabel i := by
  by_cases hlow : 2 ≤ i
  · have hsum : backLabel (backParent i) + entryCost i = backLabel i := by
      unfold backLabel backParent entryCost
      split_ifs <;> omega
    rw [hsum]
    apply roundF32_eq
    unfold backLabel
    split_ifs <;> omega
  · obtain rfl | rfl : i = 0 ∨ i = 1 := by omega
    · decide +kernel
    · decide +kernel

theorem backTurn_injective {i j : ℕ} (hi : i < 1683) (hj : j < 1683)
    (h : backTurn i = backTurn j) : i = j := by
  unfold backTurn at h
  split_ifs at h <;> omega

theorem backTurn_onto {k : ℕ} (hk : k ≤ 1682) : ∃ i < 1683, backTurn i = k := by
  obtain hk | rfl | rfl | rfl | rfl : 4 ≤ k ∨ k = 0 ∨ k = 1 ∨ k = 2 ∨ k = 3 := by omega
  · refine ⟨1682 - k, by omega, ?_⟩
    rw [backTurn, if_pos (by omega)]
    omega
  · exact ⟨1681, by omega, rfl⟩
  · exact ⟨1680, by omega, rfl⟩
  · exact ⟨1682, by omega, rfl⟩
  · exact ⟨1679, by omega, rfl⟩

theorem backParent_turn {i : ℕ} (hi : i ≠ 1681) (hlt : i < 1683) :
    backTurn (backParent i) < backTurn i := by
  unfold backTurn backParent
  split_ifs <;> omega

/-- Only 1678 is reached again, from 1679 and at a higher sum. -/
theorem back_first {i j : ℕ} (h : Abuts i j) (hi : i < 1683) (hj : j < 1683)
    (hij : backTurn i < backTurn j) : backParent j = i ∨ i = 1679 ∧ j = 1678 := by
  unfold Abuts at h
  unfold backTurn at hij
  unfold backParent
  split_ifs at hij ⊢ <;> omega

/-- Two nodes are on the heap at once only around the fork. -/
theorem back_least {i j : ℕ} (hi : i < 1683) (hj : j < 1683) (hij : backTurn i < backTurn j)
    (hearly : backTurn (backParent j) < backTurn i) :
    backLabel i < backLabel j ∨ backLabel i = backLabel j ∧ i < j := by
  have hturn : ∀ k < 1683, backTurn i = backTurn k → i = k := fun k hk => backTurn_injective hi hk
  by_cases hlow : j < 1678
  · have hparent : backParent j = j + 1 := by
      unfold backParent
      split_ifs <;> omega
    rw [hparent, backTurn, if_pos (by omega)] at hearly
    rw [backTurn.eq_1 j, if_pos (by omega)] at hij
    omega
  · obtain rfl | rfl | rfl | rfl | rfl :
        j = 1678 ∨ j = 1679 ∨ j = 1680 ∨ j = 1681 ∨ j = 1682 := by omega
    · change backTurn i < 4 at hij
      change 2 < backTurn i at hearly
      obtain rfl := hturn 1679 (by omega) (by change _ = 3; omega)
      decide
    · change backTurn i < 3 at hij
      change 1 < backTurn i at hearly
      obtain rfl := hturn 1682 (by omega) (by change _ = 2; omega)
      decide
    · change backTurn i < 1 at hij
      change 0 < backTurn i at hearly
      omega
    · exact absurd (hearly.trans hij) (by decide)
    · change backTurn i < 2 at hij
      change 0 < backTurn i at hearly
      obtain rfl := hturn 1680 (by omega) (by change _ = 1; omega)
      decide

theorem back_forced {a b : corridor.NodeIndex} (ha : a.val = 1681) (hb : b.val = 0) :
    backPlan.Forced corridorContext.network (corridorContext.offersRounded roundF32) a b where
  start := by
    constructor
    · change backTurn a = 0
      rw [ha]
      rfl
    · change backLabel a = 0
      rw [ha]
      rfl
  injective u v h := Fin.ext (backTurn_injective (corridor_lt u) (corridor_lt v) h)
  onto k hk := by
    have hk : k ≤ backTurn b := hk
    rw [hb] at hk
    obtain ⟨i, hi, hturn⟩ := backTurn_onto hk
    exact ⟨⟨i, hi.trans_eq corridor_length.symm⟩, hturn⟩
  parent v hv := by
    have hlt := corridor_lt v
    have hne : v.val ≠ 1681 := fun h => hv (Fin.ext (h.trans ha.symm))
    refine ⟨backParent_turn hne hlt, corridor_edge.mpr ?_,
      (corridor_offers _ _ v).trans (back_sum hne hlt)⟩
    change Abuts (backParent v) v
    unfold Abuts backParent
    split_ifs <;> omega
  first u v hedge hu huv := by
    have hlt := corridor_lt v
    rw [corridor_offers]
    rcases back_first (corridor_edge.mp hedge) (corridor_lt u) hlt huv with hparent | ⟨hu, hv⟩
    · have hne : v.val ≠ 1681 := by
        intro h
        have huv : backTurn u < backTurn v := huv
        rw [h] at huv
        exact absurd huv (Nat.not_lt_zero _)
      have hsum := back_sum hne hlt
      rw [hparent] at hsum
      exact ⟨(congrArg backTurn hparent).le, hsum.ge⟩
    · change backTurn (backParent v) ≤ backTurn u ∧ backLabel v ≤ roundF32 (backLabel u + _)
      rw [hu, hv]
      decide +kernel
  least u v hu huv hparent := by
    rw [Prod.Lex.toLex_lt_toLex]
    exact back_least (corridor_lt u) (corridor_lt v) huv hparent

/-- What the way from 0 costs, with nothing rounded. -/
def onwardCost (i : ℕ) : ℕ :=
  if i ≤ 1678 then 10001 * i else if i = 1682 then 16781679 else 16781678 + (i - 1678)

def backCost (i : ℕ) : ℕ :=
  if i = 1681 then 0 else if 1679 < i then 1 else if i = 1679 then 2
  else 10002 + 10001 * (1678 - i)

/-- The search from 0 misses the gate to 1682, which saves a hop. -/
theorem onward_found {a b : corridor.NodeIndex} (ha : a.val = 0) (hb : b.val = 1681) :
    ∃ p, foundRounded roundF32 corridorContext a b = some p ∧
      corridorContext.Admits a b p ∧ corridorContext.pathCost p = 16781681 := by
  have hend : onwardCost b = 16781681 := by
    rw [hb]
    rfl
  rw [← hend]
  apply planned_found (onward_forced ha hb)
  · rw [ha]
    rfl
  · intro v hv
    have hne : v.val ≠ a.val := fun h => hv (Fin.ext h)
    have hlt := corridor_lt v
    rw [corridor_weight]
    change onwardCost v = onwardCost (onwardParent v) + entryCost v
    unfold onwardCost onwardParent entryCost
    split_ifs <;> omega

theorem back_found {a b : corridor.NodeIndex} (ha : a.val = 1681) (hb : b.val = 0) :
    ∃ p, foundRounded roundF32 corridorContext a b = some p ∧
      corridorContext.Admits a b p ∧ corridorContext.pathCost p = 16791680 := by
  have hend : backCost b = 16791680 := by
    rw [hb]
    rfl
  rw [← hend]
  apply planned_found (back_forced ha hb)
  · rw [ha]
    rfl
  · intro v hv
    have hne : v.val ≠ a.val := fun h => hv (Fin.ext h)
    have hlt := corridor_lt v
    rw [corridor_weight]
    change backCost v = backCost (backParent v) + entryCost v
    unfold backCost backParent entryCost
    split_ifs <;> omega

end Plans

section Request

/-- A safest route between two systems of the corridor. -/
def corridorRequest (i j : ℕ) : GateRouteRequest where
  src := .id i
  dst := [.id j]
  preference := .safest
  includeZarzakh := true

variable {i j : ℕ} {x y : corridor.NodeIndex} {p : Path corridor} {now : Instant}

theorem corridor_resolves (hx : x.val = i) : resolveSystem corridor (.id i) = .ok x :=
  resolveSystem_id.mpr (corridor_id.mpr (congrArg _ hx.symm))

theorem corridor_header (hx : x.val = i) :
    resolveHeader corridor (corridorRequest i j) = .ok ⟨x, ∅, []⟩ := by
  refine resolveHeader_ok_iff.mpr ⟨by simp [corridorRequest], by simp [corridorRequest,
    MAX_DESTINATIONS], corridor_resolves hx, ⟨∅, rfl, by simp⟩, rfl⟩

theorem corridor_slotContext :
    slotContext {} (corridorRequest i j) ⟨x, ∅, []⟩ y now = corridorContext := by
  simp [slotContext, destinationContext, scoutOverlay, addScoutEdges, addOverlayConnections,
    corridorRequest, corridorContext, RoutePreference.toPreference]

theorem corridor_answers (hx : x.val = i) (hy : y.val = j)
    (hp : foundRounded roundF32 corridorContext x y = some p) (m : Machine) :
    ∃ left, computeGateRoute.rounded roundF32 corridor {} (corridorRequest i j) m =
      .ok (.ok ⟨.id i, [⟨.id j, .route (p.length - 1) (buildSteps corridorContext p)⟩]⟩, left) := by
  obtain ⟨left, hrun⟩ := computeGateRoute_rounded_gives roundF32 {} (corridor_header hx) m
  have hslot : outcomeBy (foundRounded roundF32) {} (corridorRequest i j) ⟨x, ∅, []⟩ (.id j)
      (slotInstant corridor (corridorRequest i j) m 0) =
      .route (p.length - 1) (buildSteps corridorContext p) :=
    (outcomeBy_eq_route rfl (corridor_resolves hy) corridor_slotContext).mpr ⟨p, hp, rfl, rfl⟩
  refine ⟨left, ?_⟩
  rw [hrun, ← hslot]
  rfl

/-- With `f32` sums, the safest ways between 0 and 1681 do not differ by the penalties
of their ends: one of them goes round by the chain. -/
theorem corridor_reversed :
    ∃ (x y : corridor.NodeIndex) (header : RouteHeader corridor) (ctx : RouteContext corridor)
      (p q : Path corridor) (left left' : Machine),
      x ≠ y ∧ ¬ HeaderDefect corridor (corridorRequest 0 1681) ∧
      ¬ HeaderDefect corridor (corridorRequest 1681 0) ∧
      Reverses corridor (corridorRequest 0 1681) (corridorRequest 1681 0) 0 0 x y ∧
      resolveHeader corridor (corridorRequest 0 1681) = .ok header ∧
      slotContext {} (corridorRequest 0 1681) header y 0 = ctx ∧ ctx.preference = .safest ∧
      computeGateRoute.rounded roundF32 corridor {} (corridorRequest 0 1681)
        { clock := fun _ => 0 } = .ok (.ok ⟨.id 0,
          [⟨.id 1681, .route (p.length - 1) (buildSteps ctx p)⟩]⟩, left) ∧
      computeGateRoute.rounded roundF32 corridor {} (corridorRequest 1681 0)
        { clock := fun _ => 0 } = .ok (.ok ⟨.id 1681,
          [⟨.id 0, .route (q.length - 1) (buildSteps ctx q)⟩]⟩, left') ∧
      ctx.Admits x y p ∧ ctx.Admits y x q ∧
      ctx.pathCost p = 16781681 ∧ ctx.pathCost q = 16791680 ∧
      ctx.pathCost p + entryPenalty ctx x ≠ ctx.pathCost q + entryPenalty ctx y := by
  have hlen := corridor_length
  let x : corridor.NodeIndex := ⟨0, by omega⟩
  let y : corridor.NodeIndex := ⟨1681, by omega⟩
  obtain ⟨p, hp, hadmits, hcost⟩ := onward_found (a := x) (b := y) rfl rfl
  obtain ⟨q, hq, hadmits', hcost'⟩ := back_found (a := y) (b := x) rfl rfl
  obtain ⟨left, hrun⟩ := corridor_answers (i := 0) (j := 1681) rfl rfl hp { clock := fun _ => 0 }
  obtain ⟨left', hrun'⟩ := corridor_answers (i := 1681) (j := 0) rfl rfl hq { clock := fun _ => 0 }
  have hx : resolveSystem corridor (.id 0) = .ok x := corridor_resolves (i := 0) rfl
  have hy : resolveSystem corridor (.id 1681) = .ok y := corridor_resolves (i := 1681) rfl
  have hh := corridor_header (i := 0) (j := 1681) (x := x) rfl
  have hh' := corridor_header (i := 1681) (j := 0) (x := y) rfl
  refine ⟨x, y, _, corridorContext, p, q, left, left', ?_, resolveHeader_valid.mp ⟨_, hh⟩,
    resolveHeader_valid.mp ⟨_, hh'⟩, ⟨rfl, hx, ⟨_, rfl, hy⟩, hy, ⟨_, rfl, hx⟩⟩, hh,
    corridor_slotContext, rfl, hrun, hrun', hadmits, hadmits', hcost, hcost', ?_⟩
  · have hne : 0 ≠ 1681 := by decide
    exact fun h => hne (congrArg Fin.val h)
  · rw [hcost, hcost', corridor_entryPenalty, corridor_entryPenalty]
    simp [x, y]

end Request

end Corridor

end Palu
