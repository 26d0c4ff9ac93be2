import Palu.Proofs.Staging

namespace Palu

open Paths Collections

variable {g : GraphData} {within : WithinUnsorted g} {scout : EveScoutSnapshot}
  {query : StagingQuery} {destOk stageOk : System → Bool} {onDestReject : System → AppError}
  {now : Instant} {m left : Machine} {response : BlopsRouteResponse}

def Preference.toRoutePreference : Preference → RoutePreference
  | .shortest => .shortest
  | .safest => .safest
  | .preferGates => .preferGates

@[simp] theorem toPreference_toRoutePreference (p : Preference) :
    p.toRoutePreference.toPreference = p := by
  cases p <;> rfl

/-- The system-route request for the gate leg of a query. -/
def StagingQuery.legRequest (query : StagingQuery) (star : SystemRef) : GateRouteRequest where
  src := query.src
  dst := [star]
  preference := query.preference.toRoutePreference
  avoid := query.overlay.avoid
  useWormholes := query.overlay.useWormholes
  useBridges := query.overlay.useBridges
  connections := query.overlay.connections
  includeThera := query.overlay.includeThera
  includeTurnur := query.overlay.includeTurnur
  includeZarzakh := query.overlay.includeZarzakh

/-- The hub is the fleet's own system, or neither the target nor the star. -/
def HubApart (g : GraphData) (hub : ℤ) (src dst star : g.NodeIndex) : Prop :=
  ∀ v, g.idToIdx hub = some v → v = src ∨ v ≠ dst ∧ v ≠ star

/-- Each hub is opted in or apart from the target and the star. -/
structure HubsApart (g : GraphData) (inputs : OverlayInputs) (src dst star : g.NodeIndex) :
    Prop where
  thera : inputs.includeThera = true ∨ HubApart g THERA_SYSTEM_ID src dst star
  turnur : inputs.includeTurnur = true ∨ HubApart g TURNUR_SYSTEM_ID src dst star

theorem HubApart.isEndpoint_eq {hub : ℤ} {src dst star : g.NodeIndex}
    (h : HubApart g hub src dst star) :
    isEndpoint g [src, dst] hub = isEndpoint g [src, star] hub := by
  unfold isEndpoint
  cases hv : g.idToIdx hub with
  | none => rfl
  | some v =>
    rcases h v hv with rfl | ⟨hdst, hstar⟩
    · simp
    · simp [hdst, hstar]

/-- With the hubs apart, the two endpoint lists admit the same signatures. -/
theorem HubsApart.scoutOverlay_eq {inputs : OverlayInputs} {src dst star : g.NodeIndex}
    (h : HubsApart g inputs src dst star) (ctx : RouteContext g) :
    scoutOverlay scout inputs [src, dst] now ctx =
      scoutOverlay scout inputs [src, star] now ctx := by
  have hthera : (inputs.includeThera || isEndpoint g [src, dst] THERA_SYSTEM_ID) =
      (inputs.includeThera || isEndpoint g [src, star] THERA_SYSTEM_ID) := by
    rcases h.thera with hf | ha
    · simp [hf]
    · rw [ha.isEndpoint_eq]
  have hturnur : (inputs.includeTurnur || isEndpoint g [src, dst] TURNUR_SYSTEM_ID) =
      (inputs.includeTurnur || isEndpoint g [src, star] TURNUR_SYSTEM_ID) := by
    rcases h.turnur with hf | ha
    · simp [hf]
    · rw [ha.isEndpoint_eq]
  unfold scoutOverlay
  rw [hthera, hturnur]

/-- A system that a search enters is not avoided. -/
theorem notMem_avoid_of_best {ctx : RouteContext g} {src star : g.NodeIndex} {p : Path g}
    (h : best ctx.network src star = some p) (hne : star ≠ src) : star ∉ ctx.avoid := by
  have hroute := (cheapestRoute_of_canonical (best_eq_some.mp h)).admits
  apply hroute.clear star
  obtain ⟨t, rfl⟩ := List.head?_eq_some_iff.mp hroute.head
  have hm := List.mem_of_getLast? hroute.last
  exact (List.mem_cons.mp hm).resolve_left hne

theorem stagingContext_frame (scout : EveScoutSnapshot) (query : StagingQuery)
    (header : StagingHeader g) (now : Instant) :
    SameFrame (stagingContext scout query header now)
      (.new (header.avoid.erase header.src) query.preference) :=
  (scoutOverlay_frame _ _).trans (addOverlayConnections_frame _ _)

/-- The leg is searched for in the context of the route to the star. -/
theorem stagingContext_eq {header : StagingHeader g} {star : g.NodeIndex} {p : Path g}
    (hb : best (stagingContext scout query header now).network header.src star = some p)
    (h : HubsApart g query.overlay header.src header.dst star) :
    stagingContext scout query header now =
      destinationContext scout query.overlay query.preference
        ⟨header.src, header.avoid.erase header.src, header.connections⟩ star now := by
  have hclear : star ∉ header.avoid.erase header.src := by
    by_cases he : star = header.src
    · rw [he]
      exact Finset.notMem_erase _ _
    · have := notMem_avoid_of_best hb he
      rwa [(stagingContext_frame scout query header now).avoid] at this
  unfold stagingContext destinationContext
  rw [Finset.erase_eq_of_notMem hclear, h.scoutOverlay_eq]

/-- A leg that is found is the head of its ranking. -/
theorem stageFrom_ok {src dst : g.NodeIndex} {candidates : List g.NodeIndex}
    (hsrc : resolveSystem g query.src = .ok src) (hdst : resolveSystem g query.dst = .ok dst)
    (h : stageFrom scout query src dst candidates m = .ok (.ok response, left)) :
    ∃ (header : StagingHeader g) (head : SettledTarget g) (rest : List (SettledTarget g)),
      header.Resolves query ∧
      best (stagingContext scout query header (m.clock m.reads)).network header.src head.node =
        some head.path ∧ head.jumps = head.path.length - 1 ∧
      response = stagingResponse (stagingContext scout query header (m.clock m.reads))
        header.dst query.effectiveLy head rest := by
  by_cases hbad : BadReference g query.overlay
  · obtain ⟨s, hs⟩ := stageFrom_validates scout src dst hbad candidates m
    rw [hs] at h
    cases h
  · obtain ⟨havoid, hconns⟩ := not_badReference.mp hbad
    obtain ⟨avoid, havoid⟩ := assembleAvoidSet_ok.mpr havoid
    obtain ⟨conns, hconns⟩ := resolveConnections_ok.mpr hconns
    have hh : StagingHeader.Resolves ⟨src, dst, avoid, conns⟩ query :=
      ⟨hsrc, hdst, havoid, hconns⟩
    obtain ⟨_, hleg⟩ := stageFrom_gives scout hh candidates m
    rw [hleg] at h
    have hrank := congrArg Prod.fst (Except.ok.inj h)
    dsimp only [rankStaging] at hrank
    split at hrank
    · cases hrank
    · rename_i head rest hsort
      have hm : head ∈ settledTargets _ _ _ :=
        (sortBy_perm _ _).mem_iff.mp (hsort ▸ List.mem_cons_self)
      obtain ⟨_, hb, hj⟩ := mem_settledTargets.mp hm
      exact ⟨_, head, rest, hh, hb, hj, (Except.ok.inj hrank).symm⟩

/-- What a successful staging run has gone through. -/
theorem computeStaging_ok
    (h : computeStaging within scout query destOk stageOk onDestReject m =
      .ok (.ok response, left)) :
    ∃ (header : StagingHeader g) (head : SettledTarget g) (rest : List (SettledTarget g)),
      header.Resolves query ∧
      best (stagingContext scout query header (m.clock m.reads)).network header.src head.node =
        some head.path ∧ head.jumps = head.path.length - 1 ∧
      response = stagingResponse (stagingContext scout query header (m.clock m.reads))
        header.dst query.effectiveLy head rest := by
  unfold computeStaging at h
  cases hsrc : resolveSystem g query.src with
  | error e =>
    rw [hsrc] at h
    cases h
  | ok src =>
    cases hdst : resolveSystem g query.dst with
    | error e =>
      rw [hsrc, hdst] at h
      cases h
    | ok dst =>
      rw [hsrc, hdst] at h
      dsimp only at h
      split at h
      · split at h
        · cases h
        · exact stageFrom_ok hsrc hdst h
      · cases h

/-- The snapshot matters to a staging run through its overlay only. -/
theorem computeStaging_congr {scout' : EveScoutSnapshot} {src dst : g.NodeIndex}
    (hsrc : resolveSystem g query.src = .ok src) (hdst : resolveSystem g query.dst = .ok dst)
    (h : ∀ now ctx, scoutOverlay scout' query.overlay [src, dst] now ctx =
      scoutOverlay scout query.overlay [src, dst] now ctx) :
    computeStaging within scout' query destOk stageOk onDestReject =
      computeStaging within scout query destOk stageOk onDestReject := by
  unfold computeStaging
  simp only [hsrc, hdst, stageFrom, applyOverlay, applyScoutOverlay, h]

theorem isEndpoint_eq_false {hub : ℤ} {src dst : g.NodeIndex}
    (h : ∀ v, g.idToIdx hub = some v → v ≠ src ∧ v ≠ dst) :
    isEndpoint g [src, dst] hub = false := by
  unfold isEndpoint
  cases hv : g.idToIdx hub with
  | none => rfl
  | some v => simpa using h v hv

/-- A hub that is neither opted in nor an endpoint adds no signature. -/
theorem scoutOverlay_ignores_thera {inputs : OverlayInputs} {endpoints : List g.NodeIndex}
    (hflag : inputs.includeThera = false) (hhub : isEndpoint g endpoints THERA_SYSTEM_ID = false)
    (sigs : List Signature) (ctx : RouteContext g) :
    scoutOverlay { scout with thera := sigs } inputs endpoints now ctx =
      scoutOverlay scout inputs endpoints now ctx := by
  simp [scoutOverlay, hflag, hhub]

theorem scoutOverlay_ignores_turnur {inputs : OverlayInputs} {endpoints : List g.NodeIndex}
    (hflag : inputs.includeTurnur = false)
    (hhub : isEndpoint g endpoints TURNUR_SYSTEM_ID = false)
    (sigs : List Signature) (ctx : RouteContext g) :
    scoutOverlay { scout with turnur := sigs } inputs endpoints now ctx =
      scoutOverlay scout inputs endpoints now ctx := by
  simp [scoutOverlay, hflag, hhub]

/-- With the hubs apart, the system route to the star is the leg itself. -/
theorem leg_yields {header : StagingHeader g} {head : SettledTarget g}
    (hh : header.Resolves query)
    (hb : best (stagingContext scout query header now).network header.src head.node =
      some head.path) (hj : head.jumps = head.path.length - 1)
    (hapart : HubsApart g query.overlay header.src header.dst head.node) {star : SystemRef}
    (hstar : resolveSystem g star = .ok head.node) :
    Yields (computeGateRoute g scout (query.legRequest star)) now (.ok ⟨query.src,
      [⟨star, .route head.jumps
        (buildSteps (stagingContext scout query header now) head.path)⟩]⟩) := by
  have hheader : resolveHeader g (query.legRequest star) =
      .ok ⟨header.src, header.avoid.erase header.src, header.connections⟩ :=
    resolveHeader_ok_iff.mpr ⟨by simp [StagingQuery.legRequest], by
      simp [StagingQuery.legRequest, MAX_DESTINATIONS], hh.src, ⟨header.avoid, hh.avoid, rfl⟩,
      hh.connections⟩
  have hctx : destinationContext scout (query.legRequest star).overlay
      (query.legRequest star).preference.toPreference
      ⟨header.src, header.avoid.erase header.src, header.connections⟩ head.node now =
        stagingContext scout query header now := by
    rw [stagingContext_eq hb hapart, StagingQuery.legRequest, toPreference_toRoutePreference]
    rfl
  have hrun := computeGateRoute_yields hheader scout now
  have hslot := destinationOutcome_of_best hctx hstar hb
  simp only [StagingQuery.legRequest, List.map_cons, List.map_nil, destinationResult] at hrun hslot
  rwa [hslot, ← hj] at hrun

/-- The gate leg of a staging answer is the system route to its star, provided
each hub is opted in or apart from the target and the star. A hub that is not
opted in, and is neither end of the query, plays no part in the leg. -/
theorem staging_leg_agrees (g : GraphData) (within : WithinUnsorted g)
    (scout : EveScoutSnapshot) (query : StagingQuery) (destOk stageOk : System → Bool)
    (onDestReject : System → AppError) (now : Instant) (m left : Machine)
    (response : BlopsRouteResponse) (hclock : m.clock = fun _ => now)
    (hrun : computeStaging within scout query destOk stageOk onDestReject m =
      .ok (.ok response, left)) :
    ∃ src dst star, resolveSystem g query.src = .ok src ∧
      resolveSystem g query.dst = .ok dst ∧
      ShowsSystem (g.systems.get star) response.chosen.bridge.src ∧
      (HubsApart g query.overlay src dst star → ∀ r, resolveSystem g r = .ok star →
        Yields (computeGateRoute g scout (query.legRequest r)) now (.ok ⟨query.src,
          [⟨r, .route response.chosen.gateJumps response.chosen.gatePath⟩]⟩)) ∧
      (query.overlay.includeThera = false →
        (∀ v, g.idToIdx THERA_SYSTEM_ID = some v → v ≠ src ∧ v ≠ dst) → ∀ sigs,
        computeStaging within { scout with thera := sigs } query destOk stageOk onDestReject m =
          .ok (.ok response, left)) ∧
      (query.overlay.includeTurnur = false →
        (∀ v, g.idToIdx TURNUR_SYSTEM_ID = some v → v ≠ src ∧ v ≠ dst) → ∀ sigs,
        computeStaging within { scout with turnur := sigs } query destOk stageOk onDestReject m =
          .ok (.ok response, left)) := by
  obtain ⟨header, head, rest, hh, hb, hj, rfl⟩ := computeStaging_ok hrun
  refine ⟨header.src, header.dst, head.node, hh.src, hh.dst, shows_blopsSystem _, ?_, ?_, ?_⟩
  · intro hapart r hr
    rw [hclock] at hb ⊢
    exact leg_yields hh hb hj hapart hr
  · intro hflag hhub sigs
    rw [← hrun, computeStaging_congr hh.src hh.dst]
    intro now ctx
    exact scoutOverlay_ignores_thera hflag (isEndpoint_eq_false hhub) sigs ctx
  · intro hflag hhub sigs
    rw [← hrun, computeStaging_congr hh.src hh.dst]
    intro now ctx
    exact scoutOverlay_ignores_turnur hflag (isEndpoint_eq_false hhub) sigs ctx

/-- A signature from Turnur to the first system. -/
def turnurScout : EveScoutSnapshot where
  turnur := [⟨TURNUR_SYSTEM_ID, 1, "S1", none, 1⟩]

theorem staging_leg_agrees_turnur :
    ∃ response left, computeStaging (g := turnurStaging) scan turnurScout
        { turnurQuery 8 with overlay := { includeThera := true, includeTurnur := true } }
        (fun _ => true) (fun _ => true) (fun _ => .unreachable) { clock := fun _ => 0 } =
          .ok (.ok response, left) ∧
      Yields (computeGateRoute turnurStaging turnurScout
        (StagingQuery.legRequest
          { turnurQuery 8 with overlay := { includeThera := true, includeTurnur := true } }
          (.id response.chosen.bridge.src.systemId))) 0
        (.ok ⟨.id 1, [⟨.id response.chosen.bridge.src.systemId,
          .route response.chosen.gateJumps response.chosen.gatePath⟩]⟩) := by
  have hrun : (computeStaging (g := turnurStaging) scan turnurScout
      { turnurQuery 8 with overlay := { includeThera := true, includeTurnur := true } }
      (fun _ => true) (fun _ => true) (fun _ => .unreachable) { clock := fun _ => 0 }).map
        (fun r => r.1.toBool) = .ok true := by decide +kernel
  obtain ⟨⟨result, left⟩, hr, hok⟩ := map_ok.mp hrun
  cases result with
  | error e => cases hok
  | ok response =>
    obtain ⟨src, dst, star, _, _, hbridge, hagree, _⟩ :=
      staging_leg_agrees turnurStaging scan turnurScout _ _ _ _ 0 _ left response rfl hr
    have hids : ∀ v : turnurStaging.NodeIndex,
        resolveSystem turnurStaging (.id (turnurStaging.systems.get v).id) = .ok v := by
      decide +kernel
    refine ⟨response, left, hr, hagree ⟨.inl rfl, .inl rfl⟩ _ ?_⟩
    rw [hbridge.systemId]
    exact hids star

/-- Turnur as the target, in range of the system four gates from the first. -/
def turnurTarget : GraphData :=
  gateChain [(1, .lowsec, 0), (2, .lowsec, 100), (3, .lowsec, 200), (4, .lowsec, 300),
    (TURNUR_SYSTEM_ID, .lowsec, 305)]

/-- Jumps to the star, and its id. -/
def BlopsRouteResponse.star (response : BlopsRouteResponse) : ℕ × ℤ :=
  (response.chosen.gateJumps, response.chosen.bridge.src.systemId)

def GateRouteResponse.jumps (response : GateRouteResponse) : List (Option ℕ) :=
  response.results.map fun slot => match slot.outcome with
    | .route jumps _ => some jumps
    | .failure _ _ => none

/-- With a hub as the star the leg misses its signatures, which the system route
takes; with a hub as the target the leg takes them as a shortcut. -/
theorem staging_leg_differs :
    ((computeStaging (g := turnurStaging) scan turnurScout (turnurQuery 8) (fun _ => true)
        (fun _ => true) (fun _ => .unreachable) { clock := fun _ => 0 }).map
        (fun r => r.1.map BlopsRouteResponse.star) = .ok (.ok (2, TURNUR_SYSTEM_ID)) ∧
      (computeGateRoute turnurStaging turnurScout
        ((turnurQuery 8).legRequest (.id TURNUR_SYSTEM_ID)) { clock := fun _ => 0 }).map
        (fun r => r.1.map GateRouteResponse.jumps) = .ok (.ok [some 1])) ∧
    (computeStaging (g := turnurTarget) scan turnurScout
        { turnurQuery 8 with dst := .id TURNUR_SYSTEM_ID } (fun _ => true) (fun _ => true)
        (fun _ => .unreachable) { clock := fun _ => 0 }).map
        (fun r => r.1.map BlopsRouteResponse.star) = .ok (.ok (2, 4)) ∧
      (computeGateRoute turnurTarget turnurScout
        (StagingQuery.legRequest { turnurQuery 8 with dst := .id TURNUR_SYSTEM_ID } (.id 4))
        { clock := fun _ => 0 }).map
        (fun r => r.1.map GateRouteResponse.jumps) = .ok (.ok [some 3]) := by
  decide +kernel

end Palu
