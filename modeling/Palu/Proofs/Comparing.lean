import Palu.Proofs.Certificates
import Palu.Paths.Compare

namespace Palu

open Paths Collections

variable {g : GraphData} {ctx ctx' : RouteContext g} {scout scout' : EveScoutSnapshot}
  {req req' : GateRouteRequest} {header header' : RouteHeader g} {now : Instant}
  {src dst x y a b : g.NodeIndex} {p q : Path g}

/-- Which systems the overlay of a slot joins. -/
theorem slotContext_isOverlayEdge (hh : resolveHeader g req = .ok header) :
    (slotContext scout req header dst now).isOverlayEdge a b = true ↔ a ≠ b ∧
      ((∃ kind, req.overlay.uses (edgeKind kind) = true ∧
          ConnectionJoins g req.overlay kind a b) ∨
        ScoutJoins scout req.overlay [header.src, dst] now a b) := by
  obtain ⟨hc, hctx⟩ := slotContext_exact scout hh dst now
  rw [RouteContext.isOverlayEdge, hctx.kind, overlay_isSome_iff hc]

theorem mem_slotContext_avoid (hh : resolveHeader g req = .ok header) :
    a ∈ (slotContext scout req header dst now).avoid ↔
      a ∈ excluded g req.overlay ∧ a ≠ header.src ∧ a ≠ dst :=
  (destinationContext_exempts hh _ dst now).avoid a

theorem slotContext_preference : (slotContext scout req header dst now).preference =
    req.preference.toPreference :=
  (destinationContext_frame _ _ _ _ _ _).preference

theorem resolveHeader_src (hh : resolveHeader g req = .ok header) :
    resolveSystem g req.src = .ok header.src :=
  (resolveHeader_ok_iff.mp hh).2.2.1

theorem header_src_eq (hh : resolveHeader g req = .ok header) {x : g.NodeIndex}
    (hx : resolveSystem g req.src = .ok x) : header.src = x :=
  Except.ok.inj ((resolveHeader_src hh).symm.trans hx)

section Same
variable {g' : GraphData}

/-- The same map for routing: the same systems and preference, and on node
numbers the same avoided ones, gates and overlay pairs. In what order, which
way round or how often these were recorded is left open. -/
structure SameRoads (ctx : RouteContext g) (ctx' : RouteContext g') : Prop where
  systems : g'.systems = g.systems
  preference : ctx'.preference = ctx.preference
  avoid : ∀ (v : g.NodeIndex) (v' : g'.NodeIndex), (v : ℕ) = v' →
    (v ∈ ctx.avoid ↔ v' ∈ ctx'.avoid)
  gates : ∀ (a b : g.NodeIndex) (a' b' : g'.NodeIndex), (a : ℕ) = a' → (b : ℕ) = b' →
    ctx.hasGateEdge a b = ctx'.hasGateEdge a' b'
  overlay : ∀ (a b : g.NodeIndex) (a' b' : g'.NodeIndex), (a : ℕ) = a' → (b : ℕ) = b' →
    ctx.isOverlayEdge a b = ctx'.isOverlayEdge a' b'

/-- What a search answers, as the numbers of the nodes. -/
def nodeNumbers (found : Option (Path g)) : Option (List ℕ) := found.map (List.map Fin.val)

theorem nodeNumbers_injective : Function.Injective (nodeNumbers (g := g)) :=
  Option.map_injective (List.map_injective_iff.mpr Fin.val_injective)

/-- The network searched depends on the roads alone, so its one canonical path
does too. -/
theorem SameRoads.best {ctx' : RouteContext g'} (h : SameRoads ctx ctx')
    {src' dst' : g'.NodeIndex} (hsrc : (src : ℕ) = src') (hdst : (dst : ℕ) = dst') :
    nodeNumbers (best ctx.network src dst) = nodeNumbers (Paths.best ctx'.network src' dst') := by
  obtain ⟨hsystems, hpref, havoid, hgates, hoverlay⟩ := h
  obtain ⟨systems', _, _, _, _, _, _, _, _⟩ := g'
  dsimp only at hsystems
  subst hsystems
  obtain rfl := Fin.val_injective hsrc
  obtain rfl := Fin.val_injective hdst
  have hnetwork : ctx.network = ctx'.network := by
    apply Network.eq_of
    · intro u v
      change v ∈ ctx.neighbors u ↔ v ∈ ctx'.neighbors u
      rw [RouteContext.mem_neighbors, RouteContext.mem_neighbors, RouteContext.Joined,
        RouteContext.Joined, hgates u v u v rfl rfl, hoverlay u v u v rfl rfl, havoid v v rfl]
    · intro u v
      change ctx.edgeWeight u v = ctx'.edgeWeight u v
      unfold RouteContext.edgeWeight RouteContext.securityPenalty RouteContext.wormholePenalty
      rw [hpref, hgates u v u v rfl rfl, hoverlay u v u v rfl rfl]
  rw [hnetwork]
  rfl

/-- The same connection, possibly the other way round. -/
def SameLink (c c' : Connection) : Prop :=
  c'.kind = c.kind ∧ ((c'.src = c.src ∧ c'.dst = c.dst) ∨ (c'.src = c.dst ∧ c'.dst = c.src))

theorem SameLink.symm {c c' : Connection} (h : SameLink c c') : SameLink c' c := by
  obtain ⟨hk, ⟨hs, hd⟩ | ⟨hs, hd⟩⟩ := h
  · exact ⟨hk.symm, .inl ⟨hs.symm, hd.symm⟩⟩
  · exact ⟨hk.symm, .inr ⟨hd.symm, hs.symm⟩⟩

/-- A request that lists the same systems to avoid and the same connections, in
any order, any number of times and either way round. -/
structure Rearranged (req req' : GateRouteRequest) : Prop where
  knobs : req' = { req with avoid := req'.avoid, connections := req'.connections }
  avoid : ∀ r, r ∈ req.avoid ↔ r ∈ req'.avoid
  link : ∀ c ∈ req.connections, ∃ c' ∈ req'.connections, SameLink c c'
  link' : ∀ c' ∈ req'.connections, ∃ c ∈ req.connections, SameLink c c'

theorem Rearranged.symm (h : Rearranged req req') : Rearranged req' req := by
  refine ⟨?_, fun r => (h.avoid r).symm, fun c' hc' => ?_, fun c hc => ?_⟩
  · rw [h.knobs]
  · obtain ⟨c, hc, hs⟩ := h.link' c' hc'
    exact ⟨c, hc, hs.symm⟩
  · obtain ⟨c', hc', hs⟩ := h.link c hc
    exact ⟨c', hc', hs.symm⟩

/-- A snapshot with the same signatures in any order. -/
structure Reshuffled (scout scout' : EveScoutSnapshot) : Prop where
  signatures : ∀ hub : Hub, (hub.signatures scout).Perm (hub.signatures scout')

theorem Reshuffled.symm (h : Reshuffled scout scout') : Reshuffled scout' scout :=
  ⟨fun hub => (h.signatures hub).symm⟩

theorem Between.swap {u v : g.NodeIndex} (h : Between u v a b) : Between v u a b :=
  h.elim (fun h => .inr ⟨h.2, h.1⟩) fun h => .inl ⟨h.2, h.1⟩

namespace Rearranged

theorem dst_eq (h : Rearranged req req') : req'.dst = req.dst := by
  rw [h.knobs]

theorem src_eq (h : Rearranged req req') : req'.src = req.src := by
  rw [h.knobs]

theorem preference_eq (h : Rearranged req req') : req'.preference = req.preference := by
  rw [h.knobs]

theorem uses_eq (h : Rearranged req req') (kind : EdgeKind) :
    req'.overlay.uses kind = req.overlay.uses kind := by
  rw [h.knobs]
  cases kind <;> rfl

theorem included_iff (h : Rearranged req req') (hub : Hub) (endpoints : List g.NodeIndex) :
    hub.Included req'.overlay endpoints ↔ hub.Included req.overlay endpoints := by
  rw [h.knobs]
  cases hub <;> rfl

theorem excluded_eq (h : Rearranged req req') :
    excluded g req'.overlay = excluded g req.overlay := by
  ext v
  have hz : req'.includeZarzakh = req.includeZarzakh := by
    rw [h.knobs]
  change (_ ∨ req'.includeZarzakh = false ∧ _) ↔ (_ ∨ req.includeZarzakh = false ∧ _)
  rw [hz]
  apply or_congr_left
  exact exists_congr fun r => and_congr_left fun _ => (h.avoid r).symm

theorem connectionJoins (h : Rearranged req req') {kind : ConnectionKind}
    (hj : ConnectionJoins g req.overlay kind a b) : ConnectionJoins g req'.overlay kind a b := by
  obtain ⟨c, hc, hk, u, v, hu, hv, hb⟩ := hj
  obtain ⟨c', hc', hk', ⟨hs, hd⟩ | ⟨hs, hd⟩⟩ := h.link c hc
  · exact ⟨c', hc', hk'.trans hk, u, v, hs ▸ hu, hd ▸ hv, hb⟩
  · exact ⟨c', hc', hk'.trans hk, v, u, hs ▸ hv, hd ▸ hu, hb.swap⟩

theorem scoutJoins (h : Rearranged req req') (hs : Reshuffled scout scout')
    {endpoints : List g.NodeIndex} (hj : ScoutJoins scout req.overlay endpoints now a b) :
    ScoutJoins scout' req'.overlay endpoints now a b := by
  obtain ⟨hub, hi, sig, hsig, hrest⟩ := hj
  exact ⟨hub, (h.included_iff hub endpoints).mpr hi, sig, (hs.signatures hub).mem_iff.mp hsig,
    hrest⟩

theorem headerDefect (h : Rearranged req req') (hd : HeaderDefect g req') :
    HeaderDefect g req := by
  unfold HeaderDefect at hd
  rw [h.dst_eq, h.src_eq] at hd
  rcases hd with hd | hd | hd | ⟨r, hr, hd⟩ | ⟨c', hc', hd⟩
  · exact .inl hd
  · exact .inr (.inl hd)
  · exact .inr (.inr (.inl hd))
  · exact .inr (.inr (.inr (.inl ⟨r, (h.avoid r).mpr hr, hd⟩)))
  · obtain ⟨c, hc, _, ⟨hsrc, hdst⟩ | ⟨hsrc, hdst⟩⟩ := h.link' c' hc'
    · exact .inr (.inr (.inr (.inr ⟨c, hc, hsrc ▸ hdst ▸ hd⟩)))
    · exact .inr (.inr (.inr (.inr ⟨c, hc, hsrc ▸ hdst ▸ hd.symm⟩)))

theorem header_src (h : Rearranged req req') (hh : resolveHeader g req = .ok header)
    (hh' : resolveHeader g req' = .ok header') : header'.src = header.src := by
  apply header_src_eq hh'
  rw [h.src_eq, resolveHeader_src hh]

/-- The two requests search the same roads for a slot. -/
theorem sameRoads (h : Rearranged req req') (hs : Reshuffled scout scout')
    (hh : resolveHeader g req = .ok header) (hh' : resolveHeader g req' = .ok header')
    (dst : g.NodeIndex) (now : Instant) :
    SameRoads (slotContext scout req header dst now)
      (slotContext scout' req' header' dst now) := by
  have hsrc := h.header_src hh hh'
  refine ⟨rfl, ?_, ?_, ?_, ?_⟩
  · rw [slotContext_preference, slotContext_preference, h.preference_eq]
  · intro v v' hv
    obtain rfl := Fin.val_injective hv
    rw [mem_slotContext_avoid hh, mem_slotContext_avoid hh', h.excluded_eq, hsrc]
  · intro a b a' b' ha hb
    obtain rfl := Fin.val_injective ha
    obtain rfl := Fin.val_injective hb
    rfl
  · intro a b a' b' ha hb
    obtain rfl := Fin.val_injective ha
    obtain rfl := Fin.val_injective hb
    rw [Bool.eq_iff_iff, slotContext_isOverlayEdge hh, slotContext_isOverlayEdge hh', hsrc]
    apply and_congr_right
    intro _
    apply or_congr
    · apply exists_congr
      intro kind
      rw [h.uses_eq]
      apply and_congr_right
      intro _
      exact ⟨h.connectionJoins, h.symm.connectionJoins⟩
    · exact ⟨h.scoutJoins hs, h.symm.scoutJoins hs.symm⟩

end Rearranged

/-- An outcome without the labels of its steps. -/
def GateRouteOutcome.unlabelled : GateRouteOutcome → GateRouteOutcome
  | .route jumps path => .route jumps (path.map fun step => { step with via := "" })
  | .failure error message => .failure error message

theorem buildSteps_unlabelled (ctx : RouteContext g) (p : Path g) :
    (buildSteps ctx p).map (fun step => { step with via := "" }) =
      p.map fun v => routeStep (g.systems.get v) "" :=
  buildSteps_map (fun _ _ => rfl) ctx p

theorem Rearranged.outcome (h : Rearranged req req') (hs : Reshuffled scout scout')
    (hh : resolveHeader g req = .ok header) (hh' : resolveHeader g req' = .ok header')
    (t : SystemRef) (now : Instant) :
    (destinationOutcome scout req header t now).unlabelled =
      (destinationOutcome scout' req' header' t now).unlabelled := by
  unfold destinationOutcome
  cases resolveSystem g t with
  | error e => rfl
  | ok dst =>
    have hbest : best (slotContext scout req header dst now).network header.src dst =
        best (slotContext scout' req' header' dst now).network header.src dst :=
      nodeNumbers_injective ((h.sameRoads hs hh hh' dst now).best rfl rfl)
    dsimp only
    rw [h.header_src hh hh']
    unfold slotContext at hbest
    rw [hbest]
    cases best _ header.src dst with
    | none => rfl
    | some p => simp [searchOutcome, foldFailure, GateRouteOutcome.unlabelled,
        buildSteps_unlabelled]

/-- Routes are canonical. Two contexts with the same roads answer every search
with the same node numbers, and a request that lists its avoided systems, its
connections or the snapshot's signatures another way is answered with the same
jumps and systems. -/
theorem routes_canonical :
    (∀ (g g' : GraphData) (ctx : RouteContext g) (ctx' : RouteContext g'),
      SameRoads ctx ctx' → ∀ (src dst : g.NodeIndex) (src' dst' : g'.NodeIndex),
        (src : ℕ) = src' → (dst : ℕ) = dst' → ∃ found found', ctx.Answers src dst found ∧
          ctx'.Answers src' dst' found' ∧ nodeNumbers found = nodeNumbers found') ∧
    ∀ (g : GraphData) (scout scout' : EveScoutSnapshot) (req req' : GateRouteRequest)
      (m m' : Machine), ¬ HeaderDefect g req → Rearranged req req' → Reshuffled scout scout' →
        m'.clock = m.clock → m'.reads = m.reads → ∃ response left response' left',
          computeGateRoute g scout req m = .ok (.ok response, left) ∧
          computeGateRoute g scout' req' m' = .ok (.ok response', left') ∧
          response.results.map (fun slot => (slot.dst, slot.outcome.unlabelled)) =
            response'.results.map fun slot => (slot.dst, slot.outcome.unlabelled) := by
  constructor
  · intro g g' ctx ctx' h src dst src' dst' hsrc hdst
    exact ⟨_, _, ctx.answers_best src dst, ctx'.answers_best src' dst', h.best hsrc hdst⟩
  · intro g scout scout' req req' m m' hvalid h hs hclock hreads
    obtain ⟨header, _, hh, hrun⟩ := computeGateRoute_answers scout hvalid m
    obtain ⟨header', _, hh', hrun'⟩ := computeGateRoute_answers scout'
      (fun hd => hvalid (h.headerDefect hd)) m'
    refine ⟨_, _, _, _, hrun, hrun', ?_⟩
    rw [h.dst_eq, hclock, hreads]
    apply List.ext_getElem?
    intro i
    rw [List.getElem?_map, List.getElem?_map, List.getElem?_mapIdx, List.getElem?_mapIdx]
    cases req.dst[i]? with
    | none => rfl
    | some t => simp [destinationResult, h.outcome hs hh hh' t]

end Same

section More

/-- The second context has every overlay pair of the first and avoids no more. -/
structure MoreMap (ctx ctx' : RouteContext g) : Prop where
  preference : ctx'.preference = ctx.preference
  overlay : ∀ a b, ctx.isOverlayEdge a b = true → ctx'.isOverlayEdge a b = true
  avoid : ctx'.avoid ⊆ ctx.avoid

/-- No edge gets dearer: one that the first context takes over the overlay for
want of a gate is taken over the overlay in the second as well. -/
theorem MoreMap.network (h : MoreMap ctx ctx') : Extends ctx.network ctx'.network where
  edge he := by
    obtain ⟨hj, ha⟩ := RouteContext.mem_neighbors.mp he
    exact RouteContext.mem_neighbors.mpr ⟨hj.imp id (h.overlay _ _), fun hm => ha (h.avoid hm)⟩
  weight {u v} he := by
    obtain ⟨hj, _⟩ := RouteContext.mem_neighbors.mp he
    have hgate : ctx'.hasGateEdge u v = ctx.hasGateEdge u v := rfl
    have hover : ctx.hasGateEdge u v = false →
        ctx.isOverlayEdge u v = true ∧ ctx'.isOverlayEdge u v = true := by
      intro hg
      have := hj.resolve_left (by simp [hg])
      exact ⟨this, h.overlay u v this⟩
    change ctx'.edgeWeight u v ≤ ctx.edgeWeight u v
    unfold RouteContext.edgeWeight RouteContext.securityPenalty RouteContext.wormholePenalty
    rw [h.preference, hgate]
    cases hg : ctx.hasGateEdge u v with
    | true => simp
    | false => simp [(hover hg).1, (hover hg).2]

theorem MoreMap.best (h : MoreMap ctx ctx') (hb : best ctx.network src dst = some p) :
    ∃ q, Paths.best ctx'.network src dst = some q ∧ ctx'.pathCost q ≤ ctx.pathCost p :=
  h.network.best hb

/-- A request that differs from another in opting into more, adding connections
or avoiding less. -/
structure MoreRequest (req req' : GateRouteRequest) : Prop where
  src : req'.src = req.src
  dst : req'.dst = req.dst
  preference : req'.preference = req.preference
  avoid : req'.avoid ⊆ req.avoid
  connections : req.connections ⊆ req'.connections
  useWormholes : req.useWormholes = true → req'.useWormholes = true
  useBridges : req.useBridges = true → req'.useBridges = true
  includeThera : req.includeThera = true → req'.includeThera = true
  includeTurnur : req.includeTurnur = true → req'.includeTurnur = true
  includeZarzakh : req.includeZarzakh = true → req'.includeZarzakh = true

namespace MoreRequest

theorem uses (h : MoreRequest req req') {kind : EdgeKind} (hu : req.overlay.uses kind = true) :
    req'.overlay.uses kind = true := by
  cases kind with
  | wormhole => exact h.useWormholes hu
  | bridge => exact h.useBridges hu

theorem connectionJoins (h : MoreRequest req req') {kind : ConnectionKind}
    (hj : ConnectionJoins g req.overlay kind a b) : ConnectionJoins g req'.overlay kind a b := by
  obtain ⟨c, hc, hrest⟩ := hj
  exact ⟨c, h.connections hc, hrest⟩

theorem scoutJoins (h : MoreRequest req req') {endpoints : List g.NodeIndex}
    (hj : ScoutJoins scout req.overlay endpoints now a b) :
    ScoutJoins scout req'.overlay endpoints now a b := by
  obtain ⟨hub, hi, hs⟩ := hj
  refine ⟨hub, ?_, hs⟩
  rcases hi with hflag | hend
  · cases hub with
    | thera => exact .inl (h.includeThera hflag)
    | turnur => exact .inl (h.includeTurnur hflag)
  · exact .inr hend

theorem excluded_subset (h : MoreRequest req req') :
    excluded g req'.overlay ⊆ excluded g req.overlay := by
  intro v hv
  rcases hv with ⟨r, hr, hres⟩ | ⟨hz, hid⟩
  · exact .inl ⟨r, h.avoid hr, hres⟩
  · apply Or.inr
    refine ⟨?_, hid⟩
    by_contra hinc
    rw [Bool.not_eq_false] at hinc
    exact Bool.false_ne_true (hz.symm.trans (h.includeZarzakh hinc))

theorem header_src (h : MoreRequest req req') (hh : resolveHeader g req = .ok header)
    (hh' : resolveHeader g req' = .ok header') : header'.src = header.src := by
  apply header_src_eq hh'
  rw [h.src, resolveHeader_src hh]

theorem moreMap (h : MoreRequest req req') (hh : resolveHeader g req = .ok header)
    (hh' : resolveHeader g req' = .ok header') (dst : g.NodeIndex) (now : Instant) :
    MoreMap (slotContext scout req header dst now)
      (slotContext scout req' header' dst now) := by
  have hsrc := h.header_src hh hh'
  constructor
  · rw [slotContext_preference, slotContext_preference, h.preference]
  · intro a b hab
    rw [slotContext_isOverlayEdge hh] at hab
    rw [slotContext_isOverlayEdge hh', hsrc]
    obtain ⟨hne, hjoin⟩ := hab
    refine ⟨hne, ?_⟩
    rcases hjoin with ⟨kind, hu, hc⟩ | hs
    · exact .inl ⟨kind, h.uses hu, h.connectionJoins hc⟩
    · exact .inr (h.scoutJoins hs)
  · intro v hv
    rw [mem_slotContext_avoid hh', hsrc] at hv
    exact (mem_slotContext_avoid hh).mpr ⟨h.excluded_subset hv.1, hv.2⟩

/-- A route of a slot stays a route when there is more map. -/
theorem slotRoute (h : MoreRequest req req') (hh : resolveHeader g req = .ok header)
    (hh' : resolveHeader g req' = .ok header') {t : SystemRef} {jumps : ℕ}
    {shown : List RouteStep}
    (ho : destinationOutcome scout req header t now = .route jumps shown) :
    ∃ jumps' shown', destinationOutcome scout req' header' t now = .route jumps' shown' ∧
      (req.preference = .shortest → jumps' ≤ jumps) := by
  obtain ⟨dst, p, hp⟩ := destinationOutcome_eq_route.mp ho
  obtain ⟨q, hq, hle⟩ := (h.moreMap hh hh' dst now).best hp.found
  rw [← h.header_src hh hh'] at hq
  refine ⟨_, _, destinationOutcome_eq_route.mpr ⟨dst, q, hp.dst_eq, hq, rfl, rfl⟩, ?_⟩
  intro hshortest
  have hpref : req.preference.toPreference = .shortest := by
    rw [hshortest]
    rfl
  rw [RouteContext.pathCost_shortest (slotContext_preference.trans hpref),
    RouteContext.pathCost_shortest (slotContext_preference.trans (h.preference ▸ hpref))] at hle
  rw [hp.jumps_eq]
  exact hle

end MoreRequest

/-- More map never hurts. A search that finds a path finds one no dearer over a
context with more overlay and less to avoid, and a request that asks for more
keeps every route, and every shortest one as short. -/
theorem more_map_never_hurts (g : GraphData) (scout : EveScoutSnapshot) :
    (∀ (ctx ctx' : RouteContext g) src dst p, MoreMap ctx ctx' →
      ctx.Answers src dst (some p) →
        ∃ q, ctx'.Answers src dst (some q) ∧ ctx'.pathCost q ≤ ctx.pathCost p) ∧
    ∀ (req req' : GateRouteRequest) (m m' : Machine), ¬ HeaderDefect g req →
      ¬ HeaderDefect g req' → MoreRequest req req' → m'.clock = m.clock → m'.reads = m.reads →
        ∃ response left response' left',
          computeGateRoute g scout req m = .ok (.ok response, left) ∧
          computeGateRoute g scout req' m' = .ok (.ok response', left') ∧
          ∀ (i : ℕ) slot jumps shown, response.results[i]? = some slot →
            slot.outcome = .route jumps shown → ∃ slot' jumps' shown',
              response'.results[i]? = some slot' ∧ slot'.dst = slot.dst ∧
              slot'.outcome = .route jumps' shown' ∧
              (req.preference = .shortest → jumps' ≤ jumps) := by
  constructor
  · intro ctx ctx' src dst p h ha
    obtain ⟨q, hq, hle⟩ := h.best ha.eq_best.symm
    exact ⟨q, hq ▸ ctx'.answers_best src dst, hle⟩
  · intro req req' m m' hvalid hvalid' h hclock hreads
    obtain ⟨header, _, hh, hrun⟩ := computeGateRoute_answers scout hvalid m
    obtain ⟨header', _, hh', hrun'⟩ := computeGateRoute_answers scout hvalid' m'
    refine ⟨_, _, _, _, hrun, hrun', fun i slot jumps shown hslot hroute => ?_⟩
    rw [List.getElem?_mapIdx, Option.map_eq_some_iff] at hslot
    obtain ⟨t, ht, rfl⟩ := hslot
    obtain ⟨jumps', shown', hroute', hle⟩ := h.slotRoute hh hh' hroute
    rw [h.dst, hclock, hreads, List.getElem?_mapIdx, ht]
    exact ⟨_, jumps', shown', rfl, rfl, hroute', hle⟩

end More

end Palu
