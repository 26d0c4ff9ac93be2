import Palu.Paths.Grafts
import Palu.Proofs.Certificates

namespace Palu

open Paths

section Slots
variable {g : GraphData} {scout : EveScoutSnapshot} {req : GateRouteRequest}
  {header : RouteHeader g} {dst : g.NodeIndex} {now : Instant}

/-- A destination that neither leaves the avoid set of its own slot nor brings its
own signatures with it. -/
structure Ordinary (g : GraphData) (req : GateRouteRequest) (header : RouteHeader g)
    (dst : g.NodeIndex) : Prop where
  clear : dst ∉ header.sharedAvoid
  noHub : ∀ hub : Hub, g.idToIdx hub.id = some dst →
    hub.Included req.overlay [header.src, header.src]

theorem slotContext_avoid (scout : EveScoutSnapshot) (req : GateRouteRequest)
    (header : RouteHeader g) (dst : g.NodeIndex) (now : Instant) :
    (slotContext scout req header dst now).avoid = header.sharedAvoid.erase dst :=
  (destinationContext_frame _ _ _ _ _ _).avoid

theorem src_notMem_sharedAvoid (hh : resolveHeader g req = .ok header) :
    header.src ∉ header.sharedAvoid := by
  obtain ⟨_, _, _, ⟨avoid, _, hshared⟩, _⟩ := resolveHeader_ok_iff.mp hh
  rw [hshared]
  exact Finset.notMem_erase _ _

theorem included_mono {hub : Hub} (h : hub.Included req.overlay [header.src, header.src]) :
    hub.Included req.overlay [header.src, dst] := by
  rcases h with hf | ⟨v, hv, hid⟩
  · exact .inl hf
  · exact .inr ⟨v, by simp_all, hid⟩

/-- A hub that only a destination includes is that destination. -/
theorem included_split {hub : Hub} (h : hub.Included req.overlay [header.src, dst]) :
    hub.Included req.overlay [header.src, header.src] ∨ g.idToIdx hub.id = some dst := by
  rcases h with hf | ⟨v, hv, hid⟩
  · exact .inl (.inl hf)
  · rcases List.mem_cons.mp hv with rfl | hv
    · exact .inl (.inr ⟨_, List.mem_cons_self, hid⟩)
    · rw [List.mem_singleton.mp hv] at hid
      exact .inr hid

variable (hh : resolveHeader g req = .ok header)
include hh

theorem slot_overlay (a b : g.NodeIndex) :
    (slotContext scout req header dst now).isOverlayEdge a b = true ↔
      a ≠ b ∧ ((∃ kind, req.overlay.uses (edgeKind kind) = true ∧
        ConnectionJoins g req.overlay kind a b) ∨
          ScoutJoins scout req.overlay [header.src, dst] now a b) := by
  obtain ⟨hc, hctx⟩ := slotContext_exact scout hh dst now
  rw [RouteContext.isOverlayEdge, hctx.kind, overlay_isSome_iff hc]

theorem slot_overlay_mono {a b : g.NodeIndex}
    (h : (slotContext scout req header header.src now).isOverlayEdge a b = true) :
    (slotContext scout req header dst now).isOverlayEdge a b = true := by
  rw [slot_overlay hh] at h ⊢
  refine ⟨h.1, h.2.imp_right ?_⟩
  rintro ⟨hub, hi, hjoin⟩
  exact ⟨hub, included_mono hi, hjoin⟩

omit hh in
/-- A hop costs the same to two destinations that make it the same kind of hop. -/
theorem slot_weight {dst' a b : g.NodeIndex}
    (h : (slotContext scout req header dst now).hasGateEdge a b = true ∨
      (slotContext scout req header dst now).isOverlayEdge a b =
        (slotContext scout req header dst' now).isOverlayEdge a b) :
    (slotContext scout req header dst now).edgeWeight a b =
      (slotContext scout req header dst' now).edgeWeight a b := by
  have hpref : ∀ dst, (slotContext scout req header dst now).preference =
      req.preference.toPreference :=
    fun dst => (destinationContext_frame _ _ _ _ _ _).preference
  have hgate : (slotContext scout req header dst' now).hasGateEdge a b =
      (slotContext scout req header dst now).hasGateEdge a b := rfl
  unfold RouteContext.edgeWeight RouteContext.securityPenalty RouteContext.wormholePenalty
  rw [hpref, hpref, hgate]
  rcases h with h | h
  · simp [h]
  · rw [h]

/-- What only a destination's own signatures join has an end there. -/
theorem slot_overlay_split {a b : g.NodeIndex}
    (hhub : ∀ hub : Hub, ∀ sig ∈ hub.signatures scout, sig.outSystemId = hub.id)
    (h : (slotContext scout req header dst now).isOverlayEdge a b = true) :
    (slotContext scout req header header.src now).isOverlayEdge a b = true ∨
      (∃ hub : Hub, g.idToIdx hub.id = some dst ∧
        ¬ hub.Included req.overlay [header.src, header.src]) ∧ (a = dst ∨ b = dst) := by
  rw [slot_overlay hh] at h ⊢
  obtain ⟨hne, hconn | ⟨hub, hi, hjoin⟩⟩ := h
  · exact .inl ⟨hne, .inl hconn⟩
  · by_cases hown : hub.Included req.overlay [header.src, header.src]
    · exact .inl ⟨hne, .inr ⟨hub, hown, hjoin⟩⟩
    · have hid := (included_split hi).resolve_left hown
      obtain ⟨sig, hs, _, u, w, hu, _, hbetween⟩ := hjoin
      rw [hhub hub sig hs, hid] at hu
      obtain rfl := Option.some.inj hu
      refine .inr ⟨⟨hub, hid, hown⟩, ?_⟩
      rcases hbetween with ⟨rfl, _⟩ | ⟨rfl, _⟩
      · exact .inl rfl
      · exact .inr rfl

/-- A destination grafts nothing onto the map of its source but what begins or ends
at the destination. -/
theorem slot_grafts
    (hhub : ∀ hub : Hub, ∀ sig ∈ hub.signatures scout, sig.outSystemId = hub.id) :
    Grafts (slotContext scout req header header.src now).network
      (slotContext scout req header dst now).network dst where
  edge {u v} he := by
    obtain ⟨hj, ha⟩ := RouteContext.mem_neighbors.mp he
    refine RouteContext.mem_neighbors.mpr ⟨hj.imp id (slot_overlay_mono hh), ?_⟩
    rw [slotContext_avoid, Finset.erase_eq_of_notMem (src_notMem_sharedAvoid hh)] at ha
    rw [slotContext_avoid]
    exact fun hm => ha (Finset.mem_of_mem_erase hm)
  only {u v} he := by
    obtain ⟨hj, ha⟩ := RouteContext.mem_neighbors.mp he
    by_cases hv : v = dst
    · exact .inr (.inl hv)
    by_cases hu : u = dst
    · exact .inl hu
    refine .inr (.inr (RouteContext.mem_neighbors.mpr ⟨?_, ?_⟩))
    · rcases hj with hgate | hover
      · exact .inl hgate
      · have hsplit := slot_overlay_split hh hhub hover
        exact .inr (hsplit.resolve_right fun hown => hown.2.elim hu hv)
    · rw [slotContext_avoid] at ha ⊢
      exact fun hm => ha (Finset.mem_erase_of_ne_of_mem hv (Finset.mem_of_mem_erase hm))
  weight {u v} he := by
    obtain ⟨hj, _⟩ := RouteContext.mem_neighbors.mp he
    exact slot_weight (hj.imp_right fun hover => hover.trans (slot_overlay_mono hh hover).symm)

/-- The map of an ordinary destination is that of its source. -/
theorem slot_ordinary
    (hhub : ∀ hub : Hub, ∀ sig ∈ hub.signatures scout, sig.outSystemId = hub.id)
    (hord : Ordinary g req header dst) :
    (slotContext scout req header header.src now).network =
      (slotContext scout req header dst now).network := by
  have hover : ∀ a b, (slotContext scout req header header.src now).isOverlayEdge a b =
      (slotContext scout req header dst now).isOverlayEdge a b := by
    intro a b
    rw [Bool.eq_iff_iff]
    refine ⟨slot_overlay_mono hh, fun h => ?_⟩
    refine (slot_overlay_split hh hhub h).resolve_right ?_
    rintro ⟨⟨hub, hid, hown⟩, _⟩
    exact hown (hord.noHub hub hid)
  apply Network.eq_of
  · intro u v
    change v ∈ (slotContext scout req header header.src now).neighbors u ↔
      v ∈ (slotContext scout req header dst now).neighbors u
    rw [RouteContext.mem_neighbors, RouteContext.mem_neighbors, RouteContext.Joined,
      RouteContext.Joined, hover, slotContext_avoid, slotContext_avoid,
      Finset.erase_eq_of_notMem (src_notMem_sharedAvoid hh), Finset.erase_eq_of_notMem hord.clear]
    rfl
  · exact fun u v => slot_weight (.inr (hover u v))

end Slots

section Trees
variable {g : GraphData} {scout : EveScoutSnapshot} {req : GateRouteRequest}
  {header : RouteHeader g} {now : Instant}

/-- The stop before each system on the routes of a request. -/
noncomputable def routeParent (scout : EveScoutSnapshot) (req : GateRouteRequest)
    (header : RouteHeader g) (now : Instant) : g.NodeIndex → Option g.NodeIndex :=
  parent (slotContext scout req header header.src now).network header.src

/-- Each part of a route from its start that stops short of its end is a branch of
one tree. So is the whole route, if its destination is an ordinary one. -/
theorem SlotRoute.branch {t : SystemRef} {dst v : g.NodeIndex} {p q r : Path g} {jumps : ℕ}
    {shown : List RouteStep} (hh : resolveHeader g req = .ok header)
    (hhub : ∀ hub : Hub, ∀ sig ∈ hub.signatures scout, sig.outSystemId = hub.id)
    (h : SlotRoute scout req header t now dst p jumps shown) (hp : p = q ++ v :: r)
    (hv : r ≠ [] ∨ Ordinary g req header dst) :
    PredChain (routeParent scout req header now) header.src v (q ++ [v]) := by
  have hcanonical := best_eq_some.mp h.found
  rw [hp] at hcanonical
  obtain ⟨hinit, hlt⟩ := hcanonical.initial
  rcases hv with hr | hord
  · exact ((slot_grafts hh hhub).canonical hinit (hlt hr)).branch
  · rw [← slot_ordinary hh hhub hord] at hinit
    exact hinit.branch

/-- Two routes that pass one system before their ends are the same up to it. -/
theorem SlotRoute.same_start {t t' : SystemRef} {dst dst' v : g.NodeIndex}
    {p q r p' q' r' : Path g} {jumps jumps' : ℕ} {shown shown' : List RouteStep}
    (hh : resolveHeader g req = .ok header)
    (hhub : ∀ hub : Hub, ∀ sig ∈ hub.signatures scout, sig.outSystemId = hub.id)
    (h : SlotRoute scout req header t now dst p jumps shown) (hp : p = q ++ v :: r)
    (hv : r ≠ [] ∨ Ordinary g req header dst)
    (h' : SlotRoute scout req header t' now dst' p' jumps' shown') (hp' : p' = q' ++ v :: r')
    (hv' : r' ≠ [] ∨ Ordinary g req header dst') : q = q' :=
  List.append_cancel_right ((h.branch hh hhub hp hv).unique (h'.branch hh hhub hp' hv'))

section Destinations
variable {dsts : List SystemRef} {dst : g.NodeIndex}

/-- What a slot shows does not depend on what else is asked for. -/
theorem SlotRoute.of_dsts {t : SystemRef} {p : Path g} {jumps : ℕ} {shown : List RouteStep}
    (h : SlotRoute scout { req with dst := dsts } header t now dst p jumps shown) :
    SlotRoute scout req header t now dst p jumps shown :=
  ⟨h.dst_eq, h.found, h.jumps_eq, h.shown_eq⟩

theorem Ordinary.to_dsts (h : Ordinary g req header dst) :
    Ordinary g { req with dst := dsts } header dst :=
  ⟨h.clear, h.noHub⟩

end Destinations

/-- The route in a slot of a run, over the header of the request to its own source. -/
theorem slotRoute_of_run {dsts : List SystemRef} {m left : Machine} {response : GateRouteResponse}
    {slot : GateRouteResult} {jumps : ℕ} {shown : List RouteStep} (hclock : m.clock = fun _ => now)
    (hh : resolveHeader g { req with dst := dsts } = .ok header)
    (hrun : computeGateRoute g scout { req with dst := dsts } m = .ok (.ok response, left))
    (hslot : slot ∈ response.results) (hroute : slot.outcome = .route jumps shown) :
    resolveHeader g { req with dst := [req.src] } = .ok header ∧
      ∃ dst p, SlotRoute scout { req with dst := [req.src] } header slot.dst now dst p jumps
        shown := by
  obtain ⟨i, hi⟩ := List.mem_iff_getElem?.mp hslot
  obtain ⟨header', dst, p, hh', hp⟩ := slot_of_run hrun hi hroute
  obtain rfl : header = header' := Except.ok.inj (hh.symm.trans hh')
  rw [slotInstant, hclock] at hp
  have hone := @resolveHeader_dst g { req with dst := dsts } header [req.src] hh
    (List.cons_ne_nil _ _) (by simp [MAX_DESTINATIONS])
  exact ⟨hone, dst, p, hp.dst_eq, hp.found, hp.jumps_eq, hp.shown_eq⟩

/-- All routes from one source are branches of one tree, whatever destinations are
asked for together and one after another: at one instant, two routes that pass one
system are the same up to it. Only the last hop, to a destination that is avoided or a
hub of its own, may be off the tree. -/
theorem routes_form_tree (g : GraphData) (raw : List RawSignature) (fetchedAt : Instant)
    (req : GateRouteRequest) (now : Instant) :
    (∃ parent : g.NodeIndex → Option g.NodeIndex, ∀ dsts m left response,
      m.clock = (fun _ => now) →
      computeGateRoute g (partition raw fetchedAt) { req with dst := dsts } m =
        .ok (.ok response, left) →
      ∃ header, resolveHeader g { req with dst := dsts } = .ok header ∧
        ∀ slot ∈ response.results, ∀ jumps shown, slot.outcome = .route jumps shown →
          ∃ dst p, SlotRoute (partition raw fetchedAt) req header slot.dst now dst p jumps shown ∧
            ∀ q v r, p = q ++ v :: r → r ≠ [] ∨ Ordinary g req header dst →
              PredChain parent header.src v (q ++ [v])) ∧
    ∀ dsts dsts' m m' left left' response response',
      m.clock = (fun _ => now) → m'.clock = (fun _ => now) →
      computeGateRoute g (partition raw fetchedAt) { req with dst := dsts } m =
        .ok (.ok response, left) →
      computeGateRoute g (partition raw fetchedAt) { req with dst := dsts' } m' =
        .ok (.ok response', left') →
      ∃ header, resolveHeader g { req with dst := dsts } = .ok header ∧
        resolveHeader g { req with dst := dsts' } = .ok header ∧
        ∀ slot ∈ response.results, ∀ slot' ∈ response'.results, ∀ jumps shown jumps' shown',
          slot.outcome = .route jumps shown → slot'.outcome = .route jumps' shown' →
          ∃ dst p dst' p',
            SlotRoute (partition raw fetchedAt) req header slot.dst now dst p jumps shown ∧
            SlotRoute (partition raw fetchedAt) req header slot'.dst now dst' p' jumps' shown' ∧
            ∀ q v r q' r', p = q ++ v :: r → p' = q' ++ v :: r' →
              r ≠ [] ∨ Ordinary g req header dst → r' ≠ [] ∨ Ordinary g req header dst' →
              q = q' := by
  have hhub := partition_hub raw fetchedAt
  constructor
  · refine ⟨(resolveHeader g { req with dst := [req.src] }).toOption.elim (fun _ => none)
      fun header => routeParent (partition raw fetchedAt) req header now, ?_⟩
    intro dsts m left response hclock hrun
    obtain ⟨header, hh, _⟩ := results_of_run hrun
    refine ⟨header, hh, ?_⟩
    intro slot hslot jumps shown hroute
    obtain ⟨hone, dst, p, hp⟩ := slotRoute_of_run hclock hh hrun hslot hroute
    refine ⟨dst, p, hp.of_dsts, fun q v r hsplit hv => ?_⟩
    rw [hone]
    have hbranch := hp.branch hone hhub hsplit (hv.imp_right Ordinary.to_dsts)
    exact hbranch
  · intro dsts dsts' m m' left left' response response' hclock hclock' hrun hrun'
    obtain ⟨header, hh, _⟩ := results_of_run hrun
    obtain ⟨header', hh', _⟩ := results_of_run hrun'
    obtain rfl : header = header' := by
      obtain ⟨hne, hlen, _⟩ := resolveHeader_ok_iff.mp hh'
      have hsame := @resolveHeader_dst g { req with dst := dsts } header dsts' hh hne hlen
      exact Except.ok.inj (hsame.symm.trans hh')
    refine ⟨header, hh, hh', ?_⟩
    intro slot hslot slot' hslot' jumps shown jumps' shown' hroute hroute'
    obtain ⟨hone, dst, p, hp⟩ := slotRoute_of_run hclock hh hrun hslot hroute
    obtain ⟨_, dst', p', hp'⟩ := slotRoute_of_run hclock' hh' hrun' hslot' hroute'
    refine ⟨dst, p, dst', p', hp.of_dsts, hp'.of_dsts, ?_⟩
    intro q v r q' r' hsplit hsplit' hv hv'
    exact hp.same_start hone hhub hsplit (hv.imp_right Ordinary.to_dsts) hp' hsplit'
      (hv'.imp_right Ordinary.to_dsts)

end Trees

end Palu
