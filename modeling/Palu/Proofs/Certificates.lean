import Palu.Proofs.Overlay
import Palu.Proofs.StagingLeg

namespace Palu

open Paths Collections

variable {g : GraphData} {scout : EveScoutSnapshot} {inputs : OverlayInputs}
  {endpoints : List g.NodeIndex} {now : Instant} {ctx : RouteContext g}
  {connections : List (OverlayEntry g)} {a b : g.NodeIndex} {k : EdgeKind} {p : Path g}

/-- One of two systems is `u` and the other `v`. -/
def Between (u v a b : g.NodeIndex) : Prop := (u = a ∧ v = b) ∨ (u = b ∧ v = a)

/-- A connection of this kind joins the two systems. -/
def ConnectionJoins (g : GraphData) (inputs : OverlayInputs) (kind : ConnectionKind)
    (a b : g.NodeIndex) : Prop :=
  ∃ c ∈ inputs.connections, c.kind = kind ∧ ∃ u v, resolveSystem g c.src = .ok u ∧
    resolveSystem g c.dst = .ok v ∧ Between u v a b

/-- A live signature joins the two systems. -/
def SignatureJoins (g : GraphData) (sigs : List Signature) (now : Instant)
    (a b : g.NodeIndex) : Prop :=
  ∃ sig ∈ sigs, sig.isLive now = true ∧ ∃ u v, g.idToIdx sig.outSystemId = some u ∧
    g.idToIdx sig.inSystemId = some v ∧ Between u v a b

/-- A live signature of an included hub joins the two systems. -/
def ScoutJoins (scout : EveScoutSnapshot) (inputs : OverlayInputs) (endpoints : List g.NodeIndex)
    (now : Instant) (a b : g.NodeIndex) : Prop :=
  ∃ hub : Hub, hub.Included inputs endpoints ∧ SignatureJoins g (hub.signatures scout) now a b

section Sources

theorem joins_iff {e : OverlayEntry g} : joins e a b = true ↔ Between e.1 e.2.1 a b := by
  simp [joins, Between]

theorem mem_hubEntries {hub : Hub} {e : OverlayEntry g} :
    e ∈ hubEntries g now (hub.includeFlag inputs || isEndpoint g endpoints hub.id)
        (hub.signatures scout) ↔
      hub.Included inputs endpoints ∧ ∃ sig ∈ hub.signatures scout,
        signatureEntry g now sig = some e := by
  rw [Hub.included_iff, hubEntries]
  split
  · rename_i h
    simp [h, List.mem_filterMap]
  · rename_i h
    simp [h]

/-- Where an entry comes from: an enabled connection, or a signature of an
included hub. -/
theorem mem_overlayEntries {e : OverlayEntry g} :
    e ∈ overlayEntries scout inputs endpoints now connections ↔
      (e ∈ connections ∧ inputs.uses e.2.2 = true) ∨
      ∃ hub : Hub, hub.Included inputs endpoints ∧ ∃ sig ∈ hub.signatures scout,
        signatureEntry g now sig = some e := by
  have hthera := @mem_hubEntries g scout inputs endpoints now .thera e
  have hturnur := @mem_hubEntries g scout inputs endpoints now .turnur e
  rw [overlayEntries, List.mem_append, List.mem_append, enabledConnections, List.mem_filter]
  apply or_congr Iff.rfl
  constructor
  · intro h
    rcases h with h | h
    · exact ⟨.thera, hthera.mp h⟩
    · exact ⟨.turnur, hturnur.mp h⟩
  · intro h
    obtain ⟨hub, h⟩ := h
    cases hub with
    | thera => exact .inl (hthera.mpr h)
    | turnur => exact .inr (hturnur.mpr h)

/-- A connection of this kind is among the entries exactly when the request has
one and its use-flag is set. -/
theorem exists_connection_entry (h : resolveConnections g inputs = .ok connections)
    (kind : ConnectionKind) :
    (∃ e ∈ connections, e.2.2 = edgeKind kind ∧ joins e a b = true) ↔
      ConnectionJoins g inputs kind a b := by
  have hinj : ∀ k', edgeKind k' = edgeKind kind ↔ k' = kind := by
    intro k'
    cases k' <;> cases kind <;> simp [edgeKind]
  simp only [mem_of_mapM h, joins_iff]
  constructor
  · rintro ⟨e, ⟨c, hc, he⟩, hk, hj⟩
    obtain ⟨hu, hv, hkind⟩ := resolveConnection_eq_ok.mp he
    exact ⟨c, hc, (hinj _).mp (hkind.symm.trans hk), _, _, hu, hv, hj⟩
  · rintro ⟨c, hc, rfl, u, v, hu, hv, hj⟩
    exact ⟨(u, v, edgeKind c.kind), ⟨c, hc, resolveConnection_eq_ok.mpr ⟨hu, hv, rfl⟩⟩, rfl, hj⟩

theorem exists_signature_entry {sigs : List Signature} :
    (∃ sig ∈ sigs, ∃ e : OverlayEntry g, signatureEntry g now sig = some e ∧ joins e a b = true) ↔
      SignatureJoins g sigs now a b := by
  simp only [signatureEntry_eq_some, joins_iff]
  constructor
  · intro ⟨sig, hs, e, ⟨hl, hu, hv, _⟩, hj⟩
    exact ⟨sig, hs, hl, _, _, hu, hv, hj⟩
  · intro ⟨sig, hs, hl, u, v, hu, hv, hj⟩
    exact ⟨sig, hs, (u, v, .wormhole), ⟨hl, hu, hv, rfl⟩, hj⟩

theorem edgeKind_surjective : Function.Surjective edgeKind := by
  intro k
  cases k with
  | wormhole => exact ⟨.wormhole, rfl⟩
  | bridge => exact ⟨.bridge, rfl⟩

/-- Which different systems the overlay joins. -/
theorem overlay_isSome_iff (h : resolveConnections g inputs = .ok connections) :
    (firstKind (overlayEntries scout inputs endpoints now connections) a b).isSome = true ↔
      a ≠ b ∧ ((∃ kind, inputs.uses (edgeKind kind) = true ∧ ConnectionJoins g inputs kind a b) ∨
        ScoutJoins scout inputs endpoints now a b) := by
  simp only [firstKind_isSome, mem_overlayEntries, ScoutJoins, ← exists_connection_entry h,
    ← exists_signature_entry]
  apply and_congr_right
  intro _
  constructor
  · rintro ⟨e, ⟨hm, hu⟩ | ⟨hub, hi, sig, hs, he⟩, hj⟩
    · obtain ⟨kind, hk⟩ := edgeKind_surjective e.2.2
      exact .inl ⟨kind, hk ▸ hu, e, hm, hk.symm, hj⟩
    · exact .inr ⟨hub, hi, sig, hs, e, he, hj⟩
  · rintro (⟨kind, hu, e, hm, hk, hj⟩ | ⟨hub, hi, sig, hs, e, he, hj⟩)
    · exact ⟨e, .inl ⟨hm, hk ▸ hu⟩, hj⟩
    · exact ⟨e, .inr ⟨hub, hi, sig, hs, he⟩, hj⟩

/-- What the kind of an overlay edge says about where it comes from. -/
def KindSource (scout : EveScoutSnapshot) (inputs : OverlayInputs)
    (endpoints : List g.NodeIndex) (now : Instant) (a b : g.NodeIndex) : EdgeKind → Prop
  | .bridge => inputs.useBridges = true ∧ ConnectionJoins g inputs .bridge a b
  | .wormhole => (inputs.useWormholes = true ∧ ConnectionJoins g inputs .wormhole a b) ∨
      ScoutJoins scout inputs endpoints now a b

theorem kindSource_of_entry (h : resolveConnections g inputs = .ok connections)
    {e : OverlayEntry g} (hj : joins e a b = true)
    (he : e ∈ overlayEntries scout inputs endpoints now connections) :
    KindSource scout inputs endpoints now a b e.2.2 := by
  rcases mem_overlayEntries.mp he with ⟨hm, hu⟩ | ⟨hub, hi, sig, hs, he⟩
  · cases hk : e.2.2 with
    | bridge =>
      rw [hk] at hu
      exact ⟨hu, (exists_connection_entry h .bridge).mp ⟨e, hm, hk, hj⟩⟩
    | wormhole =>
      rw [hk] at hu
      exact .inl ⟨hu, (exists_connection_entry h .wormhole).mp ⟨e, hm, hk, hj⟩⟩
  · rw [(signatureEntry_eq_some.mp he).2.2.2]
    exact .inr ⟨hub, hi, exists_signature_entry.mp ⟨sig, hs, e, he, hj⟩⟩

theorem overlay_kind_source (h : resolveConnections g inputs = .ok connections)
    (hk : firstKind (overlayEntries scout inputs endpoints now connections) a b = some k) :
    KindSource scout inputs endpoints now a b k := by
  unfold firstKind at hk
  split at hk
  · cases hk
  · obtain ⟨e, he, rfl⟩ := Option.map_eq_some_iff.mp hk
    exact kindSource_of_entry h (by simpa using List.find?_some he) (List.mem_of_find?_eq_some he)

end Sources

section Labels

/-- A label of a step from `a` to `b` that says how the two are really joined. -/
structure Truthful (scout : EveScoutSnapshot) (inputs : OverlayInputs)
    (endpoints : List g.NodeIndex) (now : Instant) (a b : g.NodeIndex) (via : String) :
    Prop where
  known : via = "stargate" ∨ via = "bridge" ∨ via = "wormhole"
  stargate : via = "stargate" ↔ g.gateGraph.containsEdge a b = true
  bridge : via = "bridge" → g.gateGraph.containsEdge a b = false ∧
    inputs.useBridges = true ∧ ConnectionJoins g inputs .bridge a b
  wormhole : via = "wormhole" → g.gateGraph.containsEdge a b = false ∧
    ((inputs.useWormholes = true ∧ ConnectionJoins g inputs .wormhole a b) ∨
      ScoutJoins scout inputs endpoints now a b)

theorem joined_iff_kind : ctx.Joined a b ↔
    ctx.hasGateEdge a b = true ∨ ∃ k, ctx.overlayEdgeKind a b = some k := by
  rw [RouteContext.Joined, RouteContext.isOverlayEdge, Option.isSome_iff_exists]

theorem truthful_stepVia (hc : resolveConnections g inputs = .ok connections)
    (hctx : OverlayExact ctx (overlayEntries scout inputs endpoints now connections))
    (hj : ctx.Joined a b) :
    Truthful scout inputs endpoints now a b (ctx.stepVia a b) := by
  cases hg : g.gateGraph.containsEdge a b with
  | true =>
    have hvia : ctx.stepVia a b = "stargate" := if_pos hg
    rw [hvia]
    exact ⟨.inl rfl, by simp [hg], by simp, by simp⟩
  | false =>
    have hgate : ctx.hasGateEdge a b = false := hg
    obtain ⟨k, hk⟩ := (joined_iff_kind.mp hj).resolve_left (by simp [hgate])
    have hvia : ctx.stepVia a b = k.viaLabel := by
      simp [RouteContext.stepVia, hgate, hk]
    have hsource := overlay_kind_source hc ((hctx.kind a b).symm.trans hk)
    rw [hvia]
    cases k with
    | bridge => exact ⟨by simp [EdgeKind.viaLabel], by simp [EdgeKind.viaLabel, hg],
        fun _ => ⟨hg, hsource⟩, by simp [EdgeKind.viaLabel]⟩
    | wormhole => exact ⟨by simp [EdgeKind.viaLabel], by simp [EdgeKind.viaLabel, hg],
        by simp [EdgeKind.viaLabel], fun _ => ⟨hg, hsource⟩⟩

/-- Each step after the first carries the label of the pair it closes. -/
theorem buildSteps_labels (ctx : RouteContext g) (p : Path g) :
    List.Forall₂ (fun e step => step.via = ctx.stepVia e.1 e.2) (steps p)
      (buildSteps ctx p).tail := by
  have hgo : ∀ (prev : g.NodeIndex) (p : Path g),
      List.Forall₂ (fun e step => step.via = ctx.stepVia e.1 e.2) (steps (prev :: p))
        (buildSteps.go ctx prev p) := by
    intro prev p
    induction p generalizing prev with
    | nil => exact .nil
    | cons v p ih => exact .cons rfl (ih v)
  cases p with
  | nil => exact .nil
  | cons v p => exact hgo v p

/-- The steps shown for a path, and that each says how it was reached. The
label that `stepVia` gives for want of an edge is never one of them. -/
structure CertifiedPath (ctx : RouteContext g) (scout : EveScoutSnapshot)
    (inputs : OverlayInputs) (endpoints : List g.NodeIndex) (now : Instant) (p : Path g)
    (shown : List RouteStep) : Prop where
  shown_eq : shown = buildSteps ctx p
  systems : shown.map (fun step => (step.system, step.systemId)) =
    p.map fun v => ((g.systems.get v).name, (g.systems.get v).id)
  start : shown.head?.map RouteStep.via = some "start"
  labels : List.Forall₂ (fun e step => Truthful scout inputs endpoints now e.1 e.2 step.via)
    (steps p) shown.tail
  edges : ∀ e ∈ steps p,
    ctx.hasGateEdge e.1 e.2 = true ∨ ∃ k, ctx.overlayEdgeKind e.1 e.2 = some k

theorem certified_of_best {src dst : g.NodeIndex}
    (hc : resolveConnections g inputs = .ok connections)
    (hctx : OverlayExact ctx (overlayEntries scout inputs endpoints now connections))
    (hb : best ctx.network src dst = some p) :
    CertifiedPath ctx scout inputs endpoints now p (buildSteps ctx p) := by
  have hp := (cheapestRoute_of_canonical (best_eq_some.mp hb)).admits
  have hjoined := (isChain_iff_steps _ _).mp hp.joined
  refine ⟨rfl, buildSteps_systems ctx p, ?_, ?_, fun e he => joined_iff_kind.mp (hjoined e he)⟩
  · obtain ⟨t, rfl⟩ := List.head?_eq_some_iff.mp hp.head
    rfl
  · have hlabels := buildSteps_labels ctx p
    rw [List.forall₂_iff_zip] at hlabels ⊢
    refine ⟨hlabels.1, fun {e step} hm => ?_⟩
    rw [hlabels.2 hm]
    exact truthful_stepVia hc hctx (hjoined e (List.of_mem_zip hm).1)

end Labels

section Slots
variable {req : GateRouteRequest} {header : RouteHeader g} {t : SystemRef} {m left : Machine}
  {response : GateRouteResponse} {jumps : ℕ} {shown : List RouteStep}

/-- The context in which a slot of a request is searched for. -/
def slotContext (scout : EveScoutSnapshot) (req : GateRouteRequest) (header : RouteHeader g)
    (dst : g.NodeIndex) (now : Instant) : RouteContext g :=
  destinationContext scout req.overlay req.preference.toPreference header dst now

/-- What stands behind the route of a slot. -/
structure SlotRoute (scout : EveScoutSnapshot) (req : GateRouteRequest) (header : RouteHeader g)
    (t : SystemRef) (now : Instant) (dst : g.NodeIndex) (p : Path g) (jumps : ℕ)
    (shown : List RouteStep) : Prop where
  dst_eq : resolveSystem g t = .ok dst
  found : best (slotContext scout req header dst now).network header.src dst = some p
  jumps_eq : jumps = p.length - 1
  shown_eq : shown = buildSteps (slotContext scout req header dst now) p

theorem destinationOutcome_eq_route : destinationOutcome scout req header t now =
      .route jumps shown ↔ ∃ dst p, SlotRoute scout req header t now dst p jumps shown := by
  constructor
  · intro h
    unfold destinationOutcome at h
    cases hdst : resolveSystem g t with
    | error e =>
      rw [hdst] at h
      cases h
    | ok dst =>
      rw [hdst] at h
      dsimp only at h
      cases hb : best (slotContext scout req header dst now).network header.src dst with
      | none =>
        unfold slotContext at hb
        rw [hb] at h
        cases h
      | some p =>
        have hb' := hb
        unfold slotContext at hb'
        rw [hb'] at h
        cases h
        exact ⟨dst, p, hdst, hb, rfl, rfl⟩
  · rintro ⟨dst, p, hdst, hb, rfl, rfl⟩
    exact destinationOutcome_of_best rfl hdst hb

/-- A response holds, slot by slot, what each destination comes to. -/
theorem results_of_run (h : computeGateRoute g scout req m = .ok (.ok response, left)) :
    ∃ header, resolveHeader g req = .ok header ∧ ∀ (i : ℕ) slot,
      response.results[i]? = some slot ↔ ∃ t, req.dst[i]? = some t ∧
        slot = destinationResult scout req header t (slotInstant g req m i) := by
  cases hh : resolveHeader g req with
  | error e =>
    unfold computeGateRoute at h
    rw [hh] at h
    cases h
  | ok header =>
    obtain ⟨_, hrun⟩ := computeGateRoute_gives scout hh m
    rw [h] at hrun
    have hresp := Except.ok.inj (congrArg Prod.fst (Except.ok.inj hrun))
    subst hresp
    refine ⟨header, rfl, fun i slot => ?_⟩
    rw [List.getElem?_mapIdx, Option.map_eq_some_iff]
    simp only [slotInstant, eq_comm]

theorem slot_of_run {i : ℕ} {slot : GateRouteResult}
    (h : computeGateRoute g scout req m = .ok (.ok response, left))
    (hslot : response.results[i]? = some slot) (hroute : slot.outcome = .route jumps shown) :
    ∃ header dst p, resolveHeader g req = .ok header ∧
      SlotRoute scout req header slot.dst (slotInstant g req m i) dst p jumps shown := by
  obtain ⟨header, hh, hresults⟩ := results_of_run h
  obtain ⟨t, _, rfl⟩ := (hresults i slot).mp hslot
  obtain ⟨dst, p, hp⟩ := destinationOutcome_eq_route.mp hroute
  exact ⟨header, dst, p, hh, hp⟩

theorem slotContext_exact (scout : EveScoutSnapshot) (hh : resolveHeader g req = .ok header)
    (dst : g.NodeIndex) (now : Instant) :
    resolveConnections g req.overlay = .ok header.connections ∧
      OverlayExact (slotContext scout req header dst now)
        (overlayEntries scout req.overlay [header.src, dst] now header.connections) :=
  ⟨(resolveHeader_ok_iff.mp hh).2.2.2.2, scoutOverlay_exact _ _ _ _ _ _ _⟩

end Slots

/-- Every path that is shown, of a fan-out or of a staging leg, is a truthful
account of how each of its systems is reached. -/
theorem paths_truthful (g : GraphData) (scout : EveScoutSnapshot) (m left : Machine) :
    (∀ req response, computeGateRoute g scout req m = .ok (.ok response, left) →
      ∀ (i : ℕ) slot jumps shown, response.results[i]? = some slot →
        slot.outcome = .route jumps shown → ∃ src dst ctx p,
          resolveSystem g req.src = .ok src ∧ resolveSystem g slot.dst = .ok dst ∧
          CertifiedPath ctx scout req.overlay [src, dst] (slotInstant g req m i) p shown) ∧
    ∀ (within : WithinUnsorted g) query destOk stageOk onDestReject response,
      computeStaging within scout query destOk stageOk onDestReject m =
        .ok (.ok response, left) → ∃ src dst ctx p,
          resolveSystem g query.src = .ok src ∧ resolveSystem g query.dst = .ok dst ∧
          CertifiedPath ctx scout query.overlay [src, dst] (m.clock m.reads) p
            response.chosen.gatePath := by
  constructor
  · intro req response hrun i slot jumps shown hslot hroute
    obtain ⟨header, dst, p, hh, hp⟩ := slot_of_run hrun hslot hroute
    obtain ⟨hc, hctx⟩ := slotContext_exact scout hh dst (slotInstant g req m i)
    have hcert := certified_of_best hc hctx hp.found
    rw [← hp.shown_eq] at hcert
    exact ⟨header.src, dst, _, p, (resolveHeader_ok_iff.mp hh).2.2.1, hp.dst_eq, hcert⟩
  · intro within query destOk stageOk onDestReject response hrun
    obtain ⟨header, head, rest, hh, hb, _, rfl⟩ := computeStaging_ok hrun
    exact ⟨header.src, header.dst, _, head.path, hh.src, hh.dst,
      certified_of_best hh.connections (scoutOverlay_exact _ _ _ _ _ _ _) hb⟩

section Shortcut

theorem partition_hub (raw : List RawSignature) (fetchedAt : Instant) (hub : Hub) :
    ∀ sig ∈ hub.signatures (partition raw fetchedAt), sig.outSystemId = hub.id := by
  have hfold : ∀ snap : EveScoutSnapshot,
      (∀ sig ∈ hub.signatures snap, sig.outSystemId = hub.id) →
      ∀ sig ∈ hub.signatures (raw.foldl EveScoutSnapshot.keep snap), sig.outSystemId = hub.id := by
    induction raw with
    | nil => exact fun _ h => h
    | cons r raw ih =>
      intro snap h
      apply ih
      unfold EveScoutSnapshot.keep
      split
      · exact h
      · split
        · rename_i hr
          cases hub with
          | thera => simpa [Hub.signatures, or_imp, forall_and] using ⟨h, hr⟩
          | turnur => exact h
        · split
          · rename_i hr
            cases hub with
            | thera => exact h
            | turnur => simpa [Hub.signatures, or_imp, forall_and] using ⟨h, hr⟩
          · exact h
  apply hfold
  cases hub <;> simp [Hub.signatures]

/-- No gate, no enabled connection and no included signature of another hub
joins the two systems. -/
structure OnlyBy (hub : Hub) (scout : EveScoutSnapshot) (inputs : OverlayInputs)
    (endpoints : List g.NodeIndex) (now : Instant) (a b : g.NodeIndex) : Prop where
  noGate : g.gateGraph.containsEdge a b = false
  noConnection : ∀ kind, inputs.uses (edgeKind kind) = true → ¬ ConnectionJoins g inputs kind a b
  noOther : ∀ other : Hub, other ≠ hub → other.Included inputs endpoints →
    ¬ SignatureJoins g (other.signatures scout) now a b

/-- A hop that only the hub's signatures allow has the hub at one of its ends,
and the hub is an endpoint. -/
theorem hub_of_onlyBy {hub : Hub} (hc : resolveConnections g inputs = .ok connections)
    (hctx : OverlayExact ctx (overlayEntries scout inputs endpoints now connections))
    (hhub : ∀ sig ∈ hub.signatures scout, sig.outSystemId = hub.id)
    (hflag : hub.includeFlag inputs = false) (hj : ctx.Joined a b)
    (honly : OnlyBy hub scout inputs endpoints now a b) :
    ∃ v ∈ endpoints, g.idToIdx hub.id = some v ∧ (a = v ∨ b = v) := by
  have hedge := hj.resolve_left (by simp [RouteContext.hasGateEdge, honly.noGate])
  rw [RouteContext.isOverlayEdge, hctx.kind, overlay_isSome_iff hc] at hedge
  rcases hedge.2 with ⟨kind, hu, hjoin⟩ | ⟨other, hi, hjoin⟩
  · exact absurd hjoin (honly.noConnection kind hu)
  · have hother : other = hub := by
      by_contra hne
      exact honly.noOther other hne hi hjoin
    subst hother
    obtain ⟨v, hv, hid⟩ := hi.resolve_left (by simp [hflag])
    obtain ⟨sig, hs, _, u, w, hu, _, hbetween⟩ := hjoin
    rw [hhub sig hs, hid] at hu
    obtain rfl := Option.some.inj hu
    refine ⟨v, hv, hid, ?_⟩
    rcases hbetween with ⟨rfl, _⟩ | ⟨rfl, _⟩
    · exact .inl rfl
    · exact .inr rfl

end Shortcut

/-- Without its flag a hub is no shortcut: a hop that only its signatures allow
leaves it at the start of a route or enters it at the end, and there is no such
hop on a route that neither starts nor ends there. -/
theorem hub_never_shortcut (g : GraphData) (raw : List RawSignature) (fetchedAt : Instant)
    (req : GateRouteRequest) (hub : Hub) (m left : Machine) (response : GateRouteResponse)
    (hflag : hub.includeFlag req.overlay = false)
    (hrun : computeGateRoute g (partition raw fetchedAt) req m = .ok (.ok response, left)) :
    ∀ (i : ℕ) slot jumps shown, response.results[i]? = some slot →
      slot.outcome = .route jumps shown → ∃ header dst p, resolveHeader g req = .ok header ∧
        SlotRoute (partition raw fetchedAt) req header slot.dst (slotInstant g req m i) dst p
          jumps shown ∧
        (∀ a b, (a, b) ∈ steps p →
          OnlyBy hub (partition raw fetchedAt) req.overlay [header.src, dst]
            (slotInstant g req m i) a b →
          (g.idToIdx hub.id = some a ∧ a = header.src ∧ ∃ rest, p = a :: b :: rest) ∨
            (g.idToIdx hub.id = some b ∧ b = dst ∧ ∃ front, p = front ++ [a, b])) ∧
        ((∀ v, g.idToIdx hub.id = some v → v ≠ header.src ∧ v ≠ dst) →
          ∀ a b, (a, b) ∈ steps p →
            ¬ OnlyBy hub (partition raw fetchedAt) req.overlay [header.src, dst]
              (slotInstant g req m i) a b) := by
  intro i slot jumps shown hslot hroute
  obtain ⟨header, dst, p, hh, hp⟩ := slot_of_run hrun hslot hroute
  have hbest := cheapestRoute_of_canonical (best_eq_some.mp hp.found)
  have hends : ∀ a b, (a, b) ∈ steps p →
      OnlyBy hub (partition raw fetchedAt) req.overlay [header.src, dst]
        (slotInstant g req m i) a b →
      (g.idToIdx hub.id = some a ∧ a = header.src ∧ ∃ rest, p = a :: b :: rest) ∨
        (g.idToIdx hub.id = some b ∧ b = dst ∧ ∃ front, p = front ++ [a, b]) := by
    intro a b hab honly
    obtain ⟨hc, hctx⟩ := slotContext_exact (partition raw fetchedAt) hh dst
      (slotInstant g req m i)
    have hj := (isChain_iff_steps _ _).mp hbest.admits.joined (a, b) hab
    obtain ⟨v, hv, hid, hend⟩ :=
      hub_of_onlyBy hc hctx (partition_hub raw fetchedAt hub) hflag hj honly
    -- A simple path is at its source only once, and at its destination only once.
    obtain ⟨hbsrc, hfirst⟩ := first_step hbest.nodup hbest.admits.head hab
    obtain ⟨hadst, hlast⟩ := last_step hbest.nodup hbest.admits.last hab
    simp only [List.mem_cons, List.not_mem_nil, or_false] at hv
    rcases hend with rfl | rfl
    · have hsrc := hv.resolve_right hadst
      exact .inl ⟨hid, hsrc, hfirst hsrc⟩
    · have hdst := hv.resolve_left hbsrc
      exact .inr ⟨hid, hdst, hlast hdst⟩
  refine ⟨header, dst, p, hh, hp, hends, fun hapart a b hab honly => ?_⟩
  rcases hends a b hab honly with ⟨hid, hsrc, _⟩ | ⟨hid, hdst, _⟩
  · exact (hapart a hid).1 hsrc
  · exact (hapart b hid).2 hdst

/-- One row of Turnur's, and one jump over it. -/
def turnurRow : RawSignature := ⟨TURNUR_SYSTEM_ID, 1, "S1", none, "wormhole", 1⟩

theorem hub_never_shortcut_turnur :
    ∃ shown header dst p, resolveHeader turnurChain twiceTurnur = .ok header ∧
      SlotRoute (partition [turnurRow] 0) twiceTurnur header (.id TURNUR_SYSTEM_ID) 0 dst p
        1 shown ∧
      (∀ a b, (a, b) ∈ steps p →
        OnlyBy .turnur (partition [turnurRow] 0) twiceTurnur.overlay [header.src, dst] 0 a b →
        (turnurChain.idToIdx Hub.turnur.id = some a ∧ a = header.src ∧
            ∃ rest, p = a :: b :: rest) ∨
          (turnurChain.idToIdx Hub.turnur.id = some b ∧ b = dst ∧
            ∃ front, p = front ++ [a, b])) ∧
      ((∀ v, turnurChain.idToIdx Hub.turnur.id = some v → v ≠ header.src ∧ v ≠ dst) →
        ∀ a b, (a, b) ∈ steps p →
          ¬ OnlyBy .turnur (partition [turnurRow] 0) twiceTurnur.overlay [header.src, dst] 0
            a b) := by
  have hrun : (computeGateRoute turnurChain (partition [turnurRow] 0) twiceTurnur
      { clock := fun _ => 0 }).map (fun r => r.1.map fun response => response.results[0]?) =
        .ok (.ok (some ⟨.id TURNUR_SYSTEM_ID, .route 1
          [routeStep (sysAt (1, .lowsec, 1)) "start",
            routeStep (sysAt (TURNUR_SYSTEM_ID, .lowsec, 3)) "wormhole"]⟩)) := by
    decide +kernel
  obtain ⟨⟨answer, left⟩, hr, he⟩ := map_ok.mp hrun
  obtain ⟨response, rfl, hslot⟩ := map_ok.mp he
  exact ⟨_, hub_never_shortcut turnurChain [turnurRow] 0 twiceTurnur .turnur
    { clock := fun _ => 0 } left response rfl hr 0 _ 1 _ hslot rfl⟩

end Palu
