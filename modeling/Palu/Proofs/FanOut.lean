import Palu.Proofs.Preferences
import Palu.Proofs.Requests

namespace Palu

open Paths Collections

variable {g : GraphData} {scout : EveScoutSnapshot} {inputs : OverlayInputs}
  {req : GateRouteRequest} {now : Instant}

section Context

/-- Two contexts that differ in their overlays only. -/
structure SameFrame (c d : RouteContext g) : Prop where
  avoid : c.avoid = d.avoid
  preference : c.preference = d.preference

theorem SameFrame.refl (c : RouteContext g) : SameFrame c c := ⟨rfl, rfl⟩

theorem SameFrame.trans {c d e : RouteContext g} (h : SameFrame c d) (h' : SameFrame d e) :
    SameFrame c e :=
  ⟨h.avoid.trans h'.avoid, h.preference.trans h'.preference⟩

theorem addConnection_frame (ctx : RouteContext g) (a b : g.NodeIndex) (kind : EdgeKind) :
    SameFrame (ctx.addConnection a b kind) ctx := by
  unfold RouteContext.addConnection
  split
  · exact .refl ctx
  · exact ⟨rfl, rfl⟩

theorem foldl_frame {α : Type*} {f : RouteContext g → α → RouteContext g}
    (h : ∀ c x, SameFrame (f c x) c) (xs : List α) (ctx : RouteContext g) :
    SameFrame (xs.foldl f ctx) ctx := by
  induction xs generalizing ctx with
  | nil => exact .refl ctx
  | cons x xs ih => exact (ih (f ctx x)).trans (h ctx x)

theorem addOverlayConnections_frame
    (connections : List (g.NodeIndex × g.NodeIndex × EdgeKind)) (ctx : RouteContext g) :
    SameFrame (addOverlayConnections inputs connections ctx) ctx := by
  refine foldl_frame (fun c x => ?_) connections ctx
  dsimp only
  split
  · exact addConnection_frame c _ _ _
  · exact .refl c

theorem addScoutEdges_frame (sigs : List Signature) (ctx : RouteContext g) :
    SameFrame (addScoutEdges ctx sigs now) ctx := by
  refine foldl_frame (fun c sig => ?_) sigs ctx
  unfold addScoutEdge
  split
  · split
    · exact addConnection_frame c _ _ _
    · exact .refl c
  · exact .refl c

theorem scoutOverlay_frame (endpoints : List g.NodeIndex) (ctx : RouteContext g) :
    SameFrame (scoutOverlay scout inputs endpoints now ctx) ctx := by
  unfold scoutOverlay
  dsimp only
  split <;> split
  · exact (addScoutEdges_frame _ _).trans (addScoutEdges_frame _ _)
  · exact addScoutEdges_frame _ _
  · exact addScoutEdges_frame _ _
  · exact .refl ctx

/-- The signatures whose expiry is looked at for a route between `endpoints`. -/
def consulted (g : GraphData) (scout : EveScoutSnapshot) (inputs : OverlayInputs)
    (endpoints : List g.NodeIndex) : List Signature :=
  (if inputs.includeThera || isEndpoint g endpoints THERA_SYSTEM_ID then scout.thera else []) ++
    if inputs.includeTurnur || isEndpoint g endpoints TURNUR_SYSTEM_ID then scout.turnur else []

/-- The edge of a signature taken for live. -/
def addSignature (ctx : RouteContext g) (sig : Signature) : RouteContext g :=
  match g.idToIdx sig.outSystemId, g.idToIdx sig.inSystemId with
  | some out, some in_ => ctx.addConnection out in_ .wormhole
  | _, _ => ctx

/-- The overlay of those consulted that `live` takes for live. -/
def overlayOf (live : Signature → Bool) (scout : EveScoutSnapshot) (inputs : OverlayInputs)
    (endpoints : List g.NodeIndex) (ctx : RouteContext g) : RouteContext g :=
  ((consulted g scout inputs endpoints).filter live).foldl addSignature ctx

theorem addScoutEdges_eq_foldl (sigs : List Signature) (ctx : RouteContext g) :
    addScoutEdges ctx sigs now = (sigs.filter (Signature.isLive · now)).foldl addSignature ctx := by
  rw [List.foldl_filter]
  rfl

theorem scoutOverlay_eq_overlayOf (endpoints : List g.NodeIndex) (ctx : RouteContext g) :
    scoutOverlay scout inputs endpoints now ctx =
      overlayOf (Signature.isLive · now) scout inputs endpoints ctx := by
  unfold scoutOverlay overlayOf consulted
  rw [List.filter_append, List.foldl_append]
  dsimp only
  split <;> split <;> simp only [addScoutEdges_eq_foldl, List.filter_nil, List.foldl_nil]

/-- Only what is taken of the signatures consulted matters. -/
theorem overlayOf_congr {live live' : Signature → Bool} {endpoints : List g.NodeIndex}
    (h : ∀ sig ∈ consulted g scout inputs endpoints, live sig = live' sig)
    (ctx : RouteContext g) :
    overlayOf live scout inputs endpoints ctx = overlayOf live' scout inputs endpoints ctx := by
  unfold overlayOf
  rw [List.filter_congr h]

end Context

section Slots

/-- The context in which one destination of a fan-out is searched for. -/
def destinationContext (scout : EveScoutSnapshot) (inputs : OverlayInputs)
    (preference : Preference) (header : RouteHeader g) (dst : g.NodeIndex) (now : Instant) :
    RouteContext g :=
  scoutOverlay scout inputs [header.src, dst] now
    (addOverlayConnections inputs header.connections
      (.new (header.sharedAvoid.erase dst) preference))

/-- What a destination comes to when its signatures are read at `now`. -/
noncomputable def destinationOutcome (scout : EveScoutSnapshot) (req : GateRouteRequest)
    (header : RouteHeader g) (toRef : SystemRef) (now : Instant) : GateRouteOutcome :=
  foldFailure (match resolveSystem g toRef with
    | .error e => .error e
    | .ok dst =>
      let ctx := destinationContext scout req.overlay req.preference.toPreference header dst now
      searchOutcome ctx (best ctx.network header.src dst))

theorem destinationOutcome_of_best {header : RouteHeader g} {toRef : SystemRef}
    {dst : g.NodeIndex} {ctx : RouteContext g} {p : Path g}
    (hctx : destinationContext scout req.overlay req.preference.toPreference header dst now = ctx)
    (hdst : resolveSystem g toRef = .ok dst) (hb : best ctx.network header.src dst = some p) :
    destinationOutcome scout req header toRef now =
      .route (p.length - 1) (buildSteps ctx p) := by
  subst hctx
  simp only [destinationOutcome, hdst, hb, searchOutcome, foldFailure]

noncomputable def destinationResult (scout : EveScoutSnapshot) (req : GateRouteRequest)
    (header : RouteHeader g) (toRef : SystemRef) (now : Instant) : GateRouteResult :=
  ⟨toRef, destinationOutcome scout req header toRef now⟩

theorem applyScoutOverlay_gives (endpoints : List g.NodeIndex) (ctx : RouteContext g)
    (m : Machine) :
    Gives (applyScoutOverlay scout inputs endpoints ctx) m
      (scoutOverlay scout inputs endpoints (m.clock m.reads) ctx) 1 :=
  (gives_utcNow m).map fun now => scoutOverlay scout inputs endpoints now ctx

/-- A search for one destination, as `shortestPath` is one. -/
abbrev RouteSearch (g : GraphData) := RouteContext g → g.NodeIndex → g.NodeIndex →
  DijkstraScratch → Except Fault (Option (Path g) × DijkstraScratch)

/-- `computeOne` over any search. -/
def computeOneBy (search : RouteSearch g) (scout : EveScoutSnapshot) (inputs : OverlayInputs)
    (preference : Preference) (header : RouteHeader g) (toRef : SystemRef) :
    Run (Except AppError GateRouteOutcome) :=
  match resolveSystem g toRef with
  | .error e => pure (.error e)
  | .ok dst => do
    let ctx := RouteContext.new (header.sharedAvoid.erase dst) preference
    let ctx ← applyScoutOverlay scout inputs [header.src, dst]
      (addOverlayConnections inputs header.connections ctx)
    let found ← withScratch (search ctx header.src dst)
    pure (searchOutcome ctx found)

/-- `computeGateRoute` over any search. -/
def computeGateRouteBy (search : RouteSearch g) (scout : EveScoutSnapshot)
    (req : GateRouteRequest) : Run (Except AppError GateRouteResponse) :=
  match resolveHeader g req with
  | .error e => pure (.error e)
  | .ok header => do
    let results ← req.dst.mapM fun toRef => do
      let outcome ← computeOneBy search scout req.overlay req.preference.toPreference header toRef
      pure { dst := toRef, outcome := foldFailure outcome }
    pure (.ok { src := req.src, results := results })

section Searches
variable {search : RouteSearch g}
  {found : RouteContext g → g.NodeIndex → g.NodeIndex → Option (Path g)}

/-- What a destination comes to at `now`, with a search that finds `found`. -/
def outcomeBy (found : RouteContext g → g.NodeIndex → g.NodeIndex → Option (Path g))
    (scout : EveScoutSnapshot) (req : GateRouteRequest) (header : RouteHeader g)
    (toRef : SystemRef) (now : Instant) : GateRouteOutcome :=
  foldFailure (match resolveSystem g toRef with
    | .error e => .error e
    | .ok dst =>
      let ctx := destinationContext scout req.overlay req.preference.toPreference header dst now
      searchOutcome ctx (found ctx header.src dst))

def resultBy (found : RouteContext g → g.NodeIndex → g.NodeIndex → Option (Path g))
    (scout : EveScoutSnapshot) (req : GateRouteRequest) (header : RouteHeader g)
    (toRef : SystemRef) (now : Instant) : GateRouteResult :=
  ⟨toRef, outcomeBy found scout req header toRef now⟩

variable (hsearch : ∀ ctx src dst scratch, ∃ left,
  search ctx src dst scratch = .ok (found ctx src dst, left))
include hsearch

/-- One destination reads the clock once, and only if it resolves. -/
theorem computeOneBy_gives (scout : EveScoutSnapshot) (req : GateRouteRequest)
    (header : RouteHeader g) (toRef : SystemRef) (m : Machine) :
    Gives (do
        let outcome ←
          computeOneBy search scout req.overlay req.preference.toPreference header toRef
        pure ({ dst := toRef, outcome := foldFailure outcome } : GateRouteResult)) m
      (resultBy found scout req header toRef (m.clock m.reads)) (resolves g toRef).toNat := by
  unfold computeOneBy resultBy outcomeBy resolves
  cases resolveSystem g toRef with
  | error e => exact gives_pure _ m
  | ok dst =>
    refine Gives.map ?_ fun outcome => (⟨toRef, foldFailure outcome⟩ : GateRouteResult)
    apply Gives.bind (n := 1) (k := 0) (applyScoutOverlay_gives _ _ m)
    intro scratch
    exact (gives_withScratch (hsearch _ _ _) _).map _

/-- A valid header answers every destination in its own slot, at the instant
the clock shows when the slot is reached. -/
theorem computeGateRouteBy_gives (scout : EveScoutSnapshot) {header : RouteHeader g}
    (h : resolveHeader g req = .ok header) (m : Machine) :
    Gives (computeGateRouteBy search scout req) m
      (.ok ⟨req.src, req.dst.mapIdx fun i t => resultBy found scout req header t
        (m.clock (m.reads + (req.dst.take i).countP (resolves g)))⟩)
      (req.dst.countP (resolves g)) := by
  unfold computeGateRouteBy
  rw [h]
  have hslots := gives_mapM (computeOneBy_gives hsearch scout req header) req.dst m
  exact hslots.map fun results => Except.ok (GateRouteResponse.mk req.src results)

end Searches

theorem computeGateRoute_gives (scout : EveScoutSnapshot) {header : RouteHeader g}
    (h : resolveHeader g req = .ok header) (m : Machine) :
    Gives (computeGateRoute g scout req) m
      (.ok ⟨req.src, req.dst.mapIdx fun i t => destinationResult scout req header t
        (m.clock (m.reads + (req.dst.take i).countP (resolves g)))⟩)
      (req.dst.countP (resolves g)) :=
  computeGateRouteBy_gives shortestPath_eq scout h m

end Slots

section Header

/-- What makes a fan-out fail as a whole. -/
def HeaderDefect (g : GraphData) (req : GateRouteRequest) : Prop :=
  req.dst = [] ∨ MAX_DESTINATIONS < req.dst.length ∨ resolves g req.src = false ∨
    (∃ r ∈ req.avoid, resolves g r = false) ∨
    ∃ c ∈ req.connections, resolves g c.src = false ∨ resolves g c.dst = false

instance : Decidable (HeaderDefect g req) := inferInstanceAs (Decidable (_ ∨ _))

theorem resolveHeader_ok_iff {header : RouteHeader g} : resolveHeader g req = .ok header ↔
    req.dst ≠ [] ∧ req.dst.length ≤ MAX_DESTINATIONS ∧
      resolveSystem g req.src = .ok header.src ∧
      (∃ avoid, assembleAvoidSet g req.overlay = .ok avoid ∧
        header.sharedAvoid = avoid.erase header.src) ∧
      resolveConnections g req.overlay = .ok header.connections := by
  unfold resolveHeader
  by_cases hne : req.dst = []
  · simp [hne, throw, throwThe, MonadExceptOf.throw, bind, Except.bind]
  · by_cases hlen : MAX_DESTINATIONS < req.dst.length
    · simp [hne, hlen, throw, throwThe, MonadExceptOf.throw, bind, Except.bind]
    · have hle := not_lt.mp hlen
      simp only [List.isEmpty_iff, hne, gt_iff_lt, hlen, if_false, bind_ok, ne_eq,
        not_false_eq_true, hle, true_and]
      constructor
      · intro ⟨src, hsrc, avoid, havoid, conns, hconns, he⟩
        cases Except.ok.inj he
        exact ⟨hsrc, ⟨avoid, havoid, rfl⟩, hconns⟩
      · intro ⟨hsrc, ⟨avoid, havoid, he⟩, hconns⟩
        exact ⟨_, hsrc, avoid, havoid, _, hconns, by rw [← he]; rfl⟩

theorem resolveHeader_valid : (∃ header, resolveHeader g req = .ok header) ↔
    ¬ HeaderDefect g req := by
  have havoid := @assembleAvoidSet_ok g req.overlay
  have hconns := @resolveConnections_ok g req.overlay
  simp only [resolveHeader_ok_iff]
  constructor
  · intro ⟨header, hne, hlen, hsrc, ⟨avoid, ha, _⟩, hc⟩ hdefect
    rcases hdefect with h | h | h | ⟨r, hr, h⟩ | ⟨c, hm, h⟩
    · exact hne h
    · exact h.not_ge hlen
    · rw [resolves_iff.mpr ⟨_, hsrc⟩] at h
      cases h
    · rw [havoid.mp ⟨avoid, ha⟩ r hr] at h
      cases h
    · obtain ⟨h₁, h₂⟩ := hconns.mp ⟨_, hc⟩ c hm
      rw [h₁, h₂] at h
      simp at h
  · intro h
    simp only [HeaderDefect, not_or, not_lt, not_exists, not_and, Bool.not_eq_false] at h
    obtain ⟨hne, hlen, hsrc, ha, hc⟩ := h
    obtain ⟨src, hsrc⟩ := resolves_iff.mp hsrc
    obtain ⟨avoid, ha⟩ := havoid.mpr ha
    obtain ⟨conns, hc⟩ := hconns.mpr hc
    exact ⟨⟨src, avoid.erase src, conns⟩, hne, hlen, hsrc, ⟨avoid, ha, rfl⟩, hc⟩

/-- A request without a defect is answered slot by slot. -/
theorem computeGateRoute_answers (scout : EveScoutSnapshot) (h : ¬ HeaderDefect g req)
    (m : Machine) : ∃ header left, resolveHeader g req = .ok header ∧
      computeGateRoute g scout req m = .ok (.ok ⟨req.src, req.dst.mapIdx fun i t =>
        destinationResult scout req header t
          (m.clock (m.reads + (req.dst.take i).countP (resolves g)))⟩, left) := by
  obtain ⟨header, hh⟩ := resolveHeader_valid.mpr h
  obtain ⟨_, hrun⟩ := computeGateRoute_gives scout hh m
  exact ⟨header, _, hh, hrun⟩

/-- The header does not look at which destinations there are, only at how many. -/
theorem resolveHeader_dst {header : RouteHeader g} {ts : List SystemRef}
    (h : resolveHeader g req = .ok header) (hne : ts ≠ [])
    (hlen : ts.length ≤ MAX_DESTINATIONS) :
    resolveHeader g { req with dst := ts } = .ok header := by
  obtain ⟨_, _, hrest⟩ := resolveHeader_ok_iff.mp h
  exact resolveHeader_ok_iff.mpr ⟨hne, hlen, hrest⟩

end Header

/-- At one instant, a fan-out answers its destinations one by one. -/
theorem computeGateRoute_yields {header : RouteHeader g} (h : resolveHeader g req = .ok header)
    (scout : EveScoutSnapshot) (now : Instant) :
    Yields (computeGateRoute g scout req) now
      (.ok ⟨req.src, req.dst.map fun t => destinationResult scout req header t now⟩) := by
  intro m hm
  have hslots : (req.dst.mapIdx fun i t => destinationResult scout req header t
      (m.clock (m.reads + (req.dst.take i).countP (resolves g)))) =
      req.dst.map fun t => destinationResult scout req header t now := by
    apply List.ext_getElem?
    intro i
    rw [List.getElem?_mapIdx, List.getElem?_map, hm]
  obtain ⟨left, hl⟩ := computeGateRoute_gives scout h m
  rw [hslots] at hl
  exact ⟨_, hl⟩

theorem computeGateRoute_error (h : HeaderDefect g req) (m : Machine) :
    ∃ e, computeGateRoute g scout req m = .ok (.error e, m) := by
  unfold computeGateRoute
  cases hr : resolveHeader g req with
  | error e => exact ⟨e, rfl⟩
  | ok header => exact absurd h (resolveHeader_valid.mp ⟨header, hr⟩)

/-- A fan-out fails as a whole exactly on a header defect. Otherwise each
destination is answered as a request of its own would be, so the results of
two lists of destinations put together are the results of each put together. -/
theorem fanOut_independent (g : GraphData) (scout : EveScoutSnapshot) (req : GateRouteRequest)
    (now : Instant) :
    (∀ m, (∃ e left, computeGateRoute g scout req m = .ok (.error e, left)) ↔
      HeaderDefect g req) ∧
    (¬ HeaderDefect g req → ∃ results : List GateRouteResult,
      Yields (computeGateRoute g scout req) now (.ok ⟨req.src, results⟩) ∧
      results.map GateRouteResult.dst = req.dst ∧
      (∀ (i : ℕ) t, req.dst[i]? = some t → ∃ outcome, results[i]? = some ⟨t, outcome⟩ ∧
        Yields (computeGateRoute g scout { req with dst := [t] }) now
          (.ok ⟨req.src, [⟨t, outcome⟩]⟩)) ∧
      ∀ xs ys, xs ≠ [] → ys ≠ [] → req.dst = xs ++ ys → ∃ rx ry,
        Yields (computeGateRoute g scout { req with dst := xs }) now (.ok ⟨req.src, rx⟩) ∧
        Yields (computeGateRoute g scout { req with dst := ys }) now (.ok ⟨req.src, ry⟩) ∧
        results = rx ++ ry) := by
  constructor
  · intro m
    refine ⟨fun ⟨e, left, he⟩ => ?_, fun h => ?_⟩
    · by_contra hvalid
      obtain ⟨header, hh⟩ := resolveHeader_valid.mpr hvalid
      obtain ⟨_, hok⟩ := computeGateRoute_gives scout hh m
      rw [he] at hok
      cases hok
    · obtain ⟨e, he⟩ := computeGateRoute_error h m
      exact ⟨e, m, he⟩
  · intro hvalid
    obtain ⟨header, hh⟩ := resolveHeader_valid.mpr hvalid
    have hlen := (resolveHeader_ok_iff.mp hh).2.1
    -- Any other list of destinations under this header is answered slot by slot too.
    have hpart : ∀ ts, ts ≠ [] → ts.length ≤ MAX_DESTINATIONS →
        Yields (computeGateRoute g scout { req with dst := ts }) now
          (.ok ⟨req.src, ts.map fun t => destinationResult scout req header t now⟩) :=
      fun ts hne hts => computeGateRoute_yields (resolveHeader_dst hh hne hts) scout now
    refine ⟨_, computeGateRoute_yields hh scout now, ?_, ?_, ?_⟩
    · rw [List.map_map]
      exact List.map_id _
    · intro i t ht
      refine ⟨destinationOutcome scout req header t now, ?_, ?_⟩
      · rw [List.getElem?_map, ht]
        rfl
      · exact hpart [t] (by simp) (by simp [MAX_DESTINATIONS])
    · intro xs ys hxs hys he
      rw [he, List.length_append] at hlen
      refine ⟨_, _, hpart xs hxs (by omega), hpart ys hys (by omega), ?_⟩
      rw [he, List.map_append]

section Transit
variable {E : g.NodeIndex → g.NodeIndex → Prop} {X : Set g.NodeIndex}
  {src dst : g.NodeIndex} {p : Path g}

/-- A walk over `E` whose interior keeps out of `X`. -/
structure TransitWalk (E : g.NodeIndex → g.NodeIndex → Prop) (X : Set g.NodeIndex)
    (src dst : g.NodeIndex) (p : Path g) : Prop where
  head : p.head? = some src
  last : p.getLast? = some dst
  joined : p.IsChain E
  clear : ∀ v ∈ p.tail.dropLast, v ∉ X

/-- A slot is a route exactly when some walk keeps its interior out of `X`, and
otherwise says so. The route it shows is such a walk, and a shortest one if
that was asked for. -/
structure TransitSlot (E : g.NodeIndex → g.NodeIndex → Prop) (X : Set g.NodeIndex)
    (src dst : g.NodeIndex) (preference : RoutePreference) (outcome : GateRouteOutcome) :
    Prop where
  route_iff : (∃ jumps path, outcome = .route jumps path) ↔ ∃ p, TransitWalk E X src dst p
  unreachable : (¬ ∃ p, TransitWalk E X src dst p) →
    outcome = .failure "unreachable" "no gate route between the requested systems"
  shown : ∀ jumps path, outcome = .route jumps path → ∃ p, TransitWalk E X src dst p ∧
    jumps = path.length - 1 ∧
    path.map (fun step => (step.system, step.systemId)) =
      p.map (fun v => ((g.systems.get v).name, (g.systems.get v).id)) ∧
    (preference = .shortest → ∀ q, TransitWalk E X src dst q → p.length ≤ q.length)

/-- All of a step but its label is read off the system it enters. -/
theorem buildSteps_map {β : Type*} {f : RouteStep → β}
    (hf : ∀ (s : System) (via : String), f (routeStep s via) = f (routeStep s ""))
    (ctx : RouteContext g) (p : Path g) :
    (buildSteps ctx p).map f = p.map fun v => f (routeStep (g.systems.get v) "") := by
  have hgo : ∀ (prev : g.NodeIndex) (p : Path g),
      (buildSteps.go ctx prev p).map f = p.map fun v => f (routeStep (g.systems.get v) "") := by
    intro prev p
    induction p generalizing prev with
    | nil => rfl
    | cons v p ih => rw [buildSteps.go, List.map_cons, List.map_cons, hf, ih]
  cases p with
  | nil => rfl
  | cons v p => rw [buildSteps, List.map_cons, List.map_cons, hf, hgo]

/-- The systems of the steps are those of the path. -/
theorem buildSteps_systems (ctx : RouteContext g) (p : Path g) :
    (buildSteps ctx p).map (fun step => (step.system, step.systemId)) =
      p.map fun v => ((g.systems.get v).name, (g.systems.get v).id) :=
  buildSteps_map (fun _ _ => rfl) ctx p

theorem buildSteps_length (ctx : RouteContext g) (p : Path g) :
    (buildSteps ctx p).length = p.length := by
  simpa using congrArg List.length (buildSteps_systems ctx p)

/-- An exemption of the ends is all that separates the two kinds of walk. -/
structure Exempts (ctx : RouteContext g) (X : Set g.NodeIndex) (src dst : g.NodeIndex) :
    Prop where
  avoid : ∀ v, v ∈ ctx.avoid ↔ v ∈ X ∧ v ≠ src ∧ v ≠ dst

namespace Exempts
variable {ctx : RouteContext g}

theorem admits (h : Exempts ctx X src dst) (hp : TransitWalk ctx.Joined X src dst p) :
    ctx.Admits src dst p := by
  refine ⟨hp.head, hp.last, hp.joined, fun v hv ha => ?_⟩
  obtain ⟨hx, _, hdst⟩ := (h.avoid v).mp ha
  have hlast : p.tail.getLast? = some dst := by
    rw [← hp.last, List.getLast?_tail, if_neg]
    intro he
    have := List.length_pos_of_mem hv
    rw [List.length_tail] at this
    omega
  rw [← List.dropLast_append_getLast? dst hlast, List.mem_append, List.mem_singleton] at hv
  exact hv.elim (fun hv => hp.clear v hv hx) hdst

/-- A path without repetition never comes back to either of its ends. -/
theorem transit (h : Exempts ctx X src dst) (hp : ctx.Admits src dst p) (hn : p.Nodup) :
    TransitWalk ctx.Joined X src dst p := by
  refine ⟨hp.head, hp.last, hp.joined, fun v hv hx => ?_⟩
  have htail := List.mem_of_mem_dropLast hv
  refine hp.clear v htail ((h.avoid v).mpr ⟨hx, ?_, ?_⟩)
  · intro he
    subst he
    obtain ⟨t, rfl⟩ := List.head?_eq_some_iff.mp hp.head
    exact (List.nodup_cons.mp hn).1 htail
  · intro he
    subst he
    obtain ⟨q, rfl⟩ := List.getLast?_eq_some_iff.mp hp.last
    cases q with
    | nil => simp at hv
    | cons u q =>
      simp only [List.cons_append, List.tail_cons, List.dropLast_concat] at hv
      exact (List.nodup_append.mp hn).2.2 v (List.mem_cons_of_mem _ hv) v (by simp) rfl

theorem slot (h : Exempts ctx X src dst) {preference : RoutePreference}
    (hp : ctx.preference = preference.toPreference) :
    TransitSlot ctx.Joined X src dst preference
      (foldFailure (searchOutcome ctx (best ctx.network src dst))) := by
  cases hb : best ctx.network src dst with
  | none =>
    have hnone : ¬ ∃ p, TransitWalk ctx.Joined X src dst p := by
      intro ⟨p, hw⟩
      exact best_eq_none.mp hb p (RouteContext.admits_iff.mp (h.admits hw))
    refine ⟨⟨fun ⟨_, _, he⟩ => ?_, fun hw => absurd hw hnone⟩, fun _ => rfl, ?_⟩
    · cases he
    · intro _ _ he
      cases he
  | some p =>
    have hroute := cheapestRoute_of_canonical (best_eq_some.mp hb)
    have hw := h.transit hroute.admits hroute.nodup
    refine ⟨⟨fun _ => ⟨p, hw⟩, fun _ => ⟨_, _, rfl⟩⟩, fun hn => absurd ⟨p, hw⟩ hn, ?_⟩
    intro jumps path he
    cases he
    refine ⟨p, hw, ?_, buildSteps_systems ctx p, ?_⟩
    · rw [buildSteps_length]
    · rintro rfl q hq
      have hle := hroute.cheapest q (h.admits hq)
      rw [RouteContext.pathCost_shortest hp, RouteContext.pathCost_shortest hp] at hle
      have := List.length_pos_of_mem (List.mem_of_getLast? hq.last)
      omega

end Exempts

theorem destinationContext_frame (scout : EveScoutSnapshot) (inputs : OverlayInputs)
    (preference : Preference) (header : RouteHeader g)
    (dst : g.NodeIndex) (now : Instant) :
    SameFrame (destinationContext scout inputs preference header dst now)
      (.new (header.sharedAvoid.erase dst) preference) :=
  (scoutOverlay_frame _ _).trans (addOverlayConnections_frame _ _)

theorem destinationContext_exempts {header : RouteHeader g}
    (h : resolveHeader g req = .ok header) (preference : Preference) (dst : g.NodeIndex)
    (now : Instant) :
    Exempts (destinationContext scout req.overlay preference header dst now)
      (excluded g req.overlay) header.src dst := by
  obtain ⟨_, _, _, ⟨avoid, havoid, hshared⟩, _⟩ := resolveHeader_ok_iff.mp h
  refine ⟨fun v => ?_⟩
  rw [(destinationContext_frame _ _ _ _ _ _).avoid]
  change v ∈ header.sharedAvoid.erase dst ↔ _
  rw [hshared, Finset.mem_erase, Finset.mem_erase, mem_assembleAvoidSet havoid]
  tauto

/-- The systems excluded from transit never stand inside a route, may be its
ends, and leave a destination unreachable only if every walk needs one. -/
theorem transit_excluded (g : GraphData) (scout : EveScoutSnapshot) (req : GateRouteRequest)
    (now : Instant) (hvalid : ¬ HeaderDefect g req) :
    ∃ header results, resolveHeader g req = .ok header ∧
      resolveSystem g req.src = .ok header.src ∧
      Yields (computeGateRoute g scout req) now (.ok ⟨req.src, results⟩) ∧
      ∀ (i : ℕ) t dst, req.dst[i]? = some t → resolveSystem g t = .ok dst →
        ∃ outcome, results[i]? = some ⟨t, outcome⟩ ∧
          TransitSlot
            (destinationContext scout req.overlay req.preference.toPreference header dst
              now).Joined
            (excluded g req.overlay) header.src dst req.preference outcome := by
  obtain ⟨header, hh⟩ := resolveHeader_valid.mpr hvalid
  refine ⟨header, _, hh, (resolveHeader_ok_iff.mp hh).2.2.1,
    computeGateRoute_yields hh scout now, fun i t dst ht hdst => ?_⟩
  refine ⟨destinationOutcome scout req header t now, ?_, ?_⟩
  · rw [List.getElem?_map, ht]
    rfl
  · have hframe := destinationContext_frame scout req.overlay req.preference.toPreference
      header dst now
    unfold destinationOutcome
    rw [hdst]
    exact (destinationContext_exempts hh _ dst now).slot hframe.preference

end Transit

/-- Zarzakh between two other systems. -/
def zarzakhChain : GraphData :=
  gateChain [(1, .lowsec, 1), (ZARZAKH_SYSTEM_ID, .nullsec, 2), (3, .lowsec, 3)]

theorem transit_excluded_zarzakh :
    ∃ header results, resolveHeader zarzakhChain
        { src := .id 1, dst := [.id 3, .id ZARZAKH_SYSTEM_ID] } = .ok header ∧
      resolveSystem zarzakhChain (.id 1) = .ok header.src ∧
      Yields (computeGateRoute zarzakhChain {}
        { src := .id 1, dst := [.id 3, .id ZARZAKH_SYSTEM_ID] }) 0 (.ok ⟨.id 1, results⟩) ∧
      ∀ (i : ℕ) t dst, [SystemRef.id 3, .id ZARZAKH_SYSTEM_ID][i]? = some t →
        resolveSystem zarzakhChain t = .ok dst →
        ∃ outcome, results[i]? = some ⟨t, outcome⟩ ∧
          TransitSlot (destinationContext {} {} .shortest header dst 0).Joined
            (excluded zarzakhChain {}) header.src dst .shortest outcome :=
  transit_excluded zarzakhChain {} { src := .id 1, dst := [.id 3, .id ZARZAKH_SYSTEM_ID] } 0
    (by decide +kernel)

section Clock

/-- The instant at which a slot's signatures are read. -/
def slotInstant (g : GraphData) (req : GateRouteRequest) (m : Machine) (i : ℕ) : Instant :=
  m.clock (m.reads + (req.dst.take i).countP (resolves g))

/-- The slot looks at whether the signature has expired. -/
def Consults (g : GraphData) (scout : EveScoutSnapshot) (req : GateRouteRequest)
    (header : RouteHeader g) (i : ℕ) (sig : Signature) : Prop :=
  ∃ t dst, req.dst[i]? = some t ∧ resolveSystem g t = .ok dst ∧
    sig ∈ consulted g scout req.overlay [header.src, dst]

/-- What a destination comes to over the signatures that `live` takes for live. -/
noncomputable def outcomeOver (live : Signature → Bool) (scout : EveScoutSnapshot)
    (req : GateRouteRequest) (header : RouteHeader g) (dst : g.NodeIndex) : GateRouteOutcome :=
  let ctx := overlayOf live scout req.overlay [header.src, dst]
    (addOverlayConnections req.overlay header.connections
      (.new (header.sharedAvoid.erase dst) req.preference.toPreference))
  foldFailure (searchOutcome ctx (best ctx.network header.src dst))

/-- One view of the snapshot for a whole request: equal destinations come out
alike, and what one slot takes for live or for expired every slot that looks at
it does, and answers by. -/
structure OneView (g : GraphData) (scout : EveScoutSnapshot) (req : GateRouteRequest)
    (header : RouteHeader g) (m : Machine) (results : List GateRouteResult) : Prop where
  alike : ∀ (i j : ℕ) t, req.dst[i]? = some t → req.dst[j]? = some t →
    results[i]? = results[j]?
  live : ∃ live : Signature → Bool, ∀ (i : ℕ) t dst, req.dst[i]? = some t →
    resolveSystem g t = .ok dst →
    (∀ sig ∈ consulted g scout req.overlay [header.src, dst],
      sig.isLive (slotInstant g req m i) = live sig) ∧
    results[i]? = some ⟨t, outcomeOver live scout req header dst⟩

theorem destinationOutcome_eq_outcomeOver {header : RouteHeader g} {t : SystemRef}
    {dst : g.NodeIndex} {live : Signature → Bool} (hdst : resolveSystem g t = .ok dst)
    (hlive : ∀ sig ∈ consulted g scout req.overlay [header.src, dst],
      sig.isLive now = live sig) :
    destinationOutcome scout req header t now = outcomeOver live scout req header dst := by
  unfold destinationOutcome destinationContext outcomeOver
  simp only [hdst, scoutOverlay_eq_overlayOf, overlayOf_congr hlive]

/-- With no expiry between two reads, the slots that look at a signature agree
on it. -/
theorem Consults.isLive_iff {header : RouteHeader g} {m : Machine} {i j : ℕ} {sig : Signature}
    (hquiet : ¬ ∃ sig i j, Consults g scout req header i sig ∧
      Consults g scout req header j sig ∧
      slotInstant g req m i < sig.expiresAt ∧ sig.expiresAt ≤ slotInstant g req m j)
    (hi : Consults g scout req header i sig) (hj : Consults g scout req header j sig) :
    sig.isLive (slotInstant g req m i) = true ↔ sig.isLive (slotInstant g req m j) = true := by
  simp only [Signature.isLive, gt_iff_lt, decide_eq_true_eq]
  constructor
  · intro h
    exact not_le.mp fun hle => hquiet ⟨sig, i, j, hi, hj, h, hle⟩
  · intro h
    exact not_le.mp fun hle => hquiet ⟨sig, j, i, hj, hi, h, hle⟩

/-- A request sees one view exactly when no signature is looked at by two slots
between whose reads of the clock it expires. -/
theorem oneView_iff (g : GraphData) (scout : EveScoutSnapshot) (req : GateRouteRequest)
    (m : Machine) (hvalid : ¬ HeaderDefect g req) :
    ∃ header results left, resolveHeader g req = .ok header ∧
      computeGateRoute g scout req m = .ok (.ok ⟨req.src, results⟩, left) ∧
      (OneView g scout req header m results ↔
        ¬ ∃ sig i j, Consults g scout req header i sig ∧ Consults g scout req header j sig ∧
          slotInstant g req m i < sig.expiresAt ∧ sig.expiresAt ≤ slotInstant g req m j) := by
  obtain ⟨header, left, hh, hrun⟩ := computeGateRoute_answers scout hvalid m
  refine ⟨header, _, left, hh, hrun, ?_⟩
  constructor
  · intro hview ⟨sig, i, j, ⟨t, dst, ht, hdst, hsig⟩, ⟨u, dst', hu, hdst', hsig'⟩, hafter, hbefore⟩
    obtain ⟨live, hlive⟩ := hview.live
    have hi := (hlive i t dst ht hdst).1 sig hsig
    have hj := (hlive j u dst' hu hdst').1 sig hsig'
    simp only [Signature.isLive, gt_iff_lt, hafter, decide_true] at hi
    simp only [Signature.isLive, gt_iff_lt, not_lt.mpr hbefore, decide_false] at hj
    exact absurd (hi.trans hj.symm) (by decide)
  · intro hquiet
    classical
    -- Live is what some slot that looks at it finds live.
    let live : Signature → Bool := fun sig =>
      decide (∃ i, Consults g scout req header i sig ∧
        sig.isLive (slotInstant g req m i) = true)
    have hlive : ∀ (i : ℕ) t dst, req.dst[i]? = some t → resolveSystem g t = .ok dst →
        ∀ sig ∈ consulted g scout req.overlay [header.src, dst],
          sig.isLive (slotInstant g req m i) = live sig := by
      intro i t dst ht hdst sig hsig
      have hi : Consults g scout req header i sig := ⟨t, dst, ht, hdst, hsig⟩
      rw [Bool.eq_iff_iff, decide_eq_true_eq]
      constructor
      · intro h
        exact ⟨i, hi, h⟩
      · rintro ⟨j, hj, h⟩
        exact (hi.isLive_iff hquiet hj).mpr h
    have hslot : ∀ (i : ℕ) t dst, req.dst[i]? = some t → resolveSystem g t = .ok dst →
        destinationOutcome scout req header t (slotInstant g req m i) =
          outcomeOver live scout req header dst :=
      fun i t dst ht hdst => destinationOutcome_eq_outcomeOver hdst (hlive i t dst ht hdst)
    constructor
    · intro i j t ht hu
      rw [List.getElem?_mapIdx, List.getElem?_mapIdx, ht, hu]
      apply congrArg some
      change GateRouteResult.mk t (destinationOutcome scout req header t (slotInstant g req m i)) =
        ⟨t, destinationOutcome scout req header t (slotInstant g req m j)⟩
      cases hr : resolveSystem g t with
      | error e => simp only [destinationOutcome, hr]
      | ok dst => rw [hslot i t dst ht hr, hslot j t dst hu hr]
    · refine ⟨live, fun i t dst ht hdst => ⟨hlive i t dst ht hdst, ?_⟩⟩
      rw [List.getElem?_mapIdx, ht, ← hslot i t dst ht hdst]
      rfl

/-- Turnur two gates away, and a signature to it that expires at instant 1. -/
def turnurChain : GraphData :=
  gateChain [(1, .lowsec, 1), (2, .lowsec, 2), (TURNUR_SYSTEM_ID, .lowsec, 3)]

def expiringScout : EveScoutSnapshot where
  turnur := [⟨TURNUR_SYSTEM_ID, 1, "S1", none, 1⟩]

def twiceTurnur : GateRouteRequest where
  src := .id 1
  dst := [.id TURNUR_SYSTEM_ID, .id TURNUR_SYSTEM_ID]

theorem oneView_iff_turnur :
    ∃ header results left, resolveHeader turnurChain twiceTurnur = .ok header ∧
      computeGateRoute turnurChain expiringScout twiceTurnur
        { clock := fun k => k } = .ok (.ok ⟨.id 1, results⟩, left) ∧
      (OneView turnurChain expiringScout twiceTurnur header { clock := fun k => k } results ↔
        ¬ ∃ sig i j, Consults turnurChain expiringScout twiceTurnur header i sig ∧
          Consults turnurChain expiringScout twiceTurnur header j sig ∧
          slotInstant turnurChain twiceTurnur { clock := fun k => k } i < sig.expiresAt ∧
          sig.expiresAt ≤ slotInstant turnurChain twiceTurnur { clock := fun k => k } j) :=
  oneView_iff turnurChain expiringScout twiceTurnur { clock := fun k => k } (by decide +kernel)

/-- The same destination twice in one request: one jump through the signature,
then two jumps through the gates. -/
theorem duplicates_answered_differently :
    ¬ HeaderDefect turnurChain twiceTurnur ∧ Monotone (fun k : ℕ => (k : Instant)) ∧
      ∃ left a b, computeGateRoute turnurChain expiringScout twiceTurnur
        { clock := fun k => k } = .ok (.ok ⟨.id 1,
          [⟨.id TURNUR_SYSTEM_ID, .route 1 a⟩, ⟨.id TURNUR_SYSTEM_ID, .route 2 b⟩]⟩, left) := by
  refine ⟨by decide +kernel, Nat.mono_cast, ?_⟩
  have hrun : (computeGateRoute turnurChain expiringScout twiceTurnur
      { clock := fun k => k }).map Prod.fst = .ok (.ok ⟨.id 1,
        [⟨.id TURNUR_SYSTEM_ID, .route 1
          [routeStep (sysAt (1, .lowsec, 1)) "start",
            routeStep (sysAt (TURNUR_SYSTEM_ID, .lowsec, 3)) "wormhole"]⟩,
        ⟨.id TURNUR_SYSTEM_ID, .route 2
          [routeStep (sysAt (1, .lowsec, 1)) "start",
            routeStep (sysAt (2, .lowsec, 2)) "stargate",
            routeStep (sysAt (TURNUR_SYSTEM_ID, .lowsec, 3)) "stargate"]⟩]⟩) := by
    decide +kernel
  obtain ⟨r, hr, he⟩ := map_ok.mp hrun
  exact ⟨r.2, _, _, by rw [hr, ← he]⟩

end Clock

end Palu
