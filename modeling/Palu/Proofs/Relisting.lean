import Palu.Paths.Compare
import Palu.Proofs.Provenance

namespace Palu

open Paths Collections Tables

/-- The same map with its gates listed another way. -/
abbrev GraphData.regate (g : GraphData) (G : UnGraph g.systems.length) : GraphData :=
  { g with gateGraph := G }

section Contexts
variable {g : GraphData} {G : UnGraph g.systems.length} {ctx : RouteContext g}

abbrev RouteContext.regate (G : UnGraph g.systems.length) (ctx : RouteContext g) :
    RouteContext (g.regate G) where
  avoid := ctx.avoid
  connections := ctx.connections
  preference := ctx.preference
  mirrored := ctx.mirrored
  loopFree := ctx.loopFree
  distinct := ctx.distinct

theorem addConnection_regate (ctx : RouteContext g) (a b : g.NodeIndex) (kind : EdgeKind) :
    (ctx.regate G).addConnection a b kind = (ctx.addConnection a b kind).regate G := by
  unfold RouteContext.addConnection
  split <;> rfl

theorem addOverlayConnections_regate (inputs : OverlayInputs)
    (connections : List (g.NodeIndex × g.NodeIndex × EdgeKind)) (ctx : RouteContext g) :
    addOverlayConnections (g := g.regate G) inputs connections (ctx.regate G) =
      (addOverlayConnections inputs connections ctx).regate G := by
  unfold addOverlayConnections
  induction connections generalizing ctx with
  | nil => rfl
  | cons c connections ih =>
    rw [List.foldl_cons, List.foldl_cons, ← ih]
    obtain ⟨a, b, kind⟩ := c
    congr 1
    dsimp only
    split
    · exact addConnection_regate ctx a b kind
    · rfl

theorem addScoutEdges_regate (sigs : List Signature) (now : Instant) (ctx : RouteContext g) :
    addScoutEdges (ctx.regate G) sigs now = (addScoutEdges ctx sigs now).regate G := by
  unfold addScoutEdges
  induction sigs generalizing ctx with
  | nil => rfl
  | cons sig sigs ih =>
    rw [List.foldl_cons, List.foldl_cons, ← ih]
    congr 1
    unfold addScoutEdge
    split
    · cases g.idToIdx sig.outSystemId with
      | none => rfl
      | some out =>
        cases g.idToIdx sig.inSystemId with
        | none => rfl
        | some in_ => exact addConnection_regate ctx _ _ _
    · rfl

theorem scoutOverlay_regate (scout : EveScoutSnapshot) (inputs : OverlayInputs)
    (endpoints : List g.NodeIndex) (now : Instant) (ctx : RouteContext g) :
    scoutOverlay (g := g.regate G) scout inputs endpoints now (ctx.regate G) =
      (scoutOverlay scout inputs endpoints now ctx).regate G := by
  unfold scoutOverlay
  have hend : ∀ hub, isEndpoint (g.regate G) endpoints hub = isEndpoint g endpoints hub := by
    intro hub
    unfold isEndpoint
    cases g.idToIdx hub <;> rfl
  dsimp only
  rw [hend, hend]
  split
  · split
    · rw [addScoutEdges_regate, addScoutEdges_regate]
    · exact addScoutEdges_regate _ _ _
  · split
    · exact addScoutEdges_regate _ _ _
    · rfl

variable (hG : ∀ a b, G.containsEdge a b = g.gateGraph.containsEdge a b)
include hG

theorem hasGateEdge_regate (ctx : RouteContext g) (a b : g.NodeIndex) :
    (ctx.regate G).hasGateEdge a b = ctx.hasGateEdge a b :=
  hG a b

theorem joined_regate (ctx : RouteContext g) (a b : g.NodeIndex) :
    (ctx.regate G).Joined a b ↔ ctx.Joined a b := by
  unfold RouteContext.Joined
  rw [hasGateEdge_regate hG]
  rfl

theorem network_regate (ctx : RouteContext g) : (ctx.regate G).network = ctx.network := by
  apply Network.eq_of
  · intro u v
    change v ∈ (ctx.regate G).neighbors u ↔ v ∈ ctx.neighbors u
    rw [RouteContext.mem_neighbors, RouteContext.mem_neighbors, joined_regate hG]
  · intro u v
    change (ctx.regate G).edgeWeight u v = ctx.edgeWeight u v
    unfold RouteContext.edgeWeight RouteContext.wormholePenalty
    rw [hasGateEdge_regate hG]
    rfl

theorem stepVia_regate (ctx : RouteContext g) (a b : g.NodeIndex) :
    (ctx.regate G).stepVia a b = ctx.stepVia a b := by
  unfold RouteContext.stepVia
  rw [hasGateEdge_regate hG]
  rfl

theorem buildSteps_regate (ctx : RouteContext g) (p : Path g) :
    buildSteps (ctx.regate G) p = buildSteps ctx p := by
  have hgo : ∀ (p : Path g) (prev : g.NodeIndex),
      buildSteps.go (ctx.regate G) prev p = buildSteps.go ctx prev p := by
    intro p
    induction p with
    | nil => exact fun _ => rfl
    | cons v p ih =>
      intro prev
      rw [buildSteps.go, buildSteps.go, stepVia_regate hG, ih]
  cases p with
  | nil => rfl
  | cons v p => exact congrArg (_ :: ·) (hgo p v)

end Contexts

section Requests
variable {g : GraphData} {G : UnGraph g.systems.length} {scout : EveScoutSnapshot}
  {req : GateRouteRequest} {header : RouteHeader g} {t : SystemRef} {now : Instant}

abbrev RouteHeader.regate (G : UnGraph g.systems.length) (header : RouteHeader g) :
    RouteHeader (g.regate G) where
  src := header.src
  sharedAvoid := header.sharedAvoid
  connections := header.connections

theorem resolveSystem_regate (r : SystemRef) :
    resolveSystem (g.regate G) r = resolveSystem g r := by
  cases r with
  | id k =>
    simp only [resolveSystem]
    cases g.idToIdx k <;> rfl
  | name s =>
    simp only [resolveSystem]
    cases g.nameToIdx s.toLower <;> rfl

theorem resolveSystem_regate_eq : resolveSystem (g.regate G) = resolveSystem g :=
  funext resolveSystem_regate

theorem assembleAvoidSet_regate (inputs : OverlayInputs) :
    assembleAvoidSet (g.regate G) inputs = assembleAvoidSet g inputs := by
  unfold assembleAvoidSet
  rw [resolveSystem_regate_eq]
  congr 1
  funext avoid
  split
  · rfl
  · cases g.idToIdx ZARZAKH_SYSTEM_ID <;> rfl

theorem resolveConnections_regate (inputs : OverlayInputs) :
    resolveConnections (g.regate G) inputs = resolveConnections g inputs := by
  have hres : resolveConnection (g.regate G) = resolveConnection g := by
    funext c
    unfold resolveConnection
    rw [resolveSystem_regate_eq]
  unfold resolveConnections
  rw [hres]

theorem resolveHeader_regate (req : GateRouteRequest) :
    resolveHeader (g.regate G) req = (resolveHeader g req).map (RouteHeader.regate G) := by
  unfold resolveHeader
  rw [resolveSystem_regate, assembleAvoidSet_regate, resolveConnections_regate]
  dsimp only
  split
  · rfl
  · split
    · rfl
    · cases resolveSystem g req.src with
      | error e => rfl
      | ok src =>
        cases assembleAvoidSet g req.overlay with
        | error e => rfl
        | ok avoid => cases resolveConnections g req.overlay <;> rfl

section Answering
variable (hG : ∀ a b, G.containsEdge a b = g.gateGraph.containsEdge a b)
include hG

theorem searchOutcome_regate (ctx : RouteContext g) (found : Option (Path g)) :
    searchOutcome (ctx.regate G) found = searchOutcome ctx found := by
  cases found with
  | none => rfl
  | some p =>
    dsimp only [searchOutcome]
    rw [buildSteps_regate hG]

theorem destinationResult_regate (t : SystemRef) (now : Instant) :
    destinationResult scout req (header.regate G) t now = destinationResult scout req header t now := by
  have hctx : ∀ dst, destinationContext scout req.overlay req.preference.toPreference
      (header.regate G) dst now = (destinationContext scout req.overlay
        req.preference.toPreference header dst now).regate G := by
    intro dst
    unfold destinationContext
    rw [← scoutOverlay_regate, ← addOverlayConnections_regate]
    rfl
  unfold destinationResult destinationOutcome
  rw [resolveSystem_regate]
  cases resolveSystem g t with
  | error e => rfl
  | ok dst =>
    dsimp only
    rw [hctx, network_regate hG, searchOutcome_regate hG]

theorem computeGateRoute_regate {m left : Machine} {resp : Except AppError GateRouteResponse}
    (h : computeGateRoute g scout req m = .ok (resp, left)) :
    ∃ left', computeGateRoute (g.regate G) scout req m = .ok (resp, left') := by
  cases hh : resolveHeader g req with
  | error e =>
    have hh' : resolveHeader (g.regate G) req = .error e := by
      rw [resolveHeader_regate, hh]
      rfl
    unfold computeGateRoute at h ⊢
    rw [hh] at h
    rw [hh']
    cases h
    exact ⟨_, rfl⟩
  | ok header =>
    have hh' : resolveHeader (g.regate G) req = .ok (header.regate G) := by
      rw [resolveHeader_regate, hh]
      rfl
    obtain ⟨scratch, hrun⟩ := computeGateRoute_gives scout hh m
    obtain ⟨scratch', hrun'⟩ := computeGateRoute_gives scout hh' m
    rw [h] at hrun
    obtain rfl : resp = _ := congrArg Prod.fst (Except.ok.inj hrun)
    have hresolves : resolves (g.regate G) = resolves g := by
      unfold resolves
      rw [resolveSystem_regate_eq]
    rw [hresolves] at hrun'
    simp only [destinationResult_regate hG] at hrun'
    exact ⟨_, hrun'⟩

end Answering

end Requests

section Staging
variable {g : GraphData} {G : UnGraph g.systems.length} {scout : EveScoutSnapshot}
  {query : StagingQuery} {within : WithinUnsorted g}

abbrev SettledTarget.regate (G : UnGraph g.systems.length) (t : SettledTarget g) :
    SettledTarget (g.regate G) where
  node := t.node
  jumps := t.jumps
  path := t.path

abbrev StagingHeader.regate (G : UnGraph g.systems.length) (header : StagingHeader g) :
    StagingHeader (g.regate G) where
  src := header.src
  dst := header.dst
  avoid := header.avoid
  connections := header.connections

theorem stagingContext_regate (header : StagingHeader g) (now : Instant) :
    stagingContext scout query (header.regate G) now =
      (stagingContext scout query header now).regate G := by
  unfold stagingContext
  rw [← scoutOverlay_regate, ← addOverlayConnections_regate]
  rfl

variable (hG : ∀ a b, G.containsEdge a b = g.gateGraph.containsEdge a b)
include hG

theorem settledTargets_regate (ctx : RouteContext g) (src : g.NodeIndex)
    (targets : List g.NodeIndex) :
    settledTargets (ctx.regate G) src targets =
      (settledTargets ctx src targets).map (SettledTarget.regate G) := by
  unfold settledTargets
  rw [network_regate hG, List.map_filterMap]
  simp only [Option.map_map]
  rfl

theorem rankStaging_regate (ctx : RouteContext g) (dst : g.NodeIndex) (ly : ℚ)
    (settled : List (SettledTarget g)) :
    rankStaging (g := g.regate G) (ctx.regate G) dst ly (settled.map (SettledTarget.regate G)) =
      rankStaging ctx dst ly settled := by
  unfold rankStaging
  have hcmp : (fun a b => settledCmp (g := g.regate G) dst (SettledTarget.regate G a)
      (SettledTarget.regate G b)) = settledCmp dst := rfl
  rw [sortBy_map, hcmp]
  cases sortBy (settledCmp dst) settled with
  | nil => rfl
  | cons head rest =>
    rw [List.map_cons]
    dsimp only
    congr 1
    unfold stagingResponse
    rw [buildSteps_regate hG, ← List.map_take, List.map_map]
    rfl

theorem stageFrom_regate {src dst : g.NodeIndex} (hsrc : resolveSystem g query.src = .ok src)
    (hdst : resolveSystem g query.dst = .ok dst) (candidates : List g.NodeIndex) {m left : Machine}
    {resp : Except AppError BlopsRouteResponse}
    (h : stageFrom scout query src dst candidates m = .ok (resp, left)) :
    ∃ left', stageFrom (g := g.regate G) scout query src dst candidates m = .ok (resp, left') := by
  cases ha : assembleAvoidSet g query.overlay with
  | error e =>
    unfold stageFrom at h ⊢
    rw [ha] at h
    rw [assembleAvoidSet_regate, ha]
    cases h
    exact ⟨_, rfl⟩
  | ok avoid =>
    cases hc : resolveConnections g query.overlay with
    | error e =>
      unfold stageFrom applyOverlay at h ⊢
      rw [ha, hc] at h
      rw [assembleAvoidSet_regate, resolveConnections_regate, ha, hc]
      cases h
      exact ⟨_, rfl⟩
    | ok conns =>
      let header : StagingHeader g := ⟨src, dst, avoid, conns⟩
      have hh : header.Resolves query := ⟨hsrc, hdst, ha, hc⟩
      have hh' : (header.regate G).Resolves query :=
        ⟨(resolveSystem_regate _).trans hsrc, (resolveSystem_regate _).trans hdst,
          (assembleAvoidSet_regate _).trans ha, (resolveConnections_regate _).trans hc⟩
      obtain ⟨scratch, hrun⟩ := stageFrom_gives scout hh candidates m
      obtain ⟨scratch', hrun'⟩ := stageFrom_gives scout hh' candidates m
      obtain rfl : resp = _ := congrArg Prod.fst (Except.ok.inj (h.symm.trans hrun))
      rw [stagingContext_regate, settledTargets_regate hG, rankStaging_regate hG] at hrun'
      exact ⟨_, hrun'⟩

theorem computeStaging_regate {destOk stageOk : System → Bool} {onDestReject : System → AppError}
    {m left : Machine} {resp : Except AppError BlopsRouteResponse}
    (h : computeStaging within scout query destOk stageOk onDestReject m = .ok (resp, left)) :
    ∃ left', computeStaging (g := g.regate G) within scout query destOk stageOk onDestReject m =
      .ok (resp, left') := by
  unfold computeStaging at h ⊢
  rw [resolveSystem_regate_eq]
  cases hsrc : resolveSystem g query.src with
  | error e =>
    rw [hsrc] at h
    cases h
    exact ⟨_, rfl⟩
  | ok src =>
    cases hdst : resolveSystem g query.dst with
    | error e =>
      rw [hsrc, hdst] at h
      cases h
      exact ⟨_, rfl⟩
    | ok dst =>
      rw [hsrc, hdst] at h
      dsimp only at h ⊢
      by_cases hok : destOk (g.systems.get dst) = true
      · rw [if_pos hok] at h ⊢
        have hcands : stagingCandidates (g := g.regate G) within query.effectiveLy dst stageOk =
            stagingCandidates within query.effectiveLy dst stageOk := rfl
        rw [hcands]
        by_cases hnone : (stagingCandidates within query.effectiveLy dst stageOk).isEmpty = true
        · rw [if_pos hnone] at h ⊢
          cases h
          exact ⟨_, rfl⟩
        · rw [if_neg hnone] at h ⊢
          exact stageFrom_regate hG hsrc hdst _ h
      · rw [if_neg hok] at h ⊢
        cases h
        exact ⟨_, rfl⟩

end Staging

section Replies
variable {g : GraphData} {G : UnGraph g.systems.length} {w : Deployment} {env : Env}
  {clock : ℕ → Instant} {lastReloadAt : Option Instant} {scout : EveScoutSnapshot} {req : Request}
  {reply : Reply}

theorem routeBlops_regate {within : WithinUnsorted g} {req : BlopsRouteRequest} {m left : Machine}
    {resp : Except AppError BlopsRouteResponse}
    (hG : ∀ a b, G.containsEdge a b = g.gateGraph.containsEdge a b)
    (h : routeBlops within scout req m = .ok (resp, left)) :
    ∃ left', routeBlops (g := g.regate G) within scout req m = .ok (resp, left') := by
  unfold routeBlops at h ⊢
  have heffective : resolveEffectiveLy (g.regate G) = resolveEffectiveLy g := rfl
  rw [heffective]
  cases he : resolveEffectiveLy g req.ship req.jdcLevel with
  | error e =>
    rw [he] at h
    cases h
    exact ⟨_, rfl⟩
  | ok effective =>
    rw [he] at h
    obtain ⟨⟨staged, left₁⟩, hstaged, hrest⟩ := bind_ok.mp h
    obtain ⟨left₂, hstaged'⟩ := computeStaging_regate hG hstaged
    cases staged with
    | error e =>
      cases hrest
      exact ⟨left₂, bind_ok.mpr ⟨_, hstaged', rfl⟩⟩
    | ok staged =>
      cases hrest
      exact ⟨left₂, bind_ok.mpr ⟨_, hstaged', rfl⟩⟩

theorem routeRange_regate {within : WithinUnsorted g} (req : RangeRequest) :
    routeRange (g := g.regate G) within req = routeRange within req := by
  unfold routeRange
  rw [resolveSystem_regate_eq]
  rfl

/-- Each request is answered alike on a map with the same gates, as many edges, and
a kd-tree that knows nothing of gates. -/
theorem Answers.regate (hwithin : w.within (g.regate G) = w.within g)
    (hG : ∀ a b, G.containsEdge a b = g.gateGraph.containsEdge a b)
    (hcount : G.edges.length = g.gateGraph.edges.length)
    (h : Answers w env clock g lastReloadAt scout req reply) :
    Answers w env clock (g.regate G) lastReloadAt scout req reply := by
  cases h with
  | routeSystem h =>
    obtain ⟨left', h'⟩ := computeGateRoute_regate hG h
    exact .routeSystem h'
  | routeBlops h =>
    obtain ⟨left', h'⟩ := routeBlops_regate hG h
    rw [← hwithin] at h'
    exact .routeBlops h'
  | @routeRange req =>
    have hreach : Palu.routeRange (w.within (g.regate G)) req = Palu.routeRange (w.within g) req := by
      rw [hwithin]
      exact routeRange_regate _
    rw [← hreach]
    exact .routeRange
  | health =>
    have hhealth : Palu.health env (g.regate G) lastReloadAt scout =
        Palu.health env g lastReloadAt scout := by
      simp only [Palu.health, hcount]
    rw [← hhealth]
    exact .health

end Replies

section Files
variable {rows : RowDecoder} {files files' : String → Option Bytes} {data : RawSdeData} {n : ℕ}

/-- Graphs that keep one edge for each two nodes they join have as many edges as
they join nodes. -/
theorem edges_length_eq {G G' : UnGraph n}
    (hnodup : ((G.edges.map positions).map ordered).Nodup)
    (hnodup' : ((G'.edges.map positions).map ordered).Nodup)
    (hG : ∀ a b, G'.containsEdge a b = G.containsEdge a b) :
    G'.edges.length = G.edges.length := by
  have hsub : ∀ {G G' : UnGraph n}, (∀ a b, G'.containsEdge a b = G.containsEdge a b) →
      ∀ q ∈ (G.edges.map positions).map ordered, q ∈ (G'.edges.map positions).map ordered := by
    intro G G' hG q hq
    obtain ⟨_, hp, rfl⟩ := List.mem_map.mp hq
    obtain ⟨e, he, rfl⟩ := List.mem_map.mp hp
    have hedge : G.containsEdge e.1 e.2 = true := G.containsEdge_iff.mpr ⟨_, hp, rfl⟩
    rw [← hG] at hedge
    obtain ⟨p, hp', heq⟩ := G'.containsEdge_iff.mp hedge
    exact List.mem_map.mpr ⟨p, hp', heq⟩
  have hperm : ((G'.edges.map positions).map ordered).Perm ((G.edges.map positions).map ordered) :=
    (List.perm_ext_iff_of_nodup hnodup' hnodup).mpr fun q =>
      ⟨hsub (fun a b => (hG a b).symm) q, hsub hG q⟩
  simpa using hperm.length_eq

theorem buildGraphData_nodup (raw : RawSdeData) (n : ℕ) :
    (((buildGraphData raw n).gateGraph.edges.map positions).map ordered).Nodup := by
  rw [buildGraphData_edges]
  exact (EdgePass.keeps _ raw.gatePairs).nodup

theorem parseFile_congr {name : String} (h : files' name = files name) {α : Type}
    (f : List (Except String String) → Except ParseError α) :
    parseFile files' name f = parseFile files name f := by
  unfold parseFile openFile
  rw [h]

/-- The stargate file decides the replies by what it links, and not by how it lists
it: in another order, with a row twice, with one half of a link or with both, and
with or without rows of unknown systems. -/
theorem relisted_replies (w : Deployment)
    (hwithin : ∀ (g : GraphData) G, w.within (g.regate G) = w.within g)
    {content content' : Bytes} {lines lines' : List String}
    (hfile : files "mapStargates.jsonl" = some content) (hlines : readLines content = lines.map .ok)
    (hfile' : files' "mapStargates.jsonl" = some content')
    (hlines' : readLines content' = lines'.map .ok)
    (hothers : ∀ f ∈ FILES, f ≠ "mapStargates.jsonl" → files' f = files f)
    (hload : loadFiles w.serde.toRowDecoder files = .ok data)
    (hdecodes : Decodes w.serde.stargate lines')
    (hrelisted : Relisted (fun k => ∃ s ∈ data.systems, s.id = k) (rowsOf w.serde.stargate lines)
      (rowsOf w.serde.stargate lines')) :
    ∃ data', loadFiles w.serde.toRowDecoder files' = .ok data' ∧
      ∀ n env clock lastReloadAt scout req reply,
        Answers w env clock (buildGraphData data n) lastReloadAt scout req reply ↔
          Answers w env clock (buildGraphData data' n) lastReloadAt scout req reply := by
  obtain ⟨systems, hsystems, hload⟩ := bind_ok.mp hload
  obtain ⟨pairs, hpairs, hload⟩ := bind_ok.mp hload
  obtain ⟨hulls, hhulls, hload⟩ := bind_ok.mp hload
  cases hload
  have hexact : PairsExact (rowsOf w.serde.stargate lines) pairs := by
    obtain ⟨_, hc, hparse⟩ := parseFile_ok hpairs
    cases hfile.symm.trans hc
    obtain ⟨pass, hpass, rfl⟩ := map_ok.mp hparse
    obtain ⟨read, hread, _, rfl⟩ := lines_of_forRows hpass
    obtain rfl : lines = read :=
      List.map_injective_iff.mpr (fun _ _ => Except.ok.inj) (hlines.symm.trans hread)
    exact GatePass.pairsExact _
  obtain ⟨pairs', hpairs', hexact'⟩ := parseGatePairs_ok hdecodes
  refine ⟨⟨systems, pairs', hulls⟩, ?_, fun n env clock lastReloadAt scout req reply => ?_⟩
  · have hsame := hothers "mapSolarSystems.jsonl" (by simp [FILES]) (by decide)
    refine bind_ok.mpr ⟨systems, (parseFile_congr hsame _).trans hsystems, ?_⟩
    refine bind_ok.mpr ⟨pairs', ?_, bind_ok.mpr ⟨hulls, ?_, rfl⟩⟩
    · unfold parseFile openFile
      rw [hfile']
      simp only [bind, Except.bind, hlines', hpairs']
      rfl
    · unfold loadHullCatalog openFile at hhulls ⊢
      rwa [hothers _ (by simp [FILES]) (by decide), hothers _ (by simp [FILES]) (by decide)]
  · have hG := hrelisted.adjacency (n := n) hexact hexact'
    have hcount := edges_length_eq (buildGraphData_nodup ⟨systems, pairs, hulls⟩ n)
      (buildGraphData_nodup ⟨systems, pairs', hulls⟩ n) hG
    exact ⟨fun h => h.regate (hwithin _ _) hG hcount,
      fun h => h.regate (hwithin _ _) (fun a b => (hG a b).symm) hcount.symm⟩

/-- Two systems, and a gate that is listed from either side. -/
def twoSystemsRows : RowDecoder where
  system row :=
    if row = "A" then .ok ⟨1, row, 1, 10000002, 20000020, ⟨0, 0, 0⟩⟩
    else if row = "B" then .ok ⟨2, row, 1, 10000002, 20000020, ⟨1, 0, 0⟩⟩
    else .error "expected value at line 1 column 1"
  stargate row :=
    if row = "AB" then .ok ⟨1, 2⟩
    else if row = "BA" then .ok ⟨2, 1⟩
    else .error "expected value at line 1 column 1"
  type _ := .error "expected value at line 1 column 1"
  typeDogma _ := .error "expected value at line 1 column 1"

def twoSystemsFiles (stargates : String) (name : String) : Option Bytes :=
  if name = "mapSolarSystems.jsonl" then some (utf8 "A\nB\n")
  else if name = "mapStargates.jsonl" then some (utf8 stargates)
  else some []

def twoSystemsSite : Deployment :=
  ⟨⟨"/cache"⟩, { twoBuildsSerde with toRowDecoder := twoSystemsRows }, fun _ => scan⟩

theorem relisted_replies_half : ∃ data data',
    loadFiles twoSystemsRows (twoSystemsFiles "AB\n") = .ok data ∧
    loadFiles twoSystemsRows (twoSystemsFiles "BA\n\nAB") = .ok data' ∧
    ∀ n env clock lastReloadAt scout req reply,
      Answers twoSystemsSite env clock (buildGraphData data n) lastReloadAt scout req reply ↔
        Answers twoSystemsSite env clock (buildGraphData data' n) lastReloadAt scout req reply := by
  have hload : (loadFiles twoSystemsRows (twoSystemsFiles "AB\n")).toBool = true := by
    decide +kernel
  cases hdata : loadFiles twoSystemsRows (twoSystemsFiles "AB\n") with
  | error e =>
    rw [hdata] at hload
    cases hload
  | ok data =>
    have hlines : readLines (utf8 "AB\n") = ["AB"].map .ok := by decide +kernel
    have hlines' : readLines (utf8 "BA\n\nAB") = ["BA", "", "AB"].map .ok := by decide +kernel
    have hothers : ∀ f ∈ FILES, f ≠ "mapStargates.jsonl" →
        twoSystemsFiles "BA\n\nAB" f = twoSystemsFiles "AB\n" f :=
      fun f _ hf => by simp [twoSystemsFiles, hf]
    have hdecodes : Decodes twoSystemsRows.stargate ["BA", "", "AB"] :=
      decodes_of_forall (by decide +kernel)
    have hrelisted : Relisted (fun k => ∃ s ∈ data.systems, s.id = k)
        (rowsOf twoSystemsSite.serde.stargate ["AB"])
        (rowsOf twoSystemsSite.serde.stargate ["BA", "", "AB"]) := by
      have hrows : rowsOf twoSystemsSite.serde.stargate ["AB"] = [⟨1, 2⟩] := by rfl
      have hrows' : rowsOf twoSystemsSite.serde.stargate ["BA", "", "AB"] = [⟨2, 1⟩, ⟨1, 2⟩] := by
        rfl
      rw [hrows, hrows']
      have hhalf : Relisted (fun k => ∃ s ∈ data.systems, s.id = k)
          (⟨2, 1⟩ :: [⟨1, 2⟩]) [⟨1, 2⟩] :=
        @Relisted.half _ ⟨1, 2⟩ [⟨1, 2⟩] (List.mem_singleton_self _)
      exact hhalf.symm
    obtain ⟨data', hload', hsame⟩ := relisted_replies twoSystemsSite (fun _ _ => rfl) rfl hlines rfl
      hlines' hothers hdata hdecodes hrelisted
    exact ⟨data, data', rfl, hload', hsame⟩

end Files

end Palu
