import Palu.Model.Request

namespace Palu

/-- What a request finds around it: the thread's search buffers, and a clock
whose successive reads return `clock 0`, `clock 1`, … -/
structure Machine where
  scratch : DijkstraScratch := {}
  clock : ℕ → Instant
  reads : ℕ := 0

abbrev Run := StateT Machine (Except Fault)

/-- `Utc::now()`. -/
def utcNow : Run Instant := fun m => .ok (m.clock m.reads, { m with reads := m.reads + 1 })

/-- Run a search on the thread's buffers. -/
def withScratch {α : Type} (f : DijkstraScratch → Except Fault (α × DijkstraScratch)) : Run α :=
  fun m => (f m.scratch).map fun (a, scratch) => (a, { m with scratch := scratch })

def ZARZAKH_SYSTEM_ID : ℤ := 30100000

/-- The routing knobs shared by system routing and staging. -/
structure OverlayInputs where
  avoid : List SystemRef := []
  includeZarzakh : Bool := false
  useWormholes : Bool := false
  useBridges : Bool := false
  connections : List Connection := []
  includeThera : Bool := false
  includeTurnur : Bool := false

def GateRouteRequest.overlay (r : GateRouteRequest) : OverlayInputs where
  avoid := r.avoid
  includeZarzakh := r.includeZarzakh
  useWormholes := r.useWormholes
  useBridges := r.useBridges
  connections := r.connections
  includeThera := r.includeThera
  includeTurnur := r.includeTurnur

/-- Resolve a system reference to its node, case-insensitively for names. -/
def resolveSystem (g : GraphData) : SystemRef → Except AppError g.NodeIndex
  | .id id =>
    match g.idToIdx id with
    | some v => .ok v
    | none => .error (.unknownSystem (toString id))
  | .name name =>
    match g.nameToIdx name.toLower with
    | some v => .ok v
    | none => .error (.unknownSystem name)

def edgeKind : ConnectionKind → EdgeKind
  | .bridge => .bridge
  | .wormhole => .wormhole

section Overlay
variable (g : GraphData)

def resolveConnection (c : Connection) :
    Except AppError (g.NodeIndex × g.NodeIndex × EdgeKind) := do
  let a ← resolveSystem g c.src
  let b ← resolveSystem g c.dst
  pure (a, b, edgeKind c.kind)

/-- Resolve every connection, whatever the use-flags. -/
def resolveConnections (inputs : OverlayInputs) :
    Except AppError (List (g.NodeIndex × g.NodeIndex × EdgeKind)) :=
  inputs.connections.mapM (resolveConnection g)

variable {g}

def OverlayInputs.uses (inputs : OverlayInputs) : EdgeKind → Bool
  | .wormhole => inputs.useWormholes
  | .bridge => inputs.useBridges

def addOverlayConnections (inputs : OverlayInputs)
    (connections : List (g.NodeIndex × g.NodeIndex × EdgeKind)) (ctx : RouteContext g) :
    RouteContext g :=
  connections.foldl
    (fun ctx (a, b, kind) => if inputs.uses kind then ctx.addConnection a b kind else ctx) ctx

/-- User `avoid` and, unless opted in, Zarzakh where the map has it. -/
def assembleAvoidSet (g : GraphData) (inputs : OverlayInputs) :
    Except AppError (Finset g.NodeIndex) := do
  let avoid := (← inputs.avoid.mapM (resolveSystem g)).toFinset
  pure <|
    if inputs.includeZarzakh then avoid
    else match g.idToIdx ZARZAKH_SYSTEM_ID with
      | some zar => insert zar avoid
      | none => avoid

/-- One pass of the loop in `addScoutEdges`: stale signatures and unknown
systems are skipped. -/
def addScoutEdge (now : Instant) (ctx : RouteContext g) (sig : Signature) : RouteContext g :=
  if sig.isLive now then
    match g.idToIdx sig.outSystemId, g.idToIdx sig.inSystemId with
    | some out, some in_ => ctx.addConnection out in_ .wormhole
    | _, _ => ctx
  else ctx

def addScoutEdges (ctx : RouteContext g) (sigs : List Signature) (now : Instant) :
    RouteContext g :=
  sigs.foldl (addScoutEdge now) ctx

def isEndpoint (g : GraphData) (endpoints : List g.NodeIndex) (hubId : ℤ) : Bool :=
  match g.idToIdx hubId with
  | some idx => idx ∈ endpoints
  | none => false

/-- The overlay of `applyScoutOverlay`, once the clock has been read. -/
def scoutOverlay (scout : EveScoutSnapshot) (inputs : OverlayInputs)
    (endpoints : List g.NodeIndex) (now : Instant) (ctx : RouteContext g) : RouteContext g :=
  let ctx :=
    if inputs.includeThera || isEndpoint g endpoints THERA_SYSTEM_ID then
      addScoutEdges ctx scout.thera now
    else ctx
  if inputs.includeTurnur || isEndpoint g endpoints TURNUR_SYSTEM_ID then
    addScoutEdges ctx scout.turnur now
  else ctx

/-- Add the signatures of the hubs that are opted in or are endpoints. -/
def applyScoutOverlay (scout : EveScoutSnapshot) (inputs : OverlayInputs)
    (endpoints : List g.NodeIndex) (ctx : RouteContext g) : Run (RouteContext g) := do
  let now ← utcNow
  pure (scoutOverlay scout inputs endpoints now ctx)

/-- Validate every connection, then add the enabled ones and the signatures. -/
def applyOverlay (scout : EveScoutSnapshot) (inputs : OverlayInputs)
    (endpoints : List g.NodeIndex) (ctx : RouteContext g) :
    Run (Except AppError (RouteContext g)) :=
  match resolveConnections g inputs with
  | .error e => pure (.error e)
  | .ok connections => do
    let ctx ← applyScoutOverlay scout inputs endpoints
      (addOverlayConnections inputs connections ctx)
    pure (.ok ctx)

def routeStep (s : System) (via : String) : RouteStep where
  system := s.name
  systemId := s.id
  security := s.security
  secClass := s.secClass.label
  via := via

/-- The steps after `prev`, each labelled by the edge it came over. -/
def buildSteps.go (ctx : RouteContext g) (prev : g.NodeIndex) : Path g → List RouteStep
  | [] => []
  | idx :: path => routeStep (g.systems.get idx) (ctx.stepVia prev idx) :: go ctx idx path

/-- Turn a node path into labelled steps. -/
def buildSteps (ctx : RouteContext g) : Path g → List RouteStep
  | [] => []
  | idx :: path => routeStep (g.systems.get idx) "start" :: buildSteps.go ctx idx path

end Overlay

/-- The resolved header of a fan-out. -/
structure RouteHeader (g : GraphData) where
  src : g.NodeIndex
  sharedAvoid : Finset g.NodeIndex
  connections : List (g.NodeIndex × g.NodeIndex × EdgeKind)

/-- The request-level tier: the bounds of `dst`, then the shared references. The
source is never a transit hop, so it leaves the avoid set here. -/
def resolveHeader (g : GraphData) (req : GateRouteRequest) :
    Except AppError (RouteHeader g) := do
  if req.dst.isEmpty then
    throw (.invalidParam "to[] must contain at least one destination")
  if req.dst.length > MAX_DESTINATIONS then
    throw (.invalidParam ("to[] has " ++ toString req.dst.length ++
      " destinations; the maximum is " ++ toString MAX_DESTINATIONS))
  let src ← resolveSystem g req.src
  let sharedAvoid ← assembleAvoidSet g req.overlay
  let connections ← resolveConnections g req.overlay
  pure { src := src, sharedAvoid := sharedAvoid.erase src, connections := connections }

/-- The outcome of a search, with the labels of its path. -/
def searchOutcome {g : GraphData} (ctx : RouteContext g) :
    Option (Path g) → Except AppError GateRouteOutcome
  | none => .error .unreachable
  | some path => .ok (.route (path.length - 1) (buildSteps ctx path))

/-- Route the shared source to one destination. -/
def computeOne (g : GraphData) (scout : EveScoutSnapshot) (inputs : OverlayInputs)
    (preference : Preference) (header : RouteHeader g) (toRef : SystemRef) :
    Run (Except AppError GateRouteOutcome) :=
  match resolveSystem g toRef with
  | .error e => pure (.error e)
  | .ok dst => do
    let ctx := RouteContext.new (header.sharedAvoid.erase dst) preference
    let ctx ← applyScoutOverlay scout inputs [header.src, dst]
      (addOverlayConnections inputs header.connections ctx)
    let found ← withScratch (shortestPath ctx header.src dst)
    pure (searchOutcome ctx found)

/-- A destination's failure stays in its own slot. -/
def foldFailure : Except AppError GateRouteOutcome → GateRouteOutcome
  | .ok outcome => outcome
  | .error e =>
    let (code, message) := e.codeMessage
    .failure code message

def computeGateRoute (g : GraphData) (scout : EveScoutSnapshot) (req : GateRouteRequest) :
    Run (Except AppError GateRouteResponse) :=
  match resolveHeader g req with
  | .error e => pure (.error e)
  | .ok header => do
    let results ← req.dst.mapM fun toRef => do
      let outcome ← computeOne g scout req.overlay req.preference.toPreference header toRef
      pure { dst := toRef, outcome := foldFailure outcome }
    pure (.ok { src := req.src, results := results })

end Palu
