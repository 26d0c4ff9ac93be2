import Palu.Model.Build
import Palu.Model.Cache
import Palu.Model.Ships

namespace Palu

open Effects

section Config

/-- The environment variables that are set, and to Unicode. -/
abbrev Env := String → Option String

def DEFAULT_SDE_RELOAD_INTERVAL_SECS : UInt64 := 3600

def DEFAULT_EVE_SCOUT_INTERVAL_SECS : UInt64 := 600

/-- An unset or unparseable variable falls back to the default. -/
def parseEnvOr {α : Type} (parse : String → Option α) (env : Env) (key : String) (default : α) : α :=
  match env key with
  | none => default
  | some raw => (parse raw).getD default

/-- The interval, in seconds. Zero disables what it is for. -/
def intervalFromSecs (secs : UInt64) : Option UInt64 := if secs > 0 then some secs else none

def sdeReloadInterval (env : Env) : Option UInt64 :=
  intervalFromSecs
    (parseEnvOr parseU64 env "PALU_SDE_RELOAD_INTERVAL_SECS" DEFAULT_SDE_RELOAD_INTERVAL_SECS)

def eveScoutInterval (env : Env) : Option UInt64 :=
  intervalFromSecs
    (parseEnvOr parseU64 env "PALU_EVE_SCOUT_INTERVAL_SECS" DEFAULT_EVE_SCOUT_INTERVAL_SECS)

def appVersion (env : Env) : String := (env "PALU_APP_VERSION").getD "0.0.0"

def gitCommit (env : Env) : String := (env "PALU_GIT_COMMIT_SHA").getD "unknown"

def resolveSdeDir (env : Env) : Option String := env "PALU_SDE_DIR"

end Config

/-- Load the files of a directory that is no cache. -/
def loadFromDir (rows : RowDecoder) (dir : String) (files : String → Option Bytes)
    (now : Instant) : Except Trace (RawSdeData × CacheMetadata) := do
  match FILES.find? fun f => (files f).isNone with
  | some f => throw ["PALU_SDE_DIR " ++ dir ++ " is missing " ++ f]
  | none =>
    let data ← loadFiles rows files
    pure (data, { buildNumber := 0, releaseDate := none, fetchedAt := now })

def EveScoutSnapshot.sigCount (snap : EveScoutSnapshot) : ℕ := snap.thera.length + snap.turnur.length

/-- Fetch the signatures. A body that breaks off and one that is no list of
signatures fail alike. -/
def fetchSnapshot (response : Response (Except String (List RawSignature))) (now : Instant) :
    Except Trace EveScoutSnapshot := do
  let raw ← response.read "fetching EVE-Scout signatures" "EVE-Scout returned error status"
    "parsing EVE-Scout signatures"
  let raw ← raw.mapError fun e => ["parsing EVE-Scout signatures", e]
  pure (partition raw now)

/-- The cells that handlers read, each swapped on its own. -/
structure AppState where
  graph : GraphData
  lastReloadAt : Option Instant := none
  eveScout : EveScoutSnapshot := {}

def AppState.new (graph : GraphData) : AppState := { graph := graph }

section Handlers

/-- The number of typeIDs in the catalog. -/
noncomputable def HullCatalog.len (c : HullCatalog) : ℕ :=
  Nat.card {typeId // (c.byTypeId typeId).isSome}

structure HealthResponse where
  status : String
  appVersion : String
  gitCommit : String
  sdeVersion : ℕ
  systems : ℕ
  edges : ℕ
  hullCount : ℕ
  lastSdeReloadAt : Option Instant
  sigCount : ℕ
  lastEvescoutFetchAt : Option Instant

/-- Service health, from what the handler has loaded. -/
noncomputable def health (env : Env) (graph : GraphData) (lastReloadAt : Option Instant)
    (scout : EveScoutSnapshot) : HealthResponse where
  status := "ok"
  appVersion := appVersion env
  gitCommit := gitCommit env
  sdeVersion := graph.buildNumber
  systems := graph.systems.length
  edges := graph.gateGraph.edges.length
  hullCount := graph.hulls.len
  lastSdeReloadAt := lastReloadAt
  sigCount := scout.sigCount
  lastEvescoutFetchAt := scout.fetchedAt

inductive Request where
  | routeSystem (req : GateRouteRequest)
  | routeBlops (req : BlopsRouteRequest)
  | routeRange (req : RangeRequest)
  | health

inductive Reply where
  | routeSystem (resp : Except AppError GateRouteResponse)
  | routeBlops (resp : Except AppError BlopsRouteResponse)
  | routeRange (resp : Except AppError RangeResponse)
  | health (resp : HealthResponse)

/-- The cells a handler has loaded so far. -/
inductive Handling where
  | entered
  | withGraph (graph : GraphData)
  | withReload (graph : GraphData) (lastReloadAt : Option Instant)
  | withScout (graph : GraphData) (scout : EveScoutSnapshot)
  | withAll (graph : GraphData) (lastReloadAt : Option Instant) (scout : EveScoutSnapshot)

/-- The next load of a handler: the graph, then for `health` the time of the last
reload, then the signatures, which `routeRange` does not read. -/
def Handling.load (app : AppState) : Request → Handling → Option Handling
  | _, .entered => some (.withGraph app.graph)
  | .routeSystem _, .withGraph graph | .routeBlops _, .withGraph graph =>
    some (.withScout graph app.eveScout)
  | .health, .withGraph graph => some (.withReload graph app.lastReloadAt)
  | .health, .withReload graph lastReloadAt => some (.withAll graph lastReloadAt app.eveScout)
  | _, _ => none

/-- The rest of a handler that has loaded all it reads. -/
noncomputable def Handling.respond (within : ∀ g, WithinUnsorted g) (env : Env) :
    Request → Handling → Option (Run Reply)
  | .routeSystem req, .withScout graph scout =>
    some (Reply.routeSystem <$> computeGateRoute graph scout req)
  | .routeBlops req, .withScout graph scout =>
    some (Reply.routeBlops <$> routeBlops (within graph) scout req)
  | .routeRange req, .withGraph graph => some (pure (.routeRange (routeRange (within graph) req)))
  | .health, .withAll graph lastReloadAt scout =>
    some (pure (.health (health env graph lastReloadAt scout)))
  | _, _ => none

end Handlers

section Tasks

/-- Where the hot-reload task stands: it compares a build with the manifest, then
stores the graph of a newer one, then the time. -/
inductive ReloadTask where
  | off
  | waiting
  | checking (currentBuild : ℕ)
  | refreshed (data : RawSdeData) (current : CacheMetadata)
  | swapped

/-- A failed check is retried at the next tick. A crash takes the process with it. -/
def ReloadTask.afterCheck : Except (Stop Trace) RefreshOutcome → Option ReloadTask
  | .ok .upToDate => some .waiting
  | .ok (.updated data current) => some (.refreshed data current)
  | .error (.error _) => some .waiting
  | .error .crash => none

/-- Where the EVE-Scout poller stands. -/
inductive ScoutTask where
  | off
  | waiting
  | fetched (snap : EveScoutSnapshot)

/-- A failed poll keeps the last snapshot. -/
def ScoutTask.afterPoll : Except Trace EveScoutSnapshot → ScoutTask
  | .ok snap => .fetched snap
  | .error _ => .waiting

end Tasks

/-- The memory of a running server: the cells, the tasks, the handlers of the
requests in flight and the search buffers of the worker threads. -/
structure Process where
  env : Env
  app : AppState
  reload : ReloadTask
  poller : ScoutTask
  handling : ℕ → Option (Request × Handling) := fun _ => none
  scratch : ℕ → DijkstraScratch := fun _ => {}

/-- Without a manifest to compare with, there is no hot reload. -/
def Process.new (env : Env) (graph : GraphData) : Process where
  env := env
  app := AppState.new graph
  reload :=
    match (resolveSdeDir env).isSome, sdeReloadInterval env with
    | true, _ => .off
    | false, some _ => .waiting
    | false, none => .off
  poller :=
    match eveScoutInterval env with
    | some _ => .waiting
    | none => .off

/-- The cache, the process if there is one, and how many requests have come. -/
structure Server where
  disk : Disk
  process : Option Process := none
  arrived : ℕ := 0

def Server.put (s : Server) (p : Process) : Server := { s with process := some p }

/-- What is the same throughout. -/
structure Deployment where
  cache : SdeCache
  serde : Serde
  within : ∀ g, WithinUnsorted g

/-- Load the SDE at startup, which is fatal if it fails. -/
def loadSde (w : Deployment) (env : Env) (files : String → Option Bytes) (host : Host) :
    Io (RawSdeData × CacheMetadata) :=
  match resolveSdeDir env with
  | some dir => context ("loading SDE from PALU_SDE_DIR" :: ·)
    (ofExcept (loadFromDir w.serde.toRowDecoder dir files host.fetchedAt))
  | none => context ("ensuring SDE cache" :: ·) (ensureCache w.cache w.serde host)

def Server.started (w : Deployment) (s : Server) (env : Env) (files : String → Option Bytes)
    (host : Host) : Server :=
  match run (loadSde w env files host) s.disk with
  | (.ok (data, current), disk) =>
    { s with
      disk := disk
      process := some (.new env (buildGraphData data current.buildNumber.toNat)) }
  | (.error _, disk) => { s with disk := disk }

/-- The check of the hot-reload task, from the build it compares with on. -/
def Server.checked (w : Deployment) (s : Server) (p : Process) (currentBuild : ℕ) (host : Host) :
    Server :=
  match run (checkAndRefresh w.cache w.serde host currentBuild) s.disk with
  | (r, disk) =>
    { s with
      disk := disk
      process := (ReloadTask.afterCheck r).map fun task => { p with reload := task } }

/-- The steps of the parties, with what they find around them. -/
inductive Event where
  | start (env : Env) (files : String → Option Bytes) (host : Host)
  | stop
  | reloadTick
  | check (host : Host)
  | swap
  | stamp (now : Instant)
  | poll (response : Response (Except String (List RawSignature))) (now : Instant)
  | store
  | arrive (req : Request)
  | load (id : ℕ)
  | reply (id worker : ℕ) (clock : ℕ → Instant) (reply : Reply)

/-- The parties take their steps in any order, and the process may end at any
time. No party waits for another. -/
inductive Step (w : Deployment) : Server → Event → Server → Prop where
  | start {s env files host} (hp : s.process = none) :
    Step w s (.start env files host) (s.started w env files host)
  | stop {s p} (hp : s.process = some p) : Step w s .stop { s with process := none }
  | reloadTick {s p} (hp : s.process = some p) (ht : p.reload = .waiting) :
    Step w s .reloadTick (s.put { p with reload := .checking p.app.graph.buildNumber })
  | check {s p currentBuild host} (hp : s.process = some p) (ht : p.reload = .checking currentBuild) :
    Step w s (.check host) (s.checked w p currentBuild host)
  | swap {s p data current} (hp : s.process = some p) (ht : p.reload = .refreshed data current) :
    Step w s .swap (s.put { p with
      reload := .swapped
      app := { p.app with graph := buildGraphData data current.buildNumber.toNat } })
  | stamp {s p now} (hp : s.process = some p) (ht : p.reload = .swapped) :
    Step w s (.stamp now) (s.put { p with
      reload := .waiting
      app := { p.app with lastReloadAt := some now } })
  | poll {s p response now} (hp : s.process = some p) (ht : p.poller = .waiting) :
    Step w s (.poll response now)
      (s.put { p with poller := .afterPoll (fetchSnapshot response now) })
  | store {s p snap} (hp : s.process = some p) (ht : p.poller = .fetched snap) :
    Step w s .store (s.put { p with
      poller := .waiting
      app := { p.app with eveScout := snap } })
  | arrive {s p req} (hp : s.process = some p) :
    Step w s (.arrive req) { s with
      arrived := s.arrived + 1
      process := some { p with
        handling := Function.update p.handling s.arrived (some (req, .entered)) } }
  | load {s p id req h h'} (hp : s.process = some p) (hh : p.handling id = some (req, h))
      (hl : h.load p.app req = some h') :
    Step w s (.load id)
      (s.put { p with handling := Function.update p.handling id (some (req, h')) })
  | reply {s p id worker clock req h rest answer left} (hp : s.process = some p)
      (hh : p.handling id = some (req, h)) (hr : h.respond w.within p.env req = some rest)
      (hx : rest { scratch := p.scratch worker, clock := clock } = .ok (answer, left)) :
    Step w s (.reply id worker clock answer) (s.put { p with
      handling := Function.update p.handling id none
      scratch := Function.update p.scratch worker left.scratch })

end Palu
