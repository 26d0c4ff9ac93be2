import Palu.Model.Server
import Palu.Proofs.ShortestPath
import Palu.Proofs.Requests

namespace Palu

section Steady
variable {g : GraphData} {scout : EveScoutSnapshot} {inputs : OverlayInputs}

theorem applyScoutOverlay_steady (endpoints : List g.NodeIndex) (ctx : RouteContext g) :
    Steady (applyScoutOverlay scout inputs endpoints ctx) :=
  Steady.utcNow.bind fun _ => .pure _

theorem applyOverlay_steady (endpoints : List g.NodeIndex) (ctx : RouteContext g) :
    Steady (applyOverlay scout inputs endpoints ctx) := by
  unfold applyOverlay
  cases resolveConnections g inputs with
  | error e => exact .pure _
  | ok connections => exact (applyScoutOverlay_steady _ _).bind fun _ => .pure _

theorem computeOne_steady (preference : Preference) (header : RouteHeader g) (toRef : SystemRef) :
    Steady (computeOne g scout inputs preference header toRef) := by
  unfold computeOne
  cases resolveSystem g toRef with
  | error e => exact .pure _
  | ok dst =>
    apply (applyScoutOverlay_steady _ _).bind
    intro ctx
    exact (Steady.withScratch (shortestPath_eq ctx _ _)).bind fun _ => .pure _

theorem computeGateRoute_steady (g : GraphData) (scout : EveScoutSnapshot)
    (req : GateRouteRequest) : Steady (computeGateRoute g scout req) := by
  unfold computeGateRoute
  cases resolveHeader g req with
  | error e => exact .pure _
  | ok header =>
    apply Steady.bind
    · apply Steady.mapM
      intro toRef
      exact (computeOne_steady _ _ _).bind fun _ => .pure _
    · exact fun _ => .pure _

theorem stageFrom_steady (query : StagingQuery) (src dst : g.NodeIndex)
    (candidates : List g.NodeIndex) : Steady (stageFrom scout query src dst candidates) := by
  unfold stageFrom
  cases assembleAvoidSet g query.overlay with
  | error e => exact .pure _
  | ok avoid =>
    apply (applyOverlay_steady _ _).bind
    intro r
    cases r with
    | error e => exact .pure _
    | ok ctx =>
      exact (Steady.withScratch (shortestPathMulti_eq ctx _ _)).bind fun _ => .pure _

theorem computeStaging_steady (within : WithinUnsorted g) (query : StagingQuery)
    (destOk stageOk : System → Bool) (onDestReject : System → AppError) :
    Steady (computeStaging within scout query destOk stageOk onDestReject) := by
  unfold computeStaging
  cases resolveSystem g query.src with
  | error e => exact .pure _
  | ok src =>
    cases resolveSystem g query.dst with
    | error e => exact .pure _
    | ok dst =>
      dsimp only
      split
      · split
        · exact .pure _
        · exact stageFrom_steady _ _ _ _
      · exact .pure _

theorem routeBlops_steady (within : WithinUnsorted g) (scout : EveScoutSnapshot)
    (req : BlopsRouteRequest) : Steady (routeBlops within scout req) := by
  unfold routeBlops
  split
  · exact .pure _
  · apply (computeStaging_steady _ _ _ _ _).bind
    intro r
    cases r with
    | error e => exact .pure _
    | ok resp => exact .pure _

end Steady

section Handlers

theorem respond_steady {w : Deployment} {env : Env} {req : Request} {h : Handling} {x : Run Reply}
    (hr : h.respond w.within env req = some x) : Steady x := by
  unfold Handling.respond at hr
  split at hr
  · cases hr
    exact (computeGateRoute_steady _ _ _).map _
  · cases hr
    exact (routeBlops_steady _ _ _).map _
  · cases hr
    exact .pure _
  · cases hr
    exact .pure _
  · cases hr

/-- The answer to a request on one graph, one time of the last reload and one list
of signatures, worked out on empty buffers. -/
inductive Answers (w : Deployment) (env : Env) (clock : ℕ → Instant) (graph : GraphData)
    (lastReloadAt : Option Instant) (scout : EveScoutSnapshot) : Request → Reply → Prop where
  | routeSystem {req resp left}
    (h : computeGateRoute graph scout req { clock := clock } = .ok (resp, left)) :
    Answers w env clock graph lastReloadAt scout (.routeSystem req) (.routeSystem resp)
  | routeBlops {req resp left}
    (h : routeBlops (w.within graph) scout req { clock := clock } = .ok (resp, left)) :
    Answers w env clock graph lastReloadAt scout (.routeBlops req) (.routeBlops resp)
  | routeRange {req} :
    Answers w env clock graph lastReloadAt scout (.routeRange req)
      (.routeRange (Palu.routeRange (w.within graph) req))
  | health :
    Answers w env clock graph lastReloadAt scout .health
      (.health (Palu.health env graph lastReloadAt scout))

end Handlers

end Palu
