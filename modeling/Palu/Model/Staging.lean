import Palu.Model.Range
import Palu.Model.Route

namespace Palu

def MAX_ALTERNATES : ℕ := 5

structure StagingQuery where
  src : SystemRef
  dst : SystemRef
  effectiveLy : ℚ
  overlay : OverlayInputs
  preference : Preference

/-- A radius query: the items within a squared distance of a point, unsorted. -/
abbrev WithinUnsorted (g : GraphData) := KdTree g.NodeIndex → Coords → ℚ → List g.NodeIndex

section Staging
variable {g : GraphData}

/-- The radius query around the target, without the target itself and without
what `stageOk` refuses. -/
def stagingCandidates (within : WithinUnsorted g) (effectiveLy : ℚ) (dst : g.NodeIndex)
    (stageOk : System → Bool) : List g.NodeIndex :=
  ((within g.spatialIndex (g.systems.get dst).coords (radiusM2 effectiveLy)).filter
    fun idx => idx ≠ dst).filter fun idx => stageOk (g.systems.get idx)

def lyToB (dst node : g.NodeIndex) : Root :=
  lyBetween (g.systems.get node).coords (g.systems.get dst).coords

/-- Fewest jumps first, then closest to the target. -/
def settledCmp (dst : g.NodeIndex) (a b : SettledTarget g) : Ordering :=
  (compare a.jumps b.jumps).then (compare (lyToB dst a.node) (lyToB dst b.node))

def blopsSystem (s : System) : BlopsSystem where
  system := s.name
  systemId := s.id
  security := s.security
  secClass := s.secClass.label

def blopsCandidate (dst : g.NodeIndex) (t : SettledTarget g) : BlopsCandidate where
  system := blopsSystem (g.systems.get t.node)
  gateJumps := t.jumps
  lyToB := round2 (lyToB dst t.node)

/-- The head of the ranking is the chosen system. The others are its
alternates, unless the fleet is already in range. -/
def stagingResponse (ctx : RouteContext g) (dst : g.NodeIndex) (effectiveLy : ℚ)
    (head : SettledTarget g) (rest : List (SettledTarget g)) : BlopsRouteResponse where
  chosen :=
    { gateJumps := head.jumps
      gatePath := buildSteps ctx head.path
      bridge :=
        { src := blopsSystem (g.systems.get head.node)
          dst := blopsSystem (g.systems.get dst)
          jumpLy := round2 (lyToB dst head.node)
          inRange := true } }
  alternates :=
    if head.jumps = 0 then [] else (rest.take MAX_ALTERNATES).map (blopsCandidate dst)
  jdcLevel := 0
  effectiveLy := effectiveLy
  defaulted := false

/-- Rank what a search settled and shape the response. -/
def rankStaging (ctx : RouteContext g) (dst : g.NodeIndex) (effectiveLy : ℚ)
    (settled : List (SettledTarget g)) : Except AppError BlopsRouteResponse :=
  match Collections.sortBy (settledCmp dst) settled with
  | [] => .error .stagingUnreachable
  | head :: rest => .ok (stagingResponse ctx dst effectiveLy head rest)

/-- The gate leg, from a non-empty list of candidates on. -/
def stageFrom (scout : EveScoutSnapshot) (query : StagingQuery) (src dst : g.NodeIndex)
    (candidates : List g.NodeIndex) : Run (Except AppError BlopsRouteResponse) :=
  match assembleAvoidSet g query.overlay with
  | .error e => pure (.error e)
  | .ok avoid => do
    let ctx := RouteContext.new (avoid.erase src) query.preference
    match ← applyOverlay scout query.overlay [src, dst] ctx with
    | .error e => pure (.error e)
    | .ok ctx => do
      let settled ← withScratch (shortestPathMulti ctx src candidates)
      pure (rankStaging ctx dst query.effectiveLy settled)

/-- Compute a staging route: `destOk` gates the target, `stageOk` filters the
candidates. -/
def computeStaging (within : WithinUnsorted g) (scout : EveScoutSnapshot) (query : StagingQuery)
    (destOk stageOk : System → Bool) (onDestReject : System → AppError) :
    Run (Except AppError BlopsRouteResponse) :=
  match resolveSystem g query.src, resolveSystem g query.dst with
  | .error e, _ => pure (.error e)
  | .ok _, .error e => pure (.error e)
  | .ok src, .ok dst =>
    if destOk (g.systems.get dst) then
      let candidates := stagingCandidates within query.effectiveLy dst stageOk
      if candidates.isEmpty then pure (.error .noStagingInRange)
      else stageFrom scout query src dst candidates
    else pure (.error (onDestReject (g.systems.get dst)))

end Staging

/-- A cyno can be lit anywhere but in highsec. -/
def blopsDestOk (b : System) : Bool := b.secClass ≠ .highsec

/-- A bridge may be opened from any class of system, highsec included. -/
def blopsStageOk (_star : System) : Bool := true

def blopsDestReject (b : System) : AppError := .cynoTargetHighsec b.name

end Palu
