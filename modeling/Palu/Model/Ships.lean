import Palu.Model.Reachable

namespace Palu

/-- A hull reference: a case-insensitive name or a numeric typeID. -/
inductive ShipRef where
  | name (name : String)
  | id (id : ℤ)
  deriving DecidableEq, Repr

/-- EVE's Black Ops hull group. -/
def BLOPS_GROUP_ID : ℤ := 898

/-- Every jump-capable hull needs the first calibration level. -/
def validateJdcLevel (jdcLevel : ℕ) : Except AppError Unit :=
  if 1 ≤ jdcLevel ∧ jdcLevel ≤ 5 then .ok ()
  else .error (.invalidParam ("jdc_level must be 1..=5, got " ++ toString jdcLevel))

section Resolving
variable (g : GraphData)

/-- Resolve a ship against the catalog, case-insensitively for names. -/
def resolveHull : ShipRef → Except AppError HullEntry
  | .id id =>
    match g.hulls.byTypeId id with
    | some entry => .ok entry
    | none => .error (.unknownHull (toString id))
  | .name name =>
    match g.hulls.byName name with
    | some entry => .ok entry
    | none => .error (.unknownHull name)

/-- The effective bridge range, and whether it is that of the worst Black Ops
hull, which is taken where no ship is given. -/
def resolveEffectiveLy (ship : Option ShipRef) (jdcLevel : ℕ) : Except AppError (ℚ × Bool) := do
  validateJdcLevel jdcLevel
  let bonus := g.hulls.bonusPerLevel
  match ship with
  | some r => do
    let entry ← resolveHull g r
    pure (effectiveLy entry.baseLy bonus jdcLevel, false)
  | none =>
    match g.hulls.minBaseLyForGroup BLOPS_GROUP_ID with
    | some base => pure (effectiveLy base bonus jdcLevel, true)
    | none => throw (.unknownHull "no Black Ops hull in catalog")

end Resolving

/-- Request body for `POST /api/v1/route/range`. -/
structure RangeRequest where
  src : SystemRef
  ship : ShipRef
  jdcLevel : ℕ

/-- Request body for `POST /api/v1/route/blops`. -/
structure BlopsRouteRequest where
  src : SystemRef
  dst : SystemRef
  ship : Option ShipRef := none
  jdcLevel : ℕ := DEFAULT_JDC_LEVEL
  preference : RoutePreference := .shortest
  avoid : List SystemRef := []
  useWormholes : Bool := false
  useBridges : Bool := false
  connections : List Connection := []
  includeThera : Bool := false
  includeTurnur : Bool := false
  includeZarzakh : Bool := false

def BlopsRouteRequest.overlay (r : BlopsRouteRequest) : OverlayInputs where
  avoid := r.avoid
  includeZarzakh := r.includeZarzakh
  useWormholes := r.useWormholes
  useBridges := r.useBridges
  connections := r.connections
  includeThera := r.includeThera
  includeTurnur := r.includeTurnur

section Handlers
variable {g : GraphData}

def routeRange (within : WithinUnsorted g) (req : RangeRequest) :
    Except AppError RangeResponse := do
  validateJdcLevel req.jdcLevel
  let src ← resolveSystem g req.src
  let entry ← resolveHull g req.ship
  let effective := effectiveLy entry.baseLy g.hulls.bonusPerLevel req.jdcLevel
  let hull : RangeHull := { name := entry.name, typeId := entry.typeId, baseLy := entry.baseLy }
  pure (computeReachable within src hull req.jdcLevel effective)

/-- The target must not be highsec, a staging system may be of any class. The
bridge parameters are echoed here. -/
def routeBlops (within : WithinUnsorted g) (scout : EveScoutSnapshot) (req : BlopsRouteRequest) :
    Run (Except AppError BlopsRouteResponse) :=
  match resolveEffectiveLy g req.ship req.jdcLevel with
  | .error e => pure (.error e)
  | .ok (effective, defaulted) => do
    let query : StagingQuery :=
      { src := req.src
        dst := req.dst
        effectiveLy := effective
        overlay := req.overlay
        preference := req.preference.toPreference }
    match ← computeStaging within scout query blopsDestOk blopsStageOk blopsDestReject with
    | .error e => pure (.error e)
    | .ok resp => pure (.ok
      { resp with jdcLevel := req.jdcLevel, effectiveLy := effective, defaulted := defaulted })

end Handlers

end Palu
