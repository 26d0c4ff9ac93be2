import Palu.Model.Routing

namespace Palu

/-- A system reference: a case-insensitive name or a numeric SDE id. -/
inductive SystemRef where
  | name (name : String)
  | id (id : ℤ)
  deriving DecidableEq, Repr

inductive RoutePreference where
  | shortest | safest | preferGates
  deriving DecidableEq, Repr

def RoutePreference.toPreference : RoutePreference → Preference
  | .shortest => .shortest
  | .safest => .safest
  | .preferGates => .preferGates

inductive ConnectionKind where
  | bridge | wormhole
  deriving DecidableEq, Repr

/-- A user-supplied connection. -/
structure Connection where
  kind : ConnectionKind
  src : SystemRef
  dst : SystemRef
  maxSize : Option String := none
  deriving DecidableEq

def MAX_DESTINATIONS : ℕ := 1000

/-- A fan-out: one header shared by every destination of `dst`. -/
structure GateRouteRequest where
  src : SystemRef
  dst : List SystemRef
  preference : RoutePreference := .shortest
  avoid : List SystemRef := []
  useWormholes : Bool := false
  useBridges : Bool := false
  connections : List Connection := []
  includeThera : Bool := false
  includeTurnur : Bool := false
  includeZarzakh : Bool := false

/-- One step in a route: the system reached and how it was reached. -/
structure RouteStep where
  system : String
  systemId : ℤ
  security : ℚ
  secClass : String
  via : String
  deriving DecidableEq

inductive GateRouteOutcome where
  | route (jumps : ℕ) (path : List RouteStep)
  | failure (error message : String)
  deriving DecidableEq

structure GateRouteResult where
  dst : SystemRef
  outcome : GateRouteOutcome
  deriving DecidableEq

structure GateRouteResponse where
  src : SystemRef
  results : List GateRouteResult
  deriving DecidableEq

structure BlopsSystem where
  system : String
  systemId : ℤ
  security : ℚ
  secClass : String
  deriving DecidableEq

/-- A fallback staging candidate. -/
structure BlopsCandidate where
  system : BlopsSystem
  gateJumps : ℕ
  lyToB : ℚ
  deriving DecidableEq

structure BlopsBridge where
  src : BlopsSystem
  dst : BlopsSystem
  jumpLy : ℚ
  inRange : Bool
  deriving DecidableEq

/-- The gate path to the chosen staging system and the bridge leg from it. -/
structure BlopsChosen where
  gateJumps : ℕ
  gatePath : List RouteStep
  bridge : BlopsBridge
  deriving DecidableEq

structure BlopsRouteResponse where
  jdcLevel : ℕ
  effectiveLy : ℚ
  defaulted : Bool
  chosen : BlopsChosen
  alternates : List BlopsCandidate
  deriving DecidableEq

inductive AppError where
  | unknownSystem (s : String)
  | unknownHull (s : String)
  | invalidParam (s : String)
  | unreachable
  | cynoTargetHighsec (s : String)
  | noStagingInRange
  | stagingUnreachable
  deriving DecidableEq, Repr

namespace AppError

/-- Status code, error code and message. -/
def parts : AppError → ℕ × String × String
  | .unknownSystem s => (400, "unknown_system", "system not found: " ++ s)
  | .unknownHull s => (400, "unknown_hull", "hull not found: " ++ s)
  | .invalidParam s => (400, "invalid_param", s)
  | .unreachable => (404, "unreachable", "no gate route between the requested systems")
  | .cynoTargetHighsec s =>
    (400, "cyno_target_highsec", "a cyno cannot be lit in highsec: " ++ s)
  | .noStagingInRange =>
    (404, "no_staging_in_range", "no staging system within bridge range of the target")
  | .stagingUnreachable =>
    (404, "staging_unreachable", "no in-range staging system is gate-reachable from the fleet")

def codeMessage (e : AppError) : String × String :=
  let (_status, code, message) := e.parts
  (code, message)

end AppError

/-- An instant of the UTC clock. -/
abbrev Instant := ℤ

def THERA_SYSTEM_ID : ℤ := 31000005

def TURNUR_SYSTEM_ID : ℤ := 30002086

/-- A wormhole signature. The hub, Thera or Turnur, is on the out side. -/
structure Signature where
  outSystemId : ℤ
  inSystemId : ℤ
  inSystemName : String
  maxShipSize : Option String
  expiresAt : Instant
  deriving DecidableEq

def Signature.isLive (sig : Signature) (now : Instant) : Bool := sig.expiresAt > now

structure EveScoutSnapshot where
  thera : List Signature := []
  turnur : List Signature := []
  fetchedAt : Option Instant := none

/-- A signature row as EVE-Scout sends it. -/
structure RawSignature where
  outSystemId : ℤ
  inSystemId : ℤ
  inSystemName : String
  maxShipSize : Option String := none
  signatureType : String
  expiresAt : Instant

def RawSignature.signature (r : RawSignature) : Signature where
  outSystemId := r.outSystemId
  inSystemId := r.inSystemId
  inSystemName := r.inSystemName
  maxShipSize := r.maxShipSize
  expiresAt := r.expiresAt

/-- Keep a wormhole row in the list of the hub it leaves. Other rows are dropped. -/
def EveScoutSnapshot.keep (snap : EveScoutSnapshot) (r : RawSignature) : EveScoutSnapshot :=
  if r.signatureType ≠ "wormhole" then snap
  else if r.outSystemId = THERA_SYSTEM_ID then
    { snap with thera := snap.thera ++ [r.signature] }
  else if r.outSystemId = TURNUR_SYSTEM_ID then
    { snap with turnur := snap.turnur ++ [r.signature] }
  else snap

def partition (raw : List RawSignature) (fetchedAt : Instant) : EveScoutSnapshot :=
  raw.foldl EveScoutSnapshot.keep { fetchedAt := some fetchedAt }

end Palu
