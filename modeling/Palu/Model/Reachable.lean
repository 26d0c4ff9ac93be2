import Palu.Model.Staging

namespace Palu

/-- The jumping hull, before the calibration bonus. -/
structure RangeHull where
  name : String
  typeId : ℤ
  baseLy : ℚ
  deriving DecidableEq

/-- A summary of the reachable set. The counts by class are a map, as the partial
function it answers. -/
structure RangeSummary where
  reachableCount : ℕ
  farthestLy : ℚ
  bySecClass : String → Option ℕ

structure RangeReachable where
  system : String
  systemId : ℤ
  security : ℚ
  secClass : String
  jumpLy : ℚ
  deriving DecidableEq

structure RangeSystem where
  system : String
  systemId : ℤ
  security : ℚ
  secClass : String
  deriving DecidableEq

structure RangeResponse where
  summary : RangeSummary
  jdcLevel : ℕ
  effectiveLy : ℚ
  source : RangeSystem
  hull : RangeHull
  reachable : List RangeReachable

def rangeSystem (s : System) : RangeSystem where
  system := s.name
  systemId := s.id
  security := s.security
  secClass := s.secClass.label

/-- One more reachable system of a class. -/
def countSecClass (counts : String → Option ℕ) (secClass : String) : String → Option ℕ :=
  Function.update counts secClass (some ((counts secClass).getD 0 + 1))

/-- The farthest is the last, since the entries are sorted. -/
def buildSummary (reachable : List (RangeReachable × Root)) : RangeSummary where
  reachableCount := reachable.length
  farthestLy := (reachable.getLast?.map fun e => round2 e.2).getD 0
  bySecClass := reachable.foldl (fun counts e => countSecClass counts e.1.secClass) fun _ => none

section Reachable
variable {g : GraphData}

/-- The radius query around the source, without the source itself and without
highsec, where no jump may land. -/
def reachableHits (within : WithinUnsorted g) (source : g.NodeIndex) (effectiveLy : ℚ) :
    List g.NodeIndex :=
  ((within g.spatialIndex (g.systems.get source).coords (radiusM2 effectiveLy)).filter
    fun idx => idx ≠ source).filter fun idx => (g.systems.get idx).secClass ≠ .highsec

/-- One reachable system, with its distance before rounding. -/
def rangeEntry (source idx : g.NodeIndex) : RangeReachable × Root :=
  let s := g.systems.get idx
  let ly := lyBetween s.coords (g.systems.get source).coords
  ({ system := s.name
     systemId := s.id
     security := s.security
     secClass := s.secClass.label
     jumpLy := round2 ly }, ly)

/-- Every system within one jump of the source, nearest first. -/
def computeReachable (within : WithinUnsorted g) (source : g.NodeIndex) (hull : RangeHull)
    (jdcLevel : ℕ) (effectiveLy : ℚ) : RangeResponse :=
  let reachable := Collections.sortBy (fun a b => compare a.2 b.2)
    ((reachableHits within source effectiveLy).map (rangeEntry source))
  { summary := buildSummary reachable
    jdcLevel := jdcLevel
    effectiveLy := effectiveLy
    source := rangeSystem (g.systems.get source)
    hull := hull
    reachable := reachable.map Prod.fst }

end Reachable

end Palu
