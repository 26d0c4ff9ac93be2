import Mathlib

namespace Palu

/-- Security classification used for routing weights and response labels. -/
inductive SecClass where
  | highsec | lowsec | nullsec | wormhole
  deriving DecidableEq, Repr

def SecClass.label : SecClass → String
  | .highsec => "Highsec"
  | .lowsec => "Lowsec"
  | .nullsec => "Nullsec"
  | .wormhole => "Wormhole"

/-- A position in metres, its `f64` components read as exact numbers. -/
abbrev Coords := ℚ × ℚ × ℚ

structure System where
  id : ℤ
  name : String
  security : ℚ
  secClass : SecClass
  coords : Coords
  regionId : ℤ
  constellationId : ℤ
  deriving DecidableEq

def System.isWormhole (s : System) : Bool :=
  match s.secClass with
  | .wormhole => true
  | _ => false

/-- One jump-capable hull of the `types`/`typeDogma` join. -/
structure RawHull where
  typeId : ℤ
  name : String
  groupId : ℤ
  baseLy : ℚ
  deriving DecidableEq

structure RawHullCatalog where
  hulls : List RawHull := []
  jdcBonusPerLevel : Option ℚ := none

structure RawSdeData where
  systems : List System
  gatePairs : List (ℤ × ℤ)
  hulls : RawHullCatalog := {}

structure HullEntry where
  name : String
  typeId : ℤ
  baseLy : ℚ
  groupId : ℤ
  deriving DecidableEq

/-- The catalog's hash maps, as the partial functions they answer. -/
structure HullCatalog where
  byNameMap : String → Option HullEntry := fun _ => none
  byTypeIdMap : ℤ → Option HullEntry := fun _ => none
  minBaseLyByGroup : ℤ → Option ℚ := fun _ => none
  bonusPerLevel : ℚ := 0

namespace HullCatalog

/-- One pass of the loop in `fromRaw`: later entries win in both lookups, the
group minimum only ever goes down. -/
def insert (c : HullCatalog) (hull : RawHull) : HullCatalog :=
  let entry : HullEntry :=
    { name := hull.name, typeId := hull.typeId, baseLy := hull.baseLy, groupId := hull.groupId }
  { c with
    byNameMap := Function.update c.byNameMap hull.name.toLower (some entry)
    byTypeIdMap := Function.update c.byTypeIdMap hull.typeId (some entry)
    minBaseLyByGroup := Function.update c.minBaseLyByGroup hull.groupId
      (match c.minBaseLyByGroup hull.groupId with
       | some m => if hull.baseLy < m then some hull.baseLy else some m
       | none => some hull.baseLy) }

def fromRaw (raw : RawHullCatalog) : HullCatalog :=
  { raw.hulls.foldl insert {} with bonusPerLevel := raw.jdcBonusPerLevel.getD 0 }

/-- Look up a hull by case-insensitive name. -/
def byName (c : HullCatalog) (name : String) : Option HullEntry := c.byNameMap name.toLower

def byTypeId (c : HullCatalog) (typeId : ℤ) : Option HullEntry := c.byTypeIdMap typeId

def minBaseLyForGroup (c : HullCatalog) (groupId : ℤ) : Option ℚ := c.minBaseLyByGroup groupId

end HullCatalog

/-- An undirected graph on the nodes below `n`. The far ends of a node's edges
may be listed in any order and any number of times. -/
structure UnGraph (n : ℕ) where
  edges : List (Fin n × Fin n)
  neighbors : Fin n → List (Fin n)
  mem_neighbors : ∀ {a b}, b ∈ neighbors a ↔ (a, b) ∈ edges ∨ (b, a) ∈ edges

namespace UnGraph
variable {n : ℕ}

def containsEdge (G : UnGraph n) (a b : Fin n) : Bool := (a, b) ∈ G.edges ∨ (b, a) ∈ G.edges

/-- The graph of a list of edges: newest edges first, those leaving the node
before those entering it, a self-loop once. -/
def ofEdges (edges : List (Fin n × Fin n)) : UnGraph n where
  edges := edges
  neighbors a :=
    edges.reverse.filterMap (fun e => if e.1 = a then some e.2 else none) ++
    edges.reverse.filterMap (fun e => if e.2 = a ∧ e.1 ≠ a then some e.1 else none)
  mem_neighbors := by
    intro a b
    simp only [List.mem_append, List.mem_filterMap, List.mem_reverse, Prod.exists,
      Option.ite_none_right_eq_some, Option.some.injEq]
    constructor
    · rintro (⟨x, y, h, rfl, rfl⟩ | ⟨x, y, h, ⟨rfl, _⟩, rfl⟩)
      · exact .inl h
      · exact .inr h
    · rintro (h | h)
      · exact .inl ⟨a, b, h, rfl, rfl⟩
      · by_cases hab : b = a
        · exact .inl ⟨b, a, h, hab, hab.symm⟩
        · exact .inr ⟨b, a, h, ⟨rfl, hab⟩, rfl⟩

theorem containsEdge_comm (G : UnGraph n) (a b : Fin n) :
    G.containsEdge a b = G.containsEdge b a := by
  simp [containsEdge, or_comm]

theorem mem_neighbors_iff (G : UnGraph n) (a b : Fin n) :
    b ∈ G.neighbors a ↔ G.containsEdge a b = true := by
  simp [containsEdge, G.mem_neighbors]

end UnGraph

/-- The points a kd-tree holds, each with its item, in the order they were added. -/
abbrev KdTree (α : Type*) := List (Coords × α)

/-- The fully built map. A node is a position in `systems`, so no lookup, edge
or indexed point can name a system that is not there. The kd-tree holds each
K-space system once, at its own coordinates. -/
structure GraphData where
  systems : List System
  idToIdx : ℤ → Option (Fin systems.length)
  nameToIdx : String → Option (Fin systems.length)
  gateGraph : UnGraph systems.length
  spatialIndex : KdTree (Fin systems.length)
  hulls : HullCatalog
  buildNumber : ℕ
  spatial_mem : ∀ {p i}, (p, i) ∈ spatialIndex ↔
    (systems.get i).isWormhole = false ∧ p = (systems.get i).coords
  spatial_nodup : (spatialIndex.map Prod.snd).Nodup

abbrev GraphData.NodeIndex (g : GraphData) := Fin g.systems.length

end Palu
