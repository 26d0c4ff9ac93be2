import Palu.Model.Domain
import Palu.Collections

namespace Palu

open Collections

/-- How a per-request overlay edge was created. -/
inductive EdgeKind where
  | wormhole | bridge
  deriving DecidableEq, Repr

def EdgeKind.viaLabel : EdgeKind → String
  | .wormhole => "wormhole"
  | .bridge => "bridge"

inductive Preference where
  | shortest | safest | preferGates
  deriving DecidableEq, Repr

/-- The overlay: for each node, its overlay neighbours in insertion order. -/
abbrev Overlay (n : ℕ) := Fin n → List (Fin n × EdgeKind)

namespace Overlay
variable {n : ℕ}

/-- One direction of a connection, unless `a` already lists `b`. -/
def link (c : Overlay n) (a b : Fin n) (kind : EdgeKind) : Overlay n :=
  if (c a).any (fun e => e.1 = b) then c else Function.update c a (c a ++ [(b, kind)])

theorem mem_link {c : Overlay n} {a b x y : Fin n} {kind k : EdgeKind} :
    (y, k) ∈ c.link a b kind x ↔
      (y, k) ∈ c x ∨ x = a ∧ y = b ∧ k = kind ∧ ∀ k', (b, k') ∉ c a := by
  unfold link
  split
  · rename_i h
    obtain ⟨⟨z, k'⟩, hm, hz⟩ := List.any_eq_true.mp h
    simp only [decide_eq_true_eq] at hz
    subst hz
    exact ⟨.inl, fun h => h.elim id fun h => absurd hm (h.2.2.2 k')⟩
  · rename_i h
    have hnone : ∀ k', (b, k') ∉ c a := fun k' hm =>
      h (List.any_eq_true.mpr ⟨(b, k'), hm, by simp⟩)
    by_cases hx : x = a
    · subst hx
      simp [hnone]
    · simp [hx]

theorem link_nodup {c : Overlay n} {a b : Fin n} {kind : EdgeKind}
    (h : ∀ x, ((c x).map Prod.fst).Nodup) (x : Fin n) :
    ((c.link a b kind x).map Prod.fst).Nodup := by
  unfold link
  split
  · exact h x
  · rename_i hnew
    by_cases hx : x = a
    · subst hx
      simp only [Function.update_self, List.map_append, List.map_cons, List.map_nil]
      refine List.nodup_append.mpr ⟨h x, by simp, ?_⟩
      intro y hy z hz he
      obtain ⟨⟨w, k⟩, hm, rfl⟩ := List.mem_map.mp hy
      simp only [List.mem_singleton] at hz
      exact hnew (List.any_eq_true.mpr ⟨(w, k), hm, by simp_all⟩)
    · rw [Function.update_of_ne hx]
      exact h x

end Overlay

/-- Per-request routing context over the base graph. The overlay is mirrored,
has no self-loops and lists each neighbour once. -/
structure RouteContext (g : GraphData) where
  avoid : Finset g.NodeIndex
  connections : Overlay g.systems.length
  preference : Preference
  mirrored : ∀ {a b k}, (b, k) ∈ connections a → (a, k) ∈ connections b
  loopFree : ∀ {a k}, (a, k) ∉ connections a
  distinct : ∀ a, ((connections a).map Prod.fst).Nodup

def SECURITY_PENALTY : ℕ := 10000

def WORMHOLE_PENALTY : ℕ := 2

namespace RouteContext
variable {g : GraphData}

def new (avoid : Finset g.NodeIndex) (preference : Preference) : RouteContext g where
  avoid := avoid
  connections := fun _ => []
  preference := preference
  mirrored := by simp
  loopFree := by simp
  distinct := by simp

/-- Add an undirected connection. Self-loops and pairs already joined are
ignored, so the first kind recorded for a pair wins. -/
def addConnection (ctx : RouteContext g) (a b : g.NodeIndex) (kind : EdgeKind) :
    RouteContext g :=
  if hab : a = b then ctx
  else
    { ctx with
      connections := (ctx.connections.link a b kind).link b a kind
      mirrored := by
        have hm := @ctx.mirrored
        intro x y k h
        simp only [Overlay.mem_link] at h ⊢
        grind
      loopFree := by
        have hl := @ctx.loopFree
        intro x k
        simp only [Overlay.mem_link]
        grind
      distinct := Overlay.link_nodup (Overlay.link_nodup ctx.distinct) }

def overlayEdgeKind (ctx : RouteContext g) (a b : g.NodeIndex) : Option EdgeKind :=
  ((ctx.connections a).find? fun e => e.1 = b).map Prod.snd

def isOverlayEdge (ctx : RouteContext g) (a b : g.NodeIndex) : Bool :=
  (ctx.overlayEdgeKind a b).isSome

def hasGateEdge (_ctx : RouteContext g) (a b : g.NodeIndex) : Bool :=
  g.gateGraph.containsEdge a b

/-- How a step from `a` to `b` was reached: a real gate wins over an overlay
edge between the same pair. -/
def stepVia (ctx : RouteContext g) (a b : g.NodeIndex) : String :=
  if ctx.hasGateEdge a b then "stargate"
  else match ctx.overlayEdgeKind a b with
    | some kind => kind.viaLabel
    | none => "stargate"

/-- Gate neighbours, then overlay neighbours, without the avoided ones. -/
def neighbors (ctx : RouteContext g) (node : g.NodeIndex) : List g.NodeIndex :=
  (g.gateGraph.neighbors node ++ (ctx.connections node).map Prod.fst).filter
    fun nb => nb ∉ ctx.avoid

def securityPenalty (ctx : RouteContext g) (dest : SecClass) : ℕ :=
  match ctx.preference with
  | .safest => if dest ≠ .highsec then SECURITY_PENALTY else 0
  | _ => 0

def wormholePenalty (ctx : RouteContext g) (src dest : g.NodeIndex) : ℕ :=
  match ctx.preference with
  | .preferGates =>
    if ctx.isOverlayEdge src dest && !ctx.hasGateEdge src dest then WORMHOLE_PENALTY else 0
  | _ => 0

def edgeWeight (ctx : RouteContext g) (src dest : g.NodeIndex) : ℕ :=
  let secClass := (g.systems.get dest).secClass
  1 + ctx.securityPenalty secClass + ctx.wormholePenalty src dest

end RouteContext

abbrev Path (g : GraphData) := List g.NodeIndex

/-- Reusable buffers, of whatever lengths the last search left them with. A
distance is `⊤` where the code has `INFINITY`, a predecessor is `none` where it
has `NO_PREV`. -/
structure DijkstraScratch where
  dist : List ℕ∞ := []
  prev : List (Option ℕ) := []
  visited : List Bool := []

/-- `Vec::clear` and then `Vec::resize`: nothing of the old content is kept. -/
def clearResize {α β : Type*} (_old : List α) (n : ℕ) (x : β) : Vector β n :=
  Vector.replicate n x

structure HeapItem (n : ℕ) where
  dist : ℕ
  node : Fin n
  deriving DecidableEq

/-- Reversed, so that the greatest item is the nearest, lowest-numbered node. -/
def HeapItem.cmp {n : ℕ} (self other : HeapItem n) : Ordering :=
  (compare other.dist self.dist).then (compare other.node self.node)

/-- The buffers of a search over `n` nodes, and its heap. -/
structure Search (n : ℕ) where
  dist : Vector ℕ∞ n
  prev : Vector (Option (Fin n)) n
  visited : Vector Bool n
  heap : List (HeapItem n)

/-- Buffers of length `n` with nothing in them. -/
def DijkstraScratch.reset (scratch : DijkstraScratch) (n : ℕ) : Search n where
  dist := clearResize scratch.dist n ⊤
  prev := clearResize scratch.prev n none
  visited := clearResize scratch.visited n false
  heap := []

/-- What a search leaves behind for the next one. -/
def Search.scratch {n : ℕ} (s : Search n) : DijkstraScratch where
  dist := s.dist.toList
  prev := s.prev.toList.map (Option.map Fin.val)
  visited := s.visited.toList

/-- How a run can fail to answer: a loop that outlives its bound, or a broken
predecessor chain (the debug assertion, or a read past the end of `prev`). -/
inductive Fault where
  | outOfFuel
  | brokenChain
  deriving DecidableEq, Repr

namespace Search
variable {n : ℕ}

/-- Take the greatest item off the heap. -/
def pop (s : Search n) : Option (HeapItem n × Search n) :=
  (Collections.pop HeapItem.cmp s.heap).map fun e => (e.1, { s with heap := e.2 })

def push (s : Search n) (item : HeapItem n) : Search n := { s with heap := item :: s.heap }

def visit (s : Search n) (node : Fin n) : Search n :=
  { s with visited := put s.visited node true }

end Search

section Search
variable {g : GraphData}

/-- Follow `prev` from `cur` back to `from`, putting each node in front of the
ones after it (the code pushes and then reverses). -/
def reconstructPath.go (prev : Vector (Option g.NodeIndex) g.systems.length)
    (src : g.NodeIndex) : ℕ → g.NodeIndex → Path g → Except Fault (Path g)
  | 0, _, _ => .error .outOfFuel
  | fuel + 1, cur, path =>
    if cur = src then .ok path
    else match prev.get cur with
      | none => .error .brokenChain
      | some p => go prev src fuel p (p :: path)

def reconstructPath (prev : Vector (Option g.NodeIndex) g.systems.length)
    (src dst : g.NodeIndex) : Except Fault (Path g) :=
  reconstructPath.go prev src g.systems.length dst [dst]

def NO_PREV : ℕ := 2 ^ 32 - 1

/-- The entries of `prev` as the code holds them. -/
def rawPrev {n : ℕ} (prev : Vector (Option (Fin n)) n) : List ℕ :=
  prev.toList.map fun p => p.elim NO_PREV Fin.val

/-- The loop of `reconstructPath` in a release build: on the raw entries, and
without the assertion on what it reads. -/
def reconstructPath.release (prev : List ℕ) (src : ℕ) :
    ℕ → ℕ → List ℕ → Except Fault (List ℕ)
  | 0, _, _ => .error .outOfFuel
  | fuel + 1, cur, path =>
    if cur = src then .ok path
    else match prev[cur]? with
      | none => .error .brokenChain
      | some p => release prev src fuel p (p :: path)

/-- Relax the edge from `cur`, popped at `dist`, to one of its neighbours. -/
def relax (ctx : RouteContext g) (cur : g.NodeIndex) (dist : ℕ)
    (s : Search g.systems.length) (nb : g.NodeIndex) : Search g.systems.length :=
  if s.visited.get nb then s
  else
    let newDist := dist + ctx.edgeWeight cur nb
    if (newDist : ℕ∞) < s.dist.get nb then
      { s with
        dist := put s.dist nb newDist
        prev := put s.prev nb (some cur) }.push ⟨newDist, nb⟩
    else s

/-- The buffers after `reset`, with `from` at distance zero on the heap. -/
def startSearch (src : g.NodeIndex) (scratch : DijkstraScratch) :
    Search g.systems.length :=
  let s := scratch.reset g.systems.length
  { s with dist := put s.dist src 0 }.push ⟨0, src⟩

/-- More pops than any search over `ctx` can make. -/
def RouteContext.popBound (ctx : RouteContext g) : ℕ :=
  ((List.finRange g.systems.length).map fun v => (ctx.neighbors v).length).sum + 2

def shortestPath.loop (ctx : RouteContext g) (src dst : g.NodeIndex) :
    ℕ → Search g.systems.length → Except Fault (Option (Path g) × DijkstraScratch)
  | 0, _ => .error .outOfFuel
  | fuel + 1, s =>
    match s.pop with
    | none => .ok (none, s.scratch)
    | some (⟨dist, node⟩, s) =>
      if s.visited.get node then loop ctx src dst fuel s
      else
        let s := s.visit node
        if node = dst then
          (reconstructPath s.prev src dst).map fun path => (some path, s.scratch)
        else if s.dist.get node < dist then loop ctx src dst fuel s
        else loop ctx src dst fuel ((ctx.neighbors node).foldl (relax ctx node dist) s)

/-- Dijkstra from `src` to `dst` over `ctx`. -/
def shortestPath (ctx : RouteContext g) (src dst : g.NodeIndex) (scratch : DijkstraScratch) :
    Except Fault (Option (Path g) × DijkstraScratch) :=
  shortestPath.loop ctx src dst ctx.popBound (startSearch src scratch)

/-- One settled target of a multi-target search. -/
structure SettledTarget (g : GraphData) where
  node : g.NodeIndex
  jumps : ℕ
  path : Path g
  deriving DecidableEq

/-- The main loop of the multi-target search: `want` holds the targets not yet
settled, `remaining` how many there are. -/
def shortestPathMulti.loop (ctx : RouteContext g) :
    ℕ → Finset g.NodeIndex → ℕ → Search g.systems.length →
      Except Fault (Search g.systems.length)
  | 0, _, _, _ => .error .outOfFuel
  | fuel + 1, want, remaining, s =>
    match s.pop with
    | none => .ok s
    | some (⟨dist, node⟩, s) =>
      if s.visited.get node then loop ctx fuel want remaining s
      else
        let s := s.visit node
        let removed := node ∈ want
        let want := want.erase node
        let remaining := if removed then remaining - 1 else remaining
        if removed ∧ remaining = 0 then .ok s
        else if s.dist.get node < dist then loop ctx fuel want remaining s
        else loop ctx fuel want remaining ((ctx.neighbors node).foldl (relax ctx node dist) s)

/-- Dijkstra from `src` that settles every node of `targets` in one expansion. -/
def shortestPathMulti (ctx : RouteContext g) (src : g.NodeIndex) (targets : List g.NodeIndex)
    (scratch : DijkstraScratch) : Except Fault (List (SettledTarget g) × DijkstraScratch) := do
  let want := targets.toFinset
  let s ← shortestPathMulti.loop ctx ctx.popBound want want.card (startSearch src scratch)
  let settled ← (targets.filter fun t => s.visited.get t).mapM fun t => do
    let path ← reconstructPath s.prev src t
    pure { node := t, jumps := path.length - 1, path := path }
  pure (settled, s.scratch)

end Search

end Palu
