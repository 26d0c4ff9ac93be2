import Palu.Proofs.Search

namespace Palu

open Paths Collections

/-- What the main loop does with the item it has popped. -/
inductive Deed where
  | skip | finish | stale | expand
  deriving DecidableEq, Repr

/-- One pass of the main loop: the item, the buffers right after the pop, and
what became of the item. -/
structure Pass (n : ℕ) where
  item : HeapItem n
  buffers : Search n
  deed : Deed

/-- How the main loop is left: out of passes, on an empty heap, or at a node
that it was to stop at. -/
inductive Ending (n : ℕ) where
  | outOfFuel
  | drained (s : Search n)
  | finished (s : Search n)

structure Record (n : ℕ) where
  passes : List (Pass n)
  ending : Ending n

def Record.after {n : ℕ} (pass : Pass n) (r : Record n) : Record n :=
  { r with passes := pass :: r.passes }

section Passes
variable {n : ℕ} {p : Pass n} {r : Record n}

@[simp] theorem Record.passes_after : (r.after p).passes = p :: r.passes := rfl

/-- The main loop of both searches, pass by pass. `settle` is what a search
does on visiting a node, `none` where it stops there. -/
def record {κ : Type*} (expand : Fin n → ℕ → Search n → Search n)
    (settle : κ → Fin n → Option κ) : ℕ → κ → Search n → Record n
  | 0, _, _ => ⟨[], .outOfFuel⟩
  | fuel + 1, k, s =>
    match s.pop with
    | none => ⟨[], .drained s⟩
    | some (i, t) =>
      if t.visited.get i.node then
        (record expand settle fuel k t).after ⟨i, t, .skip⟩
      else
        let u := t.visit i.node
        match settle k i.node with
        | none => ⟨[⟨i, t, .finish⟩], .finished u⟩
        | some k =>
          if u.dist.get i.node < i.dist then
            (record expand settle fuel k u).after ⟨i, t, .stale⟩
          else
            (record expand settle fuel k (expand i.node i.dist u)).after ⟨i, t, .expand⟩

/-- Expansions that agree wherever a run expands a node record the same run. -/
theorem record_congr {κ : Type*} {expand expand' : Fin n → ℕ → Search n → Search n}
    {settle : κ → Fin n → Option κ} (fuel : ℕ) (k : κ) (s : Search n)
    (h : ∀ p ∈ (record expand settle fuel k s).passes, p.deed = .expand →
      expand' p.item.node p.item.dist (p.buffers.visit p.item.node) =
        expand p.item.node p.item.dist (p.buffers.visit p.item.node)) :
    record expand' settle fuel k s = record expand settle fuel k s := by
  induction fuel generalizing k s with
  | zero => rfl
  | succ fuel ih =>
    rw [record] at h
    rw [record, record]
    cases hp : s.pop with
    | none => rfl
    | some e =>
      obtain ⟨i, t⟩ := e
      rw [hp] at h
      dsimp only at h ⊢
      by_cases hv : t.visited.get i.node = true
      · rw [if_pos hv, Record.passes_after, List.forall_mem_cons] at h
        rw [if_pos hv, if_pos hv, ih k t h.2]
      · rw [if_neg hv] at h
        rw [if_neg hv, if_neg hv]
        cases hk : settle k i.node with
        | none => rfl
        | some k' =>
          rw [hk] at h
          dsimp only at h ⊢
          by_cases hd : (t.visit i.node).dist.get i.node < i.dist
          · rw [if_pos hd, Record.passes_after, List.forall_mem_cons] at h
            rw [if_pos hd, if_pos hd, ih k' _ h.2]
          · rw [if_neg hd, Record.passes_after, List.forall_mem_cons] at h
            rw [if_neg hd, if_neg hd, h.1 rfl, ih k' _ h.2]

end Passes

section Search
variable {g : GraphData} {ctx : RouteContext g} {src dst : g.NodeIndex}

def expandNode (ctx : RouteContext g) (node : g.NodeIndex) (dist : ℕ)
    (s : Search g.systems.length) : Search g.systems.length :=
  (ctx.neighbors node).foldl (relax ctx node dist) s

/-- A search for one node stops on visiting it. -/
def stopAt (dst : g.NodeIndex) (_ : Unit) (node : g.NodeIndex) : Option Unit :=
  if node = dst then none else some ()

/-- A search for many stops on visiting the last one it wants. -/
def stopWhenSettled (k : Finset g.NodeIndex × ℕ) (node : g.NodeIndex) :
    Option (Finset g.NodeIndex × ℕ) :=
  let removed := node ∈ k.1
  let remaining := if removed then k.2 - 1 else k.2
  if removed ∧ remaining = 0 then none else some (k.1.erase node, remaining)

/-- What a search for `dst` makes of the end of its loop. -/
def Ending.route (src dst : g.NodeIndex) :
    Ending g.systems.length → Except Fault (Option (Path g) × DijkstraScratch)
  | .outOfFuel => .error .outOfFuel
  | .drained s => .ok (none, s.scratch)
  | .finished s => (reconstructPath s.prev src dst).map fun path => (some path, s.scratch)

/-- The buffers that a multi-target search goes on to read. -/
def Ending.left {n : ℕ} : Ending n → Except Fault (Search n)
  | .outOfFuel => .error .outOfFuel
  | .drained s => .ok s
  | .finished s => .ok s

/-- What a search for `targets` makes of it. -/
def Ending.settled (src : g.NodeIndex) (targets : List g.NodeIndex)
    (ending : Ending g.systems.length) :
    Except Fault (List (SettledTarget g) × DijkstraScratch) := do
  let s ← ending.left
  let settled ← (targets.filter fun t => s.visited.get t).mapM fun t => do
    let path ← reconstructPath s.prev src t
    pure { node := t, jumps := path.length - 1, path := path }
  pure (settled, s.scratch)

theorem shortestPath_loop_record (fuel : ℕ) (s : Search g.systems.length) :
    shortestPath.loop ctx src dst fuel s =
      (record (expandNode ctx) (stopAt dst) fuel () s).ending.route src dst := by
  induction fuel generalizing s with
  | zero => rfl
  | succ fuel ih =>
    rw [shortestPath.loop, record]
    cases s.pop with
    | none => rfl
    | some e =>
      obtain ⟨⟨d, node⟩, t⟩ := e
      dsimp only [stopAt]
      split
      · exact ih t
      · by_cases hd : node = dst
        · rw [if_pos hd, if_pos hd]
          rfl
        · rw [if_neg hd, if_neg hd]
          split
          · exact ih _
          · exact ih _

theorem shortestPathMulti_loop_record (fuel : ℕ) (want : Finset g.NodeIndex) (remaining : ℕ)
    (s : Search g.systems.length) :
    shortestPathMulti.loop ctx fuel want remaining s =
      (record (expandNode ctx) stopWhenSettled fuel (want, remaining) s).ending.left := by
  induction fuel generalizing want remaining s with
  | zero => rfl
  | succ fuel ih =>
    rw [shortestPathMulti.loop, record]
    cases s.pop with
    | none => rfl
    | some e =>
      obtain ⟨⟨d, node⟩, t⟩ := e
      dsimp only [stopWhenSettled]
      split
      · exact ih want remaining t
      · by_cases hd : node ∈ want ∧ (if node ∈ want then remaining - 1 else remaining) = 0
        · rw [if_pos hd, if_pos hd]
          rfl
        · rw [if_neg hd, if_neg hd]
          split
          · exact ih _ _ _
          · exact ih _ _ _

end Search

section Runs
variable {g : GraphData} {ctx : RouteContext g} {src : g.NodeIndex} {κ : Type*}
  {expand : g.NodeIndex → ℕ → Search g.systems.length → Search g.systems.length}
  {settle : κ → g.NodeIndex → Option κ} {k : κ} {s t u : Search g.systems.length}
  {i : HeapItem g.systems.length} {r : Record g.systems.length} {d : ℕ}

/-- A loop that ends and drops no item as stale. -/
inductive Runs (expand : g.NodeIndex → ℕ → Search g.systems.length → Search g.systems.length)
    (settle : κ → g.NodeIndex → Option κ) :
    κ → Search g.systems.length → Record g.systems.length → Prop where
  | drained {k : κ} {s : Search g.systems.length} (empty : s.heap = []) :
      Runs expand settle k s ⟨[], .drained s⟩
  | skip {k : κ} {s t : Search g.systems.length} {i : HeapItem g.systems.length}
      {r : Record g.systems.length} (pop : Popped s i t) (seen : s.visited.get i.node = true)
      (rest : Runs expand settle k t r) : Runs expand settle k s (r.after ⟨i, t, .skip⟩)
  | finish {k : κ} {s t : Search g.systems.length} {i : HeapItem g.systems.length}
      (pop : Popped s i t) (unseen : s.visited.get i.node = false)
      (stop : settle k i.node = none) :
      Runs expand settle k s ⟨[⟨i, t, .finish⟩], .finished (t.visit i.node)⟩
  | expand {k k' : κ} {s t : Search g.systems.length} {i : HeapItem g.systems.length}
      {r : Record g.systems.length} (pop : Popped s i t) (unseen : s.visited.get i.node = false)
      (go : settle k i.node = some k')
      (rest : Runs expand settle k' (expand i.node i.dist (t.visit i.node)) r) :
      Runs expand settle k s (r.after ⟨i, t, .expand⟩)

/-- An expansion relaxes the edges of its node, whatever it offers over them. -/
def Relaxes (ctx : RouteContext g)
    (expand : g.NodeIndex → ℕ → Search g.systems.length → Search g.systems.length) : Prop :=
  ∀ node d s, ∃ offer, Relaxed offer node (ctx.neighbors node) s (expand node d s)

theorem expandNode_relaxed (cur : g.NodeIndex) : Relaxed (ctx.offers cur d) cur (ctx.neighbors cur)
    s (expandNode ctx cur d s) :=
  relaxed_fold _ _

theorem expandNode_relaxes (ctx : RouteContext g) : Relaxes ctx (expandNode ctx) :=
  fun node _ _ => ⟨_, expandNode_relaxed node⟩

theorem Relaxes.unvisited (he : Relaxes ctx expand) (h : Popped s i t) (x : g.NodeIndex) :
    (expand i.node i.dist (t.visit i.node)).visited.get x = false ↔
      x ≠ i.node ∧ s.visited.get x = false := by
  obtain ⟨offer, hr⟩ := he i.node i.dist (t.visit i.node)
  rw [← Bool.not_eq_true, h.visited_expand hr, not_or, Bool.not_eq_true]

theorem Popped.unvisited_expand (h : Popped s i t) (x : g.NodeIndex) :
    (expandNode ctx i.node i.dist (t.visit i.node)).visited.get x = false ↔
      x ≠ i.node ∧ s.visited.get x = false :=
  (expandNode_relaxes ctx).unvisited h x

/-- With more passes allowed than can be pending, the loop of a search ends. -/
theorem record_runs (he : Relaxes ctx expand) (fuel : ℕ) (k : κ) (h : Queued s)
    (hf : pending ctx s < fuel) : Runs expand settle k s (record expand settle fuel k s) := by
  induction fuel generalizing k s with
  | zero => omega
  | succ fuel ih =>
    rw [record]
    cases hp : s.pop with
    | none => exact .drained (pop_none hp)
    | some e =>
      obtain ⟨i, t⟩ := e
      have hp := pop_some hp
      dsimp only
      rw [hp.visited]
      cases hv : s.visited.get i.node with
      | true =>
        have hlt : pending ctx t < pending ctx s := hp.pending_skip
        exact .skip hp hv (ih k (hp.queued h hv) (by omega))
      | false =>
        cases hk : settle k i.node with
        | none => exact .finish hp hv hk
        | some k' =>
          obtain ⟨offer, hr⟩ := he i.node i.dist (t.visit i.node)
          have hlt : pending ctx (expand i.node i.dist (t.visit i.node)) < pending ctx s :=
            hp.pending_expand hv hr
          rw [if_neg Bool.false_ne_true]
          dsimp only
          -- A node comes off the heap at its label, so the test for a stale item fails.
          rw [if_neg (hp.not_stale h hv)]
          exact .expand hp hv hk (ih k' (hp.queued_expand h hr) (by omega))

/-- A pass in order: it pops an item off the heap of a running search, skips it
only if its node is visited, and never finds it stale. -/
structure Pass.InOrder (ctx : RouteContext g) (src : g.NodeIndex)
    (p : Pass g.systems.length) : Prop where
  popped : ∃ s, Running ctx src s ∧ Popped s p.item p.buffers
  skipped : p.deed = .skip ↔ p.buffers.visited.get p.item.node = true
  not_stale : p.deed ≠ .stale

theorem Pass.InOrder.label {p : Pass g.systems.length} (h : p.InOrder ctx src)
    (hv : p.buffers.visited.get p.item.node = false) :
    p.buffers.dist.get p.item.node = p.item.dist := by
  obtain ⟨s, hs, hp⟩ := h.popped
  rw [hp.visited] at hv
  rw [hp.dist, hp.dist_eq hs.queued hv]

namespace Runs

theorem inOrder (hr : Runs (expandNode ctx) settle k s r) (h : Running ctx src s) :
    ∀ p ∈ r.passes, p.InOrder ctx src := by
  induction hr with
  | drained empty => simp
  | skip pop seen rest ih =>
    rw [Record.passes_after, List.forall_mem_cons]
    exact ⟨⟨⟨_, h, pop⟩, by simp [pop.visited, seen], by simp⟩, ih (h.skip pop seen)⟩
  | finish pop unseen stop =>
    rw [List.forall_mem_singleton]
    exact ⟨⟨_, h, pop⟩, by simp [pop.visited, unseen], by simp⟩
  | expand pop unseen go rest ih =>
    rw [Record.passes_after, List.forall_mem_cons]
    exact ⟨⟨⟨_, h, pop⟩, by simp [pop.visited, unseen], by simp⟩, ih (h.expand pop unseen)⟩

theorem ends (hr : Runs expand settle k s r) : r.ending ≠ .outOfFuel := by
  induction hr with
  | drained empty => simp
  | skip pop seen rest ih => exact ih
  | finish pop unseen stop => simp
  | expand pop unseen go rest ih => exact ih

/-- What is expanded has not been visited before. -/
theorem expanded_unseen (hr : Runs (expandNode ctx) settle k s r) :
    ∀ p ∈ r.passes, p.deed = .expand → s.visited.get p.item.node = false := by
  induction hr with
  | drained empty => simp
  | skip pop seen rest ih =>
    rw [Record.passes_after, List.forall_mem_cons]
    exact ⟨by simp, pop.visited ▸ ih⟩
  | finish pop unseen stop => simp
  | expand pop unseen go rest ih =>
    rw [Record.passes_after, List.forall_mem_cons]
    refine ⟨fun _ => unseen, fun p hp he => ?_⟩
    exact ((pop.unvisited_expand _).mp (ih p hp he)).2

theorem expanded_once (hr : Runs (expandNode ctx) settle k s r) :
    ((r.passes.filter fun p => p.deed = .expand).map fun p => p.item.node).Nodup := by
  induction hr with
  | drained empty => simp
  | skip pop seen rest ih => simpa using ih
  | finish pop unseen stop => simp
  | @expand k k' s t i r pop unseen go rest ih =>
    rw [Record.passes_after, List.filter_cons_of_pos (by simp), List.map_cons, List.nodup_cons]
    refine ⟨fun hm => ?_, ih⟩
    obtain ⟨p, hp, he⟩ := List.mem_map.mp hm
    obtain ⟨hp, hd⟩ := List.mem_filter.mp hp
    have hu := rest.expanded_unseen p hp (by simpa using hd)
    exact ((pop.unvisited_expand _).mp hu).1 he

end Runs

/-- Relaxing at distance `d` puts nothing nearer than `d` on the heap. -/
theorem relax_heap {cur nb : g.NodeIndex} {j : HeapItem g.systems.length}
    (h : j ∈ (relax ctx cur d s nb).heap) : j ∈ s.heap ∨ d ≤ j.dist := by
  change j ∈ (relaxTo (ctx.offers cur d) cur s nb).heap at h
  by_cases hl : Lowers (ctx.offers cur d) s nb
  · rw [relaxTo_of_lowers hl] at h
    rcases List.mem_cons.mp h with rfl | h
    · exact .inr (Nat.le_add_right d _)
    · exact .inl h
  · rw [relaxTo_of_not_lowers hl] at h
    exact .inl h

/-- So what expanding a node leaves on the heap is no nearer than that node. -/
theorem Popped.expand_dist_le {t : Search g.systems.length} {i : HeapItem g.systems.length}
    (h : Popped s i t) :
    ∀ j ∈ (expandNode ctx i.node i.dist (t.visit i.node)).heap, i.dist ≤ j.dist := by
  refine List.foldlRecOn (motive := fun u => ∀ j ∈ Search.heap u, i.dist ≤ j.dist)
    (ctx.neighbors i.node) (relax ctx i.node i.dist) h.dist_le fun u hu nb _ j hj => ?_
  exact (relax_heap hj).elim (hu j) id

namespace Runs

/-- No pass pops anything nearer than what the heap starts with. -/
theorem dist_le (hr : Runs (expandNode ctx) settle k s r) (h : ∀ j ∈ s.heap, d ≤ j.dist) :
    ∀ p ∈ r.passes, d ≤ p.item.dist := by
  induction hr with
  | drained empty => simp
  | skip pop seen rest ih =>
    rw [Record.passes_after, List.forall_mem_cons]
    exact ⟨h _ pop.mem, ih fun j hj => h j (pop.mem_of_mem hj)⟩
  | finish pop unseen stop =>
    rw [List.forall_mem_singleton]
    exact h _ pop.mem
  | expand pop unseen go rest ih =>
    rw [Record.passes_after, List.forall_mem_cons]
    have hd := h _ pop.mem
    exact ⟨hd, ih fun j hj => hd.trans (pop.expand_dist_le j hj)⟩

theorem sorted (hr : Runs (expandNode ctx) settle k s r) :
    r.passes.Pairwise fun p q => p.item.dist ≤ q.item.dist := by
  induction hr with
  | drained empty => simp
  | skip pop seen rest ih => exact ih.cons (rest.dist_le pop.dist_le)
  | finish pop unseen stop => simp
  | expand pop unseen go rest ih => exact ih.cons (rest.dist_le pop.expand_dist_le)

end Runs

end Runs

section Recorded
variable {g : GraphData}

def shortestPath.recorded (ctx : RouteContext g) (src dst : g.NodeIndex)
    (scratch : DijkstraScratch) : Record g.systems.length :=
  record (expandNode ctx) (stopAt dst) ctx.popBound () (startSearch src scratch)

def shortestPathMulti.recorded (ctx : RouteContext g) (src : g.NodeIndex)
    (targets : List g.NodeIndex) (scratch : DijkstraScratch) : Record g.systems.length :=
  let want := targets.toFinset
  record (expandNode ctx) stopWhenSettled ctx.popBound (want, want.card) (startSearch src scratch)

theorem recorded_runs (ctx : RouteContext g) (src dst : g.NodeIndex) (scratch : DijkstraScratch) :
    Runs (expandNode ctx) (stopAt dst) () (startSearch src scratch)
      (shortestPath.recorded ctx src dst scratch) :=
  record_runs (expandNode_relaxes ctx) _ _ (start_queued src scratch) (start_pending src scratch)

theorem multi_recorded_runs (ctx : RouteContext g) (src : g.NodeIndex)
    (targets : List g.NodeIndex) (scratch : DijkstraScratch) :
    Runs (expandNode ctx) stopWhenSettled (targets.toFinset, targets.toFinset.card)
      (startSearch src scratch) (shortestPathMulti.recorded ctx src targets scratch) :=
  record_runs (expandNode_relaxes ctx) _ _ (start_queued src scratch) (start_pending src scratch)

theorem shortestPath_recorded (ctx : RouteContext g) (src dst : g.NodeIndex)
    (scratch : DijkstraScratch) : shortestPath ctx src dst scratch =
      (shortestPath.recorded ctx src dst scratch).ending.route src dst :=
  shortestPath_loop_record _ _

theorem shortestPathMulti_recorded (ctx : RouteContext g) (src : g.NodeIndex)
    (targets : List g.NodeIndex) (scratch : DijkstraScratch) :
    shortestPathMulti ctx src targets scratch =
      (shortestPathMulti.recorded ctx src targets scratch).ending.settled src targets := by
  unfold shortestPathMulti
  dsimp only
  rw [shortestPathMulti_loop_record]
  rfl

/-- The items of a run come off the heap in the order of their distances, and
those of unvisited nodes carry the labels of these nodes. So no item is dropped
as stale, no node is expanded twice, and the run ends. -/
structure NeverStale {n : ℕ} (r : Record n) : Prop where
  sorted : r.passes.Pairwise fun p q => p.item.dist ≤ q.item.dist
  skipped : ∀ p ∈ r.passes, p.deed = .skip ↔ p.buffers.visited.get p.item.node = true
  label : ∀ p ∈ r.passes, p.buffers.visited.get p.item.node = false →
    p.buffers.dist.get p.item.node = p.item.dist
  expanded_once : ((r.passes.filter fun p => p.deed = .expand).map fun p => p.item.node).Nodup
  not_stale : ∀ p ∈ r.passes, p.deed ≠ .stale
  ends : r.ending ≠ .outOfFuel

theorem Runs.neverStale {κ : Type*} {ctx : RouteContext g} {src : g.NodeIndex}
    {settle : κ → g.NodeIndex → Option κ} {k : κ} {s : Search g.systems.length}
    {r : Record g.systems.length} (hr : Runs (expandNode ctx) settle k s r)
    (h : Running ctx src s) : NeverStale r where
  sorted := hr.sorted
  skipped := fun p hp => (hr.inOrder h p hp).skipped
  label := fun p hp => (hr.inOrder h p hp).label
  expanded_once := hr.expanded_once
  not_stale := fun p hp => (hr.inOrder h p hp).not_stale
  ends := hr.ends

/-- Neither search ever pops a stale item for a node that is not yet visited. -/
theorem popped_never_stale (ctx : RouteContext g) (src dst : g.NodeIndex)
    (targets : List g.NodeIndex) (scratch : DijkstraScratch) :
    (NeverStale (shortestPath.recorded ctx src dst scratch) ∧
      shortestPath ctx src dst scratch =
        (shortestPath.recorded ctx src dst scratch).ending.route src dst) ∧
    (NeverStale (shortestPathMulti.recorded ctx src targets scratch) ∧
      shortestPathMulti ctx src targets scratch =
        (shortestPathMulti.recorded ctx src targets scratch).ending.settled src targets) := by
  have hs := start_running ctx src scratch
  constructor
  · have hr := recorded_runs ctx src dst scratch
    exact ⟨hr.neverStale hs, shortestPath_recorded ctx src dst scratch⟩
  · have hr := multi_recorded_runs ctx src targets scratch
    exact ⟨hr.neverStale hs, shortestPathMulti_recorded ctx src targets scratch⟩

end Recorded

end Palu
