import Palu.Paths.Spreading
import Palu.Model.Routing

namespace Palu

open Paths Collections

/-- The network a context searches: gates and overlay edges into nodes that
are not avoided, weighted by the preference. -/
def RouteContext.network {g : GraphData} (ctx : RouteContext g) : Network g.NodeIndex where
  edge u v := v ∈ ctx.neighbors u
  weight := ctx.edgeWeight
  weight_pos := by
    intro u v _
    simp only [RouteContext.edgeWeight]
    omega

/-- The labels a search holds in its buffers. -/
def Search.labels {n : ℕ} (s : Search n) : Labels (Fin n) where
  settled := {v | s.visited.get v = true}
  label v := s.dist.get v
  pred v := s.prev.get v

section Heap
variable {n : ℕ} {s t : Search n} {i j : HeapItem n}

theorem cmp_isLE : (i.cmp j).isLE ↔ toLex (j.dist, j.node) ≤ toLex (i.dist, i.node) :=
  Collections.then_isLE

instance : Std.TransCmp (HeapItem.cmp (n := n)) where
  eq_swap := by
    intro i j
    rw [HeapItem.cmp, HeapItem.cmp, Ordering.swap_then,
      Std.OrientedOrd.eq_swap (a := j.dist), Std.OrientedOrd.eq_swap (a := j.node)]
  isLE_trans := by
    intro i j k hij hjk
    rw [cmp_isLE] at *
    exact hjk.trans hij

/-- Every label of an unvisited node is on the heap, and no heap item is
better than the label of its node. -/
structure Queued (s : Search n) : Prop where
  covers : ∀ v, s.visited.get v = false → ∀ d : ℕ, s.dist.get v = (d : ℕ∞) → ⟨d, v⟩ ∈ s.heap
  stale : ∀ i ∈ s.heap, s.dist.get i.node ≤ i.dist

/-- `i` came off the heap of `s` and left `t`. -/
structure Popped (s : Search n) (i : HeapItem n) (t : Search n) : Prop where
  dist : t.dist = s.dist
  prev : t.prev = s.prev
  visited : t.visited = s.visited
  perm : s.heap.Perm (i :: t.heap)
  least : ∀ j ∈ s.heap, toLex (i.dist, i.node) ≤ toLex (j.dist, j.node)

theorem pop_none (h : s.pop = none) : s.heap = [] := by
  simpa [Search.pop] using h

theorem pop_some (h : s.pop = some (i, t)) : Popped s i t := by
  simp only [Search.pop, Option.map_eq_some_iff, Prod.mk.injEq] at h
  obtain ⟨⟨m, rest⟩, hp, rfl, rfl⟩ := h
  exact ⟨rfl, rfl, rfl, Collections.pop_perm hp,
    fun j hj => cmp_isLE.mp (Collections.pop_greatest hp j hj)⟩

namespace Popped

theorem labels (h : Popped s i t) : t.labels = s.labels := by
  simp [Search.labels, h.dist, h.prev, h.visited]

theorem mem (h : Popped s i t) : i ∈ s.heap := h.perm.mem_iff.mpr (by simp)

theorem mem_of_mem (h : Popped s i t) (hj : j ∈ t.heap) : j ∈ s.heap :=
  h.perm.mem_iff.mpr (List.mem_cons_of_mem _ hj)

theorem length (h : Popped s i t) : s.heap.length = t.heap.length + 1 := h.perm.length_eq

/-- What stays on the heap is no nearer than the item popped. -/
theorem dist_le (h : Popped s i t) : ∀ j ∈ t.heap, i.dist ≤ j.dist := by
  intro j hj
  rcases Prod.Lex.toLex_le_toLex.mp (h.least j (h.mem_of_mem hj)) with hlt | heq
  · exact hlt.le
  · exact heq.1.le

theorem stale (h : Popped s i t) (hq : Queued s) : ∀ j ∈ t.heap, t.dist.get j.node ≤ j.dist := by
  intro j hj
  simpa only [h.dist] using hq.stale j (h.mem_of_mem hj)

/-- Dropping an item only loses what it says about its own node. -/
theorem covers (h : Popped s i t) (hq : Queued s) : ∀ v, v ≠ i.node → s.visited.get v = false →
    ∀ d : ℕ, t.dist.get v = (d : ℕ∞) → ⟨d, v⟩ ∈ t.heap := by
  intro v hne hv d hd
  have hm := hq.covers v hv d (by simpa only [h.dist] using hd)
  rcases List.mem_cons.mp (h.perm.mem_iff.mp hm) with he | hm
  · exact absurd (congrArg HeapItem.node he) hne
  · exact hm

theorem queued (h : Popped s i t) (hq : Queued s) (hv : s.visited.get i.node = true) :
    Queued t := by
  refine ⟨fun v hu d hd => ?_, h.stale hq⟩
  rw [h.visited] at hu
  refine h.covers hq v ?_ hu d hd
  intro he
  subst he
  rw [hv] at hu
  cases hu

/-- An item popped for an unvisited node carries that node's label. -/
theorem dist_eq (h : Popped s i t) (hq : Queued s) (hv : s.visited.get i.node = false) :
    s.dist.get i.node = i.dist := by
  have hle := hq.stale i h.mem
  obtain ⟨d, hd⟩ := ENat.ne_top_iff_exists.mp (ne_top_of_le_ne_top (ENat.natCast_ne_top _) hle)
  have hm := h.least _ (hq.covers i.node hv d hd.symm)
  rw [Prod.Lex.toLex_le_toLex] at hm
  rw [← hd] at hle ⊢
  have hle : d ≤ i.dist := by exact_mod_cast hle
  have : d = i.dist := by
    rcases hm with hlt | ⟨heq, _⟩
    · exact absurd hlt hle.not_gt
    · exact heq.symm
  exact_mod_cast this

/-- The check for a stale item, made after the visited test, never fires. -/
theorem not_stale (h : Popped s i t) (hq : Queued s) (hv : s.visited.get i.node = false) :
    ¬ (t.visit i.node).dist.get i.node < i.dist := by
  have hd := h.dist_eq hq hv
  change ¬ t.dist.get i.node < i.dist
  rw [h.dist, hd]
  exact lt_irrefl _

theorem next (h : Popped s i t) (hq : Queued s) (hv : s.visited.get i.node = false) :
    Next s.labels i.node := by
  have hd := h.dist_eq hq hv
  refine ⟨by simpa [Search.labels] using hv, ?_, ?_⟩
  · change s.dist.get i.node ≠ ⊤
    rw [hd]
    exact ENat.natCast_ne_top _
  · intro x hx
    change toLex (s.dist.get i.node, i.node) ≤ toLex (s.dist.get x, x)
    rw [hd, Prod.Lex.toLex_le_toLex]
    have hx : s.visited.get x = false := by simpa [Search.labels] using hx
    cases hl : s.dist.get x using ENat.recTopCoe with
    | top => exact .inl (ENat.natCast_lt_top _)
    | coe d =>
      have hm := h.least _ (hq.covers x hx d hl)
      rw [Prod.Lex.toLex_le_toLex] at hm
      simpa using hm

end Popped

end Heap

section Relax
variable {g : GraphData} {ctx : RouteContext g} {src dst cur : g.NodeIndex}
  {offer : g.NodeIndex → ℕ} {ns : List g.NodeIndex} {s t : Search g.systems.length}
  {i : HeapItem g.systems.length}

/-- Relaxing an edge that offers its far end a distance, however it was added up. -/
def relaxTo (offer : g.NodeIndex → ℕ) (cur : g.NodeIndex) (s : Search g.systems.length)
    (nb : g.NodeIndex) : Search g.systems.length :=
  if s.visited.get nb then s
  else if (offer nb : ℕ∞) < s.dist.get nb then
    { s with
      dist := put s.dist nb (offer nb)
      prev := put s.prev nb (some cur) }.push ⟨offer nb, nb⟩
  else s

/-- What a node popped at `dist` offers to each of its neighbours. -/
def RouteContext.offers (ctx : RouteContext g) (cur : g.NodeIndex) (dist : ℕ)
    (x : g.NodeIndex) : ℕ :=
  dist + ctx.edgeWeight cur x

/-- The offer lowers the distance of `x`. -/
def Lowers (offer : g.NodeIndex → ℕ) (s : Search g.systems.length) (x : g.NodeIndex) : Prop :=
  s.visited.get x = false ∧ (offer x : ℕ∞) < s.dist.get x

/-- What relaxing the edges from `cur` to `ns` does to the buffers and the heap. -/
structure Relaxed (offer : g.NodeIndex → ℕ) (cur : g.NodeIndex) (ns : List g.NodeIndex)
    (s t : Search g.systems.length) : Prop where
  visited : t.visited = s.visited
  lowered : ∀ x ∈ ns, Lowers offer s x →
    t.dist.get x = (offer x : ℕ∞) ∧ t.prev.get x = some cur ∧ ⟨offer x, x⟩ ∈ t.heap
  kept : ∀ x, ¬ (x ∈ ns ∧ Lowers offer s x) →
    t.dist.get x = s.dist.get x ∧ t.prev.get x = s.prev.get x
  old : ∀ i ∈ s.heap, i ∈ t.heap
  new : ∀ i ∈ t.heap, i ∈ s.heap ∨ t.dist.get i.node = i.dist
  length : t.heap.length ≤ s.heap.length + ns.length

theorem relaxTo_of_not_lowers {nb : g.NodeIndex} (h : ¬ Lowers offer s nb) :
    relaxTo offer cur s nb = s := by
  unfold relaxTo
  split
  · rfl
  · rename_i hv
    exact if_neg fun hlt => h ⟨by simpa using hv, hlt⟩

theorem relaxTo_of_lowers {nb : g.NodeIndex} (h : Lowers offer s nb) :
    relaxTo offer cur s nb =
      { dist := put s.dist nb (offer nb : ℕ∞)
        prev := put s.prev nb (some cur)
        visited := s.visited
        heap := ⟨offer nb, nb⟩ :: s.heap } := by
  unfold relaxTo
  rw [if_neg (by simp [h.1]), if_pos h.2]
  rfl

/-- An edge that lowers nothing may be put in front. -/
theorem Relaxed.cons_skip {nb : g.NodeIndex} (hl : ¬ Lowers offer s nb)
    (h : Relaxed offer cur ns s t) : Relaxed offer cur (nb :: ns) s t := by
  refine ⟨h.visited, ?_, ?_, h.old, h.new, h.length.trans (by simp)⟩
  · intro x hx hlx
    rcases List.mem_cons.mp hx with rfl | hx
    · exact absurd hlx hl
    · exact h.lowered x hx hlx
  · intro x hx
    exact h.kept x fun h => hx ⟨List.mem_cons_of_mem _ h.1, h.2⟩

/-- So may one that lowers its far end, if the rest start from there. -/
theorem Relaxed.cons_lowers {nb : g.NodeIndex} (hl : Lowers offer s nb)
    (h : Relaxed offer cur ns (relaxTo offer cur s nb) t) :
    Relaxed offer cur (nb :: ns) s t := by
  -- Relaxing the same edge again changes nothing: the distance is already its offer.
  have hnb : ¬ Lowers offer (relaxTo offer cur s nb) nb := by
    rw [relaxTo_of_lowers hl]
    simp [Lowers]
  have hother : ∀ x, x ≠ nb → (Lowers offer (relaxTo offer cur s nb) x ↔ Lowers offer s x) := by
    intro x hx
    rw [relaxTo_of_lowers hl]
    simp only [Lowers, get_put_other _ _ hx]
  rw [relaxTo_of_lowers hl] at h hnb hother
  obtain ⟨hvis, hlow, hkept, hold, hnew, hlen⟩ := h
  have htnb := hkept nb fun h => hnb h.2
  simp only [get_put_same] at htnb
  refine ⟨hvis, ?_, ?_, fun i hi => hold i (List.mem_cons_of_mem _ hi), ?_, ?_⟩
  · intro x hx hlx
    by_cases he : x = nb
    · subst he
      exact ⟨htnb.1, htnb.2, hold _ (by simp)⟩
    · apply hlow x _ ((hother x he).mpr hlx)
      exact (List.mem_cons.mp hx).resolve_left he
  · intro x hx
    have he : x ≠ nb := by
      intro he
      subst he
      exact hx ⟨by simp, hl⟩
    have := hkept x fun h => hx ⟨List.mem_cons_of_mem _ h.1, (hother x he).mp h.2⟩
    simpa only [get_put_other _ _ he] using this
  · intro i hi
    rcases hnew i hi with hi | hi
    · rcases List.mem_cons.mp hi with rfl | hi
      · exact .inr htnb.1
      · exact .inl hi
    · exact .inr hi
  · simp only [List.length_cons] at hlen ⊢
    omega

/-- The code's `relax` is one such, and so are those that round what they offer. -/
theorem relaxed_fold (ns : List g.NodeIndex) (s : Search g.systems.length) :
    Relaxed offer cur ns s (ns.foldl (relaxTo offer cur) s) := by
  induction ns generalizing s with
  | nil => exact ⟨rfl, by simp, fun _ _ => ⟨rfl, rfl⟩, fun _ h => h, fun _ h => .inl h, le_rfl⟩
  | cons nb ns ih =>
    rw [List.foldl_cons]
    by_cases hl : Lowers offer s nb
    · exact (ih _).cons_lowers hl
    · rw [relaxTo_of_not_lowers hl]
      exact (ih s).cons_skip hl

/-- Heap items, plus the edges out of nodes that are still to be expanded. -/
def pending (ctx : RouteContext g) (s : Search g.systems.length) : ℕ :=
  s.heap.length + ∑ v with s.visited.get v = false, (ctx.neighbors v).length

theorem Popped.pending_skip (h : Popped s i t) : pending ctx t < pending ctx s := by
  unfold pending
  rw [h.visited, h.length]
  omega

/-- Expanding a node visits it and no other. -/
theorem Popped.visited_expand (h : Popped s i t) {u : Search g.systems.length}
    (hr : Relaxed offer i.node (ctx.neighbors i.node) (t.visit i.node) u)
    (x : g.NodeIndex) : u.visited.get x = true ↔ x = i.node ∨ s.visited.get x = true := by
  rw [hr.visited, Search.visit, h.visited]
  by_cases hx : x = i.node
  · subst hx
    simp
  · simp only [get_put_other _ _ hx, hx, false_or]

/-- Expanding a node trades its edges for at most as many heap items. -/
theorem Popped.pending_expand (h : Popped s i t) (hv : s.visited.get i.node = false)
    {u : Search g.systems.length}
    (hr : Relaxed offer i.node (ctx.neighbors i.node) (t.visit i.node) u) :
    pending ctx u < pending ctx s := by
  have hset : (Finset.univ.filter fun x => u.visited.get x = false) =
      (Finset.univ.filter fun x => s.visited.get x = false).erase i.node := by
    ext x
    simp only [Finset.mem_filter, Finset.mem_univ, true_and, Finset.mem_erase,
      ← Bool.not_eq_true, h.visited_expand hr x, not_or]
  have hmem : i.node ∈ Finset.univ.filter fun x => s.visited.get x = false := by simpa using hv
  have hsum := Finset.add_sum_erase _ (fun v : Fin g.systems.length => (ctx.neighbors v).length)
    hmem
  have hlen : u.heap.length ≤ t.heap.length + (ctx.neighbors i.node).length := hr.length
  unfold pending
  rw [hset, h.length, ← hsum]
  omega

/-- Expanding a node settles it, with what it offers to its neighbours. -/
theorem Popped.spreads (h : Popped s i t) {u : Search g.systems.length}
    (hr : Relaxed offer i.node (ctx.neighbors i.node) (t.visit i.node) u) :
    Spreads ctx.network offer i.node s.labels u.labels := by
  have hvis := h.visited_expand hr
  have htakes : ∀ x, Takes ctx.network offer s.labels i.node x ↔
      x ∈ ctx.neighbors i.node ∧ Lowers offer (t.visit i.node) x := by
    intro x
    have hux : (t.visit i.node).visited.get x = false ↔ x ≠ i.node ∧ x ∉ s.labels.settled := by
      have := hvis x
      rw [hr.visited] at this
      rw [← Bool.not_eq_true, this, not_or]
      rfl
    have hlt : (offer x : ℕ∞) < (t.visit i.node).dist.get x ↔ (offer x : ℕ∞) < s.labels.label x := by
      change _ < t.dist.get x ↔ _ < s.dist.get x
      rw [h.dist]
    unfold Takes Lowers
    rw [hux, hlt]
    exact ⟨fun h => ⟨h.2.2.1, ⟨h.1, h.2.1⟩, h.2.2.2⟩, fun h => ⟨h.2.1.1, h.2.1.2, h.1, h.2.2⟩⟩
  refine ⟨Set.ext fun x => hvis x, ?_, ?_⟩
  · intro x hx
    obtain ⟨hm, hl⟩ := (htakes x).mp hx
    exact ⟨(hr.lowered x hm hl).1, (hr.lowered x hm hl).2.1⟩
  · intro x hx
    have hk := hr.kept x fun hm => hx ((htakes x).mpr hm)
    change u.dist.get x = s.dist.get x ∧ u.prev.get x = s.prev.get x
    simpa only [Search.visit, h.dist, h.prev] using hk

theorem Popped.settles (h : Popped s i t) (hq : Queued s) (hv : s.visited.get i.node = false)
    {u : Search g.systems.length}
    (hr : Relaxed (ctx.offers i.node i.dist) i.node (ctx.neighbors i.node) (t.visit i.node) u) :
    Settles ctx.network i.node s.labels u.labels := by
  have hd : s.labels.label i.node = i.dist := h.dist_eq hq hv
  obtain ⟨hsettled, htaken, hkept⟩ := h.spreads hr
  have hoffer : ∀ x, (ctx.offers i.node i.dist x : ℕ∞) =
      s.labels.label i.node + ctx.network.weight i.node x := by
    intro x
    rw [hd, RouteContext.offers, Nat.cast_add]
    rfl
  simp only [Takes, hoffer] at htaken hkept
  exact ⟨hsettled, htaken, hkept⟩

theorem Popped.queued_expand (h : Popped s i t) (hq : Queued s) {u : Search g.systems.length}
    (hr : Relaxed offer i.node (ctx.neighbors i.node) (t.visit i.node) u) : Queued u := by
  constructor
  · intro x hx d hdx
    rw [hr.visited] at hx
    have hne : x ≠ i.node := by
      intro he
      subst he
      simp [Search.visit] at hx
    by_cases hl : x ∈ ctx.neighbors i.node ∧ Lowers offer (t.visit i.node) x
    · obtain ⟨hdist, _, hm⟩ := hr.lowered x hl.1 hl.2
      rw [hdx] at hdist
      have hdist : d = offer x := by exact_mod_cast hdist
      rwa [hdist]
    · rw [(hr.kept x hl).1] at hdx
      simp only [Search.visit, get_put_other _ _ hne, h.visited] at hx hdx
      exact hr.old _ (h.covers hq x hne hx d hdx)
  · intro j hj
    rcases hr.new j hj with hj | hj
    · have hst : t.dist.get j.node ≤ j.dist := h.stale hq j hj
      by_cases hl : j.node ∈ ctx.neighbors i.node ∧ Lowers offer (t.visit i.node) j.node
      · rw [(hr.lowered _ hl.1 hl.2).1]
        exact (hl.2.2.le).trans hst
      · rw [(hr.kept _ hl).1]
        exact hst
    · rw [hj]

theorem start_initial (src : g.NodeIndex) (scratch : DijkstraScratch) :
    Initial src (startSearch src scratch).labels := by
  refine ⟨?_, ?_, ?_⟩
  · ext x
    simp [Search.labels, startSearch, Search.push, DijkstraScratch.reset, clearResize]
  · simp [Search.labels, startSearch, Search.push]
  · intro x hx
    change (put (clearResize scratch.dist g.systems.length ⊤) src 0).get x = ⊤
    rw [get_put_other _ _ hx]
    simp [clearResize]

theorem start_unvisited (src v : g.NodeIndex) (scratch : DijkstraScratch) :
    (startSearch src scratch).visited.get v = false := by
  simp [startSearch, Search.push, DijkstraScratch.reset, clearResize]

theorem start_queued (src : g.NodeIndex) (scratch : DijkstraScratch) :
    Queued (startSearch src scratch) := by
  have hi := start_initial src scratch
  constructor
  · intro x _ d hd
    by_cases hx : x = src
    · subst hx
      have := hi.start
      rw [Search.labels] at this
      simp only [hd] at this
      have : d = 0 := by exact_mod_cast this
      simp [this, startSearch, Search.push]
    · have := hi.other x hx
      rw [Search.labels] at this
      simp only [hd] at this
      exact absurd this (ENat.natCast_ne_top _)
  · intro j hj
    simp only [startSearch, Search.push, DijkstraScratch.reset, List.mem_singleton] at hj
    subst hj
    exact hi.start.le

theorem start_pending (src : g.NodeIndex) (scratch : DijkstraScratch) :
    pending ctx (startSearch src scratch) < ctx.popBound := by
  have hsum : ∑ v with (startSearch src scratch).visited.get v = false, (ctx.neighbors v).length ≤
      ∑ v, (ctx.neighbors v).length :=
    Finset.sum_le_sum_of_subset (Finset.filter_subset _ _)
  rw [Fin.sum_univ_def] at hsum
  have hheap : (startSearch src scratch).heap.length = 1 := rfl
  unfold pending RouteContext.popBound
  omega

/-- Following a predecessor chain returns the path it spells out. -/
theorem reconstruct_go {prev : Vector (Option g.NodeIndex) g.systems.length} {p : Path g}
    (h : PredChain (fun v => prev.get v) src cur p) (fuel : ℕ) (hf : p.length ≤ fuel)
    (rest : Path g) : reconstructPath.go prev src fuel cur (cur :: rest) = .ok (p ++ rest) := by
  induction h generalizing fuel rest with
  | start =>
    cases fuel with
    | zero => simp at hf
    | succ fuel => simp [reconstructPath.go]
  | @snoc u v p chain ne back ih =>
    cases fuel with
    | zero => simp at hf
    | succ fuel =>
      have hlen : p.length ≤ fuel := by simpa using hf
      rw [reconstructPath.go, if_neg ne, back]
      simpa using ih fuel hlen (v :: rest)

theorem reconstruct_chain {prev : Vector (Option g.NodeIndex) g.systems.length} {p : Path g}
    (h : PredChain (fun v => prev.get v) src dst p) (hn : p.Nodup) :
    reconstructPath prev src dst = .ok p := by
  have hlen : p.length ≤ g.systems.length := by
    simpa using hn.length_le_card
  simpa [reconstructPath] using reconstruct_go h _ hlen []

/-- What a running search keeps: its buffers are labels of a settling run, and
its heap serves them. -/
structure Running (ctx : RouteContext g) (src : g.NodeIndex)
    (s : Search g.systems.length) : Prop where
  run : Paths.Run ctx.network src s.labels
  queued : Queued s

theorem start_running (ctx : RouteContext g) (src : g.NodeIndex) (scratch : DijkstraScratch) :
    Running ctx src (startSearch src scratch) :=
  ⟨.initial (start_initial src scratch), start_queued src scratch⟩

namespace Running

theorem skip (h : Running ctx src s) (hp : Popped s i t) (hv : s.visited.get i.node = true) :
    Running ctx src t :=
  ⟨hp.labels ▸ h.run, hp.queued h.queued hv⟩

theorem expand (h : Running ctx src s) (hp : Popped s i t) (hv : s.visited.get i.node = false) :
    Running ctx src
      ((ctx.neighbors i.node).foldl (relax ctx i.node i.dist) (t.visit i.node)) :=
  have hr : Relaxed (ctx.offers i.node i.dist) i.node (ctx.neighbors i.node) (t.visit i.node)
      ((ctx.neighbors i.node).foldl (relax ctx i.node i.dist) (t.visit i.node)) :=
    relaxed_fold _ _
  ⟨h.run.settle (hp.next h.queued hv) (hp.settles h.queued hv hr), hp.queued_expand h.queued hr⟩

/-- With an empty heap, every reachable node has been visited. -/
theorem drained (h : Running ctx src s) (hs : s.heap = []) {v : g.NodeIndex}
    (hd : dist ctx.network src v ≠ ⊤) : s.visited.get v = true := by
  refine h.run.settling.exhausted (fun x hx => ?_) hd
  by_contra hl
  obtain ⟨d, hd⟩ := ENat.ne_top_iff_exists.mp hl
  have hm := h.queued.covers x (by simpa [Search.labels] using hx) d hd.symm
  rw [hs] at hm
  cases hm

theorem visited_reached (h : Running ctx src s) {v : g.NodeIndex} (hv : s.visited.get v = true) :
    dist ctx.network src v ≠ ⊤ :=
  (h.run.settling.exact v hv).2

theorem popped_reached (h : Running ctx src s) (hp : Popped s i t)
    (hv : s.visited.get i.node = false) : dist ctx.network src i.node ≠ ⊤ :=
  (h.run.settling.next_exact (hp.next h.queued hv)).2

end Running

end Relax

end Palu
