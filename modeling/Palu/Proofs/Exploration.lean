import Palu.Proofs.Rounding

namespace Palu

open Paths Collections

section Expanded
variable {n : ℕ} {i : HeapItem n} {t : Search n} {r : Record n}

/-- The nodes whose neighbours a run relaxes, in order. -/
def Record.expanded (r : Record n) : List (Fin n) :=
  (r.passes.filter fun p => p.deed = .expand).map fun p => p.item.node

/-- The node that a run stops at. -/
def Record.stop? (r : Record n) : Option (Fin n) :=
  (r.passes.find? fun p => p.deed = .finish).map fun p => p.item.node

@[simp] theorem Record.expanded_skip : (r.after ⟨i, t, .skip⟩).expanded = r.expanded := by
  simp [expanded]

@[simp] theorem Record.expanded_expand :
    (r.after ⟨i, t, .expand⟩).expanded = i.node :: r.expanded := by
  simp [expanded]

@[simp] theorem Record.stop_skip : (r.after ⟨i, t, .skip⟩).stop? = r.stop? := by
  simp [stop?]

@[simp] theorem Record.stop_expand : (r.after ⟨i, t, .expand⟩).stop? = r.stop? := by
  simp [stop?]

end Expanded

section Wanted
variable {g : GraphData} {want : Finset g.NodeIndex} {v : g.NodeIndex}

theorem stopWhenSettled_mem (h : stopWhenSettled (want, want.card) v = none) : v ∈ want := by
  by_contra hv
  simp [stopWhenSettled, hv] at h

/-- A search that goes on wants more nodes, if it wanted any. -/
theorem stopWhenSettled_nonempty {k : Finset g.NodeIndex × ℕ} (hne : want.Nonempty)
    (h : stopWhenSettled (want, want.card) v = some k) : k.1.Nonempty := by
  obtain rfl := stopWhenSettled_some h
  rw [Finset.nonempty_iff_ne_empty]
  intro he
  by_cases hv : v ∈ want
  · have hlast : (want.erase v).card = 0 := Finset.card_eq_zero.mpr he
    simp only [stopWhenSettled, ← Finset.card_erase_eq_ite] at h
    rw [if_pos ⟨hv, hlast⟩] at h
    cases h
  · rw [Finset.erase_eq_of_notMem hv] at he
    exact hne.ne_empty he

end Wanted

section Runs
variable {g : GraphData} {ctx : RouteContext g} {src dst v x : g.NodeIndex} {κ : Type*}
  {settle : κ → g.NodeIndex → Option κ} {k : κ} {s : Search g.systems.length}
  {r : Record g.systems.length}

/-- A popped node comes before every other node that is not visited. -/
theorem Running.rank_lt {i : HeapItem g.systems.length} {t : Search g.systems.length}
    (h : Running ctx src s) (pop : Popped s i t) (unseen : s.visited.get i.node = false)
    (hv : s.visited.get v = false) (hne : v ≠ i.node) :
    rank ctx.network src i.node < rank ctx.network src v := by
  have hle := h.run.settling.next_rank_le (pop.next h.queued unseen) (u := v)
    (by simpa [Search.labels] using hv)
  exact lt_of_le_of_ne hle fun he => hne (rank_injective _ _ he).symm

namespace Runs

theorem stop_unseen (hr : Runs (expandNode ctx) settle k s r) (hx : r.stop? = some x) :
    s.visited.get x = false := by
  induction hr with
  | drained empty => cases hx
  | skip pop seen rest ih => exact pop.visited ▸ ih (by simpa using hx)
  | finish pop unseen stop =>
    cases hx
    exact unseen
  | expand pop unseen go rest ih => exact ((pop.unvisited_expand x).mp (ih (by simpa using hx))).2

/-- A run expands what is left of the reachable nodes, up to the one it stops at. -/
theorem mem_expanded (hr : Runs (expandNode ctx) settle k s r) (h : Running ctx src s) :
    v ∈ r.expanded ↔ s.visited.get v = false ∧ dist ctx.network src v ≠ ⊤ ∧
      ∀ x, r.stop? = some x → rank ctx.network src v < rank ctx.network src x := by
  induction hr with
  | drained empty =>
    refine iff_of_false (by simp [Record.expanded]) fun hv => ?_
    rw [h.drained empty hv.2.1] at hv
    cases hv.1
  | skip pop seen rest ih =>
    rw [Record.expanded_skip, Record.stop_skip, ih (h.skip pop seen), pop.visited]
  | @finish k s t i pop unseen stop =>
    refine iff_of_false (by simp [Record.expanded]) fun hv => ?_
    have hlt := hv.2.2 i.node rfl
    have hne : v ≠ i.node := by
      rintro rfl
      exact lt_irrefl _ hlt
    exact (h.rank_lt pop unseen hv.1 hne).not_gt hlt
  | @expand k k' s t i r pop unseen go rest ih =>
    rw [Record.expanded_expand, Record.stop_expand, List.mem_cons, ih (h.expand pop unseen),
      pop.unvisited_expand]
    constructor
    · intro hv
      rcases hv with rfl | ⟨⟨_, hv⟩, hrest⟩
      · refine ⟨unseen, h.popped_reached pop unseen, fun x hx => ?_⟩
        obtain ⟨hne, hv⟩ := (pop.unvisited_expand x).mp (rest.stop_unseen hx)
        exact h.rank_lt pop unseen hv hne
      · exact ⟨hv, hrest⟩
    · intro hv
      by_cases hne : v = i.node
      · exact .inl hne
      · exact .inr ⟨⟨hne, hv.1⟩, hv.2⟩

theorem expanded_sorted (hr : Runs (expandNode ctx) settle k s r) (h : Running ctx src s) :
    r.expanded.Pairwise fun u v => rank ctx.network src u < rank ctx.network src v := by
  induction hr with
  | drained empty => exact .nil
  | skip pop seen rest ih => simpa using ih (h.skip pop seen)
  | finish pop unseen stop => exact .nil
  | expand pop unseen go rest ih =>
    have h' := h.expand pop unseen
    rw [Record.expanded_expand, List.pairwise_cons]
    refine ⟨fun v hv => ?_, ih h'⟩
    obtain ⟨hne, hv⟩ := (pop.unvisited_expand v).mp ((rest.mem_expanded h').mp hv).1
    exact h.rank_lt pop unseen hv hne

/-- A search for one node that does not stop cannot reach it. -/
theorem unreached_of_stop {k : Unit} (hr : Runs (expandNode ctx) (stopAt dst) k s r)
    (h : Running ctx src s) (hd : s.visited.get dst = false) (hx : r.stop? = none) : dist ctx.network src dst = ⊤ := by
  induction hr with
  | drained empty =>
    by_contra hne
    rw [h.drained empty hne] at hd
    cases hd
  | skip pop seen rest ih => exact ih (h.skip pop seen) (pop.visited ▸ hd) (by simpa using hx)
  | finish pop unseen stop => cases hx
  | @expand k k' s t i r pop unseen go rest ih =>
    have hne : dst ≠ i.node := by
      intro he
      simp [stopAt, he] at go
    exact ih (h.expand pop unseen) ((pop.unvisited_expand dst).mpr ⟨hne, hd⟩) (by simpa using hx)

theorem stop_eq {k : Unit} (hr : Runs (expandNode ctx) (stopAt dst) k s r) (hx : r.stop? = some x) :
    x = dst := by
  induction hr with
  | drained empty => cases hx
  | skip pop seen rest ih => exact ih (by simpa using hx)
  | finish pop unseen stop =>
    cases hx
    simpa [stopAt] using stop
  | expand pop unseen go rest ih => exact ih (by simpa using hx)

/-- A search for many stops at the last of them. -/
theorem stop_last {targets : List g.NodeIndex} {k : Finset g.NodeIndex × ℕ}
    (hr : Runs (expandNode ctx) stopWhenSettled k s r) (h : Running ctx src s)
    (hk : k = (k.1, k.1.card))
    (hw : ∀ t ∈ targets, s.visited.get t = false → t ∈ k.1) (hx : r.stop? = some x) :
    x ∈ k.1 ∧ ∀ t ∈ targets, s.visited.get t = false →
      rank ctx.network src t ≤ rank ctx.network src x := by
  induction hr with
  | drained empty => cases hx
  | skip pop seen rest ih =>
    rw [← pop.visited] at hw ⊢
    exact ih (h.skip pop seen) hk hw (by simpa using hx)
  | @finish k s t i pop unseen stop =>
    cases hx
    rw [hk] at stop
    have hlast := stopWhenSettled_none stop
    refine ⟨stopWhenSettled_mem stop, fun t ht hv => ?_⟩
    by_cases hne : t = i.node
    · rw [hne]
    · have hm := Finset.mem_erase.mpr ⟨hne, hw t ht hv⟩
      rw [hlast] at hm
      exact absurd hm (Finset.notMem_empty t)
  | @expand k k' s t i r pop unseen go rest ih =>
    rw [hk] at go
    obtain rfl := stopWhenSettled_some go
    have hx : r.stop? = some x := by simpa using hx
    obtain ⟨hm, hlast⟩ := ih (h.expand pop unseen) rfl (fun t ht hv => by
      obtain ⟨hne, hv⟩ := (pop.unvisited_expand t).mp hv
      exact Finset.mem_erase.mpr ⟨hne, hw t ht hv⟩) hx
    refine ⟨Finset.mem_of_mem_erase hm, fun t ht hv => ?_⟩
    by_cases hne : t = i.node
    · subst hne
      obtain ⟨hne, hv⟩ := (pop.unvisited_expand x).mp (rest.stop_unseen hx)
      exact (h.rank_lt pop unseen hv hne).le
    · exact hlast t ht ((pop.unvisited_expand t).mpr ⟨hne, hv⟩)

/-- A search for many that does not stop cannot reach one of them. -/
theorem unreached_of_drained {k : Finset g.NodeIndex × ℕ}
    (hr : Runs (expandNode ctx) stopWhenSettled k s r) (h : Running ctx src s) (hk : k = (k.1, k.1.card)) (hne : k.1.Nonempty)
    (hw : ∀ t ∈ k.1, s.visited.get t = false) (hx : r.stop? = none) :
    ∃ t ∈ k.1, dist ctx.network src t = ⊤ := by
  induction hr with
  | drained empty =>
    obtain ⟨t, ht⟩ := hne
    refine ⟨t, ht, ?_⟩
    by_contra hd
    have hv := hw t ht
    rw [h.drained empty hd] at hv
    cases hv
  | skip pop seen rest ih =>
    exact ih (h.skip pop seen) hk hne (pop.visited ▸ hw) (by simpa using hx)
  | finish pop unseen stop => cases hx
  | @expand k k' s t i r pop unseen go rest ih =>
    rw [hk] at go
    have hmore := stopWhenSettled_nonempty hne go
    obtain rfl := stopWhenSettled_some go
    obtain ⟨t, ht, hd⟩ := ih (h.expand pop unseen) rfl hmore (fun t ht => by
      obtain ⟨hne, ht⟩ := Finset.mem_erase.mp ht
      exact (pop.unvisited_expand t).mpr ⟨hne, hw t ht⟩) (by simpa using hx)
    exact ⟨t, Finset.mem_of_mem_erase ht, hd⟩

end Runs

end Runs

section Explores
variable {g : GraphData} {ctx : RouteContext g} {src : g.NodeIndex}

/-- `u` is nearer to `src` than `v`, or as near with a lower number. -/
def RouteContext.Before (ctx : RouteContext g) (src u v : g.NodeIndex) : Prop :=
  rank ctx.network src u < rank ctx.network src v

/-- A run expands the nodes that can be reached and that `P` holds of, each once and
the nearest first. -/
structure Explores (ctx : RouteContext g) (src : g.NodeIndex) (P : g.NodeIndex → Prop)
    (r : Record g.systems.length) : Prop where
  sorted : r.expanded.Pairwise (ctx.Before src)
  exact : ∀ v, v ∈ r.expanded ↔ (∃ p, ctx.Admits src v p) ∧ P v

theorem reached_iff {v : g.NodeIndex} :
    dist ctx.network src v ≠ ⊤ ↔ ∃ p, ctx.Admits src v p := by
  simp only [RouteContext.admits_iff]
  constructor
  · intro h
    obtain ⟨p, hp, _⟩ := exists_walk h
    exact ⟨p, hp⟩
  · intro h
    obtain ⟨p, hp⟩ := h
    exact dist_ne_top hp

theorem before_of_unreached {t v : g.NodeIndex} (ht : dist ctx.network src t = ⊤)
    (hv : dist ctx.network src v ≠ ⊤) : ctx.Before src v t :=
  rank_lt.mpr (.inl (ht ▸ hv.lt_top))

theorem shortestPath_explores (ctx : RouteContext g) (src dst : g.NodeIndex)
    (scratch : DijkstraScratch) :
    Explores ctx src (ctx.Before src · dst) (shortestPath.recorded ctx src dst scratch) := by
  have h := start_running ctx src scratch
  have hr := recorded_runs ctx src dst scratch
  refine ⟨hr.expanded_sorted h, fun v => ?_⟩
  rw [hr.mem_expanded h, ← reached_iff]
  constructor
  · intro hv
    obtain ⟨_, hv, hstop⟩ := hv
    refine ⟨hv, ?_⟩
    cases hx : (shortestPath.recorded ctx src dst scratch).stop? with
    | none => exact before_of_unreached (hr.unreached_of_stop h (start_unvisited ..) hx) hv
    | some x =>
      obtain rfl := hr.stop_eq hx
      exact hstop x hx
  · intro hv
    refine ⟨start_unvisited .., hv.1, fun x hx => ?_⟩
    obtain rfl := hr.stop_eq hx
    exact hv.2

theorem shortestPathMulti_explores (ctx : RouteContext g) (src : g.NodeIndex)
    (targets : List g.NodeIndex) (scratch : DijkstraScratch) :
    Explores ctx src (fun v => targets = [] ∨ ∃ t ∈ targets, ctx.Before src v t)
      (shortestPathMulti.recorded ctx src targets scratch) := by
  have h := start_running ctx src scratch
  have hr := multi_recorded_runs ctx src targets scratch
  refine ⟨hr.expanded_sorted h, fun v => ?_⟩
  rw [hr.mem_expanded h, ← reached_iff]
  cases hx : (shortestPathMulti.recorded ctx src targets scratch).stop? with
  | none =>
    refine ⟨fun hv => ⟨hv.2.1, ?_⟩, fun hv => ⟨start_unvisited .., hv.1, by simp⟩⟩
    by_cases hne : targets = []
    · exact .inl hne
    · obtain ⟨t, ht, hd⟩ := hr.unreached_of_drained h rfl (by simpa using hne)
        (fun t _ => start_unvisited ..) hx
      exact .inr ⟨t, List.mem_toFinset.mp ht, before_of_unreached hd hv.2.1⟩
  | some x =>
    obtain ⟨hm, hlast⟩ := hr.stop_last h rfl (fun t ht _ => List.mem_toFinset.mpr ht) hx
    have hm : x ∈ targets := List.mem_toFinset.mp hm
    constructor
    · exact fun hv => ⟨hv.2.1, .inr ⟨x, hm, hv.2.2 x rfl⟩⟩
    · intro hv
      refine ⟨start_unvisited .., hv.1, fun y hy => ?_⟩
      cases hy
      rcases hv.2 with hnil | ⟨t, ht, hlt⟩
      · rw [hnil] at hm
        cases hm
      · exact hlt.trans_le (hlast t ht (start_unvisited ..))

/-- Runs that expand the same nodes expand them in the same order. -/
theorem Explores.precedes {P Q : g.NodeIndex → Prop} {r u : Record g.systems.length}
    (hr : Explores ctx src P r) (hu : Explores ctx src Q u) (hle : ∀ v, P v → Q v)
    (hlower : ∀ v w, ctx.Before src w v → P v → P w) : r.expanded <+: u.expanded := by
  apply prefix_of_lower hr.sorted hu.sorted
  · intro v hv
    rw [hr.exact] at hv
    exact (hu.exact v).mpr ⟨hv.1, hle v hv.2⟩
  · intro v hv w hw hlt
    exact (hr.exact w).mpr ⟨((hu.exact w).mp hw).1, hlower v w hlt ((hr.exact v).mp hv).2⟩

/-- A search for one node expands the nodes before it. A search for many does the
work of the search for the farthest of them, and so no more than that of a search for
each. -/
structure Expansions (ctx : RouteContext g) (src : g.NodeIndex) (targets : List g.NodeIndex)
    (one : g.NodeIndex → Record g.systems.length) (many : Record g.systems.length) : Prop where
  before : ∀ dst, Explores ctx src (ctx.Before src · dst) (one dst)
  beforeSome : Explores ctx src (fun v => targets = [] ∨ ∃ t ∈ targets, ctx.Before src v t) many
  starts : ∀ t ∈ targets, (one t).expanded <+: many.expanded
  farthest : targets ≠ [] → ∃ t ∈ targets, many.expanded = (one t).expanded

theorem expansions (ctx : RouteContext g) (src : g.NodeIndex) (targets : List g.NodeIndex)
    (scratch : DijkstraScratch) :
    Expansions ctx src targets (fun dst => shortestPath.recorded ctx src dst scratch)
      (shortestPathMulti.recorded ctx src targets scratch) := by
  have hone := fun dst => shortestPath_explores ctx src dst scratch
  have hmany := shortestPathMulti_explores ctx src targets scratch
  have hstart : ∀ t ∈ targets, (shortestPath.recorded ctx src t scratch).expanded <+:
      (shortestPathMulti.recorded ctx src targets scratch).expanded := by
    intro t ht
    exact (hone t).precedes hmany (fun v hv => .inr ⟨t, ht, hv⟩) fun v w hlt hv => lt_trans hlt hv
  refine ⟨hone, hmany, hstart, fun hne => ?_⟩
  obtain ⟨t, ht, hlast⟩ := targets.toFinset.exists_max_image (rank ctx.network src)
    (List.toFinset_nonempty_iff targets |>.mpr hne)
  have ht : t ∈ targets := List.mem_toFinset.mp ht
  refine ⟨t, ht, ?_⟩
  have hback := hmany.precedes (hone t) (fun v hv => ?_) fun v w hlt hv => ?_
  · exact hback.eq_of_length_le (hstart t ht).length_le
  · rcases hv with hnil | ⟨t', ht', hlt⟩
    · exact absurd hnil hne
    · exact lt_of_lt_of_le hlt (hlast t' (List.mem_toFinset.mpr ht'))
  · rcases hv with hnil | ⟨t', ht', hv⟩
    · exact absurd hnil hne
    · exact .inr ⟨t', ht', lt_trans hlt hv⟩

/-- The searches expand no more than they must, in whole numbers, and in `f32`
where one hop more than any node takes costs less than `2 ^ 24`. -/
theorem search_explores (ctx : RouteContext g) (src : g.NodeIndex) (targets : List g.NodeIndex)
    (scratch : DijkstraScratch) :
    Expansions ctx src targets (fun dst => shortestPath.recorded ctx src dst scratch)
      (shortestPathMulti.recorded ctx src targets scratch) ∧
    (∀ dst, shortestPath ctx src dst scratch =
      (shortestPath.recorded ctx src dst scratch).ending.route src dst) ∧
    shortestPathMulti ctx src targets scratch =
      (shortestPathMulti.recorded ctx src targets scratch).ending.settled src targets ∧
    ∃ D, IsGreatest (ctx.fewestHops src) D ∧ ((D + 1) * ctx.preference.maxWeight < 2 ^ 24 →
      Expansions ctx src targets
        (fun dst => shortestPath.recordedRounded roundF32 ctx src dst scratch)
        (shortestPathMulti.recordedRounded roundF32 ctx src targets scratch) ∧
      (∀ dst, shortestPath.rounded roundF32 ctx src dst scratch =
        (shortestPath.recordedRounded roundF32 ctx src dst scratch).ending.route src dst) ∧
      shortestPathMulti.rounded roundF32 ctx src targets scratch =
        (shortestPathMulti.recordedRounded roundF32 ctx src targets scratch).ending.settled src
          targets) := by
  have hexp := expansions ctx src targets scratch
  obtain ⟨D, hD⟩ := exists_greatest_hops ctx.network src
  rw [← ctx.fewestHops_eq] at hD
  refine ⟨hexp, fun dst => shortestPath_recorded ctx src dst scratch,
    shortestPathMulti_recorded ctx src targets scratch, D, hD, fun hlt => ⟨?_, fun _ => rfl, rfl⟩⟩
  simpa only [recordedRounded_eq roundF32_eq hD hlt, multi_recordedRounded_eq roundF32_eq hD hlt]
    using hexp

end Explores

end Palu
