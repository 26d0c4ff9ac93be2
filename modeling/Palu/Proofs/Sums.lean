import Palu.Paths.Hops
import Palu.Proofs.Routes

namespace Palu

open Paths Collections

/-- The most that an edge costs under a preference. -/
def Preference.maxWeight : Preference → ℕ
  | .shortest => 1
  | .safest => 1 + SECURITY_PENALTY
  | .preferGates => 1 + WORMHOLE_PENALTY

/-- A whole number that an `f32` holds: 24 bits of significand and an exponent. -/
def IsF32 (x : ℕ) : Prop := ∃ m e, m < 2 ^ 24 ∧ e ≤ 104 ∧ x = m * 2 ^ e

theorem isF32_of_lt {x : ℕ} (h : x < 2 ^ 24) : IsF32 x :=
  ⟨x, 0, h, Nat.zero_le _, by rw [pow_zero, mul_one]⟩

section Sums
variable {g : GraphData} {ctx : RouteContext g} {src : g.NodeIndex} {κ : Type*}
  {settle : κ → g.NodeIndex → Option κ} {k : κ} {s : Search g.systems.length}
  {r : Record g.systems.length} {cur : g.NodeIndex} {d x : ℕ}

theorem RouteContext.edgeWeight_le (ctx : RouteContext g) (a b : g.NodeIndex) :
    ctx.edgeWeight a b ≤ ctx.preference.maxWeight := by
  unfold edgeWeight securityPenalty wormholePenalty
  cases ctx.preference with
  | shortest => exact le_rfl
  | safest =>
    dsimp only [Preference.maxWeight]
    split
    · exact le_rfl
    · exact Nat.le_add_right _ _
  | preferGates =>
    dsimp only [Preference.maxWeight]
    split
    · exact le_rfl
    · exact Nat.le_add_right _ _

/-- The sums that relaxing the edges from `cur` computes: one for each edge to
a node that is not visited. -/
def relaxSums (ctx : RouteContext g) (cur : g.NodeIndex) (dist : ℕ) :
    List g.NodeIndex → Search g.systems.length → List ℕ
  | [], _ => []
  | nb :: ns, s =>
    (if s.visited.get nb then [] else [dist + ctx.edgeWeight cur nb]) ++
      relaxSums ctx cur dist ns (relax ctx cur dist s nb)

def Pass.sums (ctx : RouteContext g) (p : Pass g.systems.length) : List ℕ :=
  if p.deed = .expand then
    relaxSums ctx p.item.node p.item.dist (ctx.neighbors p.item.node)
      (p.buffers.visit p.item.node)
  else []

/-- Every tentative distance that a run computes. -/
def Record.sums (ctx : RouteContext g) (r : Record g.systems.length) : List ℕ :=
  r.passes.flatMap (Pass.sums ctx)

theorem relaxSums_le (ns : List g.NodeIndex) (h : x ∈ relaxSums ctx cur d ns s) :
    x ≤ d + ctx.preference.maxWeight := by
  induction ns generalizing s with
  | nil => cases h
  | cons nb ns ih =>
    rcases List.mem_append.mp h with hx | hx
    · split at hx
      · cases hx
      · rw [List.mem_singleton.mp hx]
        exact Nat.add_le_add_left (ctx.edgeWeight_le cur nb) d
    · exact ih hx

/-- A node that is expanded is popped at its distance. -/
theorem Pass.InOrder.dist_eq {p : Pass g.systems.length} (h : p.InOrder ctx src)
    (he : p.deed = .expand) : dist ctx.network src p.item.node = p.item.dist := by
  obtain ⟨s, hs, hp⟩ := h.popped
  have hv : s.visited.get p.item.node = false := by
    rw [← hp.visited, ← Bool.not_eq_true, ← h.skipped, he]
    simp
  rw [← hp.dist_eq hs.queued hv]
  exact (hs.run.settling.next_exact (hp.next hs.queued hv)).1.symm

/-- The numbers of hops of fewest-hop admissible walks from `src`. -/
def RouteContext.fewestHops (ctx : RouteContext g) (src : g.NodeIndex) : Set ℕ :=
  {k | ∃ v p, ctx.Admits src v p ∧ (∀ q, ctx.Admits src v q → p.length ≤ q.length) ∧
    p.length = k + 1}

theorem RouteContext.fewestHops_eq (ctx : RouteContext g) (src : g.NodeIndex) :
    ctx.fewestHops src = hops ctx.network src := by
  ext k
  simp only [fewestHops, hops, admits_iff, Set.mem_ofPred_eq]
  constructor
  · intro h
    obtain ⟨v, p, hw, hmin, hk⟩ := h
    exact ⟨v, p, ⟨hw, hmin⟩, hk⟩
  · intro h
    obtain ⟨v, p, hf, hk⟩ := h
    exact ⟨v, p, hf.walk, hf.least, hk⟩

/-- No sum of a run is above the cost of one hop more than any node takes. -/
theorem Runs.sums_le {D : ℕ} (hr : Runs (expandNode ctx) settle k s r) (h : Running ctx src s)
    (hD : IsGreatest (hops ctx.network src) D) :
    ∀ x ∈ r.sums ctx, x ≤ (D + 1) * ctx.preference.maxWeight := by
  intro x hx
  obtain ⟨p, hp, hx⟩ := List.mem_flatMap.mp hx
  unfold Pass.sums at hx
  split at hx
  · rename_i he
    have hd := (hr.inOrder h p hp).dist_eq he
    have hle : dist ctx.network src p.item.node ≤ (D * ctx.preference.maxWeight : ℕ) := by
      apply dist_le_hops hD fun _ => ctx.edgeWeight_le _ _
      rw [hd]
      exact ENat.natCast_ne_top _
    rw [hd] at hle
    have hle : p.item.dist ≤ D * ctx.preference.maxWeight := by exact_mod_cast hle
    calc x ≤ p.item.dist + ctx.preference.maxWeight := relaxSums_le _ hx
      _ ≤ D * ctx.preference.maxWeight + ctx.preference.maxWeight := Nat.add_le_add_right hle _
      _ = (D + 1) * ctx.preference.maxWeight := (Nat.succ_mul _ _).symm
  · cases hx

/-- What the sums of a run stay within, where no node takes more than `D` hops. -/
structure SumsWithin (ctx : RouteContext g) (D : ℕ) (r : Record g.systems.length) : Prop where
  safest : ctx.preference = .safest → ∀ x ∈ r.sums ctx, x ≤ (D + 1) * 10001
  preferGates : ctx.preference = .preferGates → ∀ x ∈ r.sums ctx, x ≤ 3 * (D + 1)
  shortest : ctx.preference = .shortest → ∀ x ∈ r.sums ctx, x ≤ D + 1
  exact : D ≤ 1676 → ∀ x ∈ r.sums ctx, x < 2 ^ 24 ∧ IsF32 x

theorem Preference.maxWeight_le (p : Preference) : p.maxWeight ≤ 10001 := by
  cases p <;> simp [maxWeight, SECURITY_PENALTY, WORMHOLE_PENALTY]

theorem Runs.sumsWithin {D : ℕ} (hr : Runs (expandNode ctx) settle k s r) (h : Running ctx src s)
    (hD : IsGreatest (hops ctx.network src) D) : SumsWithin ctx D r := by
  have hle := hr.sums_le h hD
  refine ⟨fun hp x hx => ?_, fun hp x hx => ?_, fun hp x hx => ?_, fun hd x hx => ?_⟩
  · simpa [hp, Preference.maxWeight, SECURITY_PENALTY] using hle x hx
  · simpa [hp, Preference.maxWeight, WORMHOLE_PENALTY, mul_comm] using hle x hx
  · simpa [hp, Preference.maxWeight] using hle x hx
  · have hlt : x < 2 ^ 24 := by
      calc x ≤ (D + 1) * ctx.preference.maxWeight := hle x hx
        _ ≤ (1676 + 1) * 10001 :=
          Nat.mul_le_mul (Nat.succ_le_succ hd) ctx.preference.maxWeight_le
        _ < 2 ^ 24 := by norm_num
    exact ⟨hlt, isF32_of_lt hlt⟩

/-- The sums of both searches are bounded by the most hops that a node takes. -/
theorem sums_within (ctx : RouteContext g) (src : g.NodeIndex) :
    ∃ D, IsGreatest (ctx.fewestHops src) D ∧ ∀ dst targets scratch,
      SumsWithin ctx D (shortestPath.recorded ctx src dst scratch) ∧
      SumsWithin ctx D (shortestPathMulti.recorded ctx src targets scratch) := by
  rw [ctx.fewestHops_eq]
  obtain ⟨D, hD⟩ := exists_greatest_hops ctx.network src
  refine ⟨D, hD, fun dst targets scratch => ?_⟩
  have h := start_running ctx src scratch
  constructor
  · exact (recorded_runs ctx src dst scratch).sumsWithin h hD
  · exact (multi_recorded_runs ctx src targets scratch).sumsWithin h hD

end Sums

section Rounded
variable {g : GraphData} {ctx : RouteContext g} {src : g.NodeIndex} {κ : Type*}
  {settle : κ → g.NodeIndex → Option κ} {round : ℕ → ℕ} {cur : g.NodeIndex} {d : ℕ}

/-- `edgeWeight` with each of its sums rounded. -/
def RouteContext.edgeWeightRounded (round : ℕ → ℕ) (ctx : RouteContext g)
    (src dest : g.NodeIndex) : ℕ :=
  let secClass := (g.systems.get dest).secClass
  round (round (1 + ctx.securityPenalty secClass) + ctx.wormholePenalty src dest)

/-- `relax` with the new distance rounded. -/
def relaxRounded (round : ℕ → ℕ) (ctx : RouteContext g) (cur : g.NodeIndex) (dist : ℕ)
    (s : Search g.systems.length) (nb : g.NodeIndex) : Search g.systems.length :=
  if s.visited.get nb then s
  else
    let newDist := round (dist + ctx.edgeWeightRounded round cur nb)
    if (newDist : ℕ∞) < s.dist.get nb then
      { s with
        dist := put s.dist nb newDist
        prev := put s.prev nb (some cur) }.push ⟨newDist, nb⟩
    else s

def expandRounded (round : ℕ → ℕ) (ctx : RouteContext g) (node : g.NodeIndex) (dist : ℕ)
    (s : Search g.systems.length) : Search g.systems.length :=
  (ctx.neighbors node).foldl (relaxRounded round ctx node dist) s

variable (hround : ∀ x < 2 ^ 24, round x = x)
include hround

theorem RouteContext.edgeWeightRounded_eq (a b : g.NodeIndex) :
    ctx.edgeWeightRounded round a b = ctx.edgeWeight a b := by
  have hw := (ctx.edgeWeight_le a b).trans ctx.preference.maxWeight_le
  simp only [edgeWeight] at hw
  simp only [edgeWeightRounded, edgeWeight]
  rw [hround (1 + _) (by omega), hround _ (by omega)]

theorem relaxRounded_fold (ns : List g.NodeIndex) (s : Search g.systems.length)
    (h : ∀ x ∈ relaxSums ctx cur d ns s, x < 2 ^ 24) :
    ns.foldl (relaxRounded round ctx cur d) s = ns.foldl (relax ctx cur d) s := by
  induction ns generalizing s with
  | nil => rfl
  | cons nb ns ih =>
    rw [relaxSums, List.forall_mem_append] at h
    have hnb : relaxRounded round ctx cur d s nb = relax ctx cur d s nb := by
      unfold relaxRounded relax
      split
      · rfl
      · rename_i hv
        rw [if_neg hv, List.forall_mem_singleton] at h
        rw [RouteContext.edgeWeightRounded_eq hround, hround _ h.1]
    rw [List.foldl_cons, List.foldl_cons, hnb]
    exact ih _ h.2

/-- A run whose sums all stay below the first number that is not exact is the
same with rounding. -/
theorem record_rounded (fuel : ℕ) (k : κ) (s : Search g.systems.length)
    (h : ∀ x ∈ (record (expandNode ctx) settle fuel k s).sums ctx, x < 2 ^ 24) :
    record (expandRounded round ctx) settle fuel k s = record (expandNode ctx) settle fuel k s := by
  apply record_congr
  intro p hp he
  apply relaxRounded_fold hround
  intro x hx
  apply h x
  refine List.mem_flatMap.mpr ⟨p, hp, ?_⟩
  rw [Pass.sums, if_pos he]
  exact hx

end Rounded

section RoundedRuns
variable {g : GraphData}

/-- The passes of a search for `dst` when every sum it computes is rounded. -/
def shortestPath.recordedRounded (round : ℕ → ℕ) (ctx : RouteContext g) (src dst : g.NodeIndex)
    (scratch : DijkstraScratch) : Record g.systems.length :=
  record (expandRounded round ctx) (stopAt dst) ctx.popBound () (startSearch src scratch)

def shortestPathMulti.recordedRounded (round : ℕ → ℕ) (ctx : RouteContext g)
    (src : g.NodeIndex) (targets : List g.NodeIndex) (scratch : DijkstraScratch) :
    Record g.systems.length :=
  let want := targets.toFinset
  record (expandRounded round ctx) stopWhenSettled ctx.popBound (want, want.card)
    (startSearch src scratch)

/-- What a search for `dst` answers when every sum it computes is rounded. -/
def shortestPath.rounded (round : ℕ → ℕ) (ctx : RouteContext g) (src dst : g.NodeIndex)
    (scratch : DijkstraScratch) : Except Fault (Option (Path g) × DijkstraScratch) :=
  (shortestPath.recordedRounded round ctx src dst scratch).ending.route src dst

def shortestPathMulti.rounded (round : ℕ → ℕ) (ctx : RouteContext g) (src : g.NodeIndex)
    (targets : List g.NodeIndex) (scratch : DijkstraScratch) :
    Except Fault (List (SettledTarget g) × DijkstraScratch) :=
  (shortestPathMulti.recordedRounded round ctx src targets scratch).ending.settled src targets

section Exact
variable {ctx : RouteContext g} {src : g.NodeIndex} {round : ℕ → ℕ} {D : ℕ}
  (hround : ∀ x < 2 ^ 24, round x = x) (hD : IsGreatest (ctx.fewestHops src) D)
  (hlt : (D + 1) * ctx.preference.maxWeight < 2 ^ 24) (scratch : DijkstraScratch)
include hround hD hlt

/-- Rounding that keeps what an `f32` holds changes no pass, where one hop more
than any node takes costs less than the first number it does not hold. -/
theorem recordedRounded_eq (dst : g.NodeIndex) :
    shortestPath.recordedRounded round ctx src dst scratch =
      shortestPath.recorded ctx src dst scratch := by
  rw [ctx.fewestHops_eq] at hD
  have hs := (recorded_runs ctx src dst scratch).sums_le (start_running ctx src scratch) hD
  exact record_rounded hround _ _ _ fun x hx => (hs x hx).trans_lt hlt

theorem multi_recordedRounded_eq (targets : List g.NodeIndex) :
    shortestPathMulti.recordedRounded round ctx src targets scratch =
      shortestPathMulti.recorded ctx src targets scratch := by
  rw [ctx.fewestHops_eq] at hD
  have hs := (multi_recorded_runs ctx src targets scratch).sums_le (start_running ctx src scratch)
    hD
  exact record_rounded hround _ _ _ fun x hx => (hs x hx).trans_lt hlt

/-- So it changes no answer. -/
theorem rounded_eq (dst : g.NodeIndex) :
    shortestPath.rounded round ctx src dst scratch = shortestPath ctx src dst scratch := by
  rw [shortestPath_recorded, shortestPath.rounded, recordedRounded_eq hround hD hlt]

theorem multi_rounded_eq (targets : List g.NodeIndex) :
    shortestPathMulti.rounded round ctx src targets scratch =
      shortestPathMulti ctx src targets scratch := by
  rw [shortestPathMulti_recorded, shortestPathMulti.rounded,
    multi_recordedRounded_eq hround hD hlt]

end Exact

end RoundedRuns

end Palu
