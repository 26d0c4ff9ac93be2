import Palu.Proofs.InRange
import Palu.Tables

namespace Palu

open Paths Collections Tables

section Rounding
variable {r s : Root} {ly : ℚ}

/-- A distance that `round2` takes past a range which it is within. -/
def RoundsPast (ly : ℚ) (r : Root) : Prop := (⌊ly * 100⌋ : ℝ) + 1 / 2 ≤ r.toReal * 100

/-- A rounded distance stays in range unless the distance is rounded past it. -/
theorem round2_le_iff : round2 r ≤ ly ↔ ¬ RoundsPast ly r := by
  have hround : round2 r ≤ ly ↔ round (r.toReal * 100) ≤ ⌊ly * 100⌋ := by
    have h100 : (0 : ℝ) < 100 := by norm_num
    rw [Int.le_floor, ← Rat.cast_le (K := ℝ), ← Rat.cast_le (K := ℝ), round2_eq,
      div_le_iff₀ h100]
    push_cast
    rfl
  rw [hround, round_eq, ← Int.lt_add_one_iff, Int.floor_lt, RoundsPast, not_le]
  push_cast
  constructor <;> intro h <;> linarith

theorem round2_mono (h : r ≤ s) : round2 r ≤ round2 s := by
  rw [round2_le_iff, RoundsPast, not_le]
  have hs : ¬ RoundsPast (round2 s) s := round2_le_iff.mp (le_refl _)
  rw [RoundsPast, not_le] at hs
  have := Root.toReal_le.mpr h
  linarith

end Rounding

variable {g : GraphData} {within : WithinUnsorted g} {source : g.NodeIndex} {ly : ℚ}

/-- What a jump fan-out lists, nearest first. -/
def fanOut (within : WithinUnsorted g) (source : g.NodeIndex) (ly : ℚ) : List g.NodeIndex :=
  sortBy (fun a b => compare (lyToB source a) (lyToB source b)) (reachableHits within source ly)

theorem sorted_fanOut (within : WithinUnsorted g) (source : g.NodeIndex) (ly : ℚ) :
    (fanOut within source ly).Pairwise fun a b => lyToB source a ≤ lyToB source b :=
  sortBy_key (lyToB source) (reachableHits within source ly)

theorem mem_fanOut (h : WithinExact within) (hly : 0 ≤ ly) {s : g.NodeIndex} :
    s ∈ fanOut within source ly ↔ s ≠ source ∧ (g.systems.get s).isWormhole = false ∧
      (g.systems.get s).secClass ≠ .highsec ∧ (lyToB source s).toReal ≤ ly := by
  rw [fanOut, (sortBy_perm _ _).mem_iff, mem_reachableHits h, abs_of_nonneg hly]

theorem fanOut_nodup (h : WithinExact within) : (fanOut within source ly).Nodup := by
  rw [fanOut, (sortBy_perm _ _).nodup_iff]
  refine List.Nodup.filter _ (List.Nodup.filter _ ((h _ _ _).nodup_iff.mpr ?_))
  exact g.spatial_nodup.sublist (List.filter_sublist.map _)

theorem reachable_entries (within : WithinUnsorted g) (source : g.NodeIndex) (ly : ℚ) :
    sortBy (fun a b => compare a.2 b.2)
        ((reachableHits within source ly).map (rangeEntry source)) =
      (fanOut within source ly).map (rangeEntry source) :=
  sortBy_map (rangeEntry source) _

/-- How far apart two systems are, in light-years. -/
noncomputable def lightYears (a b : g.NodeIndex) : ℝ :=
  √(squaredEuclidean (g.systems.get a).coords (g.systems.get b).coords : ℝ) / LY_IN_METERS

theorem lyToB_toReal (a b : g.NodeIndex) : (lyToB a b).toReal = lightYears a b := by
  rw [lyToB_comm]
  exact lyBetween_toReal _ _

/-- The entry of a system: who it is, and how far from the source it is, to the
nearest hundredth of a light-year. -/
structure EntryOf (source s : g.NodeIndex) (r : RangeReachable) : Prop where
  system : r.system = (g.systems.get s).name
  systemId : r.systemId = (g.systems.get s).id
  security : r.security = (g.systems.get s).security
  secClass : r.secClass = (g.systems.get s).secClass.label
  jumpLy : (r.jumpLy : ℝ) = round (lightYears source s * 100) / 100

theorem rangeEntry_entryOf (source s : g.NodeIndex) : EntryOf source s (rangeEntry source s).1 :=
  ⟨rfl, rfl, rfl, rfl, by rw [← lyToB_toReal]; exact round2_eq _⟩

/-- A system has one entry. -/
theorem EntryOf.eq_rangeEntry {source s : g.NodeIndex} {r : RangeReachable}
    (h : EntryOf source s r) : r = (rangeEntry source s).1 := by
  have hly : r.jumpLy = (rangeEntry source s).1.jumpLy := by
    have := h.jumpLy.trans (rangeEntry_entryOf source s).jumpLy.symm
    exact_mod_cast this
  obtain ⟨system, systemId, security, secClass, jumpLy⟩ := r
  obtain rfl : system = _ := h.system
  obtain rfl : systemId = _ := h.systemId
  obtain rfl : security = _ := h.security
  obtain rfl : secClass = _ := h.secClass
  obtain rfl : jumpLy = _ := hly
  rfl

/-- A jump fan-out: the entries of the systems in range, in order, and a summary
that agrees with the list. -/
structure FanOutExact (source : g.NodeIndex) (ly : ℚ) (nodes : List g.NodeIndex)
    (response : RangeResponse) : Prop where
  entries : List.Forall₂ (EntryOf source) nodes response.reachable
  nodup : nodes.Nodup
  mem : ∀ s, s ∈ nodes ↔ s ≠ source ∧ (g.systems.get s).isWormhole = false ∧
    (g.systems.get s).secClass ≠ .highsec ∧ lightYears source s ≤ ly
  sorted : nodes.Pairwise fun a b => lightYears source a ≤ lightYears source b
  sorted_jumpLy : response.reachable.Pairwise fun a b => a.jumpLy ≤ b.jumpLy
  count : response.summary.reachableCount = response.reachable.length
  farthest_nil : response.reachable = [] → response.summary.farthestLy = 0
  farthest : response.reachable ≠ [] →
    IsGreatest {d | ∃ r ∈ response.reachable, r.jumpLy = d} response.summary.farthestLy
  classes : ∀ label n, response.summary.bySecClass label = some n ↔
    n ≠ 0 ∧ response.reachable.countP (fun r => r.secClass = label) = n
  labels : ∀ label n, response.summary.bySecClass label = some n →
    label = SecClass.lowsec.label ∨ label = SecClass.nullsec.label
  total : (response.summary.bySecClass SecClass.lowsec.label).getD 0 +
    (response.summary.bySecClass SecClass.nullsec.label).getD 0 = response.summary.reachableCount

theorem FanOutExact.listed {source : g.NodeIndex} {nodes : List g.NodeIndex}
    {response : RangeResponse} (h : FanOutExact source ly nodes response) :
    response.reachable = nodes.map fun s => (rangeEntry source s).1 := by
  have heq : List.Forall₂ (· = ·) (nodes.map fun s => (rangeEntry source s).1)
      response.reachable :=
    List.forall₂_map_left_iff.mpr (h.entries.imp fun _ _ he => he.eq_rangeEntry.symm)
  rw [List.forall₂_eq_eq_eq] at heq
  exact heq.symm

/-- The last of a sorted list is its greatest. -/
theorem getLast_isGreatest {α β : Type*} [Preorder β] {f : α → β} {xs : List α} {x : α}
    (h : xs.Pairwise fun a b => f a ≤ f b) (hx : xs.getLast? = some x) :
    IsGreatest {v | ∃ a ∈ xs, f a = v} (f x) := by
  obtain ⟨ys, rfl⟩ := List.getLast?_eq_some_iff.mp hx
  refine ⟨⟨x, by simp, rfl⟩, ?_⟩
  intro v ⟨a, ha, hv⟩
  subst hv
  rcases List.mem_append.mp ha with ha | ha
  · exact (List.pairwise_append.mp h).2.2 a ha x (by simp)
  · rw [List.mem_singleton.mp ha]

/-- A K-space system outside highsec is in lowsec or in nullsec. -/
theorem label_of_listed {s : System} (hw : s.isWormhole = false) (hsec : s.secClass ≠ .highsec) :
    s.secClass = .lowsec ∨ s.secClass = .nullsec := by
  unfold System.isWormhole at hw
  cases hc : s.secClass <;> simp_all

theorem computeReachable_eq (within : WithinUnsorted g) (source : g.NodeIndex) (hull : RangeHull)
    (jdcLevel : ℕ) (ly : ℚ) :
    computeReachable within source hull jdcLevel ly =
      { summary := buildSummary ((fanOut within source ly).map (rangeEntry source))
        jdcLevel := jdcLevel
        effectiveLy := ly
        source := rangeSystem (g.systems.get source)
        hull := hull
        reachable := ((fanOut within source ly).map (rangeEntry source)).map Prod.fst } := by
  unfold computeReachable
  rw [reachable_entries]

/-- The counts by class are those of the listed systems. -/
theorem bySecClass_eq (source : g.NodeIndex) (nodes : List g.NodeIndex) (label : String) (n : ℕ) :
    (buildSummary (nodes.map (rangeEntry source))).bySecClass label = some n ↔
      n ≠ 0 ∧ (nodes.map fun s => (rangeEntry source s).1).countP
        (fun r => r.secClass = label) = n := by
  have htally := @tally_eq_some _ _ _ (nodes.map (rangeEntry source)) label n
    fun e => e.1.secClass
  rwa [List.countP_map] at htally ⊢

theorem countP_labels {α : Type*} {f : α → String} {a b : String} (hab : a ≠ b) {xs : List α}
    (h : ∀ x ∈ xs, f x = a ∨ f x = b) :
    xs.countP (fun x => f x = a) + xs.countP (fun x => f x = b) = xs.length := by
  rw [List.length_eq_countP_add_countP fun x => decide (f x = a)]
  congr 1
  apply List.countP_congr
  intro x hx
  rcases h x hx with hx | hx
  · simp [hx, hab]
  · simp [hx, hab.symm]

section Summary
variable {nodes : List g.NodeIndex}

/-- The farthest distance is the last one, which is the greatest. -/
theorem farthest_isGreatest (hsorted : nodes.Pairwise fun a b =>
      (rangeEntry source a).1.jumpLy ≤ (rangeEntry source b).1.jumpLy) (hne : nodes ≠ []) :
    IsGreatest {d | ∃ r ∈ nodes.map fun s => (rangeEntry source s).1, r.jumpLy = d}
      (buildSummary (nodes.map (rangeEntry source))).farthestLy := by
  obtain ⟨x, hx⟩ := Option.isSome_iff_exists.mp (List.getLast?_isSome.mpr hne)
  have hlast : (buildSummary (nodes.map (rangeEntry source))).farthestLy =
      (rangeEntry source x).1.jumpLy := by
    simp [buildSummary, List.getLast?_map, hx, rangeEntry]
  rw [hlast]
  simpa using getLast_isGreatest hsorted hx

variable (hlabel : ∀ s ∈ nodes, (rangeEntry source s).1.secClass = SecClass.lowsec.label ∨
  (rangeEntry source s).1.secClass = SecClass.nullsec.label)
include hlabel

theorem bySecClass_label {label : String} {n : ℕ}
    (h : (buildSummary (nodes.map (rangeEntry source))).bySecClass label = some n) :
    label = SecClass.lowsec.label ∨ label = SecClass.nullsec.label := by
  obtain ⟨hn, hcount⟩ := (bySecClass_eq source nodes label n).mp h
  have hpos : 0 < List.countP (fun r : RangeReachable => r.secClass = label)
      (nodes.map fun s => (rangeEntry source s).1) := hcount ▸ Nat.pos_of_ne_zero hn
  obtain ⟨r, hr, hlab⟩ := List.countP_pos_iff.mp hpos
  obtain ⟨s, hs, rfl⟩ := List.mem_map.mp hr
  rw [decide_eq_true_eq] at hlab
  rw [← hlab]
  exact hlabel s hs

theorem bySecClass_total :
    ((buildSummary (nodes.map (rangeEntry source))).bySecClass SecClass.lowsec.label).getD 0 +
      ((buildSummary (nodes.map (rangeEntry source))).bySecClass SecClass.nullsec.label).getD 0 =
    nodes.length := by
  have htally : ∀ label, ((buildSummary (nodes.map (rangeEntry source))).bySecClass label).getD 0
      = nodes.countP fun s => (rangeEntry source s).1.secClass = label := by
    intro label
    have hcount := tally_getD (fun e : RangeReachable × Root => e.1.secClass)
      (nodes.map (rangeEntry source)) label
    rwa [List.countP_map] at hcount
  rw [htally, htally, countP_labels (by decide) hlabel]

end Summary

theorem fanOutExact (h : WithinExact within) (hly : 0 ≤ ly) (source : g.NodeIndex)
    (hull : RangeHull) (jdcLevel : ℕ) :
    FanOutExact source ly (fanOut within source ly)
      (computeReachable within source hull jdcLevel ly) := by
  rw [computeReachable_eq]
  have hsorted := sorted_fanOut within source ly
  have hnodup : (fanOut within source ly).Nodup := fanOut_nodup h
  have hmem : ∀ s, s ∈ fanOut within source ly ↔ _ := fun s => mem_fanOut h hly
  simp only [lyToB_toReal] at hmem
  generalize fanOut within source ly = nodes at *
  have hrounded : nodes.Pairwise fun a b =>
      (rangeEntry source a).1.jumpLy ≤ (rangeEntry source b).1.jumpLy :=
    hsorted.imp round2_mono
  have hlabel : ∀ s ∈ nodes, (rangeEntry source s).1.secClass = SecClass.lowsec.label ∨
      (rangeEntry source s).1.secClass = SecClass.nullsec.label := by
    intro s hs
    obtain ⟨_, hw, hsec, _⟩ := (hmem s).mp hs
    exact (label_of_listed hw hsec).imp (congrArg SecClass.label) (congrArg SecClass.label)
  refine
    { entries := ?_
      nodup := hnodup
      mem := hmem
      sorted := ?_
      sorted_jumpLy := ?_
      count := by simp [buildSummary]
      farthest_nil := fun hnil => ?_
      farthest := fun hne => ?_
      classes := fun label n => ?_
      labels := fun _ _ => bySecClass_label hlabel
      total := (bySecClass_total hlabel).trans (by simp [buildSummary]) }
  · rw [List.map_map]
    exact List.forall₂_map_right_iff.mpr
      (List.forall₂_same.mpr fun s _ => rangeEntry_entryOf source s)
  · apply hsorted.imp
    intro a b hle
    rw [← lyToB_toReal, ← lyToB_toReal]
    exact Root.toReal_le.mpr hle
  · rw [List.map_map]
    exact List.pairwise_map.mpr hrounded
  · obtain rfl : nodes = [] := by simpa using hnil
    rfl
  · rw [List.map_map]
    exact farthest_isGreatest hrounded (by simpa using hne)
  · rw [List.map_map]
    exact bySecClass_eq source nodes label n

/-- The jump fan-out is exact and its summary agrees with it. -/
theorem jump_fan_out_exact (g : GraphData) (within : WithinUnsorted g) (source : g.NodeIndex)
    (hull : RangeHull) (jdcLevel : ℕ) (ly : ℚ) (hwithin : WithinExact within) (hly : 0 ≤ ly) :
    ∃ nodes, FanOutExact source ly nodes (computeReachable within source hull jdcLevel ly) :=
  ⟨_, fanOutExact hwithin hly source hull jdcLevel⟩

/-- The system next to the target. -/
def turnurNode : turnurStaging.NodeIndex := ⟨2, by decide⟩

theorem jump_fan_out_exact_turnur :
    ∃ nodes, FanOutExact turnurNode 8 nodes
      (computeReachable scan turnurNode ⟨"Sin", 22430, 4⟩ 5 8) :=
  jump_fan_out_exact turnurStaging scan turnurNode ⟨"Sin", 22430, 4⟩ 5 8 scan_exact (by norm_num)

end Palu
