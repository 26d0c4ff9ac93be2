import Palu.Model.Staging
import Palu.Proofs.FanOut

namespace Palu

open Paths Collections

variable {g : GraphData} {within : WithinUnsorted g} {scout : EveScoutSnapshot}
  {query : StagingQuery} {destOk stageOk : System → Bool} {onDestReject : System → AppError}
  {src dst : g.NodeIndex} {now : Instant}

section Candidates

/-- The radius query as a scan of every indexed point. -/
def scan : WithinUnsorted g := fun tree p radius =>
  (tree.filter fun e => squaredEuclidean e.1 p ≤ radius).map Prod.snd

/-- What is relied on of the kd-tree: each indexed item inside the closed
radius once, in any order. -/
def WithinExact (within : WithinUnsorted g) : Prop :=
  ∀ tree p radius, (within tree p radius).Perm (scan tree p radius)

theorem scan_exact : WithinExact (g := g) scan := fun _ _ _ => .refl _

/-- The K-space systems other than the target, in range of it, that `stageOk`
accepts. -/
def stagingSet (g : GraphData) (stageOk : System → Bool) (effectiveLy : ℚ)
    (dst : g.NodeIndex) : Set g.NodeIndex :=
  {s | s ≠ dst ∧ (g.systems.get s).isWormhole = false ∧
    (lyToB dst s).toReal ≤ |effectiveLy| ∧ stageOk (g.systems.get s) = true}

theorem mem_within (h : WithinExact within) {ly : ℚ} {s : g.NodeIndex} :
    s ∈ within g.spatialIndex (g.systems.get dst).coords (radiusM2 ly) ↔
      (g.systems.get s).isWormhole = false ∧ (lyToB dst s).toReal ≤ |ly| := by
  rw [(h _ _ _).mem_iff, scan, lyToB, ← squaredEuclidean_le_radiusM2]
  simp only [List.mem_map, List.mem_filter, decide_eq_true_eq]
  constructor
  · rintro ⟨⟨p, i⟩, ⟨hm, hle⟩, rfl⟩
    obtain ⟨hw, rfl⟩ := g.spatial_mem.mp hm
    exact ⟨hw, hle⟩
  · intro ⟨hw, hle⟩
    exact ⟨(_, s), ⟨g.spatial_mem.mpr ⟨hw, rfl⟩, hle⟩, rfl⟩

theorem mem_stagingCandidates (h : WithinExact within) {ly : ℚ} {s : g.NodeIndex} :
    s ∈ stagingCandidates within ly dst stageOk ↔ s ∈ stagingSet g stageOk ly dst := by
  simp only [stagingCandidates, List.mem_filter, mem_within h, decide_eq_true_eq]
  constructor
  · intro ⟨⟨⟨hw, hle⟩, hne⟩, hok⟩
    exact ⟨hne, hw, hle, hok⟩
  · intro ⟨hne, hw, hle, hok⟩
    exact ⟨⟨⟨hw, hle⟩, hne⟩, hok⟩

theorem stagingCandidates_nodup (h : WithinExact within) (ly : ℚ) :
    (stagingCandidates within ly dst stageOk).Nodup := by
  refine List.Nodup.filter _ (List.Nodup.filter _ ((h _ _ _).nodup_iff.mpr ?_))
  exact g.spatial_nodup.sublist (List.filter_sublist.map _)

theorem stagingCandidates_isEmpty (h : WithinExact within) {ly : ℚ} :
    (stagingCandidates within ly dst stageOk).isEmpty = true ↔
      stagingSet g stageOk ly dst = ∅ := by
  rw [List.isEmpty_iff, List.eq_nil_iff_forall_not_mem, Set.eq_empty_iff_forall_notMem]
  simp only [mem_stagingCandidates h]

end Candidates

section Ranking

/-- Where a staging system ranks: by the jumps of its path, then by its distance
to the target. -/
noncomputable def stagingRank (ctx : RouteContext g) (src dst s : g.NodeIndex) : ℕ ×ₗ Root :=
  toLex (((best ctx.network src s).getD []).length - 1, lyToB dst s)

instance : Std.TransCmp (settledCmp (g := g) dst) :=
  inferInstanceAs (Std.TransCmp (compareLex (compareOn SettledTarget.jumps)
    (compareOn fun t => lyToB dst t.node)))

variable {ctx : RouteContext g} {targets : List g.NodeIndex}

theorem mem_settledTargets {t : SettledTarget g} :
    t ∈ settledTargets ctx src targets ↔ t.node ∈ targets ∧
      best ctx.network src t.node = some t.path ∧ t.jumps = t.path.length - 1 := by
  simp only [settledTargets, List.mem_filterMap, Option.map_eq_some_iff]
  constructor
  · rintro ⟨s, hs, p, hp, rfl⟩
    exact ⟨hs, hp, rfl⟩
  · intro ⟨hs, hp, hj⟩
    refine ⟨t.node, hs, t.path, hp, ?_⟩
    rw [← hj]

theorem settledTargets_nodes (ctx : RouteContext g) (src : g.NodeIndex)
    (targets : List g.NodeIndex) :
    (settledTargets ctx src targets).map SettledTarget.node =
      targets.filter fun s => (best ctx.network src s).isSome := by
  induction targets with
  | nil => rfl
  | cons s targets ih =>
    unfold settledTargets at ih ⊢
    cases hb : best ctx.network src s with
    | none => simp [hb, ih]
    | some p => simp [hb, ih]

theorem settledCmp_isLE {a b : SettledTarget g} (ha : a ∈ settledTargets ctx src targets)
    (hb : b ∈ settledTargets ctx src targets) :
    (settledCmp dst a b).isLE ↔
      stagingRank ctx src dst a.node ≤ stagingRank ctx src dst b.node := by
  obtain ⟨_, hpa, hja⟩ := mem_settledTargets.mp ha
  obtain ⟨_, hpb, hjb⟩ := mem_settledTargets.mp hb
  rw [settledCmp, then_isLE, stagingRank, stagingRank, hpa, hpb, hja, hjb]
  rfl

/-- The systems of `C` to which the search finds a route. -/
def reachable (ctx : RouteContext g) (src : g.NodeIndex) (C : Set g.NodeIndex) :
    Set g.NodeIndex :=
  {s | s ∈ C ∧ ∃ p, ctx.Answers src s (some p)}

/-- What a response shows of a system. -/
structure ShowsSystem (s : System) (shown : BlopsSystem) : Prop where
  system : shown.system = s.name
  systemId : shown.systemId = s.id
  security : shown.security = s.security
  secClass : shown.secClass = s.secClass.label

theorem shows_blopsSystem (s : System) : ShowsSystem s (blopsSystem s) := ⟨rfl, rfl, rfl, rfl⟩

/-- An alternate, at its number of jumps and its distance from the target. -/
structure ShowsAlternate (ctx : RouteContext g) (src dst a : g.NodeIndex)
    (shown : BlopsCandidate) : Prop where
  system : ShowsSystem (g.systems.get a) shown.system
  gateJumps : shown.gateJumps = (ofLex (stagingRank ctx src dst a)).1
  lyToB : shown.lyToB = round2 (lyToB dst a)

/-- A response that chooses `star`, reached over `path`, and falls back on `alts`. -/
structure StagingChoice (ctx : RouteContext g) (src dst : g.NodeIndex) (R : Set g.NodeIndex)
    (star : g.NodeIndex) (path : Path g) (alts : List g.NodeIndex)
    (response : BlopsRouteResponse) : Prop where
  star_mem : star ∈ R
  answer : ctx.Answers src star (some path)
  star_least : ∀ s ∈ R, stagingRank ctx src dst star ≤ stagingRank ctx src dst s
  bridge_src : ShowsSystem (g.systems.get star) response.chosen.bridge.src
  bridge_dst : ShowsSystem (g.systems.get dst) response.chosen.bridge.dst
  jumpLy : response.chosen.bridge.jumpLy = round2 (lyToB dst star)
  inRange : response.chosen.bridge.inRange = true
  gatePath : response.chosen.gatePath = buildSteps ctx path
  gateJumps : response.chosen.gateJumps = path.length - 1
  alts_mem : ∀ s ∈ alts, s ∈ R ∧ s ≠ star
  alts_nodup : alts.Nodup
  alts_length : alts.length = min MAX_ALTERNATES (R.ncard - 1)
  alts_sorted : alts.Pairwise fun a b => stagingRank ctx src dst a ≤ stagingRank ctx src dst b
  alts_least : ∀ s ∈ R, s ≠ star → s ∉ alts →
    ∀ a ∈ alts, stagingRank ctx src dst a ≤ stagingRank ctx src dst s
  alternates : List.Forall₂ (ShowsAlternate ctx src dst)
    (if response.chosen.gateJumps = 0 then [] else alts) response.alternates

/-- The settled targets in order: what is chosen first, and what comes after. -/
structure Ranked (ctx : RouteContext g) (src dst : g.NodeIndex) (R : Set g.NodeIndex)
    (ranked : List (SettledTarget g)) : Prop where
  settled : ∀ t ∈ ranked, best ctx.network src t.node = some t.path ∧
    t.jumps = t.path.length - 1
  nodes : ∀ s, s ∈ ranked.map SettledTarget.node ↔ s ∈ R
  nodup : (ranked.map SettledTarget.node).Nodup
  sorted : (ranked.map SettledTarget.node).Pairwise fun a b =>
    stagingRank ctx src dst a ≤ stagingRank ctx src dst b

theorem sortBy_ranked {C : Set g.NodeIndex} (hn : targets.Nodup)
    (hC : ∀ s, s ∈ targets ↔ s ∈ C) :
    Ranked ctx src dst (reachable ctx src C)
      (sortBy (settledCmp dst) (settledTargets ctx src targets)) := by
  have hperm := sortBy_perm (settledCmp dst) (settledTargets ctx src targets)
  have hmem := fun t => hperm.mem_iff (a := t)
  have hnodes := (hperm.map SettledTarget.node).trans (.of_eq (settledTargets_nodes ctx src targets))
  refine ⟨fun t ht => (mem_settledTargets.mp ((hmem t).mp ht)).2, fun s => ?_,
    hnodes.nodup_iff.mpr (hn.filter _), ?_⟩
  · rw [hnodes.mem_iff, List.mem_filter, hC, Option.isSome_iff_exists]
    refine and_congr_right fun _ => exists_congr fun p => ⟨fun h => ?_, fun h => h.eq_best.symm⟩
    exact h ▸ ctx.answers_best src s
  · rw [List.pairwise_map]
    apply (sortBy_sorted (settledTargets ctx src targets)).imp_of_mem
    intro _ _ ha hb hle
    exact (settledCmp_isLE ((hmem _).mp ha) ((hmem _).mp hb)).mp hle

theorem Ranked.length {R : Set g.NodeIndex} {ranked : List (SettledTarget g)}
    (h : Ranked ctx src dst R ranked) : ranked.length = R.ncard := by
  have hR : R = ((ranked.map SettledTarget.node).toFinset : Set g.NodeIndex) := by
    ext s
    rw [Finset.mem_coe, List.mem_toFinset, h.nodes]
  rw [hR, Set.ncard_coe_finset, List.toFinset_card_of_nodup h.nodup, List.length_map]

/-- The response made of a ranking chooses its head and lists what follows. -/
theorem Ranked.choice {R : Set g.NodeIndex} {head : SettledTarget g}
    {rest : List (SettledTarget g)} (h : Ranked ctx src dst R (head :: rest)) (ly : ℚ) :
    StagingChoice ctx src dst R head.node head.path
      ((rest.take MAX_ALTERNATES).map SettledTarget.node)
      (stagingResponse ctx dst ly head rest) := by
  obtain ⟨hpath, hjumps⟩ := h.settled head (by simp)
  have hnodup := List.nodup_cons.mp h.nodup
  have hsorted := List.pairwise_cons.mp h.sorted
  have hsub : ((rest.take MAX_ALTERNATES).map SettledTarget.node).Sublist
      (rest.map SettledTarget.node) := (List.take_sublist _ _).map _
  have hsplit := congrArg (List.map SettledTarget.node)
    (List.take_append_drop MAX_ALTERNATES rest)
  rw [List.map_append] at hsplit
  refine
    { star_mem := (h.nodes _).mp (by simp)
      answer := hpath ▸ ctx.answers_best src head.node
      star_least := fun s hs => ?_
      bridge_src := shows_blopsSystem _
      bridge_dst := shows_blopsSystem _
      jumpLy := rfl
      inRange := rfl
      gatePath := rfl
      gateJumps := hjumps
      alts_mem := fun s hs => ⟨(h.nodes s).mp ?_, ?_⟩
      alts_nodup := hnodup.2.sublist hsub
      alts_length := ?_
      alts_sorted := hsorted.2.sublist hsub
      alts_least := fun s hs hne hnot a ha => ?_
      alternates := ?_ }
  · rcases List.mem_cons.mp ((h.nodes s).mpr hs) with rfl | hs
    · exact le_refl _
    · exact hsorted.1 s hs
  · exact List.mem_cons_of_mem _ (hsub.subset hs)
  · intro he
    subst he
    exact hnodup.1 (hsub.subset hs)
  · rw [← h.length, List.length_map, List.length_take, List.length_cons, Nat.add_sub_cancel]
  · -- What is left out comes after everything that is listed.
    have hs := (List.mem_cons.mp ((h.nodes s).mpr hs)).resolve_left hne
    have hpair := hsorted.2
    rw [← hsplit] at hs hpair
    exact (List.pairwise_append.mp hpair).2.2 a ha s ((List.mem_append.mp hs).resolve_left hnot)
  · unfold stagingResponse
    dsimp only
    split
    · exact .nil
    · rw [List.forall₂_map_left_iff, List.forall₂_map_right_iff, List.forall₂_same]
      intro t ht
      have hm : t ∈ head :: rest := List.mem_cons_of_mem _ (List.mem_of_mem_take ht)
      obtain ⟨hp, hj⟩ := h.settled t hm
      exact ⟨shows_blopsSystem _, by simp [blopsCandidate, stagingRank, hp, hj], rfl⟩

end Ranking

section Runs

/-- The references of a staging query, resolved. -/
structure StagingHeader (g : GraphData) where
  src : g.NodeIndex
  dst : g.NodeIndex
  avoid : Finset g.NodeIndex
  connections : List (g.NodeIndex × g.NodeIndex × EdgeKind)

structure StagingHeader.Resolves (header : StagingHeader g) (query : StagingQuery) : Prop where
  src : resolveSystem g query.src = .ok header.src
  dst : resolveSystem g query.dst = .ok header.dst
  avoid : assembleAvoidSet g query.overlay = .ok header.avoid
  connections : resolveConnections g query.overlay = .ok header.connections

/-- The context of the gate leg: the fleet and the target are the endpoints. -/
def stagingContext (scout : EveScoutSnapshot) (query : StagingQuery) (header : StagingHeader g)
    (now : Instant) : RouteContext g :=
  scoutOverlay scout query.overlay [header.src, header.dst] now
    (addOverlayConnections query.overlay header.connections
      (.new (header.avoid.erase header.src) query.preference))

variable {header : StagingHeader g}

theorem stageFrom_gives (scout : EveScoutSnapshot) (h : header.Resolves query) (candidates : List g.NodeIndex)
    (m : Machine) :
    Gives (stageFrom scout query header.src header.dst candidates) m
      (rankStaging (stagingContext scout query header (m.clock m.reads)) header.dst
        query.effectiveLy (settledTargets
          (stagingContext scout query header (m.clock m.reads)) header.src candidates)) 1 := by
  unfold stageFrom applyOverlay
  rw [h.avoid, h.connections]
  refine Gives.bind (n := 1) (k := 0) ((applyScoutOverlay_gives _ _ m).map Except.ok)
    fun scratch => ?_
  exact (gives_withScratch (shortestPathMulti_eq _ _ _) _).map _

section Resolved
variable (hwithin : WithinExact within) (hsrc : resolveSystem g query.src = .ok src)
  (hdst : resolveSystem g query.dst = .ok dst) (hok : destOk (g.systems.get dst) = true)
include hwithin hsrc hdst hok

theorem computeStaging_none (h : stagingSet g stageOk query.effectiveLy dst = ∅) (m : Machine) :
    computeStaging within scout query destOk stageOk onDestReject m =
      .ok (.error .noStagingInRange, m) := by
  unfold computeStaging
  simp only [hsrc, hdst, hok, if_true, (stagingCandidates_isEmpty hwithin).mpr h]
  rfl

theorem computeStaging_leg (h : (stagingSet g stageOk query.effectiveLy dst).Nonempty)
    (m : Machine) :
    computeStaging within scout query destOk stageOk onDestReject m =
      stageFrom scout query src dst
        (stagingCandidates within query.effectiveLy dst stageOk) m := by
  unfold computeStaging
  have hne := (stagingCandidates_isEmpty hwithin).not.mpr h.ne_empty
  simp only [hsrc, hdst, hok, if_true, hne]
  rfl

end Resolved

/-- Every reference of the query resolves. -/
def ValidQuery (g : GraphData) (query : StagingQuery) : Prop :=
  resolves g query.src = true ∧ resolves g query.dst = true ∧
    (∀ r ∈ query.overlay.avoid, resolves g r = true) ∧
    ∀ c ∈ query.overlay.connections, resolves g c.src = true ∧ resolves g c.dst = true

instance : Decidable (ValidQuery g query) := inferInstanceAs (Decidable (_ ∧ _))

theorem ValidQuery.resolves (h : ValidQuery g query) :
    ∃ header : StagingHeader g, header.Resolves query := by
  obtain ⟨hsrc, hdst, havoid, hconns⟩ := h
  obtain ⟨src, hsrc⟩ := resolves_iff.mp hsrc
  obtain ⟨dst, hdst⟩ := resolves_iff.mp hdst
  obtain ⟨avoid, havoid⟩ := assembleAvoidSet_ok.mpr havoid
  obtain ⟨conns, hconns⟩ := resolveConnections_ok.mpr hconns
  exact ⟨⟨src, dst, avoid, conns⟩, hsrc, hdst, havoid, hconns⟩

/-- Staging fails for want of a candidate, or of a reachable one, and otherwise
chooses a reachable candidate that ranks first. -/
structure StagingExact (ctx : RouteContext g) (src dst : g.NodeIndex) (C : Set g.NodeIndex)
    (result : Except AppError BlopsRouteResponse) : Prop where
  none_in_range : result = .error .noStagingInRange ↔ C = ∅
  none_reachable : result = .error .stagingUnreachable ↔
    C.Nonempty ∧ reachable ctx src C = ∅
  chosen : (reachable ctx src C).Nonempty ↔ ∃ response, result = .ok response
  choice : ∀ response, result = .ok response →
    ∃ star path alts, StagingChoice ctx src dst (reachable ctx src C) star path alts response

theorem rankStaging_exact {ctx : RouteContext g} {candidates : List g.NodeIndex}
    {C : Set g.NodeIndex} (hn : candidates.Nodup) (hC : ∀ s, s ∈ candidates ↔ s ∈ C)
    (hne : C.Nonempty) (ly : ℚ) :
    StagingExact ctx src dst C
      (rankStaging ctx dst ly (settledTargets ctx src candidates)) := by
  have hranked : Ranked ctx src dst (reachable ctx src C) _ := sortBy_ranked hn hC
  unfold rankStaging
  cases hs : sortBy (settledCmp dst) (settledTargets ctx src candidates) with
  | nil =>
    rw [hs] at hranked
    have hempty : reachable ctx src C = ∅ :=
      Set.eq_empty_iff_forall_notMem.mpr fun s hm => by simpa using (hranked.nodes s).mpr hm
    refine ⟨?_, ?_, ?_, fun _ he => by cases he⟩
    · simpa using hne.ne_empty
    · simp [hempty, hne]
    · simp [hempty]
  | cons head rest =>
    rw [hs] at hranked
    have hreach : (reachable ctx src C).Nonempty :=
      ⟨head.node, (hranked.nodes _).mp (by simp)⟩
    refine ⟨?_, ?_, by simpa using hreach, fun response he => ?_⟩
    · simpa using hne.ne_empty
    · simp [hreach.ne_empty]
    · cases he
      exact ⟨_, _, _, hranked.choice ly⟩

theorem computeStaging_exact (scout : EveScoutSnapshot) (stageOk : System → Bool)
    (onDestReject : System → AppError) {header : StagingHeader g} (hwithin : WithinExact within)
    (hh : header.Resolves query) (hok : destOk (g.systems.get header.dst) = true) (m : Machine) :
    ∃ (result : Except AppError BlopsRouteResponse) (left : Machine),
      computeStaging within scout query destOk stageOk onDestReject m = .ok (result, left) ∧
      StagingExact (stagingContext scout query header (m.clock m.reads)) header.src header.dst
        (stagingSet g stageOk query.effectiveLy header.dst) result := by
  rcases (stagingSet g stageOk query.effectiveLy header.dst).eq_empty_or_nonempty with he | hne
  · refine ⟨_, _, computeStaging_none hwithin hh.src hh.dst hok he m, ?_⟩
    rw [he]
    refine ⟨by simp, by simp, by simp [reachable], fun _ he => by cases he⟩
  · obtain ⟨left, hl⟩ := stageFrom_gives scout hh
      (stagingCandidates within query.effectiveLy header.dst stageOk) m
    rw [← computeStaging_leg hwithin hh.src hh.dst hok hne] at hl
    exact ⟨_, _, hl, rankStaging_exact (stagingCandidates_nodup hwithin _)
      (fun s => mem_stagingCandidates hwithin) hne _⟩

/-- Staging is exact, for a range read without its sign. -/
theorem staging_exact (g : GraphData) (within : WithinUnsorted g) (scout : EveScoutSnapshot)
    (query : StagingQuery) (destOk stageOk : System → Bool) (onDestReject : System → AppError)
    (m : Machine) (hwithin : WithinExact within) (hvalid : ValidQuery g query)
    (hok : ∀ dst, resolveSystem g query.dst = .ok dst → destOk (g.systems.get dst) = true) :
    ∃ (header : StagingHeader g) (result : Except AppError BlopsRouteResponse) (left : Machine),
      header.Resolves query ∧
      computeStaging within scout query destOk stageOk onDestReject m = .ok (result, left) ∧
      StagingExact (stagingContext scout query header (m.clock m.reads)) header.src header.dst
        (stagingSet g stageOk query.effectiveLy header.dst) result := by
  obtain ⟨header, hh⟩ := hvalid.resolves
  obtain ⟨result, left, hrun, hexact⟩ := computeStaging_exact scout stageOk onDestReject
    hwithin hh (hok _ hh.dst) m
  exact ⟨header, result, left, hh, hrun, hexact⟩

/-- Turnur two gates from the first system, and in range of the last one. -/
def turnurStaging : GraphData :=
  gateChain [(1, .lowsec, 0), (2, .lowsec, 100), (TURNUR_SYSTEM_ID, .lowsec, 200),
    (4, .lowsec, 205)]

def turnurQuery (effectiveLy : ℚ) : StagingQuery where
  src := .id 1
  dst := .id 4
  effectiveLy := effectiveLy
  overlay := {}
  preference := .shortest

theorem staging_exact_turnur :
    ∃ (header : StagingHeader turnurStaging) (result : Except AppError BlopsRouteResponse)
      (left : Machine), header.Resolves (turnurQuery 8) ∧
      computeStaging (g := turnurStaging) scan {} (turnurQuery 8) (fun _ => true)
        (fun _ => true) (fun _ => .unreachable) { clock := fun _ => 0 } = .ok (result, left) ∧
      StagingExact (stagingContext {} (turnurQuery 8) header 0) header.src header.dst
        (stagingSet turnurStaging (fun _ => true) 8 header.dst) result :=
  staging_exact turnurStaging scan {} (turnurQuery 8) (fun _ => true) (fun _ => true)
    (fun _ => .unreachable) { clock := fun _ => 0 } scan_exact (by decide +kernel)
    (fun _ _ => rfl)

/-- No system is within minus eight light-years, yet a star is chosen. -/
theorem negative_range_stages :
    WithinExact (g := turnurStaging) scan ∧ ValidQuery turnurStaging (turnurQuery (-8)) ∧
      (∀ dst s : turnurStaging.NodeIndex, ¬ (lyToB dst s).toReal ≤ ((-8 : ℚ) : ℝ)) ∧
      ∃ response left, computeStaging (g := turnurStaging) scan {} (turnurQuery (-8))
        (fun _ => true) (fun _ => true) (fun _ => .unreachable) { clock := fun _ => 0 } =
          .ok (.ok response, left) := by
  refine ⟨scan_exact, by decide +kernel, fun dst s hle => ?_, ?_⟩
  · have := (Root.toReal_nonneg _).trans hle
    norm_num at this
  · have hrun : (computeStaging (g := turnurStaging) scan {} (turnurQuery (-8)) (fun _ => true)
        (fun _ => true) (fun _ => .unreachable) { clock := fun _ => 0 }).map
          (fun r => r.1.toBool) = .ok true := by decide +kernel
    obtain ⟨⟨result, left⟩, hr, hok⟩ := map_ok.mp hrun
    cases result with
    | error e => cases hok
    | ok response => exact ⟨response, left, hr⟩

/-- Some reference of the overlay does not resolve. -/
def BadReference (g : GraphData) (inputs : OverlayInputs) : Prop :=
  (∃ r ∈ inputs.avoid, resolves g r = false) ∨
    ∃ c ∈ inputs.connections, resolves g c.src = false ∨ resolves g c.dst = false

instance (inputs : OverlayInputs) : Decidable (BadReference g inputs) :=
  inferInstanceAs (Decidable (_ ∨ _))

theorem not_badReference {inputs : OverlayInputs} : ¬ BadReference g inputs ↔
    (∀ r ∈ inputs.avoid, resolves g r = true) ∧
      ∀ c ∈ inputs.connections, resolves g c.src = true ∧ resolves g c.dst = true := by
  simp [BadReference]

/-- The leg is not searched for until every reference has resolved. -/
theorem stageFrom_validates (scout : EveScoutSnapshot) (src dst : g.NodeIndex)
    (h : BadReference g query.overlay) (candidates : List g.NodeIndex) (m : Machine) :
    ∃ s, stageFrom scout query src dst candidates m = .ok (.error (.unknownSystem s), m) := by
  unfold stageFrom applyOverlay
  cases ha : assembleAvoidSet g query.overlay with
  | error e =>
    obtain ⟨s, rfl⟩ := assembleAvoidSet_error ha
    exact ⟨s, rfl⟩
  | ok avoid =>
    cases hc : resolveConnections g query.overlay with
    | error e =>
      obtain ⟨s, rfl⟩ := resolveConnections_error hc
      exact ⟨s, rfl⟩
    | ok conns =>
      exact absurd h (not_badReference.mpr
        ⟨assembleAvoidSet_ok.mp ⟨avoid, ha⟩, resolveConnections_ok.mp ⟨conns, hc⟩⟩)

/-- A bad reference is reported exactly when there is a candidate in range. -/
theorem staging_validates_iff (g : GraphData) (within : WithinUnsorted g)
    (scout : EveScoutSnapshot) (query : StagingQuery) (destOk stageOk : System → Bool)
    (onDestReject : System → AppError) (m : Machine) (src dst : g.NodeIndex)
    (hwithin : WithinExact within) (hsrc : resolveSystem g query.src = .ok src)
    (hdst : resolveSystem g query.dst = .ok dst) (hok : destOk (g.systems.get dst) = true) :
    (BadReference g query.overlay → ∃ s left,
      computeStaging within scout query destOk stageOk onDestReject m =
        .ok (.error (.unknownSystem s), left)) ↔
    ¬ BadReference g query.overlay ∨ (stagingSet g stageOk query.effectiveLy dst).Nonempty := by
  constructor
  · intro h
    by_contra hnot
    rw [not_or, not_not, Set.not_nonempty_iff_eq_empty] at hnot
    obtain ⟨s, left, hs⟩ := h hnot.1
    rw [computeStaging_none hwithin hsrc hdst hok hnot.2] at hs
    cases hs
  · intro h hbad
    have hne := h.resolve_left (not_not_intro hbad)
    obtain ⟨s, hs⟩ := stageFrom_validates scout src dst hbad
      (stagingCandidates within query.effectiveLy dst stageOk) m
    exact ⟨s, m, by rw [computeStaging_leg hwithin hsrc hdst hok hne, hs]⟩

/-- A query that avoids a system the map does not have. -/
def unknownAvoid (effectiveLy : ℚ) : StagingQuery :=
  { turnurQuery effectiveLy with overlay := { avoid := [.id 99] } }

theorem staging_validates_iff_turnur :
    (BadReference turnurStaging (unknownAvoid 8).overlay → ∃ s left,
      computeStaging (g := turnurStaging) scan {} (unknownAvoid 8) (fun _ => true)
        (fun _ => true) (fun _ => .unreachable) { clock := fun _ => 0 } =
          .ok (.error (.unknownSystem s), left)) ↔
    ¬ BadReference turnurStaging (unknownAvoid 8).overlay ∨
      (stagingSet turnurStaging (fun _ => true) 8 ⟨3, by decide⟩).Nonempty :=
  staging_validates_iff turnurStaging scan {} (unknownAvoid 8) (fun _ => true) (fun _ => true)
    (fun _ => .unreachable) { clock := fun _ => 0 } ⟨0, by decide⟩ ⟨3, by decide⟩ scan_exact
    (by decide +kernel) (by decide +kernel) rfl

/-- With nothing in range the unknown system goes unreported. -/
theorem bad_reference_unreported :
    BadReference turnurStaging (unknownAvoid 1).overlay ∧
      ∃ left, computeStaging (g := turnurStaging) scan {} (unknownAvoid 1) (fun _ => true)
        (fun _ => true) (fun _ => .unreachable) { clock := fun _ => 0 } =
          .ok (.error .noStagingInRange, left) := by
  have hrun : (computeStaging (g := turnurStaging) scan {} (unknownAvoid 1) (fun _ => true)
      (fun _ => true) (fun _ => .unreachable) { clock := fun _ => 0 }).map Prod.fst =
        .ok (.error .noStagingInRange) := by decide +kernel
  obtain ⟨⟨result, left⟩, hr, he⟩ := map_ok.mp hrun
  exact ⟨by decide +kernel, left, hr.trans (by rw [← he])⟩

end Runs

end Palu
