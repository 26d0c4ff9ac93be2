import Palu.Model.Ships
import Palu.Proofs.Hulls
import Palu.Proofs.JumpRange

namespace Palu

open Paths Collections Tables

variable {g : GraphData} {within : WithinUnsorted g} {scout : EveScoutSnapshot}
  {query : StagingQuery} {destOk stageOk : System → Bool} {onDestReject : System → AppError}
  {response : BlopsRouteResponse} {m left : Machine}

section Success

theorem rankStaging_effectiveLy {ctx : RouteContext g} {dst : g.NodeIndex} {ly : ℚ}
    {settled : List (SettledTarget g)} (h : rankStaging ctx dst ly settled = .ok response) :
    response.effectiveLy = ly := by
  unfold rankStaging at h
  split at h
  · cases h
  · cases h
    rfl

/-- A staging that succeeds has resolved its references and accepted its target. -/
theorem resolves_of_ok (hwithin : WithinExact within)
    (h : computeStaging within scout query destOk stageOk onDestReject m =
      .ok (.ok response, left)) :
    ∃ header : StagingHeader g, header.Resolves query ∧
      destOk (g.systems.get header.dst) = true := by
  cases hsrc : resolveSystem g query.src with
  | error e =>
    simp only [computeStaging, hsrc] at h
    cases h
  | ok src =>
    cases hdst : resolveSystem g query.dst with
    | error e =>
      simp only [computeStaging, hsrc, hdst] at h
      cases h
    | ok dst =>
      cases hok : destOk (g.systems.get dst) with
      | false =>
        simp only [computeStaging, hsrc, hdst, hok] at h
        cases h
      | true =>
        have hbad : ¬ BadReference g query.overlay := by
          intro hbad
          rcases (stagingSet g stageOk query.effectiveLy dst).eq_empty_or_nonempty with he | hne
          · rw [computeStaging_none hwithin hsrc hdst hok he] at h
            cases h
          · obtain ⟨s, hs⟩ := stageFrom_validates scout src dst hbad
              (stagingCandidates within query.effectiveLy dst stageOk) m
            rw [computeStaging_leg hwithin hsrc hdst hok hne, hs] at h
            cases h
        obtain ⟨havoid, hconns⟩ := not_badReference.mp hbad
        obtain ⟨avoid, havoid⟩ := assembleAvoidSet_ok.mpr havoid
        obtain ⟨conns, hconns⟩ := resolveConnections_ok.mpr hconns
        exact ⟨⟨src, dst, avoid, conns⟩, ⟨hsrc, hdst, havoid, hconns⟩, hok⟩

/-- What a staging chose, for the references it resolved. -/
structure Staged (scout : EveScoutSnapshot) (query : StagingQuery) (stageOk : System → Bool)
    (m : Machine) (header : StagingHeader g) (star : g.NodeIndex) (alts : List g.NodeIndex)
    (response : BlopsRouteResponse) : Prop where
  effectiveLy : response.effectiveLy = query.effectiveLy
  choice : ∃ path, StagingChoice (stagingContext scout query header (m.clock m.reads)) header.src
    header.dst (reachable (stagingContext scout query header (m.clock m.reads)) header.src
      (stagingSet g stageOk query.effectiveLy header.dst)) star path alts response

theorem staged_of_ok (hwithin : WithinExact within) {header : StagingHeader g}
    (hh : header.Resolves query) (hok : destOk (g.systems.get header.dst) = true)
    (h : computeStaging within scout query destOk stageOk onDestReject m =
      .ok (.ok response, left)) :
    ∃ star alts, Staged scout query stageOk m header star alts response := by
  obtain ⟨result, left', hrun, hexact⟩ := computeStaging_exact scout stageOk onDestReject
    hwithin hh hok m
  obtain ⟨rfl, rfl⟩ := Prod.mk.inj (Except.ok.inj (h.symm.trans hrun))
  obtain ⟨star, path, alts, hchoice⟩ := hexact.choice response rfl
  refine ⟨star, alts, ?_, path, hchoice⟩
  have hne : (stagingSet g stageOk query.effectiveLy header.dst).Nonempty :=
    ⟨star, hchoice.star_mem.1⟩
  obtain ⟨_, hgives⟩ := stageFrom_gives scout hh
    (stagingCandidates within query.effectiveLy header.dst stageOk) m
  have hleg : computeStaging within scout query destOk stageOk onDestReject m = _ :=
    computeStaging_leg hwithin hh.src hh.dst hok hne m
  rw [← hleg, h] at hgives
  exact rankStaging_effectiveLy (Prod.mk.inj (Except.ok.inj hgives)).1.symm

end Success

section Longer
variable {ctx : RouteContext g} {src dst : g.NodeIndex} {C D R S : Set g.NodeIndex}
  {ly ly' : ℚ}

theorem stagingSet_mono (hly : 0 ≤ ly) (hle : ly ≤ ly') :
    stagingSet g stageOk ly dst ⊆ stagingSet g stageOk ly' dst := by
  intro s ⟨hne, hw, hd, hok⟩
  refine ⟨hne, hw, hd.trans ?_, hok⟩
  rw [abs_of_nonneg hly, abs_of_nonneg (hly.trans hle)]
  exact_mod_cast hle

theorem reachable_mono (h : C ⊆ D) : reachable ctx src C ⊆ reachable ctx src D :=
  fun _ ⟨hs, hp⟩ => ⟨h hs, hp⟩

theorem StagingChoice.rank_eq {star : g.NodeIndex} {path : Path g} {alts : List g.NodeIndex}
    (h : StagingChoice ctx src dst R star path alts response) :
    stagingRank ctx src dst star = toLex (response.chosen.gateJumps, lyToB dst star) := by
  rw [stagingRank, ← h.answer.eq_best, h.gateJumps]
  rfl

/-- With more to choose from, what is chosen ranks no worse. -/
theorem StagingChoice.rank_le {star star' : g.NodeIndex} {path path' : Path g}
    {alts alts' : List g.NodeIndex} {response' : BlopsRouteResponse}
    (h : StagingChoice ctx src dst R star path alts response)
    (h' : StagingChoice ctx src dst S star' path' alts' response') (hRS : R ⊆ S) :
    toLex (response'.chosen.gateJumps, lyToB dst star') ≤
      toLex (response.chosen.gateJumps, lyToB dst star) := by
  rw [← h.rank_eq, ← h'.rank_eq]
  exact h'.star_least star (hRS h.star_mem)

/-- The rank is kept when distances are rounded. -/
theorem rounded_rank_le {j j' : ℕ} {r r' : Root} (h : toLex (j', r') ≤ toLex (j, r)) :
    toLex (j', round2 r') ≤ toLex (j, round2 r) := by
  rw [Prod.Lex.toLex_le_toLex] at h ⊢
  exact h.imp_right fun ⟨hj, hr⟩ => ⟨hj, round2_mono hr⟩

/-- The query, at another range. -/
def StagingQuery.ranged (query : StagingQuery) (ly : ℚ) : StagingQuery :=
  { query with effectiveLy := ly }

theorem StagingHeader.Resolves.ranged {header : StagingHeader g} (h : header.Resolves query)
    (ly : ℚ) : header.Resolves (query.ranged ly) :=
  ⟨h.src, h.dst, h.avoid, h.connections⟩

/-- A staging at a longer range, beside the one at a shorter range. -/
structure NoWorse (within : WithinUnsorted g) (scout : EveScoutSnapshot) (query : StagingQuery)
    (stageOk : System → Bool) (m : Machine) (header : StagingHeader g) (ly ly' : ℚ)
    (response response' : BlopsRouteResponse) : Prop where
  ranked : ∃ star alts star' alts',
    Staged scout (query.ranged ly) stageOk m header star alts response ∧
    Staged scout (query.ranged ly') stageOk m header star' alts' response' ∧
    toLex (response'.chosen.gateJumps, lyToB header.dst star') ≤
      toLex (response.chosen.gateJumps, lyToB header.dst star)
  reported : toLex (response'.chosen.gateJumps, response'.chosen.bridge.jumpLy) ≤
    toLex (response.chosen.gateJumps, response.chosen.bridge.jumpLy)
  settled : ∀ scratch, ∃ settled settled' rest rest',
    shortestPathMulti (stagingContext scout query header (m.clock m.reads)) header.src
      (stagingCandidates within ly header.dst stageOk) scratch = .ok (settled, rest) ∧
    shortestPathMulti (stagingContext scout query header (m.clock m.reads)) header.src
      (stagingCandidates within ly' header.dst stageOk) scratch = .ok (settled', rest') ∧
    (∀ t ∈ settled, t ∈ settled') ∧
    ∀ t ∈ settled, ∀ t' ∈ settled', t'.node = t.node → t' = t

/-- A settled target is settled alike among more targets. -/
theorem settledTargets_mono {targets targets' : List g.NodeIndex}
    (h : ∀ s ∈ targets, s ∈ targets') :
    (∀ t ∈ settledTargets ctx src targets, t ∈ settledTargets ctx src targets') ∧
      ∀ t ∈ settledTargets ctx src targets, ∀ t' ∈ settledTargets ctx src targets',
        t'.node = t.node → t' = t := by
  constructor
  · intro t ht
    obtain ⟨hm, hp, hj⟩ := mem_settledTargets.mp ht
    exact mem_settledTargets.mpr ⟨h _ hm, hp, hj⟩
  · intro t ht t' ht' hnode
    obtain ⟨_, hp, hj⟩ := mem_settledTargets.mp ht
    obtain ⟨_, hp', hj'⟩ := mem_settledTargets.mp ht'
    rw [hnode, hp] at hp'
    have hpath : t'.path = t.path := (Option.some.inj hp').symm
    obtain ⟨node, jumps, path⟩ := t
    obtain ⟨node', jumps', path'⟩ := t'
    simp only at hnode hpath hj hj'
    subst hnode hpath
    rw [hj, hj']

theorem staging_longer (hwithin : WithinExact within) (hly : 0 ≤ ly) (hle : ly ≤ ly')
    (h : computeStaging within scout (query.ranged ly) destOk stageOk onDestReject m =
      .ok (.ok response, left)) :
    ∃ (header : StagingHeader g) (response' : BlopsRouteResponse) (left' : Machine),
      header.Resolves query ∧
      computeStaging within scout (query.ranged ly') destOk stageOk onDestReject m =
        .ok (.ok response', left') ∧
      NoWorse within scout query stageOk m header ly ly' response response' := by
  obtain ⟨header, hh, hok⟩ := resolves_of_ok hwithin h
  have hquery : header.Resolves query := ⟨hh.src, hh.dst, hh.avoid, hh.connections⟩
  have hh' := hquery.ranged ly'
  obtain ⟨star, alts, hstaged⟩ := staged_of_ok hwithin hh hok h
  obtain ⟨path, hchoice⟩ := hstaged.choice
  have hsub : reachable (stagingContext scout query header (m.clock m.reads)) header.src
      (stagingSet g stageOk ly header.dst) ⊆ reachable _ header.src
        (stagingSet g stageOk ly' header.dst) :=
    reachable_mono (stagingSet_mono hly hle)
  obtain ⟨result, left', hrun, hexact⟩ := computeStaging_exact scout stageOk onDestReject
    hwithin hh' hok m
  obtain ⟨response', rfl⟩ := hexact.chosen.mp ⟨star, hsub hchoice.star_mem⟩
  obtain ⟨star', alts', hstaged'⟩ := staged_of_ok hwithin hh' hok hrun
  obtain ⟨path', hchoice'⟩ := hstaged'.choice
  have hrank := hchoice.rank_le hchoice' hsub
  refine ⟨header, response', left', hquery, hrun,
    ⟨star, alts, star', alts', hstaged, hstaged', hrank⟩, ?_, fun scratch => ?_⟩
  · rw [hchoice.jumpLy, hchoice'.jumpLy]
    exact rounded_rank_le hrank
  · obtain ⟨rest, hrest⟩ := shortestPathMulti_eq
      (stagingContext scout query header (m.clock m.reads)) header.src
      (stagingCandidates within ly header.dst stageOk) scratch
    obtain ⟨rest', hrest'⟩ := shortestPathMulti_eq
      (stagingContext scout query header (m.clock m.reads)) header.src
      (stagingCandidates within ly' header.dst stageOk) scratch
    refine ⟨_, _, rest, rest', hrest, hrest', settledTargets_mono fun s hs => ?_⟩
    rw [mem_stagingCandidates hwithin] at hs ⊢
    exact stagingSet_mono hly hle hs

/-- A longer range never loses an answer. -/
theorem longer_range_keeps (g : GraphData) (within : WithinUnsorted g) (scout : EveScoutSnapshot)
    (query : StagingQuery) (destOk stageOk : System → Bool) (onDestReject : System → AppError)
    (m : Machine) (ly ly' : ℚ) (hwithin : WithinExact within) (hly : 0 ≤ ly) (hle : ly ≤ ly') :
    (∀ source hull jdcLevel, ∃ nodes nodes',
      FanOutExact source ly nodes (computeReachable within source hull jdcLevel ly) ∧
      FanOutExact source ly' nodes' (computeReachable within source hull jdcLevel ly') ∧
      (∀ s ∈ nodes, s ∈ nodes') ∧
      (∀ r ∈ (computeReachable within source hull jdcLevel ly).reachable,
        r ∈ (computeReachable within source hull jdcLevel ly').reachable) ∧
      ∀ s ∈ nodes', s ∉ nodes → ∀ t ∈ nodes,
        (lyToB source t).toReal < (lyToB source s).toReal) ∧
    ∀ response left,
      computeStaging within scout (query.ranged ly) destOk stageOk onDestReject m =
        .ok (.ok response, left) →
      ∃ (header : StagingHeader g) (response' : BlopsRouteResponse) (left' : Machine),
        header.Resolves query ∧
        computeStaging within scout (query.ranged ly') destOk stageOk onDestReject m =
          .ok (.ok response', left') ∧
        NoWorse within scout query stageOk m header ly ly' response response' := by
  constructor
  · intro source hull jdcLevel
    have hexact := fanOutExact hwithin hly source hull jdcLevel
    have hexact' := fanOutExact hwithin (hly.trans hle) source hull jdcLevel
    have hsub : ∀ s ∈ fanOut within source ly, s ∈ fanOut within source ly' := by
      intro s hs
      obtain ⟨hne, hw, hsec, hd⟩ := (hexact.mem s).mp hs
      exact (hexact'.mem s).mpr ⟨hne, hw, hsec, hd.trans (by exact_mod_cast hle)⟩
    refine ⟨_, _, hexact, hexact', hsub, ?_, ?_⟩
    · rw [hexact.listed, hexact'.listed]
      intro r hr
      obtain ⟨s, hs, rfl⟩ := List.mem_map.mp hr
      exact List.mem_map_of_mem (hsub s hs)
    · intro s hs hnew t ht
      obtain ⟨hne, hw, hsec, _⟩ := (hexact'.mem s).mp hs
      have hfar : ¬ (lyToB source s).toReal ≤ ly :=
        fun hd => hnew ((hexact.mem s).mpr ⟨hne, hw, hsec, lyToB_toReal source s ▸ hd⟩)
      have hnear := ((hexact.mem t).mp ht).2.2.2
      rw [← lyToB_toReal] at hnear
      exact hnear.trans_lt (not_le.mp hfar)
  · intro response left h
    exact staging_longer hwithin hly hle h

theorem longer_range_keeps_turnur :
    (∀ source hull jdcLevel, ∃ nodes nodes',
      FanOutExact (g := turnurStaging) source 5 nodes
        (computeReachable scan source hull jdcLevel 5) ∧
      FanOutExact source 8 nodes' (computeReachable scan source hull jdcLevel 8) ∧
      (∀ s ∈ nodes, s ∈ nodes') ∧
      (∀ r ∈ (computeReachable scan source hull jdcLevel 5).reachable,
        r ∈ (computeReachable scan source hull jdcLevel 8).reachable) ∧
      ∀ s ∈ nodes', s ∉ nodes → ∀ t ∈ nodes,
        (lyToB source t).toReal < (lyToB source s).toReal) ∧
    ∀ response left,
      computeStaging (g := turnurStaging) scan {} ((turnurQuery 0).ranged 5) (fun _ => true)
        (fun _ => true) (fun _ => .unreachable) { clock := fun _ => 0 } =
          .ok (.ok response, left) →
      ∃ (header : StagingHeader turnurStaging) (response' : BlopsRouteResponse)
        (left' : Machine), header.Resolves (turnurQuery 0) ∧
        computeStaging (g := turnurStaging) scan {} ((turnurQuery 0).ranged 8) (fun _ => true)
          (fun _ => true) (fun _ => .unreachable) { clock := fun _ => 0 } =
            .ok (.ok response', left') ∧
        NoWorse scan {} (turnurQuery 0) (fun _ => true) { clock := fun _ => 0 } header 5 8
          response response' :=
  longer_range_keeps turnurStaging scan {} (turnurQuery 0) (fun _ => true) (fun _ => true)
    (fun _ => .unreachable) { clock := fun _ => 0 } 5 8 scan_exact (by norm_num) (by norm_num)

end Longer

section Reported
variable {ctx : RouteContext g} {src dst star : g.NodeIndex} {R : Set g.NodeIndex}
  {path : Path g} {alts : List g.NodeIndex} {ly : ℚ}

/-- No distance of a range response is past its range. -/
def RangeResponse.Within (response : RangeResponse) : Prop :=
  (∀ r ∈ response.reachable, r.jumpLy ≤ response.effectiveLy) ∧
    response.summary.farthestLy ≤ response.effectiveLy

theorem computeReachable_within_iff (hwithin : WithinExact within) (source : g.NodeIndex)
    (hull : RangeHull) (jdcLevel : ℕ) (hly : 0 ≤ ly) :
    (computeReachable within source hull jdcLevel ly).Within ↔
      ∀ s, s ≠ source → (g.systems.get s).isWormhole = false →
        (g.systems.get s).secClass ≠ .highsec → (lyToB source s).toReal ≤ ly →
        ¬ RoundsPast ly (lyToB source s) := by
  have hexact := fanOutExact hwithin hly source hull jdcLevel
  have hlist : (∀ r ∈ (computeReachable within source hull jdcLevel ly).reachable,
      r.jumpLy ≤ ly) ↔ ∀ s ∈ fanOut within source ly, ¬ RoundsPast ly (lyToB source s) := by
    rw [hexact.listed, List.forall_mem_map]
    exact forall₂_congr fun s _ => round2_le_iff
  have hfar : (∀ r ∈ (computeReachable within source hull jdcLevel ly).reachable,
      r.jumpLy ≤ ly) → (computeReachable within source hull jdcLevel ly).summary.farthestLy ≤ ly := by
    intro hall
    by_cases hnil : (computeReachable within source hull jdcLevel ly).reachable = []
    · rw [hexact.farthest_nil hnil]
      exact hly
    · obtain ⟨r, hr, he⟩ := (hexact.farthest hnil).1
      rw [← he]
      exact hall r hr
  constructor
  · intro h s hne hw hsec hd
    rw [lyToB_toReal] at hd
    exact hlist.mp h.1 s ((hexact.mem s).mpr ⟨hne, hw, hsec, hd⟩)
  · intro h
    have hall := hlist.mpr fun s hs => by
      obtain ⟨hne, hw, hsec, hd⟩ := (hexact.mem s).mp hs
      rw [← lyToB_toReal] at hd
      exact h s hne hw hsec hd
    exact ⟨hall, hfar hall⟩

/-- No distance of a staging response is past its range. -/
def BlopsRouteResponse.Within (response : BlopsRouteResponse) : Prop :=
  response.chosen.bridge.jumpLy ≤ response.effectiveLy ∧
    ∀ a ∈ response.alternates, a.lyToB ≤ response.effectiveLy

/-- The candidates a response shows: those with few enough ranked before them,
or the source alone where it is one of them. -/
def shown (ctx : RouteContext g) (src dst : g.NodeIndex) (R : Set g.NodeIndex) :
    Set g.NodeIndex :=
  {s | s ∈ R ∧ (src ∈ R → s = src) ∧
    {t | t ∈ R ∧ stagingRank ctx src dst t < stagingRank ctx src dst s}.ncard ≤ MAX_ALTERNATES}

theorem lyToB_eq_of_rank {s t : g.NodeIndex}
    (h : stagingRank ctx src dst s = stagingRank ctx src dst t) : lyToB dst s = lyToB dst t :=
  congrArg (fun r => (ofLex r).2) h

namespace StagingChoice

theorem gateJumps_iff (h : StagingChoice ctx src dst R star path alts response) :
    response.chosen.gateJumps = 0 ↔ src ∈ R := by
  constructor
  · intro hj
    exact h.eq_src hj ▸ h.star_mem
  · exact h.gateJumps_eq_zero

theorem star_shown (h : StagingChoice ctx src dst R star path alts response) :
    star ∈ shown ctx src dst R := by
  refine ⟨h.star_mem, fun hsrc => h.eq_src (h.gateJumps_eq_zero hsrc), ?_⟩
  have hnone : {t | t ∈ R ∧ stagingRank ctx src dst t < stagingRank ctx src dst star} = ∅ := by
    apply Set.eq_empty_iff_forall_notMem.mpr
    intro t ⟨ht, hlt⟩
    exact not_le.mpr hlt (h.star_least t ht)
  rw [hnone, Set.ncard_empty]
  exact Nat.zero_le _

theorem alts_shown (h : StagingChoice ctx src dst R star path alts response)
    (hsrc : src ∉ R) : ∀ a ∈ alts, a ∈ shown ctx src dst R := by
  intro a ha
  refine ⟨(h.alts_mem a ha).1, fun hs => absurd hs hsrc, ?_⟩
  -- What ranks before an alternate is the star or another alternate.
  have hsub : {t | t ∈ R ∧ stagingRank ctx src dst t < stagingRank ctx src dst a} ⊆
      ((star :: alts.erase a).toFinset : Set g.NodeIndex) := by
    intro t ⟨ht, hlt⟩
    rw [Finset.mem_coe, List.mem_toFinset, List.mem_cons]
    by_cases hstar : t = star
    · exact .inl hstar
    · have hmem : t ∈ alts := by
        by_contra hnot
        exact not_le.mpr hlt (h.alts_least t ht hstar hnot a ha)
      refine .inr ((List.mem_erase_of_ne ?_).mpr hmem)
      intro he
      rw [he] at hlt
      exact lt_irrefl _ hlt
  calc {t | t ∈ R ∧ stagingRank ctx src dst t < stagingRank ctx src dst a}.ncard
      ≤ ((star :: alts.erase a).toFinset : Set g.NodeIndex).ncard := Set.ncard_le_ncard hsub
    _ ≤ (star :: alts.erase a).length := by
        rw [Set.ncard_coe_finset]
        exact List.toFinset_card_le _
    _ = alts.length := by
        rw [List.length_cons, List.length_erase_of_mem ha]
        exact Nat.succ_pred_eq_of_pos (List.length_pos_of_mem ha)
    _ ≤ MAX_ALTERNATES := by
        rw [h.alts_length]
        exact min_le_left _ _

/-- The star and its alternates are as many systems. -/
theorem named_le_ncard (h : StagingChoice ctx src dst R star path alts response)
    {T : Set g.NodeIndex} (hT : ∀ t ∈ star :: alts, t ∈ T) : alts.length + 1 ≤ T.ncard := by
  have hnodup : (star :: alts).Nodup :=
    List.nodup_cons.mpr ⟨fun hm => (h.alts_mem star hm).2 rfl, h.alts_nodup⟩
  have hsub : ((star :: alts).toFinset : Set g.NodeIndex) ⊆ T := fun t ht =>
    hT t (List.mem_toFinset.mp ht)
  have hcard := Set.ncard_le_ncard hsub
  rwa [Set.ncard_coe_finset, List.toFinset_card_of_nodup hnodup] at hcard

/-- What is shown is named in the response, or lies as far out as one that is. -/
theorem shown_named (h : StagingChoice ctx src dst R star path alts response) {s : g.NodeIndex}
    (hs : s ∈ shown ctx src dst R) :
    ∃ t, lyToB dst t = lyToB dst s ∧ (t = star ∨ t ∈ alts ∧ src ∉ R) := by
  obtain ⟨hR, hsrc, hfew⟩ := hs
  by_cases hin : src ∈ R
  · refine ⟨star, ?_, .inl rfl⟩
    rw [hsrc hin, h.eq_src (h.gateJumps_eq_zero hin)]
  by_cases hstar : s = star
  · exact ⟨s, rfl, .inl hstar⟩
  by_cases hmem : s ∈ alts
  · exact ⟨s, rfl, .inr ⟨hmem, hin⟩⟩
  -- Otherwise one of those named must tie with it, or too many come before it.
  by_contra hnone
  simp only [not_exists, not_and] at hnone
  have hlt : ∀ t ∈ star :: alts, t ∈ R ∧
      stagingRank ctx src dst t < stagingRank ctx src dst s := by
    intro t ht
    rcases List.mem_cons.mp ht with rfl | ht
    · refine ⟨h.star_mem, lt_of_le_of_ne (h.star_least s hR) fun he => ?_⟩
      exact hnone t (lyToB_eq_of_rank he) (.inl rfl)
    · refine ⟨(h.alts_mem t ht).1, lt_of_le_of_ne (h.alts_least s hR hstar hmem t ht) fun he => ?_⟩
      exact hnone t (lyToB_eq_of_rank he) (.inr ⟨ht, hin⟩)
  have hbefore := (h.named_le_ncard hlt).trans hfew
  have hwhole : alts.length + 2 ≤ R.ncard := by
    have hrest : alts.length + 1 ≤ (R \ {s}).ncard := h.named_le_ncard fun t ht =>
      ⟨(hlt t ht).1, fun he => lt_irrefl _ (Set.mem_singleton_iff.mp he ▸ (hlt t ht).2)⟩
    rw [Set.ncard_sdiff_singleton_of_mem hR] at hrest
    omega
  have hlen := h.alts_length
  rw [min_def] at hlen
  split at hlen <;> omega

theorem lyToB_alternates (h : StagingChoice ctx src dst R star path alts response) :
    response.alternates.map BlopsCandidate.lyToB =
      (if response.chosen.gateJumps = 0 then [] else alts).map fun a => round2 (lyToB dst a) := by
  rw [← List.forall₂_eq_eq_eq, List.forall₂_map_left_iff, List.forall₂_map_right_iff]
  exact h.alternates.flip.imp fun _ _ hshows => hshows.lyToB

theorem within_iff (h : StagingChoice ctx src dst R star path alts response)
    (hly : response.effectiveLy = ly) :
    response.Within ↔ ∀ s ∈ shown ctx src dst R, ¬ RoundsPast ly (lyToB dst s) := by
  have halternates : (∀ a ∈ response.alternates, a.lyToB ≤ ly) ↔
      ∀ a ∈ if response.chosen.gateJumps = 0 then [] else alts, round2 (lyToB dst a) ≤ ly := by
    rw [← List.forall_mem_map (f := BlopsCandidate.lyToB) (P := (· ≤ ly)), h.lyToB_alternates,
      List.forall_mem_map]
  unfold BlopsRouteResponse.Within
  rw [hly, h.jumpLy, halternates]
  constructor
  · intro ⟨hstar, halts⟩ s hs
    obtain ⟨t, ht, hnamed⟩ := h.shown_named hs
    rw [← ht]
    rcases hnamed with rfl | ⟨hmem, hsrc⟩
    · exact round2_le_iff.mp hstar
    · rw [if_neg (h.gateJumps_iff.not.mpr hsrc)] at halts
      exact round2_le_iff.mp (halts _ hmem)
  · intro hall
    refine ⟨round2_le_iff.mpr (hall star h.star_shown), ?_⟩
    split
    · simp
    · rename_i hj
      intro a ha
      exact round2_le_iff.mpr (hall a (h.alts_shown (h.gateJumps_iff.not.mp hj) a ha))

end StagingChoice

/-- A staging shows no distance past its range exactly when no candidate it
shows is rounded past it. -/
theorem computeStaging_within_iff (scout : EveScoutSnapshot) (query : StagingQuery)
    (destOk stageOk : System → Bool) (onDestReject : System → AppError) (m : Machine)
    (hwithin : WithinExact within) :
    (∀ response left, computeStaging within scout query destOk stageOk onDestReject m =
        .ok (.ok response, left) → response.Within) ↔
      ∀ header : StagingHeader g, header.Resolves query →
        destOk (g.systems.get header.dst) = true →
        ∀ s ∈ shown (stagingContext scout query header (m.clock m.reads)) header.src header.dst
            (reachable (stagingContext scout query header (m.clock m.reads)) header.src
              (stagingSet g stageOk query.effectiveLy header.dst)),
          ¬ RoundsPast query.effectiveLy (lyToB header.dst s) := by
  constructor
  · intro h header hh hok s hs
    obtain ⟨result, left, hrun, hexact⟩ := computeStaging_exact scout stageOk onDestReject
      hwithin hh hok m
    obtain ⟨response, rfl⟩ := hexact.chosen.mp ⟨s, hs.1⟩
    obtain ⟨star, alts, hstaged⟩ := staged_of_ok hwithin hh hok hrun
    obtain ⟨path, hchoice⟩ := hstaged.choice
    exact (hchoice.within_iff hstaged.effectiveLy).mp (h response left hrun) s hs
  · intro h response left hrun
    obtain ⟨header, hh, hok⟩ := resolves_of_ok hwithin hrun
    obtain ⟨star, alts, hstaged⟩ := staged_of_ok hwithin hh hok hrun
    obtain ⟨path, hchoice⟩ := hstaged.choice
    exact (hchoice.within_iff hstaged.effectiveLy).mpr (h header hh hok)

/-- Reported distances stay in range exactly where none of those reported is
rounded past it. -/
theorem reported_within_iff (g : GraphData) (within : WithinUnsorted g)
    (hwithin : WithinExact within) :
    (∀ source hull jdcLevel ly, 0 ≤ ly →
      ((computeReachable within source hull jdcLevel ly).Within ↔
        ∀ s, s ≠ source → (g.systems.get s).isWormhole = false →
          (g.systems.get s).secClass ≠ .highsec → (lyToB source s).toReal ≤ ly →
          ¬ RoundsPast ly (lyToB source s))) ∧
    ∀ scout query destOk stageOk onDestReject m,
      ((∀ response left, computeStaging within scout query destOk stageOk onDestReject m =
          .ok (.ok response, left) → response.Within) ↔
        ∀ header : StagingHeader g, header.Resolves query →
          destOk (g.systems.get header.dst) = true →
          ∀ s ∈ shown (stagingContext scout query header (m.clock m.reads)) header.src header.dst
              (reachable (stagingContext scout query header (m.clock m.reads)) header.src
                (stagingSet g stageOk query.effectiveLy header.dst)),
            ¬ RoundsPast query.effectiveLy (lyToB header.dst s)) :=
  ⟨fun source hull jdcLevel _ hly =>
      computeReachable_within_iff hwithin source hull jdcLevel hly,
    fun scout query destOk stageOk onDestReject m =>
      computeStaging_within_iff scout query destOk stageOk onDestReject m hwithin⟩

theorem reported_within_iff_turnur :
    (∀ source hull jdcLevel ly, 0 ≤ ly →
      ((computeReachable (g := turnurStaging) scan source hull jdcLevel ly).Within ↔
        ∀ s, s ≠ source → (turnurStaging.systems.get s).isWormhole = false →
          (turnurStaging.systems.get s).secClass ≠ .highsec → (lyToB source s).toReal ≤ ly →
          ¬ RoundsPast ly (lyToB source s))) ∧
    ∀ scout query destOk stageOk onDestReject m,
      ((∀ response left, computeStaging (g := turnurStaging) scan scout query destOk stageOk
          onDestReject m = .ok (.ok response, left) → response.Within) ↔
        ∀ header : StagingHeader turnurStaging, header.Resolves query →
          destOk (turnurStaging.systems.get header.dst) = true →
          ∀ s ∈ shown (stagingContext scout query header (m.clock m.reads)) header.src header.dst
              (reachable (stagingContext scout query header (m.clock m.reads)) header.src
                (stagingSet turnurStaging stageOk query.effectiveLy header.dst)),
            ¬ RoundsPast query.effectiveLy (lyToB header.dst s)) :=
  reported_within_iff turnurStaging scan scan_exact

/-- Two systems as far apart as a hull of 3.333 light-years jumps at level five. -/
def edgeOfRange : GraphData := gateChain [(1, .lowsec, 0), (2, .lowsec, 6666 / 1000)]

def edgeQuery : StagingQuery where
  src := .id 1
  dst := .id 2
  effectiveLy := effectiveLy (3333 / 1000) (1 / 5) 5
  overlay := {}
  preference := .shortest

def edgeNode : edgeOfRange.NodeIndex := ⟨0, by decide⟩

/-- Both services report 6.67 light-years beside a range of 6.666. -/
theorem reported_past_range :
    ¬ (computeReachable scan edgeNode ⟨"Sin", 22430, 3333 / 1000⟩ 5
        (effectiveLy (3333 / 1000) (1 / 5) 5)).Within ∧
      ∃ response left, computeStaging (g := edgeOfRange) scan {} edgeQuery blopsDestOk
          blopsStageOk blopsDestReject { clock := fun _ => 0 } = .ok (.ok response, left) ∧
        ¬ response.Within := by
  constructor
  · have hfar : (computeReachable scan edgeNode ⟨"Sin", 22430, 3333 / 1000⟩ 5
        (effectiveLy (3333 / 1000) (1 / 5) 5)).summary.farthestLy = 667 / 100 := by
      decide +kernel
    intro h
    have hle := h.2
    rw [hfar] at hle
    revert hle
    decide +kernel
  · have hrun : (computeStaging (g := edgeOfRange) scan {} edgeQuery blopsDestOk blopsStageOk
        blopsDestReject { clock := fun _ => 0 }).map (fun r => r.1.map fun response =>
          (response.chosen.bridge.jumpLy, response.effectiveLy)) =
        .ok (.ok (667 / 100, 6666 / 1000)) := by
      decide +kernel
    obtain ⟨⟨result, left⟩, hr, hok⟩ := map_ok.mp hrun
    obtain ⟨response, rfl, hpair⟩ := map_ok.mp hok
    obtain ⟨hjump, hly⟩ := Prod.mk.inj hpair
    refine ⟨response, left, hr, fun h => ?_⟩
    have hle := h.1
    rw [hjump, hly] at hle
    norm_num at hle

end Reported

section Defaults
variable {raw : RawHullCatalog} {ship : ShipRef} {hull : HullEntry} {jdcLevel : ℕ}

theorem effectiveLy_mono {base base' bonus : ℚ} (hbonus : 0 ≤ bonus) (h : base ≤ base')
    (jdcLevel : ℕ) : effectiveLy base bonus jdcLevel ≤ effectiveLy base' bonus jdcLevel :=
  mul_le_mul_of_nonneg_right h (by positivity)

theorem effectiveLy_nonneg {base bonus : ℚ} (hbonus : 0 ≤ bonus) (h : 0 ≤ base) (jdcLevel : ℕ) :
    0 ≤ effectiveLy base bonus jdcLevel :=
  mul_nonneg h (by positivity)

theorem mem_of_resolveHull (hcatalog : g.hulls = .fromRaw raw)
    (h : resolveHull g ship = .ok hull) : ∃ r ∈ raw.hulls, r.entry = hull := by
  cases ship with
  | id id =>
    simp only [resolveHull, hcatalog] at h
    split at h
    · rename_i entry he
      cases h
      exact HullCatalog.mem_of_byTypeId he
    · cases h
  | name name =>
    simp only [resolveHull, hcatalog] at h
    split at h
    · rename_i entry he
      cases h
      exact HullCatalog.mem_of_byName he
    · cases h

theorem resolveEffectiveLy_ship (hjdc : 1 ≤ jdcLevel ∧ jdcLevel ≤ 5)
    (h : resolveHull g ship = .ok hull) :
    resolveEffectiveLy g (some ship) jdcLevel =
      .ok (effectiveLy hull.baseLy g.hulls.bonusPerLevel jdcLevel, false) := by
  simp only [resolveEffectiveLy, validateJdcLevel, if_pos hjdc, h]
  rfl

theorem resolveEffectiveLy_default {base : ℚ} (hjdc : 1 ≤ jdcLevel ∧ jdcLevel ≤ 5)
    (h : g.hulls.minBaseLyForGroup BLOPS_GROUP_ID = some base) :
    resolveEffectiveLy g none jdcLevel =
      .ok (effectiveLy base g.hulls.bonusPerLevel jdcLevel, true) := by
  simp only [resolveEffectiveLy, validateJdcLevel, if_pos hjdc, h]
  rfl

/-- The default range is no longer than that of a Black Ops hull. -/
theorem default_range_le (hcatalog : g.hulls = .fromRaw raw)
    (hbonus : 0 ≤ raw.jdcBonusPerLevel.getD 0) (hbases : ∀ h ∈ raw.hulls, 0 ≤ h.baseLy)
    (hjdc : 1 ≤ jdcLevel ∧ jdcLevel ≤ 5) (hship : resolveHull g ship = .ok hull)
    (hgroup : hull.groupId = BLOPS_GROUP_ID) :
    ∃ ly ly', resolveEffectiveLy g none jdcLevel = .ok (ly, true) ∧
      resolveEffectiveLy g (some ship) jdcLevel = .ok (ly', false) ∧ 0 ≤ ly ∧ ly ≤ ly' := by
  obtain ⟨r, hr, rfl⟩ := mem_of_resolveHull hcatalog hship
  obtain ⟨base, hbase, hle, worst, hworst, rfl⟩ := HullCatalog.minBaseLy_le hr
  have hdefault : g.hulls.minBaseLyForGroup BLOPS_GROUP_ID = some worst.baseLy := by
    rw [← hgroup, hcatalog]
    exact hbase
  have hbonus' : 0 ≤ g.hulls.bonusPerLevel := by
    rw [hcatalog]
    exact hbonus
  exact ⟨_, _, resolveEffectiveLy_default hjdc hdefault, resolveEffectiveLy_ship hjdc hship,
    effectiveLy_nonneg hbonus' (hbases worst hworst) jdcLevel,
    effectiveLy_mono hbonus' hle jdcLevel⟩

/-- What is staged at a range lies within a longer one. -/
theorem Staged.inRange {header : StagingHeader g} {star : g.NodeIndex} {alts : List g.NodeIndex}
    {ly ly' : ℚ} (h : Staged scout (query.ranged ly) stageOk m header star alts response)
    (hly : 0 ≤ ly) (hle : ly ≤ ly') :
    (lyToB header.dst star).toReal ≤ ly' ∧ ∀ a ∈ alts, (lyToB header.dst a).toReal ≤ ly' := by
  obtain ⟨path, hchoice⟩ := h.choice
  have hfar : ∀ s ∈ stagingSet g stageOk ly header.dst, (lyToB header.dst s).toReal ≤ ly' := by
    intro s hs
    have hd := hs.2.2.1
    rw [abs_of_nonneg hly] at hd
    exact hd.trans (by exact_mod_cast hle)
  exact ⟨hfar star hchoice.star_mem.1, fun a ha => hfar a (hchoice.alts_mem a ha).1.1⟩

/-- The default ship is conservative: what it stages, any Black Ops hull reaches. -/
theorem default_ship_conservative (g : GraphData) (within : WithinUnsorted g)
    (raw : RawHullCatalog) (jdcLevel : ℕ) (ship : ShipRef) (hull : HullEntry)
    (hwithin : WithinExact within) (hcatalog : g.hulls = .fromRaw raw)
    (hbonus : 0 ≤ raw.jdcBonusPerLevel.getD 0) (hbases : ∀ h ∈ raw.hulls, 0 ≤ h.baseLy)
    (hjdc : 1 ≤ jdcLevel ∧ jdcLevel ≤ 5) (hship : resolveHull g ship = .ok hull)
    (hgroup : hull.groupId = BLOPS_GROUP_ID) :
    ∃ ly ly', resolveEffectiveLy g none jdcLevel = .ok (ly, true) ∧
      resolveEffectiveLy g (some ship) jdcLevel = .ok (ly', false) ∧ ly ≤ ly' ∧
      ∀ scout query destOk stageOk onDestReject m response left,
        computeStaging within scout (query.ranged ly) destOk stageOk onDestReject m =
          .ok (.ok response, left) →
        (∃ (header : StagingHeader g) (star : g.NodeIndex) (alts : List g.NodeIndex),
          header.Resolves query ∧
          Staged scout (query.ranged ly) stageOk m header star alts response ∧
          (lyToB header.dst star).toReal ≤ ly' ∧
          ∀ a ∈ alts, (lyToB header.dst a).toReal ≤ ly') ∧
        ∃ response' left',
          computeStaging within scout (query.ranged ly') destOk stageOk onDestReject m =
            .ok (.ok response', left') := by
  obtain ⟨ly, ly', hdefault, hnamed, hly, hle⟩ :=
    default_range_le hcatalog hbonus hbases hjdc hship hgroup
  refine ⟨ly, ly', hdefault, hnamed, hle, ?_⟩
  intro scout query destOk stageOk onDestReject m response left h
  obtain ⟨header, response', left', hh, hrun, hnoworse⟩ := staging_longer hwithin hly hle h
  obtain ⟨star, alts, _, _, hstaged, _, _⟩ := hnoworse.ranked
  exact ⟨⟨header, star, alts, hh, hstaged, hstaged.inRange hly hle⟩, response', left', hrun⟩

/-- Two Black Ops hulls of different range. -/
def blopsHulls : RawHullCatalog where
  hulls := [⟨22430, "Sin", BLOPS_GROUP_ID, 4⟩, ⟨44996, "Marshal", BLOPS_GROUP_ID, 7 / 2⟩]
  jdcBonusPerLevel := some (1 / 5)

def blopsMap : GraphData := { turnurStaging with hulls := .fromRaw blopsHulls }

theorem default_ship_conservative_sin :
    ∃ ly ly', resolveEffectiveLy blopsMap none 5 = .ok (ly, true) ∧
      resolveEffectiveLy blopsMap (some (.id 22430)) 5 = .ok (ly', false) ∧ ly ≤ ly' ∧
      ∀ scout query destOk stageOk onDestReject m response left,
        computeStaging (g := blopsMap) scan scout (query.ranged ly) destOk stageOk onDestReject m =
          .ok (.ok response, left) →
        (∃ (header : StagingHeader blopsMap) (star : blopsMap.NodeIndex)
            (alts : List blopsMap.NodeIndex), header.Resolves query ∧
          Staged scout (query.ranged ly) stageOk m header star alts response ∧
          (lyToB header.dst star).toReal ≤ ly' ∧
          ∀ a ∈ alts, (lyToB header.dst a).toReal ≤ ly') ∧
        ∃ response' left',
          computeStaging (g := blopsMap) scan scout (query.ranged ly') destOk stageOk
            onDestReject m = .ok (.ok response', left') :=
  default_ship_conservative blopsMap scan blopsHulls 5 (.id 22430) ⟨"Sin", 22430, 4, BLOPS_GROUP_ID⟩
    scan_exact rfl (by decide +kernel) (by decide +kernel) (by decide) (by decide +kernel) rfl

end Defaults

/-- The staging problem of a request, at a range. -/
def BlopsRouteRequest.stagingQuery (req : BlopsRouteRequest) (ly : ℚ) : StagingQuery where
  src := req.src
  dst := req.dst
  effectiveLy := ly
  overlay := req.overlay
  preference := req.preference.toPreference

end Palu
