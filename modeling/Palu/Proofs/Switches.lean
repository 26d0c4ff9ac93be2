import Palu.Proofs.Provenance

namespace Palu

open Effects Executions

variable {w : Deployment} {s t : Server} {e : Event} {p p' started : Process} {env : Env}
  {graph : GraphData} {disk : Disk}

section Switches

/-- There is no hot reload: a directory is served, or the interval is zero. -/
def HotReloadOff (env : Env) : Prop :=
  (resolveSdeDir env).isSome = true ∨ sdeReloadInterval env = none

theorem HotReloadOff.new (h : HotReloadOff env) (graph : GraphData) :
    (Process.new env graph).reload = .off := by
  simp only [Process.new]
  rcases h with h | h
  · rw [h]
  · rw [h]
    cases (resolveSdeDir env).isSome <;> rfl

theorem poller_new_off (h : eveScoutInterval env = none) (graph : GraphData) :
    (Process.new env graph).poller = .off := by
  simp only [Process.new]
  rw [h]

/-- A process without hot reload as it was started, but for its handlers and, unless
the poller is off as well, the signatures. -/
structure Unchanged (started : Process) (disk : Disk) (s : Server) : Prop where
  disk : s.disk = disk
  process : ∃ p, s.process = some p ∧ p.reload = .off ∧ p.app.graph = started.app.graph ∧
    p.app.lastReloadAt = started.app.lastReloadAt ∧
    (started.poller = .off → p.poller = .off ∧ p.app.eveScout = started.app.eveScout)

/-- No party changes it while it lives. -/
theorem Step.unchanged (hs : Step w s e t) (hp' : t.process = some p')
    (h : Unchanged started disk s) : Unchanged started disk t := by
  obtain ⟨hdisk, p, hp, hoff, hgraph, hreload, hscout⟩ := h
  have hchecks : e.checks = none := by
    cases hs with
    | check hq ht =>
      cases hp.symm.trans hq
      cases hoff.symm.trans ht
    | _ => rfl
  obtain ⟨hstep, hsame⟩ := hs.reloadStep hp hp' hchecks
  have hscout' : started.poller = .off →
      p'.poller = .off ∧ p'.app.eveScout = started.app.eveScout := by
    intro hstarted
    obtain ⟨hpoller, hcell⟩ := hscout hstarted
    have hpolls : e.polls = none := by
      cases hs with
      | poll hq ht =>
        cases hp.symm.trans hq
        cases hpoller.symm.trans ht
      | _ => rfl
    cases hs.scoutStep hp hp' hpolls with
    | none hcell' htask => exact ⟨htask.trans hpoller, hcell'.trans hcell⟩
    | store htask => cases hpoller.symm.trans htask
  cases hstep with
  | none hgraph' hreload' htask =>
    exact ⟨hsame.trans hdisk, p', hp', htask.trans hoff, hgraph'.trans hgraph,
      hreload'.trans hreload, hscout'⟩
  | tick htask | swap htask | stamp htask => cases hoff.symm.trans htask

end Switches

section Runs
variable {x : Execution (Step w)} {k id worker : ℕ} {clock : ℕ → Instant} {reply : Reply}

/-- The process was started at the moment `b`, and is unchanged since. -/
structure Settled (x : Execution (Step w)) (k b : ℕ) (env : Env) (files : String → Option Bytes)
    (data : RawSdeData) (current : CacheMetadata) (disk : Disk) : Prop where
  before : b < k
  stopped : (x.state b).process = none
  start : ∃ host, x.event b = .start env files host ∧
    run (loadSde w env files host) (x.state b).disk = (.ok (data, current), disk)
  since : ∀ m, b < m → m ≤ k →
    Unchanged (.new env (buildGraphData data current.buildNumber.toNat)) disk (x.state m)

theorem settled (hstart : (x.state 0).process = none) : ∀ k ≤ x.length, ∀ p,
    (x.state k).process = some p → HotReloadOff p.env →
      ∃ b files data current disk, Settled x k b p.env files data current disk := by
  apply x.along (I := fun k s => ∀ p, s.process = some p → HotReloadOff p.env →
    ∃ b files data current disk, Settled x k b p.env files data current disk)
  · intro p hp
    exact absurd (hstart.symm.trans hp) (by simp)
  · intro k hk ih p' hp' hoff
    have hs := x.step k hk
    rcases hs.alive hp' with ⟨p, hp, henv⟩ | ⟨env, files, host, he, hnone, data, current, disk, hrun,
      hdisk, rfl⟩
    · rw [henv] at hoff ⊢
      obtain ⟨b, files, data, current, disk, hb⟩ := ih p hp hoff
      refine ⟨b, files, data, current, disk, Nat.lt_succ_of_lt hb.before, hb.stopped, hb.start, ?_⟩
      intro m hbm hm
      rcases Nat.lt_or_eq_of_le hm with hm | rfl
      · exact hb.since m hbm (Nat.le_of_lt_succ hm)
      · exact hs.unchanged hp' (hb.since k hb.before le_rfl)
    · refine ⟨k, files, data, current, disk, Nat.lt_succ_self k, hnone, ⟨host, he, hrun⟩, ?_⟩
      intro m hkm hm
      obtain rfl : m = k + 1 := le_antisymm hm hkm
      exact ⟨hdisk, _, hp', hoff.new _, rfl, rfl, fun hpoller => ⟨hpoller, rfl⟩⟩

/-- What is loaded from a directory is what its files say, and the cache is left alone. -/
theorem loadSde_dir {files : String → Option Bytes} {host : Host} {dir : String}
    {data : RawSdeData} {current : CacheMetadata} {d : Disk} (hdir : resolveSdeDir env = some dir)
    (h : run (loadSde w env files host) d = (.ok (data, current), disk)) :
    disk = d ∧ loadFiles w.serde.toRowDecoder files = .ok data ∧ current.buildNumber = 0 := by
  rw [loadSde, hdir] at h
  have h := run_context_ok.mp h
  cases hl : loadFromDir w.serde.toRowDecoder dir files host.fetchedAt with
  | error e =>
    rw [hl] at h
    cases h
  | ok loaded =>
    rw [hl] at h
    cases h
    unfold loadFromDir at hl
    split at hl
    · cases hl
    · obtain ⟨data', hdata, hl⟩ := Collections.bind_ok.mp hl
      cases hl
      exact ⟨rfl, hdata, rfl⟩

theorem Settled.cells {b m : ℕ} {files : String → Option Bytes} {data : RawSdeData}
    {current : CacheMetadata} (h : Settled x k b env files data current disk) (hb : b < m)
    (hm : m ≤ k) {A : AppState} (hA : (x.state m).app? = some A) :
    A.graph = buildGraphData data current.buildNumber.toNat ∧ A.lastReloadAt = none ∧
      (eveScoutInterval env = none → A.eveScout = {}) := by
  obtain ⟨p, hp, _, hgraph, hreload, hscout⟩ := (h.since m hb hm).process
  rw [Server.app?, hp] at hA
  cases hA
  exact ⟨hgraph, hreload, fun hoff => (hscout (poller_new_off hoff _)).2⟩

/-- A process without hot reload answers every request of its life on the map that it
loaded at its start, and no reload time. Without the poller it knows no signatures.
When it serves a directory, the map is what the files there say, and the process
leaves the cache as it was. -/
theorem switched_off_replies (x : Execution (Step w)) (hstart : (x.state 0).process = none)
    (hk : k < x.length) (he : x.event k = .reply id worker clock reply)
    (hp : (x.state k).process = some p) (hoff : HotReloadOff p.env) :
    ∃ b files host data current disk, b < k ∧ x.event b = .start p.env files host ∧
      run (loadSde w p.env files host) (x.state b).disk = (.ok (data, current), disk) ∧
      (∀ m, b < m → m ≤ k → (x.state m).disk = disk) ∧
      (∀ dir, resolveSdeDir p.env = some dir → disk = (x.state b).disk ∧
        loadFiles w.serde.toRowDecoder files = .ok data ∧ current.buildNumber = 0) ∧
      ∃ req, (∃ a, b < a ∧ a < k ∧ x.event a = .arrive req ∧ (x.state a).arrived = id) ∧
        ∃ scout, (eveScoutInterval p.env = none → scout = {}) ∧
          Answers w p.env clock (buildGraphData data current.buildNumber.toNat) none scout req
            reply := by
  obtain ⟨b, files, data, current, disk, hb⟩ := settled hstart k hk.le p hp hoff
  obtain ⟨host, hevent, hrun⟩ := hb.start
  obtain ⟨req, a, i, l, j, hx⟩ := replies_answered x hstart hk he
  obtain ⟨hai, hil, hlj, hjk⟩ := hx.order
  -- The process lives from the request on, and there was none at its start.
  have hba : b < a := by
    by_contra hle
    have hlive := hx.alive b (not_lt.mp hle) hb.before.le
    rw [hb.stopped] at hlive
    cases hlive
  obtain ⟨q, A, B, C, hq, hA, hB, hC, hanswers⟩ := hx.answers
  cases hp.symm.trans hq
  obtain ⟨hgraph, _, _⟩ := hb.cells (by omega) (by omega) hA
  obtain ⟨_, hreload, _⟩ := hb.cells (by omega) (by omega) hB
  obtain ⟨_, _, hscout⟩ := hb.cells (by omega) hjk hC
  rw [hgraph, hreload] at hanswers
  exact ⟨b, files, host, data, current, disk, hb.before, hevent, hrun,
    fun m hbm hm => (hb.since m hbm hm).disk, fun dir hdir => loadSde_dir hdir hrun, req,
    ⟨a, hba, by omega, hx.came⟩, C.eveScout, hscout, hanswers⟩

/-- A directory is served, and no signatures are fetched. -/
def offlineEnv (key : String) : Option String :=
  if key = "PALU_SDE_DIR" then some "/sde"
  else if key = "PALU_EVE_SCOUT_INTERVAL_SECS" then some "0"
  else none

def offlineStart : Event :=
  .start offlineEnv (fun file => some (twoBuildsContent 2 file)) (publishes 1)

theorem switched_off_replies_offline : ∃ (x : Execution (Step twoBuildsSite)) (p : Process)
    (r : Reply), x.event 0 = offlineStart ∧ x.event 3 = .reply 0 0 (fun _ => 0) r ∧
      r.lists [30002813, 30002537] ∧ (x.state 3).process = some p ∧ p.env = offlineEnv ∧
      ∃ b files host data current disk, b < 3 ∧ x.event b = .start p.env files host ∧
        run (loadSde twoBuildsSite p.env files host) (x.state b).disk =
          (.ok (data, current), disk) ∧
        (∀ m, b < m → m ≤ 3 → (x.state m).disk = disk) ∧
        (∀ dir, resolveSdeDir p.env = some dir → disk = (x.state b).disk ∧
          loadFiles twoBuildsSite.serde.toRowDecoder files = .ok data ∧ current.buildNumber = 0) ∧
        ∃ req, (∃ a, b < a ∧ a < 3 ∧ x.event a = .arrive req ∧ (x.state a).arrived = 0) ∧
          ∃ scout, (eveScoutInterval p.env = none → scout = {}) ∧
            Answers twoBuildsSite p.env (fun _ => 0)
              (buildGraphData data current.buildNumber.toNat) none scout req r := by
  let load := loadSde twoBuildsSite offlineEnv (fun file => some (twoBuildsContent 2 file))
    (publishes 1)
  have hzero : (run load notesDisk).1.map (fun r => idsInRange r.1 r.2.buildNumber) =
      .ok (.ok [30002813, 30002537]) := by decide +kernel
  obtain ⟨⟨data, current⟩, hok, hids⟩ := Collections.map_ok.mp hzero
  obtain ⟨disk, hdisk⟩ : ∃ disk, disk = (run load notesDisk).2 := ⟨_, rfl⟩
  have hload : run load notesDisk = (.ok (data, current), disk) := Prod.ext hok hdisk.symm
  obtain ⟨s₁, h₀, hp₁, ha₁⟩ : ∃ s₁, Step twoBuildsSite { disk := notesDisk } offlineStart s₁ ∧
      s₁.process = some (.new offlineEnv (buildGraphData data current.buildNumber.toNat)) ∧
      s₁.arrived = 0 :=
    ⟨_, .start_of_run rfl hload, rfl, rfl⟩
  obtain ⟨s₂, s₃, s₄, p₂, p₄, r, h₁, h₂, h₃, hp₂, _, hp₃, _, hr, _⟩ :=
    serves_range (w := twoBuildsSite) hp₁
  have hlists : r.lists [30002813, 30002537] := by
    rw [hr]
    exact lists_of_idsInRange hids
  rw [ha₁] at h₂ h₃
  let x : Execution (Step twoBuildsSite) :=
    { length := 4
      state := fun i => [⟨notesDisk, none, 0⟩, s₁, s₂, s₃].getD i s₄
      event := fun i => [offlineStart, .arrive (.routeRange askRange), .load 0,
        .reply 0 0 (fun _ => 0) r].getD i .stop
      step := by
        intro i hi
        interval_cases i
        exacts [h₀, h₁, h₂, h₃] }
  have hlen : x.length = 4 := rfl
  obtain ⟨p, hp⟩ := Option.isSome_iff_exists.mp hp₃
  have hlive : Alive x 1 3 := by
    intro i hi hi'
    interval_cases i
    exacts [by rw [show (x.state 1).process = _ from hp₁]; rfl,
      by rw [show (x.state 2).process = _ from hp₂]; rfl, hp₃]
  have henv : p.env = offlineEnv := hlive.env (by omega) (by omega) hp₁ hp
  refine ⟨x, p, r, rfl, rfl, hlists, hp, henv, ?_⟩
  exact switched_off_replies x rfl (by omega) rfl hp (.inl (by rw [henv]; decide +kernel))

end Runs

end Palu
