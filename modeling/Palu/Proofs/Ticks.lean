import Palu.Model.Reload
import Palu.Proofs.Isolation

namespace Palu

open Effects Executions

variable {w : Deployment} {s t : Server} {e : Event}

section Reload

/-- The check that an event makes. -/
def Event.checks : Event → Option Host
  | .check host => some host
  | _ => none

/-- The instant that an event stamps a reload with. -/
def Event.stamps : Event → Option Instant
  | .stamp now => some now
  | _ => none

/-- The instant of a tick's reload, if it takes over a build. -/
def tickStamp (w : Deployment) (served : Served) (poll : Poll) : List Instant :=
  match (run (checkAndRefresh w.cache w.serde poll.toHost served.graph.buildNumber) served.disk).1 with
  | .ok (.updated _ _) => [poll.reloadedAt]
  | _ => []

/-- The instants of the reloads of a run of ticks. -/
def reloadStamps (w : Deployment) (served : Served) : List Poll → List Instant
  | [] => []
  | poll :: polls =>
    tickStamp w served poll ++ reloadStamps w (reloadTick w.cache w.serde served poll) polls

/-- A tick, with the instants of the reloads up to it beside what is served. -/
def notedTick (w : Deployment) (noted : Served × List Instant) (poll : Poll) :
    Served × List Instant :=
  (reloadTick w.cache w.serde noted.1 poll, noted.2 ++ tickStamp w noted.1 poll)

theorem foldl_notedTick (w : Deployment) (served : Served) (stamps : List Instant)
    (polls : List Poll) : polls.foldl (notedTick w) (served, stamps) =
      (reloadRun w.cache w.serde served polls, stamps ++ reloadStamps w served polls) := by
  induction polls generalizing served stamps with
  | nil => simp [reloadRun, reloadStamps]
  | cons poll polls ih =>
    rw [List.foldl_cons, notedTick, ih, reloadStamps, List.append_assoc]
    rfl

/-- The server is where the ticks so far have brought it. The check of the tick under
way has found a newer build, whose graph may have been stored, but not its time. -/
inductive Reloading (w : Deployment) (s : Server) (served : Served) : Option Host → Prop where
  | between {p} (hp : s.process = some p) (hgraph : p.app.graph = served.graph)
    (hreload : p.app.lastReloadAt = served.lastReloadAt) (hdisk : s.disk = served.disk)
    (htask : p.reload = .off ∨ p.reload = .waiting ∨
      p.reload = .checking served.graph.buildNumber) :
    Reloading w s served none
  | within {p host data current} (hp : s.process = some p)
    (hreload : p.app.lastReloadAt = served.lastReloadAt)
    (hrun : run (checkAndRefresh w.cache w.serde host served.graph.buildNumber) served.disk =
      (.ok (.updated data current), s.disk))
    (htask : p.reload = .refreshed data current ∧ p.app.graph = served.graph ∨
      p.reload = .swapped ∧ p.app.graph = buildGraphData data current.buildNumber.toNat) :
    Reloading w s served (some host)

def Server.Lives (s : Server) : Prop := s.process.isSome = true

/-- What a step that makes no check is to the hot-reload task. -/
inductive ReloadStep (e : Event) (p p' : Process) : Prop where
  | none (hgraph : p'.app.graph = p.app.graph) (hreload : p'.app.lastReloadAt = p.app.lastReloadAt)
    (htask : p'.reload = p.reload) (hstamps : e.stamps = .none)
  | tick (htask : p.reload = .waiting) (htask' : p'.reload = .checking p.app.graph.buildNumber)
    (happ : p'.app = p.app) (hstamps : e.stamps = .none)
  | swap {data current} (htask : p.reload = .refreshed data current) (htask' : p'.reload = .swapped)
    (hgraph : p'.app.graph = buildGraphData data current.buildNumber.toNat)
    (hreload : p'.app.lastReloadAt = p.app.lastReloadAt) (hstamps : e.stamps = .none)
  | stamp {now} (htask : p.reload = .swapped) (htask' : p'.reload = .waiting)
    (hgraph : p'.app.graph = p.app.graph) (hreload : p'.app.lastReloadAt = some now)
    (hstamps : e.stamps = some now)

theorem Step.reloadStep {p p' : Process} (hs : Step w s e t) (hp : s.process = some p)
    (hp' : t.process = some p') (he : e.checks = none) :
    ReloadStep e p p' ∧ t.disk = s.disk := by
  cases hs with
  | start hnone => exact absurd (hnone.symm.trans hp) (by simp)
  | stop => cases hp'
  | check => cases he
  | reloadTick hq ht =>
    cases hp.symm.trans hq
    cases hp'
    exact ⟨.tick ht rfl rfl rfl, rfl⟩
  | swap hq ht =>
    cases hp.symm.trans hq
    cases hp'
    exact ⟨.swap ht rfl rfl rfl rfl, rfl⟩
  | stamp hq ht =>
    cases hp.symm.trans hq
    cases hp'
    exact ⟨.stamp ht rfl rfl rfl rfl, rfl⟩
  | poll hq | store hq | arrive hq | load hq | reply hq =>
    cases hp.symm.trans hq
    cases hp'
    exact ⟨.none rfl rfl rfl rfl, rfl⟩

theorem reloadTick_updated {served : Served} (poll : Poll) {data : RawSdeData}
    {current : CacheMetadata} {disk : Disk}
    (h : run (checkAndRefresh w.cache w.serde poll.toHost served.graph.buildNumber) served.disk =
      (.ok (.updated data current), disk)) :
    reloadTick w.cache w.serde served poll =
      { graph := buildGraphData data current.buildNumber.toNat
        lastReloadAt := some poll.reloadedAt
        disk := disk } ∧
    tickStamp w served poll = [poll.reloadedAt] := by
  rw [reloadTick, tickStamp, h]
  exact ⟨rfl, rfl⟩

/-- The notes say when the ticks that have been taken stamped their reloads. -/
def NotedReloading (w : Deployment) (s : Server × List Instant) (served : Served × List Instant)
    (o : Option Host) : Prop :=
  Reloading w s.1 served.1 o ∧ s.2 = served.2

theorem Reloading.quiet {served : Served} {o : Option Host} (hs : Step w s e t) (ht : t.Lives)
    (he : e.checks = none) (h : Reloading w s served o) :
    (Reloading w t served o ∧ e.stamps = none) ∨ ∃ poll : Poll, o = some poll.toHost ∧
      Reloading w t (reloadTick w.cache w.serde served poll) none ∧
      tickStamp w served poll = e.stamps.toList := by
  obtain ⟨p', hp'⟩ := Option.isSome_iff_exists.mp ht
  cases h with
  | @between p hp hgraph hreload hdisk htask =>
    left
    obtain ⟨hstep, hdisk'⟩ := hs.reloadStep hp hp' he
    rw [← hdisk'] at hdisk
    cases hstep with
    | none hgraph' hreload' htask' hstamps =>
      exact ⟨.between hp' (hgraph'.trans hgraph) (hreload'.trans hreload) hdisk (htask' ▸ htask),
        hstamps⟩
    | tick _ htask' happ hstamps =>
      rw [← happ] at hgraph hreload
      exact ⟨.between hp' hgraph hreload hdisk (.inr (.inr (by rw [htask', ← happ, hgraph]))), hstamps⟩
    | swap ht | stamp ht => simp [ht] at htask
  | @within p host data current hp hreload hrun htask =>
    obtain ⟨hstep, hdisk'⟩ := hs.reloadStep hp hp' he
    rw [← hdisk'] at hrun
    cases hstep with
    | none hgraph' hreload' htask' hstamps =>
      left
      exact ⟨.within hp' (hreload'.trans hreload) hrun (by rw [htask', hgraph']; exact htask), hstamps⟩
    | tick ht => simp [ht] at htask
    | swap ht htask' hgraph' hreload' hstamps =>
      left
      rcases htask with ⟨htask, _⟩ | ⟨htask, _⟩
      · cases htask.symm.trans ht
        exact ⟨.within hp' (hreload'.trans hreload) hrun (.inr ⟨htask', hgraph'⟩), hstamps⟩
      · cases htask.symm.trans ht
    | @stamp now ht htask' hgraph' hreload' hstamps =>
      right
      rcases htask with ⟨htask, _⟩ | ⟨_, hgraph⟩
      · cases htask.symm.trans ht
      · obtain ⟨htick, hstamp⟩ := reloadTick_updated { host with reloadedAt := now } hrun
        refine ⟨{ host with reloadedAt := now }, rfl, ?_, by rw [hstamp, hstamps]; rfl⟩
        apply Reloading.between hp'
        · rw [htick, hgraph', hgraph]
        · rw [htick, hreload']
        · rw [htick]
        · exact .inr (.inl htask')

/-- A check that finds no newer build is a tick of its own, whatever the time. -/
theorem Reloading.asked {served : Served} {o : Option Host} {host : Host} (hs : Step w s e t)
    (ht : t.Lives) (he : e.checks = some host) (h : Reloading w s served o) :
    e.stamps = none ∧ o = none ∧ (Reloading w t served (some host) ∨ ∃ poll : Poll,
      poll.toHost = host ∧ Reloading w t (reloadTick w.cache w.serde served poll) none ∧
      tickStamp w served poll = []) := by
  obtain ⟨p', hp'⟩ := Option.isSome_iff_exists.mp ht
  cases hs with
  | @check p currentBuild host' hp hk =>
    cases he
    cases h with
    | within hq _ _ htask =>
      cases hp.symm.trans hq
      simp [hk] at htask
    | between hq hgraph hreload hdisk htask =>
      cases hp.symm.trans hq
      refine ⟨rfl, rfl, ?_⟩
      have hbuild : currentBuild = served.graph.buildNumber := by simpa [hk] using htask
      subst hbuild
      unfold Server.checked at hp' ⊢
      unfold reloadTick tickStamp
      match hr : run (checkAndRefresh w.cache w.serde host served.graph.buildNumber) s.disk with
      | (.ok .upToDate, disk) | (.error (.error _), disk) =>
        rw [hr] at hp'
        cases hp'
        right
        refine ⟨{ host with reloadedAt := 0 }, rfl, ?_⟩
        rw [← hdisk, hr]
        exact ⟨.between rfl hgraph hreload rfl (.inr (.inl rfl)), rfl⟩
      | (.ok (.updated data current), disk) =>
        rw [hr] at hp'
        cases hp'
        left
        exact .within rfl hreload (hdisk ▸ hr) (.inl ⟨rfl, hgraph⟩)
      | (.error .crash, disk) =>
        rw [hr] at hp'
        cases hp'
  | _ => cases he

theorem reload_refines (w : Deployment) : Refines (Noting (Step w) Event.stamps)
    (fun s => s.1.Lives) Event.checks Poll.toHost (notedTick w) (NotedReloading w) where
  quiet := by
    rintro s e t served o ⟨hs, hnotes⟩ hlives he ⟨hr, hnoted⟩
    rw [hnoted] at hnotes
    rcases hr.quiet hs hlives he with ⟨hr', hstamps⟩ | ⟨poll, rfl, hr', hstamp⟩
    · refine .inl ⟨hr', ?_⟩
      rw [hnotes, hstamps, Option.toList_none, List.append_nil]
    · refine .inr ⟨poll, rfl, hr', ?_⟩
      rw [hnotes, ← hstamp]
      rfl
  asked := by
    rintro s e t served o host ⟨hs, hnotes⟩ hlives he ⟨hr, hnoted⟩
    obtain ⟨hstamps, ho, hr'⟩ := hr.asked hs hlives he
    rw [hnoted, hstamps, Option.toList_none, List.append_nil] at hnotes
    rcases hr' with hr' | ⟨poll, hpoll, hr', hstamp⟩
    · exact ⟨ho, .inl ⟨hr', hnotes⟩⟩
    · refine ⟨ho, .inr ⟨poll, hpoll, hr', ?_⟩⟩
      rw [hnotes, notedTick, hstamp, List.append_nil]

end Reload

section Scout

/-- The poll that an event makes. -/
def Event.polls : Event → Option (Response (Except String (List RawSignature)) × Instant)
  | .poll response now => some (response, now)
  | _ => none

/-- One tick of the poller, as one step. -/
def scoutTick (snap : EveScoutSnapshot)
    (poll : Response (Except String (List RawSignature)) × Instant) : EveScoutSnapshot :=
  match fetchSnapshot poll.1 poll.2 with
  | .ok fetched => fetched
  | .error _ => snap

/-- The cell is where the ticks so far have brought it. The tick under way has
fetched a snapshot and not stored it. -/
inductive Polling (s : Server) (snap : EveScoutSnapshot) :
    Option (Response (Except String (List RawSignature)) × Instant) → Prop where
  | between {p} (hp : s.process = some p) (hcell : p.app.eveScout = snap)
    (htask : p.poller = .off ∨ p.poller = .waiting) : Polling s snap none
  | within {p poll fetched} (hp : s.process = some p) (hcell : p.app.eveScout = snap)
    (hfetch : fetchSnapshot poll.1 poll.2 = .ok fetched) (htask : p.poller = .fetched fetched) :
    Polling s snap (some poll)

/-- What a step that makes no poll is to the poller. -/
inductive ScoutStep (p p' : Process) : Prop where
  | none (hcell : p'.app.eveScout = p.app.eveScout) (htask : p'.poller = p.poller)
  | store {snap} (htask : p.poller = .fetched snap) (htask' : p'.poller = .waiting)
    (hcell : p'.app.eveScout = snap)

theorem Step.scoutStep {p p' : Process} (hs : Step w s e t) (hp : s.process = some p)
    (hp' : t.process = some p') (he : e.polls = none) : ScoutStep p p' := by
  cases hs with
  | start hnone => exact absurd (hnone.symm.trans hp) (by simp)
  | stop => cases hp'
  | poll => cases he
  | check hq =>
    cases hp.symm.trans hq
    obtain ⟨task, _, rfl⟩ := Option.map_eq_some_iff.mp hp'
    exact .none rfl rfl
  | store hq ht =>
    cases hp.symm.trans hq
    cases hp'
    exact .store ht rfl rfl
  | reloadTick hq | swap hq | stamp hq | arrive hq | load hq | reply hq =>
    cases hp.symm.trans hq
    cases hp'
    exact .none rfl rfl

theorem Polling.quiet {snap : EveScoutSnapshot}
    {o : Option (Response (Except String (List RawSignature)) × Instant)} (hs : Step w s e t)
    (ht : t.Lives) (he : e.polls = none) (h : Polling s snap o) :
    Polling t snap o ∨ ∃ poll, o = some (id poll) ∧ Polling t (scoutTick snap poll) none := by
  obtain ⟨p', hp'⟩ := Option.isSome_iff_exists.mp ht
  cases h with
  | between hp hcell htask =>
    cases hs.scoutStep hp hp' he with
    | none hcell' htask' => exact .inl (.between hp' (hcell'.trans hcell) (htask' ▸ htask))
    | store ht => simp [ht] at htask
  | @within p poll fetched hp hcell hfetch htask =>
    cases hs.scoutStep hp hp' he with
    | none hcell' htask' =>
      exact .inl (.within hp' (hcell'.trans hcell) hfetch (htask'.trans htask))
    | store ht htask' hcell' =>
      cases htask.symm.trans ht
      have htick : scoutTick snap poll = fetched := by rw [scoutTick, hfetch]
      exact .inr ⟨poll, rfl, .between hp' (hcell'.trans htick.symm) (.inr htask')⟩

theorem Polling.asked {snap : EveScoutSnapshot}
    {o : Option (Response (Except String (List RawSignature)) × Instant)}
    {poll : Response (Except String (List RawSignature)) × Instant} (hs : Step w s e t)
    (he : e.polls = some poll) (h : Polling s snap o) :
    o = none ∧ (Polling t snap (some poll) ∨ ∃ poll', id poll' = poll ∧
      Polling t (scoutTick snap poll') none) := by
  cases hs with
  | @poll p response now hp ht =>
    cases he
    cases h with
    | within hq _ _ htask =>
      cases hp.symm.trans hq
      cases ht.symm.trans htask
    | between hq hcell htask =>
      cases hp.symm.trans hq
      refine ⟨rfl, ?_⟩
      cases hf : fetchSnapshot response now with
      | ok fetched => exact .inl (.within rfl hcell hf (by simp [ScoutTask.afterPoll]))
      | error e =>
        have htick : scoutTick snap (response, now) = snap := by rw [scoutTick, hf]
        refine .inr ⟨(response, now), rfl, .between rfl (hcell.trans htick.symm) (.inr ?_)⟩
        simp [ScoutTask.afterPoll]
  | _ => cases he

theorem scout_refines (w : Deployment) :
    Refines (Step w) Server.Lives Event.polls id scoutTick Polling where
  quiet := Polling.quiet
  asked hs _ := Polling.asked hs

end Scout

/-- From its start on, a server with both its tasks and any requests in between is
at every moment where whole ticks, taken one after the other, have brought it, with
their reloads at the instants that were stamped. Only the last tick of each task may
be under way. -/
theorem tasks_refine (x : Execution (Step w)) {env : Env} {graph : GraphData}
    (hstart : (x.state 0).process = some (.new env graph)) {k : ℕ} (hk : k ≤ x.length)
    (hlive : Alive x 0 k) :
    (∃ (polls : List Poll) (underWay : Option Host),
      x.heard Event.checks k = polls.map Poll.toHost ++ underWay.toList ∧
      x.heard Event.stamps k = reloadStamps w
        { graph := graph, lastReloadAt := none, disk := (x.state 0).disk } polls ∧
      Reloading w (x.state k) (reloadRun w.cache w.serde
        { graph := graph, lastReloadAt := none, disk := (x.state 0).disk } polls) underWay) ∧
    ∃ polls underWay, x.heard Event.polls k = polls ++ underWay.toList ∧
      Polling (x.state k) (polls.foldl scoutTick {}) underWay := by
  have hlives : ∀ i ≤ k, (x.state i).Lives := fun i hi => hlive i (Nat.zero_le i) hi
  constructor
  · have hnew : NotedReloading w (x.state 0, [])
        ({ graph := graph, lastReloadAt := none, disk := (x.state 0).disk }, []) none := by
      refine ⟨.between hstart rfl rfl rfl ?_, rfl⟩
      rcases Process.new_reload env graph with h | h
      · exact .inl h
      · exact .inr (.inl h)
    obtain ⟨polls, underWay, hheard, hr, hstamps⟩ :=
      (x.noting Event.stamps).refines (reload_refines w) hnew k hk hlives
    rw [foldl_notedTick] at hr hstamps
    exact ⟨polls, underWay, hheard, hstamps, hr⟩
  · have hnew : Polling (x.state 0) {} none := .between hstart rfl (Process.new_poller env graph)
    simpa using x.refines (scout_refines w) hnew k hk hlives

theorem tasks_refine_session : ∃ (x : Execution (Step twoBuildsSite)) (g : GraphData),
    x.heard Event.checks 13 = [publishes 2] ∧ x.heard Event.stamps 13 = [1780405200] ∧
    x.heard Event.polls 13 =
      [(fetchedSignatures, 1780405000), (.refused "502 Bad Gateway", 1780405600)] ∧
    (∃ (polls : List Poll) (underWay : Option Host),
      x.heard Event.checks 13 = polls.map Poll.toHost ++ underWay.toList ∧
      x.heard Event.stamps 13 = reloadStamps twoBuildsSite
        { graph := g, lastReloadAt := none, disk := (x.state 0).disk } polls ∧
      Reloading twoBuildsSite (x.state 13) (reloadRun twoBuildsSite.cache twoBuildsSite.serde
        { graph := g, lastReloadAt := none, disk := (x.state 0).disk } polls) underWay) ∧
    ∃ polls underWay, x.heard Event.polls 13 = polls ++ underWay.toList ∧
      Polling (x.state 13) (polls.foldl scoutTick {}) underWay := by
  obtain ⟨x, r, r', g, hx⟩ := exists_session
  have hlen := hx.length
  have hevent := hx.event
  let y : Execution (Step twoBuildsSite) :=
    { length := 13
      state := fun i => x.state (i + 1)
      event := fun i => x.event (i + 1)
      step := fun i hi => x.step (i + 1) (by omega) }
  refine ⟨y, g, ?_, ?_, ?_, tasks_refine y hx.started le_rfl fun i _ hi => ?_⟩
  · simp only [Execution.heard, y, hevent]
    rfl
  · simp only [Execution.heard, y, hevent]
    rfl
  · simp only [Execution.heard, y, hevent]
    rfl
  · exact hx.alive (i + 1) (by omega) (by omega)

end Palu
