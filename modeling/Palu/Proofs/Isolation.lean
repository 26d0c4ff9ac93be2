import Palu.Executions
import Palu.Proofs.CrashSafety
import Palu.Proofs.Serving
import Palu.Proofs.Staging

namespace Palu

open Effects Executions

variable {w : Deployment} {s t : Server} {e : Event} {p p' : Process} {id : ℕ} {req : Request}
  {h h' : Handling}

/-- The cells of the running process. -/
def Server.app? (s : Server) : Option AppState := s.process.map Process.app

section Steps

theorem Process.new_reload (env : Env) (graph : GraphData) :
    (Process.new env graph).reload = .off ∨ (Process.new env graph).reload = .waiting := by
  simp only [Process.new]
  split <;> simp

theorem Process.new_not_refreshed (env : Env) (graph : GraphData) (data : RawSdeData)
    (current : CacheMetadata) : (Process.new env graph).reload ≠ .refreshed data current := by
  rcases Process.new_reload env graph with h | h <;> simp [h]

theorem Process.new_poller (env : Env) (graph : GraphData) :
    (Process.new env graph).poller = .off ∨ (Process.new env graph).poller = .waiting := by
  simp only [Process.new]
  split <;> simp

/-- A step that leaves a process behind has found it there, unless it started it. -/
theorem Step.alive (hs : Step w s e t) (ht : t.process = some p') :
    (∃ p, s.process = some p ∧ p'.env = p.env) ∨
      ∃ env files host, e = .start env files host ∧ s.process = none ∧
        ∃ data current disk, run (loadSde w env files host) s.disk = (.ok (data, current), disk) ∧
          t.disk = disk ∧ p' = .new env (buildGraphData data current.buildNumber.toNat) := by
  cases hs with
  | @start env files host hp =>
    right
    refine ⟨env, files, host, rfl, hp, ?_⟩
    unfold Server.started at ht ⊢
    match hr : run (loadSde w env files host) s.disk with
    | (.ok (data, current), disk) =>
      rw [hr] at ht
      exact ⟨data, current, disk, rfl, rfl, (Option.some.inj ht).symm⟩
    | (.error reason, disk) =>
      rw [hr] at ht
      exact absurd (hp.symm.trans ht) (by simp)
  | stop => cases ht
  | @check p currentBuild host hp hk =>
    left
    refine ⟨p, hp, ?_⟩
    obtain ⟨task, _, rfl⟩ := Option.map_eq_some_iff.mp ht
    rfl
  | reloadTick hp | swap hp | stamp hp | poll hp | store hp | arrive hp | load hp | reply hp =>
    cases ht
    exact .inl ⟨_, hp, rfl⟩

/-- A handler is new, or was there and has loaded one cell at most. -/
theorem Step.inFlight (hs : Step w s e t) (ht : t.process = some p')
    (hh : p'.handling id = some (req, h')) :
    (e = .arrive req ∧ s.arrived = id ∧ h' = .entered ∧ s.process.isSome) ∨
      ∃ p h, s.process = some p ∧ p.handling id = some (req, h) ∧
        (h = h' ∨ h.load p.app req = some h') := by
  cases hs with
  | @start env files host hp =>
    unfold Server.started at ht
    split at ht
    · cases ht
      cases hh
    · exact absurd (hp.symm.trans ht) (by simp)
  | stop => cases ht
  | @check p currentBuild host hp hk =>
    obtain ⟨task, _, rfl⟩ := Option.map_eq_some_iff.mp ht
    exact .inr ⟨p, h', hp, hh, .inl rfl⟩
  | @arrive p req' hp =>
    cases ht
    dsimp only at hh
    by_cases hid : id = s.arrived
    · subst hid
      rw [Function.update_self] at hh
      cases hh
      exact .inl ⟨rfl, rfl, rfl, by simp [hp]⟩
    · rw [Function.update_of_ne hid] at hh
      exact .inr ⟨p, h', hp, hh, .inl rfl⟩
  | @load p id' req' h h'' hp hl hload =>
    cases ht
    dsimp only at hh
    by_cases hid : id = id'
    · subst hid
      rw [Function.update_self] at hh
      cases hh
      exact .inr ⟨p, h, hp, hl, .inr hload⟩
    · rw [Function.update_of_ne hid] at hh
      exact .inr ⟨p, h', hp, hh, .inl rfl⟩
  | @reply p id' worker clock req' h rest answer left hp hl =>
    cases ht
    dsimp only at hh
    by_cases hid : id = id'
    · subst hid
      rw [Function.update_self] at hh
      cases hh
    · rw [Function.update_of_ne hid] at hh
      exact .inr ⟨p, h', hp, hh, .inl rfl⟩
  | reloadTick hp | swap hp | stamp hp | poll hp | store hp =>
    cases ht
    exact .inr ⟨_, h', hp, hh, .inl rfl⟩

theorem Step.replied {worker : ℕ} {clock : ℕ → Instant} {reply : Reply}
    (hs : Step w s (.reply id worker clock reply) t) : ∃ p req h rest left,
      s.process = some p ∧ p.handling id = some (req, h) ∧
      h.respond w.within p.env req = some rest ∧
      rest { scratch := p.scratch worker, clock := clock } = .ok (reply, left) := by
  cases hs with
  | reply hp hh hr hx => exact ⟨_, _, _, _, _, hp, hh, hr, hx⟩

end Steps

section Moments
variable (x : Execution (Step w))

/-- The process lives from the moment `a` to the moment `k`. -/
def Alive (a k : ℕ) : Prop := ∀ i, a ≤ i → i ≤ k → (x.state i).process.isSome = true

/-- What a handler has loaded is out of these cells. -/
def Handling.Holds (graph : GraphData) (lastReloadAt : Option Instant) (scout : EveScoutSnapshot) :
    Handling → Prop
  | .entered => True
  | .withGraph g => g = graph
  | .withReload g reload => g = graph ∧ reload = lastReloadAt
  | .withScout g sc => g = graph ∧ sc = scout
  | .withAll g reload sc => g = graph ∧ reload = lastReloadAt ∧ sc = scout

/-- The request came at the moment `a`, and its handler holds the graph of the
moment `i`, the time of the moment `l` and the signatures of the moment `j`. -/
structure Loaded (k id : ℕ) (req : Request) (h : Handling) (a i l j : ℕ) : Prop where
  came : x.event a = .arrive req ∧ (x.state a).arrived = id
  order : a < i ∧ i ≤ l ∧ l ≤ j ∧ j ≤ k
  alive : Alive x a k
  holds : ∃ A B C, (x.state i).app? = some A ∧ (x.state l).app? = some B ∧
    (x.state j).app? = some C ∧ h.Holds A.graph B.lastReloadAt C.eveScout

variable {x} {a k i l j : ℕ}

theorem Alive.succ (hlive : Alive x a k) (hp : (x.state (k + 1)).process = some p) :
    Alive x a (k + 1) := by
  intro i ha hi
  rcases Nat.lt_or_eq_of_le hi with hi | rfl
  · exact hlive i ha (Nat.le_of_lt_succ hi)
  · simp [hp]

/-- A load takes the next cell as it is at that moment, and leaves the others. -/
theorem Loaded.load (hl : Loaded x k id req h a i l j) (hp : (x.state k).process = some p)
    (hload : h.load p.app req = some h') : ∃ i l j, Loaded x k id req h' a i l j := by
  obtain ⟨hcame, ⟨hai, hil, hlj, hjk⟩, hlive, A, B, C, hA, hB, hC, hholds⟩ := hl
  have happ : (x.state k).app? = some p.app := by simp [Server.app?, hp]
  unfold Handling.load at hload
  split at hload
  · cases hload
    exact ⟨k, k, k, hcame, by omega, hlive, _, _, _, happ, happ, happ, rfl⟩
  · cases hload
    exact ⟨i, k, k, hcame, by omega, hlive, _, _, _, hA, happ, happ, hholds, rfl⟩
  · cases hload
    exact ⟨i, k, k, hcame, by omega, hlive, _, _, _, hA, happ, happ, hholds, rfl⟩
  · cases hload
    exact ⟨i, k, k, hcame, by omega, hlive, _, _, _, hA, happ, happ, hholds, rfl⟩
  · cases hload
    exact ⟨i, l, k, hcame, by omega, hlive, _, _, _, hA, hB, happ, hholds.1, hholds.2, rfl⟩
  · cases hload

theorem Loaded.later (hl : Loaded x k id req h a i l j)
    (hp : (x.state (k + 1)).process = some p) : Loaded x (k + 1) id req h a i l j := by
  obtain ⟨hai, hil, hlj, hjk⟩ := hl.order
  exact ⟨hl.came, by omega, hl.alive.succ hp, hl.holds⟩

theorem Loaded.entered (he : x.event k = .arrive req) (hid : (x.state k).arrived = id)
    (hlive : (x.state k).process.isSome = true) (hp : (x.state (k + 1)).process = some p) :
    Loaded x (k + 1) id req .entered k (k + 1) (k + 1) (k + 1) := by
  have happ : (x.state (k + 1)).app? = some p.app := by simp [Server.app?, hp]
  refine ⟨⟨he, hid⟩, by omega, ?_, _, _, _, happ, happ, happ, trivial⟩
  apply Alive.succ _ hp
  intro i hki hik
  rw [le_antisymm hik hki]
  exact hlive

/-- In every state, what the handlers hold was in the cells since their requests came. -/
theorem handlers_loaded (hstart : (x.state 0).process = none) : ∀ k ≤ x.length, ∀ p,
    (x.state k).process = some p → ∀ id req h, p.handling id = some (req, h) →
      ∃ a i l j, Loaded x k id req h a i l j := by
  apply x.along (I := fun k s => ∀ p, s.process = some p → ∀ id req h,
    p.handling id = some (req, h) → ∃ a i l j, Loaded x k id req h a i l j)
  · intro p hp
    exact absurd (hstart.symm.trans hp) (by simp)
  · intro k hk ih p' hp' id req h' hh'
    rcases (x.step k hk).inFlight hp' hh' with ⟨he, hid, rfl, hlive⟩ | ⟨p, h, hp, hh, hnext⟩
    · exact ⟨_, _, _, _, .entered he hid hlive hp'⟩
    · obtain ⟨a, i, l, j, hl⟩ := ih p hp id req h hh
      rcases hnext with rfl | hload
      · exact ⟨a, i, l, j, hl.later hp'⟩
      · obtain ⟨i, l, j, hl⟩ := hl.load hp hload
        exact ⟨a, i, l, j, hl.later hp'⟩

/-- The reply is the answer on the graph of the moment `i`, the time of the moment
`l` and the signatures of the moment `j`, all since the request came at `a`. -/
structure Answered (x : Execution (Step w)) (k id : ℕ) (clock : ℕ → Instant) (reply : Reply)
    (req : Request) (a i l j : ℕ) : Prop where
  came : x.event a = .arrive req ∧ (x.state a).arrived = id
  order : a < i ∧ i ≤ l ∧ l ≤ j ∧ j ≤ k
  alive : Alive x a k
  answers : ∃ p A B C, (x.state k).process = some p ∧ (x.state i).app? = some A ∧
    (x.state l).app? = some B ∧ (x.state j).app? = some C ∧
    Answers w p.env clock A.graph B.lastReloadAt C.eveScout req reply

theorem respond_answers {env : Env} {graph : GraphData} {lastReloadAt : Option Instant}
    {scout : EveScoutSnapshot} {rest : Run Reply} {scratch : DijkstraScratch}
    {clock : ℕ → Instant} {left : Machine} {reply : Reply}
    (hr : h.respond w.within env req = some rest)
    (hx : rest { scratch := scratch, clock := clock } = .ok (reply, left))
    (hholds : h.Holds graph lastReloadAt scout) :
    Answers w env clock graph lastReloadAt scout req reply := by
  unfold Handling.respond at hr
  split at hr
  · cases hr
    obtain ⟨rfl, rfl⟩ := hholds
    obtain ⟨resp, left', hrun, rfl⟩ := (computeGateRoute_steady _ _ _).of_map hx
    exact .routeSystem hrun
  · cases hr
    obtain ⟨rfl, rfl⟩ := hholds
    obtain ⟨resp, left', hrun, rfl⟩ := (routeBlops_steady _ _ _).of_map hx
    exact .routeBlops hrun
  · cases hr
    cases hholds
    cases hx
    exact .routeRange
  · cases hr
    obtain ⟨rfl, rfl, rfl⟩ := hholds
    cases hx
    exact .health
  · cases hr

theorem replies_answered (x : Execution (Step w)) (hstart : (x.state 0).process = none) {k : ℕ}
    (hk : k < x.length) {worker : ℕ} {clock : ℕ → Instant} {reply : Reply}
    (he : x.event k = .reply id worker clock reply) :
    ∃ req a i l j, Answered x k id clock reply req a i l j := by
  have hs := x.step k hk
  rw [he] at hs
  obtain ⟨p, req, h, rest, left, hp, hh, hr, hx⟩ := hs.replied
  obtain ⟨a, i, l, j, hl⟩ := handlers_loaded hstart k hk.le p hp id req h hh
  obtain ⟨A, B, C, hA, hB, hC, hholds⟩ := hl.holds
  exact ⟨req, a, i, l, j, hl.came, hl.order, hl.alive, p, A, B, C, hp, hA, hB, hC,
    respond_answers hr hx hholds⟩

/-- While the process lives, its environment is that of its start. -/
theorem Alive.env {a b : ℕ} (hlive : Alive x a b) (hab : a ≤ b) (hb : b ≤ x.length)
    (hp : (x.state a).process = some p) (hp' : (x.state b).process = some p') : p'.env = p.env := by
  have hkeep : (x.state a).process.map Process.env = (x.state b).process.map Process.env := by
    apply x.stretch (r := fun s t => s.process.map Process.env = t.process.map Process.env)
      (fun _ => rfl) (fun _ _ _ => Eq.trans) hab
    intro i hi hib
    obtain ⟨q, hq⟩ := Option.isSome_iff_exists.mp (hlive i hi hib.le)
    obtain ⟨q', hq'⟩ := Option.isSome_iff_exists.mp (hlive (i + 1) (by omega) hib)
    rcases (x.step i (by omega)).alive hq' with ⟨p, hp, henv⟩ | ⟨_, _, _, _, hnone, _⟩
    · cases hq.symm.trans hp
      simp [hq, hq', henv]
    · exact absurd (hnone.symm.trans hq) (by simp)
  simpa [hp, hp'] using hkeep.symm

/-- The graph is loaded from the process that replies. -/
theorem Answered.loading {clock : ℕ → Instant} {reply : Reply} {a i l j : ℕ}
    (hx : Answered x k id clock reply req a i l j) (hk : k ≤ x.length)
    (hp : (x.state k).process = some p) :
    ∃ q, (x.state i).process = some q ∧ (x.state i).app? = some q.app ∧ q.env = p.env := by
  obtain ⟨hai, hil, hlj, hjk⟩ := hx.order
  obtain ⟨q, hq⟩ := Option.isSome_iff_exists.mp (hx.alive i (by omega) (by omega))
  have hlive : Alive x i k := fun m hi hm => hx.alive m (by omega) hm
  exact ⟨q, hq, by simp [Server.app?, hq], (hlive.env (by omega) hk hq hp).symm⟩

end Moments

section Session

theorem Step.start_of_run {env : Env}
    {files : String → Option Bytes} {host : Host} {data : RawSdeData} {current : CacheMetadata}
    {disk : Disk} (hp : s.process = none)
    (h : run (loadSde w env files host) s.disk = (.ok (data, current), disk)) :
    Step w s (.start env files host) { s with
      disk := disk
      process := some (.new env (buildGraphData data current.buildNumber.toNat)) } := by
  have hs : Step w s (.start env files host) _ := .start hp
  rwa [Server.started, h] at hs

theorem Step.check_of_run {b : ℕ} {host : Host}
    {r : Except (Stop Trace) RefreshOutcome} {disk : Disk} (hp : s.process = some p)
    (ht : p.reload = .checking b)
    (h : run (checkAndRefresh w.cache w.serde host b) s.disk = (r, disk)) :
    Step w s (.check host) { s with
      disk := disk
      process := (ReloadTask.afterCheck r).map fun task => { p with reload := task } } := by
  have hs : Step w s (.check host) _ := .check hp ht
  rwa [Server.checked, h] at hs

/-- A server that serves one of two builds, and searches by a full scan. -/
def twoBuildsSite : Deployment := ⟨⟨"/cache"⟩, twoBuildsSerde, fun _ => scan⟩

def publishes (build : UInt64) : Host := twoBuildsHost (fun _ => .done) build

def askRange : RangeRequest := ⟨.id 30000142, .name "Sin", 5⟩

/-- A request for what is in range comes and is answered. -/
theorem serves_range (hp : s.process = some p) :
    ∃ s₁ s₂ t p₁ p' r, Step w s (.arrive (.routeRange askRange)) s₁ ∧
      Step w s₁ (.load s.arrived) s₂ ∧ Step w s₂ (.reply s.arrived 0 (fun _ => 0) r) t ∧
      s₁.process = some p₁ ∧ p₁.handling s.arrived = some (.routeRange askRange, .entered) ∧
      s₂.process.isSome = true ∧ t.process = some p' ∧
      r = .routeRange (routeRange (w.within p.app.graph) askRange) ∧ p'.app = p.app ∧
      p'.env = p.env ∧ p'.reload = p.reload ∧ p'.poller = p.poller ∧ t.disk = s.disk ∧
      t.arrived = s.arrived + 1 := by
  obtain ⟨s₁, p₁, h₁, hp₁, hh₁, hsame₁⟩ : ∃ s₁ p₁, Step w s (.arrive (.routeRange askRange)) s₁ ∧
      s₁.process = some p₁ ∧ p₁.handling s.arrived = some (.routeRange askRange, .entered) ∧
      p₁.app = p.app ∧ p₁.env = p.env ∧ p₁.reload = p.reload ∧ p₁.poller = p.poller ∧
      s₁.disk = s.disk ∧ s₁.arrived = s.arrived + 1 :=
    ⟨_, _, .arrive hp, rfl, Function.update_self .., rfl, rfl, rfl, rfl, rfl, rfl⟩
  obtain ⟨s₂, p₂, h₂, hp₂, hh₂, hsame₂⟩ : ∃ s₂ p₂, Step w s₁ (.load s.arrived) s₂ ∧
      s₂.process = some p₂ ∧
      p₂.handling s.arrived = some (.routeRange askRange, .withGraph p.app.graph) ∧
      p₂.app = p₁.app ∧ p₂.env = p₁.env ∧ p₂.reload = p₁.reload ∧ p₂.poller = p₁.poller ∧
      s₂.disk = s₁.disk ∧ s₂.arrived = s₁.arrived := by
    rw [← hsame₁.1]
    exact ⟨_, _, .load hp₁ hh₁ rfl, rfl, Function.update_self .., rfl, rfl, rfl, rfl, rfl, rfl⟩
  obtain ⟨t, p', r, h₃, hp', hr, hsame₃⟩ : ∃ t p' r,
      Step w s₂ (.reply s.arrived 0 (fun _ => 0) r) t ∧ t.process = some p' ∧
      r = .routeRange (routeRange (w.within p.app.graph) askRange) ∧ p'.app = p₂.app ∧
      p'.env = p₂.env ∧ p'.reload = p₂.reload ∧ p'.poller = p₂.poller ∧ t.disk = s₂.disk ∧
      t.arrived = s₂.arrived :=
    ⟨_, _, _, .reply hp₂ hh₂ rfl rfl, rfl, rfl, rfl, rfl, rfl, rfl, rfl, rfl⟩
  refine ⟨s₁, s₂, t, p₁, p', r, h₁, h₂, h₃, hp₁, hh₁, by simp [hp₂], hp', hr, ?_⟩
  simp [hsame₁, hsame₂, hsame₃]

/-- The hot-reload task takes over a newer build while the poller stores what it
has fetched. -/
theorem takes_over {host : Host} {data : RawSdeData} {current : CacheMetadata} {disk : Disk}
    {response : Response (Except String (List RawSignature))} {at_ : Instant}
    {snap : EveScoutSnapshot} (hp : s.process = some p) (ht : p.reload = .waiting)
    (hpoller : p.poller = .waiting) (hfetch : fetchSnapshot response at_ = .ok snap)
    (hrun : run (checkAndRefresh w.cache w.serde host p.app.graph.buildNumber) s.disk =
      (.ok (.updated data current), disk)) (now : Instant) :
    ∃ s₁ s₂ s₃ s₄ s₅ t p₂ p', Step w s (.poll response at_) s₁ ∧ Step w s₁ .reloadTick s₂ ∧
      Step w s₂ (.check host) s₃ ∧ Step w s₃ .store s₄ ∧ Step w s₄ .swap s₅ ∧
      Step w s₅ (.stamp now) t ∧ s₁.process.isSome = true ∧ s₂.process = some p₂ ∧
      p₂.app = p.app ∧ s₃.process.isSome = true ∧ s₄.process.isSome = true ∧
      s₅.process.isSome = true ∧ t.process = some p' ∧
      p'.app.graph = buildGraphData data current.buildNumber.toNat ∧ p'.poller = .waiting ∧
      t.arrived = s.arrived := by
  obtain ⟨s₁, p₁, h₁, hp₁, happ₁, ht₁, hq₁, hdisk₁, ha₁⟩ : ∃ s₁ p₁,
      Step w s (.poll response at_) s₁ ∧ s₁.process = some p₁ ∧ p₁.app = p.app ∧
      p₁.reload = p.reload ∧ p₁.poller = .afterPoll (fetchSnapshot response at_) ∧
      s₁.disk = s.disk ∧ s₁.arrived = s.arrived :=
    ⟨_, _, .poll hp hpoller, rfl, rfl, rfl, rfl, rfl, rfl⟩
  rw [hfetch] at hq₁
  obtain ⟨s₂, p₂, h₂, hp₂, happ₂, ht₂, hq₂, hdisk₂, ha₂⟩ : ∃ s₂ p₂, Step w s₁ .reloadTick s₂ ∧
      s₂.process = some p₂ ∧ p₂.app = p₁.app ∧ p₂.reload = .checking p₁.app.graph.buildNumber ∧
      p₂.poller = p₁.poller ∧ s₂.disk = s₁.disk ∧ s₂.arrived = s₁.arrived :=
    ⟨_, _, .reloadTick hp₁ (ht₁.trans ht), rfl, rfl, rfl, rfl, rfl, rfl⟩
  rw [← hdisk₁, ← hdisk₂, ← happ₁] at hrun
  obtain ⟨s₃, p₃, h₃, hp₃, ht₃, hq₃, ha₃⟩ : ∃ s₃ p₃, Step w s₂ (.check host) s₃ ∧
      s₃.process = some p₃ ∧ p₃.reload = .refreshed data current ∧ p₃.poller = p₂.poller ∧
      s₃.arrived = s₂.arrived :=
    ⟨_, _, .check_of_run hp₂ ht₂ hrun, rfl, rfl, rfl, rfl⟩
  obtain ⟨s₄, p₄, h₄, hp₄, ht₄, hq₄, ha₄⟩ : ∃ s₄ p₄, Step w s₃ .store s₄ ∧
      s₄.process = some p₄ ∧ p₄.reload = p₃.reload ∧ p₄.poller = .waiting ∧
      s₄.arrived = s₃.arrived :=
    ⟨_, _, .store hp₃ (hq₃.trans (hq₂.trans hq₁)), rfl, rfl, rfl, rfl⟩
  obtain ⟨s₅, p₅, h₅, hp₅, ht₅, hq₅, hgraph₅, ha₅⟩ : ∃ s₅ p₅, Step w s₄ .swap s₅ ∧
      s₅.process = some p₅ ∧ p₅.reload = .swapped ∧ p₅.poller = p₄.poller ∧
      p₅.app.graph = buildGraphData data current.buildNumber.toNat ∧ s₅.arrived = s₄.arrived :=
    ⟨_, _, .swap hp₄ (ht₄.trans ht₃), rfl, rfl, rfl, rfl, rfl⟩
  obtain ⟨t, p', h₆, hp', hq', hgraph', ha'⟩ : ∃ t p', Step w s₅ (.stamp now) t ∧
      t.process = some p' ∧ p'.poller = p₅.poller ∧ p'.app.graph = p₅.app.graph ∧
      t.arrived = s₅.arrived :=
    ⟨_, _, .stamp hp₅ ht₅, rfl, rfl, rfl, rfl⟩
  refine ⟨s₁, s₂, s₃, s₄, s₅, t, p₂, p', h₁, h₂, h₃, h₄, h₅, h₆, by simp [hp₁], hp₂,
    happ₂.trans happ₁, by simp [hp₃], by simp [hp₄], by simp [hp₅], hp', hgraph'.trans hgraph₅,
    hq'.trans (hq₅.trans hq₄), ?_⟩
  rw [ha', ha₅, ha₄, ha₃, ha₂, ha₁]

/-- A cache with a directory that is no build's. -/
def notesDisk : Disk where
  dirs := AList.singleton "notes" (AList.singleton "todo.txt" (utf8 "renew the certificate\n"))

/-- A wormhole from Thera to Jita. -/
def fetchedSignatures : Response (Except String (List RawSignature)) :=
  .body (.ok [⟨THERA_SYSTEM_ID, 30000142, "Jita", some "large", "wormhole", 1780491600⟩])

theorem fetchSnapshot_fetched (at_ : Instant) :
    ∃ snap, fetchSnapshot fetchedSignatures at_ = .ok snap := ⟨_, rfl⟩

/-- The server comes up with one build and answers a request. While the poller gets
a list of signatures, it takes over the other build. It answers another request,
a poll fails, and it stops. -/
def session (r r' : Reply) : List Event :=
  [.start (fun _ => none) (fun _ => none) (publishes 1), .arrive (.routeRange askRange), .load 0,
    .reply 0 0 (fun _ => 0) r, .poll fetchedSignatures 1780405000, .reloadTick,
    .check (publishes 2), .store, .swap, .stamp 1780405200, .arrive (.routeRange askRange), .load 1,
    .reply 1 0 (fun _ => 0) r', .poll (.refused "502 Bad Gateway") 1780405600, .stop]

/-- The systems that a reply lists, by id. -/
def Reply.lists (ids : List ℤ) (r : Reply) : Prop :=
  ∃ response, r = .routeRange (.ok response) ∧ response.reachable.map RangeReachable.systemId = ids

/-- A run through the session, whose replies list what each build has in range. -/
structure IsSession (x : Execution (Step twoBuildsSite)) (r r' : Reply) (g : GraphData) : Prop where
  length : x.length = 15
  start : x.state 0 = { disk := notesDisk }
  event : ∀ i, x.event i = (session r r').getD i .stop
  started : (x.state 1).process = some (.new (fun _ => none) g)
  alive : Alive x 1 14
  entered : ∃ p, (x.state 2).process = some p ∧
    p.handling 0 = some (.routeRange askRange, .entered)
  checking : ∃ p, (x.state 6).process = some p ∧ p.app.graph.buildNumber = 1
  arrived : (x.state 10).arrived = 1
  reply : r.lists [30002813]
  reply' : r'.lists [30002813, 30002537]

/-- The ids in range on the map of a build. -/
def idsInRange (data : RawSdeData) (build : UInt64) : Except AppError (List ℤ) :=
  (routeRange (g := buildGraphData data build.toNat) scan askRange).map fun response =>
    response.reachable.map RangeReachable.systemId

theorem lists_of_idsInRange {data : RawSdeData} {build : UInt64} {ids : List ℤ}
    (h : idsInRange data build = .ok ids) :
    (Reply.routeRange (routeRange (g := buildGraphData data build.toNat) scan askRange)).lists
      ids := by
  obtain ⟨response, hresponse, hids⟩ := Collections.map_ok.mp h
  exact ⟨response, by rw [hresponse], hids⟩

/-- What a refresh brings: the build and the ids in range on its map. -/
def RefreshOutcome.brings : RefreshOutcome → Option (UInt64 × Except AppError (List ℤ))
  | .upToDate => none
  | .updated data current => some (current.buildNumber, idsInRange data current.buildNumber)

/-- A first start lists one system in range, and a refresh brings another. -/
theorem twoBuilds_load : ∃ data data' current released fetched disk disk',
    run (loadSde twoBuildsSite (fun _ => none) (fun _ => none) (publishes 1)) notesDisk =
      (.ok (data, ⟨1, released, fetched⟩), disk) ∧
    idsInRange data 1 = .ok [30002813] ∧
    run (checkAndRefresh twoBuildsSite.cache twoBuildsSerde (publishes 2) 1) disk =
      (.ok (.updated data' current), disk') ∧
    idsInRange data' current.buildNumber = .ok [30002813, 30002537] := by
  let load := loadSde twoBuildsSite (fun _ => none) (fun _ => none) (publishes 1)
  have hone : (run load notesDisk).1.map (fun r => (r.2.buildNumber, idsInRange r.1 1)) =
      .ok (1, .ok [30002813]) := by decide +kernel
  obtain ⟨⟨data, build, released, fetched⟩, hok, hids⟩ := Collections.map_ok.mp hone
  obtain ⟨rfl, hids⟩ := Prod.mk.inj hids
  obtain ⟨disk, hdisk⟩ : ∃ disk, disk = (run load notesDisk).2 := ⟨_, rfl⟩
  have htwo : (run (checkAndRefresh twoBuildsSite.cache twoBuildsSerde (publishes 2) 1)
      disk).1.map RefreshOutcome.brings = .ok (some (2, .ok [30002813, 30002537])) := by
    rw [hdisk]
    decide +kernel
  obtain ⟨outcome, hok', hbrings⟩ := Collections.map_ok.mp htwo
  cases outcome with
  | upToDate => cases hbrings
  | updated data' current =>
    obtain ⟨-, hids'⟩ := Prod.mk.inj (Option.some.inj hbrings)
    exact ⟨data, data', current, released, fetched, disk, _, Prod.ext hok hdisk.symm, hids,
      Prod.ext hok' rfl, hids'⟩

theorem exists_session : ∃ x r r' g, IsSession x r r' g := by
  obtain ⟨data, data', current, released, fetched, disk, disk', hload, hids, hcheck, hids'⟩ :=
    twoBuilds_load
  obtain ⟨s₁, h₀, hp₁, hdisk₁, ha₁⟩ : ∃ s₁, Step twoBuildsSite { disk := notesDisk } _ s₁ ∧
      s₁.process = some (.new _ (buildGraphData data 1)) ∧ s₁.disk = disk ∧ s₁.arrived = 0 :=
    ⟨_, .start_of_run rfl hload, rfl, rfl, rfl⟩
  obtain ⟨s₂, s₃, s₄, p₂, p₄, r, h₁, h₂, h₃, hp₂, hh₂, hp₃, hp₄, hr, happ, henv, hreload, hpoller,
    hdisk₄, ha₄⟩ := serves_range (w := twoBuildsSite) hp₁
  have hcheck' : run (checkAndRefresh twoBuildsSite.cache twoBuildsSite.serde (publishes 2)
      p₄.app.graph.buildNumber) s₄.disk = (.ok (.updated data' current), disk') := by
    rw [happ, hdisk₄, hdisk₁]
    exact hcheck
  obtain ⟨snap, hsnap⟩ := fetchSnapshot_fetched 1780405000
  obtain ⟨s₅, s₆, s₇, s₈, s₉, s₁₀, p₆, p₁₀, h₄, h₅, h₆, h₇, h₈, h₉, hp₅, hp₆, happ₆, hp₇, hp₈, hp₉,
    hp₁₀, hgraph, hpoller₁₀, ha₁₀⟩ :=
    takes_over hp₄ hreload hpoller hsnap hcheck' 1780405200
  obtain ⟨s₁₁, s₁₂, s₁₃, p₁₁, p₁₃, r', h₁₀, h₁₁, h₁₂, hp₁₁, hh₁₁, hp₁₂, hp₁₃, hr', happ₁₃, henv₁₃,
    hreload₁₃, hpoller₁₃, _⟩ := serves_range (w := twoBuildsSite) hp₁₀
  rw [ha₁] at h₂ h₃ hh₂ ha₄
  rw [ha₁₀, ha₄] at h₁₁ h₁₂
  obtain ⟨s₁₄, h₁₃, hp₁₄⟩ : ∃ s₁₄, Step twoBuildsSite s₁₃
      (.poll (.refused "502 Bad Gateway") 1780405600) s₁₄ ∧ s₁₄.process.isSome = true :=
    ⟨_, .poll hp₁₃ (hpoller₁₃.trans hpoller₁₀), rfl⟩
  obtain ⟨p₁₄, hp₁₄⟩ := Option.isSome_iff_exists.mp hp₁₄
  have h₁₄ : Step twoBuildsSite s₁₄ .stop _ := .stop hp₁₄
  let alive : List Server := [s₁, s₂, s₃, s₄, s₅, s₆, s₇, s₈, s₉, s₁₀, s₁₁, s₁₂, s₁₃, s₁₄]
  let x : Execution (Step twoBuildsSite) :=
    { length := 15
      state := fun i => (⟨notesDisk, none, 0⟩ :: alive).getD i { s₁₄ with process := none }
      event := fun i => (session r r').getD i .stop
      step := by
        intro i hi
        interval_cases i
        exacts [h₀, h₁, h₂, h₃, h₄, h₅, h₆, h₇, h₈, h₉, h₁₀, h₁₁, h₁₂, h₁₃, h₁₄] }
  have hlive : Alive x 1 14 := by
    have hall : ∀ s ∈ alive, s.process.isSome = true := by
      simp [alive, hp₁, hp₂, hp₃, hp₄, hp₅, hp₆, hp₇, hp₈, hp₉, hp₁₀, hp₁₁, hp₁₂, hp₁₃, hp₁₄]
    intro i hi hi'
    obtain ⟨i, rfl⟩ := Nat.exists_eq_add_of_le' hi
    have hlt : i < alive.length := Nat.lt_of_succ_le hi'
    apply hall
    change alive.getD i _ ∈ alive
    rw [List.getD_eq_getElem alive _ hlt]
    exact List.getElem_mem hlt
  exact ⟨x, r, r', buildGraphData data 1,
    { length := rfl
      start := rfl
      event := fun _ => rfl
      started := hp₁
      alive := hlive
      entered := ⟨p₂, hp₂, hh₂⟩
      checking := ⟨p₆, hp₆, by rw [happ₆, happ]; rfl⟩
      arrived := ha₁₀.trans ha₄
      reply := by rw [hr]; exact lists_of_idsInRange hids
      reply' := by rw [hr', hgraph]; exact lists_of_idsInRange hids' }⟩

end Session
end Palu
