import Palu.Proofs.Progress
import Palu.Proofs.Refresh
import Palu.Proofs.Ticks

namespace Palu

open Effects Executions

variable {w : Deployment} {s t : Server} {e : Event} {p p' : Process} {id : ℕ}

section Forward

/-- A check that installs an older build than the one in place. -/
def Event.Stale (w : Deployment) (s : Server) : Event → Prop
  | .check host => ∃ p b data current, s.process = some p ∧ p.reload = .checking b ∧
    (run (checkAndRefresh w.cache w.serde host b) s.disk).1 = .ok (.updated data current) ∧
    current.buildNumber.toNat < p.app.graph.buildNumber
  | _ => False

/-- The hot-reload task compares with the build in place, and then holds a newer one. -/
structure OnCourse (p : Process) : Prop where
  checking : ∀ b, p.reload = .checking b → b = p.app.graph.buildNumber
  refreshed : ∀ data current, p.reload = .refreshed data current →
    p.app.graph.buildNumber < current.buildNumber.toNat

theorem OnCourse.of_idle (hc : ∀ b, p.reload ≠ .checking b)
    (hr : ∀ data current, p.reload ≠ .refreshed data current) : OnCourse p :=
  ⟨fun b hb => absurd hb (hc b), fun data current hd => absurd hd (hr data current)⟩

theorem OnCourse.new (env : Env) (graph : GraphData) : OnCourse (.new env graph) := by
  rcases Process.new_reload env graph with h | h <;>
    exact .of_idle (by simp [h]) (by simp [h])

theorem ReloadStep.onCourse (hs : ReloadStep e p p') (hc : OnCourse p) :
    OnCourse p' ∧ p.app.graph.buildNumber ≤ p'.app.graph.buildNumber := by
  cases hs with
  | none hgraph _ htask =>
    rw [hgraph]
    exact ⟨⟨by rw [htask, hgraph]; exact hc.checking, by rw [htask, hgraph]; exact hc.refreshed⟩,
      le_rfl⟩
  | tick _ htask' happ =>
    rw [happ]
    refine ⟨⟨fun b hb => ?_, fun data current hd => ?_⟩, le_rfl⟩
    · rw [happ]
      cases htask'.symm.trans hb
      rfl
    · cases htask'.symm.trans hd
  | swap htask htask' hgraph =>
    refine ⟨.of_idle (by simp [htask']) (by simp [htask']), ?_⟩
    rw [hgraph]
    exact (hc.refreshed _ _ htask).le
  | stamp _ htask' hgraph =>
    rw [hgraph]
    exact ⟨.of_idle (by simp [htask']) (by simp [htask']), le_rfl⟩

/-- A check that is not stale installs a newer build or none. -/
theorem Step.check_onCourse {host : Host} (hs : Step w s (.check host) t)
    (hstale : ¬ Event.Stale w s (.check host)) (hp : s.process = some p) (hc : OnCourse p)
    (hp' : t.process = some p') : OnCourse p' ∧ p'.app = p.app := by
  cases hs with
  | @check q b _ hq ht =>
    cases hp.symm.trans hq
    have hb := hc.checking b ht
    subst hb
    unfold Server.checked at hp'
    match hr : run (checkAndRefresh w.cache w.serde host p.app.graph.buildNumber) s.disk with
    | (.ok .upToDate, disk) | (.error (.error _), disk) =>
      rw [hr] at hp'
      cases hp'
      exact ⟨.of_idle (by simp) (by simp), rfl⟩
    | (.ok (.updated data current), disk) =>
      rw [hr] at hp'
      cases hp'
      have hge : ¬ current.buildNumber.toNat < p.app.graph.buildNumber :=
        fun hlt => hstale ⟨p, _, data, current, hp, ht, congrArg Prod.fst hr, hlt⟩
      obtain ⟨latest, _, _, hne, rfl, _⟩ := checkAndRefresh_updated hr
      refine ⟨⟨by simp, fun data' current' hd => ?_⟩, rfl⟩
      cases hd
      dsimp only [Host.current] at hge ⊢
      omega
    | (.error .crash, disk) =>
      rw [hr] at hp'
      cases hp'

/-- The build in place only goes up, short of a stale check. -/
theorem Step.onCourse (hs : Step w s e t) (hstale : ¬ e.Stale w s)
    (hcourse : ∀ p, s.process = some p → OnCourse p) (hp' : t.process = some p') :
    OnCourse p' ∧ ∀ p, s.process = some p →
      p.app.graph.buildNumber ≤ p'.app.graph.buildNumber := by
  rcases hs.alive hp' with ⟨p, hp, _⟩ | ⟨env, files, host, rfl, hnone, data, current, _, _, _, rfl⟩
  · have hsome : ∀ q, s.process = some q → q = p := fun q hq => Option.some.inj (hq.symm.trans hp)
    cases he : e.checks with
    | some host =>
      cases e with
      | check host' =>
        obtain ⟨hc, happ⟩ := hs.check_onCourse hstale hp (hcourse p hp) hp'
        refine ⟨hc, fun q hq => ?_⟩
        rw [hsome q hq, happ]
      | _ => cases he
    | none =>
      obtain ⟨hc, hle⟩ := (hs.reloadStep hp hp' he).1.onCourse (hcourse p hp)
      refine ⟨hc, fun q hq => ?_⟩
      rw [hsome q hq]
      exact hle
  · exact ⟨.new env _, fun q hq => absurd (hnone.symm.trans hq) (by simp)⟩

end Forward

section Reads
variable {x : Execution (Step w)} {k : ℕ}

theorem onCourse (hstart : (x.state 0).process = none)
    (hstale : ∀ i < x.length, ¬ (x.event i).Stale w (x.state i)) :
    ∀ k ≤ x.length, ∀ p, (x.state k).process = some p → OnCourse p := by
  apply x.along (I := fun _ s => ∀ p, s.process = some p → OnCourse p)
  · intro p hp
    exact absurd (hstart.symm.trans hp) (by simp)
  · intro k hk ih p hp
    exact ((x.step k hk).onCourse (hstale k hk) ih hp).1

/-- While the process lives, the build in place never goes down. -/
theorem builds_grow (hstart : (x.state 0).process = none)
    (hstale : ∀ i < x.length, ¬ (x.event i).Stale w (x.state i)) {i j : ℕ} (hij : i ≤ j)
    (hj : j ≤ x.length) (hlive : Alive x i j) {A B : AppState} (hA : (x.state i).app? = some A)
    (hB : (x.state j).app? = some B) : A.graph.buildNumber ≤ B.graph.buildNumber := by
  let build : Server → ℕ := fun s => (s.app?.map fun A => A.graph.buildNumber).getD 0
  have hgrow : build (x.state i) ≤ build (x.state j) := by
    apply x.stretch (r := fun s t => build s ≤ build t) (fun _ => le_rfl) (fun _ _ _ => le_trans) hij
    intro m him hmj
    obtain ⟨p, hp⟩ := Option.isSome_iff_exists.mp (hlive m him hmj.le)
    obtain ⟨p', hp'⟩ := Option.isSome_iff_exists.mp (hlive (m + 1) (by omega) hmj)
    have hcourse := onCourse hstart hstale m (by omega)
    have hle := ((x.step m (by omega)).onCourse (hstale m (by omega)) hcourse hp').2 p hp
    simpa [build, Server.app?, hp, hp'] using hle
  simpa [build, hA, hB] using hgrow

/-- Requests come one by one. -/
theorem arrivals_apart {a b : ℕ} (ha : a < x.length) (hb : b < x.length) {req req' : Request}
    (hea : x.event a = .arrive req) (heb : x.event b = .arrive req')
    (hid : (x.state a).arrived = (x.state b).arrived) : a = b := by
  have hgrow : ∀ a b, a < b → b < x.length → ∀ req, x.event a = .arrive req →
      (x.state a).arrived < (x.state b).arrived := by
    intro a b hab hb req he
    have hs := x.step a (by omega)
    rw [he] at hs
    have hone : (x.state (a + 1)).arrived = (x.state a).arrived + 1 := by
      generalize x.state (a + 1) = t at hs
      cases hs
      rfl
    have hle : (x.state (a + 1)).arrived ≤ (x.state b).arrived := by
      apply x.stretch (r := fun s t => s.arrived ≤ t.arrived) (fun _ => le_rfl)
        (fun _ _ _ => le_trans) hab
      intro m _ hm
      rcases (x.step m (by omega)).arrived with h | ⟨_, _, h⟩ <;> omega
    omega
  rcases Nat.lt_trichotomy a b with hab | hab | hab
  · exact absurd hid (hgrow a b hab hb req hea).ne
  · exact hab
  · exact absurd hid.symm (hgrow b a hab ha req' heb).ne

/-- A request that comes after the reply to another is answered on a graph of the
same build or a newer one, short of a stale check and the end of the process. -/
theorem reads_monotonic (x : Execution (Step w)) (hstart : (x.state 0).process = none)
    (hstale : ∀ i < x.length, ¬ (x.event i).Stale w (x.state i)) {k₁ a k₂ : ℕ}
    (hk₂ : k₂ < x.length) (hka : k₁ < a) (hak : a < k₂) (hlive : Alive x k₁ k₂)
    {id₁ worker₁ worker₂ : ℕ} {clock₁ clock₂ : ℕ → Instant} {reply₁ reply₂ : Reply} {req : Request}
    (he₁ : x.event k₁ = .reply id₁ worker₁ clock₁ reply₁) (hea : x.event a = .arrive req)
    (he₂ : x.event k₂ = .reply (x.state a).arrived worker₂ clock₂ reply₂) :
    ∃ req₁ a₁ i₁ l₁ j₁ i₂ l₂ j₂ A₁ A₂,
      Answered x k₁ id₁ clock₁ reply₁ req₁ a₁ i₁ l₁ j₁ ∧
      Answered x k₂ (x.state a).arrived clock₂ reply₂ req a i₂ l₂ j₂ ∧
      (x.state i₁).app? = some A₁ ∧ (x.state i₂).app? = some A₂ ∧
      A₁.graph.buildNumber ≤ A₂.graph.buildNumber := by
  obtain ⟨req₁, a₁, i₁, l₁, j₁, h₁⟩ := replies_answered x hstart (by omega) he₁
  obtain ⟨req₂, a₂, i₂, l₂, j₂, h₂⟩ := replies_answered x hstart hk₂ he₂
  have hi₁ := h₁.order
  have hi₂ := h₂.order
  obtain rfl : a₂ = a :=
    arrivals_apart (by omega) (by omega) h₂.came.1 hea h₂.came.2
  cases hea.symm.trans h₂.came.1
  obtain ⟨_, A₁, _, _, _, hA₁, _⟩ := h₁.answers
  obtain ⟨_, A₂, _, _, _, hA₂, _⟩ := h₂.answers
  refine ⟨req₁, a₁, i₁, l₁, j₁, i₂, l₂, j₂, A₁, A₂, h₁, h₂, hA₁, hA₂, ?_⟩
  apply builds_grow hstart hstale (by omega) (by omega) _ hA₁ hA₂
  intro m hi hm
  rcases Nat.le_total m k₁ with hmk | hkm
  · exact h₁.alive m (by omega) hmk
  · exact hlive m hkm (by omega)

theorem reads_monotonic_session : ∃ (x : Execution (Step twoBuildsSite)) (r r' : Reply),
    x.event 3 = .reply 0 0 (fun _ => 0) r ∧ r.lists [30002813] ∧ x.event 8 = .swap ∧
    x.event 10 = .arrive (.routeRange askRange) ∧ x.event 12 = .reply 1 0 (fun _ => 0) r' ∧
    r'.lists [30002813, 30002537] ∧
    ∃ req₁ a₁ i₁ l₁ j₁ i₂ l₂ j₂ A₁ A₂,
      Answered x 3 0 (fun _ => 0) r req₁ a₁ i₁ l₁ j₁ ∧
      Answered x 12 (x.state 10).arrived (fun _ => 0) r' (.routeRange askRange) 10 i₂ l₂ j₂ ∧
      (x.state i₁).app? = some A₁ ∧ (x.state i₂).app? = some A₂ ∧
      A₁.graph.buildNumber ≤ A₂.graph.buildNumber := by
  obtain ⟨x, r, r', g, hx⟩ := exists_session
  have hlen := hx.length
  obtain ⟨p, hp, hbuild⟩ := hx.checking
  refine ⟨x, r, r', hx.event 3, hx.reply, hx.event 8, hx.event 10, hx.event 12, hx.reply', ?_⟩
  apply reads_monotonic x (by rw [hx.start]) _ (by omega) (by omega) (by omega) _ (hx.event 3)
    (hx.event 10)
  · rw [hx.arrived]
    exact hx.event 12
  · intro i hi hstale
    rw [hlen] at hi
    rw [hx.event] at hstale
    by_cases hi6 : i = 6
    · subst hi6
      obtain ⟨q, b, data, current, hq, _, hupdated, hlt⟩ := hstale
      cases hp.symm.trans hq
      obtain ⟨latest, _, hlatest, _, rfl, _⟩ := checkAndRefresh_updated (Prod.ext hupdated rfl)
      have hnew : (fetchLatestBuild twoBuildsSerde (publishes 2)).map
          (fun latest => latest.buildNumber.toNat) = .ok 2 := by decide +kernel
      rw [show fetchLatestBuild twoBuildsSerde (publishes 2) = .ok latest from hlatest] at hnew
      have htwo : latest.buildNumber.toNat = 2 := Except.ok.inj hnew
      dsimp only [Host.current] at hlt
      omega
    · interval_cases i <;> first | exact hstale | exact hi6 rfl
  · exact fun i hi hi' => hx.alive i (by omega) (by omega)

end Reads

end Palu
