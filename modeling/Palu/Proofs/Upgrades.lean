import Palu.Proofs.Restarts
import Palu.Proofs.Sessions

namespace Palu

open Effects Executions

variable {serde : Serde} {cache : SdeCache} {host : Host} {d s : Disk} {b : ℕ}

section Cache

/-- The cache serves a build of this number or a higher one. -/
def Reached (serde : Serde) (b : ℕ) (d : Disk) : Prop :=
  ∃ current, currentMetadata serde d = some current ∧ b ≤ current.buildNumber.toNat

/-- The metadata, of a build that is whole or not, names none above this number. -/
def NoneAbove (serde : Serde) (b : ℕ) (d : Disk) : Prop :=
  ∀ bytes named, d.metadata = some bytes → serde.decodeMetadata bytes = some named →
    named.buildNumber.toNat ≤ b

theorem NoneAbove.reached {n : ℕ} (h : NoneAbove serde n d) (hb : Reached serde b d) : b ≤ n := by
  obtain ⟨current, hcurrent, hle⟩ := hb
  obtain ⟨bytes, hbytes, hm, _⟩ := currentMetadata_eq_some.mp hcurrent
  exact hle.trans (h bytes current hbytes hm)

/-- Extracting entries only adds to the files that are there. -/
theorem Reached.partlyFetched {build : UInt64} (h : Reached serde b d)
    (hs : PartlyFetched host d build s) : Reached serde b s := by
  obtain ⟨current, hcurrent, hle⟩ := h
  obtain ⟨bytes, hbytes, hm, hp⟩ := currentMetadata_eq_some.mp hcurrent
  obtain ⟨front, _, hx⟩ := hs
  refine ⟨current, currentMetadata_eq_some.mpr ⟨bytes, hx.metadata.trans hbytes, hm, ?_⟩, hle⟩
  apply buildFilesPresent_iff.mpr
  intro f hf
  have hold := buildFilesPresent_iff.mp hp f hf
  by_cases hb : current.buildNumber = build
  · rw [hb] at hold ⊢
    rw [hx.files f hf, Option.isSome_or, hold, Bool.or_true]
  · have hdir : buildDirName current.buildNumber ≠ buildDirName build :=
      fun he => hb (buildDirName_injective he)
    rw [Disk.file, hx.others _ hdir]
    exact hold

theorem Promoted.currentMetadata {latest : LatestManifest} {archive : Archive}
    (h : Promoted serde host latest archive s) (hreadable : Readable serde host)
    (hlatest : fetchLatestBuild serde host = .ok latest) :
    Palu.currentMetadata serde s = some (host.current latest) := by
  apply currentMetadata_eq_some.mpr
  refine ⟨_, h.metadata, hreadable latest hlatest, buildFilesPresent_iff.mpr fun f hf => ?_⟩
  rw [show s.file (buildDirName (host.current latest).buildNumber) f = contentOf archive f from
    h.files f hf]
  exact h.complete f hf

theorem Reached.install (hreadable : Readable serde host)
    (hle : ∀ latest, fetchLatestBuild serde host = .ok latest → b ≤ latest.buildNumber.toNat) :
    ∀ latest, fetchLatestBuild serde host = .ok latest →
      Keeps (Reached serde b) (fetchAndInstall serde host latest) := by
  intro latest hlatest d h
  apply fetchAndInstall_final
  · exact fun s hs => h.partlyFetched hs
  · exact fun archive s hs => ⟨_, hs.currentMetadata hreadable hlatest, hle latest hlatest⟩

theorem NoneAbove.install (hreadable : Readable serde host)
    (hle : ∀ latest, fetchLatestBuild serde host = .ok latest → latest.buildNumber.toNat ≤ b) :
    ∀ latest, fetchLatestBuild serde host = .ok latest →
      Keeps (NoneAbove serde b) (fetchAndInstall serde host latest) := by
  intro latest hlatest d h
  apply fetchAndInstall_final
  · intro s hs bytes named hbytes
    obtain ⟨_, _, hx⟩ := hs
    exact h bytes named (hx.metadata.symm.trans hbytes)
  · intro archive s hs bytes named hbytes hm
    cases hs.metadata.symm.trans hbytes
    cases (hreadable latest hlatest).symm.trans hm
    exact hle latest hlatest

/-- The manifest names no older build than the metadata does. -/
def Fresh (serde : Serde) (host : Host) (d : Disk) : Prop :=
  ∀ latest, fetchLatestBuild serde host = .ok latest →
    NoneAbove serde latest.buildNumber.toNat d

theorem Fresh.reached_install (hfresh : Fresh serde host d) (hreadable : Readable serde host)
    (h : Reached serde b d) : ∀ latest, fetchLatestBuild serde host = .ok latest →
      Keeps (Reached serde b) (fetchAndInstall serde host latest) :=
  Reached.install hreadable fun latest hlatest => (hfresh latest hlatest).reached h

theorem checkAndRefresh_reached {data : RawSdeData} {current : CacheMetadata} {n : ℕ}
    (hreadable : Readable serde host) (hfresh : Fresh serde host d)
    (hrun : run (checkAndRefresh cache serde host n) d = (.ok (.updated data current), s)) :
    Reached serde current.buildNumber.toNat s ∧
      ∀ b, Reached serde b d → b ≤ current.buildNumber.toNat := by
  obtain ⟨latest, archive, hlatest, _, rfl, hs, _⟩ := checkAndRefresh_updated hrun
  constructor
  · exact ⟨_, hs.toPromoted.currentMetadata hreadable hlatest, le_rfl⟩
  · exact fun b hb => (hfresh latest hlatest).reached hb

/-- A startup that succeeds serves what the cache has come to, which is no less than
it had come to before. -/
theorem ensureCache_reached {data : RawSdeData} {current : CacheMetadata}
    (hreadable : Readable serde host) (hfresh : Fresh serde host d)
    (hrun : run (ensureCache cache serde host) d = (.ok (data, current), s)) :
    Reached serde current.buildNumber.toNat s ∧
      ∀ b, Reached serde b d → b ≤ current.buildNumber.toNat := by
  have hmost : ∀ {cached}, currentMetadata serde d = some cached →
      ∀ b, Reached serde b d → b ≤ cached.buildNumber.toNat := by
    intro cached hcached b hb
    obtain ⟨c, hc, hle⟩ := hb
    cases hcached.symm.trans hc
    exact hle
  cases ensureCache_ok hrun with
  | @installed latest _ _ hnone hlatest hinstall =>
    have hend := fetchAndInstall_triple serde host latest d rfl
    rw [hinstall] at hend
    obtain ⟨rfl, archive, hin⟩ := hend
    refine ⟨⟨_, hin.toPromoted.currentMetadata hreadable hlatest, le_rfl⟩, fun b hb => ?_⟩
    obtain ⟨c, hc, _⟩ := hb
    cases hnone.symm.trans hc
  | refreshed _ hrefresh => exact checkAndRefresh_reached hreadable hfresh hrefresh
  | kept hcached hrefresh =>
    have hreached : Reached serde current.buildNumber.toNat d := ⟨current, hcached, le_rfl⟩
    have hkeeps := hfresh.reached_install hreadable hreached
    exact ⟨(checkAndRefresh_keeps hkeeps _).of_run hreached hrefresh, hmost hcached⟩

end Cache

section Server
variable {w : Deployment} {s t : Server} {e : Event} {p p' : Process}

/-- The cache has come as far as the map in place, and as one that is to replace it. -/
structure Stored (w : Deployment) (d : Disk) (p : Process) : Prop where
  graph : Reached w.serde p.app.graph.buildNumber d
  refreshed : ∀ data current, p.reload = .refreshed data current →
    Reached w.serde current.buildNumber.toNat d

theorem Stored.of_idle (h : Reached w.serde p.app.graph.buildNumber d)
    (hr : ∀ data current, p.reload ≠ .refreshed data current) : Stored w d p :=
  ⟨h, fun data current hd => absurd hd (hr data current)⟩

theorem Stored.not_stale (h : Stored w s.disk p) (hp : s.process = some p)
    (hfresh : ∀ host, e.fetches = some host → Fresh w.serde host s.disk) : ¬ e.Stale w s := by
  intro hstale
  cases e with
  | check host =>
    obtain ⟨q, b, data, current, hq, _, hupdated, hlt⟩ := hstale
    cases hp.symm.trans hq
    obtain ⟨latest, _, hlatest, _, rfl, _⟩ := checkAndRefresh_updated (Prod.ext hupdated rfl)
    exact absurd ((hfresh host rfl latest hlatest).reached h.graph) (Nat.not_le.mpr hlt)
  | _ => exact hstale

theorem ReloadStep.stored (hs : ReloadStep e p p') (h : Stored w d p) : Stored w d p' := by
  cases hs with
  | none hgraph _ htask => exact ⟨by rw [hgraph]; exact h.graph, by rw [htask]; exact h.refreshed⟩
  | tick _ htask' happ => exact .of_idle (by rw [happ]; exact h.graph) (by simp [htask'])
  | swap htask htask' hgraph =>
    exact .of_idle (by rw [hgraph]; exact h.refreshed _ _ htask) (by simp [htask'])
  | stamp _ htask' hgraph => exact .of_idle (by rw [hgraph]; exact h.graph) (by simp [htask'])

/-- The host of a step is read as it should be, and names no older build than the cache. -/
def Event.Sound (w : Deployment) (s : Server) (e : Event) : Prop :=
  ∀ host, e.fetches = some host → Readable w.serde host ∧ Fresh w.serde host s.disk

theorem Step.reached (hs : Step w s e t) (hsound : e.Sound w s) (h : Reached w.serde b s.disk) :
    Reached w.serde b t.disk := by
  apply hs.keeps_fetching _ h
  intro host he
  obtain ⟨hreadable, hfresh⟩ := hsound host he
  exact hfresh.reached_install hreadable h

theorem Step.check_stored (hs : Step w s (.check host) t)
    (hsound : Event.Sound w s (.check host)) (hp : s.process = some p) (h : Stored w s.disk p)
    (hp' : t.process = some p') : Stored w t.disk p' := by
  have hreached := hs.reached hsound h.graph
  obtain ⟨hreadable, hfresh⟩ := hsound host rfl
  cases hs with
  | @check q b _ hq ht =>
    cases hp.symm.trans hq
    unfold Server.checked at hp' hreached ⊢
    match hr : run (checkAndRefresh w.cache w.serde host b) s.disk with
    | (.ok .upToDate, disk) | (.error (.error _), disk) =>
      rw [hr] at hp' hreached
      cases hp'
      exact .of_idle hreached (by simp)
    | (.ok (.updated data current), disk) =>
      rw [hr] at hp' hreached
      cases hp'
      refine ⟨hreached, fun data' current' hd => ?_⟩
      cases hd
      exact (checkAndRefresh_reached hreadable hfresh hr).1
    | (.error .crash, disk) =>
      rw [hr] at hp'
      cases hp'

/-- A process that serves from the cache is on course and has its map from there. -/
def Backed (w : Deployment) (s : Server) : Prop :=
  ∀ p, s.process = some p → resolveSdeDir p.env = none → OnCourse p ∧ Stored w s.disk p

/-- The cache, and a process that serves from it, have come to a build. -/
structure AtLeast (w : Deployment) (b : ℕ) (s : Server) : Prop where
  cache : Reached w.serde b s.disk
  process : ∀ p, s.process = some p → resolveSdeDir p.env = none → b ≤ p.app.graph.buildNumber

theorem Step.backed (hs : Step w s e t) (hsound : e.Sound w s) (h : Backed w s)
    (hp' : t.process = some p') (hcache : resolveSdeDir p'.env = none) :
    (OnCourse p' ∧ Stored w t.disk p') ∧ ∀ b, AtLeast w b s → b ≤ p'.app.graph.buildNumber := by
  rcases hs.alive hp' with ⟨p, hp, henv⟩ | ⟨env, files, host, rfl, _, data, current, disk, hrun, rfl, rfl⟩
  · have hcachep : resolveSdeDir p.env = none := henv ▸ hcache
    obtain ⟨hcourse, hstored⟩ := h p hp hcachep
    have hstale := hstored.not_stale hp fun host he => (hsound host he).2
    obtain ⟨hcourse', hgrow⟩ := hs.onCourse hstale
      (fun q hq => Option.some.inj (hp.symm.trans hq) ▸ hcourse) hp'
    refine ⟨⟨hcourse', ?_⟩, fun b hb => (hb.process p hp hcachep).trans (hgrow p hp)⟩
    cases he : e.checks with
    | none =>
      obtain ⟨hstep, hdisk⟩ := hs.reloadStep hp hp' he
      rw [hdisk]
      exact hstep.stored hstored
    | some host =>
      cases e with
      | check host' => exact hs.check_stored hsound hp hstored hp'
      | _ => cases he
  · have hcache : resolveSdeDir env = none := hcache
    obtain ⟨hreadable, hfresh⟩ := hsound host (by simp [Event.fetches, hcache])
    rw [loadSde, hcache] at hrun
    obtain ⟨hreached, hle⟩ := ensureCache_reached hreadable hfresh (run_context_ok.mp hrun)
    exact ⟨⟨.new env _, .of_idle hreached (Process.new_not_refreshed env _)⟩,
      fun b hb => hle b hb.cache⟩

theorem Step.atLeast (hs : Step w s e t) (hsound : e.Sound w s) (h : Backed w s)
    (hb : AtLeast w b s) : AtLeast w b t :=
  ⟨hs.reached hsound hb.cache, fun _ hp' hcache => (hs.backed hsound h hp' hcache).2 b hb⟩

end Server

section Runs
variable {w : Deployment} {x : Execution (Step w)}

/-- The manifest that a step finds. -/
def Event.Finds (w : Deployment) (e : Event) (latest : LatestManifest) : Prop :=
  ∃ host, e.fetches = some host ∧ fetchLatestBuild w.serde host = .ok latest

/-- The manifests go forward from what the cache starts with, and one from the other. -/
structure PublishedInOrder (x : Execution (Step w)) : Prop where
  cached : ∀ i < x.length, ∀ latest, (x.event i).Finds w latest →
    NoneAbove w.serde latest.buildNumber.toNat (x.state 0).disk
  found : ∀ i j, i ≤ j → j < x.length → ∀ latest latest', (x.event i).Finds w latest →
    (x.event j).Finds w latest' → latest.buildNumber.toNat ≤ latest'.buildNumber.toNat

variable (hreadable : ∀ i < x.length, ∀ host, (x.event i).fetches = some host → Readable w.serde host)
  (hinorder : PublishedInOrder x)
include hreadable hinorder

theorem sound : ∀ i < x.length, (x.event i).Sound w (x.state i) := by
  intro j hj host he
  refine ⟨hreadable j hj host he, fun latest hlatest => ?_⟩
  have hfinds : (x.event j).Finds w latest := ⟨host, he, hlatest⟩
  apply x.along (I := fun k s => k ≤ j → NoneAbove w.serde latest.buildNumber.toNat s.disk) _ _ j
    hj.le le_rfl
  · exact fun _ => hinorder.cached j hj latest hfinds
  · intro i hi ih hij
    apply (x.step i hi).keeps_fetching _ (ih (by omega))
    intro host' he'
    apply NoneAbove.install (hreadable i hi host' he')
    exact fun latest' hlatest' =>
      hinorder.found i j (by omega) hj latest' latest ⟨host', he', hlatest'⟩ hfinds

variable (hstart : (x.state 0).process = none)
include hstart

theorem backed : ∀ k ≤ x.length, Backed w (x.state k) := by
  apply x.along (I := fun _ => Backed w)
  · exact fun p hp => absurd (hstart.symm.trans hp) (by simp)
  · intro i hi h p hp hcache
    exact ((x.step i hi).backed (sound hreadable hinorder i hi) h hp hcache).1

/-- The builds served from the cache never go back, from one process to the next. -/
theorem restarts_grow {i j : ℕ} (hij : i ≤ j) (hj : j ≤ x.length) {p q : Process}
    (hp : (x.state i).process = some p) (hcache : resolveSdeDir p.env = none)
    (hq : (x.state j).process = some q) (hcache' : resolveSdeDir q.env = none) :
    p.app.graph.buildNumber ≤ q.app.graph.buildNumber := by
  have hfirst : AtLeast w p.app.graph.buildNumber (x.state i) := by
    refine ⟨(backed hreadable hinorder hstart i (by omega) p hp hcache).2.graph, fun r hr _ => ?_⟩
    cases hp.symm.trans hr
    exact le_rfl
  have hlast : AtLeast w p.app.graph.buildNumber (x.state j) := by
    apply x.stretch (r := fun s t => AtLeast w p.app.graph.buildNumber s →
      AtLeast w p.app.graph.buildNumber t) (fun _ h => h) (fun _ _ _ h h' => h' ∘ h) hij _ hfirst
    intro m _ hm
    exact (x.step m (by omega)).atLeast (sound hreadable hinorder m (by omega))
      (backed hreadable hinorder hstart m (by omega))
  exact hlast.process q hq hcache'

end Runs

section Reads
variable {w : Deployment}

/-- However often the process ends in between, a request that comes after the reply
to another is answered on a graph of the same build or a newer one, as long as
manifests go forward and the replies are given from the cache. -/
theorem restarts_read_forward (x : Execution (Step w)) (hstart : (x.state 0).process = none)
    (hreadable : ∀ i < x.length, ∀ host, (x.event i).fetches = some host → Readable w.serde host)
    (hinorder : PublishedInOrder x) {k₁ a k₂ : ℕ} (hk₂ : k₂ < x.length) (hka : k₁ < a)
    (hak : a < k₂) {id₁ worker₁ worker₂ : ℕ} {clock₁ clock₂ : ℕ → Instant} {reply₁ reply₂ : Reply}
    {req : Request} (he₁ : x.event k₁ = .reply id₁ worker₁ clock₁ reply₁)
    (hea : x.event a = .arrive req)
    (he₂ : x.event k₂ = .reply (x.state a).arrived worker₂ clock₂ reply₂) {p₁ p₂ : Process}
    (hp₁ : (x.state k₁).process = some p₁) (hcache₁ : resolveSdeDir p₁.env = none)
    (hp₂ : (x.state k₂).process = some p₂) (hcache₂ : resolveSdeDir p₂.env = none) :
    ∃ req₁ a₁ i₁ l₁ j₁ i₂ l₂ j₂ A₁ A₂,
      Answered x k₁ id₁ clock₁ reply₁ req₁ a₁ i₁ l₁ j₁ ∧
      Answered x k₂ (x.state a).arrived clock₂ reply₂ req a i₂ l₂ j₂ ∧
      (x.state i₁).app? = some A₁ ∧ (x.state i₂).app? = some A₂ ∧
      A₁.graph.buildNumber ≤ A₂.graph.buildNumber := by
  obtain ⟨req₁, a₁, i₁, l₁, j₁, h₁⟩ := replies_answered x hstart (by omega) he₁
  obtain ⟨req₂, a₂, i₂, l₂, j₂, h₂⟩ := replies_answered x hstart hk₂ he₂
  have hi₁ := h₁.order
  have hi₂ := h₂.order
  obtain rfl : a₂ = a :=
    arrivals_apart (by omega) (by omega) h₂.came.1 hea h₂.came.2
  cases hea.symm.trans h₂.came.1
  obtain ⟨q₁, hq₁, hA₁, henv₁⟩ := h₁.loading (by omega) hp₁
  obtain ⟨q₂, hq₂, hA₂, henv₂⟩ := h₂.loading hk₂.le hp₂
  refine ⟨req₁, a₁, i₁, l₁, j₁, i₂, l₂, j₂, q₁.app, q₂.app, h₁, h₂, hA₁, hA₂, ?_⟩
  exact restarts_grow hreadable hinorder hstart (by omega) (by omega) hq₁ (henv₁ ▸ hcache₁) hq₂
    (henv₂ ▸ hcache₂)

/-- The server answers a request on one build, stops, comes up with the other, and
answers another request. -/
def restart (r r' : Reply) : List Event :=
  [.start (fun _ => none) (fun _ => none) (publishes 1), .arrive (.routeRange askRange), .load 0,
    .reply 0 0 (fun _ => 0) r, .stop, .start (fun _ => none) (fun _ => none) (publishes 2),
    .arrive (.routeRange askRange), .load 1, .reply 1 0 (fun _ => 0) r']

/-- A run through the restart, whose replies list what each build has in range. -/
structure IsRestart (x : Execution (Step twoBuildsSite)) (r r' : Reply) (g g' : GraphData) : Prop where
  length : x.length = 9
  start : x.state 0 = { disk := notesDisk }
  event : ∀ i, x.event i = (restart r r').getD i .stop
  started : (x.state 1).process = some (.new (fun _ => none) g)
  alive : Alive x 1 3
  started' : (x.state 6).process = some (.new (fun _ => none) g')
  alive' : Alive x 6 8
  arrived : (x.state 6).arrived = 1
  reply : r.lists [30002813]
  reply' : r'.lists [30002813, 30002537]

theorem exists_restart : ∃ x r r' g g', IsRestart x r r' g g' := by
  let load := fun build => loadSde twoBuildsSite (fun _ => none) (fun _ => none) (publishes build)
  have hone : (run (load 1) notesDisk).1.map (fun r => idsInRange r.1 r.2.buildNumber) =
      .ok (.ok [30002813]) := by decide +kernel
  have htwo : (run (load 2) (run (load 1) notesDisk).2).1.map
      (fun r => idsInRange r.1 r.2.buildNumber) = .ok (.ok [30002813, 30002537]) := by
    decide +kernel
  obtain ⟨⟨data, current⟩, hok, hids⟩ := Collections.map_ok.mp hone
  obtain ⟨⟨data', current'⟩, hok', hids'⟩ := Collections.map_ok.mp htwo
  obtain ⟨disk, hload⟩ : ∃ disk, run (load 1) notesDisk = (.ok (data, current), disk) :=
    ⟨_, Prod.ext hok rfl⟩
  rw [hload] at hok'
  obtain ⟨disk', hload'⟩ : ∃ disk', run (load 2) disk = (.ok (data', current'), disk') :=
    ⟨_, Prod.ext hok' rfl⟩
  obtain ⟨s₁, h₀, hp₁, hdisk₁, ha₁⟩ : ∃ s₁, Step twoBuildsSite { disk := notesDisk } _ s₁ ∧
      s₁.process = some (.new _ (buildGraphData data current.buildNumber.toNat)) ∧
      s₁.disk = disk ∧ s₁.arrived = 0 :=
    ⟨_, .start_of_run rfl hload, rfl, rfl, rfl⟩
  obtain ⟨s₂, s₃, s₄, p₂, p₄, r, h₁, h₂, h₃, hp₂, _, hp₃, hp₄, hr, _, _, _, _, hdisk₄, ha₄⟩ :=
    serves_range (w := twoBuildsSite) hp₁
  obtain ⟨s₅, h₄, hp₅, hdisk₅, ha₅⟩ : ∃ s₅, Step twoBuildsSite s₄ .stop s₅ ∧ s₅.process = none ∧
      s₅.disk = s₄.disk ∧ s₅.arrived = s₄.arrived :=
    ⟨_, .stop hp₄, rfl, rfl, rfl⟩
  rw [← hdisk₁, ← hdisk₄, ← hdisk₅] at hload'
  obtain ⟨s₆, h₅, hp₆, ha₆⟩ : ∃ s₆, Step twoBuildsSite s₅ _ s₆ ∧
      s₆.process = some (.new _ (buildGraphData data' current'.buildNumber.toNat)) ∧
      s₆.arrived = s₅.arrived :=
    ⟨_, .start_of_run hp₅ hload', rfl, rfl⟩
  obtain ⟨s₇, s₈, s₉, p₇, p₉, r', h₆, h₇, h₈, hp₇, _, hp₈, _, hr', _⟩ :=
    serves_range (w := twoBuildsSite) hp₆
  have harrived : s₆.arrived = 1 := by omega
  rw [ha₁] at h₂ h₃
  rw [harrived] at h₇ h₈
  let x : Execution (Step twoBuildsSite) :=
    { length := 9
      state := fun i => [⟨notesDisk, none, 0⟩, s₁, s₂, s₃, s₄, s₅, s₆, s₇, s₈].getD i s₉
      event := fun i => (restart r r').getD i .stop
      step := by
        intro i hi
        interval_cases i
        exacts [h₀, h₁, h₂, h₃, h₄, h₅, h₆, h₇, h₈] }
  have hlive : Alive x 1 3 := by
    intro i hi hi'
    interval_cases i
    exacts [Option.isSome_iff_exists.mpr ⟨_, hp₁⟩, Option.isSome_iff_exists.mpr ⟨_, hp₂⟩, hp₃]
  have hlive' : Alive x 6 8 := by
    intro i hi hi'
    interval_cases i
    exacts [Option.isSome_iff_exists.mpr ⟨_, hp₆⟩, Option.isSome_iff_exists.mpr ⟨_, hp₇⟩, hp₈]
  exact ⟨x, r, r', _, _,
    { length := rfl
      start := rfl
      event := fun _ => rfl
      started := hp₁
      alive := hlive
      started' := hp₆
      alive' := hlive'
      arrived := harrived
      reply := by rw [hr]; exact lists_of_idsInRange hids
      reply' := by rw [hr']; exact lists_of_idsInRange hids' }⟩

theorem restart_fetches {r r' : Reply} {i : ℕ} (hi : i < 9)
    (he : ((restart r r').getD i .stop).fetches = some host) :
    i = 0 ∧ host = publishes 1 ∨ i = 5 ∧ host = publishes 2 := by
  interval_cases i <;> cases he
  · exact .inl ⟨rfl, rfl⟩
  · exact .inr ⟨rfl, rfl⟩

theorem publishes_latest {build : UInt64} (hb : build = 1 ∨ build = 2) {latest : LatestManifest}
    (h : fetchLatestBuild twoBuildsSerde (publishes build) = .ok latest) :
    latest.buildNumber = build := by
  have hnumber : (fetchLatestBuild twoBuildsSerde (publishes build)).map
      LatestManifest.buildNumber = .ok build := by
    rcases hb with rfl | rfl <;> decide +kernel
  rw [h] at hnumber
  exact Except.ok.inj hnumber

theorem restarts_read_forward_restart : ∃ (x : Execution (Step twoBuildsSite)) (r r' : Reply),
    x.event 3 = .reply 0 0 (fun _ => 0) r ∧ r.lists [30002813] ∧ x.event 4 = .stop ∧
    x.event 5 = .start (fun _ => none) (fun _ => none) (publishes 2) ∧
    x.event 6 = .arrive (.routeRange askRange) ∧ x.event 8 = .reply 1 0 (fun _ => 0) r' ∧
    r'.lists [30002813, 30002537] ∧
    ∃ req₁ a₁ i₁ l₁ j₁ i₂ l₂ j₂ A₁ A₂,
      Answered x 3 0 (fun _ => 0) r req₁ a₁ i₁ l₁ j₁ ∧
      Answered x 8 (x.state 6).arrived (fun _ => 0) r' (.routeRange askRange) 6 i₂ l₂ j₂ ∧
      (x.state i₁).app? = some A₁ ∧ (x.state i₂).app? = some A₂ ∧
      A₁.graph.buildNumber ≤ A₂.graph.buildNumber := by
  obtain ⟨x, r, r', g, g', hx⟩ := exists_restart
  have hlen := hx.length
  have hfetches : ∀ i < x.length, ∀ host, (x.event i).fetches = some host →
      i = 0 ∧ host = publishes 1 ∨ i = 5 ∧ host = publishes 2 := by
    intro i hi host he
    rw [hx.event] at he
    exact restart_fetches (hlen ▸ hi) he
  have hfinds : ∀ i < x.length, ∀ latest, (x.event i).Finds twoBuildsSite latest →
      i = 0 ∧ latest.buildNumber = 1 ∨ i = 5 ∧ latest.buildNumber = 2 := by
    intro i hi latest hfinds
    obtain ⟨host, he, hlatest⟩ := hfinds
    rcases hfetches i hi host he with ⟨rfl, rfl⟩ | ⟨rfl, rfl⟩
    · exact .inl ⟨rfl, publishes_latest (.inl rfl) hlatest⟩
    · exact .inr ⟨rfl, publishes_latest (.inr rfl) hlatest⟩
  obtain ⟨p, hp⟩ := Option.isSome_iff_exists.mp (hx.alive 3 (by omega) (by omega))
  obtain ⟨q, hq⟩ := Option.isSome_iff_exists.mp (hx.alive' 8 (by omega) (by omega))
  have henv : p.env = fun _ => none := hx.alive.env (by omega) (by omega) hx.started hp
  have henv' : q.env = fun _ => none := hx.alive'.env (by omega) (by omega) hx.started' hq
  have he₈ : x.event 8 = .reply (x.state 6).arrived 0 (fun _ => 0) r' := hx.arrived ▸ hx.event 8
  refine ⟨x, r, r', hx.event 3, hx.reply, hx.event 4, hx.event 5, hx.event 6, hx.event 8,
    hx.reply', ?_⟩
  apply restarts_read_forward x (by rw [hx.start]) _ _ (by omega) (by omega) (by omega) (hx.event 3)
    (hx.event 6) he₈ hp (by rw [henv]; rfl) hq (by rw [henv']; rfl)
  · intro i hi host he
    rcases hfetches i hi host he with ⟨_, rfl⟩ | ⟨_, rfl⟩
    · exact readable_publishes (.inl rfl)
    · exact readable_publishes (.inr rfl)
  · constructor
    · intro i hi latest _ bytes named hbytes
      rw [hx.start] at hbytes
      cases hbytes
    · intro i j hij hj latest latest' hfound hfound'
      rcases hfinds i (by omega) latest hfound with ⟨_, hb⟩ | ⟨_, hb⟩ <;>
        rcases hfinds j hj latest' hfound' with ⟨_, hb'⟩ | ⟨_, hb'⟩ <;> rw [hb, hb']
      · decide
      · omega

end Reads

end Palu
