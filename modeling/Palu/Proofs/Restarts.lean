import Palu.Proofs.Lifetimes

namespace Palu

open Effects Executions

variable {archiveOf : UInt64 → Archive} {serde : Serde} {cache : SdeCache} {host : Host}
  {d s : Disk}

section Current

theorem Genuine.completeCurrent {current : CacheMetadata} (h : Genuine archiveOf d)
    (hcurrent : currentMetadata serde d = some current) : CompleteCurrent archiveOf serde d := by
  refine ⟨current, hcurrent, fun f hf => ?_⟩
  obtain ⟨_, _, _, hp⟩ := currentMetadata_eq_some.mp hcurrent
  obtain ⟨content, hc⟩ := Option.isSome_iff_exists.mp (buildFilesPresent_iff.mp hp f hf)
  obtain ⟨e, he, ht, rfl⟩ := exists_entry (h _ f hf content hc)
  exact ⟨e, he, ht, hc⟩

/-- What is written of a build for the host's manifest is read back as it was. -/
def Readable (serde : Serde) (host : Host) : Prop :=
  ∀ latest, fetchLatestBuild serde host = .ok latest →
    serde.decodeMetadata (serde.encodeMetadata (host.current latest)) = some (host.current latest)

theorem CompleteCurrent.install (hreadable : Readable serde host) (hhonest : Honest archiveOf host) :
    ∀ latest, fetchLatestBuild serde host = .ok latest →
      Keeps (CompleteCurrent archiveOf serde) (Palu.fetchAndInstall serde host latest) :=
  fun latest hlatest _ h => h.fetchAndInstall (hreadable latest hlatest) (hhonest _)

/-- A startup that succeeds leaves a complete current build. -/
theorem ensureCache_completeCurrent (hreadable : Readable serde host)
    (hhonest : Honest archiveOf host) (h : Genuine archiveOf d) {data : RawSdeData}
    {current : CacheMetadata}
    (hrun : run (ensureCache cache serde host) d = (.ok (data, current), s)) :
    CompleteCurrent archiveOf serde s := by
  have hkeeps := CompleteCurrent.install hreadable hhonest
  cases ensureCache_ok hrun with
  | @installed latest _ _ _ hlatest hinstall =>
    have hend := fetchAndInstall_triple serde host latest d rfl
    rw [hinstall] at hend
    obtain ⟨_, archive, hin⟩ := hend
    exact hin.toPromoted.completeCurrent (hreadable latest hlatest) (hhonest _)
  | refreshed hcached hrefresh | kept hcached hrefresh =>
    exact (checkAndRefresh_keeps hkeeps _).of_run (h.completeCurrent hcached) hrefresh

/-- Archives with all the required files parse. -/
def Parses (archiveOf : UInt64 → Archive) (rows : RowDecoder) : Prop :=
  ∀ build, (∀ f ∈ FILES, (contentOf (archiveOf build) f).isSome = true) →
    ∃ data, IsBuild archiveOf rows data build

theorem CompleteCurrent.loads (cache : SdeCache) {rows : RowDecoder}
    (hagree : ∀ build, Consistent (archiveOf build)) (hparses : Parses archiveOf rows)
    (h : CompleteCurrent archiveOf serde d) :
    ∃ current data, currentMetadata serde d = some current ∧
      loadBuild cache rows d current.buildNumber = .ok data := by
  obtain ⟨current, hcurrent, hfiles⟩ := h
  obtain ⟨_, _, _, hp⟩ := currentMetadata_eq_some.mp hcurrent
  have hcontent : ∀ f ∈ FILES, d.file (buildDirName current.buildNumber) f =
      contentOf (archiveOf current.buildNumber) f := by
    intro f hf
    obtain ⟨e, he, ht, hc⟩ := hfiles f hf
    rw [hc, (hagree _).contentOf he ht]
  obtain ⟨data, hdata⟩ := hparses current.buildNumber fun f hf => by
    rw [← hcontent f hf]
    exact buildFilesPresent_iff.mp hp f hf
  refine ⟨current, data, hcurrent, ?_⟩
  rw [loadBuild_of_present hp, loadFiles_congr hcontent]
  exact hdata

theorem not_stranded {cached : CacheMetadata} (hparses : Parses archiveOf serde.toRowDecoder)
    (hhonest : Honest archiveOf host) : ¬ Stranded serde host d cached := by
  intro h
  obtain ⟨latest, archive, _, _, hinstalls, ⟨e, he⟩, _⟩ := h
  obtain rfl := hhonest _ archive hinstalls.downloaded
  obtain ⟨data, hdata⟩ := hparses latest.buildNumber hinstalls.complete
  cases he.symm.trans hdata

/-- Over a complete current build, a startup that is not cut off succeeds, however
its calls fare. -/
theorem CompleteCurrent.starts (cache : SdeCache) (hagree : ∀ build, Consistent (archiveOf build))
    (hparses : Parses archiveOf serde.toRowDecoder) (hhonest : Honest archiveOf host)
    (huncut : host.Uncut) (h : CompleteCurrent archiveOf serde d) :
    ∃ r s, run (ensureCache cache serde host) d = (.ok r, s) := by
  suffices hok : ∃ r, (run (ensureCache cache serde host) d).1 = .ok r by
    obtain ⟨r, hr⟩ := hok
    exact ⟨r, _, Prod.ext hr rfl⟩
  obtain ⟨cached, data, hcached, hload⟩ := h.loads cache hagree hparses
  have hends := checkAndRefresh_triple cache serde host cached.buildNumber.toNat d rfl
  rw [run_ensureCache cache host hcached]
  match hr : run (checkAndRefresh cache serde host cached.buildNumber.toNat) d with
  | (.ok .upToDate, s) =>
    rw [hr] at hends
    cases hends
    exact ⟨(data, cached), by simp [hload, Except.map, Except.mapError]⟩
  | (.ok (.updated data current), s) => exact ⟨(data, current), rfl⟩
  | (.error (.error e), s) =>
    rw [hr] at hends
    have hkept := (RefreshFailed.loads_iff hends hload).mpr (not_stranded hparses hhonest)
    exact ⟨(data, cached), by simp [hkept, Except.map, Except.mapError]⟩
  | (.error .crash, s) =>
    exact absurd (congrArg Prod.fst hr) (checkAndRefresh_neverCrashes huncut _ d)

end Current

section Server
variable {w : Deployment} {s t : Server} {e : Event} {p : Process}

/-- A process that serves from the cache leaves a complete current build there. -/
def Restartable (w : Deployment) (archiveOf : UInt64 → Archive) (s : Server) : Prop :=
  ∀ p, s.process = some p → resolveSdeDir p.env = none → CompleteCurrent archiveOf w.serde s.disk

theorem Step.completeCurrent (hs : Step w s e t)
    (hhosts : ∀ host, e.via = some host → Readable w.serde host ∧ Honest archiveOf host)
    (h : CompleteCurrent archiveOf w.serde s.disk) : CompleteCurrent archiveOf w.serde t.disk := by
  apply hs.keeps _ h
  intro host he
  obtain ⟨hreadable, hhonest⟩ := hhosts host he
  exact CompleteCurrent.install hreadable hhonest

theorem Step.restartable (hs : Step w s e t)
    (hhosts : ∀ host, e.via = some host → Readable w.serde host ∧ Honest archiveOf host)
    (hgenuine : Genuine archiveOf s.disk) (h : Restartable w archiveOf s) :
    Restartable w archiveOf t := by
  intro p' hp' hcache
  rcases hs.alive hp' with ⟨p, hp, henv⟩ | ⟨env, files, host, rfl, _, data, current, disk, hrun, rfl, rfl⟩
  · exact hs.completeCurrent hhosts (h p hp (henv ▸ hcache))
  · have hcache : resolveSdeDir env = none := hcache
    obtain ⟨hreadable, hhonest⟩ := hhosts host rfl
    rw [loadSde, hcache] at hrun
    exact ensureCache_completeCurrent hreadable hhonest hgenuine (run_context_ok.mp hrun)

/-- Once a process has come up from the cache, every later startup comes up, however
the builds since then have ended, and whatever becomes of its own calls. -/
theorem restarts_serve (x : Execution (Step w)) (hagree : ∀ build, Consistent (archiveOf build))
    (hparses : Parses archiveOf w.serde.toRowDecoder)
    (hhosts : ∀ i < x.length, ∀ host, (x.event i).via = some host →
      Readable w.serde host ∧ Honest archiveOf host)
    (hstart : (x.state 0).process = none) (hgenuine : Genuine archiveOf (x.state 0).disk)
    {m k : ℕ} (hmk : m ≤ k) (hk : k ≤ x.length) (hp : (x.state m).process = some p)
    (hcache : resolveSdeDir p.env = none) (env : Env) (files : String → Option Bytes) (host : Host)
    (hcache' : resolveSdeDir env = none) (huncut : host.Uncut) (hhonest : Honest archiveOf host) :
    ∃ p', ((x.state k).started w env files host).process = some p' ∧
      ServesPublished w archiveOf p' := by
  have hfaithful := faithful hagree (fun i hi host he => (hhosts i hi host he).2) hstart hgenuine
  have hrestart : Restartable w archiveOf (x.state m) := by
    apply x.along (I := fun _ => Restartable w archiveOf) _ _ m (by omega)
    · exact fun p hp => absurd (hstart.symm.trans hp) (by simp)
    · exact fun i hi => (x.step i hi).restartable (hhosts i hi) (hfaithful i hi.le).disk
  have hcurrent : CompleteCurrent archiveOf w.serde (x.state k).disk := by
    apply x.stretch (r := fun s t => CompleteCurrent archiveOf w.serde s.disk →
      CompleteCurrent archiveOf w.serde t.disk) (fun _ h => h) (fun _ _ _ h h' => h' ∘ h) hmk
      (fun i _ hi => (x.step i (by omega)).completeCurrent (hhosts i (by omega)))
    exact hrestart p hp hcache
  obtain ⟨⟨data, current⟩, disk, hrun⟩ := hcurrent.starts w.cache hagree hparses hhonest huncut
  have hload : run (loadSde w env files host) (x.state k).disk = (.ok (data, current), disk) := by
    rw [loadSde, hcache']
    exact run_context_ok.mpr hrun
  have hnew : ((x.state k).started w env files host).process =
      some (.new env (buildGraphData data current.buildNumber.toNat)) := by
    rw [Server.started, hload]
  refine ⟨_, hnew, ServesPublished.new env ?_⟩
  exact ensureCache_isBuild hagree hhonest (hfaithful k hk).disk hrun

theorem readable_publishes (hb : host = publishes 1 ∨ host = publishes 2) :
    Readable twoBuildsSerde host := by
  intro latest hlatest
  have hread : (fetchLatestBuild twoBuildsSerde host).map (fun latest =>
      decide (twoBuildsSerde.decodeMetadata (twoBuildsSerde.encodeMetadata (host.current latest)) =
        some (host.current latest))) = .ok true := by
    rcases hb with rfl | rfl <;> decide +kernel
  rw [hlatest] at hread
  exact of_decide_eq_true (Except.ok.inj hread)

theorem parses_twoBuilds : Parses twoBuildsArchive twoBuildsSerde.toRowDecoder := by
  intro build _
  have hone : (loadFiles twoBuildsSerde.toRowDecoder
      (contentOf (twoBuildsArchive 1))).toBool = true := by decide +kernel
  have htwo : (loadFiles twoBuildsSerde.toRowDecoder
      (contentOf (twoBuildsArchive 2))).toBool = true := by decide +kernel
  have hload : (loadFiles twoBuildsSerde.toRowDecoder
      (contentOf (twoBuildsArchive build))).toBool = true := by
    by_cases hb : build = 1
    · rw [hb]
      exact hone
    -- The other builds hold what the second holds.
    · have hsame : twoBuildsContent build = twoBuildsContent 2 := by
        funext f
        simp [twoBuildsContent, hb]
      rw [twoBuildsArchive, hsame]
      exact htwo
  unfold IsBuild
  cases hl : loadFiles twoBuildsSerde.toRowDecoder (contentOf (twoBuildsArchive build)) with
  | ok data => exact ⟨data, rfl⟩
  | error e =>
    rw [hl] at hload
    cases hload

/-- Nothing answers. -/
def offline : Host :=
  { twoBuildsHost (fun _ => .done) 1 with
    manifest := .unsent "error sending request"
    download := fun _ => .unsent "error sending request" }

theorem restarts_serve_session : ∃ x : Execution (Step twoBuildsSite), x.event 14 = .stop ∧
    ∃ p', ((x.state 15).started twoBuildsSite (fun _ => none) (fun _ => none) offline).process =
        some p' ∧ ServesPublished twoBuildsSite twoBuildsArchive p' := by
  obtain ⟨x, r, r', g, hx⟩ := exists_session
  have hlen := hx.length
  refine ⟨x, hx.event 14, ?_⟩
  apply restarts_serve x (fun _ => consistent_archiveWith _) parses_twoBuilds _ (by rw [hx.start])
    (by rw [hx.start]; exact genuine_notesDisk) (m := 1) (by omega) (by omega) hx.started rfl
    (fun _ => none) (fun _ => none) offline rfl (fun _ _ he => by cases he)
    (fun _ _ he => by cases he)
  intro i hi host hvia
  rw [hx.event] at hvia
  have hb := session_via (hlen ▸ hi) hvia
  refine ⟨readable_publishes hb, ?_⟩
  rcases hb with rfl | rfl <;> exact honest_twoBuildsHost _ _

end Server

end Palu
