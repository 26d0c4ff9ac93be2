import Palu.Proofs.Keeping
import Palu.Proofs.Ticks

namespace Palu

open Effects Executions

variable {archiveOf : UInt64 → Archive} {serde : Serde} {cache : SdeCache} {host : Host}
  {d s : Disk} {build : UInt64}

section Foreign

/-- No build's directory has such a name. -/
theorem ne_buildDirName {m : String} (hm : parseU64 m = none) (build : UInt64) :
    m ≠ buildDirName build := by
  rintro rfl
  rw [parseU64_buildDirName] at hm
  cases hm

theorem kept_foreign {m : String} (hm : parseU64 m = none) (files : Option Dir) :
    Kept (fun _ => True) fun d => d.dir m = files where
  dirs hdirs hd := by rw [Disk.dir, hdirs, ← Disk.dir, hd]
  fetched _ hs hd := by
    obtain ⟨_, _, hx⟩ := hs
    rw [hx.others m (ne_buildDirName hm _), hd]
  removeFile hb hd := by
    rw [Disk.removeFile, dir_updateDir, if_neg, hd]
    rintro rfl
    cases hm.symm.trans hb
  removeDir hb hd := by
    rw [dir_removeDir, if_neg, hd]
    rintro rfl
    cases hm.symm.trans hb

end Foreign

section Genuine

/-- The entries of an archive for one required file agree. -/
def Consistent (archive : Archive) : Prop := ∀ e ∈ archive, ∀ e' ∈ archive, ∀ f,
  e.target = some f → e'.target = some f → e.content = e'.content

theorem Consistent.contentOf {archive : Archive} (h : Consistent archive) {e : ZipEntry}
    {f : String} (he : e ∈ archive) (ht : e.target = some f) :
    contentOf archive f = some e.content := by
  cases hc : Palu.contentOf archive f with
  | none =>
    have := List.find?_eq_none.mp (Option.map_eq_none_iff.mp hc) e (List.mem_reverse.mpr he)
    simp [ht] at this
  | some content =>
    obtain ⟨e', he', ht', rfl⟩ := exists_entry hc
    rw [h e he e' he' f ht ht']

/-- Every required file in the directory of a build is that of the build's archive. -/
def Genuine (archiveOf : UInt64 → Archive) (d : Disk) : Prop := ∀ build, ∀ f ∈ FILES, ∀ content,
  d.file (buildDirName build) f = some content → contentOf (archiveOf build) f = some content

theorem Genuine.of_subset (h : Genuine archiveOf d)
    (hs : ∀ n f content, s.file n f = some content → d.file n f = some content) :
    Genuine archiveOf s :=
  fun build f hf content hc => h build f hf content (hs _ f content hc)

theorem file_removeFile {n m f g : String} {content : Bytes}
    (h : (d.removeFile n f).file m g = some content) : d.file m g = some content := by
  rw [Disk.removeFile, Disk.file, dir_updateDir] at h
  split at h
  · rename_i hm
    subst hm
    obtain ⟨files, hfiles, hc⟩ := Option.bind_eq_some_iff.mp h
    obtain ⟨old, hold, rfl⟩ := Option.map_eq_some_iff.mp hfiles
    rw [file_eq_of_dir hold]
    by_cases hgf : g = f
    · subst hgf
      rw [AList.lookup_erase] at hc
      cases hc
    · rwa [AList.lookup_erase_ne hgf] at hc
  · exact h

theorem file_removeDir {n m g : String} {content : Bytes}
    (h : (d.removeDir n).file m g = some content) : d.file m g = some content := by
  rw [Disk.file, dir_removeDir] at h
  split at h
  · cases h
  · exact h

theorem Genuine.partlyFetched (h : Genuine archiveOf d) (hserves : Serves archiveOf host build)
    (hagree : Consistent (archiveOf build)) (hs : PartlyFetched host d build s) :
    Genuine archiveOf s := by
  obtain ⟨front, hfront, hx⟩ := hs
  intro other f hf content hc
  by_cases hb : other = build
  · subst hb
    rw [hx.files f hf] at hc
    rcases Option.or_eq_some_iff.mp hc with hc | ⟨_, hc⟩
    · obtain ⟨e, he, htarget, rfl⟩ := exists_entry hc
      obtain ⟨archive, hdown, hmem⟩ := hfront e he
      exact hagree.contentOf (hserves archive hdown ▸ hmem) htarget
    · exact h other f hf content hc
  · rw [Disk.file, hx.others _ fun he => hb (buildDirName_injective he)] at hc
    exact h other f hf content hc

theorem kept_genuine (hagree : ∀ build, Consistent (archiveOf build)) :
    Kept (fun host => ∀ build, Serves archiveOf host build) (Genuine archiveOf) where
  dirs {d s} hdirs hd := by
    refine hd.of_subset fun n f content hc => ?_
    rwa [Disk.file, Disk.dir, hdirs] at hc
  fetched hserves hs hd := hd.partlyFetched (hserves _) (hagree _) hs
  removeFile _ hd := hd.of_subset fun _ _ _ => file_removeFile
  removeDir _ hd := hd.of_subset fun _ _ _ => file_removeDir

/-- The data are those that the build's archive parses to. -/
def IsBuild (archiveOf : UInt64 → Archive) (rows : RowDecoder) (data : RawSdeData)
    (build : UInt64) : Prop := loadFiles rows (contentOf (archiveOf build)) = .ok data

theorem Genuine.loadBuild {rows : RowDecoder} (h : Genuine archiveOf d)
    (hp : buildFilesPresent d build = true) :
    Palu.loadBuild cache rows d build = loadFiles rows (contentOf (archiveOf build)) := by
  rw [loadBuild_of_present hp]
  apply loadFiles_congr
  intro f hf
  obtain ⟨content, hc⟩ := Option.isSome_iff_exists.mp (buildFilesPresent_iff.mp hp f hf)
  rw [hc, h build f hf content hc]

theorem Genuine.isBuild {rows : RowDecoder} {data : RawSdeData} (h : Genuine archiveOf d)
    (hload : Palu.loadBuild cache rows d build = .ok data) : IsBuild archiveOf rows data build := by
  have hp : buildFilesPresent d build = true := by
    by_contra hno
    rw [Palu.loadBuild, if_neg hno] at hload
    cases hload
  rw [h.loadBuild hp] at hload
  exact hload

theorem checkAndRefresh_isBuild {b : ℕ} {data : RawSdeData} {current : CacheMetadata}
    (hserves : ∀ build, Serves archiveOf host build)
    (hrun : run (checkAndRefresh cache serde host b) d = (.ok (.updated data current), s)) :
    IsBuild archiveOf serde.toRowDecoder data current.buildNumber := by
  obtain ⟨latest, archive, _, _, rfl, hs, hdata⟩ := checkAndRefresh_updated hrun
  obtain rfl := hserves _ archive hs.downloaded
  exact hdata

/-- Whatever startup loads from a genuine cache is a published build. -/
theorem ensureCache_isBuild (hagree : ∀ build, Consistent (archiveOf build))
    (hserves : ∀ build, Serves archiveOf host build) (h : Genuine archiveOf d)
    {data : RawSdeData} {current : CacheMetadata}
    (hrun : run (ensureCache cache serde host) d = (.ok (data, current), s)) :
    IsBuild archiveOf serde.toRowDecoder data current.buildNumber := by
  have hkept : ∀ latest, Keeps (Genuine archiveOf) (fetchAndInstall serde host latest) :=
    (kept_genuine hagree).fetchAndInstall hserves
  cases ensureCache_ok hrun with
  | installed _ _ hinstall hload => exact ((hkept _).of_run h hinstall).isBuild hload
  | refreshed _ hrefresh => exact checkAndRefresh_isBuild hserves hrefresh
  | kept _ hrefresh hload =>
    exact ((checkAndRefresh_keeps (fun latest _ => hkept latest) _).of_run h hrefresh).isBuild hload

end Genuine

section Server
variable {w : Deployment} {s t : Server} {e : Event} {p p' : Process} {x : Execution (Step w)}

/-- The host that a step deals with the cache through. -/
def Event.via : Event → Option Host
  | .start _ _ host | .check host => some host
  | _ => none

/-- The same, except that a startup from a directory makes no use of its host. -/
def Event.fetches : Event → Option Host
  | .start env _ host =>
    match resolveSdeDir env with
    | some _ => none
    | none => some host
  | .check host => some host
  | _ => none

theorem Event.via_of_fetches (he : e.fetches = some host) : e.via = some host := by
  unfold Event.fetches at he
  split at he
  · split at he
    · cases he
    · exact he
  · exact he
  · cases he

theorem loadSde_keeps {I : Disk → Prop} (env : Env) (files : String → Option Bytes)
    (hinstall : resolveSdeDir env = none → ∀ latest, fetchLatestBuild w.serde host = .ok latest →
      Keeps I (fetchAndInstall w.serde host latest)) : Keeps I (loadSde w env files host) := by
  unfold loadSde
  split
  · exact (Keeps.ofExcept _).context
  · rename_i hcache
    exact (ensureCache_keeps (hinstall hcache)).context

theorem Step.keeps_fetching {I : Disk → Prop} (hs : Step w s e t)
    (hinstall : ∀ host, e.fetches = some host → ∀ latest,
      fetchLatestBuild w.serde host = .ok latest → Keeps I (fetchAndInstall w.serde host latest))
    (hI : I s.disk) : I t.disk := by
  cases hs with
  | @start env files host =>
    have h := loadSde_keeps env files (fun hcache => hinstall host (by simp [Event.fetches, hcache]))
      _ hI
    unfold Server.started
    match hr : run (loadSde w env files host) s.disk with
    | (.ok (data, current), disk) | (.error _, disk) =>
      rw [hr] at h
      exact h
  | @check p b host =>
    exact checkAndRefresh_keeps (hinstall host rfl) b _ hI
  | stop | reloadTick | swap | stamp | poll | store | arrive | load | reply => exact hI

theorem Step.keeps {I : Disk → Prop} (hs : Step w s e t)
    (hinstall : ∀ host, e.via = some host → ∀ latest, fetchLatestBuild w.serde host = .ok latest →
      Keeps I (fetchAndInstall w.serde host latest)) (hI : I s.disk) : I t.disk :=
  hs.keeps_fetching (fun host he => hinstall host (Event.via_of_fetches he)) hI

/-- Over every run, however the process fares, a directory whose name is no build
number stays as it was. -/
theorem foreign_untouched (x : Execution (Step w)) {m : String} (hm : parseU64 m = none) :
    ∀ k ≤ x.length, (x.state k).disk.dir m = (x.state 0).disk.dir m := by
  apply x.invariant (I := fun s => s.disk.dir m = (x.state 0).disk.dir m) rfl
  intro s e t hs
  exact hs.keeps fun host _ latest _ => (kept_foreign hm _).fetchAndInstall trivial latest

theorem foreign_untouched_session : ∃ x : Execution (Step twoBuildsSite), x.length = 15 ∧
    (x.state 0).disk.dir "notes" =
      some (AList.singleton "todo.txt" (utf8 "renew the certificate\n")) ∧
    ∀ k ≤ x.length, (x.state k).disk.dir "notes" = (x.state 0).disk.dir "notes" := by
  obtain ⟨x, _, _, _, hx⟩ := exists_session
  refine ⟨x, hx.length, ?_, foreign_untouched x (by decide +kernel)⟩
  rw [hx.start]
  exact AList.lookup_insert ∅

/-- A host that answers for a build answers with its archive. -/
def Honest (archiveOf : UInt64 → Archive) (host : Host) : Prop :=
  ∀ build, Serves archiveOf host build

/-- The map in place, and one that is to replace it, is that of a published build. -/
structure ServesPublished (w : Deployment) (archiveOf : UInt64 → Archive) (p : Process) : Prop where
  graph : ∃ build data, IsBuild archiveOf w.serde.toRowDecoder data build ∧
    p.app.graph = buildGraphData data build.toNat
  refreshed : ∀ data current, p.reload = .refreshed data current →
    IsBuild archiveOf w.serde.toRowDecoder data current.buildNumber

theorem ServesPublished.new (env : Env) {data : RawSdeData}
    (h : IsBuild archiveOf w.serde.toRowDecoder data build) :
    ServesPublished w archiveOf (.new env (buildGraphData data build.toNat)) :=
  ⟨⟨build, data, h, rfl⟩, fun _ _ hd => absurd hd (Process.new_not_refreshed _ _ _ _)⟩

theorem ReloadStep.published (hs : ReloadStep e p p') (h : ServesPublished w archiveOf p) :
    ServesPublished w archiveOf p' := by
  cases hs with
  | none hgraph _ htask => exact ⟨by rw [hgraph]; exact h.graph, by rw [htask]; exact h.refreshed⟩
  | tick _ htask' happ => exact ⟨by rw [happ]; exact h.graph, by simp [htask']⟩
  | @swap data current htask htask' hgraph =>
    exact ⟨⟨_, data, h.refreshed data current htask, hgraph⟩, by simp [htask']⟩
  | stamp _ htask' hgraph => exact ⟨by rw [hgraph]; exact h.graph, by simp [htask']⟩

theorem Step.check_published (hs : Step w s (.check host) t) (hhonest : Honest archiveOf host)
    (hp : s.process = some p) (h : ServesPublished w archiveOf p) (hp' : t.process = some p') :
    ServesPublished w archiveOf p' := by
  cases hs with
  | @check q b _ hq ht =>
    cases hp.symm.trans hq
    unfold Server.checked at hp'
    match hr : run (checkAndRefresh w.cache w.serde host b) s.disk with
    | (.ok .upToDate, disk) | (.error (.error _), disk) =>
      rw [hr] at hp'
      cases hp'
      exact ⟨h.graph, by simp⟩
    | (.ok (.updated data current), disk) =>
      rw [hr] at hp'
      cases hp'
      refine ⟨h.graph, fun data' current' hd => ?_⟩
      cases hd
      exact checkAndRefresh_isBuild hhonest hr
    | (.error .crash, disk) =>
      rw [hr] at hp'
      cases hp'

/-- The cache is genuine, and a process that loads from it has a published map. -/
structure Faithful (w : Deployment) (archiveOf : UInt64 → Archive) (s : Server) : Prop where
  disk : Genuine archiveOf s.disk
  process : ∀ p, s.process = some p → resolveSdeDir p.env = none → ServesPublished w archiveOf p

theorem Step.faithful (hs : Step w s e t) (hagree : ∀ build, Consistent (archiveOf build))
    (hhonest : ∀ host, e.via = some host → Honest archiveOf host) (h : Faithful w archiveOf s) :
    Faithful w archiveOf t := by
  constructor
  · apply hs.keeps _ h.disk
    exact fun host he latest _ => (kept_genuine hagree).fetchAndInstall (hhonest host he) latest
  intro p' hp' hcache
  rcases hs.alive hp' with ⟨p, hp, henv⟩ | ⟨env, files, host, rfl, _, data, current, disk, hrun, _, rfl⟩
  · have hpub := h.process p hp (henv ▸ hcache)
    cases he : e.checks with
    | none => exact (hs.reloadStep hp hp' he).1.published hpub
    | some host =>
      cases e with
      | check host' => exact hs.check_published (hhonest host' rfl) hp hpub hp'
      | _ => cases he
  · have hcache : resolveSdeDir env = none := hcache
    rw [loadSde, hcache] at hrun
    have hbuild := ensureCache_isBuild hagree (hhonest host rfl) h.disk (run_context_ok.mp hrun)
    exact .new env hbuild

theorem faithful {x : Execution (Step w)} (hagree : ∀ build, Consistent (archiveOf build))
    (hhonest : ∀ i < x.length, ∀ host, (x.event i).via = some host → Honest archiveOf host)
    (hstart : (x.state 0).process = none) (hgenuine : Genuine archiveOf (x.state 0).disk) :
    ∀ k ≤ x.length, Faithful w archiveOf (x.state k) := by
  apply x.along (I := fun _ => Faithful w archiveOf)
  · exact ⟨hgenuine, fun p hp => absurd (hstart.symm.trans hp) (by simp)⟩
  · exact fun i hi h => (x.step i hi).faithful hagree (hhonest i hi) h

/-- A process that serves from the cache answers on the map of a published build. -/
theorem answered_published (x : Execution (Step w))
    (hagree : ∀ build, Consistent (archiveOf build))
    (hhonest : ∀ i < x.length, ∀ host, (x.event i).via = some host → Honest archiveOf host)
    (hstart : (x.state 0).process = none) (hgenuine : Genuine archiveOf (x.state 0).disk)
    {k id worker : ℕ} (hk : k < x.length) {clock : ℕ → Instant} {reply : Reply}
    (he : x.event k = .reply id worker clock reply) (hp : (x.state k).process = some p)
    (hcache : resolveSdeDir p.env = none) :
    ∃ req a i l j, Answered x k id clock reply req a i l j ∧
      ∃ build data, IsBuild archiveOf w.serde.toRowDecoder data build ∧
        ∀ A, (x.state i).app? = some A → A.graph = buildGraphData data build.toNat := by
  obtain ⟨req, a, i, l, j, hx⟩ := replies_answered x hstart hk he
  obtain ⟨q, hq, happ, henv⟩ := hx.loading hk.le hp
  have hi : i ≤ x.length := by
    have := hx.order
    omega
  have hpub := (faithful hagree hhonest hstart hgenuine i hi).process q hq (henv ▸ hcache)
  obtain ⟨build, data, hbuild, hgraph⟩ := hpub.graph
  refine ⟨req, a, i, l, j, hx, build, data, hbuild, fun A hA => ?_⟩
  cases happ.symm.trans hA
  exact hgraph

/-- Whatever builds come out, and however installing them ends, every reply of a
process that serves from the cache is the answer on a published build. -/
theorem replies_published (x : Execution (Step w)) (hagree : ∀ build, Consistent (archiveOf build))
    (hhonest : ∀ i < x.length, ∀ host, (x.event i).via = some host → Honest archiveOf host)
    (hstart : (x.state 0).process = none) (hgenuine : Genuine archiveOf (x.state 0).disk)
    {k id worker : ℕ} (hk : k < x.length) {clock : ℕ → Instant} {reply : Reply}
    (he : x.event k = .reply id worker clock reply) (hp : (x.state k).process = some p)
    (hcache : resolveSdeDir p.env = none) :
    ∃ req, (∃ a < k, x.event a = .arrive req ∧ (x.state a).arrived = id) ∧
      ∃ build data lastReloadAt scout, IsBuild archiveOf w.serde.toRowDecoder data build ∧
        Answers w p.env clock (buildGraphData data build.toNat) lastReloadAt scout req reply := by
  obtain ⟨req, a, i, l, j, hx, build, data, hbuild, hgraph⟩ :=
    answered_published x hagree hhonest hstart hgenuine hk he hp hcache
  obtain ⟨hai, hil, hlj, hjk⟩ := hx.order
  obtain ⟨q, A, B, C, hq, hA, _, _, hanswers⟩ := hx.answers
  obtain rfl : q = p := Option.some.inj (hq.symm.trans hp)
  rw [hgraph A hA] at hanswers
  refine ⟨req, ⟨a, by omega, hx.came⟩, ?_⟩
  exact ⟨build, data, B.lastReloadAt, C.eveScout, hbuild, hanswers⟩

theorem consistent_archiveWith (content : String → Bytes) : Consistent (archiveWith content) := by
  have hname : ∀ f ∈ FILES, (ZipEntry.mk ("Latest/" ++ f) []).target = some f := by decide +kernel
  have hcontent : ∀ e ∈ archiveWith content, ∀ f, e.target = some f → e.content = content f := by
    intro e he f ht
    obtain ⟨f', hf', rfl⟩ := List.mem_map.mp he
    cases (hname f' hf').symm.trans ht
    rfl
  intro e he e' he' f ht ht'
  rw [hcontent e he f ht, hcontent e' he' f ht']

theorem honest_twoBuildsHost (fate : Site → Fate Trace) (latest : UInt64) :
    Honest twoBuildsArchive (twoBuildsHost fate latest) := by
  intro build archive h
  cases h
  rfl

theorem genuine_notesDisk : Genuine archiveOf notesDisk := by
  intro build f _ content hc
  have hnone : notesDisk.dir (buildDirName build) = none :=
    AList.lookup_eq_none.mpr fun hm => by
      have hname : buildDirName build = "notes" := List.mem_singleton.mp hm
      exact ne_buildDirName (by decide +kernel) build hname.symm
  rw [Disk.file, hnone] at hc
  cases hc

theorem session_via {r r' : Reply} {i : ℕ} (hi : i < 15)
    (he : ((session r r').getD i .stop).via = some host) : host = publishes 1 ∨ host = publishes 2 := by
  interval_cases i <;> cases he
  · exact .inl rfl
  · exact .inr rfl

theorem replies_published_session : ∃ (x : Execution (Step twoBuildsSite)) (p : Process) (r : Reply),
    x.event 12 = .reply 1 0 (fun _ => 0) r ∧ r.lists [30002813, 30002537] ∧
    (x.state 12).process = some p ∧
    ∃ req, (∃ a < 12, x.event a = .arrive req ∧ (x.state a).arrived = 1) ∧
      ∃ build data lastReloadAt scout,
        IsBuild twoBuildsArchive twoBuildsSite.serde.toRowDecoder data build ∧
        Answers twoBuildsSite p.env (fun _ => 0) (buildGraphData data build.toNat) lastReloadAt scout
          req r := by
  obtain ⟨x, r, r', g, hx⟩ := exists_session
  have hlen := hx.length
  have he : x.event 12 = .reply 1 0 (fun _ => 0) r' := hx.event 12
  obtain ⟨p, hp⟩ := Option.isSome_iff_exists.mp (hx.alive 12 (by omega) (by omega))
  have henv : p.env = fun _ => none :=
    Alive.env (fun i hi hi' => hx.alive i hi (by omega)) (by omega) (by omega) hx.started hp
  refine ⟨x, p, r', he, hx.reply', hp, ?_⟩
  apply replies_published x (fun _ => consistent_archiveWith _) _ (by rw [hx.start])
    (by rw [hx.start]; exact genuine_notesDisk) (by omega) he hp (by rw [henv]; rfl)
  intro i hi host hvia
  rw [hx.event] at hvia
  rcases session_via (hlen ▸ hi) hvia with rfl | rfl <;> exact honest_twoBuildsHost _ _

end Server

end Palu
