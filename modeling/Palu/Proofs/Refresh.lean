import Palu.Proofs.CrashSafety

namespace Palu

open Effects

variable {cache : SdeCache} {serde : Serde} {host : Host} {d d₀ s : Disk} {latest : LatestManifest}
  {archive : Archive} {build : UInt64}

section Loading

theorem loadFiles_congr {rows : RowDecoder} {files files' : String → Option Bytes}
    (h : ∀ f ∈ FILES, files f = files' f) : loadFiles rows files = loadFiles rows files' := by
  have hopen : ∀ f ∈ FILES, openFile files f = openFile files' f := by
    intro f hf
    rw [openFile, openFile, h f hf]
  unfold loadFiles parseFile loadHullCatalog
  rw [hopen "mapSolarSystems.jsonl" (by decide), hopen "mapStargates.jsonl" (by decide),
    hopen "types.jsonl" (by decide), hopen "typeDogma.jsonl" (by decide)]

theorem loadBuild_of_present {rows : RowDecoder} (h : buildFilesPresent d build = true) :
    loadBuild cache rows d build = loadFiles rows (d.file (buildDirName build)) :=
  if_pos h

/-- Loading a build reads nothing but its required files. -/
theorem loadBuild_congr {rows : RowDecoder}
    (h : ∀ f ∈ FILES, s.file (buildDirName build) f = d.file (buildDirName build) f) :
    loadBuild cache rows s build = loadBuild cache rows d build := by
  have hpresent : buildFilesPresent s build = buildFilesPresent d build := by
    rw [Bool.eq_iff_iff, buildFilesPresent_iff, buildFilesPresent_iff]
    exact forall₂_congr fun f hf => by rw [h f hf]
  rw [loadBuild, loadBuild, hpresent, loadFiles_congr h]

theorem loadBuild_missing {rows : RowDecoder} {f : String} (hf : f ∈ FILES)
    (h : s.file (buildDirName build) f = none) : ∃ e, loadBuild cache rows s build = .error e := by
  have hno : ¬ buildFilesPresent s build = true := by
    intro hp
    have := buildFilesPresent_iff.mp hp f hf
    rw [h] at this
    cases this
  rw [loadBuild, if_neg hno]
  exact ⟨_, rfl⟩

/-- A promoted build loads as its archive parses. -/
theorem Promoted.loadBuild {rows : RowDecoder} (h : Promoted serde host latest archive s) :
    loadBuild cache rows s latest.buildNumber = loadFiles rows (contentOf archive) := by
  rw [loadBuild_of_present, loadFiles_congr h.files]
  apply buildFilesPresent_iff.mpr
  intro f hf
  rw [h.files f hf]
  exact h.complete f hf

end Loading

section Refresh

/-- How the check ends when it succeeds. -/
inductive Refreshed (serde : Serde) (host : Host) (d₀ : Disk) (currentBuild : ℕ) :
    RefreshOutcome → Disk → Prop where
  | upToDate (latest : LatestManifest) (hlatest : fetchLatestBuild serde host = .ok latest)
      (heq : latest.buildNumber.toNat = currentBuild) : Refreshed serde host d₀ currentBuild .upToDate d₀
  | updated (latest : LatestManifest) (archive : Archive) (data : RawSdeData) (s : Disk)
      (hlatest : fetchLatestBuild serde host = .ok latest)
      (hne : latest.buildNumber.toNat ≠ currentBuild)
      (hs : Installed serde host d₀ latest archive s)
      (hdata : loadFiles serde.toRowDecoder (contentOf archive) = .ok data) :
      Refreshed serde host d₀ currentBuild (.updated data (host.current latest)) s

/-- How the check ends when it fails. -/
inductive RefreshFailed (serde : Serde) (host : Host) (d₀ : Disk) (currentBuild : ℕ) :
    Disk → Prop where
  | unknown (h : ∀ latest, fetchLatestBuild serde host ≠ .ok latest) :
      RefreshFailed serde host d₀ currentBuild d₀
  | notInstalled (latest : LatestManifest) (s : Disk)
      (hlatest : fetchLatestBuild serde host = .ok latest)
      (hne : latest.buildNumber.toNat ≠ currentBuild)
      (hs : PartlyFetched host d₀ latest.buildNumber s)
      (hno : ¬ ∃ archive, Installs host d₀ latest.buildNumber archive) :
      RefreshFailed serde host d₀ currentBuild s
  | notLoaded (latest : LatestManifest) (archive : Archive) (e : Trace) (s : Disk)
      (hlatest : fetchLatestBuild serde host = .ok latest)
      (hne : latest.buildNumber.toNat ≠ currentBuild)
      (hs : Installed serde host d₀ latest archive s)
      (he : loadFiles serde.toRowDecoder (contentOf archive) = .error e) :
      RefreshFailed serde host d₀ currentBuild s

theorem checkAndRefresh_triple (cache : SdeCache) (serde : Serde) (host : Host)
    (currentBuild : ℕ) :
    Triple (fun s => s = d₀) (checkAndRefresh cache serde host currentBuild)
      (Refreshed serde host d₀ currentBuild) (RefreshFailed serde host d₀ currentBuild)
      (fun _ => True) := by
  unfold checkAndRefresh
  apply Triple.bind (R := fun latest s => s = d₀ ∧ fetchLatestBuild serde host = .ok latest)
  · apply Triple.context
    cases hlatest : fetchLatestBuild serde host with
    | ok latest => exact Triple.pure_at ⟨rfl, rfl⟩
    | error e =>
      apply Triple.fail_at
      exact .unknown (by simp [hlatest])
  intro latest
  apply Triple.of_state
  intro s₀ hs₀
  obtain ⟨rfl, hlatest⟩ := hs₀
  by_cases heq : latest.buildNumber.toNat = currentBuild
  · rw [if_pos heq]
    exact Triple.pure_at (.upToDate latest hlatest heq)
  · rw [if_neg heq]
    apply (fetchAndInstall_triple serde host latest).andThen
    · intro s hs
      obtain ⟨hs, hno⟩ := hs
      exact .notInstalled latest s hlatest heq hs hno
    · exact fun _ _ => trivial
    intro current s hs
    obtain ⟨rfl, archive, hs⟩ := hs
    apply Triple.get_bind
    have hload : loadBuild cache serde.toRowDecoder s (host.current latest).buildNumber =
        loadFiles serde.toRowDecoder (contentOf archive) := hs.toPromoted.loadBuild
    rw [hload]
    apply Triple.ofExcept_bind
    · intro data hdata
      exact Triple.pure_at (.updated latest archive data s hlatest heq hs hdata)
    · intro e he
      exact .notLoaded latest archive e s hlatest heq hs he

theorem checkAndRefresh_updated {b : ℕ}
    {d' : Disk} {data : RawSdeData} {current : CacheMetadata}
    (h : run (checkAndRefresh cache serde host b) d₀ = (.ok (.updated data current), d')) :
    ∃ latest archive, fetchLatestBuild serde host = .ok latest ∧ latest.buildNumber.toNat ≠ b ∧
      current = host.current latest ∧ Installed serde host d₀ latest archive d' ∧
      loadFiles serde.toRowDecoder (contentOf archive) = .ok data := by
  have hends := checkAndRefresh_triple cache serde host b d₀ rfl
  rw [h] at hends
  cases hends with
  | updated latest archive data s hlatest hne hs hdata =>
    exact ⟨latest, archive, hlatest, hne, rfl, hs, hdata⟩

end Refresh

section Uncut

/-- The process lives through it. -/
def Host.Uncut (host : Host) : Prop := ∀ site k, host.fate site ≠ .cut k

variable (h : host.Uncut)
include h

theorem perform_neverCrashes (site : Site) (what : String) (effect : Disk → Disk)
    (partly : ℕ → Disk → Disk) : NeverCrashes (host.perform site what effect partly) :=
  (NeverCrashes.perform (h site) effect partly).context

theorem lists_neverCrashes (site : Site) : NeverCrashes (host.lists site) :=
  (NeverCrashes.perform (h site) id _).attempt.bind fun r => .pure r.toBool

theorem writeMetadata_neverCrashes (current : CacheMetadata) :
    NeverCrashes (writeMetadata serde host current) := by
  have hroot : NeverCrashes (createRoot host .createRoot) := by
    apply NeverCrashes.get.bind
    intro d
    split
    · exact .pure ()
    · exact perform_neverCrashes h _ _ _ _
  apply hroot.bind
  intro _
  apply (perform_neverCrashes h _ _ _ _).bind
  intro _
  apply (perform_neverCrashes h _ _ _ _).bind
  intro _
  exact perform_neverCrashes h _ _ _ _

theorem removeDirAll_neverCrashes (dir : String) : NeverCrashes (removeDirAll host dir) := by
  apply (NeverCrashes.perform (h _) _ _).bind
  intro _
  apply NeverCrashes.get.bind
  intro d
  apply (NeverCrashes.forM (fun file => NeverCrashes.perform (h _) _ _) _).bind
  intro _
  exact NeverCrashes.perform (h _) _ _

theorem pruneOtherBuilds_neverCrashes (keep : UInt64) :
    NeverCrashes (pruneOtherBuilds host keep) := by
  have hentry : ∀ dir, NeverCrashes (pruneEntry host keep dir) := by
    intro dir
    apply (lists_neverCrashes h _).bind
    intro listed
    split
    · split
      · split
        · exact (removeDirAll_neverCrashes h dir).attempt.bind fun _ => .pure ()
        · exact .pure ()
      · exact .pure ()
    · exact .pure ()
  apply (lists_neverCrashes h _).bind
  intro listed
  split
  · exact NeverCrashes.get.bind fun d => .forM hentry _
  · exact .pure ()

theorem extractEntry_neverCrashes (dir : String) (found : Finset String) (entry : ZipEntry × ℕ) :
    NeverCrashes (extractEntry host dir found entry) := by
  apply (perform_neverCrashes h _ _ _ _).bind
  intro _
  split
  · exact .pure found
  · dsimp only
    split
    · exact .pure found
    · apply NeverCrashes.bind
      · apply (perform_neverCrashes h _ _ _ _).bind
        intro _
        apply (perform_neverCrashes h _ _ _ _).bind
        intro _
        exact perform_neverCrashes h _ _ _ _
      · exact fun _ => .pure _

theorem extractFiles_neverCrashes (dir : String) (archive : Archive) :
    NeverCrashes (extractFiles host dir archive) := by
  apply (NeverCrashes.foldlM (extractEntry_neverCrashes h dir) _ _).bind
  intro found
  split
  · exact .fail _
  · exact .pure ()

theorem fetchAndExtractBuild_neverCrashes (build : UInt64) :
    NeverCrashes (fetchAndExtractBuild host build) := by
  apply (NeverCrashes.ofExcept _).bind
  intro opened
  apply NeverCrashes.bind
  · apply NeverCrashes.get.bind
    intro d
    split
    · exact .pure ()
    · exact perform_neverCrashes h _ _ _ _
  intro _
  apply (NeverCrashes.ofExcept _).bind
  exact extractFiles_neverCrashes h _

theorem checkAndRefresh_neverCrashes (currentBuild : ℕ) :
    NeverCrashes (checkAndRefresh cache serde host currentBuild) := by
  apply (NeverCrashes.ofExcept _).context.bind
  intro latest
  split
  · exact .pure _
  · apply NeverCrashes.bind
    · apply (fetchAndExtractBuild_neverCrashes h _).context.bind
      intro _
      apply (writeMetadata_neverCrashes h _).bind
      intro _
      exact (pruneOtherBuilds_neverCrashes h _).attempt.bind fun _ => .pure _
    intro current
    apply NeverCrashes.get.bind
    intro d
    exact (NeverCrashes.ofExcept _).bind fun _ => .pure _

end Uncut

section Startup

variable {cached : CacheMetadata} {data₀ : RawSdeData}

/-- The pruning for `keep` takes a required file of another build. -/
def Loses (host : Host) (d : Disk) (keep build : UInt64) : Prop :=
  Prunes host keep (buildDirName build) ∧ ∃ files, d.dir (buildDirName build) = some files ∧
    ∃ f ∈ FILES, f ∈ host.removed (buildDirName build) files.keys

/-- The refresh leaves no build to serve: it promotes one that does not parse, and
prunes the cached one. -/
def Stranded (serde : Serde) (host : Host) (d : Disk) (cached : CacheMetadata) : Prop :=
  ∃ latest archive, fetchLatestBuild serde host = .ok latest ∧
    latest.buildNumber ≠ cached.buildNumber ∧ Installs host d latest.buildNumber archive ∧
    (∃ e, loadFiles serde.toRowDecoder (contentOf archive) = .error e) ∧
    Loses host d latest.buildNumber cached.buildNumber

/-- Startup serves the refreshed build or the cached one, and after a failed
refresh the cached build still loads. -/
structure FallsBack (cache : SdeCache) (serde : Serde) (host : Host) (d : Disk)
    (cached : CacheMetadata) (data₀ : RawSdeData) : Prop where
  serves : ∃ data current, (run (ensureCache cache serde host) d).1 = .ok (data, current) ∧
    ((run (checkAndRefresh cache serde host cached.buildNumber.toNat) d).1 =
        .ok (.updated data current) ∨ data = data₀ ∧ current = cached)
  loadable : ∀ e, (run (checkAndRefresh cache serde host cached.buildNumber.toNat) d).1 =
    .error (.error e) → loadBuild cache serde.toRowDecoder
      (run (checkAndRefresh cache serde host cached.buildNumber.toNat) d).2 cached.buildNumber =
        .ok data₀

theorem rooted_of_metadata (h : currentMetadata serde d = some cached) : d.rooted = true := by
  obtain ⟨bytes, hbytes, _⟩ := currentMetadata_eq_some.mp h
  simp [Disk.rooted, hbytes]

/-- With a cached build, startup refreshes and then falls back on it. -/
theorem run_ensureCache (cache : SdeCache) (host : Host)
    (h : currentMetadata serde d = some cached) :
    (run (ensureCache cache serde host) d).1 =
      match run (checkAndRefresh cache serde host cached.buildNumber.toNat) d with
      | (.ok (.updated data current), _) => .ok (data, current)
      | (.ok .upToDate, s) | (.error (.error _), s) =>
        (loadBuild cache serde.toRowDecoder s cached.buildNumber).map (·, cached)
          |>.mapError Stop.error
      | (.error .crash, _) => .error .crash := by
  have hroot : run (createRoot host .ensureRoot) d = (.ok (), d) := by
    change run (if d.rooted = true then pure () else _ : Io Unit) d = _
    rw [if_pos (rooted_of_metadata h)]
    rfl
  have hload : ∀ s, (run (do
      let data ← ofExcept (loadBuild cache serde.toRowDecoder (← get) cached.buildNumber)
      pure (data, cached) : Io (RawSdeData × CacheMetadata)) s).1 =
        ((loadBuild cache serde.toRowDecoder s cached.buildNumber).map (·, cached)).mapError
          Stop.error := by
    intro s
    change (run (ofExcept (loadBuild cache serde.toRowDecoder s cached.buildNumber) >>= _) s).1 = _
    cases loadBuild cache serde.toRowDecoder s cached.buildNumber <;> rfl
  unfold ensureCache
  rw [run_bind, hroot]
  dsimp only
  rw [run_get_bind, h]
  dsimp only
  rw [run_bind, run_attempt]
  match run (checkAndRefresh cache serde host cached.buildNumber.toNat) d with
  | (.ok .upToDate, s) => exact hload s
  | (.ok (.updated data current), s) => rfl
  | (.error (.error e), s) => exact hload s
  | (.error .crash, s) => rfl

/-- A build that is not installed over stays as it was, however far that gets. -/
theorem PartlyFetched.loadBuild {rows : RowDecoder} {other : UInt64}
    (hs : PartlyFetched host d build s) (hne : other ≠ build) :
    Palu.loadBuild cache rows s other = Palu.loadBuild cache rows d other := by
  obtain ⟨front, _, hx⟩ := hs
  apply loadBuild_congr
  intro f _
  rw [Disk.file, hx.others _ fun he => hne (buildDirName_injective he), Disk.file]

theorem Installed.loadBuild_kept {rows : RowDecoder} {other : UInt64} {files : Dir}
    (hs : Installed serde host d latest archive s) (hne : other ≠ latest.buildNumber)
    (hd : d.dir (buildDirName other) = some files) (hkept : ¬ Loses host d latest.buildNumber other) :
    Palu.loadBuild cache rows s other = Palu.loadBuild cache rows d other := by
  have hdir : buildDirName other ≠ buildDirName latest.buildNumber :=
    fun he => hne (buildDirName_injective he)
  apply loadBuild_congr
  intro f hf
  by_cases hp : Prunes host latest.buildNumber (buildDirName other)
  · have hremoved : f ∉ host.removed (buildDirName other) files.keys :=
      fun hm => hkept ⟨hp, files, hd, f, hf, hm⟩
    rw [hs.pruned _ hdir hp files hd f, if_neg hremoved, file_eq_of_dir hd]
  · rw [Disk.file, hs.kept _ hdir hp, Disk.file]

theorem Installed.loadBuild_lost {rows : RowDecoder} {other : UInt64}
    (hs : Installed serde host d latest archive s) (hne : other ≠ latest.buildNumber)
    (hlost : Loses host d latest.buildNumber other) :
    ∃ e, Palu.loadBuild cache rows s other = .error e := by
  obtain ⟨hp, files, hd, f, hf, hm⟩ := hlost
  apply loadBuild_missing hf
  rw [hs.pruned _ (fun he => hne (buildDirName_injective he)) hp files hd f, if_pos hm]

theorem dir_of_loadBuild {rows : RowDecoder} (h : loadBuild cache rows d build = .ok data₀) :
    ∃ files, d.dir (buildDirName build) = some files := by
  have hp : buildFilesPresent d build = true := by
    by_contra hno
    rw [loadBuild, if_neg hno] at h
    cases h
  obtain ⟨content, hc⟩ := Option.isSome_iff_exists.mp
    (buildFilesPresent_iff.mp hp "types.jsonl" (by decide))
  obtain ⟨files, hd, _⟩ := Option.bind_eq_some_iff.mp hc
  exact ⟨files, hd⟩

theorem Refreshed.not_stranded {outcome : RefreshOutcome}
    (h : Refreshed serde host d cached.buildNumber.toNat outcome s) :
    ¬ Stranded serde host d cached := by
  intro hstranded
  obtain ⟨latest', archive', hlatest', hne', hinstalls, ⟨e, he⟩, _⟩ := hstranded
  cases h with
  | upToDate latest hlatest heq =>
    cases hlatest.symm.trans hlatest'
    exact hne' (UInt64.toNat_inj.mp heq)
  | updated latest archive data s hlatest hne hs hdata =>
    cases hlatest.symm.trans hlatest'
    cases hs.downloaded.symm.trans hinstalls.downloaded
    cases hdata.symm.trans he

/-- After a failed refresh the cached build loads, except where it is pruned. -/
theorem RefreshFailed.loads_iff (h : RefreshFailed serde host d cached.buildNumber.toNat s)
    (hload : loadBuild cache serde.toRowDecoder d cached.buildNumber = .ok data₀) :
    loadBuild cache serde.toRowDecoder s cached.buildNumber = .ok data₀ ↔
      ¬ Stranded serde host d cached := by
  cases h with
  | unknown h =>
    apply iff_of_true hload
    intro hstranded
    obtain ⟨latest, _, hlatest, _⟩ := hstranded
    exact h latest hlatest
  | notInstalled latest s hlatest hne hs hno =>
    have hother : cached.buildNumber ≠ latest.buildNumber :=
      fun he => hne (congrArg UInt64.toNat he).symm
    apply iff_of_true ((hs.loadBuild hother).trans hload)
    intro hstranded
    obtain ⟨latest', archive', hlatest', _, hinstalls, _⟩ := hstranded
    cases hlatest.symm.trans hlatest'
    exact hno ⟨archive', hinstalls⟩
  | notLoaded latest archive e s hlatest hne hs he =>
    have hother : cached.buildNumber ≠ latest.buildNumber :=
      fun he => hne (congrArg UInt64.toNat he).symm
    by_cases hlost : Loses host d latest.buildNumber cached.buildNumber
    · obtain ⟨e', he'⟩ : ∃ e, loadBuild cache serde.toRowDecoder s cached.buildNumber = .error e :=
        hs.loadBuild_lost hother hlost
      refine iff_of_false (by simp [he']) (not_not_intro ?_)
      exact ⟨latest, archive, hlatest, hother.symm, hs.installs, ⟨e, he⟩, hlost⟩
    · obtain ⟨files, hd⟩ := dir_of_loadBuild hload
      apply iff_of_true ((hs.loadBuild_kept hother hd hlost).trans hload)
      intro hstranded
      obtain ⟨latest', archive', hlatest', _, _, _, hlost'⟩ := hstranded
      cases hlatest.symm.trans hlatest'
      exact hlost hlost'

/-- Startup falls back unless the refresh has promoted a build that does not parse
and pruned the cached one. -/
theorem startup_falls_back_iff (cache : SdeCache) (serde : Serde) (host : Host) (d : Disk)
    (cached : CacheMetadata) (data₀ : RawSdeData) (huncut : host.Uncut)
    (hcached : currentMetadata serde d = some cached)
    (hload : loadBuild cache serde.toRowDecoder d cached.buildNumber = .ok data₀) :
    FallsBack cache serde host d cached data₀ ↔ ¬ Stranded serde host d cached := by
  have hrun := run_ensureCache cache host hcached
  have hends := checkAndRefresh_triple cache serde host cached.buildNumber.toNat d rfl
  match hr : run (checkAndRefresh cache serde host cached.buildNumber.toNat) d, hends with
  | (.ok .upToDate, s), hends =>
    refine iff_of_true ⟨⟨data₀, cached, ?_, .inr ⟨rfl, rfl⟩⟩, fun e he => ?_⟩ hends.not_stranded
    · cases hends
      rw [hrun, hr]
      dsimp only
      rw [hload]
      rfl
    · rw [hr] at he
      cases he
  | (.ok (.updated data current), s), hends =>
    refine iff_of_true ⟨⟨data, current, ?_, .inl (by rw [hr])⟩, fun e he => ?_⟩ hends.not_stranded
    · rw [hrun, hr]
    · rw [hr] at he
      cases he
  | (.error (.error e), s), hends =>
    rw [← hends.loads_iff hload]
    constructor
    · intro h
      have hs := h.loadable e (by rw [hr])
      rw [hr] at hs
      exact hs
    · intro hs
      refine ⟨⟨data₀, cached, ?_, .inr ⟨rfl, rfl⟩⟩, fun _ _ => ?_⟩
      · rw [hrun, hr]
        dsimp only
        rw [hs]
        rfl
      · rw [hr]
        exact hs
  | (.error .crash, s), _ =>
    exact absurd (congrArg Prod.fst hr) (checkAndRefresh_neverCrashes huncut _ d)

/-- The second build, published with a file that is not JSON. -/
def malformedHost (fate : Site → Fate Trace) : Host :=
  { twoBuildsHost fate 2 with download := fun _ => .body (.ok (archiveWith fun _ => utf8 "x\n")) }

def unpruned : Host :=
  malformedHost fun site => if site = .readDir "1" then .failed 0 ["Permission denied"] else .done

theorem startup_falls_back_iff_unpruned :
    ∃ data₀, FallsBack ⟨"/cache"⟩ twoBuildsSerde unpruned (twoBuildsDisk 1)
      ⟨1, some 1778067837, 1780401600⟩ data₀ := by
  have hload : (loadBuild ⟨"/cache"⟩ twoBuildsSerde.toRowDecoder (twoBuildsDisk 1) 1).toBool =
    true := by decide +kernel
  match h : loadBuild ⟨"/cache"⟩ twoBuildsSerde.toRowDecoder (twoBuildsDisk 1) 1, hload with
  | .ok data₀, _ =>
    refine ⟨data₀, (startup_falls_back_iff ⟨"/cache"⟩ twoBuildsSerde unpruned (twoBuildsDisk 1)
      ⟨1, some 1778067837, 1780401600⟩ data₀ ?_ ?_ h).mpr ?_⟩
    · intro site k
      change (if site = .readDir "1" then Fate.failed 0 _ else Fate.done) ≠ _
      split <;> exact fun he => by cases he
    · decide +kernel
    · intro hstranded
      obtain ⟨_, _, _, _, _, _, _, files, _, f, _, hm⟩ := hstranded
      have hnone : unpruned.removed "1" files.keys = [] := by
        rw [Host.removed, if_neg]
        simp [unpruned, malformedHost, twoBuildsHost]
      change f ∈ unpruned.removed "1" files.keys at hm
      rw [hnone] at hm
      cases hm

/-- The cached build loads, and so does nothing once the refresh has failed. -/
theorem malformed_build_strands :
    (malformedHost fun _ => .done).Uncut ∧
    currentMetadata twoBuildsSerde (twoBuildsDisk 1) = some ⟨1, some 1778067837, 1780401600⟩ ∧
    (loadBuild ⟨"/cache"⟩ twoBuildsSerde.toRowDecoder (twoBuildsDisk 1) 1).toBool = true ∧
    (run (checkAndRefresh ⟨"/cache"⟩ twoBuildsSerde (malformedHost fun _ => .done) 1)
      (twoBuildsDisk 1)).1.map (fun _ => ()) = .error (.error ["parsing mapSolarSystems.jsonl",
        "JSON parse error on line 1: expected value at line 1 column 1"]) ∧
    (run (ensureCache ⟨"/cache"⟩ twoBuildsSerde (malformedHost fun _ => .done))
      (twoBuildsDisk 1)).1.toBool = false := by
  constructor
  · intro site k he
    cases he
  · decide +kernel

end Startup

end Palu
