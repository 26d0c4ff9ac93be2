import Palu.Proofs.Refresh

namespace Palu

open Effects

variable {archiveOf : UInt64 → Archive} {serde : Serde} {cache : SdeCache} {host : Host}
  {P : Host → Prop} {I : Disk → Prop} {d s : Disk} {build : UInt64}

/-- Whatever is done to the cache by hosts of which `P` holds keeps `I`: it does not
look at the metadata, and extracting entries into the directory of a build keeps it,
as does removing from a directory whose name is a build number. -/
structure Kept (P : Host → Prop) (I : Disk → Prop) : Prop where
  dirs : ∀ {d s : Disk}, s.dirs = d.dirs → I d → I s
  fetched : ∀ {host build} {d s : Disk}, P host → PartlyFetched host d build s → I d → I s
  removeFile : ∀ {d : Disk} {n f b}, parseU64 n = some b → I d → I (d.removeFile n f)
  removeDir : ∀ {d : Disk} {n b}, parseU64 n = some b → I d → I (d.removeDir n)

/-- An effect that changes nothing keeps everything. -/
theorem createRoot_keeps (site : Site) : Keeps I (createRoot host site) := by
  apply Keeps.get_bind
  intro d
  split
  · exact .pure ()
  · exact (Keeps.perform (fun _ => id) fun _ _ => id).context

theorem lists_keeps (site : Site) : Keeps I (host.lists site) := by
  apply Keeps.bind
  · exact (Keeps.atomically fun _ => id).attempt
  · exact fun r => .pure r.toBool

namespace Kept
variable (h : Kept P I)
include h

theorem perform {site : Site} {what : String} {effect : Disk → Disk} {partly : ℕ → Disk → Disk}
    (heffect : ∀ d, (effect d).dirs = d.dirs) (hpartly : ∀ k d, (partly k d).dirs = d.dirs) :
    Keeps I (host.perform site what effect partly) :=
  (Keeps.perform (fun d => h.dirs (heffect d)) fun k d => h.dirs (hpartly k d)).context

theorem writeMetadata (current : CacheMetadata) : Keeps I (writeMetadata serde host current) := by
  apply Keeps.bind
  · exact createRoot_keeps _
  intro _
  apply Keeps.bind
  · exact h.perform (fun _ => rfl) fun _ _ => rfl
  intro _
  apply Keeps.bind
  · exact h.perform (fun _ => rfl) fun _ _ => rfl
  intro _
  apply h.perform _ fun _ _ => rfl
  intro d
  unfold Disk.renameMetadata
  split <;> rfl

theorem removeDirAll {n : String} {b : UInt64} (hb : parseU64 n = some b) :
    Keeps I (removeDirAll host n) := by
  unfold Palu.removeDirAll
  apply Keeps.bind
  · exact Keeps.atomically fun _ => id
  intro _
  apply Keeps.get_bind
  intro d
  apply Keeps.bind
  · exact Keeps.forM (fun f => Keeps.atomically fun d => h.removeFile hb) _
  intro _
  exact Keeps.atomically fun d => h.removeDir hb

theorem pruneEntry (keep : UInt64) (n : String) : Keeps I (pruneEntry host keep n) := by
  apply Keeps.bind
  · exact lists_keeps _
  intro listed
  split
  · split
    · rename_i b hb
      split
      · exact (h.removeDirAll hb).attempt.bind fun _ => .pure ()
      · exact .pure ()
    · exact .pure ()
  · exact .pure ()

theorem pruneOtherBuilds (keep : UInt64) : Keeps I (pruneOtherBuilds host keep) := by
  apply Keeps.bind
  · exact lists_keeps _
  intro listed
  split
  · apply Keeps.get_bind
    intro d
    exact Keeps.forM (h.pruneEntry keep) _
  · exact .pure ()

variable (hP : P host)
include hP

theorem fetchAndExtractBuild (build : UInt64) : Keeps I (fetchAndExtractBuild host build) := by
  intro d hd
  have hpart : ∀ s, PartlyFetched host d build s → I s := fun s hs => h.fetched hP hs hd
  apply ((fetchAndExtractBuild_triple build).imp (fun _ => id) ?_ ?_ hpart).final rfl
  · intro _ s hs
    obtain ⟨archive, hfetch, hx⟩ := hs
    exact hpart s ⟨archive, fun e he => ⟨archive, hfetch.downloaded, he⟩, hx⟩
  · intro s hs
    exact hpart s hs.1

theorem fetchAndInstall (latest : LatestManifest) : Keeps I (fetchAndInstall serde host latest) := by
  apply Keeps.bind (h.fetchAndExtractBuild hP _).context
  intro _
  apply Keeps.bind (h.writeMetadata _)
  intro _
  exact (h.pruneOtherBuilds _).attempt.bind fun _ => .pure _

end Kept

section Refreshing

theorem fetchLatestBuild_of_run {d t : Disk} {latest : LatestManifest}
    (h : run (context ("fetching latest SDE manifest" :: ·) (ofExcept (fetchLatestBuild serde host)))
      d = (.ok latest, t)) : fetchLatestBuild serde host = .ok latest := by
  cases hr : fetchLatestBuild serde host with
  | ok found =>
    rw [hr] at h
    cases h
    rfl
  | error e =>
    rw [hr] at h
    cases h

variable (hinstall : ∀ latest, fetchLatestBuild serde host = .ok latest →
  Keeps I (fetchAndInstall serde host latest))
include hinstall

/-- The manifest's build is fetched, installed and loaded. -/
theorem install_keeps {α : Type} {f : LatestManifest → Io α}
    (hf : ∀ latest, Keeps I (fetchAndInstall serde host latest) → Keeps I (f latest)) :
    Keeps I (do
      let latest ← context ("fetching latest SDE manifest" :: ·)
        (ofExcept (fetchLatestBuild serde host))
      f latest) := by
  apply Keeps.bind_of
  · exact (Keeps.ofExcept _).context
  intro latest hlatest
  obtain ⟨d, t, hrun⟩ := hlatest
  exact hf latest (hinstall latest (fetchLatestBuild_of_run hrun))

omit hinstall in
theorem load_keeps (build : UInt64) {α : Type} (f : RawSdeData → α) : Keeps I (do
    let data ← ofExcept (loadBuild cache serde.toRowDecoder (← get) build)
    pure (f data) : Io α) := by
  apply Keeps.get_bind
  intro d
  exact (Keeps.ofExcept _).bind fun _ => .pure _

theorem checkAndRefresh_keeps (currentBuild : ℕ) :
    Keeps I (checkAndRefresh cache serde host currentBuild) := by
  apply install_keeps hinstall
  intro latest hlatest
  split
  · exact .pure _
  · exact hlatest.bind fun current => load_keeps _ _

theorem ensureCache_keeps : Keeps I (ensureCache cache serde host) := by
  apply Keeps.bind
  · exact createRoot_keeps _
  intro _
  apply Keeps.get_bind
  intro d
  split
  · apply install_keeps hinstall
    intro latest hlatest
    exact hlatest.bind fun current => load_keeps _ _
  · apply Keeps.bind
    · exact (checkAndRefresh_keeps hinstall _).attempt
    intro r
    split
    · exact .pure _
    · exact load_keeps _ _
    · exact load_keeps _ _

end Refreshing

section Startup

theorem load_ok {c current : CacheMetadata} {data : RawSdeData}
    (hrun : run (do
        let data ← ofExcept (loadBuild cache serde.toRowDecoder (← get) c.buildNumber)
        pure (data, c) : Io (RawSdeData × CacheMetadata)) d = (.ok (data, current), s)) :
    current = c ∧ s = d ∧ loadBuild cache serde.toRowDecoder d c.buildNumber = .ok data := by
  rw [run_get_bind] at hrun
  cases hload : loadBuild cache serde.toRowDecoder d c.buildNumber with
  | ok data' =>
    rw [hload] at hrun
    cases hrun
    exact ⟨rfl, rfl, rfl⟩
  | error e =>
    rw [hload] at hrun
    cases hrun

/-- How a startup from the cache succeeds: with the build that is installed where
there was none, with one that is newer than the cached one, or with the cached one. -/
inductive Ensured (cache : SdeCache) (serde : Serde) (host : Host) (d : Disk) (data : RawSdeData) :
    CacheMetadata → Disk → Prop where
  | installed {latest : LatestManifest} {current : CacheMetadata} {s : Disk}
      (hnone : currentMetadata serde d = none) (hlatest : fetchLatestBuild serde host = .ok latest)
      (hinstall : run (fetchAndInstall serde host latest) d = (.ok current, s))
      (hload : loadBuild cache serde.toRowDecoder s current.buildNumber = .ok data) :
      Ensured cache serde host d data current s
  | refreshed {cached current : CacheMetadata} {s : Disk}
      (hcached : currentMetadata serde d = some cached)
      (hrun : run (checkAndRefresh cache serde host cached.buildNumber.toNat) d =
        (.ok (.updated data current), s)) : Ensured cache serde host d data current s
  | kept {cached : CacheMetadata} {s : Disk} {r : Except (Stop Trace) RefreshOutcome}
      (hcached : currentMetadata serde d = some cached)
      (hrun : run (checkAndRefresh cache serde host cached.buildNumber.toNat) d = (r, s))
      (hload : loadBuild cache serde.toRowDecoder s cached.buildNumber = .ok data) :
      Ensured cache serde host d data cached s

theorem ensureCache_ok {data : RawSdeData} {current : CacheMetadata}
    (hrun : run (ensureCache cache serde host) d = (.ok (data, current), s)) :
    Ensured cache serde host d data current s := by
  obtain ⟨_, d₁, hroot, hrest⟩ := run_bind_ok.mp hrun
  obtain rfl : d₁ = d := (createRoot_keeps (I := (· = d)) _).of_run rfl hroot
  rw [run_get_bind] at hrest
  cases hcurrent : currentMetadata serde d₁ with
  | none =>
    rw [hcurrent] at hrest
    obtain ⟨latest, d₂, hlatest, hfetched⟩ := run_bind_ok.mp hrest
    obtain rfl : d₂ = d₁ := ((Keeps.ofExcept (I := (· = d₁)) _).context).of_run rfl hlatest
    obtain ⟨c, d₃, hinstall, hinstalled⟩ := run_bind_ok.mp hfetched
    obtain ⟨rfl, rfl, hload⟩ := load_ok hinstalled
    exact .installed hcurrent (fetchLatestBuild_of_run hlatest) hinstall hload
  | some cached =>
    rw [hcurrent] at hrest
    obtain ⟨r, d₂, hrefresh, hrest⟩ := run_bind_ok.mp hrest
    have hstate : (run (checkAndRefresh cache serde host cached.buildNumber.toNat) d₁).2 = d₂ := by
      rw [← run_attempt_state, hrefresh]
    split at hrest
    · cases hrest
      exact .refreshed hcurrent (run_attempt_ok hrefresh)
    · obtain ⟨rfl, rfl, hload⟩ := load_ok hrest
      exact .kept hcurrent (Prod.ext rfl hstate) hload
    · obtain ⟨rfl, rfl, hload⟩ := load_ok hrest
      exact .kept hcurrent (Prod.ext rfl hstate) hload

end Startup

end Palu
