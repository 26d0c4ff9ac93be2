import Palu.Proofs.Install

namespace Palu

open Effects

variable {serde : Serde} {archiveOf : UInt64 → Archive} {d s : Disk} {host : Host}
  {latest : LatestManifest}

/-- An attempt to install a build, with what it finds around it. -/
structure Attempt where
  host : Host
  latest : LatestManifest

/-- The disk after attempts that succeed, fail or are cut off, one after another. -/
def installRun (serde : Serde) (d : Disk) (attempts : List Attempt) : Disk :=
  attempts.foldl (fun d a => (run (fetchAndInstall serde a.host a.latest) d).2) d

/-- A build is current, and each of its required files is an entry of its archive,
in full. -/
def CompleteCurrent (archiveOf : UInt64 → Archive) (serde : Serde) (d : Disk) : Prop :=
  ∃ current, currentMetadata serde d = some current ∧
    ∀ f ∈ FILES, ∃ e ∈ archiveOf current.buildNumber, e.target = some f ∧
      d.file (buildDirName current.buildNumber) f = some e.content

theorem currentMetadata_eq_some {current : CacheMetadata} :
    currentMetadata serde d = some current ↔ ∃ bytes, d.metadata = some bytes ∧
      serde.decodeMetadata bytes = some current ∧ buildFilesPresent d current.buildNumber = true := by
  unfold currentMetadata
  constructor
  · intro h
    obtain ⟨bytes, hbytes, h⟩ := Option.bind_eq_some_iff.mp h
    obtain ⟨m, hm, h⟩ := Option.bind_eq_some_iff.mp h
    split at h
    · rename_i hp
      cases h
      exact ⟨bytes, hbytes, hm, hp⟩
    · cases h
  · intro h
    obtain ⟨bytes, hbytes, hm, hp⟩ := h
    simp [hbytes, hm, hp]

theorem buildFilesPresent_iff {build : UInt64} : buildFilesPresent d build = true ↔
    ∀ f ∈ FILES, (d.file (buildDirName build) f).isSome = true :=
  List.all_eq_true

/-- Files from the archive of the build that the metadata names make it complete. -/
theorem CompleteCurrent.intro {bytes : Bytes} {current : CacheMetadata}
    (hbytes : d.metadata = some bytes) (hm : serde.decodeMetadata bytes = some current)
    (hfiles : ∀ f ∈ FILES, ∃ e ∈ archiveOf current.buildNumber, e.target = some f ∧
      d.file (buildDirName current.buildNumber) f = some e.content) :
    CompleteCurrent archiveOf serde d := by
  refine ⟨current, currentMetadata_eq_some.mpr ⟨bytes, hbytes, hm, ?_⟩, hfiles⟩
  apply buildFilesPresent_iff.mpr
  intro f hf
  obtain ⟨e, _, _, he⟩ := hfiles f hf
  rw [he]
  rfl

/-- What the server answers for a build is that build's archive. -/
def Serves (archiveOf : UInt64 → Archive) (host : Host) (build : UInt64) : Prop :=
  ∀ archive, host.download build = .body (.ok archive) → archive = archiveOf build

/-- An extraction cut off anywhere leaves the current build complete, even where
it is the one extracted again. -/
theorem CompleteCurrent.partlyFetched {build : UInt64} (h : CompleteCurrent archiveOf serde d)
    (hserves : Serves archiveOf host build) (hs : PartlyFetched host d build s) :
    CompleteCurrent archiveOf serde s := by
  obtain ⟨current, hcurrent, hfiles⟩ := h
  obtain ⟨bytes, hbytes, hm, _⟩ := currentMetadata_eq_some.mp hcurrent
  obtain ⟨front, hfront, hx⟩ := hs
  apply CompleteCurrent.intro (hx.metadata.trans hbytes) hm
  intro f hf
  by_cases hb : current.buildNumber = build
  · rw [hb, hx.files f hf]
    cases hc : contentOf front f with
    | none =>
      rw [Option.none_or, ← hb]
      exact hfiles f hf
    | some content =>
      obtain ⟨e, he, htarget, rfl⟩ := exists_entry hc
      obtain ⟨archive, hdown, hmem⟩ := hfront e he
      exact ⟨e, hserves archive hdown ▸ hmem, htarget, rfl⟩
  · have hdir : buildDirName current.buildNumber ≠ buildDirName build :=
      fun he => hb (buildDirName_injective he)
    rw [Disk.file, hx.others _ hdir]
    exact hfiles f hf

/-- The promotion replaces one complete build by another. -/
theorem Promoted.completeCurrent {archive : Archive} (h : Promoted serde host latest archive s)
    (hserde : serde.decodeMetadata (serde.encodeMetadata (host.current latest)) =
      some (host.current latest))
    (hserves : Serves archiveOf host latest.buildNumber) : CompleteCurrent archiveOf serde s := by
  apply CompleteCurrent.intro h.metadata hserde
  intro f hf
  obtain ⟨content, hc⟩ := Option.isSome_iff_exists.mp (h.complete f hf)
  obtain ⟨e, he, htarget, rfl⟩ := exists_entry hc
  exact ⟨e, hserves archive h.downloaded ▸ he, htarget, (h.files f hf).trans hc⟩

/-- One attempt, whether it succeeds, fails or is cut off, leaves the build partly
fetched or promoted. -/
theorem fetchAndInstall_final {I : Disk → Prop}
    (hpart : ∀ s, PartlyFetched host d latest.buildNumber s → I s)
    (hpromoted : ∀ archive s, Promoted serde host latest archive s → I s) :
    I (run (fetchAndInstall serde host latest) d).2 := by
  apply ((fetchAndInstall_triple serde host latest).imp (fun _ => id) ?_ ?_ ?_).final rfl
  · intro _ s hs
    obtain ⟨_, archive, hin⟩ := hs
    exact hpromoted archive s hin.toPromoted
  · intro s hs
    exact hpart s hs.1
  · intro s hs
    rcases hs with hs | ⟨archive, hs⟩
    · exact hpart s hs
    · exact hpromoted archive s hs

theorem CompleteCurrent.fetchAndInstall (h : CompleteCurrent archiveOf serde d)
    (hserde : serde.decodeMetadata (serde.encodeMetadata (host.current latest)) =
      some (host.current latest))
    (hserves : Serves archiveOf host latest.buildNumber) :
    CompleteCurrent archiveOf serde (run (Palu.fetchAndInstall serde host latest) d).2 := by
  apply fetchAndInstall_final
  · exact fun s hs => h.partlyFetched hserves hs
  · exact fun archive s hs => hs.completeCurrent hserde hserves

/-- The cache has a complete current build at every point of every sequence of
attempts: a point is where the last of them is cut off. -/
theorem cache_crash_safe {attempts : List Attempt} (hstart : CompleteCurrent archiveOf serde d)
    (hserde : ∀ a ∈ attempts, serde.decodeMetadata (serde.encodeMetadata (a.host.current a.latest)) =
      some (a.host.current a.latest))
    (hserves : ∀ a ∈ attempts, Serves archiveOf a.host a.latest.buildNumber) :
    CompleteCurrent archiveOf serde (installRun serde d attempts) := by
  induction attempts generalizing d with
  | nil => exact hstart
  | cons a attempts ih =>
    apply ih
    · exact hstart.fetchAndInstall (hserde a (by simp)) (hserves a (by simp))
    · exact fun b hb => hserde b (by simp [hb])
    · exact fun b hb => hserves b (by simp [hb])

section TwoBuilds

def utf8 (s : String) : Bytes := s.toUTF8.data.toList

/-- A JSON object, laid out with this before, between and after its members. -/
def jsonObject (before between after : String) (members : List (String × String)) : String :=
  "\x7b" ++ before ++ between.intercalate (members.map fun m => "\"" ++ m.1 ++ "\": " ++ m.2) ++
    after ++ "\x7d"

/-- What `to_vec_pretty` makes of the metadata of a build. -/
def metadataText (build released : String) : Bytes :=
  utf8 (jsonObject "\n  " ",\n  " "\n" [("build_number", build), ("release_date", released),
    ("fetched_at", "\"2026-06-02T12:00:00Z\"")])

/-- Two builds, fetched at one instant. -/
def twoBuilds : List (CacheMetadata × Bytes) :=
  [(⟨1, some 1778067837, 1780401600⟩, metadataText "1" "\"2026-05-06T11:43:57Z\""),
    (⟨2, some 1780398000, 1780401600⟩, metadataText "2" "\"2026-06-02T11:00:00Z\"")]

def manifestText (build released : String) : String :=
  jsonObject "" ", " "" [("_key", "\"sde\""), ("buildNumber", build), ("releaseDate", released)]

def manifestLine : UInt64 → String
  | 1 => manifestText "1" "\"2026-05-06T11:43:57Z\""
  | _ => manifestText "2" "\"2026-06-02T11:00:00Z\""

def twoBuildsLatest : UInt64 → LatestManifest
  | 1 => ⟨1, 1778067837⟩
  | _ => ⟨2, 1780398000⟩

/-- Three systems in range of a Sin, their gates, the Sin and the skill. -/
def twoBuildsRows : RowDecoder where
  system row :=
    if row = "Jita" then .ok ⟨30000142, row, 9 / 10, 10000002, 20000020, ⟨0, 0, 0⟩⟩
    else if row = "Tama" then
      .ok ⟨30002813, row, 3 / 10, 10000069, 20000414, ⟨4 * 9460700000000000, 0, 0⟩⟩
    else if row = "Amamake" then
      .ok ⟨30002537, row, 2 / 5, 10000030, 20000370, ⟨0, 5 * 9460700000000000, 0⟩⟩
    else .error "expected value at line 1 column 1"
  stargate row :=
    if row = "Jita Tama" then .ok ⟨30000142, 30002813⟩
    else if row = "Amamake Tama" then .ok ⟨30002537, 30002813⟩
    else .error "expected value at line 1 column 1"
  type row :=
    if row = "Sin" then .ok ⟨22430, 898, row, true⟩
    else .error "expected value at line 1 column 1"
  typeDogma row :=
    if row = "Sin" then .ok ⟨22430, [⟨ATTR_JUMP_DRIVE_RANGE, 4⟩]⟩
    else if row = "Calibration" then
      .ok ⟨JDC_SKILL_TYPE_ID, [⟨ATTR_JUMP_DRIVE_RANGE_BONUS, 20⟩]⟩
    else .error "expected value at line 1 column 1"

/-- What `serde_json` makes of the texts of two builds. -/
def twoBuildsSerde : Serde where
  toRowDecoder := twoBuildsRows
  manifest line :=
    if line = manifestLine 1 then .ok (twoBuildsLatest 1)
    else if line = manifestLine 2 then .ok (twoBuildsLatest 2)
    else .error "expected value at line 1 column 1"
  encodeMetadata current := ((twoBuilds.find? fun b => b.1 = current).map Prod.snd).getD []
  decodeMetadata bytes := (twoBuilds.find? fun b => b.2 = bytes).map Prod.fst

/-- The second build has one system and one gate more. -/
def twoBuildsContent (build : UInt64) (file : String) : Bytes :=
  utf8 <|
    if file = "mapSolarSystems.jsonl" then
      if build = 1 then "Jita\nTama\n" else "Jita\nTama\nAmamake\n"
    else if file = "mapStargates.jsonl" then
      if build = 1 then "Jita Tama\n" else "Jita Tama\nAmamake Tama\n"
    else if file = "types.jsonl" then "Sin\n"
    else "Sin\n\nCalibration"

def archiveWith (content : String → Bytes) : Archive :=
  FILES.map fun f => ⟨"Latest/" ++ f, content f⟩

def twoBuildsArchive (build : UInt64) : Archive := archiveWith (twoBuildsContent build)

/-- A cache of one of the two builds. -/
def twoBuildsDisk (build : UInt64) : Disk where
  metadata := (twoBuilds.find? fun b => b.1.buildNumber = build).map Prod.snd
  dirs := AList.singleton (buildDirName build)
    (FILES.map fun f => (⟨f, twoBuildsContent build f⟩ : Sigma fun _ : String => Bytes)).toAList

def twoBuildsHost (fate : Site → Fate Trace) (latest : UInt64) : Host where
  fate := fate
  order := id
  manifest := .body (manifestLine latest ++ "\n")
  download := fun build => .body (.ok (twoBuildsArchive build))
  fetchedAt := 1780401600
  order_perm := fun _ => .refl _

/-- An extraction cut off in the middle of a file, and another cut off in the
middle of the pruning. -/
def twoCuts : List Attempt :=
  [⟨twoBuildsHost (fun site => if site = .writeTmp 1 then .cut 1 else .done) 2, twoBuildsLatest 2⟩,
    ⟨twoBuildsHost (fun site => if site = .removeFile "1" "types.jsonl" then .cut 0 else .done) 2,
      twoBuildsLatest 2⟩]

theorem cache_crash_safe_twoCuts :
    CompleteCurrent twoBuildsArchive twoBuildsSerde
      (installRun twoBuildsSerde (twoBuildsDisk 1) twoCuts) ∧
    (installRun twoBuildsSerde (twoBuildsDisk 1) twoCuts).file "1" "types.jsonl" = some (utf8 "Sin\n") ∧
    (installRun twoBuildsSerde (twoBuildsDisk 1) twoCuts).file "1" "mapStargates.jsonl" = none := by
  refine ⟨cache_crash_safe ⟨⟨1, some 1778067837, 1780401600⟩, ?_, ?_⟩ ?_ ?_, ?_⟩
  · decide +kernel
  · decide +kernel
  · decide +kernel
  · intro a ha archive h
    rcases List.mem_cons.mp ha with rfl | ha
    · cases h
      rfl
    · obtain rfl := List.mem_singleton.mp ha
      cases h
      rfl
  · decide +kernel

end TwoBuilds

end Palu
