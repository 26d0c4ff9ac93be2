import Palu.Proofs.Extraction

namespace Palu

open Effects

variable {d₀ s : Disk} {n : String} {host : Host} {front archive : Archive} {serde : Serde}
  {P E C : Disk → Prop}

section Steps

theorem perform_triple {Q : Disk → Prop} {site : Site} {what : String} {effect : Disk → Disk}
    {partly : ℕ → Disk → Disk} (hdone : host.fate site = .done → Q (effect s))
    (hfailed : host.fate site ≠ .done → ∀ k, E (partly k s)) (hcut : ∀ k, C (partly k s)) :
    Triple (fun t => t = s) (host.perform site what effect partly) (fun _ => Q) E C := by
  apply Triple.context
  apply Triple.perform hdone
  · intro k e he
    exact hfailed (by simp [he]) k
  · intro k _
    exact hcut k

/-- A program that branches on whether a directory can be listed. -/
theorem lists_ite {site : Site} {α : Type} {x y : Io α} {Q : α → Disk → Prop}
    (hread : host.fate site = .done → Triple (fun t => t = s) x Q E C)
    (hfail : host.fate site ≠ .done → Triple (fun t => t = s) y Q E C) (hcut : C s) :
    Triple (fun t => t = s) (do if ← host.lists site then x else y) Q E C := by
  apply Triple.bind (R := fun listed t => t = s ∧ (listed = true ↔ host.fate site = .done))
  · apply Triple.bind (R := fun r t => t = s ∧ (r.toBool = true ↔ host.fate site = .done))
    · apply Triple.attempt
      apply Triple.atomically
      · intro hf
        exact ⟨rfl, by simp [hf, Except.toBool]⟩
      · intro hf e
        exact ⟨rfl, by simp [hf, Except.toBool]⟩
      · intro k _
        exact hcut
    · intro r
      exact Triple.pure fun _ => id
  · intro listed
    apply Triple.of_state
    intro t ht
    obtain ⟨rfl, hlisted⟩ := ht
    split
    · rename_i hl
      exact hread (hlisted.mp hl)
    · rename_i hl
      exact hfail fun hf => hl (hlisted.mpr hf)

end Steps

section Extract

/-- The temporary file of an entry holds `content`, and nothing else has changed
since the entries before it. -/
def TmpHolds (d₀ : Disk) (n : String) (front : Archive) (tmp : String) (content : Bytes)
    (s : Disk) : Prop :=
  Extracting d₀ n front s ∧ ∃ files, s.dir n = some files ∧ files.lookup tmp = some content

theorem TmpHolds.write {tmp : String} (h : Extracting d₀ n front s)
    (hp : (s.dir n).isSome = true) (ht : tmp ∉ FILES) (content : Bytes) :
    TmpHolds d₀ n front tmp content (s.writeFile n tmp content) := by
  obtain ⟨files, hd⟩ := Option.isSome_iff_exists.mp hp
  exact ⟨h.writeFile ht content, _, dir_writeFile hd, AList.lookup_insert _⟩

theorem TmpHolds.present {tmp : String} {content : Bytes} (h : TmpHolds d₀ n front tmp content s) :
    (s.dir n).isSome = true := by
  obtain ⟨files, hd, _⟩ := h.2
  rw [hd]
  rfl

/-- The three steps that put a required file in place all succeed. -/
def FileDone (host : Host) (i : ℕ) : Prop :=
  host.fate (.createTmp i) = .done ∧ host.fate (.writeTmp i) = .done ∧
    host.fate (.renameTmp i) = .done

theorem extractTo_triple {e : ZipEntry} {f : String} (i : ℕ)
    (h : Extracting d₀ n front s) (hp : (s.dir n).isSome = true) (he : e.target = some f) :
    Triple (fun t => t = s) (extractTo host n f i e.content)
      (fun _ t => Extracting d₀ n (front ++ [e]) t ∧ (t.dir n).isSome = true ∧ FileDone host i)
      (fun t => Extracting d₀ n front t ∧ ¬ FileDone host i) (Extracting d₀ n front) := by
  have ht := tmp_notMem_FILES f (ZipEntry.target_mem he)
  unfold extractTo
  dsimp only
  apply Triple.bind (R := fun _ t =>
    TmpHolds d₀ n front (f ++ ".tmp") [] t ∧ host.fate (.createTmp i) = .done)
  · apply perform_triple
    · intro hd
      exact ⟨.write h hp ht [], hd⟩
    · intro hfail k
      exact ⟨h, fun hdone => hfail hdone.1⟩
    · intro k
      exact h
  intro _
  apply Triple.of_state
  intro s₁ hs₁
  obtain ⟨hempty, hcreate⟩ := hs₁
  apply Triple.bind (R := fun _ t => TmpHolds d₀ n front (f ++ ".tmp") e.content t ∧
    host.fate (.createTmp i) = .done ∧ host.fate (.writeTmp i) = .done)
  · apply perform_triple
    · intro hd
      exact ⟨.write hempty.1 hempty.present ht _, hcreate, hd⟩
    · intro hfail k
      exact ⟨hempty.1.writeFile ht _, fun hdone => hfail hdone.2.1⟩
    · intro k
      exact hempty.1.writeFile ht _
  intro _
  apply Triple.of_state
  intro s₂ hs₂
  obtain ⟨⟨hx, files, hdir, hc⟩, hcreate, hwrite⟩ := hs₂
  apply perform_triple
  · intro hd
    refine ⟨hx.renameFile he ht hdir hc, ?_, hcreate, hwrite, hd⟩
    rw [Disk.renameFile, dir_updateDir, if_pos rfl, hdir]
    rfl
  · intro hfail k
    exact ⟨hx, fun hdone => hfail hdone.2.2⟩
  · intro k
    exact hx

/-- No step of the extraction of an entry fails. -/
def EntryDone (host : Host) (entry : ZipEntry × ℕ) : Prop :=
  host.fate (.readEntry entry.2) = .done ∧
    (entry.1.target.isSome = true → FileDone host entry.2)

/-- The loop of `extractFiles` has gone through `front` and found `found`. -/
structure ExtractedSoFar (host : Host) (d₀ : Disk) (n : String) (front : List (ZipEntry × ℕ))
    (found : Finset String) (s : Disk) : Prop extends
    Extracting d₀ n (front.map Prod.fst) s where
  present : (s.dir n).isSome = true
  found_iff : ∀ f, f ∈ found ↔ (contentOf (front.map Prod.fst) f).isSome = true
  done : ∀ entry ∈ front, EntryDone host entry

theorem ExtractedSoFar.concat {front : List (ZipEntry × ℕ)} {found found' : Finset String}
    {s₀ : Disk} {entry : ZipEntry × ℕ} (h : ExtractedSoFar host d₀ n front found s₀)
    (hdone : EntryDone host entry) (hx : Extracting d₀ n (front.map Prod.fst ++ [entry.1]) s)
    (hp : (s.dir n).isSome = true)
    (hfound : ∀ f, f ∈ found' ↔ entry.1.target = some f ∨ f ∈ found) :
    ExtractedSoFar host d₀ n (front ++ [entry]) found' s := by
  have hmap : (front ++ [entry]).map Prod.fst = front.map Prod.fst ++ [entry.1] :=
    List.map_append
  refine ⟨hmap ▸ hx, hp, fun f => ?_, fun x hm => ?_⟩
  · rw [hmap, contentOf_concat, hfound, h.found_iff]
    split
    · rename_i ht
      simp [ht]
    · rename_i ht
      simp [ht]
  · rcases List.mem_append.mp hm with hm | hm
    · exact h.done x hm
    · rw [List.mem_singleton.mp hm]
      exact hdone

/-- An entry without a target is passed over, whether for its path or its name. -/
theorem extractEntry_eq (found : Finset String) (e : ZipEntry) (i : ℕ) :
    extractEntry host n found (e, i) = (do
      host.perform (.readEntry i) "reading zip entry" id
      match e.target with
      | some f => do
        extractTo host n f i e.content
        pure (insert f found)
      | none => pure found) := by
  unfold extractEntry
  dsimp only
  apply congrArg (host.perform (.readEntry i) "reading zip entry" id >>= ·)
  funext _
  by_cases hunsafe : isUnsafeZipPath e.name = true
  · have htarget : e.target = none := if_pos hunsafe
    rw [htarget, if_pos hunsafe]
  have htarget : e.target = (fileName e.name).filter fun f => f ∈ FILES := if_neg hunsafe
  rw [if_neg hunsafe, htarget]
  cases hf : fileName e.name with
  | none => rw [Option.getD_none, if_pos (by decide)]; rfl
  | some f =>
    rw [Option.getD_some]
    by_cases hmem : f ∈ FILES
    · rw [if_neg (not_not_intro hmem), Option.filter_some_pos (by simpa using hmem)]
    · rw [if_pos hmem, Option.filter_some_neg (by simpa using hmem)]

theorem extractEntry_triple (front : List (ZipEntry × ℕ)) (found : Finset String)
    (entry : ZipEntry × ℕ) :
    Triple (ExtractedSoFar host d₀ n front found) (extractEntry host n found entry)
      (ExtractedSoFar host d₀ n (front ++ [entry]))
      (fun s => Extracting d₀ n (front.map Prod.fst) s ∧ ¬ EntryDone host entry)
      (Extracting d₀ n (front.map Prod.fst)) := by
  obtain ⟨e, i⟩ := entry
  apply Triple.of_state
  intro s₀ h
  rw [extractEntry_eq]
  apply Triple.bind (R := fun _ s => s = s₀ ∧ host.fate (.readEntry i) = .done)
  · apply perform_triple
    · intro hd
      exact ⟨rfl, hd⟩
    · intro hf k
      exact ⟨h.toExtracting, fun hdone => hf hdone.1⟩
    · intro k
      exact h.toExtracting
  intro _
  apply Triple.of_state
  intro s₁ hs₁
  obtain ⟨rfl, hread⟩ := hs₁
  cases htarget : e.target with
  | none =>
    apply Triple.pure_at
    exact h.concat ⟨hread, by simp [htarget]⟩ (h.toExtracting.skip htarget) h.present
      (by simp [htarget])
  | some f =>
    apply (extractTo_triple i h.toExtracting h.present htarget).andThen
    · intro s hs
      obtain ⟨hx, hfail⟩ := hs
      exact ⟨hx, fun hdone => hfail (hdone.2 (by simp [htarget]))⟩
    · exact fun _ => id
    intro _ s hs
    obtain ⟨hx, hp, hdone⟩ := hs
    apply Triple.pure_at
    exact h.concat ⟨hread, fun _ => hdone⟩ hx hp (by simp [htarget, eq_comm])

/-- Every entry is extracted, and every required file is among them. -/
structure ExtractsAll (host : Host) (archive : Archive) : Prop where
  entries : ∀ entry ∈ archive.zipIdx, EntryDone host entry
  complete : ∀ f ∈ FILES, (contentOf archive f).isSome = true

theorem extractFiles_triple (h : Extracting d₀ n [] s) (hp : (s.dir n).isSome = true) :
    Triple (fun t => t = s) (extractFiles host n archive)
      (fun _ t => Extracting d₀ n archive t ∧ ExtractsAll host archive)
      (fun t => (∃ front, front ⊆ archive ∧ Extracting d₀ n front t) ∧ ¬ ExtractsAll host archive)
      (fun t => ∃ front, front ⊆ archive ∧ Extracting d₀ n front t) := by
  have hall : archive.zipIdx.map Prod.fst = archive := List.zipIdx_map_fst 0 archive
  have hsub : ∀ front back, archive.zipIdx = front ++ back → front.map Prod.fst ⊆ archive := by
    intro front back he
    rw [← hall, he]
    simp
  unfold extractFiles
  apply Triple.bind (R := ExtractedSoFar host d₀ n archive.zipIdx)
  · apply (Triple.foldlM (I := ExtractedSoFar host d₀ n) fun front entry back found he =>
      (extractEntry_triple front found entry).imp (fun _ => id) (fun _ _ => id) ?_ ?_).pre
    · intro t ht
      subst ht
      exact ⟨h, hp, by simp [contentOf], by simp⟩
    · intro t ht
      obtain ⟨hx, hfail⟩ := ht
      exact ⟨⟨_, hsub front _ he, hx⟩, fun hdone => hfail (hdone.entries entry (by simp [he]))⟩
    · intro t hx
      exact ⟨_, hsub front _ he, hx⟩
  intro found
  apply Triple.of_state
  intro s₁ hx
  have hfiles := hx.toExtracting
  have hfound := hx.found_iff
  rw [hall] at hfiles hfound
  cases hmiss : FILES.find? fun name => name ∉ found with
  | none =>
    apply Triple.pure_at
    refine ⟨hfiles, hx.done, fun f hf => (hfound f).mp ?_⟩
    simpa using List.find?_eq_none.mp hmiss f hf
  | some f =>
    apply Triple.fail_at
    refine ⟨⟨archive, List.Subset.refl _, hfiles⟩, fun hall => ?_⟩
    have hno : f ∉ found := by simpa using List.find?_some hmiss
    exact hno ((hfound f).mpr (hall.complete f (List.mem_of_find?_eq_some hmiss)))

/-- The build is downloaded and extracted in full. -/
structure Fetches (host : Host) (d₀ : Disk) (build : UInt64) (archive : Archive) : Prop extends
    ExtractsAll host archive where
  downloaded : host.download build = .body (.ok archive)
  dir : (d₀.dir (buildDirName build)).isSome = true ∨ host.fate .createBuildDir = .done

/-- Some entries of the downloaded archive have been extracted. -/
def PartlyFetched (host : Host) (d₀ : Disk) (build : UInt64) (s : Disk) : Prop :=
  ∃ front, (∀ e ∈ front, ∃ archive, host.download build = .body (.ok archive) ∧ e ∈ archive) ∧
    Extracting d₀ (buildDirName build) front s

theorem PartlyFetched.refl (host : Host) (d₀ : Disk) (build : UInt64) :
    PartlyFetched host d₀ build d₀ :=
  ⟨[], by simp, .refl d₀ _⟩

theorem PartlyFetched.created {build : UInt64} (h : d₀.dir (buildDirName build) = none) :
    PartlyFetched host d₀ build (d₀.createDir (buildDirName build)) :=
  ⟨[], by simp, .created h⟩

theorem createBuildDir_triple :
    Triple (fun s => s = d₀) (createBuildDir host n)
      (fun _ s => Extracting d₀ n [] s ∧ (s.dir n).isSome = true ∧
        ((d₀.dir n).isSome = true ∨ host.fate .createBuildDir = .done))
      (fun s => s = d₀ ∧ ¬ ((d₀.dir n).isSome = true ∨ host.fate .createBuildDir = .done))
      (fun s => s = d₀) := by
  unfold createBuildDir
  apply Triple.get_bind
  by_cases hd : (d₀.dir n).isSome = true
  · rw [if_pos hd]
    exact Triple.pure_at ⟨.refl d₀ n, hd, .inl hd⟩
  · rw [if_neg hd]
    apply perform_triple
    · intro hdone
      refine ⟨.created (by simpa using hd), ?_, .inr hdone⟩
      simp [dir_createDir]
    · intro hfail k
      exact ⟨rfl, not_or.mpr ⟨hd, hfail⟩⟩
    · intro k
      rfl

theorem Response.read_eq_ok {α : Type} {r : Response α} {sending status reading : String} {a : α} :
    r.read sending status reading = .ok a ↔ r = .body a := by
  cases r <;> simp [Response.read]

theorem fetchAndExtractBuild_triple (build : UInt64) :
    Triple (fun s => s = d₀) (fetchAndExtractBuild host build)
      (fun _ s => ∃ archive, Fetches host d₀ build archive ∧
        Extracting d₀ (buildDirName build) archive s)
      (fun s => PartlyFetched host d₀ build s ∧ ¬ ∃ archive, Fetches host d₀ build archive)
      (PartlyFetched host d₀ build) := by
  unfold fetchAndExtractBuild
  apply Triple.ofExcept_bind
  · intro opened hread
    have hdown := Response.read_eq_ok.mp hread
    apply createBuildDir_triple.andThen
    · intro s hs
      obtain ⟨rfl, hno⟩ := hs
      exact ⟨.refl host s build, fun ⟨archive, h⟩ => hno h.dir⟩
    · intro s hs
      subst hs
      exact .refl host s build
    intro _ s₁ hs₁
    obtain ⟨hx, hp, hdir⟩ := hs₁
    apply Triple.ofExcept_bind
    · intro archive hopen
      obtain rfl : opened = .ok archive := by
        cases opened with
        | ok a => exact congrArg Except.ok (Except.ok.inj hopen)
        | error e => cases hopen
      have hpart : ∀ s, (∃ front, front ⊆ archive ∧
          Extracting d₀ (buildDirName build) front s) → PartlyFetched host d₀ build s := by
        intro s hs
        obtain ⟨front, hsub, hfront⟩ := hs
        exact ⟨front, fun e he => ⟨archive, hdown, hsub he⟩, hfront⟩
      apply (extractFiles_triple hx hp).imp (fun _ => id) ?_ ?_ hpart
      · intro _ s hs
        obtain ⟨hs, hall⟩ := hs
        exact ⟨archive, ⟨hall, hdown, hdir⟩, hs⟩
      · intro s hs
        obtain ⟨hs, hno⟩ := hs
        refine ⟨hpart s hs, fun ⟨archive', h⟩ => hno ?_⟩
        cases hdown.symm.trans h.downloaded
        exact h.toExtractsAll
    · intro e hopen
      refine ⟨⟨[], by simp, hx⟩, fun ⟨archive, h⟩ => ?_⟩
      cases hdown.symm.trans h.downloaded
      cases hopen
  · intro e hread
    refine ⟨.refl host d₀ build, fun ⟨archive, h⟩ => ?_⟩
    rw [Response.read_eq_ok.mpr h.downloaded] at hread
    cases hread

end Extract

section Metadata

def MetadataDone (host : Host) : Prop :=
  host.fate .createMetadataTmp = .done ∧ host.fate .writeMetadataTmp = .done ∧
    host.fate .renameMetadata = .done

/-- Nothing but `metadata.json.tmp` has changed. -/
structure SameButTmp (s₀ s : Disk) : Prop where
  metadata : s.metadata = s₀.metadata
  dirs : s.dirs = s₀.dirs

theorem writeMetadata_triple {s₀ : Disk} {current : CacheMetadata} (hr : s₀.rooted = true) :
    Triple (fun s => s = s₀) (writeMetadata serde host current)
      (fun _ s => s.metadata = some (serde.encodeMetadata current) ∧ s.dirs = s₀.dirs ∧
        MetadataDone host)
      (fun s => SameButTmp s₀ s ∧ ¬ MetadataDone host) (SameButTmp s₀) := by
  unfold writeMetadata createRoot
  apply Triple.bind (R := fun _ s => s = s₀)
  · apply Triple.get_bind
    rw [if_pos hr]
    exact Triple.pure_at rfl
  intro _
  apply Triple.bind (R := fun _ s => SameButTmp s₀ s ∧ host.fate .createMetadataTmp = .done)
  · apply perform_triple
    · intro hd
      exact ⟨⟨rfl, rfl⟩, hd⟩
    · intro hfail k
      exact ⟨⟨rfl, rfl⟩, fun hdone => hfail hdone.1⟩
    · intro k
      exact ⟨rfl, rfl⟩
  intro _
  apply Triple.of_state
  intro s₁ hs₁
  obtain ⟨hs, hcreate⟩ := hs₁
  dsimp only
  apply Triple.bind (R := fun _ s => (SameButTmp s₀ s ∧
    s.metadataTmp = some (serde.encodeMetadata current)) ∧ host.fate .writeMetadataTmp = .done)
  · apply perform_triple
    · intro hd
      exact ⟨⟨⟨hs.metadata, hs.dirs⟩, rfl⟩, hd⟩
    · intro hfail k
      exact ⟨⟨hs.metadata, hs.dirs⟩, fun hdone => hfail hdone.2.1⟩
    · intro k
      exact ⟨hs.metadata, hs.dirs⟩
  intro _
  apply Triple.of_state
  intro s₂ hs₂
  obtain ⟨⟨hs, htmp⟩, hwrite⟩ := hs₂
  apply perform_triple
  · intro hd
    unfold Disk.renameMetadata
    rw [htmp]
    exact ⟨rfl, hs.dirs, hcreate, hwrite, hd⟩
  · intro hfail k
    exact ⟨hs, fun hdone => hfail hdone.2.2⟩
  · intro k
    exact hs

end Metadata

section Prune

/-- Nothing but the directory `n` has changed. -/
structure OnlyDir (n : String) (s₀ s : Disk) : Prop where
  metadata : s.metadata = s₀.metadata
  others : ∀ m, m ≠ n → s.dir m = s₀.dir m

theorem OnlyDir.refl (n : String) (s : Disk) : OnlyDir n s s := ⟨rfl, fun _ _ => rfl⟩

theorem OnlyDir.removeFile {s₀ : Disk} (h : OnlyDir n s₀ s) (f : String) :
    OnlyDir n s₀ (s.removeFile n f) := by
  refine ⟨?_, fun m hm => ?_⟩
  · rw [Disk.removeFile, metadata_updateDir, h.metadata]
  · rw [Disk.removeFile, dir_updateDir, if_neg hm, h.others m hm]

theorem OnlyDir.removeDir {s₀ : Disk} (h : OnlyDir n s₀ s) : OnlyDir n s₀ (s.removeDir n) := by
  refine ⟨h.metadata, fun m hm => ?_⟩
  rw [dir_removeDir, if_neg hm, h.others m hm]

/-- The files that removing a directory gets through, out of those listed in it. -/
def Host.removed (host : Host) (n : String) (files : List String) : List String :=
  if host.fate (.readDir n) = .done then
    (host.order files).takeWhile fun f => host.fate (.removeFile n f) = .done
  else []

/-- A directory is as removing it leaves it, whether that succeeds or fails. -/
def PrunedDir (host : Host) (n : String) (files : Dir) (s : Disk) : Prop :=
  ∀ f, s.file n f = if f ∈ host.removed n files.keys then none else files.lookup f

/-- The files of `front` are gone from the directory. -/
structure Removing (host : Host) (n : String) (files : Dir) (s₀ : Disk) (front : List String)
    (s : Disk) : Prop extends OnlyDir n s₀ s where
  left : ∃ rest, s.dir n = some rest ∧
    ∀ f, rest.lookup f = if f ∈ front then none else files.lookup f
  done : ∀ f ∈ front, host.fate (.removeFile n f) = .done

theorem Removing.removeFile {files : Dir} {s₀ : Disk} {front : List String} {x : String}
    (h : Removing host n files s₀ front s) (hx : host.fate (.removeFile n x) = .done) :
    Removing host n files s₀ (front ++ [x]) (s.removeFile n x) := by
  obtain ⟨rest, hd, hrest⟩ := h.left
  refine ⟨h.toOnlyDir.removeFile x, ⟨rest.erase x, ?_, fun f => ?_⟩, fun f hf => ?_⟩
  · rw [Disk.removeFile, dir_updateDir, if_pos rfl, hd]
    rfl
  · by_cases hfx : f = x
    · subst hfx
      rw [AList.lookup_erase]
      simp
    · rw [AList.lookup_erase_ne hfx, hrest]
      simp [hfx]
  · rcases List.mem_append.mp hf with hf | hf
    · exact h.done f hf
    · rw [List.mem_singleton.mp hf]
      exact hx

/-- All the files of a directory are gone once each has been removed. -/
theorem Removing.all {files : Dir} {s₀ : Disk} (hread : host.fate (.readDir n) = .done)
    (h : Removing host n files s₀ (host.order files.keys) s) :
    host.removed n files.keys = host.order files.keys ∧
      ∀ f, f ∉ host.order files.keys → files.lookup f = none := by
  constructor
  · rw [Host.removed, if_pos hread, List.takeWhile_eq_self_iff]
    simpa using h.done
  · intro f hf
    rw [AList.lookup_eq_none, AList.mem_keys, ← (host.order_perm _).mem_iff]
    exact hf

/-- A removal that fails at a file leaves those from there on. -/
theorem Removing.failed {files : Dir} {s₀ : Disk} {front back : List String} {x : String}
    (hread : host.fate (.readDir n) = .done) (he : host.order files.keys = front ++ x :: back)
    (h : Removing host n files s₀ front s) (hx : host.fate (.removeFile n x) ≠ .done) :
    PrunedDir host n files s := by
  intro f
  obtain ⟨rest, hdir, hrest⟩ := h.left
  have hfront : host.removed n files.keys = front := by
    rw [Host.removed, if_pos hread, he, List.takeWhile_append_of_pos (by simpa using h.done)]
    simp [hx]
  rw [file_eq_of_dir hdir, hrest, hfront]

/-- The files are gone, whether the directory goes with them or not. -/
theorem Removing.pruned {files : Dir} {s₀ : Disk} (hread : host.fate (.readDir n) = .done)
    (h : Removing host n files s₀ (host.order files.keys) s) :
    PrunedDir host n files s ∧ PrunedDir host n files (s.removeDir n) := by
  obtain ⟨hall, hnone⟩ := h.all hread
  constructor
  · intro f
    obtain ⟨rest, hdir, hrest⟩ := h.left
    rw [file_eq_of_dir hdir, hrest, hall]
  · intro f
    rw [Disk.file, dir_removeDir, if_pos rfl, hall]
    split
    · rfl
    · rename_i hf
      exact (hnone f hf).symm

theorem removeFiles_triple {files : Dir} {s₀ : Disk} (hread : host.fate (.readDir n) = .done) :
    Triple (Removing host n files s₀ [])
      (forM (host.order files.keys) fun file =>
        (atomically (host.fate (.removeFile n file)) fun d => d.removeFile n file : Io Unit))
      (fun _ => Removing host n files s₀ (host.order files.keys))
      (fun s => OnlyDir n s₀ s ∧ PrunedDir host n files s) (OnlyDir n s₀) := by
  apply Triple.forM
  intro front x back he
  apply Triple.of_state
  intro s hs
  apply Triple.atomically
  · exact hs.removeFile
  · intro hfail
    exact ⟨hs.toOnlyDir, hs.failed hread he hfail⟩
  · intro k _
    exact hs.toOnlyDir

theorem removeDirAll_triple {files : Dir} {s₀ : Disk} (hd : s₀.dir n = some files) :
    Triple (fun s => s = s₀) (removeDirAll host n)
      (fun _ s => OnlyDir n s₀ s ∧ PrunedDir host n files s)
      (fun s => OnlyDir n s₀ s ∧ PrunedDir host n files s) (OnlyDir n s₀) := by
  unfold removeDirAll
  apply Triple.bind (R := fun _ s => s = s₀ ∧ host.fate (.readDir n) = .done)
  · apply Triple.atomically
    · intro hread
      exact ⟨rfl, hread⟩
    · intro hfail
      refine ⟨.refl n s₀, fun f => ?_⟩
      rw [Host.removed, if_neg hfail, file_eq_of_dir hd]
      simp
    · intro k _
      exact .refl n s₀
  intro _
  apply Triple.of_state
  intro s₁ hs₁
  obtain ⟨rfl, hread⟩ := hs₁
  apply Triple.get_bind
  rw [hd, Option.map_some, Option.getD_some]
  apply Triple.bind (R := fun _ => Removing host n files s₁ (host.order files.keys))
  · apply (removeFiles_triple hread).pre
    intro s hs
    subst hs
    exact ⟨.refl n s, ⟨files, hd, by simp⟩, by simp⟩
  intro _
  apply Triple.of_state
  intro s hs
  obtain ⟨hkept, hremoved⟩ := hs.pruned hread
  apply Triple.atomically
  · intro _
    exact ⟨hs.toOnlyDir.removeDir, hremoved⟩
  · intro _
    exact ⟨hs.toOnlyDir, hkept⟩
  · intro k _
    exact hs.toOnlyDir

/-- The pruning goes for this directory: it can be listed, and it is that of
another build than the one to keep. -/
def Prunes (host : Host) (keep : UInt64) (n : String) : Prop :=
  host.fate .readRoot = .done ∧ host.fate (.readRootEntry n) = .done ∧
    ∃ b, parseU64 n = some b ∧ b ≠ keep

theorem not_prunes_keep (host : Host) (keep : UInt64) : ¬ Prunes host keep (buildDirName keep) := by
  intro h
  obtain ⟨_, _, b, hb, hne⟩ := h
  rw [parseU64_buildDirName] at hb
  exact hne (Option.some.inj hb).symm

theorem pruneEntry_triple {keep : UInt64} {files : Dir} {s₀ : Disk}
    (hroot : host.fate .readRoot = .done) (hd : s₀.dir n = some files) :
    Triple (fun s => s = s₀) (pruneEntry host keep n)
      (fun _ s => OnlyDir n s₀ s ∧ (Prunes host keep n → PrunedDir host n files s) ∧
        (¬ Prunes host keep n → s = s₀))
      (fun _ => False) (fun s => OnlyDir n s₀ s ∧ (¬ Prunes host keep n → s = s₀)) := by
  have hskip : ¬ Prunes host keep n → Triple (fun t => t = s₀) (pure () : Io Unit)
      (fun _ s => OnlyDir n s₀ s ∧ (Prunes host keep n → PrunedDir host n files s) ∧
        (¬ Prunes host keep n → s = s₀))
      (fun _ => False) (fun s => OnlyDir n s₀ s ∧ (¬ Prunes host keep n → s = s₀)) := by
    intro hno
    exact Triple.pure_at ⟨.refl n s₀, fun h => absurd h hno, fun _ => rfl⟩
  apply lists_ite
  · intro hread
    cases hb : parseU64 n with
    | none =>
      apply hskip
      intro h
      obtain ⟨_, _, b, hb', _⟩ := h
      rw [hb] at hb'
      cases hb'
    | some b =>
      dsimp only
      by_cases hne : b ≠ keep
      · have hprunes : Prunes host keep n := ⟨hroot, hread, b, hb, hne⟩
        rw [if_pos hne]
        apply Triple.bind (R := fun _ s => OnlyDir n s₀ s ∧ PrunedDir host n files s)
        · apply Triple.attempt
          apply (removeDirAll_triple hd).imp (fun _ => id) (fun _ _ => id)
          · intro s hs _
            exact hs
          · intro s hs
            exact ⟨hs, fun hno => absurd hprunes hno⟩
        · intro _
          apply Triple.pure
          intro s hs
          exact ⟨hs.1, fun _ => hs.2, fun hno => absurd hprunes hno⟩
      · rw [if_neg hne]
        apply hskip
        intro h
        obtain ⟨_, _, b', hb', hne'⟩ := h
        rw [hb] at hb'
        exact hne (Option.some.inj hb' ▸ hne')
  · intro hfail
    apply hskip
    intro h
    exact hfail h.2.1
  · exact ⟨.refl n s₀, fun _ => rfl⟩

/-- The pruning has touched no directory but those it goes for. -/
structure Spares (host : Host) (keep : UInt64) (s₀ s : Disk) : Prop where
  metadata : s.metadata = s₀.metadata
  kept : ∀ m, ¬ Prunes host keep m → s.dir m = s₀.dir m

/-- The pruning has gone through the directories of `front`. -/
structure PrunedSoFar (host : Host) (keep : UInt64) (s₀ : Disk) (front : List String) (s : Disk) :
    Prop extends Spares host keep s₀ s where
  ahead : ∀ m, m ∉ front → s.dir m = s₀.dir m
  pruned : ∀ m ∈ front, Prunes host keep m → ∀ files, s₀.dir m = some files →
    PrunedDir host m files s

/-- Going for one more directory spares the others. -/
theorem Spares.onlyDir {keep : UInt64} {s₀ s₁ : Disk} (h : Spares host keep s₀ s₁)
    (hs : OnlyDir n s₁ s) (hkept : ¬ Prunes host keep n → s = s₁) : Spares host keep s₀ s := by
  refine ⟨hs.metadata.trans h.metadata, fun m hm => ?_⟩
  by_cases hmn : m = n
  · subst hmn
    rw [hkept hm, h.kept m hm]
  · rw [hs.others m hmn, h.kept m hm]

theorem PrunedSoFar.concat {keep : UInt64} {s₀ s₁ : Disk} {front : List String} {files : Dir}
    (h : PrunedSoFar host keep s₀ front s₁) (hn : n ∉ front) (hd : s₀.dir n = some files)
    (hs : OnlyDir n s₁ s) (hpruned : Prunes host keep n → PrunedDir host n files s)
    (hkept : ¬ Prunes host keep n → s = s₁) : PrunedSoFar host keep s₀ (front ++ [n]) s := by
  refine ⟨h.toSpares.onlyDir hs hkept, fun m hm => ?_, fun m hm hp g hg => ?_⟩
  · rw [List.mem_append, not_or, List.mem_singleton] at hm
    rw [hs.others m hm.2, h.ahead m hm.1]
  · rcases List.mem_append.mp hm with hm | hm
    · have hmn : m ≠ n := fun he => hn (he ▸ hm)
      intro f
      rw [Disk.file, hs.others m hmn]
      exact h.pruned m hm hp g hg f
    · obtain rfl := List.mem_singleton.mp hm
      cases hd.symm.trans hg
      exact hpruned hp

/-- Every directory that the pruning goes for is as removing it leaves it. -/
structure Pruned (host : Host) (keep : UInt64) (s₀ s : Disk) : Prop extends
    Spares host keep s₀ s where
  pruned : ∀ m, Prunes host keep m → ∀ files, s₀.dir m = some files → PrunedDir host m files s

theorem mem_keys_of_dir {s₀ : Disk} {files : Dir} (h : s₀.dir n = some files) : n ∈ s₀.dirs.keys :=
  AList.mem_keys.mp (AList.lookup_isSome.mp (Option.isSome_of_eq_some h))

theorem pruneOtherBuilds_triple {keep : UInt64} {s₀ : Disk} :
    Triple (fun s => s = s₀) (pruneOtherBuilds host keep) (fun _ => Pruned host keep s₀)
      (fun _ => False) (Spares host keep s₀) := by
  apply lists_ite
  · intro hroot
    apply Triple.get_bind
    have hperm := host.order_perm s₀.dirs.keys
    have hnodup : (host.order s₀.dirs.keys).Nodup := hperm.nodup_iff.mpr s₀.dirs.keys_nodup
    apply (Triple.forM (I := PrunedSoFar host keep s₀) fun front x back he => ?_).imp
    · intro s hs
      subst hs
      exact ⟨⟨rfl, fun _ _ => rfl⟩, fun _ _ => rfl, by simp⟩
    · intro _ s hs
      refine ⟨hs.toSpares, fun m hp files hd => hs.pruned m ?_ hp files hd⟩
      exact hperm.mem_iff.mpr (mem_keys_of_dir hd)
    · exact fun _ => id
    · exact fun _ => id
    -- The listing is of the directories there at the start, each once.
    have hx : x ∉ front := by
      rw [he] at hnodup
      intro hmem
      exact (List.nodup_append.mp hnodup).2.2 x hmem x (by simp) rfl
    have hkey : x ∈ s₀.dirs.keys := hperm.mem_iff.mp (by simp [he])
    obtain ⟨files, hd⟩ := Option.isSome_iff_exists.mp
      (AList.lookup_isSome.mpr (AList.mem_keys.mpr hkey))
    apply Triple.of_state
    intro s₁ hs₁
    apply (pruneEntry_triple hroot ((hs₁.ahead x hx).trans hd)).imp (fun _ => id)
    · intro _ s hs
      obtain ⟨honly, hpruned, hkept⟩ := hs
      exact hs₁.concat hx hd honly hpruned hkept
    · exact fun _ => False.elim
    · intro s hs
      obtain ⟨honly, hkept⟩ := hs
      exact hs₁.toSpares.onlyDir honly hkept
  · intro hfail
    apply Triple.pure_at
    exact ⟨⟨rfl, fun _ _ => rfl⟩, fun m hp => absurd hp.1 hfail⟩
  · exact ⟨rfl, fun _ _ => rfl⟩

end Prune

section Whole

/-- What `metadata.json` is to say of an installed build. -/
def Host.current (host : Host) (latest : LatestManifest) : CacheMetadata :=
  { buildNumber := latest.buildNumber
    releaseDate := some latest.releaseDate
    fetchedAt := host.fetchedAt }

/-- Nothing fails up to the promotion of the build. -/
structure Installs (host : Host) (d₀ : Disk) (build : UInt64) (archive : Archive) : Prop extends
    Fetches host d₀ build archive where
  promoted : MetadataDone host

/-- The build is current, with every required file as its archive has it. -/
structure Promoted (serde : Serde) (host : Host) (latest : LatestManifest) (archive : Archive)
    (s : Disk) : Prop where
  downloaded : host.download latest.buildNumber = .body (.ok archive)
  metadata : s.metadata = some (serde.encodeMetadata (host.current latest))
  complete : ∀ f ∈ FILES, (contentOf archive f).isSome = true
  files : ∀ f ∈ FILES, s.file (buildDirName latest.buildNumber) f = contentOf archive f

/-- The build is current, and the others are pruned. -/
structure Installed (serde : Serde) (host : Host) (d₀ : Disk) (latest : LatestManifest)
    (archive : Archive) (s : Disk) : Prop extends Promoted serde host latest archive s where
  installs : Installs host d₀ latest.buildNumber archive
  kept : ∀ m, m ≠ buildDirName latest.buildNumber → ¬ Prunes host latest.buildNumber m →
    s.dir m = d₀.dir m
  pruned : ∀ m, m ≠ buildDirName latest.buildNumber → Prunes host latest.buildNumber m →
    ∀ files, d₀.dir m = some files → PrunedDir host m files s

theorem rooted_of_file {f : String} (h : (s.file n f).isSome = true) : s.rooted = true := by
  obtain ⟨content, hc⟩ := Option.isSome_iff_exists.mp h
  obtain ⟨files, hd, _⟩ := Option.bind_eq_some_iff.mp hc
  have hkey := mem_keys_of_dir hd
  unfold Disk.rooted
  cases hkeys : s.dirs.keys with
  | nil => simp [hkeys] at hkey
  | cons m rest => simp

theorem Extracting.of_sameButTmp {s₁ : Disk} (h : Extracting d₀ n front s₁)
    (hs : SameButTmp s₁ s) : Extracting d₀ n front s := by
  have hdir : ∀ m, s.dir m = s₁.dir m := fun m => by rw [Disk.dir, hs.dirs, Disk.dir]
  refine ⟨hs.metadata.trans h.metadata, fun m hm => (hdir m).trans (h.others m hm), fun f hf => ?_⟩
  rw [← h.files f hf, Disk.file, hdir, Disk.file]

theorem fetchAndInstall_triple (serde : Serde) (host : Host) (latest : LatestManifest) :
    Triple (fun s => s = d₀) (fetchAndInstall serde host latest)
      (fun current s => current = host.current latest ∧
        ∃ archive, Installed serde host d₀ latest archive s)
      (fun s => PartlyFetched host d₀ latest.buildNumber s ∧
        ¬ ∃ archive, Installs host d₀ latest.buildNumber archive)
      (fun s => PartlyFetched host d₀ latest.buildNumber s ∨
        ∃ archive, Promoted serde host latest archive s) := by
  unfold fetchAndInstall
  apply (Triple.context (fetchAndExtractBuild_triple latest.buildNumber)).andThen
  · intro s ⟨hpart, hno⟩
    exact ⟨hpart, fun ⟨archive, h⟩ => hno ⟨archive, h.toFetches⟩⟩
  · exact fun s => .inl
  intro _ s₁ ⟨archive, hfetch, hx⟩
  have hfiles : ∀ f ∈ FILES, s₁.file (buildDirName latest.buildNumber) f = contentOf archive f := by
    intro f hf
    rw [hx.files f hf, Option.or_of_isSome (hfetch.complete f hf)]
  have hroot : s₁.rooted = true := by
    have hmem : "types.jsonl" ∈ FILES := by decide
    have hfile := hfetch.complete "types.jsonl" hmem
    rw [← hfiles _ hmem] at hfile
    exact rooted_of_file hfile
  have hpart : ∀ s, SameButTmp s₁ s → PartlyFetched host d₀ latest.buildNumber s := by
    intro s hs
    exact ⟨archive, fun e he => ⟨archive, hfetch.downloaded, he⟩, hx.of_sameButTmp hs⟩
  dsimp only
  apply (writeMetadata_triple hroot).andThen
  · intro s ⟨hs, hno⟩
    refine ⟨hpart s hs, fun ⟨archive', h⟩ => hno h.promoted⟩
  · exact fun s hs => .inl (hpart s hs)
  intro _ s₂ ⟨hmeta, hdirs, hdone⟩
  have hdir : ∀ m, s₂.dir m = s₁.dir m := fun m => by rw [Disk.dir, hdirs, Disk.dir]
  have hpromoted : ∀ s, Spares host latest.buildNumber s₂ s →
      Promoted serde host latest archive s := by
    intro s hs
    refine ⟨hfetch.downloaded, hs.metadata.trans hmeta, hfetch.complete, fun f hf => ?_⟩
    rw [← hfiles f hf, Disk.file, hs.kept _ (not_prunes_keep host _), hdir, Disk.file]
  apply Triple.bind (R := fun _ => Pruned host latest.buildNumber s₂)
  · apply Triple.attempt
    apply pruneOtherBuilds_triple.imp (fun _ => id) (fun _ _ => id)
    · exact fun _ => False.elim
    · exact fun s hs => .inr ⟨archive, hpromoted s hs⟩
  intro _
  apply Triple.pure
  intro s hs
  refine ⟨rfl, archive, hpromoted s hs.toSpares, ⟨hfetch, hdone⟩, fun m hm hno => ?_,
    fun m hm hp files hd => ?_⟩
  · rw [hs.kept m hno, hdir, hx.others m hm]
  · apply hs.pruned m hp files
    rw [hdir, hx.others m hm, hd]

end Whole

end Palu
