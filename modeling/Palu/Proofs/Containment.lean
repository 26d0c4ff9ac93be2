import Palu.Proofs.CrashSafety
import Palu.Tables

namespace Palu

open Effects Tables

variable {d s : Disk} {n name : String} {host : Host} {archive front back : Archive}

section Names

/-- What the extraction may write: a required file, or its temporary file. -/
def Extractable (name : String) : Prop := ∃ f ∈ FILES, name = f ∨ name = f ++ ".tmp"

theorem Extractable.tmp {f : String} (hf : f ∈ FILES) : Extractable (f ++ ".tmp") :=
  ⟨f, hf, .inr rfl⟩

theorem Extractable.file {f : String} (hf : f ∈ FILES) : Extractable f :=
  ⟨f, hf, .inl rfl⟩

theorem pathNames_slash (a b : String) :
    pathNames (a ++ "/" ++ b) = pathNames a ++ pathNames b := by
  have hlist : (a ++ "/" ++ b).toList = a.toList ++ '/' :: b.toList := by simp
  unfold pathNames
  rw [hlist, List.splitOn_append_cons_self, List.map_append, List.filter_append]

/-- An extractable name is one step down a path. -/
theorem Extractable.pathNames (h : Extractable name) : Palu.pathNames name = [name] := by
  have hall : ∀ f ∈ FILES,
      Palu.pathNames f = [f] ∧ Palu.pathNames (f ++ ".tmp") = [f ++ ".tmp"] := by
    decide +kernel
  obtain ⟨f, hf, hname⟩ := h
  rcases hname with rfl | rfl
  · exact (hall name hf).1
  · exact (hall f hf).2

/-- An absolute name, be it of Unix or of Windows. -/
def Absolute (name : String) : Prop :=
  name.toList.head? = some '/' ∨ name.toList.head? = some '\\' ∨
    ∃ c rest, c.isAlpha = true ∧ name.toList = c :: ':' :: rest

/-- A name that may lead out of the directory it is taken in. -/
def Escapes (name : String) : Prop := Absolute name ∨ ['.', '.'] ∈ name.toList.splitOn '/'

theorem parent_mem_pathNames :
    ".." ∈ pathNames name ↔ ['.', '.'] ∈ name.toList.splitOn '/' := by
  have hparent : ".." = String.ofList ['.', '.'] := rfl
  have hinj : Function.Injective String.ofList := fun _ _ => String.ofList_injective
  unfold pathNames
  rw [List.mem_filter, hparent, List.mem_map_of_injective hinj]
  exact and_iff_left (by decide)

theorem isUnsafeZipPath_iff : isUnsafeZipPath name = true ↔ Escapes name := by
  unfold isUnsafeZipPath Escapes
  rw [Bool.or_eq_true, ← parent_mem_pathNames]
  apply or_congr
  · unfold Absolute
    match name.toList with
    | [] => simp
    | [c] => simp
    | c :: d :: rest => simp [or_assoc]
  · simp

end Names

section Contained

/-- Nothing is different outside the directory `n`, nor in it but for extractable files. -/
structure Contained (d : Disk) (n : String) (s : Disk) : Prop where
  metadata : s.metadata = d.metadata
  metadataTmp : s.metadataTmp = d.metadataTmp
  others : ∀ m, m ≠ n → s.dir m = d.dir m
  present : (s.dir n).isSome = (d.dir n).isSome
  files : ∀ name, ¬ Extractable name → s.file n name = d.file n name

theorem Contained.refl (d : Disk) (n : String) : Contained d n d :=
  ⟨rfl, rfl, fun _ _ => rfl, rfl, fun _ _ => rfl⟩

theorem metadataTmp_updateDir (d : Disk) (n : String) (g : Dir → Dir) :
    (d.updateDir n g).metadataTmp = d.metadataTmp := by
  unfold Disk.updateDir
  split <;> rfl

theorem Contained.updateDir {g : Dir → Dir} (h : Contained d n s)
    (hg : ∀ files name, ¬ Extractable name → (g files).lookup name = files.lookup name) :
    Contained d n (s.updateDir n g) := by
  refine ⟨?_, ?_, fun m hm => ?_, ?_, fun name hname => ?_⟩
  · rw [metadata_updateDir, h.metadata]
  · rw [metadataTmp_updateDir, h.metadataTmp]
  · rw [dir_updateDir, if_neg hm, h.others m hm]
  · rw [dir_updateDir, if_pos rfl, Option.isSome_map, h.present]
  · rw [← h.files name hname, Disk.file, Disk.file, dir_updateDir, if_pos rfl]
    cases s.dir n with
    | none => rfl
    | some files => exact hg files name hname

theorem Contained.writeFile (h : Contained d n s) (hname : Extractable name) (content : Bytes) :
    Contained d n (s.writeFile n name content) := by
  apply h.updateDir
  intro files m hm
  have hne : m ≠ name := fun he => hm (he ▸ hname)
  exact AList.lookup_insert_ne hne

theorem Contained.renameFile {dst : String} (h : Contained d n s) (hname : Extractable name)
    (hdst : Extractable dst) : Contained d n (s.renameFile n name dst) := by
  apply h.updateDir
  intro files m hm
  have hne : m ≠ name := fun he => hm (he ▸ hname)
  have hne' : m ≠ dst := fun he => hm (he ▸ hdst)
  cases files.lookup name with
  | none => rfl
  | some content => exact (AList.lookup_insert_ne hne').trans (AList.lookup_erase_ne hne)

/-- An effect that keeps an invariant, however far it gets. -/
theorem perform_invariant {I : Disk → Prop} {site : Site} {what : String} {effect : Disk → Disk}
    {partly : ℕ → Disk → Disk} (heffect : ∀ s, I s → I (effect s))
    (hpartly : ∀ k s, I s → I (partly k s)) :
    Triple I (host.perform site what effect partly) (fun _ => I) I I := by
  apply Triple.of_state
  intro s hs
  apply perform_triple
  · exact fun _ => heffect s hs
  · exact fun _ k => hpartly k s hs
  · exact fun k => hpartly k s hs

theorem extractTo_contained {f : String} (hf : f ∈ FILES) (i : ℕ) (content : Bytes) :
    Triple (Contained d n) (extractTo host n f i content) (fun _ => Contained d n)
      (Contained d n) (Contained d n) := by
  have htmp := Extractable.tmp hf
  unfold extractTo
  dsimp only
  apply Triple.bind (R := fun _ => Contained d n)
  · exact perform_invariant (fun _ h => h.writeFile htmp []) fun _ _ => id
  intro _
  apply Triple.bind (R := fun _ => Contained d n)
  · exact perform_invariant (fun _ h => h.writeFile htmp content)
      fun k _ h => h.writeFile htmp (content.take k)
  intro _
  exact perform_invariant (fun _ h => h.renameFile htmp (.file hf)) fun _ _ => id

theorem extractEntry_contained (found : Finset String) (entry : ZipEntry × ℕ) :
    Triple (Contained d n) (extractEntry host n found entry) (fun _ => Contained d n)
      (Contained d n) (Contained d n) := by
  obtain ⟨e, i⟩ := entry
  rw [extractEntry_eq]
  apply Triple.bind (R := fun _ => Contained d n)
  · exact perform_invariant (fun _ => id) fun _ _ => id
  intro _
  cases htarget : e.target with
  | none => exact Triple.pure fun _ => id
  | some f =>
    apply Triple.bind (R := fun _ => Contained d n)
    · exact extractTo_contained (ZipEntry.target_mem htarget) i e.content
    · exact fun _ => Triple.pure fun _ => id

theorem extractFiles_contained :
    Triple (Contained d n) (extractFiles host n archive) (fun _ => Contained d n)
      (Contained d n) (Contained d n) := by
  unfold extractFiles
  apply Triple.bind (R := fun _ => Contained d n)
  · exact Triple.foldlM (I := fun _ _ => Contained d n) fun _ entry _ found _ =>
      extractEntry_contained found entry
  intro found
  cases FILES.find? fun name => name ∉ found with
  | none => exact Triple.pure fun _ => id
  | some f => exact Triple.of_state fun _ => Triple.fail_at

end Contained

section Undisturbed

/-- What the extraction of an entry makes of the disk when nothing fails. -/
def placeEntry (n : String) (d : Disk) (e : ZipEntry) : Disk :=
  match e.target with
  | some f => ((d.writeFile n (f ++ ".tmp") []).writeFile n (f ++ ".tmp") e.content).renameFile n
      (f ++ ".tmp") f
  | none => d

/-- The required files that an archive has entries for. -/
def targets (archive : Archive) : Finset String := (archive.filterMap ZipEntry.target).toFinset

theorem mem_targets {f : String} : f ∈ targets archive ↔ ∃ e ∈ archive, e.target = some f := by
  simp [targets]

variable (hdone : ∀ site, host.fate site = .done)
include hdone

theorem run_perform (site : Site) (what : String) (effect : Disk → Disk)
    (partly : ℕ → Disk → Disk) :
    run (host.perform site what effect partly) d = (.ok (), effect d) := by
  unfold run Host.perform context Effects.run Effects.perform
  rw [hdone]

theorem run_extractEntry (found : Finset String) (e : ZipEntry) (i : ℕ) :
    run (extractEntry host n found (e, i)) d = (.ok (found ∪ targets [e]), placeEntry n d e) := by
  rw [extractEntry_eq, run_bind, run_perform hdone]
  unfold placeEntry
  cases htarget : e.target with
  | none =>
    have hfound : found ∪ targets [e] = found := by simp [targets, htarget]
    rw [hfound]
    rfl
  | some f =>
    have hfound : found ∪ targets [e] = insert f found := by
      simp [targets, htarget, Finset.union_singleton]
    simp only [extractTo, run_bind, run_perform hdone, hfound]
    rfl

theorem run_extractEntries (k : ℕ) (found : Finset String) :
    run ((archive.zipIdx k).foldlM (extractEntry host n) found) d =
      (.ok (found ∪ targets archive), archive.foldl (placeEntry n) d) := by
  induction archive generalizing k found d with
  | nil =>
    have hfound : found ∪ targets [] = found := by simp [targets]
    rw [hfound]
    rfl
  | cons e rest ih =>
    have hfound : found ∪ targets [e] ∪ targets rest = found ∪ targets (e :: rest) := by
      ext f
      simp [mem_targets]
    rw [List.zipIdx_cons, List.foldlM_cons, run_bind, run_extractEntry hdone]
    simp only [ih, hfound, List.foldl_cons]

theorem run_extractFiles :
    run (extractFiles host n archive) d =
      (match FILES.find? fun name => name ∉ targets archive with
        | some name => .error (.error ["expected file " ++ name ++ " not found in SDE zip"])
        | none => .ok (), archive.foldl (placeEntry n) d) := by
  unfold extractFiles
  rw [run_bind, run_extractEntries hdone]
  simp only [Finset.empty_union]
  cases FILES.find? fun name => name ∉ targets archive <;> rfl

end Undisturbed

theorem placeEntry_tmp {f : String} {e : ZipEntry} (hf : f ∈ FILES) :
    (placeEntry n s e).file n (f ++ ".tmp") =
      if e.target = some f then none else s.file n (f ++ ".tmp") := by
  unfold placeEntry
  cases htarget : e.target with
  | none => simp
  | some g =>
    have hg := ZipEntry.target_mem htarget
    have hne : f ++ ".tmp" ≠ g := fun he => tmp_notMem_FILES f hf (he ▸ hg)
    dsimp only
    cases hd : s.dir n with
    | none => simp [Disk.file, Disk.renameFile, Disk.writeFile, dir_updateDir, hd]
    | some files =>
      have hwritten : ((s.writeFile n (g ++ ".tmp") []).writeFile n (g ++ ".tmp") e.content).dir n =
          some ((files.insert (g ++ ".tmp") []).insert (g ++ ".tmp") e.content) :=
        dir_writeFile (dir_writeFile hd)
      rw [file_eq_of_dir (dir_renameFile hwritten (AList.lookup_insert _)),
        AList.lookup_insert_ne hne, file_eq_of_dir hd]
      by_cases hfg : g = f
      · subst hfg
        rw [AList.lookup_erase, if_pos rfl]
      · have htmp : f ++ ".tmp" ≠ g ++ ".tmp" := fun he => hfg (by simpa using he.symm)
        rw [AList.lookup_erase_ne htmp, AList.lookup_insert_ne htmp, AList.lookup_insert_ne htmp,
          if_neg (by simpa using hfg)]

/-- A temporary file is gone once its required file is in place. -/
theorem tmp_gone {f : String} (hf : f ∈ FILES) (h : f ∈ targets archive) :
    (archive.foldl (placeEntry n) d).file n (f ++ ".tmp") = none := by
  induction archive using List.reverseRecOn with
  | nil => simp [targets] at h
  | append_singleton front e ih =>
    rw [List.foldl_append, List.foldl_cons, List.foldl_nil, placeEntry_tmp hf]
    by_cases htarget : e.target = some f
    · rw [if_pos htarget]
    · rw [if_neg htarget]
      apply ih
      simpa [mem_targets, or_imp, htarget] using h

theorem contentOf_eq_some {f : String} {content : Bytes} : contentOf archive f = some content ↔
    ∃ e, Last (fun e => e.target = some f) archive e ∧ e.content = content := by
  unfold contentOf
  simp only [Option.map_eq_some_iff, find?_reverse_eq_some_last]

theorem targets_drop {e : ZipEntry} (h : e.target = none) :
    targets (front ++ e :: back) = targets (front ++ back) := by
  unfold targets
  rw [List.filterMap_append, List.filterMap_cons_none h, List.filterMap_append]

theorem foldl_placeEntry_drop {e : ZipEntry} (h : e.target = none) :
    (front ++ e :: back).foldl (placeEntry n) d = (front ++ back).foldl (placeEntry n) d := by
  have hplace : ∀ s, placeEntry n s e = s := fun s => by rw [placeEntry, h]
  rw [List.foldl_append, List.foldl_cons, hplace, List.foldl_append]

/-- An entry that may be extracted to `f`. -/
def Carries (f : String) (e : ZipEntry) : Prop :=
  isUnsafeZipPath e.name = false ∧ fileName e.name = some f

/-- What the extraction of an archive into `n` comes to when nothing fails. -/
structure ExtractsExactly (host : Host) (d : Disk) (n : String) (archive : Archive) : Prop where
  ok_iff : (run (extractFiles host n archive) d).1 = .ok () ↔
    ∀ f ∈ FILES, ∃ e ∈ archive, Carries f e
  files : (run (extractFiles host n archive) d).1 = .ok () → ∀ f ∈ FILES,
    (∃ e, Last (Carries f) archive e ∧
      (run (extractFiles host n archive) d).2.file n f = some e.content) ∧
    (run (extractFiles host n archive) d).2.file n (f ++ ".tmp") = none
  escaping : ∀ front e back, archive = front ++ e :: back → Escapes e.name →
    run (extractFiles host n archive) d = run (extractFiles host n (front ++ back)) d

theorem target_eq_some_iff_carries {f : String} (hf : f ∈ FILES) (e : ZipEntry) :
    e.target = some f ↔ Carries f e := by
  rw [ZipEntry.target_eq_some, Carries]
  exact and_iff_right hf

theorem run_ok_iff (hdone : ∀ site, host.fate site = .done) :
    (run (extractFiles host n archive) d).1 = .ok () ↔ ∀ f ∈ FILES, f ∈ targets archive := by
  rw [run_extractFiles hdone]
  cases hmiss : FILES.find? fun name => name ∉ targets archive with
  | none => simpa using hmiss
  | some f =>
    have hno : f ∉ targets archive := by simpa using List.find?_some hmiss
    constructor
    · intro h
      cases h
    · intro h
      exact absurd (h f (List.mem_of_find?_eq_some hmiss)) hno

theorem extractsExactly (hdone : ∀ site, host.fate site = .done)
    (hdir : (d.dir n).isSome = true) : ExtractsExactly host d n archive := by
  refine ⟨?_, fun hok f hf => ?_, fun front e back he hescapes => ?_⟩
  · rw [run_ok_iff hdone]
    apply forall₂_congr
    intro f hf
    simp only [mem_targets, target_eq_some_iff_carries hf]
  · have hall := (run_ok_iff hdone).mp hok
    have htriple : Triple _ (extractFiles host n archive) _ _ _ :=
      extractFiles_triple (.refl d n) hdir
    have hends := htriple d rfl
    rw [run_extractFiles hdone] at hok hends ⊢
    dsimp only at hok ⊢
    rw [hok] at hends
    obtain ⟨hx, hcomplete⟩ := hends
    obtain ⟨content, hc⟩ := Option.isSome_iff_exists.mp (hcomplete.complete f hf)
    obtain ⟨e, hlast, he⟩ := contentOf_eq_some.mp hc
    refine ⟨⟨e, hlast.congr (target_eq_some_iff_carries hf), ?_⟩, tmp_gone hf (hall f hf)⟩
    rw [hx.files f hf, hc, he, Option.some_or]
  · subst he
    have htarget : e.target = none := if_pos (isUnsafeZipPath_iff.mpr hescapes)
    rw [run_extractFiles hdone, run_extractFiles hdone, targets_drop htarget,
      foldl_placeEntry_drop htarget]

/-- Whatever an archive holds, its extraction stays within the extractable files of
the directory, however far it gets; and when nothing fails, it is exact. -/
theorem extraction_contained_exact (hdone : ∀ site, host.fate site = .done)
    (hdir : (d.dir n).isSome = true) :
    (∀ host' : Host, Contained d n (run (extractFiles host' n archive) d).2) ∧
    (∀ path name, Extractable name →
      pathNames (path ++ "/" ++ name) = pathNames path ++ [name]) ∧
    ExtractsExactly host d n archive := by
  refine ⟨fun host' => ?_, fun path name hname => ?_, extractsExactly hdone hdir⟩
  · exact extractFiles_contained.final (.refl d n)
  · rw [pathNames_slash, hname.pathNames]

/-- The files of one build, an absolute path, a path through the parent, and the
files of another build. -/
def slippingArchive : Archive :=
  twoBuildsArchive 1 ++ ⟨"/etc/types.jsonl", utf8 "pwned"⟩ ::
    ⟨"nested/../../types.jsonl", utf8 "pwned"⟩ :: twoBuildsArchive 2

theorem extraction_contained_exact_slipping :
    ((∀ host' : Host, Contained (twoBuildsDisk 1) "1"
      (run (extractFiles host' "1" slippingArchive) (twoBuildsDisk 1)).2) ∧
    (∀ path name, Extractable name →
      pathNames (path ++ "/" ++ name) = pathNames path ++ [name]) ∧
    ExtractsExactly (twoBuildsHost (fun _ => .done) 2) (twoBuildsDisk 1) "1" slippingArchive) ∧
    (run (extractFiles (twoBuildsHost (fun _ => .done) 2) "1" slippingArchive)
      (twoBuildsDisk 1)).1 = .ok () := by
  constructor
  · exact extraction_contained_exact (fun _ => rfl) (by decide +kernel)
  · decide +kernel

end Palu
