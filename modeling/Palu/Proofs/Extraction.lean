import Palu.Model.Cache

namespace Palu

open Effects

variable {d d₀ s : Disk} {n m : String} {host : Host} {front archive : Archive}

section Names

theorem parseU64_buildDirName (b : UInt64) : parseU64 (buildDirName b) = some b := by
  have hlist : (buildDirName b).toList = Nat.toDigits 10 b.toNat := Nat.toList_repr
  have hdigit : ∀ c ∈ Nat.toDigits 10 b.toNat, c.isDigit = true :=
    fun c hc => Nat.isDigit_of_mem_toDigits (by decide) le_rfl hc
  have hvalue : Nat.ofDigitChars 10 (Nat.toDigits 10 b.toNat) 0 = b.toNat :=
    Nat.ofDigitChars_ten_toDigits
  unfold parseU64
  rw [hlist]
  cases hd : Nat.toDigits 10 b.toNat with
  | nil => exact absurd hd Nat.toDigits_ne_nil
  | cons c rest =>
    rw [hd] at hdigit hvalue
    have hplus : c ≠ '+' := by
      rintro rfl
      exact absurd (hdigit '+' (by simp)) (by decide)
    have hall : (c :: rest).all Char.isDigit = true := List.all_eq_true.mpr hdigit
    simp [hplus, hall, hvalue, b.toNat_lt_size]

theorem buildDirName_injective : Function.Injective buildDirName := by
  intro a b h
  have := congrArg parseU64 h
  rw [parseU64_buildDirName, parseU64_buildDirName] at this
  exact Option.some.inj this

/-- A temporary file is never a required one. -/
theorem tmp_notMem_FILES : ∀ f ∈ FILES, f ++ ".tmp" ∉ FILES := by
  decide

end Names

section Disk

theorem dir_updateDir (d : Disk) (n m : String) (f : Dir → Dir) :
    (d.updateDir n f).dir m = if m = n then (d.dir n).map f else d.dir m := by
  unfold Disk.updateDir Disk.dir
  by_cases hm : m = n
  · subst hm
    rw [if_pos rfl]
    cases hn : d.dirs.lookup m with
    | none => exact hn
    | some files => exact AList.lookup_insert _
  · rw [if_neg hm]
    cases d.dirs.lookup n with
    | none => rfl
    | some files => exact AList.lookup_insert_ne hm

@[simp] theorem metadata_updateDir (d : Disk) (n : String) (f : Dir → Dir) :
    (d.updateDir n f).metadata = d.metadata := by
  unfold Disk.updateDir
  split <;> rfl

theorem dir_createDir (d : Disk) (n m : String) :
    (d.createDir n).dir m = if m = n then some ∅ else d.dir m := by
  unfold Disk.createDir Disk.dir
  split
  · rename_i h
    rw [h]
    exact AList.lookup_insert _
  · rename_i h
    exact AList.lookup_insert_ne h

theorem dir_removeDir (d : Disk) (n m : String) :
    (d.removeDir n).dir m = if m = n then none else d.dir m := by
  unfold Disk.removeDir Disk.dir
  split
  · rename_i h
    rw [h]
    exact AList.lookup_erase _ _
  · rename_i h
    exact AList.lookup_erase_ne h

theorem file_eq_of_dir {name : String} {files : Dir} (h : d.dir n = some files) :
    d.file n name = files.lookup name := by
  rw [Disk.file, h]
  rfl

end Disk

section Entries

/-- The required file that an entry is extracted to. -/
def ZipEntry.target (e : ZipEntry) : Option String :=
  if isUnsafeZipPath e.name then none else (fileName e.name).filter fun f => f ∈ FILES

/-- What an archive holds for a required file: its last entry counts. -/
def contentOf (archive : Archive) (f : String) : Option Bytes :=
  (archive.reverse.find? fun e => e.target = some f).map ZipEntry.content

theorem ZipEntry.target_eq_some {e : ZipEntry} {f : String} : e.target = some f ↔
    f ∈ FILES ∧ isUnsafeZipPath e.name = false ∧ fileName e.name = some f := by
  unfold ZipEntry.target
  cases isUnsafeZipPath e.name <;> simp [Option.filter_eq_some_iff, and_comm]

theorem ZipEntry.target_mem {e : ZipEntry} {f : String} (h : e.target = some f) : f ∈ FILES :=
  (ZipEntry.target_eq_some.mp h).1

theorem contentOf_concat (archive : Archive) (e : ZipEntry) (f : String) :
    contentOf (archive ++ [e]) f =
      if e.target = some f then some e.content else contentOf archive f := by
  unfold contentOf
  rw [List.reverse_append, List.reverse_singleton, List.singleton_append, List.find?_cons]
  split <;> simp_all

theorem exists_entry {f : String} {content : Bytes} (h : contentOf archive f = some content) :
    ∃ e ∈ archive, e.target = some f ∧ e.content = content := by
  obtain ⟨e, he, hc⟩ := Option.map_eq_some_iff.mp h
  have hm := List.mem_reverse.mp (List.mem_of_find?_eq_some he)
  exact ⟨e, hm, by simpa using List.find?_some he, hc⟩

/-- The entries of `front` have been extracted over the directory `n` of `d₀`. A
required file is as the last of its entries has it, or as it was, and all else
but temporary files is as it was. -/
structure Extracting (d₀ : Disk) (n : String) (front : Archive) (s : Disk) : Prop where
  metadata : s.metadata = d₀.metadata
  others : ∀ m, m ≠ n → s.dir m = d₀.dir m
  files : ∀ f ∈ FILES, s.file n f = (contentOf front f).or (d₀.file n f)

theorem Extracting.refl (d₀ : Disk) (n : String) : Extracting d₀ n [] d₀ :=
  ⟨rfl, fun _ _ => rfl, fun _ _ => rfl⟩

/-- A new directory has none of the required files, like a missing one. -/
theorem Extracting.created (h : d₀.dir n = none) : Extracting d₀ n [] (d₀.createDir n) := by
  refine ⟨rfl, fun m hm => ?_, fun f _ => ?_⟩
  · rw [dir_createDir, if_neg hm]
  · simp [Disk.file, dir_createDir, h, contentOf]

theorem dir_writeFile {files : Dir} {name : String} {content : Bytes} (h : s.dir n = some files) :
    (s.writeFile n name content).dir n = some (files.insert name content) := by
  rw [Disk.writeFile, dir_updateDir, if_pos rfl, h]
  rfl

/-- Writing a file that is not required changes nothing that counts. -/
theorem Extracting.writeFile {name : String} (h : Extracting d₀ n front s) (ht : name ∉ FILES)
    (content : Bytes) : Extracting d₀ n front (s.writeFile n name content) := by
  refine ⟨?_, fun m hm => ?_, fun f hf => ?_⟩
  · rw [Disk.writeFile, metadata_updateDir, h.metadata]
  · rw [Disk.writeFile, dir_updateDir, if_neg hm, h.others m hm]
  · rw [← h.files f hf]
    have hne : f ≠ name := fun he => ht (he ▸ hf)
    cases hd : s.dir n with
    | none => rw [Disk.file, Disk.file, Disk.writeFile, dir_updateDir, if_pos rfl, hd]; rfl
    | some files =>
      rw [file_eq_of_dir (dir_writeFile hd), file_eq_of_dir hd, AList.lookup_insert_ne hne]

theorem dir_renameFile {files : Dir} {src dst : String} {content : Bytes}
    (h : s.dir n = some files) (hc : files.lookup src = some content) :
    (s.renameFile n src dst).dir n = some ((files.erase src).insert dst content) := by
  rw [Disk.renameFile, dir_updateDir, if_pos rfl, h]
  simp [hc]

/-- The rename puts the whole entry in place at once. -/
theorem Extracting.renameFile {e : ZipEntry} {f tmp : String} {files : Dir}
    (h : Extracting d₀ n front s) (he : e.target = some f) (ht : tmp ∉ FILES)
    (hd : s.dir n = some files) (hc : files.lookup tmp = some e.content) :
    Extracting d₀ n (front ++ [e]) (s.renameFile n tmp f) := by
  refine ⟨?_, fun m hm => ?_, fun g hg => ?_⟩
  · rw [Disk.renameFile, metadata_updateDir, h.metadata]
  · rw [Disk.renameFile, dir_updateDir, if_neg hm, h.others m hm]
  · rw [file_eq_of_dir (dir_renameFile hd hc), contentOf_concat, he]
    by_cases hgf : f = g
    · subst hgf
      simp
    · have hne : g ≠ tmp := fun hgt => ht (hgt ▸ hg)
      rw [AList.lookup_insert_ne (Ne.symm hgf), AList.lookup_erase_ne hne,
        if_neg (by simpa using hgf), ← h.files g hg, file_eq_of_dir hd]

/-- An entry that is not extracted leaves the required files alone. -/
theorem Extracting.skip {e : ZipEntry} (h : Extracting d₀ n front s) (he : e.target = none) :
    Extracting d₀ n (front ++ [e]) s := by
  refine ⟨h.metadata, h.others, fun f hf => ?_⟩
  rw [contentOf_concat, he, if_neg (by simp), h.files f hf]

end Entries

end Palu
