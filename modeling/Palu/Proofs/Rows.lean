import Palu.Model.Parse
import Palu.Tables

namespace Palu

section Lines
variable {ρ α : Type} {decode : String → Except String ρ} {step : α → ρ → α}
  {lines pre post : List String} {line : String} {e : String}

/-- The text of a line: without the blanks around it and a byte-order mark. -/
def rowText (line : String) : String := stripBom (trim line)

/-- A line that is not blank, and that does not decode. -/
def Undecodable (decode : String → Except String ρ) (line e : String) : Prop :=
  (rowText line).isEmpty = false ∧ decode (rowText line) = .error e

def Decodes (decode : String → Except String ρ) (lines : List String) : Prop :=
  ∀ line ∈ lines, ∀ e, ¬ Undecodable decode line e

theorem decodes_of_forall (h : ∀ line ∈ lines, (rowText line).isEmpty = true ∨
    (decode (rowText line)).toBool = true) : Decodes decode lines := by
  intro line hl e hbad
  obtain ⟨hblank, he⟩ := hbad
  rcases h line hl with hempty | hok
  · rw [hblank] at hempty
    cases hempty
  · rw [he] at hok
    cases hok

/-- The row of a line, unless the line is blank. -/
def rowOf (decode : String → Except String ρ) (line : String) : Option ρ :=
  if (rowText line).isEmpty then none else (decode (rowText line)).toOption

def rowsOf (decode : String → Except String ρ) (lines : List String) : List ρ :=
  lines.filterMap (rowOf decode)

/-- A line that decodes adds its row, or nothing when it is blank. -/
theorem forRows_cons (h : ∀ e, ¬ Undecodable decode line e) (i : ℕ) (acc : α)
    (reader : List (Except String String)) :
    forRows decode step i acc (.ok line :: reader) =
      forRows decode step (i + 1) ((rowOf decode line).elim acc (step acc)) reader := by
  have htext : stripBom (trim line) = rowText line := rfl
  rw [forRows, rowOf]
  simp only [htext]
  cases hb : (rowText line).isEmpty with
  | true => rfl
  | false =>
    cases hd : decode (rowText line) with
    | error e => exact absurd ⟨hb, hd⟩ (h e)
    | ok raw => rfl

theorem forRows_undecodable (h : Undecodable decode line e) (i : ℕ) (acc : α)
    (reader : List (Except String String)) :
    forRows decode step i acc (.ok line :: reader) = .error (.json (i + 1) e) := by
  obtain ⟨hb, hd⟩ := h
  unfold rowText at hb hd
  rw [forRows]
  simp [hb, hd]

theorem forRows_append (h : Decodes decode pre) (i : ℕ) (acc : α)
    (reader : List (Except String String)) :
    forRows decode step i acc (pre.map .ok ++ reader) =
      forRows decode step (i + pre.length) ((rowsOf decode pre).foldl step acc) reader := by
  induction pre generalizing i acc with
  | nil => rfl
  | cons line pre ih =>
    obtain ⟨hline, hpre⟩ := List.forall_mem_cons.mp h
    rw [List.map_cons, List.cons_append, forRows_cons hline, ih hpre, List.length_cons,
      Nat.add_right_comm, Nat.add_assoc, rowsOf, rowsOf]
    cases hr : rowOf decode line with
    | none => rw [List.filterMap_cons_none hr, Option.elim_none]
    | some raw => rw [List.filterMap_cons_some hr, Option.elim_some, List.foldl_cons]

/-- A file whose lines all decode is the fold over its rows. -/
theorem forRows_ok (h : Decodes decode lines) (i : ℕ) (acc : α) :
    forRows decode step i acc (lines.map .ok) = .ok ((rowsOf decode lines).foldl step acc) := by
  have happend := @forRows_append _ _ decode step lines h i acc []
  rwa [List.append_nil] at happend

/-- The first line that does not decode is reported by its number. -/
theorem forRows_first {n : ℕ} (hn : lines[n]? = some line) (hline : Undecodable decode line e)
    (hfirst : ∀ j < n, ∀ l, lines[j]? = some l → ∀ e, ¬ Undecodable decode l e) (i : ℕ) (acc : α) :
    forRows decode step i acc (lines.map .ok) = .error (.json (i + n + 1) e) := by
  obtain ⟨hlt, rfl⟩ := List.getElem?_eq_some_iff.mp hn
  have hpre : Decodes decode (lines.take n) := by
    intro l hl
    obtain ⟨j, hj, rfl⟩ := List.mem_iff_getElem.mp hl
    rw [List.length_take] at hj
    have hjn := lt_of_lt_of_le hj (min_le_left _ _)
    exact hfirst j hjn _ (by simp [hjn.trans hlt])
  have hsplit : lines = lines.take n ++ lines[n] :: lines.drop (n + 1) := by simp
  rw [hsplit, List.map_append, forRows_append hpre, List.map_cons, forRows_undecodable hline,
    List.length_take, min_eq_left hlt.le]

/-- What parses has only lines that can be read and that decode. -/
theorem lines_of_forRows {reader : List (Except String String)} {i : ℕ} {acc a : α}
    (h : forRows decode step i acc reader = .ok a) : ∃ lines, reader = lines.map .ok ∧
      Decodes decode lines ∧ a = (rowsOf decode lines).foldl step acc := by
  induction reader generalizing i acc with
  | nil => exact ⟨[], rfl, by simp [Decodes], (Except.ok.inj h).symm⟩
  | cons first reader ih =>
    cases first with
    | error e => cases h
    | ok line =>
      have hline : ∀ e, ¬ Undecodable decode line e := by
        intro e he
        rw [forRows_undecodable he] at h
        cases h
      rw [forRows_cons hline] at h
      obtain ⟨lines, rfl, hlines, rfl⟩ := ih h
      refine ⟨line :: lines, rfl, List.forall_mem_cons.mpr ⟨hline, hlines⟩, ?_⟩
      rw [rowsOf, rowsOf]
      cases hr : rowOf decode line with
      | none => rw [List.filterMap_cons_none hr, Option.elim_none]
      | some raw => rw [List.filterMap_cons_some hr, Option.elim_some, List.foldl_cons]

end Lines

theorem foldl_systems (raws : List RawSystem) (systems : List System) :
    raws.foldl (fun systems raw => systems ++ [systemFromRaw raw]) systems =
      systems ++ raws.map systemFromRaw := by
  induction raws generalizing systems with
  | nil => simp
  | cons raw raws ih => simp [ih]

end Palu
