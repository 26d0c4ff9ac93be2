import Palu.Model.Cache
import Palu.Proofs.CrashSafety
import Palu.Proofs.Rows

namespace Palu

open Collections

section Cutting
variable {α β : Type} [DecidableEq α] [DecidableEq β] {newline ret : α} {newline' ret' : β}
  {enc : α → List β}

/-- A line read backwards, without a carriage return at its end. -/
def chop (ret : α) : List α → List α
  | [] => []
  | c :: rest => if c = ret then rest.reverse else (c :: rest).reverse

theorem cutLines_end {line : List α} (h : line ≠ []) :
    cutLines newline ret line [] = [line.reverse] := by
  cases line with
  | nil => exact absurd rfl h
  | cons c line => rfl

theorem cutLines_cons (c : α) (line text : List α) : cutLines newline ret line (c :: text) =
    if c = newline then chop ret line :: cutLines newline ret [] text
    else cutLines newline ret (c :: line) text := by
  cases line <;> rfl

theorem cutLines_newline (line text : List α) :
    cutLines newline ret line (newline :: text) = chop ret line :: cutLines newline ret [] text := by
  rw [cutLines_cons, if_pos rfl]

theorem cutLines_append {seg : List α} (h : newline ∉ seg) (line text : List α) :
    cutLines newline ret line (seg ++ text) = cutLines newline ret (seg.reverse ++ line) text := by
  induction seg generalizing line with
  | nil => rfl
  | cons c seg ih =>
    obtain ⟨hc, hseg⟩ := not_or.mp (List.mem_cons.not.mp h)
    rw [List.cons_append, cutLines_cons, if_neg (Ne.symm hc), ih hseg, List.reverse_cons,
      List.append_assoc]
    rfl

/-- An encoding of characters in which no newline and no carriage return shows up
inside the code of another character. -/
structure Transparent (enc : α → List β) (newline ret : α) (newline' ret' : β) : Prop where
  newline_eq : enc newline = [newline']
  ret_eq : enc ret = [ret']
  solid : ∀ c, enc c ≠ []
  no_newline : ∀ c, c ≠ newline → newline' ∉ enc c
  no_ret : ∀ c, c ≠ ret → ret' ∉ enc c

theorem Transparent.chop (h : Transparent enc newline ret newline' ret') (line : List α) :
    chop ret' (line.reverse.flatMap enc).reverse = (chop ret line).flatMap enc := by
  cases line with
  | nil => rfl
  | cons c line =>
    have hsnoc : ((c :: line).reverse.flatMap enc).reverse =
        (enc c).reverse ++ (line.reverse.flatMap enc).reverse := by simp
    rw [hsnoc]
    by_cases hc : c = ret
    · subst hc
      rw [h.ret_eq, Palu.chop, if_pos rfl]
      simp [Palu.chop]
    · rw [Palu.chop, if_neg hc]
      cases he : (enc c).reverse with
      | nil => exact absurd (List.reverse_eq_nil_iff.mp he) (h.solid c)
      | cons b bs =>
        have hb : b ≠ ret' := by
          rintro rfl
          exact h.no_ret c hc (List.mem_reverse.mp (he ▸ List.mem_cons_self))
        rw [List.cons_append, Palu.chop, if_neg hb, ← List.cons_append, ← he]
        simp

/-- Cutting the code of a text is coding each of its lines. -/
theorem Transparent.cutLines (h : Transparent enc newline ret newline' ret') (line text : List α) :
    cutLines newline' ret' (line.reverse.flatMap enc).reverse (text.flatMap enc) =
      (cutLines newline ret line text).map (·.flatMap enc) := by
  induction text generalizing line with
  | nil =>
    cases line with
    | nil => rfl
    | cons c line =>
      have hne : ((c :: line).reverse.flatMap enc).reverse ≠ [] := by
        simpa using fun hnil => absurd hnil (h.solid c)
      rw [List.flatMap_nil, cutLines_end hne, cutLines_end (List.cons_ne_nil c line)]
      simp
  | cons c text ih =>
    rw [List.flatMap_cons]
    by_cases hc : c = newline
    · subst hc
      rw [h.newline_eq, List.singleton_append, cutLines_newline, cutLines_newline, h.chop,
        List.map_cons]
      exact congrArg _ (ih [])
    · rw [cutLines_append (h.no_newline c hc), cutLines_cons, if_neg hc, ← ih (c :: line)]
      simp

end Cutting

section Encoding

/-- An ASCII byte only shows up as the code of its own character. -/
theorem ascii_of_mem {c : Char} {b : UInt8} (h : b ∈ String.utf8EncodeChar c) (hb : b.toNat < 128) :
    c.toNat = b.toNat := by
  change c.val.toNat = b.toNat
  unfold String.utf8EncodeChar at h
  dsimp only at h
  split at h
  · obtain rfl := List.mem_singleton.mp h
    rw [UInt8.toNat_ofNat']
    omega
  · exfalso
    split at h
    · simp only [List.mem_cons, List.not_mem_nil, or_false] at h
      rcases h with rfl | rfl <;> rw [UInt8.toNat_ofNat'] at hb <;> omega
    · split at h
      · simp only [List.mem_cons, List.not_mem_nil, or_false] at h
        rcases h with rfl | rfl | rfl <;> rw [UInt8.toNat_ofNat'] at hb <;> omega
      · simp only [List.mem_cons, List.not_mem_nil, or_false] at h
        rcases h with rfl | rfl | rfl | rfl <;> rw [UInt8.toNat_ofNat'] at hb <;> omega

theorem utf8_transparent : Transparent String.utf8EncodeChar '\n' '\r' 10 13 where
  newline_eq := by decide
  ret_eq := by decide
  solid c := by
    apply List.ne_nil_of_length_pos
    rw [String.length_utf8EncodeChar]
    exact c.utf8Size_pos
  no_newline c hc hmem := hc (Char.toNat_inj.mp (ascii_of_mem hmem (by decide)))
  no_ret c hc hmem := hc (Char.toNat_inj.mp (ascii_of_mem hmem (by decide)))

theorem utf8_eq (s : String) : utf8 s = s.toList.flatMap String.utf8EncodeChar := by
  change s.toByteArray.data.toList = _
  rw [← String.utf8Encode_toList, List.utf8Encode]
  simp

theorem fromUTF8_utf8 (s : String) : String.fromUTF8? (utf8 s).toByteArray = some s := by
  have hbytes : (utf8 s).toByteArray = s.toByteArray := by
    apply ByteArray.ext
    rw [List.data_toByteArray]
    rfl
  rw [hbytes, String.fromUTF8?, dif_pos s.isValidUTF8]
  rfl

/-- `BufRead::lines` over the bytes of a text reads the lines of the text. -/
theorem readLines_utf8 (s : String) : readLines (utf8 s) = (textLines s).map .ok := by
  have hcut := utf8_transparent.cutLines [] s.toList
  have hline : ∀ cs : List Char, String.fromUTF8? (cs.flatMap String.utf8EncodeChar).toByteArray =
      some (.ofList cs) := by
    intro cs
    have hcs := utf8_eq (.ofList cs)
    rw [String.toList_ofList] at hcs
    rw [← hcs, fromUTF8_utf8]
  rw [readLines, utf8_eq, textLines]
  change (cutLines 10 13 [] _).map _ = _
  rw [show ([] : Bytes) = (([] : List Char).reverse.flatMap String.utf8EncodeChar).reverse from rfl,
    hcut, List.map_map, List.map_map]
  apply List.map_congr_left
  intro cs _
  simp [hline]

end Encoding

section Lines

/-- White space within a line. -/
structure Blanks where
  chars : List Char
  blank : ∀ c ∈ chars, isWhitespace c = true
  oneLine : '\n' ∉ chars

/-- A text that is a row's as it stands. -/
structure Row where
  text : String
  solid : text ≠ ""
  oneLine : '\n' ∉ text.toList
  first : ∀ c ∈ text.toList.head?, isWhitespace c = false ∧ c.val ≠ 0xFEFF
  last : ∀ c ∈ text.toList.getLast?, isWhitespace c = false

/-- A line of a file: a row or nothing, after a byte-order mark or none, between
blanks. -/
structure Line where
  before : Blanks
  mark : Bool
  row : Option Row
  after : Blanks

/-- The text of a line that its row's decoder gets. -/
def Line.text (l : Line) : String := l.row.elim "" Row.text

def Line.marked (l : Line) : List Char := (if l.mark then ['\uFEFF'] else []) ++ l.text.toList

def Line.chars (l : Line) : List Char := l.before.chars ++ l.marked ++ l.after.chars

theorem dropWhile_of_head {α : Type} {p : α → Bool} {xs : List α}
    (h : ∀ x ∈ xs.head?, p x = false) : xs.dropWhile p = xs := by
  cases xs with
  | nil => rfl
  | cons x xs => exact List.dropWhile_cons_of_neg (by simp [h x rfl])

theorem trim_append {xs post : List Char} (hpost : ∀ c ∈ post, isWhitespace c = true) :
    trim (.ofList (xs ++ post)) = trim (.ofList xs) := by
  have hback : ∀ c ∈ post.reverse, isWhitespace c = true :=
    fun c hc => hpost c (List.mem_reverse.mp hc)
  rw [trim, trim, String.toList_ofList, String.toList_ofList, List.dropWhile_append]
  split
  · rename_i hnil
    rw [List.isEmpty_iff.mp hnil, List.dropWhile_eq_nil_iff.mpr hpost]
  · rw [List.rdropWhile, List.reverse_append, List.dropWhile_append_of_pos hback]
    rfl

/-- Blanks around a text without any at its ends are all that is trimmed. -/
theorem trim_blanks {pre mid post : List Char} (hpre : ∀ c ∈ pre, isWhitespace c = true)
    (hpost : ∀ c ∈ post, isWhitespace c = true) (hfirst : ∀ c ∈ mid.head?, isWhitespace c = false)
    (hlast : ∀ c ∈ mid.getLast?, isWhitespace c = false) :
    trim (.ofList (pre ++ mid ++ post)) = .ofList mid := by
  have hend : mid.rdropWhile isWhitespace = mid := by
    rw [List.rdropWhile, dropWhile_of_head (by simpa using hlast), List.reverse_reverse]
  rw [trim_append hpost, trim, String.toList_ofList, List.dropWhile_append_of_pos hpre,
    dropWhile_of_head hfirst, hend]

/-- What is cut off a line with its newline is no part of its text. -/
theorem rowText_chop (line : List Char) :
    rowText (.ofList (chop '\r' line)) = rowText (.ofList line.reverse) := by
  cases line with
  | nil => rfl
  | cons c line =>
    rw [chop]
    split
    · rename_i hc
      subst hc
      rw [rowText, rowText, List.reverse_cons, trim_append (List.forall_mem_singleton.mpr (by decide))]
    · rfl

theorem Line.text_first (l : Line) :
    ∀ c ∈ l.text.toList.head?, isWhitespace c = false ∧ c.val ≠ 0xFEFF := by
  unfold Line.text
  cases l.row with
  | none => simp
  | some r => exact r.first

theorem Line.text_last (l : Line) : ∀ c ∈ l.text.toList.getLast?, isWhitespace c = false := by
  unfold Line.text
  cases l.row with
  | none => simp
  | some r => exact r.last

theorem Line.trim_chars (l : Line) : trim (.ofList l.chars) = .ofList l.marked := by
  apply trim_blanks l.before.blank l.after.blank
  · unfold Line.marked
    cases l.mark with
    | false => exact fun c hc => (l.text_first c hc).1
    | true =>
      rintro c ⟨⟩
      decide
  · unfold Line.marked
    cases l.mark with
    | false => exact l.text_last
    | true =>
      intro c hc
      rw [if_pos rfl, List.getLast?_append] at hc
      cases hl : l.text.toList.getLast? with
      | some d =>
        rw [hl] at hc
        exact l.text_last c (hl ▸ hc)
      | none =>
        rw [hl] at hc
        cases hc
        decide

theorem Line.stripBom_marked (l : Line) : stripBom (.ofList l.marked) = l.text := by
  have hmarked : stripBom (.ofList ('\uFEFF' :: l.text.toList)) = l.text := by
    rw [stripBom, String.toList_ofList]
    exact String.ofList_toList
  have hbare : stripBom l.text = l.text := by
    have hfirst := l.text_first
    unfold stripBom
    cases hl : l.text.toList with
    | nil => rfl
    | cons c rest =>
      rw [hl] at hfirst
      exact if_neg (hfirst c rfl).2
  unfold Line.marked
  cases l.mark with
  | true => exact hmarked
  | false =>
    rw [if_neg Bool.false_ne_true, List.nil_append, String.ofList_toList]
    exact hbare

theorem Line.rowText_chars (l : Line) : rowText (.ofList l.chars) = l.text := by
  rw [rowText, l.trim_chars, l.stripBom_marked]

end Lines

section Layouts

/-- A file: lines that end in a newline, some of them with a carriage return in
front of it, and one more that ends with the file. -/
structure Layout where
  lines : List (Line × Bool)
  last : Line

def Line.ended (l : Line × Bool) : List Char :=
  l.1.chars ++ (if l.2 then ['\r', '\n'] else ['\n'])

def Layout.chars (f : Layout) : List Char := f.lines.flatMap Line.ended ++ f.last.chars

def Layout.bytes (f : Layout) : Bytes := utf8 (.ofList f.chars)

/-- The rows of a file, each with the number of its line. -/
def Layout.numbered (f : Layout) : List (ℕ × String) :=
  ((f.lines.map Prod.fst ++ [f.last]).zipIdx 1).filterMap fun l =>
    l.1.row.map fun r => (l.2, r.text)

def Layout.rows (f : Layout) : List String :=
  (f.lines.map Prod.fst ++ [f.last]).filterMap fun l => l.row.map Row.text

/-- The rows of lines that were read, each with the number of its line. -/
def numberedRows (i : ℕ) (lines : List String) : List (ℕ × String) :=
  (lines.zipIdx i).filterMap fun l =>
    if (rowText l.1).isEmpty then none else some (l.2, rowText l.1)

theorem numberedRows_blank {line : String} (h : (rowText line).isEmpty = true) (i : ℕ)
    (lines : List String) : numberedRows i (line :: lines) = numberedRows (i + 1) lines := by
  rw [numberedRows, List.zipIdx_cons]
  exact List.filterMap_cons_none (if_pos h)

theorem numberedRows_row {line : String} (h : (rowText line).isEmpty = false) (i : ℕ)
    (lines : List String) :
    numberedRows i (line :: lines) = (i, rowText line) :: numberedRows (i + 1) lines := by
  rw [numberedRows, List.zipIdx_cons]
  exact List.filterMap_cons_some (if_neg (Bool.eq_false_iff.mp h))

theorem Line.one_line (l : Line) : '\n' ∉ l.chars := by
  have hmark : '\n' ∉ (if l.mark then ['\uFEFF'] else []) := by
    split <;> decide
  have htext : '\n' ∉ l.text.toList := by
    unfold Line.text
    cases l.row with
    | none => simp
    | some r => exact r.oneLine
  simp only [Line.chars, Line.marked, List.mem_append, not_or]
  exact ⟨⟨l.before.oneLine, hmark, htext⟩, l.after.oneLine⟩

/-- The texts of the lines of a file are those laid out. -/
theorem texts_read (lines : List (Line × Bool)) (rest : List Char) :
    (cutLines '\n' '\r' [] (lines.flatMap Line.ended ++ rest)).map (fun cs => rowText (.ofList cs)) =
      (lines.map fun l => l.1.text) ++
        (cutLines '\n' '\r' [] rest).map (fun cs => rowText (.ofList cs)) := by
  induction lines with
  | nil => rfl
  | cons l lines ih =>
    obtain ⟨ret, hret, hended⟩ : ∃ ret, (∀ c ∈ ret, c = '\r') ∧
        Line.ended l = l.1.chars ++ ret ++ ['\n'] := by
      unfold Line.ended
      cases l.2 with
      | false => exact ⟨[], by simp, by simp⟩
      | true => exact ⟨['\r'], by simp, by simp⟩
    have hline : '\n' ∉ l.1.chars ++ ret := by
      intro hmem
      rcases List.mem_append.mp hmem with hmem | hmem
      · exact l.1.one_line hmem
      · exact absurd (hret _ hmem) (by decide)
    have hblank : ∀ c ∈ ret, isWhitespace c = true := by
      intro c hc
      rw [hret c hc]
      decide
    rw [List.flatMap_cons, hended, List.append_assoc, List.append_assoc, cutLines_append hline,
      List.singleton_append, cutLines_newline, List.map_cons, rowText_chop, ih, List.append_nil,
      List.reverse_reverse, rowText, trim_append hblank, ← rowText, l.1.rowText_chars,
      List.map_cons, List.cons_append]

theorem numberedRows_eq {lines : List String} {ls : List Line} (i : ℕ)
    (h : lines.map rowText = ls.map Line.text) :
    numberedRows i lines = (ls.zipIdx i).filterMap fun l => l.1.row.map fun r => (l.2, r.text) := by
  induction ls generalizing i lines with
  | nil =>
    rw [List.map_nil, List.map_eq_nil_iff] at h
    subst h
    rfl
  | cons l ls ih =>
    obtain ⟨line, lines, rfl, hline, hlines⟩ := List.map_eq_cons_iff.mp h
    rw [List.zipIdx_cons]
    cases hr : l.row with
    | none =>
      rw [Line.text, hr] at hline
      rw [numberedRows_blank (by rw [hline]; rfl), ih (i + 1) hlines,
        List.filterMap_cons_none (by rw [hr]; rfl)]
    | some r =>
      rw [Line.text, hr] at hline
      have hsolid : (rowText line).isEmpty = false := by
        rw [hline]
        simpa using r.solid
      rw [numberedRows_row hsolid, ih (i + 1) hlines, hline,
        List.filterMap_cons_some (by rw [hr]; rfl)]
      rfl

/-- An empty last line has no row. -/
theorem Line.row_none {l : Line} (h : l.chars = []) : l.row = none := by
  cases hr : l.row with
  | none => rfl
  | some r =>
    have htext : r.text = "" := by
      simp only [Line.chars, Line.marked, Line.text, hr, List.append_eq_nil_iff] at h
      exact String.toList_eq_nil_iff.mp h.1.2.2
    exact absurd htext r.solid

theorem Layout.rows_read (f : Layout) :
    numberedRows 1 (textLines (.ofList f.chars)) = f.numbered := by
  have htexts : (textLines (.ofList f.chars)).map rowText = f.lines.map (fun l => l.1.text) ++
      (cutLines '\n' '\r' [] f.last.chars).map (fun cs => rowText (.ofList cs)) := by
    rw [← texts_read, textLines, String.toList_ofList, List.map_map, Layout.chars]
    rfl
  have hlast : cutLines '\n' '\r' [] f.last.chars =
      if f.last.chars = [] then [] else [f.last.chars] := by
    have hcut : cutLines '\n' '\r' [] f.last.chars =
        cutLines '\n' '\r' f.last.chars.reverse [] := by
      have happend := @cutLines_append _ _ '\n' '\r' f.last.chars f.last.one_line [] []
      rwa [List.append_nil, List.append_nil] at happend
    split
    · rename_i hnil
      rw [hnil]
      rfl
    · rename_i hne
      rw [hcut, cutLines_end (by simpa using hne), List.reverse_reverse]
  rw [hlast] at htexts
  by_cases hnil : f.last.chars = []
  · rw [if_pos hnil, List.map_nil, List.append_nil] at htexts
    rw [Layout.numbered, List.zipIdx_append, List.filterMap_append,
      numberedRows_eq 1 (htexts.trans (List.map_map (g := Line.text) (f := Prod.fst)).symm)]
    simp [Line.row_none hnil]
  · rw [if_neg hnil] at htexts
    rw [Layout.numbered]
    apply numberedRows_eq
    rw [htexts]
    simp [f.last.rowText_chars]

end Layouts

section Decoding
variable {ρ α : Type} {decode : String → Except String ρ} {step : α → ρ → α}

/-- The rows decoded one after another. One that does not decode is reported by the
number of its line. -/
def decodeRows (decode : String → Except String ρ) (rows : List (ℕ × String)) :
    Except ParseError (List ρ) :=
  rows.mapM fun r => (decode r.2).mapError (ParseError.json r.1)

theorem decodeRows_cons (r : ℕ × String) (rows : List (ℕ × String)) :
    decodeRows decode (r :: rows) = (do
      let raw ← (decode r.2).mapError (ParseError.json r.1)
      let raws ← decodeRows decode rows
      pure (raw :: raws)) :=
  List.mapM_cons

/-- The loop over the lines is a fold over the rows that they hold. -/
theorem forRows_eq (lines : List String) (i : ℕ) (acc : α) :
    forRows decode step i acc (lines.map .ok) =
      (decodeRows decode (numberedRows (i + 1) lines)).map (·.foldl step acc) := by
  induction lines generalizing i acc with
  | nil => rfl
  | cons line lines ih =>
    have htext : stripBom (trim line) = rowText line := rfl
    rw [List.map_cons, forRows]
    simp only [htext]
    cases hb : (rowText line).isEmpty with
    | true =>
      rw [numberedRows_blank hb]
      exact ih (i + 1) acc
    | false =>
      rw [numberedRows_row hb, decodeRows_cons]
      cases hd : decode (rowText line) with
      | error e => rfl
      | ok raw =>
        dsimp only [Except.mapError]
        rw [if_neg Bool.false_ne_true, ih]
        cases decodeRows decode (numberedRows (i + 1 + 1) lines) <;> rfl

theorem decodeRows_ok {rows : List (ℕ × String)} {raws : List ρ} :
    decodeRows decode rows = .ok raws ↔
      List.Forall₂ (fun text raw => decode text = .ok raw) (rows.map Prod.snd) raws := by
  rw [decodeRows, mapM_ok, List.forall₂_map_left_iff]
  apply iff_of_eq
  congr 1
  funext r raw
  cases decode r.2 <;> simp [Except.mapError]

/-- The numbers of the lines make a difference to errors only. -/
theorem decodeRows_same {rows rows' : List (ℕ × String)} {raws : List ρ} {why : ParseError → Trace}
    (hrows : rows.map Prod.snd = rows'.map Prod.snd)
    (h : (decodeRows decode rows).mapError why = .ok raws) :
    (decodeRows decode rows').mapError why = .ok raws := by
  cases hd : decodeRows decode rows with
  | error e =>
    rw [hd] at h
    cases h
  | ok raws' =>
    rw [hd] at h
    cases h
    rw [decodeRows_ok, hrows, ← decodeRows_ok] at hd
    rw [hd]
    rfl

/-- A parser reads the rows of a file, whatever its layout. -/
theorem Layout.forRows (f : Layout) (acc : α) :
    Palu.forRows decode step 0 acc (readLines f.bytes) =
      (decodeRows decode f.numbered).map (·.foldl step acc) := by
  rw [Layout.bytes, readLines_utf8, forRows_eq, f.rows_read]

end Decoding

section Loading

/-- What the rows of the four files mean. -/
def loadRows (dec : RowDecoder) (rows : String → List (ℕ × String)) : Except Trace RawSdeData := do
  let systems ← (decodeRows dec.system (rows "mapSolarSystems.jsonl")).mapError fun e =>
    ["parsing mapSolarSystems.jsonl", e.message]
  let stargates ← (decodeRows dec.stargate (rows "mapStargates.jsonl")).mapError fun e =>
    ["parsing mapStargates.jsonl", e.message]
  let types ← (decodeRows dec.type (rows "types.jsonl")).mapError fun e =>
    ["parsing types.jsonl/typeDogma.jsonl", e.message]
  let dogma ← (decodeRows dec.typeDogma (rows "typeDogma.jsonl")).mapError fun e =>
    ["parsing types.jsonl/typeDogma.jsonl", e.message]
  pure {
    systems := systems.map systemFromRaw
    gatePairs := (stargates.foldl GatePass.addRow {}).pairs
    hulls := dogma.foldl (addDogma (types.foldl addType fun _ => none)) {} }

variable {dec : RowDecoder} {files : String → Option Bytes} {layout : String → Layout}

theorem parseFile_laidOut {α : Type} {name : String} {f : Layout} (h : files name = some f.bytes)
    (parse : List (Except String String) → Except ParseError α) :
    parseFile files name parse =
      (parse (readLines f.bytes)).mapError fun e => ["parsing " ++ name, e.message] := by
  rw [parseFile, openFile, h]
  rfl

/-- Loading the files of a directory is decoding their rows, however they are laid
out. -/
theorem loadFiles_laidOut (h : ∀ f ∈ FILES, files f = some (layout f).bytes) :
    loadFiles dec files = loadRows dec fun f => (layout f).numbered := by
  have hsystems := h "mapSolarSystems.jsonl" (by decide)
  have hgates := h "mapStargates.jsonl" (by decide)
  have htypes := h "types.jsonl" (by decide)
  have hdogma := h "typeDogma.jsonl" (by decide)
  rw [loadFiles, loadRows, parseFile_laidOut hsystems, parseFile_laidOut hgates, loadHullCatalog,
    openFile, openFile, htypes, hdogma, parseSystems, parseGatePairs, Layout.forRows,
    Layout.forRows]
  cases decodeRows dec.system (layout "mapSolarSystems.jsonl").numbered with
  | error e => rfl
  | ok systems =>
    cases decodeRows dec.stargate (layout "mapStargates.jsonl").numbered with
    | error e => rfl
    | ok gates =>
      change (Except.bind (Except.mapError _ (parseHullCatalog dec (readLines _) (readLines _))) _) = _
      rw [parseHullCatalog, Layout.forRows]
      cases decodeRows dec.type (layout "types.jsonl").numbered with
      | error e => rfl
      | ok types =>
        change (Except.bind (Except.mapError _ (forRows _ _ 0 _ (readLines _))) _) = _
        rw [Layout.forRows]
        cases decodeRows dec.typeDogma (layout "typeDogma.jsonl").numbered with
        | error e => rfl
        | ok dogma =>
          exact congrArg (fun s => Except.ok (RawSdeData.mk s _ _)) (foldl_systems systems [])

theorem loadRows_same {rows rows' : String → List (ℕ × String)} {data : RawSdeData}
    (hrows : ∀ f ∈ FILES, (rows f).map Prod.snd = (rows' f).map Prod.snd)
    (h : loadRows dec rows = .ok data) : loadRows dec rows' = .ok data := by
  obtain ⟨systems, hsystems, h⟩ := bind_ok.mp h
  obtain ⟨stargates, hstargates, h⟩ := bind_ok.mp h
  obtain ⟨types, htypes, h⟩ := bind_ok.mp h
  obtain ⟨dogma, hdogma, h⟩ := bind_ok.mp h
  exact bind_ok.mpr ⟨systems, decodeRows_same (hrows _ (by decide)) hsystems,
    bind_ok.mpr ⟨stargates, decodeRows_same (hrows _ (by decide)) hstargates,
    bind_ok.mpr ⟨types, decodeRows_same (hrows _ (by decide)) htypes,
    bind_ok.mpr ⟨dogma, decodeRows_same (hrows _ (by decide)) hdogma, h⟩⟩⟩⟩

theorem Layout.numbered_snd (f : Layout) : f.numbered.map Prod.snd = f.rows := by
  rw [Layout.numbered, Layout.rows, List.map_filterMap]
  conv_rhs => rw [← List.zipIdx_map_fst 1 (f.lines.map Prod.fst ++ [f.last]), List.filterMap_map]
  congr 1
  funext l
  exact Option.map_map _ _ _

/-- What a directory's files say is what their rows say: white space, blank lines,
byte-order marks and line endings make no difference, but to the number of the line
that an error names. -/
theorem laid_out_load {files' : String → Option Bytes} {layout' : String → Layout}
    (h : ∀ f ∈ FILES, files f = some (layout f).bytes)
    (h' : ∀ f ∈ FILES, files' f = some (layout' f).bytes)
    (hrows : ∀ f ∈ FILES, (layout f).rows = (layout' f).rows) :
    (loadFiles dec files = loadRows dec fun f => (layout f).numbered) ∧
      ∀ data, loadFiles dec files = .ok data ↔ loadFiles dec files' = .ok data := by
  refine ⟨loadFiles_laidOut h, fun data => ?_⟩
  have hsame : ∀ f ∈ FILES, (layout f).numbered.map Prod.snd = (layout' f).numbered.map Prod.snd := by
    intro f hf
    rw [Layout.numbered_snd, Layout.numbered_snd, hrows f hf]
  rw [loadFiles_laidOut h, loadFiles_laidOut h']
  exact ⟨loadRows_same hsame, loadRows_same fun f hf => (hsame f hf).symm⟩

end Loading

section Files

def noBlanks : Blanks := ⟨[], by simp, by simp⟩

def tab : Blanks := ⟨['\t'], List.forall_mem_singleton.mpr (by decide), by decide⟩

def emptyLine : Line := ⟨noBlanks, false, none, noBlanks⟩

/-- A row that is one letter. -/
def letterRow (c : Char) (h : isWhitespace c = false ∧ c.val ≠ 0xFEFF) (hc : c ≠ '\n') : Row where
  text := .ofList [c]
  solid := by simp
  oneLine := by simpa using hc.symm
  first := by simpa using h
  last := by simpa using h.1

def rowA : Row := letterRow 'A' (by decide) (by decide)

def rowB : Row := letterRow 'B' (by decide) (by decide)

def plainLayout (f : String) : Layout where
  lines := if f = "mapSolarSystems.jsonl" then
    [(⟨noBlanks, false, some rowA, noBlanks⟩, false), (⟨noBlanks, false, some rowB, noBlanks⟩, false)]
    else []
  last := emptyLine

def windowsLayout (f : String) : Layout where
  lines := if f = "mapSolarSystems.jsonl" then
    [(⟨noBlanks, true, some rowA, noBlanks⟩, true), (emptyLine, true)]
    else []
  last := if f = "mapSolarSystems.jsonl" then ⟨tab, false, some rowB, tab⟩ else emptyLine

theorem laid_out_load_windows :
    (plainLayout "mapSolarSystems.jsonl").bytes = utf8 "A\nB\n" ∧
      (windowsLayout "mapSolarSystems.jsonl").bytes = utf8 "\uFEFFA\r\n\r\n\tB\t" ∧
      ∀ dec : RowDecoder,
        (loadFiles dec (fun f => some (plainLayout f).bytes) =
          loadRows dec fun f => (plainLayout f).numbered) ∧
        ∀ data, loadFiles dec (fun f => some (plainLayout f).bytes) = .ok data ↔
          loadFiles dec (fun f => some (windowsLayout f).bytes) = .ok data := by
  refine ⟨by decide +kernel, by decide +kernel, fun dec => ?_⟩
  have hrows : ∀ f ∈ FILES, (plainLayout f).rows = (windowsLayout f).rows := by
    decide +kernel
  exact laid_out_load (fun _ _ => rfl) (fun _ _ => rfl) hrows

end Files

end Palu
