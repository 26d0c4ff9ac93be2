import Palu.Model.Domain

namespace Palu

abbrev Bytes := List UInt8

section Text

/-- The Unicode property White_Space. -/
def isWhitespace (c : Char) : Bool :=
  c.val ∈ [0x20, 0x85, 0xA0, 0x1680, 0x2028, 0x2029, 0x202F, 0x205F, 0x3000] ||
    (0x09 ≤ c.val && c.val ≤ 0x0D) || (0x2000 ≤ c.val && c.val ≤ 0x200A)

def trim (s : String) : String :=
  .ofList ((s.toList.dropWhile isWhitespace).rdropWhile isWhitespace)

/-- Strip a leading byte-order mark. -/
def stripBom (s : String) : String :=
  match s.toList with
  | [] => s
  | c :: rest => if c.val = 0xFEFF then .ofList rest else s

/-- Cut text at its newlines. Neither a newline nor a carriage return in front of
one is kept, and there is no line after the last newline. -/
def cutLines {α : Type} [DecidableEq α] (newline ret : α) : List α → List α → List (List α)
  | [], [] => []
  | line, [] => [line.reverse]
  | line, c :: text =>
    if c = newline then
      (match line with
        | [] => []
        | c :: rest => if c = ret then rest.reverse else line.reverse) ::
          cutLines newline ret [] text
    else cutLines newline ret (c :: line) text

/-- `str::lines`. -/
def textLines (s : String) : List String := (cutLines '\n' '\r' [] s.toList).map .ofList

/-- `BufRead::lines`: each line, or why it cannot be read. -/
def readLines (bytes : Bytes) : List (Except String String) :=
  (cutLines 10 13 [] bytes).map fun line =>
    match String.fromUTF8? line.toByteArray with
    | some s => .ok s
    | none => .error "stream did not contain valid UTF-8"

end Text

section Rows

structure Position where
  x : ℚ
  y : ℚ
  z : ℚ

/-- A row of `mapSolarSystems.jsonl`, its name in English. -/
structure RawSystem where
  id : ℤ
  name : String
  securityStatus : ℚ
  regionId : ℤ
  constellationId : ℤ
  position : Position

/-- A row of `mapStargates.jsonl`. -/
structure RawStargate where
  solarSystemId : ℤ
  destination : ℤ

/-- A row of `types.jsonl`. -/
structure RawType where
  id : ℤ
  groupId : ℤ
  name : String
  published : Bool := false

structure RawDogmaAttribute where
  attributeId : ℤ
  value : ℚ

/-- A row of `typeDogma.jsonl`. -/
structure RawTypeDogma where
  id : ℤ
  dogmaAttributes : List RawDogmaAttribute := []

/-- `serde_json::from_str`, for each kind of row. -/
structure RowDecoder where
  system : String → Except String RawSystem
  stargate : String → Except String RawStargate
  type : String → Except String RawType
  typeDogma : String → Except String RawTypeDogma

end Rows

inductive ParseError where
  | json (line : ℕ) (source : String)
  | io (source : String)
  deriving DecidableEq, Repr

def ParseError.message : ParseError → String
  | .json line source => "JSON parse error on line " ++ toString line ++ ": " ++ source
  | .io source => "I/O error: " ++ source

section Parsing

/-- The loop that every parser runs over its lines, the first of which has the
number `i + 1`: blank lines are skipped, the other lines decoded and used. -/
def forRows {ρ α : Type} (decode : String → Except String ρ) (step : α → ρ → α) :
    ℕ → α → List (Except String String) → Except ParseError α
  | _, acc, [] => .ok acc
  | _, _, .error e :: _ => .error (.io e)
  | i, acc, .ok line :: lines =>
    let line := stripBom (trim line)
    if line.isEmpty then forRows decode step (i + 1) acc lines
    else match decode line with
      | .error e => .error (.json (i + 1) e)
      | .ok raw => forRows decode step (i + 1) (step acc raw) lines

/-- `0.45_f32`, the raw security that is shown as 0.5. -/
def HIGHSEC_MIN : ℚ := 7549747 / 16777216

/-- Wormhole systems are wormhole systems whatever their raw security. -/
def classifySecurity (sec : ℚ) (isWormhole : Bool) : SecClass :=
  if isWormhole then .wormhole
  else if sec ≥ HIGHSEC_MIN then .highsec
  else if sec > 0 then .lowsec
  else .nullsec

def systemFromRaw (raw : RawSystem) : System where
  id := raw.id
  name := raw.name
  security := raw.securityStatus
  secClass := classifySecurity raw.securityStatus (raw.regionId ≥ 11000000)
  coords := (raw.position.x, raw.position.y, raw.position.z)
  regionId := raw.regionId
  constellationId := raw.constellationId

variable (rows : RowDecoder)

def parseSystems (reader : List (Except String String)) : Except ParseError (List System) :=
  forRows rows.system (fun systems raw => systems ++ [systemFromRaw raw]) 0 [] reader

/-- The pairs seen so far, and the list of them. -/
structure GatePass where
  seen : Finset (ℤ × ℤ) := ∅
  pairs : List (ℤ × ℤ) := []

def GatePass.addRow (pass : GatePass) (raw : RawStargate) : GatePass :=
  let a := raw.solarSystemId
  let b := raw.destination
  let key := if a ≤ b then (a, b) else (b, a)
  if key ∈ pass.seen then pass
  else { seen := insert key pass.seen, pairs := pass.pairs ++ [key] }

/-- Both directed halves of a link become one pair. -/
def parseGatePairs (reader : List (Except String String)) : Except ParseError (List (ℤ × ℤ)) :=
  (forRows rows.stargate GatePass.addRow 0 {} reader).map GatePass.pairs

def ATTR_JUMP_DRIVE_RANGE : ℤ := 867

def ATTR_JUMP_DRIVE_RANGE_BONUS : ℤ := 870

def JDC_SKILL_TYPE_ID : ℤ := 21611

/-- Published types by id, each with its name and group. -/
abbrev Published := ℤ → Option (String × ℤ)

def addType (published : Published) (raw : RawType) : Published :=
  if raw.published then Function.update published raw.id (some (raw.name, raw.groupId))
  else published

def RawTypeDogma.find (raw : RawTypeDogma) (attributeId : ℤ) : Option RawDogmaAttribute :=
  raw.dogmaAttributes.find? fun a => a.attributeId = attributeId

/-- The bonus from the skill's row, a percentage stored as a fraction, and a hull
from the row of a published type that has a jump range. -/
def addDogma (published : Published) (catalog : RawHullCatalog) (raw : RawTypeDogma) :
    RawHullCatalog :=
  let catalog :=
    match raw.find ATTR_JUMP_DRIVE_RANGE_BONUS with
    | some attr =>
      if raw.id = JDC_SKILL_TYPE_ID then
        { catalog with jdcBonusPerLevel := some (attr.value / 100) }
      else catalog
    | none => catalog
  match published raw.id, raw.find ATTR_JUMP_DRIVE_RANGE with
  | some (name, groupId), some attr =>
    { catalog with
      hulls := catalog.hulls ++
        [{ typeId := raw.id, name := name, groupId := groupId, baseLy := attr.value }] }
  | _, _ => catalog

def parseHullCatalog (types dogma : List (Except String String)) :
    Except ParseError RawHullCatalog := do
  let published ← forRows rows.type addType 0 (fun _ => none) types
  forRows rows.typeDogma (addDogma published) 0 {} dogma

end Parsing

end Palu
