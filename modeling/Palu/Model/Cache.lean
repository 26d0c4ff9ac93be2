import Palu.Effects
import Palu.Model.Parse
import Palu.Model.Request

namespace Palu

open Effects

def FILES : List String :=
  ["mapSolarSystems.jsonl", "mapStargates.jsonl", "types.jsonl", "typeDogma.jsonl"]

/-- An error with its contexts, the outermost first. -/
abbrev Trace := List String

/-- The manifest entry of `latest.jsonl`. -/
structure LatestManifest where
  buildNumber : UInt64
  releaseDate : Instant

/-- What `metadata.json` says about the current build. -/
structure CacheMetadata where
  buildNumber : UInt64
  releaseDate : Option Instant
  fetchedAt : Instant
  deriving DecidableEq

/-- What is used of `serde_json`. -/
structure Serde extends RowDecoder where
  manifest : String → Except String LatestManifest
  encodeMetadata : CacheMetadata → Bytes
  decodeMetadata : Bytes → Option CacheMetadata

section Disk

/-- A directory of files. -/
abbrev Dir := AList fun _ : String => Bytes

/-- What is under the cache root: `metadata.json` and its temporary file, and the
subdirectories by name. -/
structure Disk where
  metadata : Option Bytes := none
  metadataTmp : Option Bytes := none
  dirs : AList fun _ : String => Dir := ∅

namespace Disk

/-- The root is there once something is in it. An empty root is not told from
one that is yet to be created. -/
def rooted (d : Disk) : Bool := d.metadata.isSome || d.metadataTmp.isSome || !d.dirs.keys.isEmpty

def dir (d : Disk) (name : String) : Option Dir := d.dirs.lookup name

def file (d : Disk) (dir name : String) : Option Bytes := (d.dir dir).bind fun files => files.lookup name

def createDir (d : Disk) (dir : String) : Disk := { d with dirs := d.dirs.insert dir ∅ }

def removeDir (d : Disk) (dir : String) : Disk := { d with dirs := d.dirs.erase dir }

/-- Change the files of a directory that is there. -/
def updateDir (d : Disk) (dir : String) (f : Dir → Dir) : Disk :=
  match d.dirs.lookup dir with
  | some files => { d with dirs := d.dirs.insert dir (f files) }
  | none => d

def writeFile (d : Disk) (dir name : String) (content : Bytes) : Disk :=
  d.updateDir dir fun files => files.insert name content

def removeFile (d : Disk) (dir name : String) : Disk := d.updateDir dir fun files => files.erase name

def renameFile (d : Disk) (dir src dst : String) : Disk :=
  d.updateDir dir fun files =>
    match files.lookup src with
    | some content => (files.erase src).insert dst content
    | none => files

def renameMetadata (d : Disk) : Disk :=
  match d.metadataTmp with
  | some bytes => { d with metadata := some bytes, metadataTmp := none }
  | none => d

end Disk

end Disk

/-- The name of a build's directory. -/
def buildDirName (build : UInt64) : String := toString build.toNat

structure SdeCache where
  root : String

/-- `Path::join`, with a name that is not a path itself. -/
def joinPath (path name : String) : String :=
  if path.isEmpty || path.endsWith "/" then path ++ name else path ++ "/" ++ name

def SdeCache.buildDir (cache : SdeCache) (build : UInt64) : String :=
  joinPath cache.root (buildDirName build)

section Loading

def buildFilesPresent (disk : Disk) (build : UInt64) : Bool :=
  FILES.all fun f => (disk.file (buildDirName build) f).isSome

/-- The build recorded in `metadata.json`, if all its files are there. -/
def currentMetadata (serde : Serde) (disk : Disk) : Option CacheMetadata := do
  let bytes ← disk.metadata
  let current ← serde.decodeMetadata bytes
  if buildFilesPresent disk current.buildNumber then some current else none

def openFile (files : String → Option Bytes) (name : String) : Except Trace Bytes :=
  match files name with
  | some content => .ok content
  | none => .error ["opening cached " ++ name, "No such file or directory (os error 2)"]

def parseFile {α : Type} (files : String → Option Bytes) (name : String)
    (f : List (Except String String) → Except ParseError α) : Except Trace α := do
  let file ← openFile files name
  (f (readLines file)).mapError fun e => ["parsing " ++ name, e.message]

def loadHullCatalog (rows : RowDecoder) (files : String → Option Bytes) :
    Except Trace RawHullCatalog := do
  let types ← openFile files "types.jsonl"
  let dogma ← openFile files "typeDogma.jsonl"
  (parseHullCatalog rows (readLines types) (readLines dogma)).mapError fun e =>
    ["parsing types.jsonl/typeDogma.jsonl", e.message]

/-- Parse the four files of a directory. -/
def loadFiles (rows : RowDecoder) (files : String → Option Bytes) : Except Trace RawSdeData := do
  let systems ← parseFile files "mapSolarSystems.jsonl" (parseSystems rows)
  let gatePairs ← parseFile files "mapStargates.jsonl" (parseGatePairs rows)
  let hulls ← loadHullCatalog rows files
  pure { systems := systems, gatePairs := gatePairs, hulls := hulls }

/-- Load a build, whose files must all be there. -/
def loadBuild (cache : SdeCache) (rows : RowDecoder) (disk : Disk) (build : UInt64) :
    Except Trace RawSdeData :=
  if buildFilesPresent disk build then loadFiles rows (disk.file (buildDirName build))
  else .error ["build " ++ toString build.toNat ++ " cache is incomplete (missing one of [" ++
    ", ".intercalate (FILES.map String.quote) ++ "] in " ++ cache.buildDir build ++ ")"]

/-- `str::parse::<u64>`. -/
def parseU64 (s : String) : Option UInt64 :=
  let digits :=
    match s.toList with
    | [] => []
    | c :: rest => if c = '+' then rest else c :: rest
  if digits.isEmpty || !digits.all Char.isDigit then none
  else
    let n := Nat.ofDigitChars 10 digits 0
    if n < UInt64.size then some (.ofNat n) else none

end Loading

section Zip

structure ZipEntry where
  name : String
  content : Bytes

abbrev Archive := List ZipEntry

/-- The names between the slashes of a Unix path, without empty ones and dots. -/
def pathNames (path : String) : List String :=
  ((path.toList.splitOn '/').map String.ofList).filter fun part => part ≠ "" ∧ part ≠ "."

/-- `Path::file_name`. -/
def fileName (path : String) : Option String :=
  (pathNames path).getLast?.filter fun name => name ≠ ".."

/-- An absolute path, a drive letter or a `..`. -/
def isUnsafeZipPath (name : String) : Bool :=
  (match name.toList with
    | [] => false
    | [c] => c = '/' || c = '\\'
    | c :: d :: _ => c = '/' || c = '\\' || (c.isAlpha && d = ':')) ||
  (pathNames name).any fun part => part = ".."

end Zip

section Host

/-- The statements that can fail. -/
inductive Site where
  | ensureRoot
  | createBuildDir
  | readEntry (i : ℕ)
  | createTmp (i : ℕ)
  | writeTmp (i : ℕ)
  | renameTmp (i : ℕ)
  | createRoot
  | createMetadataTmp
  | writeMetadataTmp
  | renameMetadata
  | readRoot
  | readRootEntry (dir : String)
  | readDir (dir : String)
  | removeFile (dir file : String)
  | removeDir (dir : String)
  deriving DecidableEq

/-- What comes of an HTTP request: nothing, an error status, a body that breaks
off, or a body. -/
inductive Response (α : Type) where
  | unsent (why : String)
  | refused (why : String)
  | broken (why : String)
  | body (content : α)

/-- Read a response, with the context of each way to fail. -/
def Response.read {α : Type} (sending status reading : String) : Response α → Except Trace α
  | .unsent why => .error [sending, why]
  | .refused why => .error [status, why]
  | .broken why => .error [reading, why]
  | .body content => .ok content

/-- What an attempt to install a build finds around it: what becomes of each
effect, the order in which directories are listed, what the server answers, and
the clock. The archive is as the ZIP library opens it. -/
structure Host where
  fate : Site → Fate Trace
  order : List String → List String
  manifest : Response String
  download : UInt64 → Response (Except String Archive)
  fetchedAt : Instant
  order_perm : ∀ names, (order names).Perm names

end Host

section Install

abbrev Io := Prog Trace Disk

/-- One effect on the disk, in its context. -/
def Host.perform (host : Host) (site : Site) (what : String) (effect : Disk → Disk)
    (partly : ℕ → Disk → Disk := fun _ d => d) : Io Unit :=
  context (what :: ·) (Effects.perform (host.fate site) effect partly)

/-- `create_dir_all` on the root, which does nothing once it is there. -/
def createRoot (host : Host) (site : Site) : Io Unit := do
  if (← get).rooted then pure () else host.perform site "creating cache root" id

def writeMetadata (serde : Serde) (host : Host) (current : CacheMetadata) : Io Unit := do
  createRoot host .createRoot
  host.perform .createMetadataTmp "writing metadata tmp file"
    fun d => { d with metadataTmp := some [] }
  let bytes := serde.encodeMetadata current
  host.perform .writeMetadataTmp "writing metadata tmp file"
    (fun d => { d with metadataTmp := some bytes })
    fun k d => { d with metadataTmp := some (bytes.take k) }
  host.perform .renameMetadata "renaming metadata tmp file" Disk.renameMetadata

/-- Whether something can be listed. -/
def Host.lists (host : Host) (site : Site) : Io Bool := do
  let listed ← attempt (atomically (host.fate site) id)
  pure listed.toBool

/-- `remove_dir_all`: the files one by one, then the directory. -/
def removeDirAll (host : Host) (dir : String) : Io Unit := do
  atomically (host.fate (.readDir dir)) id
  let files := (((← get).dir dir).map AList.keys).getD []
  forM (host.order files) fun file =>
    atomically (host.fate (.removeFile dir file)) fun d => d.removeFile dir file
  atomically (host.fate (.removeDir dir)) fun d => d.removeDir dir

/-- One pass of the loop in `pruneOtherBuilds`: an entry that cannot be read is
left out, and so is a name that is no build number. -/
def pruneEntry (host : Host) (keep : UInt64) (dir : String) : Io Unit := do
  if ← host.lists (.readRootEntry dir) then
    match parseU64 dir with
    | some b =>
      if b ≠ keep then
        let _ ← attempt (removeDirAll host dir)
        pure ()
      else pure ()
    | none => pure ()
  else pure ()

/-- Remove the build directories other than `keep`. -/
def pruneOtherBuilds (host : Host) (keep : UInt64) : Io Unit := do
  if ← host.lists .readRoot then
    forM (host.order (← get).dirs.keys) (pruneEntry host keep)
  else pure ()

/-- The first line of the manifest that is not blank. -/
def fetchLatestBuild (serde : Serde) (host : Host) : Except Trace LatestManifest := do
  let text ← host.manifest.read "fetching latest.jsonl" "latest.jsonl returned error status"
    "reading latest.jsonl body"
  match ((textLines text).map trim).find? fun l => !l.isEmpty with
  | none => .error ["latest.jsonl was empty"]
  | some line => (serde.manifest line).mapError fun e => ["parsing latest.jsonl", e]

/-- Write a required file over a temporary file, from the entry at `i`. -/
def extractTo (host : Host) (dir basename : String) (i : ℕ) (content : Bytes) : Io Unit := do
  let tmp := basename ++ ".tmp"
  host.perform (.createTmp i) ("creating " ++ tmp) fun d => d.writeFile dir tmp []
  host.perform (.writeTmp i) ("writing " ++ tmp) (fun d => d.writeFile dir tmp content)
    fun k d => d.writeFile dir tmp (content.take k)
  host.perform (.renameTmp i) ("renaming " ++ tmp) fun d => d.renameFile dir tmp basename

/-- Extract one entry, the one at `i`, if it is a required file. `found` holds the
required files extracted before. -/
def extractEntry (host : Host) (dir : String) (found : Finset String) (entry : ZipEntry × ℕ) :
    Io (Finset String) := do
  let (entry, i) := entry
  host.perform (.readEntry i) "reading zip entry" id
  if isUnsafeZipPath entry.name then pure found
  else
    let basename := (fileName entry.name).getD ""
    if basename ∉ FILES then pure found
    else
      extractTo host dir basename i entry.content
      pure (insert basename found)

/-- Extract the required files, each over a temporary file. -/
def extractFiles (host : Host) (dir : String) (archive : Archive) : Io Unit := do
  let found ← archive.zipIdx.foldlM (extractEntry host dir) ∅
  match FILES.find? fun name => name ∉ found with
  | some name => fail ["expected file " ++ name ++ " not found in SDE zip"]
  | none => pure ()

def createBuildDir (host : Host) (dir : String) : Io Unit := do
  if ((← get).dir dir).isSome then pure ()
  else host.perform .createBuildDir "creating build dir" fun d => d.createDir dir

def fetchAndExtractBuild (host : Host) (build : UInt64) : Io Unit := do
  let opened ← ofExcept ((host.download build).read "sending SDE zip request"
    "SDE zip returned error status" "reading SDE zip body")
  let dir := buildDirName build
  createBuildDir host dir
  let archive ← ofExcept (opened.mapError fun e => ["opening ZIP archive", e])
  extractFiles host dir archive

/-- Extract the build, then make it current, then prune the others. -/
def fetchAndInstall (serde : Serde) (host : Host) (latest : LatestManifest) :
    Io CacheMetadata := do
  context ("fetching SDE zip" :: ·) (fetchAndExtractBuild host latest.buildNumber)
  let current : CacheMetadata :=
    { buildNumber := latest.buildNumber
      releaseDate := some latest.releaseDate
      fetchedAt := host.fetchedAt }
  writeMetadata serde host current
  let _ ← attempt (pruneOtherBuilds host latest.buildNumber)
  pure current

end Install

section Refresh

inductive RefreshOutcome where
  | upToDate
  | updated (data : RawSdeData) (current : CacheMetadata)

/-- Compare the manifest to the build in use, and install and load the
manifest's if they differ. -/
def checkAndRefresh (cache : SdeCache) (serde : Serde) (host : Host) (currentBuild : ℕ) :
    Io RefreshOutcome := do
  let latest ← context ("fetching latest SDE manifest" :: ·)
    (ofExcept (fetchLatestBuild serde host))
  if latest.buildNumber.toNat = currentBuild then pure .upToDate
  else do
    let current ← fetchAndInstall serde host latest
    let data ← ofExcept (loadBuild cache serde.toRowDecoder (← get) current.buildNumber)
    pure (.updated data current)

/-- Bring the cache to a usable state: install the latest build if there is none,
and otherwise refresh, falling back on the cached build. -/
def ensureCache (cache : SdeCache) (serde : Serde) (host : Host) :
    Io (RawSdeData × CacheMetadata) := do
  createRoot host .ensureRoot
  match currentMetadata serde (← get) with
  | none => do
    let latest ← context ("fetching latest SDE manifest" :: ·)
      (ofExcept (fetchLatestBuild serde host))
    let current ← fetchAndInstall serde host latest
    let data ← ofExcept (loadBuild cache serde.toRowDecoder (← get) current.buildNumber)
    pure (data, current)
  | some cached => do
    match ← attempt (checkAndRefresh cache serde host cached.buildNumber.toNat) with
    | .ok (.updated data current) => pure (data, current)
    | .ok .upToDate | .error _ =>
      let data ← ofExcept (loadBuild cache serde.toRowDecoder (← get) cached.buildNumber)
      pure (data, cached)

end Refresh

end Palu
