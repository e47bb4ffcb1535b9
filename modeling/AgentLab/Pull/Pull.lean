import AgentLab.Lib.Effects
import AgentLab.Pull.Records

/-!
# Pulling a model

`pull.py` as a program over the operations of the file system, the server and the clock. Each
operation is done in one moment, and may instead raise, as the environment chooses (`Choice`);
between two of them the process can be killed. Several steps of the source are one operation where
nothing can tell them apart: `state.json` is written to a temporary file and renamed, the
directories on the way to a file are made, and a file is opened and read to hash it.

The text that goes to `out`, the limit of the rate and the waiting between attempts are left out.
-/

namespace AgentLab.Pull

open Python Effects

/-! ## Errors -/

/-- What a `PullError` is about. -/
inductive PullError
  | locked
  | noSpace (needed free : ℕ)
  | failed (name exc : Str)
  | tooLong (name : Str) (size : ℕ)
  | stopped (name : Str) (size expected : ℕ)
  | mismatch (names : List Str)
  /-- From `_hf_fetch`. -/
  | cannotDownload (url exc : Str)
  deriving DecidableEq

inductive Exc
  /-- An `OSError`, with its text. -/
  | os (text : Str)
  /-- A `TransportError` or `_RetryableHTTPError`. -/
  | transport (text : Str)
  | pull (e : PullError)
  /-- Anything else, such as a `KeyboardInterrupt`. -/
  | other
  deriving DecidableEq

def DISK_MARGIN : ℕ := 512 * 1024 ^ 2

def RETRIES : ℕ := 3

/-- The text of the error, for the id of the model, its directory and `format_size`. -/
def PullError.message (id root : Str) (formatSize : ℕ → Str) : PullError → Str
  | .locked => str "another `alab pull " ++ id ++ str "` is running"
  | .noSpace needed free => str "not enough disk space at " ++ root ++ str ": need " ++
      formatSize needed ++ str " plus " ++ formatSize DISK_MARGIN ++ str " headroom, " ++
      formatSize free ++ str " free"
  | .failed name exc => name ++ str ": download failed after " ++ natStr RETRIES ++
      str " attempts: " ++ exc
  | .tooLong name size => name ++ str ": server sent more than the expected " ++ natStr size ++
      str " bytes"
  | .stopped name size expected => name ++ str ": download stopped at " ++ natStr size ++
      str " of " ++ natStr expected ++ str " bytes"
  | .mismatch names => natStr names.length ++
      str " file(s) did not match the sha256 in the registry and were deleted: " ++
      join (str ", ") names
  | .cannotDownload url exc => str "cannot download " ++ url ++ str ": " ++ exc

/-! ## Operations -/

/-- What a request gets: the status, the chunks, what is raised after them and what on closing. -/
structure Reply where
  status : ℕ
  chunks : List Bytes
  breaks : Option Exc
  closes : Option Exc
  deriving DecidableEq

inductive Op
  /-- `root.mkdir(parents=True, exist_ok=True)`. -/
  | makeRoot
  | lock
  | partialNames
  | removePartial (name : Str)
  | loadState
  | saveState (data : Json)
  | isFile (p : Path)
  | stat (p : Path)
  | read (p : Path)
  | unlink (p : Path)
  /-- The size of a partial file, if it is there. -/
  | partialSize (name : Str)
  | statPartial (name : Str)
  | touchPartial (name : Str)
  | openPartial (name : Str) (append : Bool)
  /-- `write`, and then `tell`. -/
  | writePartial (name : Str) (chunk : Bytes)
  | readPartial (name : Str)
  /-- `target.parent.mkdir(parents=True, exist_ok=True)`. -/
  | makeParents (p : Path)
  /-- `partial.replace(target)`. -/
  | replace (name : Str) (p : Path)
  /-- `shutil.disk_usage(root).free`; what is needed is for conditions on the answer. -/
  | diskFree (needed : ℕ)
  | fetch (url : Str) (offset : ℕ)
  | diskUsage
  | monotonic

abbrev Op.Resp : Op → Type
  | .lock | .isFile _ => Bool
  | .partialNames => List Str
  | .loadState => Option Json
  | .stat _ => ℕ × ℕ
  | .read _ | .readPartial _ => Bytes
  | .partialSize _ => Option ℕ
  | .statPartial _ | .writePartial _ _ | .diskFree _ | .diskUsage => ℕ
  | .fetch _ _ => Reply
  | .monotonic => ℚ
  | _ => Unit

/-- What the environment adds to an operation. -/
structure Choice where
  /-- Raise this instead. -/
  raises : Option Exc
  /-- How much a `write` that raises has written. -/
  written : ℕ
  /-- The time of a modification. -/
  mtime : ℕ
  /-- Whether the lock is free. -/
  unlocked : Bool
  free : ℕ
  usage : ℕ
  now : ℚ
  reply : Reply

def missingFile : Exc := .os (str "No such file or directory")

/-- Put a node at a path. -/
def Disk.put (d : Disk) (p : Path) (node : Option Node) : Disk :=
  { d with tree := fun q => if q = p then node else d.tree q }

/-- Make a directory of each of the paths that lead to `p`. -/
def Disk.makeDirs (d : Disk) (p : Path) : Disk :=
  { d with tree := fun q => if q.isPrefixOf p then some .dir else d.tree q }

/-- The part of a file that is there. -/
def Disk.partialBytes (d : Disk) (name : Str) : Bytes :=
  (Dict.get? d.partials name).elim [] File.bytes

/-- Write a partial file. -/
def Disk.setPartial (d : Disk) (name : Str) (f : File) : Disk :=
  { d with partials := Dict.set d.partials name f }

def Disk.dropPartial (d : Disk) (name : Str) : Disk :=
  { d with partials := Dict.pop d.partials name }

/-- Write to the end of a partial file. -/
def Disk.append (d : Disk) (name : Str) (chunk : Bytes) (mtime : ℕ) : Disk :=
  d.setPartial name ⟨d.partialBytes name ++ chunk, mtime⟩

/-- An operation that is not made to raise. -/
def perform (o : Op) (x : Choice) (d : Disk) : Except Exc o.Resp × Disk :=
  match o with
  | .makeRoot =>
    match d.tree [] with
    | some (.file _) => (.error (.os (str "File exists")), d)
    | _ => (.ok (), d.put [] (some .dir))
  | .lock => (.ok x.unlocked, d)
  | .partialNames => (.ok (d.partials.map Prod.fst).dedup, d)
  | .removePartial name =>
    match Dict.get? d.partials name with
    | some _ => (.ok (), d.dropPartial name)
    | none => (.error missingFile, d)
  | .loadState => (.ok d.state, d)
  | .saveState data => (.ok (), { d with state := some data })
  | .isFile p => (.ok (Node.isFile (d.tree p)), d)
  -- Only asked of regular files.
  | .stat p =>
    match d.tree p with
    | some (.file f) => (.ok (f.bytes.length, f.mtime), d)
    | _ => (.error missingFile, d)
  | .read p =>
    match d.tree p with
    | some (.file f) => (.ok f.bytes, d)
    | _ => (.error missingFile, d)
  | .unlink p =>
    match d.tree p with
    | some (.file _) => (.ok (), d.put p none)
    | _ => (.error missingFile, d)
  | .partialSize name => (.ok ((Dict.get? d.partials name).map fun f => f.bytes.length), d)
  | .statPartial name =>
    match Dict.get? d.partials name with
    | some f => (.ok f.bytes.length, d)
    | none => (.error missingFile, d)
  | .touchPartial name => (.ok (), d.append name [] x.mtime)
  | .openPartial name append =>
    (.ok (), d.setPartial name (if append then
        (Dict.get? d.partials name).getD ⟨[], x.mtime⟩ else ⟨[], x.mtime⟩))
  | .writePartial name chunk =>
    (.ok ((d.partialBytes name).length + chunk.length), d.append name chunk x.mtime)
  | .readPartial name =>
    match Dict.get? d.partials name with
    | some f => (.ok f.bytes, d)
    | none => (.error missingFile, d)
  | .makeParents p =>
    if p.dropLast.inits.any fun q => Node.isFile (d.tree q) then
      (.error (.os (str "Not a directory")), d)
    else (.ok (), d.makeDirs p.dropLast)
  | .replace name p =>
    match Dict.get? d.partials name, d.tree p, d.tree p.dropLast with
    | none, _, _ => (.error missingFile, d)
    | some _, some .dir, _ => (.error (.os (str "Is a directory")), d)
    | some f, _, some .dir =>
      (.ok (), (d.put p (some (.file f))).dropPartial name)
    | some _, _, _ => (.error (.os (str "Not a directory")), d)
  | .diskFree _ => (.ok x.free, d)
  | .fetch _ _ => (.ok x.reply, d)
  | .diskUsage => (.ok x.usage, d)
  | .monotonic => (.ok x.now, d)

/-- What an operation answers, and the disk after it. -/
def exec (o : Op) (x : Choice) (d : Disk) : Except Exc o.Resp × Disk :=
  match x.raises with
  | none => perform o x d
  | some e => (.error e, match o with
    | .writePartial name chunk => d.append name (chunk.take x.written) x.mtime
    | _ => d)

/-! ## The program -/

abbrev Script := Prog Op Op.Resp Exc

/-- Do an operation, and raise what it raises. -/
abbrev call (o : Op) : Script o.Resp := Prog.op o

/-- What `pull` gets from elsewhere: `str` of a value that is not a string, the hexadecimal SHA-256
of bytes, and `hf_hub_url`. -/
structure Tools where
  text : Json → Str
  sha256 : Bytes → Str
  hubUrl : Str → Str → Str → Option Str → Str

/-- The arguments of `pull`; `customFetch` is whether it was given a `fetch`. -/
structure Options where
  recheck : Bool
  customFetch : Bool
  endpoint : Option Str

variable (tools : Tools) (options : Options)

/-- `file_url`. -/
def fileUrl (entry : ModelEntry) (f : ModelFile) : Str :=
  tools.hubUrl entry.repo f.name entry.revision options.endpoint

/-- The text of an exception that is worth another attempt. -/
def transient? : Exc → Option Str
  | .os text => some text
  | .transport text => if options.customFetch then none else some text
  | _ => none

/-- `_remove_stray_partials`. -/
def removeStray (wanted : List Str) : List Str → Script Unit
  | [] => pure ()
  | name :: names => do
    if name ∈ wanted then removeStray wanted names
    else do
      call (.removePartial name)
      removeStray wanted names

/-- `_Records.load`. -/
def loadRecords : Script Records := do
  let state ← (call .loadState).handle fun
    | .os _ => pure none
    | e => .raise e
  return Records.load tools.text state

/-- `known_sha256`. -/
def knownSha256 (records : Records) (f : ModelFile) : Script (Option Str) :=
  match records.record f.name with
  | .obj fields =>
    (do
      let st ← call (.stat f.path)
      return recordSha (.obj fields) st.1 st.2).handle fun
    | .os _ => pure none
    | e => .raise e
  | _ => pure none

/-- `remember`. -/
def remember (records : Records) (f : ModelFile) (sha : Str) : Script Records := do
  let st ← call (.stat f.path)
  return records.remember f.name st.1 st.2 sha

/-- `None if recheck else records.known_sha256(target, f.name)`. -/
def recorded (records : Records) (f : ModelFile) : Script (Option Str) :=
  if options.recheck then pure none else knownSha256 records f

/-- The hash of a file that is there: the recorded one, or the one of its content. -/
def knownOrHashed (records : Records) (f : ModelFile) : Script (Records × Str) := do
  let known ← recorded options records f
  match known with
  | some known => return (records, known)
  | none => do
    let bytes ← call (.read f.path)
    let records ← remember records f (tools.sha256 bytes)
    return (records, tools.sha256 bytes)

/-- One round of the first loop of `pull`, and whether the file is missing. -/
def checkFile (records : Records) (f : ModelFile) : Script (Records × Bool) := do
  let there ← call (.isFile f.path)
  if there then do
    let known ← knownOrHashed tools options records f
    if known.2 = f.sha256 then return (known.1, false)
    else do
      call (.unlink f.path)
      return (known.1.forget f.name, true)
  else return (records.forget f.name, true)

/-- Which files are already in place and verified? -/
def checkFiles : List ModelFile → Records → Script (Records × List ModelFile)
  | [], records => return (records, [])
  | f :: files, records => do
    let checked ← checkFile tools options records f
    let rest ← checkFiles files checked.1
    return (rest.1, if checked.2 then f :: rest.2 else rest.2)

/-- How many bytes are still to come. -/
def remaining : List ModelFile → Script ℕ
  | [] => return 0
  | f :: files => do
    let size ← call (.partialSize f.partialName)
    let rest ← remaining files
    return (if size.getD 0 ≤ f.size then f.size - size.getD 0 else f.size) + rest

/-- The chunks of a response, up to one too many. -/
def writeChunks (f : ModelFile) (breaks : Option Exc) : List Bytes → Script Unit
  | [] =>
    match breaks with
    | some e => .raise e
    | none => pure ()
  | chunk :: chunks => do
    let size ← call (.writePartial f.partialName chunk)
    if f.size < size then pure () else writeChunks f breaks chunks

/-- One request of `_download`. -/
def request (url : Str) (f : ModelFile) (offset : ℕ) : Script Unit := do
  let reply ← call (.fetch url offset)
  call (.openPartial f.partialName (offset ≠ 0 ∧ reply.status = 206))
  writeChunks f reply.breaks reply.chunks
  match reply.closes with
  | some e => .raise e
  | none => pure ()

/-- Where an attempt starts; a partial file that is too long goes. -/
def startOffset (f : ModelFile) : Script ℕ := do
  let size ← call (.partialSize f.partialName)
  if f.size < size.getD 0 then do
    call (.removePartial f.partialName)
    return 0
  else return size.getD 0

/-- The request of an attempt, and the exception that is worth another one. -/
def attempt (url : Str) (f : ModelFile) (offset : ℕ) : Script (Option Str) :=
  (do request url f offset; return none).handle fun e =>
    match transient? options e with
    | some text => pure (some text)
    | none => .raise e

/-- `_download`, with that many attempts left. -/
def download (url : Str) (f : ModelFile) : ℕ → Script Unit
  | 0 => pure ()
  | left + 1 => do
    let offset ← startOffset f
    if offset = f.size then call (.touchPartial f.partialName)
    else do
      let failure ← attempt options url f offset
      match failure with
      | some text =>
        if left = 0 then .raise (.pull (.failed f.name text)) else download url f left
      | none => do
        let size ← call (.statPartial f.partialName)
        if size = f.size then pure ()
        else if f.size < size then do
          call (.removePartial f.partialName)
          .raise (.pull (.tooLong f.name f.size))
        else if left = 0 then .raise (.pull (.stopped f.name size f.size))
        else download url f left

/-- One round of the second loop of `pull`, and whether the file did not match. -/
def install (entry : ModelEntry) (records : Records) (f : ModelFile) : Script (Records × Bool) := do
  download options (fileUrl tools options entry f) f RETRIES
  let bytes ← call (.readPartial f.partialName)
  if tools.sha256 bytes = f.sha256 then do
    call (.makeParents f.path)
    call (.replace f.partialName f.path)
    let records ← remember records f (tools.sha256 bytes)
    call (.saveState records.dump)
    return (records, false)
  else do
    call (.removePartial f.partialName)
    call (.saveState (records.fail f.name).dump)
    return (records.fail f.name, true)

/-- Download, verify, move into place. -/
def installAll (entry : ModelEntry) : List ModelFile → Records → Script (Records × List Str)
  | [], records => return (records, [])
  | f :: files, records => do
    let installed ← install tools options entry records f
    let rest ← installAll entry files installed.1
    return (rest.1, if installed.2 then f.name :: rest.2 else rest.2)

structure PullResult where
  downloadedBytes : ℕ
  seconds : ℚ
  diskUsage : ℕ

/-- The `with _pull_lock` block of `pull`. -/
def pullLocked (entry : ModelEntry) : Script ℕ := do
  let names ← call .partialNames
  removeStray (entry.files.map ModelFile.partialName) names
  let records ← loadRecords tools
  let checked ← checkFiles tools options entry.files records
  call (.saveState checked.1.dump)
  let needed ← remaining checked.2
  let free ← call (.diskFree needed)
  if free < needed + DISK_MARGIN then .raise (.pull (.noSpace needed free))
  else do
    let installed ← installAll tools options entry checked.2 checked.1
    if installed.2 ≠ [] then .raise (.pull (.mismatch installed.2))
    else do
      call (.saveState { installed.1 with failed := [] }.dump)
      return needed

/-- `pull`. -/
def pull (entry : ModelEntry) : Script PullResult := do
  call .makeRoot
  let started ← call .monotonic
  let unlocked ← call .lock
  if unlocked then do
    let needed ← pullLocked tools options entry
    let ended ← call .monotonic
    let usage ← call .diskUsage
    return ⟨needed, ended - started, usage⟩
  else .raise (.pull .locked)

/-! ## A model of one small file -/

/-- The bytes of `GGUF`. -/
def smallBytes : Bytes := [0x47, 0x47, 0x55, 0x46]

/-- Their SHA-256. -/
def smallSha : Str := str "b83633aa785344791618f2fddf131b010ea04912a60430760b070bad293f65bd"

def smallFile : ModelFile := ⟨str "gguf/tiny.gguf", 4, smallSha, by decide +kernel⟩

def smallEntry : ModelEntry := ⟨str "tiny", str "lab/tiny", str "0a1b", [smallFile], by simp⟩

/-- SHA-256 of the small file, and the URLs of the hub. -/
def smallTools : Tools where
  text _ := []
  sha256 bytes := if bytes = smallBytes then smallSha else str "0"
  hubUrl repo name revision endpoint := endpoint.getD (str "https://huggingface.co") ++ str "/" ++
    repo ++ str "/resolve/" ++ revision ++ str "/" ++ name

def smallOptions : Options := ⟨false, false, none⟩

/-- Nothing is in the way; a server answers with the small file. -/
def quiet : Choice where
  raises := none
  written := 0
  mtime := 1
  unlocked := true
  free := 2 ^ 30
  usage := 8
  now := 0
  reply := ⟨200, [smallBytes], none, none⟩

/-- A directory with these bytes as the small file, and no records. -/
def smallDisk (bytes : Bytes) : Disk where
  tree p := if p = [] ∨ p = [str "gguf"] then some .dir
    else if p = smallFile.path then some (.file ⟨bytes, 1⟩) else none
  state := none
  partials := []

end AgentLab.Pull
