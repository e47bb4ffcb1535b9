import AgentLab.Config.Profile
import AgentLab.Python.Float

/-!
# The model registry

`registry.py` from the parsed TOML on: the check of file names, `_parse_files` and `parse_registry`,
which collect the problems as the profiles' readers do and go on with placeholders.
-/

namespace AgentLab.Config

open Python

/-! ## Entries -/

/-- A file of a model, with its path relative to the repository. -/
structure ModelFile where
  name : String
  size : ℕ
  sha256 : String
  deriving DecidableEq, Repr

structure ModelEntry where
  id : String
  description : String
  repo : String
  revision : String
  diskSpace : ℤ
  files : List ModelFile
  deriving DecidableEq, Repr

/-- `total_size`. -/
def ModelEntry.totalSize (entry : ModelEntry) : ℕ := (entry.files.map ModelFile.size).sum

/-! ## The checks of single fields -/

def isIdStart (c : Char) : Bool := isLower c || c.isDigit

def isIdChar (c : Char) : Bool := isIdStart c || c = '.' || c = '_' || c = '-'

/-- `_ID_RE.fullmatch`. -/
def idRe (value : String) : Bool :=
  value.toList.head?.any isIdStart && value.toList.all isIdChar

/-- One of the two parts of a repository. -/
def isRepoPart (cs : List Char) : Bool := cs.head?.any Char.isAlphanum && cs.all isNameChar

/-- `_REPO_RE.fullmatch`. -/
def repoRe (value : String) : Bool :=
  let parts := value.toList.splitOn '/'
  parts.length = 2 && parts.all isRepoPart

def isHexChar (c : Char) : Bool := c.isDigit || ('a' ≤ c && c ≤ 'f')

/-- `_REVISION_RE.fullmatch`. -/
def revisionRe (value : String) : Bool := value.toList.length = 40 && value.toList.all isHexChar

/-- `_SHA256_RE.fullmatch`. -/
def sha256Re (value : String) : Bool := value.toList.length = 64 && value.toList.all isHexChar

/-- `_check_id`. -/
def checkId (value : String) : Option String :=
  if idRe value then none
  else some ("\"" ++ value ++
    "\" is not a valid model id (lowercase letters, digits, \".\", \"_\", \"-\")")

/-- `_check_repo`. -/
def checkRepo (value : String) : Option String :=
  if repoRe value then none
  else some ("\"" ++ value ++ "\" is not a Hugging Face repository (expected \"owner/name\")")

/-- `_check_revision`. -/
def checkRevision (value : String) : Option String :=
  if revisionRe value then none
  else some ("\"" ++ value ++ "\" is not a full commit hash (40 lowercase hex digits)")

/-- `name.split("/")`. -/
def nameParts (name : String) : List (List Char) := name.toList.splitOn '/'

/-- `_file_name_problem`. Where the last test is reached, the parts of the path are those of the
text. -/
def fileNameProblem (name : String) : Option String :=
  if name = "" || name.toList.head? = some '/' || '\\' ∈ name.toList then
    some "must be a relative path"
  else if (nameParts name).any fun part => part = [] || part = ['.'] || part = ['.', '.'] then
    some "must not contain empty, \".\" or \"..\" parts"
  else if (nameParts name).head? = some ".alab".toList then
    some "\".alab\" is reserved for download state"
  else none

/-! ## Files -/

def fileFields : List String := ["name", "size", "sha256"]

section

variable (py : Texts)

/-- `str(value)`; `None` where a key is missing. -/
def pyStr : Option Toml → Except PyExc String
  | none => .ok "None"
  | some (.str s) => .ok s
  | some value => py.str value

/-- `repr(value)`. -/
def pyRepr : Option Toml → Except PyExc String
  | none => .ok "None"
  | some value => py.repr value

/-- The name, if it is one that is not listed yet. -/
def fileName? (seen : List String) : Option Toml → Option String
  | some (.str name) => if (fileNameProblem name).isNone && name ∉ seen then some name else none
  | _ => none

/-- What is appended for the name of a file. -/
def nameProblems (label : String) (seen : List String) : Option Toml → Except PyExc (List String)
  | some (.str name) =>
    match fileNameProblem name with
    | some problem => do
      return [label ++ " name " ++ (← pyRepr py (some (.str name))) ++ ": " ++ problem]
    | none => .ok (if name ∈ seen then [label ++ " name " ++ name ++ ": listed twice"] else [])
  | _ => .ok [label ++ " name: missing or not a string"]

def fileSize? : Option Toml → Option ℕ
  | some (.int n) => if n < 0 then none else some n.toNat
  | _ => none

def sizeProblems (label : String) (value : Option Toml) : Except PyExc (List String) :=
  if (fileSize? value).isSome then .ok []
  else do
    return [label ++ " size: expected a non-negative integer, got " ++ (← pyRepr py value)]

def fileSha? : Option Toml → Option String
  | some (.str sha) => if sha256Re sha then some sha else none
  | _ => none

def shaProblems (label : String) (value : Option Toml) : Except PyExc (List String) :=
  if (fileSha? value).isSome then .ok []
  else do
    return [label ++ " sha256: expected 64 lowercase hex digits, got " ++ (← pyRepr py value)]

/-- The file that a table stands for, if its three fields are all right. -/
def file? (seen : List String) (fields : List (String × Toml)) : Option ModelFile := do
  let name ← fileName? seen (fields.lookup "name")
  let size ← fileSize? (fields.lookup "size")
  let sha256 ← fileSha? (fields.lookup "sha256")
  return ⟨name, size, sha256⟩

/-- One round of the loop in `_parse_files`; `seen` holds the names of the files so far. -/
def readFile (label : String) (files : List ModelFile) :
    Toml → Except PyExc (List ModelFile × List String)
  | .table fields => do
    let seen := files.map ModelFile.name
    let unknown := (Reader.unknown (fields.map Prod.fst) fileFields).map fun key =>
      label ++ " " ++ key ++ ": unknown field"
    let name ← nameProblems py label seen (fields.lookup "name")
    let size ← sizeProblems py label (fields.lookup "size")
    let sha256 ← shaProblems py label (fields.lookup "sha256")
    return (files ++ (file? seen fields).toList, unknown ++ name ++ size ++ sha256)
  | _ => return (files, [label ++ ": expected a table with name, size and sha256"])

def readFiles (label : String) : ℕ → List Toml → List ModelFile →
    Except PyExc (List ModelFile × List String)
  | _, [], files => return (files, [])
  | index, item :: items, files => do
    let (files, problems) ← readFile py ("[" ++ label ++ "] files[" ++ toString index ++ "]")
      files item
    let (files, more) ← readFiles label (index + 1) items files
    return (files, problems ++ more)

/-- `_parse_files`: the files, and what is appended to the errors. -/
def parseFiles (label : String) (value : Option Toml) :
    Except PyExc (List ModelFile × List String) :=
  match value with
  | some (.array (item :: items)) => readFiles py label 0 (item :: items) []
  | _ => return ([], ["[" ++ label ++ "] files: expected a non-empty list of files"])

/-! ## Entries of the registry -/

def GIB : ℕ := 1024 ^ 3

/-- `format_size`. -/
def formatSize (size : ℤ) : Except PyExc String :=
  if GIB ≤ size then do return fixed1 (← trueDiv size GIB) ++ "GB"
  else if 1024 ^ 2 ≤ size then do return fixed1 (← trueDiv size (1024 ^ 2)) ++ "MB"
  else if 1024 ≤ size then do return fixed1 (← trueDiv size 1024) ++ "KB"
  else do return (← py.str (.int size)) ++ "B"

open Reader

/-- The part of `parse_registry` that reads one table. -/
def readEntry (label : String) : Reader ModelEntry := do
  let id ← string py "id" checkId
  let description ← string py "description" fun _ => none
  let repo ← string py "repo" checkRepo
  let revision ← string py "revision" checkRevision
  let diskSpace ← size py "disk_space"
  modify fun s => { s with seen := s.seen ++ ["files"] }
  let s ← getThe Section
  let files ← if s.valid then do
      let (files, problems) ← parseFiles py label (s.table.lookup "files")
      modify fun s => { s with errors := s.errors ++ problems }
      pure files
    else pure []
  finish
  return ⟨id, description, repo, revision, diskSpace, files⟩

/-- The label of an item in the messages. -/
def entryLabel (index : ℕ) : Toml → Except PyExc String
  | .table t => do return "model " ++ (← pyStr py (t.lookup "id"))
  | _ => return "model #" ++ toString (index + 1)

/-- Whether an entry says that it needs less than its files. -/
def ModelEntry.tooSmall (entry : ModelEntry) : Bool :=
  !entry.files.isEmpty && entry.diskSpace ≠ 0 && entry.diskSpace < entry.totalSize

/-- The problem of such an entry. -/
def spaceProblems (label : String) (entry : ModelEntry) : Except PyExc (List String) :=
  if entry.tooSmall then do
    return ["[" ++ label ++ "] disk_space: " ++ (← formatSize py entry.diskSpace) ++
      " is less than the files' total size (" ++ (← py.str (.int entry.totalSize)) ++ " bytes)"]
  else return []

/-- One round of the loop in `parse_registry`, over the entries so far. -/
def readItem (index : ℕ) (item : Toml) (entries : List ModelEntry) (errors : List String) :
    Except PyExc (List ModelEntry × List String) := do
  let label ← entryLabel py index item
  let (entry, s) ← (readEntry py label).run (Section.new label (some item) errors)
  if entry.id ∈ entries.map ModelEntry.id then
    return (entries, s.errors ++ ["[" ++ label ++ "] id: listed twice"])
  else
    let space ← spaceProblems py label entry
    return (if entry.id = "" then entries else entries ++ [entry], s.errors ++ space)

def readItems : ℕ → List Toml → List ModelEntry → List String →
    Except PyExc (List ModelEntry × List String)
  | _, [], entries, errors => return (entries, errors)
  | index, item :: items, entries, errors => do
    let (entries, errors) ← readItem py index item entries errors
    readItems (index + 1) items entries errors

/-- The entries that the document describes, and all problems. -/
def readRegistry (data : List (String × Toml)) : Except PyExc (List ModelEntry × List String) := do
  let unknown ← (Reader.unknown (data.map Prod.fst) ["model"]).mapM fun key => do
    return "unknown top-level key " ++ (← pyRepr py (some (.str key))) ++
      " (entries are [[model]] tables)"
  match (data.lookup "model").getD (.array []) with
  | .array raw => readItems py 0 raw [] unknown
  | _ => return ([], unknown ++ ["model: expected [[model]] tables"])

/-- The text of the `ConfigError` for an invalid registry. -/
def invalidRegistry (path : String) (errors : List String) : String :=
  "invalid model registry " ++ path ++ ":\n" ++ "\n".intercalate (errors.map fun e => "  - " ++ e)

/-- `parse_registry`: the entries, by their ids in the order of the document. -/
def parseRegistry (path : String) (data : List (String × Toml)) :
    Except (Raised String) (List ModelEntry) :=
  match readRegistry py data with
  | .error x => .error (.builtin x)
  | .ok (entries, []) => .ok entries
  | .ok (_, errors) => .error (.own (invalidRegistry path errors))

end

end AgentLab.Config
