import AgentLab.Config.Registry

/-!
# Configuration files

`load_profile` and `load_registry` from the bytes of a file on. `tomllib.load` decodes the bytes and
parses the text; the parser is a parameter, with its own exception, the `TOMLDecodeError`.
-/

namespace AgentLab.Config

open Python

/-- `bytes.decode`. -/
def decodeUtf8 (bytes : List UInt8) : Except PyExc String :=
  match String.fromUTF8? ⟨bytes.toArray⟩ with
  | some text => .ok text
  | none => .error .unicodeDecodeError

/-- The parser of `tomllib`, which gives the text of its `TOMLDecodeError`. -/
abbrev Parser := String → Except String (List (String × Toml))

/-- What opening and reading a file comes to. -/
inductive FileRead
  | osError (exc : String)
  | bytes (content : List UInt8)

section

variable (py : Texts) (loads : Parser)

/-- `tomllib.load`, and the errors that are caught. -/
def loadToml (path : String) : FileRead → Except (Raised String) (List (String × Toml))
  | .osError exc => .error (.own ("cannot read " ++ path ++ ": " ++ exc))
  | .bytes content =>
    match decodeUtf8 content with
    | .error x => .error (.builtin x)
    | .ok text =>
      match loads text with
      | .error exc => .error (.own ("cannot parse " ++ path ++ ": " ++ exc))
      | .ok data => .ok data

/-- `_PROFILE_NAME_RE.fullmatch`. -/
def profileNameRe (name : String) : Bool :=
  name.toList.head?.any Char.isAlphanum && name.toList.all isNameChar

/-- The directory of the profiles: its path, their names, and the file of a name. -/
structure ProfilesDir where
  path : String
  names : List String
  file : String → Option FileRead

/-- `load_profile`. -/
def loadProfile (dir : ProfilesDir) (name : String) : Except (Raised String) Profile :=
  if profileNameRe name then
    let path := dir.path ++ "/" ++ name ++ ".toml"
    match dir.file name with
    | none =>
      let names := ", ".intercalate dir.names
      .error (.own ("profile \"" ++ name ++ "\" not found at " ++ path ++ " (available: " ++
        (if names = "" then "none" else names) ++ ")"))
    | some file => do parseProfile py name path (← loadToml loads path file)
  else .error (.own ("invalid profile name \"" ++ name ++ "\""))

/-- `load_registry`. -/
def loadRegistry (path : String) (file : FileRead) : Except (Raised String) (List ModelEntry) := do
  parseRegistry py path (← loadToml loads path file)

end

end AgentLab.Config
