import AgentLab.Config.DiskSpace
import AgentLab.Config.Entries
import AgentLab.Config.TomlText

/-!
# Writing the registry

`write_entry`: the registry is read, an entry is set, and all entries are written again, in the
order of their ids. What is written is read again before it takes the place of the old file.

A rendered registry is read as the tables of its entries, unless a description or the name of a file
has a control character, which `_toml_string` does not escape (`readToml_rendered`).
-/

namespace AgentLab.Config

open Python

/-! ## Rendering -/

def headerLines : List String :=
  ["# Model registry (design sections 3.2 and 8.2).", "#",
    "# Generated by `alab models lock <id> --repo <owner/name>`; do not edit hashes by",
    "# hand. `alab pull <id>` downloads exactly these files at this commit into",
    "# var/models/<id>/ and verifies every sha256.", "#",
    "# disk_space uses binary units (1GB = 1024^3 bytes) and covers all files."]

def HEADER : String := "\n".intercalate headerLines ++ "\n"

/-- `value.replace(c, new)` for a single character. -/
def replaceChar (c : Char) (new value : String) : String :=
  String.ofList (value.toList.flatMap fun d => if d = c then new.toList else [d])

/-- `_toml_string`. -/
def tomlString (value : String) : String :=
  "\"" ++ replaceChar '"' "\\\"" (replaceChar '\\' "\\\\" value) ++ "\""

/-- `f"{n}"`; from 4301 digits on Python refuses. -/
def intText (n : ℕ) : Except PyExc String :=
  if 4300 < (Nat.toDigits 10 n).length then .error .valueError else .ok (toString n)

/-- The line of a file. -/
def renderFile (f : ModelFile) : Except PyExc String := do
  return "  \x7b name = " ++ tomlString f.name ++ ", size = " ++ (← intText f.size) ++
    ", sha256 = " ++
    tomlString f.sha256 ++ " \x7d,"

/-- `render_entry`, with at most `fuel` rounds of the loop in `disk_space_for`. -/
def renderEntry (fuel : ℕ) (entry : ModelEntry) : Except PyExc (Option String) := do
  match ← diskSpaceFor fuel entry.totalSize with
  | none => return none
  | some space =>
    let files ← entry.files.mapM renderFile
    let lines := ["[[model]]", "id = " ++ tomlString entry.id,
      "description = " ++ tomlString entry.description, "repo = " ++ tomlString entry.repo,
      "revision = " ++ tomlString entry.revision, "disk_space = " ++ tomlString space,
      "files = ["] ++
      files ++ ["]"]
    return some ("\n".intercalate lines ++ "\n")

/-- The entries, each after an empty line. -/
def renderEntries (fuel : ℕ) : List ModelEntry → Except PyExc (Option String)
  | [] => return some ""
  | entry :: entries => do
    match ← renderEntry fuel entry with
    | none => return none
    | some text => do return (← renderEntries fuel entries).map fun rest => "\n" ++ text ++ rest

/-! ## Writing -/

/-- `registry[entry.id] = entry`, which keeps the place of an entry that is replaced. -/
def setEntry (registry : List ModelEntry) (entry : ModelEntry) : List ModelEntry :=
  if entry.id ∈ registry.map ModelEntry.id then
    registry.map fun e => if e.id = entry.id then entry else e
  else registry ++ [entry]

/-- The entries in the order of `sorted(registry)`. -/
def sortedEntries (registry : List ModelEntry) : List ModelEntry :=
  registry.mergeSort fun a b => a.id ≤ b.id

inductive WriteFault
  | configError (text : String)
  | tomlDecodeError (text : String)
  deriving DecidableEq

/-- A `ConfigError` of the functions called. -/
def configFault {α : Type} : Except (Raised String) α → Except (Raised WriteFault) α
  | .ok a => .ok a
  | .error (.own text) => .error (.own (.configError text))
  | .error (.builtin x) => .error (.builtin x)

def builtinFault {α : Type} : Except PyExc α → Except (Raised WriteFault) α
  | .ok a => .ok a
  | .error x => .error (.builtin x)

/-- `tomllib.loads`, and its exception. -/
def loadsFault (loads : Parser) (text : String) :
    Except (Raised WriteFault) (List (String × Toml)) :=
  match loads text with
  | .ok data => .ok data
  | .error exc => .error (.own (.tomlDecodeError exc))

/-- The entries of the file, if there is one. -/
def currentRegistry (py : Texts) (loads : Parser) (path : String) :
    Option FileRead → Except (Raised String) (List ModelEntry)
  | none => .ok []
  | some file => loadRegistry py loads path file

/-- `write_entry`: the bytes of the new file; `none` where the fuel runs out. -/
def writeEntry (py : Texts) (loads : Parser) (fuel : ℕ) (path : String) (file : Option FileRead)
    (entry : ModelEntry) : Except (Raised WriteFault) (Option (List UInt8)) := do
  let registry ← configFault (currentRegistry py loads path file)
  match ← builtinFault (renderEntries fuel (sortedEntries (setEntry registry entry))) with
  | none => return none
  | some body =>
    let text := HEADER ++ body
    let _ ← configFault (parseRegistry py path (← loadsFault loads text))
    return some (utf8 text.toList)

/-! ## The text of an entry -/

theorem toList_tomlString (value : String) :
    (tomlString value).toList = '"' :: (escaped value.toList ++ ['"']) := by
  have hreplace : (replaceChar '"' "\\\"" (replaceChar '\\' "\\\\" value)).toList =
      escaped value.toList := by
    unfold replaceChar escaped
    simp only [String.toList_ofList, List.flatMap_assoc]
    refine List.flatMap_congr fun c _ => ?_
    by_cases hslash : c = '\\'
    · subst hslash
      rfl
    · rw [if_neg hslash, List.flatMap_singleton]
      by_cases hquote : c = '"'
      · subst hquote
        rfl
      · rw [if_neg hquote, if_neg (not_or.2 ⟨hquote, hslash⟩)]
  rw [tomlString, String.toList_append, String.toList_append, hreplace]
  rfl

theorem toList_lines (line : String) (lines : List String) :
    ("\n".intercalate (line :: lines)).toList =
      line.toList ++ lines.flatMap fun l => '\n' :: l.toList := by
  induction lines generalizing line with
  | nil => simp
  | cons next lines ih => simp [String.intercalate_cons_cons, ih]

/-- The inline table of a file, without its brace. -/
def fileBody (f : ModelFile) : List Char :=
  ' ' :: (stringPair "name" f.name ++ ", ".toList ++ numberPair "size" f.size ++ ", ".toList ++
    stringPair "sha256" f.sha256 ++ " \x7d".toList)

/-- A size that is written as a number. -/
def Short (f : ModelFile) : Prop := (Nat.toDigits 10 f.size).length ≤ 4300

theorem renderFile_ok {f : ModelFile} (hf : Short f) :
    ∃ line, renderFile f = .ok line ∧ '\n' :: line.toList = itemText (fileBody f) := by
  have hint : intText f.size = .ok (toString f.size) := if_neg (not_lt.2 hf)
  have hdigits : (toString f.size).toList = Nat.toDigits 10 f.size := Nat.toList_repr
  unfold renderFile
  rw [hint]
  refine ⟨_, rfl, ?_⟩
  simp only [String.toList_append, toList_tomlString, hdigits]
  simp [itemText, fileBody, stringPair, numberPair]

theorem renderFiles_ok {files : List ModelFile} (hfiles : ∀ f ∈ files, Short f) :
    ∃ lines, files.mapM renderFile = .ok lines ∧
      (lines.flatMap fun l => '\n' :: l.toList) = files.flatMap fun f => itemText (fileBody f) := by
  induction files with
  | nil => exact ⟨[], rfl, rfl⟩
  | cons f files ih =>
    obtain ⟨hf, hfiles⟩ := List.forall_mem_cons.1 hfiles
    obtain ⟨line, hline, htext⟩ := renderFile_ok hf
    obtain ⟨lines, hlines, htexts⟩ := ih hfiles
    refine ⟨line :: lines, ?_, ?_⟩
    · rw [List.mapM_cons, hline, hlines]
      rfl
    · rw [List.flatMap_cons, List.flatMap_cons, htext, htexts]

/-- The text of an entry, with its disk space. -/
def entryText (space : String) (e : ModelEntry) : List Char :=
  tableLine "model" ++
    (stringPair "id" e.id ++ '\n' :: (stringPair "description" e.description ++ '\n' ::
    (stringPair "repo" e.repo ++ '\n' :: (stringPair "revision" e.revision ++ '\n' ::
      (stringPair "disk_space" space ++ '\n' :: (arrayLine "files" ++
        ((e.files.flatMap fun f => itemText (fileBody f)) ++ "\n]\n".toList)))))))

theorem renderEntry_ok {fuel : ℕ} {e : ModelEntry} {space : String}
    (hspace : diskSpaceFor fuel e.totalSize = .ok (some space)) (hfiles : ∀ f ∈ e.files, Short f) :
    ∃ text, renderEntry fuel e = .ok (some text) ∧ text.toList = entryText space e := by
  obtain ⟨lines, hlines, htexts⟩ := renderFiles_ok hfiles
  unfold renderEntry
  rw [hspace, Except.ok_bind]
  dsimp only
  rw [hlines, Except.ok_bind]
  refine ⟨_, rfl, ?_⟩
  rw [String.toList_append, List.cons_append, List.cons_append, toList_lines, List.flatMap_append,
    List.flatMap_append, htexts]
  simp [entryText, tableLine, arrayLine, toList_tomlString, stringPair]

/-! ## Reading what is written -/

def fileTable (f : ModelFile) : List (String × Toml) :=
  [("name", .str f.name), ("size", .int f.size), ("sha256", .str f.sha256)]

def entryTable (space : String) (e : ModelEntry) : List (String × Toml) :=
  [("id", .str e.id), ("description", .str e.description), ("repo", .str e.repo),
    ("revision", .str e.revision), ("disk_space", .str space),
    ("files", .array (e.files.map fun f => .table (fileTable f)))]

/-- The string is written and read without a change. -/
def PlainText (value : String) : Prop := value ≠ "" ∧ isBroken value = false

/-- What the checks of a file say of its text. -/
structure ModelFile.Printed (f : ModelFile) : Prop where
  name : f.name ≠ ""
  short : Short f
  sha256 : PlainText f.sha256

structure ModelEntry.Printed (e : ModelEntry) : Prop where
  id : PlainText e.id
  description : e.description ≠ ""
  repo : PlainText e.repo
  revision : PlainText e.revision
  files : ∀ f ∈ e.files, f.Printed

/-- An entry with a string that is not read again. -/
def ModelEntry.broken (e : ModelEntry) : Bool :=
  isBroken e.description || e.files.any fun f => isBroken f.name

theorem readPairs_file {f : ModelFile} (hf : f.Printed) (fuel : ℕ) (rest : List Char) :
    readPairs (fuel + 3) [] (fileBody f ++ rest) =
      if isBroken f.name then .error .invalid else .ok (fileTable f, rest) := by
  have hname : isBareKey "name" = true := by decide
  have hsize : isBareKey "size" = true := by decide
  have hsha : isBareKey "sha256" = true := by decide
  obtain ⟨d, ds, hds⟩ := List.exists_cons_of_ne_nil (@Nat.toDigits_ne_nil f.size 10)
  have hdigit : d ≠ ' ' := by
    rintro rfl
    have hd := Nat.isDigit_of_mem_toDigits (by decide) (by decide) (hds ▸ List.mem_cons_self)
    exact absurd hd (by decide)
  have hbody : fileBody f ++ rest = ' ' :: ("name".toList ++ ' ' :: '=' :: ' ' :: '"' ::
      (escaped f.name.toList ++ '"' :: ',' :: ' ' :: ("size".toList ++ ' ' :: '=' :: ' ' ::
        (Nat.toDigits 10 f.size ++ ',' :: ' ' :: ("sha256".toList ++ ' ' :: '=' :: ' ' :: '"' ::
          (escaped f.sha256.toList ++ '"' :: ' ' :: '\x7d' :: rest)))))) := by
    simp [fileBody, stringPair, numberPair]
  have hequals : ∀ {key : String}, isBareKey key = true → ∀ {c : Char}, c ≠ ' ' → ∀ cs : List Char,
      readTomlEquals (skipSpaces (' ' :: (key.toList ++ ' ' :: '=' :: ' ' :: c :: cs))) =
        .ok (key, c :: cs) := fun hkey _ hc cs => by
    rw [skipSpaces_key hkey, readTomlEquals_bare hkey hc]
  rw [hbody]
  split_ifs with hbroken
  · refine readPairs_invalid _ (hequals hname (by decide) _) ?_
    rw [readScalar_string hf.name, if_pos hbroken]
  · rw [readPairs_comma _ (hequals hname (by decide) _)
      (by rw [readScalar_string hf.name, if_neg hbroken]) List.not_mem_nil]
    have hnumber : readTomlEquals (skipSpaces (' ' :: ("size".toList ++ ' ' :: '=' :: ' ' ::
        (Nat.toDigits 10 f.size ++ ',' :: ' ' :: ("sha256".toList ++ ' ' :: '=' :: ' ' :: '"' ::
          (escaped f.sha256.toList ++ '"' :: ' ' :: '\x7d' :: rest)))))) =
        .ok ("size", Nat.toDigits 10 f.size ++ ',' :: ' ' ::
          ("sha256".toList ++ ' ' :: '=' :: ' ' ::
          '"' :: (escaped f.sha256.toList ++ '"' :: ' ' :: '\x7d' :: rest))) := by
      rw [hds]
      exact hequals hsize hdigit _
    rw [readPairs_comma _ hnumber (readScalar_number hf.short rfl _) (by simp),
      readPairs_brace _ (hequals hsha (by decide) _)
        (by rw [readScalar_string hf.sha256.1, hf.sha256.2, if_neg Bool.false_ne_true]) (by simp)]
    rfl

section

variable (ts : List (List (String × Toml))) (rest : List Char)

theorem readLines_files (t : List (String × Toml)) {files : List ModelFile}
    (hfiles : ∀ f ∈ files, f.Printed) (items : List Toml) :
    readLines (inArray "model" ts t "files" items)
        ((files.flatMap fun f => itemText (fileBody f)) ++ rest) =
      if files.any fun f => isBroken f.name then .error .invalid
      else readLines
        (inArray "model" ts t "files" (items ++ files.map fun f => .table (fileTable f))) rest := by
  induction files generalizing items with
  | nil => simp
  | cons f files ih =>
    obtain ⟨hf, hfiles⟩ := List.forall_mem_cons.1 hfiles
    have hlength : 3 ≤ (fileBody f).length := by simp [fileBody]; omega
    have hpairs : ∀ rest fuel, (fileBody f).length < fuel → readPairs fuel [] (fileBody f ++ rest) =
        if isBroken f.name then .error .invalid
        else .ok (fileTable f, rest) := fun rest fuel hfuel => by
      obtain ⟨fuel, rfl⟩ := Nat.exists_eq_add_of_le' (hlength.trans hfuel.le)
      exact readPairs_file hf fuel rest
    rw [List.flatMap_cons, List.append_assoc, List.any_cons]
    cases hbroken : isBroken f.name with
    | true =>
      rw [Bool.true_or, if_pos rfl]
      refine readLines_item_invalid fun fuel hfuel => ?_
      rw [hpairs _ fuel hfuel, hbroken, if_pos rfl]
    | false =>
      rw [Bool.false_or, readLines_item fun fuel hfuel => by
        rw [hpairs _ fuel hfuel, hbroken, if_neg Bool.false_ne_true], ih hfiles, List.map_cons,
        List.append_assoc, List.singleton_append]

theorem readLines_entry {space : String} {e : ModelEntry} (he : e.Printed)
    (hspace : PlainText space) :
    readLines (afterTables "model" ts) (entryText space e ++ rest) =
      if e.broken then .error .invalid
      else readLines (afterTables "model" (ts ++ [entryTable space e])) rest := by
  have hstring : ∀ {key value : String}, isBareKey key = true → PlainText value →
      ∀ {t : List (String × Toml)}, key ∉ t.map Prod.fst → ∀ rest,
        readLines (inTable "model" ts t) (stringPair key value ++ '\n' :: rest) =
          readLines (inTable "model" ts (t ++ [(key, .str value)])) rest :=
    fun hkey hvalue _ hnew rest => by
      rw [readLines_string hkey hvalue.1 hnew, hvalue.2, if_neg Bool.false_ne_true]
  unfold entryText
  simp only [List.append_assoc, List.cons_append]
  rw [readLines_table (by decide), hstring (by decide) he.id List.not_mem_nil,
    readLines_string (by decide) he.description (by simp)]
  unfold ModelEntry.broken
  cases hbroken : isBroken e.description with
  | true => rfl
  | false =>
    rw [if_neg Bool.false_ne_true, Bool.false_or, hstring (by decide) he.repo (by simp),
      hstring (by decide) he.revision (by simp), hstring (by decide) hspace (by simp),
      readLines_array (by decide), readLines_files _ _ _ he.files]
    split_ifs
    · rfl
    · rw [readLines_close (by simp), afterTables_concat]
      rfl

end

/-! ## The text of the registry -/

section

variable {space : ModelEntry → String} {entries : List ModelEntry}

/-- The texts of the entries. -/
def entriesText (space : ModelEntry → String) (entries : List ModelEntry) : List Char :=
  entries.flatMap fun e => '\n' :: entryText (space e) e

theorem renderEntries_ok {fuel : ℕ}
    (hspace : ∀ e ∈ entries, diskSpaceFor fuel e.totalSize = .ok (some (space e)))
    (hprinted : ∀ e ∈ entries, e.Printed) :
    ∃ text, renderEntries fuel entries = .ok (some text) ∧
      text.toList = entriesText space entries := by
  induction entries with
  | nil => exact ⟨"", rfl, rfl⟩
  | cons e entries ih =>
    obtain ⟨he, hspace⟩ := List.forall_mem_cons.1 hspace
    obtain ⟨hp, hprinted⟩ := List.forall_mem_cons.1 hprinted
    obtain ⟨text, hrender, htext⟩ := renderEntry_ok he fun f hf => (hp.files f hf).short
    obtain ⟨rest, hrest, htexts⟩ := ih hspace hprinted
    refine ⟨"\n" ++ text ++ rest, ?_, ?_⟩
    · unfold renderEntries
      rw [hrender, Except.ok_bind]
      dsimp only
      rw [hrest]
      rfl
    · rw [String.toList_append, String.toList_append, htext, htexts]
      rfl

theorem readLines_entries (hprinted : ∀ e ∈ entries, e.Printed)
    (hspace : ∀ e ∈ entries, PlainText (space e)) (ts : List (List (String × Toml))) :
    readLines (afterTables "model" ts) (entriesText space entries) =
      if entries.any ModelEntry.broken then .error .invalid
      else .ok (afterTables "model" (ts ++ entries.map fun e => entryTable (space e) e)).data := by
  induction entries generalizing ts with
  | nil =>
    have harray := array_afterTables "model" ts
    unfold entriesText
    rw [List.flatMap_nil, readLines, harray, List.map_nil, List.append_nil]
    rfl
  | cons e entries ih =>
    obtain ⟨hp, hprinted⟩ := List.forall_mem_cons.1 hprinted
    obtain ⟨hs, hspace⟩ := List.forall_mem_cons.1 hspace
    have htext : entriesText space (e :: entries) =
        '\n' :: (entryText (space e) e ++ entriesText space entries) := by
      simp [entriesText]
    rw [htext, readLines_blank (array_afterTables "model" ts), readLines_entry ts _ hp hs,
      List.any_cons]
    cases e.broken with
    | true => rfl
    | false =>
      rw [if_neg Bool.false_ne_true, ih hprinted hspace, Bool.false_or, List.map_cons,
        List.append_assoc, List.singleton_append]

/-- A line of the header. -/
def isComment (line : String) : Bool :=
  line.toList.head? = some '#' && line.toList.tail.all fun c => c ≠ '\n' && !isControl c

theorem readLines_comments {s : TomlState} (hs : s.array = none) {lines : List String}
    (hlines : ∀ l ∈ lines, isComment l = true) (rest : List Char) :
    readLines s ((lines.flatMap fun l => l.toList ++ ['\n']) ++ rest) = readLines s rest := by
  induction lines with
  | nil => rfl
  | cons line lines ih =>
    obtain ⟨hline, hlines⟩ := List.forall_mem_cons.1 hlines
    obtain ⟨hhead, hall⟩ := Bool.and_eq_true_iff.1 hline
    obtain ⟨text, htext⟩ := List.head?_eq_some_iff.1 (of_decide_eq_true hhead)
    rw [htext, List.tail_cons] at hall
    have heq : ((line :: lines).flatMap fun l => l.toList ++ ['\n']) ++ rest =
        '#' :: (text ++ '\n' :: ((lines.flatMap fun l => l.toList ++ ['\n']) ++ rest)) := by
      simp [htext]
    rw [heq, readLines_comment hs hall, ih hlines]

theorem toList_joined (line : String) (lines : List String) :
    ("\n".intercalate (line :: lines) ++ "\n").toList =
      (line :: lines).flatMap fun l => l.toList ++ ['\n'] := by
  rw [String.toList_append, toList_lines]
  induction lines generalizing line with
  | nil => simp
  | cons next lines ih =>
    rw [List.flatMap_cons, List.flatMap_cons, ← ih]
    simp

/-- The document of some tables. -/
def tablesData (ts : List (List (String × Toml))) : List (String × Toml) :=
  if ts = [] then [] else [("model", .array (ts.map .table))]

/-- **What the text of a registry is read as.** -/
theorem readToml_rendered {body : String} (hbody : body.toList = entriesText space entries)
    (hprinted : ∀ e ∈ entries, e.Printed) (hspace : ∀ e ∈ entries, PlainText (space e)) :
    readToml (HEADER ++ body) =
      if entries.any ModelEntry.broken then .error .invalid
      else .ok (tablesData (entries.map fun e => entryTable (space e) e)) := by
  have hheader : HEADER.toList = headerLines.flatMap fun l => l.toList ++ ['\n'] :=
    toList_joined _ _
  have hlines : ∀ l ∈ headerLines, isComment l = true := List.all_eq_true.1 (by decide +kernel)
  have hread := readLines_entries hprinted hspace []
  unfold readToml
  rw [String.toList_append, hheader, hbody, readLines_comments rfl hlines]
  refine hread.trans ?_
  rw [data_afterTables, List.nil_append]
  rfl

end

end AgentLab.Config
