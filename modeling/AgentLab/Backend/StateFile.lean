import AgentLab.Python.JsonText

/-!
# The state file of the backend

`Record.load` and `Record.save`, from the bytes of the file on. The record is to be found whatever
the other fields hold (`Shows`), and one that is saved is to come back (`Restored`);
`record_kept_iff` says when that is so: what hides a process, or raises, is a file nested too
deeply, an integer too long for `json.loads` anywhere in it, and a start time that is an integer too
large for a float; what changes on the way is a text with a pair of surrogates.
-/

namespace AgentLab.Backend.StateFile

open Python

structure Record where
  pid : ℤ
  port : ℤ
  profile : Str
  model : Str
  startedAt : PyFloat
  deriving DecidableEq

/-- Whether `except OSError, ValueError` catches it. -/
def isCaught : PyExc → Bool
  | .osError | .valueError | .unicodeEncodeError | .unicodeDecodeError => true
  | _ => false

/-- `json.loads(path.read_text())`, for the bytes of the file, if it can be read. -/
def readData (room : ℕ) : Option (List UInt8) → Except PyExc Json
  | none => .error .osError
  | some content => do loads room (universalNewlines (← decodeStrict content))

/-- The pid, if it names a process. -/
def pidOf (data : Dict Json) : Option ℤ :=
  match getD data "pid" with
  | .int pid => if pid ≤ 0 then none else some pid
  | _ => none

/-! ### The kinds of `field` -/

def isInt? : Json → Option ℤ
  | .int n => some n
  | _ => none

def isStr? : Json → Option Str
  | .str s => some s
  | _ => none

/-- `int | float`. -/
def isReal? : Json → Option (ℤ ⊕ PyFloat)
  | .int n => some (.inl n)
  | .float f => some (.inr f)
  | _ => none

/-- `field`: the value if it is of the kind, which no boolean is. -/
def field {α : Type} (data : Dict Json) (name : Str) (kind : Json → Option α) (default : α) : α :=
  (kind (getD data name)).getD default

/-- `float(x)`. -/
def toFloat : ℤ ⊕ PyFloat → Except PyExc PyFloat
  | .inl n => PyFloat.ofInt n
  | .inr f => .ok f

def Record.load (room : ℕ) (file : Option (List UInt8)) : Except PyExc (Option Record) :=
  match readData room file with
  | .error x => if isCaught x then .ok none else .error x
  | .ok (.obj data) =>
    match pidOf data with
    | none => .ok none
    | some pid => do
      let startedAt ← toFloat (field data "started_at" isReal? (.inr (.finite 0)))
      return some
        { pid
          port := field data "port" isInt? 0
          profile := field data "profile" isStr? "unknown"
          model := field data "model" isStr? "unknown"
          startedAt }
  | .ok _ => .ok none

def Record.asdict (r : Record) : Dict Json :=
  [("pid", .int r.pid), ("port", .int r.port), ("profile", .str r.profile), ("model", .str r.model),
    ("started_at", .float r.startedAt)]

/-- `save`: the bytes that `write_json` leaves in the file. The text is ASCII. -/
def Record.save (r : Record) : Except PyExc (List UInt8) := do
  return encode ((← dumps (.obj r.asdict)) ++ str "\n")

/-! ## What it is to do -/

/-- The file holds a JSON object with this pid. -/
structure Holds (file : Option (List UInt8)) (data : Dict Json) (pid : ℤ) (text : Str) : Prop where
  decoded : ∃ content bytesText, file = some content ∧ decodeStrict content = .ok bytesText ∧
    universalNewlines bytesText = text
  isJson : IsJson text (.obj data)
  named : pidOf data = some pid

/-- The process that the file names is found, and nothing is raised. -/
structure Shows (room : ℕ) (file : Option (List UInt8)) : Prop where
  found : ∀ data pid text, Holds file data pid text →
    ∃ r, Record.load room file = .ok (some r) ∧ r.pid = pid
  absent : (∀ data pid text, ¬ Holds file data pid text) → Record.load room file = .ok none

/-- There is room for the containers of the file, and if it names a process, no integer in it is too
long, and its start time is no integer too large. -/
structure Loadable (room : ℕ) (file : Option (List UInt8)) : Prop where
  shallow : readData room file ≠ .error .recursionError
  short : ∀ data pid text, Holds file data pid text → DigitsWithin 4300 (tokens text)
  start : ∀ data pid text n, Holds file data pid text → getD data "started_at" = .int n →
    ∃ x, PyFloat.ofInt n = .ok x

/-- What is saved is loaded again. -/
def Restored (room : ℕ) (r : Record) : Prop :=
  ∃ content, r.save = .ok content ∧ Record.load room (some content) = .ok (some r)

/-- The integers can be written, and no two surrogates of a text make a pair. -/
structure Storable (r : Record) : Prop where
  pid : (natStr r.pid.natAbs).length ≤ 4300
  port : (natStr r.port.natAbs).length ≤ 4300
  profile : Unpaired r.profile
  model : Unpaired r.model

/-! ## Loading -/

variable {room : ℕ} {file : Option (List UInt8)} {data : Dict Json} {pid : ℤ} {text : Str}

theorem readData_some (content : List UInt8) : readData room (some content) =
    decodeStrict content >>= fun text => loads room (universalNewlines text) := rfl

theorem readData_error {x : PyExc} (h : readData room file = .error x) :
    isCaught x = true ∨ x = .recursionError := by
  cases file with
  | none =>
    cases h
    exact .inl rfl
  | some content =>
    rw [readData_some] at h
    cases hdecode : decodeStrict content with
    | error x' =>
      rw [hdecode] at h
      obtain rfl : x' = x := Except.error.inj h
      have hx : x' = .unicodeDecodeError := by
        unfold decodeStrict at hdecode
        split at hdecode
        · cases hdecode
        · exact (Except.error.inj hdecode).symm
      exact .inl (hx ▸ rfl)
    | ok text =>
      rw [hdecode] at h
      obtain rfl | rfl := loads_error h
      · exact .inl rfl
      · exact .inr rfl

theorem readData_eq_ok {v : Json} : readData room file = .ok v ↔
    ∃ content text, file = some content ∧ decodeStrict content = .ok text ∧
      loads room (universalNewlines text) = .ok v := by
  cases file with
  | none => exact ⟨nofun, fun ⟨_, _, h, _⟩ => nomatch h⟩
  | some content =>
    rw [readData_some, Except.bind_eq_ok]
    constructor
    · rintro ⟨text, htext, hv⟩
      exact ⟨content, text, rfl, htext, hv⟩
    · rintro ⟨_, text, hfile, htext, hv⟩
      obtain rfl := Option.some.inj hfile
      exact ⟨text, htext, hv⟩

variable (room) in
/-- What is read of a file that names a process. -/
theorem Holds.readData (h : Holds file data pid text) :
    readData room file = .ok (.obj data) ∧ DigitsWithin 4300 (tokens text) ∨
      ∃ x, readData room file = .error x ∧
        (DigitsWithin 4300 (tokens text) → x = .recursionError) := by
  obtain ⟨content, bytesText, rfl, hdecode, rfl⟩ := h.decoded
  have heq : StateFile.readData room (some content) = loads room (universalNewlines bytesText) := by
    rw [readData_some, hdecode, Except.ok_bind]
  rw [heq]
  cases hloads : loads room (universalNewlines bytesText) with
  | ok v =>
    obtain ⟨hv, hdigits⟩ := loads_ok hloads
    exact .inl ⟨congrArg _ (hv.unique h.isJson), hdigits⟩
  | error x =>
    refine .inr ⟨x, rfl, fun hdigits => ?_⟩
    obtain hok | herror | hnot := loads_of_isJson room h.isJson
    · exact nomatch hloads.symm.trans hok
    · exact Except.error.inj (hloads.symm.trans herror)
    · exact absurd hdigits hnot

theorem load_of_error {x : PyExc} (h : readData room file = .error x) :
    Record.load room file = if isCaught x then .ok none else .error x := by
  unfold Record.load
  rw [h]

theorem load_of_obj (h : readData room file = .ok (.obj data)) (hpid : pidOf data = some pid) :
    Record.load room file =
      (toFloat (field data "started_at" isReal? (.inr (.finite 0)))).map fun startedAt => some
        ⟨pid, field data "port" isInt? 0, field data "profile" isStr? "unknown",
          field data "model" isStr? "unknown", startedAt⟩ := by
  unfold Record.load
  rw [h]
  dsimp only
  rw [hpid]
  dsimp only
  cases toFloat (field data "started_at" isReal? (.inr (.finite 0))) <;> rfl

theorem load_of_other {v : Json} (h : readData room file = .ok v)
    (hv : ∀ data pid, v = .obj data → pidOf data ≠ some pid) :
    Record.load room file = .ok none := by
  unfold Record.load
  rw [h]
  cases v with
  | obj data =>
    dsimp only
    cases hpid : pidOf data with
    | none => rfl
    | some pid => exact absurd hpid (hv data pid rfl)
  | _ => rfl

theorem toFloat_started (data : Dict Json) :
    (∃ x, toFloat (field data "started_at" isReal? (.inr (.finite 0))) = .ok x) ↔
      ∀ n, getD data "started_at" = .int n → ∃ x, PyFloat.ofInt n = .ok x := by
  unfold field
  cases getD data "started_at" with
  | int n =>
    constructor
    · rintro hx _ heq
      cases heq
      exact hx
    · exact fun h => h n rfl
  | _ => exact ⟨fun _ _ heq => (nomatch heq), fun _ => ⟨_, rfl⟩⟩

theorem Holds.load (h : Holds file data pid text)
    (hdata : StateFile.readData room file = .ok (.obj data)) :
    (∃ r, Record.load room file = .ok (some r) ∧ r.pid = pid) ↔
      ∀ n, getD data "started_at" = .int n → ∃ x, PyFloat.ofInt n = .ok x := by
  rw [← toFloat_started, load_of_obj hdata h.named]
  cases toFloat (field data "started_at" isReal? (.inr (.finite 0))) with
  | ok startedAt => exact ⟨fun _ => ⟨startedAt, rfl⟩, fun _ => ⟨_, rfl, rfl⟩⟩
  | error x => exact ⟨fun ⟨_, heq, _⟩ => (nomatch heq), fun ⟨_, heq⟩ => (nomatch heq)⟩

/-- A file that names no process. -/
theorem load_absent (habsent : ∀ data pid text, ¬ Holds file data pid text) :
    Record.load room file = .ok none ↔ readData room file ≠ .error .recursionError := by
  cases hdata : readData room file with
  | error x =>
    rw [load_of_error hdata]
    obtain hx | rfl := readData_error hdata
    · rw [hx, if_pos rfl]
      refine ⟨fun _ heq => ?_, fun _ => rfl⟩
      cases heq
      cases hx
    · exact ⟨nofun, fun hne => absurd rfl hne⟩
  | ok v =>
    refine ⟨fun _ => nofun, fun _ => load_of_other hdata ?_⟩
    rintro data pid rfl hpid
    obtain ⟨content, text, hfile, hdecode, hv⟩ := readData_eq_ok.1 hdata
    exact habsent data pid _ ⟨⟨content, text, hfile, hdecode, rfl⟩, (loads_ok hv).1, hpid⟩

theorem shows_iff (room : ℕ) (file : Option (List UInt8)) :
    Shows room file ↔ Loadable room file := by
  by_cases hholds : ∃ data pid text, Holds file data pid text
  · obtain ⟨data₀, pid₀, text₀, h₀⟩ := hholds
    constructor
    · intro hshows
      -- a record is returned only for what `json.loads` has read
      have hread : ∀ {data pid text}, Holds file data pid text →
          readData room file = .ok (.obj data) ∧ DigitsWithin 4300 (tokens text) := by
        intro data pid text h
        obtain hok | ⟨x, hx, -⟩ := h.readData room
        · exact hok
        · obtain ⟨r, hr, -⟩ := hshows.found data pid text h
          rw [load_of_error hx] at hr
          split_ifs at hr
          cases Except.ok.inj hr
      refine ⟨fun hrecursion => (nomatch hrecursion.symm.trans (hread h₀).1), ?_, ?_⟩
      · exact fun data pid text h => (hread h).2
      · exact fun data pid text n h => (h.load (hread h).1).1 (hshows.found data pid text h) n
    · refine fun hloadable => ⟨fun data pid text h => ?_, fun habsent => ?_⟩
      · obtain ⟨hok, -⟩ | ⟨x, hx, hrecursion⟩ := h.readData room
        · exact (h.load hok).2 fun n => hloadable.start data pid text n h
        · obtain rfl := hrecursion (hloadable.short data pid text h)
          exact absurd hx hloadable.shallow
      · exact absurd h₀ (habsent data₀ pid₀ text₀)
  · have habsent : ∀ data pid text, ¬ Holds file data pid text :=
      fun data pid text h => hholds ⟨data, pid, text, h⟩
    constructor
    · intro hshows
      exact ⟨(load_absent habsent).1 (hshows.absent habsent),
        fun data pid text h => absurd h (habsent data pid text),
        fun data pid text _ h => absurd h (habsent data pid text)⟩
    · intro hloadable
      exact ⟨fun data pid text h => absurd h (habsent data pid text),
        fun _ => (load_absent habsent).2 hloadable.shallow⟩

/-! ## Saving -/

variable {r : Record}

/-- A member of the object that is saved. -/
def memberText (name : Str) (value : Str) : Str :=
  newlineIndent 1 ++ quoted name ++ str ": " ++ value

def recordText (r : Record) : Str :=
  0x7B :: (memberText "pid" (intStr r.pid) ++ 0x2C :: (memberText "port" (intStr r.port) ++
    0x2C :: (memberText "profile" (quoted r.profile) ++ 0x2C ::
      (memberText "model" (quoted r.model) ++
      0x2C :: (memberText "started_at" (jsonFloat r.startedAt) ++ [0xA, 0x7D])))))

theorem intText_eq_ok {n : ℤ} {s : Str} :
    intText n = .ok s ↔ (natStr n.natAbs).length ≤ 4300 ∧ s = intStr n := by
  unfold intText
  split_ifs with hlong
  · exact ⟨nofun, fun h => absurd h.1 (not_le.2 hlong)⟩
  · exact ⟨fun h => ⟨not_lt.1 hlong, (Except.ok.inj h).symm⟩, fun h => congrArg _ h.2.symm⟩

theorem dumps_asdict {s : Str} : dumps (.obj r.asdict) = .ok s ↔
    (natStr r.pid.natAbs).length ≤ 4300 ∧ (natStr r.port.natAbs).length ≤ 4300 ∧
    s = recordText r := by
  unfold dumps Record.asdict
  cases hpid : intText r.pid with
  | error x =>
    have hlong : ¬ (natStr r.pid.natAbs).length ≤ 4300 := fun h => by
      cases hpid.symm.trans (intText_eq_ok.2 ⟨h, rfl⟩)
    simp only [dumpsAt, hpid]
    exact iff_of_false (fun h => by cases h) fun h => hlong h.1
  | ok pidText =>
    obtain ⟨hpid', rfl⟩ := intText_eq_ok.1 hpid
    cases hport : intText r.port with
    | error x =>
      have hlong : ¬ (natStr r.port.natAbs).length ≤ 4300 := fun h => by
        cases hport.symm.trans (intText_eq_ok.2 ⟨h, rfl⟩)
      simp only [dumpsAt, dumpsMembers, hpid, hport, Except.ok_bind]
      exact iff_of_false (fun h => by cases h) fun h => hlong h.2.1
    | ok portText =>
      obtain ⟨hport', rfl⟩ := intText_eq_ok.1 hport
      have hzero : newlineIndent 0 = [0xA] := rfl
      have htext : dumpsAt 0 (.obj r.asdict) = .ok (recordText r) := by
        simp only [Record.asdict, dumpsAt, dumpsMembers, hpid, hport, Except.ok_bind, pure,
          Except.pure]
        unfold recordText memberText
        simp only [hzero, List.cons_append, List.append_assoc, List.nil_append, Nat.zero_add]
      exact ⟨fun h => ⟨hpid', hport', Except.ok.inj (h.symm.trans htext)⟩,
        fun h => htext.trans (congrArg _ h.2.2.symm)⟩

theorem isAsciiText_memberText (name : Str) {value : Str}
    (hvalue : ∀ c ∈ value, isAsciiText c = true) :
    ∀ c ∈ memberText name value, isAsciiText c = true := by
  unfold memberText
  rw [List.forall_mem_append, List.forall_mem_append, List.forall_mem_append]
  exact ⟨⟨⟨isAsciiText_newlineIndent 1, isAsciiText_quoted name⟩, List.all_eq_true.1 (by decide)⟩,
    hvalue⟩

theorem isAsciiText_recordText (r : Record) :
    ∀ c ∈ recordText r ++ str "\n", isAsciiText c = true := by
  unfold recordText
  simp only [List.cons_append, List.append_assoc, List.forall_mem_cons, List.forall_mem_append]
  exact ⟨by decide, isAsciiText_memberText _ (isAsciiText_intStr _),
    by decide, isAsciiText_memberText _ (isAsciiText_intStr _),
    by decide, isAsciiText_memberText _ (isAsciiText_quoted _),
    by decide, isAsciiText_memberText _ (isAsciiText_quoted _),
    by decide, isAsciiText_memberText _ (isAsciiText_jsonFloat _),
    by decide, by decide, List.forall_mem_nil _, List.all_eq_true.1 (by decide)⟩

theorem tokens_memberText (name value : Str) : tokens (memberText name value) =
    .string (joinUnits (name.flatMap unitsOf)) :: .colon :: tokens value := by
  have htext : memberText name value =
      newlineIndent 1 ++ (quoted name ++ 0x3A :: 0x20 :: value) := by
    unfold memberText
    simp only [List.append_assoc]
    rfl
  rw [htext, tokens_newlineIndent, tokens_quoted, tokens_punctuation rfl, tokens_space (by decide)]

theorem memberText_append (name value rest : Str) :
    memberText name value ++ rest = memberText name (value ++ rest) := List.append_assoc _ _ _

theorem tokens_recordText (hstart : ∀ q, r.startedAt = .finite q → IsFloat q) :
    tokens (recordText r ++ str "\n") =
      [.lbrace, .string "pid", .colon, .int (natStr r.pid.natAbs).length r.pid, .comma,
        .string "port", .colon, .int (natStr r.port.natAbs).length r.port, .comma,
        .string "profile", .colon, .string (joinUnits (r.profile.flatMap unitsOf)), .comma,
        .string "model", .colon, .string (joinUnits (r.model.flatMap unitsOf)), .comma,
        .string "started_at", .colon, .literal (.float r.startedAt), .rbrace] := by
  have hcomma : ∀ s, EndsNumber (0x2C :: s) := by
    rintro s c hc
    obtain rfl := Option.some.inj hc
    rfl
  have hnewline : ∀ s, EndsNumber (0xA :: s) := by
    rintro s c hc
    obtain rfl := Option.some.inj hc
    rfl
  have hkeys :
      ∀ key ∈ ([str "pid", str "port", str "profile", str "model", str "started_at"] : List Str),
      joinUnits (key.flatMap unitsOf) = key := by decide
  have hend : tokens (0xA :: 0x7D :: ([] ++ str "\n")) = [.rbrace] := by
    rw [tokens_space (by decide), tokens_punctuation rfl]
    exact congrArg _ (tokens_space (by decide) [])
  simp only [List.forall_mem_cons] at hkeys
  obtain ⟨hpid, hport, hprofile, hmodel, hstarted, -⟩ := hkeys
  unfold recordText
  simp only [List.cons_append, List.append_assoc, memberText_append]
  rw [tokens_punctuation rfl, tokens_memberText, tokens_intStr _ (hcomma _), tokens_punctuation rfl,
    tokens_memberText, tokens_intStr _ (hcomma _), tokens_punctuation rfl,
    tokens_memberText, tokens_quoted, tokens_punctuation rfl,
    tokens_memberText, tokens_quoted, tokens_punctuation rfl,
    tokens_memberText, tokens_jsonFloat hstart (hnewline _), hend, hpid, hport, hprofile, hmodel,
    hstarted]

/-- What a record with these texts is read back as. -/
def Record.rejoined (r : Record) : Record :=
  { r with
    profile := joinUnits (r.profile.flatMap unitsOf)
    model := joinUnits (r.model.flatMap unitsOf) }

theorem loads_recordText (hstart : ∀ q, r.startedAt = .finite q → IsFloat q)
    (hpid : (natStr r.pid.natAbs).length ≤ 4300) (hport : (natStr r.port.natAbs).length ≤ 4300) :
    loads room (recordText r ++ str "\n") = .ok (.obj r.rejoined.asdict) := by
  unfold loads readJson
  rw [tokens_recordText hstart, readTokens_object, readTokens_member (isValue_int hpid),
    readTokens_comma, readTokens_member (isValue_int hport), readTokens_comma,
    readTokens_member (v := .str _) (fun _ => rfl), readTokens_comma,
    readTokens_member (v := .str _) (fun _ => rfl), readTokens_comma,
    readTokens_member (v := .float _) (fun _ => rfl), readTokens_rbrace]
  rfl

theorem load_asdict (h : readData room file = .ok (.obj r.asdict)) (hpid : 0 < r.pid) :
    Record.load room file = .ok (some r) := by
  have hpidOf : pidOf r.asdict = some r.pid := if_neg (not_le.2 hpid)
  rw [load_of_obj h hpidOf]
  rfl

theorem rejoined_eq_iff (r : Record) : r.rejoined = r ↔ Unpaired r.profile ∧ Unpaired r.model := by
  rw [← joinUnits_flatMap_iff, ← joinUnits_flatMap_iff]
  constructor
  · intro h
    exact ⟨congrArg Record.profile h, congrArg Record.model h⟩
  · rintro ⟨hprofile, hmodel⟩
    unfold Record.rejoined
    rw [hprofile, hmodel]

theorem restored_iff (room : ℕ) (hpid : 0 < r.pid)
    (hstart : ∀ q, r.startedAt = .finite q → IsFloat q) :
    Restored room r ↔ Storable r := by
  have hload : (natStr r.pid.natAbs).length ≤ 4300 → (natStr r.port.natAbs).length ≤ 4300 →
      Record.load room (some (encode (recordText r ++ str "\n"))) = .ok (some r.rejoined) := by
    intro hshort hport
    obtain ⟨hdecode, hnewlines⟩ := read_ascii (isAsciiText_recordText r)
    refine load_asdict ?_ hpid
    rw [readData_some, hdecode, Except.ok_bind, hnewlines, loads_recordText hstart hshort hport]
  constructor
  · rintro ⟨content, hsave, hcontent⟩
    obtain ⟨text, htext, hencode⟩ := Except.bind_eq_ok.1 hsave
    obtain ⟨hshort, hport, rfl⟩ := dumps_asdict.1 htext
    obtain rfl := Except.ok.inj hencode
    rw [hload hshort hport] at hcontent
    obtain ⟨hprofile, hmodel⟩ := (rejoined_eq_iff r).1 (Option.some.inj (Except.ok.inj hcontent))
    exact ⟨hshort, hport, hprofile, hmodel⟩
  · intro h
    have hsave : r.save = .ok (encode (recordText r ++ str "\n")) := by
      unfold Record.save
      rw [dumps_asdict.2 ⟨h.pid, h.port, rfl⟩]
      rfl
    refine ⟨_, hsave, ?_⟩
    rw [hload h.pid h.port, (rejoined_eq_iff r).2 ⟨h.profile, h.model⟩]

/-- When a state file shows its process, and when a record that is saved is loaded again. -/
theorem record_kept_iff (room : ℕ) :
    (∀ file, Shows room file ↔ Loadable room file) ∧
      ∀ r : Record, 0 < r.pid → (∀ q, r.startedAt = .finite q → IsFloat q) →
        (Restored room r ↔ Storable r) :=
  ⟨shows_iff room, fun _ => restored_iff room⟩

def smallRecord : Record := ⟨4242, 8100, "fast", "qwen", .finite 0⟩

theorem record_kept_small : Restored 0 smallRecord := by
  have hfloat : ∀ q, smallRecord.startedAt = .finite q → IsFloat q := by
    intro q hq
    obtain rfl := PyFloat.finite.inj hq
    exact (by decide +kernel : PyFloat.ofRat 0 = .finite 0)
  have hstorable : Storable smallRecord := ⟨by decide, by decide, by decide, by decide⟩
  exact ((record_kept_iff 0).2 smallRecord (by decide) hfloat).2 hstorable

/-- A start time that has no float. -/
def hugeStart : ℤ := (2 ^ 1024 : ℕ)

def hugeText : Str :=
  0x7B :: (memberText "pid" (intStr 1) ++
    0x2C :: (memberText "started_at" (intStr hugeStart) ++ [0x7D]))

theorem loads_hugeText :
    loads 0 hugeText = .ok (.obj [("pid", .int 1), ("started_at", .int hugeStart)]) := by
  have hcomma : ∀ s, EndsNumber (0x2C :: s) := by
    rintro s c hc
    obtain rfl := Option.some.inj hc
    rfl
  have hrbrace : EndsNumber [0x7D] := by
    rintro c hc
    obtain rfl := Option.some.inj hc
    rfl
  have hpid : joinUnits ((str "pid").flatMap unitsOf) = str "pid" := by decide
  have hstarted : joinUnits ((str "started_at").flatMap unitsOf) = str "started_at" := by decide
  have hshort : (natStr hugeStart.natAbs).length ≤ 4300 := by
    rw [natStr_eq, List.length_map, Nat.length_toDigits_le_iff (by decide) (by decide)]
    decide +kernel
  have htokens : tokens hugeText = [.lbrace, .string "pid", .colon, .int 1 1, .comma,
      .string "started_at", .colon, .int (natStr hugeStart.natAbs).length hugeStart, .rbrace] := by
    unfold hugeText
    rw [tokens_punctuation rfl, memberText_append, tokens_memberText, tokens_intStr _ (hcomma _),
      tokens_punctuation rfl, memberText_append, tokens_memberText, tokens_intStr _ hrbrace,
      tokens_punctuation rfl, hpid, hstarted]
    rfl
  unfold loads readJson
  rw [htokens, readTokens_object, readTokens_member (isValue_int (by decide)), readTokens_comma,
    readTokens_member (isValue_int hshort), readTokens_rbrace]
  rfl

theorem Shows.not_error (h : Shows room file) (x : PyExc) : Record.load room file ≠ .error x := by
  intro herror
  by_cases hholds : ∃ data pid text, Holds file data pid text
  · obtain ⟨data, pid, text, hholds⟩ := hholds
    obtain ⟨r, hr, -⟩ := h.found data pid text hholds
    exact nomatch herror.symm.trans hr
  · have hnone := h.absent fun data pid text hfile => hholds ⟨data, pid, text, hfile⟩
    exact nomatch herror.symm.trans hnone

/-- A start time that large raises. -/
theorem record_hidden : Record.load 0 (some (encode hugeText)) = .error .overflowError ∧
    ¬ Shows 0 (some (encode hugeText)) := by
  have hascii : ∀ c ∈ hugeText, isAsciiText c = true := by
    unfold hugeText
    simp only [List.forall_mem_cons, List.forall_mem_append]
    exact ⟨by decide, isAsciiText_memberText _ (isAsciiText_intStr _), by decide,
      isAsciiText_memberText _ (isAsciiText_intStr _), by decide, List.forall_mem_nil _⟩
  obtain ⟨hdecode, hnewlines⟩ := read_ascii hascii
  have hdata : readData 0 (some (encode hugeText)) =
      .ok (.obj [("pid", .int 1), ("started_at", .int hugeStart)]) := by
    rw [readData_some, hdecode, Except.ok_bind, hnewlines, loads_hugeText]
  have hfloat : PyFloat.ofInt hugeStart = .error .overflowError := by decide +kernel
  have hload : Record.load 0 (some (encode hugeText)) = .error .overflowError := by
    have hpid : pidOf [("pid", .int 1), ("started_at", .int hugeStart)] = some 1 := rfl
    have hfield : field [("pid", .int 1), ("started_at", .int hugeStart)] "started_at" isReal?
        (.inr (.finite 0)) = .inl hugeStart := rfl
    rw [load_of_obj hdata hpid, hfield, toFloat, hfloat]
    rfl
  exact ⟨hload, fun hshows => hshows.not_error _ hload⟩

end AgentLab.Backend.StateFile
