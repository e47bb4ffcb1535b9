import Mathlib.Data.List.Induction
import AgentLab.Python.Toml

/-!
# API keys

`gateway/keys.py`: the keys file, `create` and `revoke`, and the `KeyStore` of the gateway, which
keeps the digests of the file under the stamp that the file had before it was read.

A file is its text. What the commands return is returned after `os.replace`, so that `create` and
`revoke` are given the text of the old file and return that of the new one; who takes which step
when is the subject of `KeyLife`.
-/

namespace AgentLab.Gateway

open Python

/-! ## Hashes -/

/-- A SHA-256 digest. -/
structure Digest where
  bytes : List UInt8
  length_eq : bytes.length = 32

def hexChar (n : ℕ) : CodePoint := Fin.ofNat 0x110000 (if n < 10 then 0x30 + n else 0x57 + n)

/-- `hexdigest`. -/
def hex (bytes : List UInt8) : Str :=
  bytes.flatMap fun b => [hexChar (b.toNat / 16), hexChar (b.toNat % 16)]

/-- `bytes.fromhex` of a text of hexadecimal digits. -/
def fromHex : Str → List UInt8
  | a :: b :: s => UInt8.ofNat (16 * Toml.hexValue a + Toml.hexValue b) :: fromHex s
  | _ => []

def isLowerHex (c : CodePoint) : Bool :=
  (0x30 ≤ c.val && c.val ≤ 0x39) || (0x61 ≤ c.val && c.val ≤ 0x66)

/-- `_HASH_RE.fullmatch`. -/
def isHash (s : Str) : Bool :=
  (str "sha256:").isPrefixOf s && (s.drop 7).length = 64 && (s.drop 7).all isLowerHex

/-! ## Entries -/

def isNameStart (c : CodePoint) : Bool :=
  (0x61 ≤ c.val && c.val ≤ 0x7A) || (0x30 ≤ c.val && c.val ≤ 0x39)

def isNameChar (c : CodePoint) : Bool := isNameStart c || c = 0x5F || c = 0x2D

/-- `NAME_RE.fullmatch`. -/
def isKeyName : Str → Bool
  | c :: cs => isNameStart c && cs.length ≤ 63 && cs.all isNameChar
  | [] => false

/-- An entry of the keys file; `load` and `create` make only valid ones. -/
structure KeyEntry where
  name : Str
  hash : Str
  created : Str
  name_valid : isKeyName name = true
  hash_valid : isHash hash = true
  deriving DecidableEq

inductive KeysError
  | cannotRead (exc : Str)
  | notATable
  | invalidEntry (name : Str)
  | invalidName (name : Str)
  | taken (name : Str)
  | missing (name : Str)
  deriving DecidableEq, Repr

/-- The text of the error, for the path of the file. -/
def KeysError.message (path : Str) : KeysError → Str
  | .cannotRead exc => str "cannot read " ++ path ++ str ": " ++ exc
  | .notATable => path ++ str ": [keys] must be a table"
  | .invalidEntry name => path ++ str ": invalid entry [keys." ++ name ++ str "]"
  | .invalidName name => str "invalid key name \"" ++ name ++
      str "\": use lowercase letters, digits, \"-\" and \"_\" (up to 64 characters), " ++
      str "e.g. cursor or opencode"
  | .taken name => str "a key named \"" ++ name ++ str "\" already exists; revoke it first"
  | .missing name => str "no key named \"" ++ name ++ str "\""

/-- What the standard library contributes: `tomllib.loads`, which raises a `TOMLDecodeError` with a
text or a built-in exception, `str` of a value that is not a string, and SHA-256 of the UTF-8 form
of a text. -/
structure KeyTools where
  loads : Str → Except (Raised Str) (Dict Toml)
  text : Toml → Except PyExc Str
  sha256 : Str → Digest

variable (tools : KeyTools)

/-- `str(value)`. -/
def pyText : Toml → Except PyExc Str
  | .string s => .ok s
  | value => tools.text value

/-- `hash_key`. -/
def hashKey (key : Str) : Str := str "sha256:" ++ hex (tools.sha256 key).bytes

/-- One round of the loop in `load`. -/
def readEntry (item : Str × Toml) : Except (Raised KeysError) KeyEntry :=
  let invalid : Except (Raised KeysError) KeyEntry := .error (.own (.invalidEntry item.1))
  match item.2 with
  | .table fields =>
    match Dict.get? fields (str "hash") with
    | some (.string hash) =>
      if h : isKeyName item.1 = true ∧ isHash hash = true then do
        let created ← (pyText tools ((Dict.get? fields (str "created")).getD
          (.string []))).mapError .builtin
        return ⟨item.1, hash, created, h.1, h.2⟩
      else invalid
    | _ => invalid
  | _ => invalid

/-- `load`, of a file that is read with an `OSError`, is not there, or has a text. -/
def loadKeys : Except Str (Option Str) → Except (Raised KeysError) (List KeyEntry)
  | .error exc => .error (.own (.cannotRead exc))
  | .ok none => .ok []
  | .ok (some text) =>
    match tools.loads text with
    | .error (.own exc) => .error (.own (.cannotRead exc))
    | .error (.builtin x) => .error (.builtin x)
    | .ok data =>
      match (Dict.get? data (str "keys")).getD (.table []) with
      | .table items => items.mapM (readEntry tools)
      | _ => .error (.own .notATable)

/-! ## Writing the file -/

/-- `_render`. -/
def renderKeys (entries : List KeyEntry) : Str :=
  let lines := [str "# API keys for the gateway, managed by `alab keys`. Only hashes are stored.",
    str ""]
  join (str "\n") (lines ++ entries.flatMap fun entry =>
    [str "[keys." ++ entry.name ++ str "]",
      str "hash = \"" ++ entry.hash ++ str "\"",
      str "created = \"" ++ entry.created ++ str "\"",
      str ""])

/-- `_save`: the text of the new file. -/
def saveKeys (entries : List KeyEntry) : Except (Raised KeysError) Str :=
  if encodable (renderKeys entries) then .ok (renderKeys entries)
  else .error (.builtin .unicodeEncodeError)

/-- A moment in UTC, to the second. -/
structure UtcTime where
  year : ℕ
  month : ℕ
  day : ℕ
  hour : ℕ
  minute : ℕ
  second : ℕ
  deriving DecidableEq

/-- A number with at least `width` digits. -/
def padded (width n : ℕ) : Str :=
  List.replicate (width - (natStr n).length) 0x30 ++ natStr n

/-- `isoformat`, with `Z` for the offset. -/
def UtcTime.isoformat (t : UtcTime) : Str :=
  padded 4 t.year ++ str "-" ++ padded 2 t.month ++ str "-" ++ padded 2 t.day ++ str "T" ++
    padded 2 t.hour ++ str ":" ++ padded 2 t.minute ++ str ":" ++ padded 2 t.second ++ str "Z"

def KEY_PREFIX : Str := str "sk-alab-"

theorem hexChar_lower : ∀ n < 16, isLowerHex (hexChar n) = true := by decide

theorem hex_length (bytes : List UInt8) : (hex bytes).length = 2 * bytes.length := by
  induction bytes with
  | nil => rfl
  | cons b bytes ih =>
    have hcons : hex (b :: bytes) =
      hexChar (b.toNat / 16) :: hexChar (b.toNat % 16) :: hex bytes := rfl
    rw [hcons, List.length_cons, List.length_cons, ih, List.length_cons]
    omega

theorem hex_lower (bytes : List UInt8) : (hex bytes).all isLowerHex = true := by
  rw [List.all_eq_true]
  intro c hc
  obtain ⟨b, -, hc⟩ := List.mem_flatMap.1 hc
  have hb := b.toNat_lt
  simp only [List.mem_cons, List.not_mem_nil, or_false] at hc
  rcases hc with rfl | rfl
  · exact hexChar_lower _ (by omega)
  · exact hexChar_lower _ (by omega)

theorem isHash_hashKey (key : Str) : isHash (hashKey tools key) = true := by
  have hdrop : (hashKey tools key).drop 7 = hex (tools.sha256 key).bytes := rfl
  have hlen := hex_length (tools.sha256 key).bytes
  rw [(tools.sha256 key).length_eq] at hlen
  unfold isHash
  rw [hdrop, hlen, hex_lower]
  rfl

/-- The entry that `create` adds for a key. -/
def KeyEntry.of (name : Str) (h : isKeyName name = true) (key : Str) (now : UtcTime) : KeyEntry :=
  ⟨name, hashKey tools key, now.isoformat, h, isHash_hashKey tools key⟩

/-- The rest of `create`, under the lock and after `load`: the key and the text of the new file.
`token` is the text of the random bytes. -/
def addKey (name : Str) (h : isKeyName name = true) (token : Str) (now : UtcTime)
    (entries : List KeyEntry) : Except (Raised KeysError) (Str × Str) :=
  if entries.any fun e => e.name = name then .error (.own (.taken name))
  else do
    let key := KEY_PREFIX ++ token
    let text ← saveKeys (entries ++ [.of tools name h key now])
    return (key, text)

/-- `create`. -/
def createKey (name token : Str) (now : UtcTime) (file : Except Str (Option Str)) :
    Except (Raised KeysError) (Str × Str) :=
  if h : isKeyName name = true then do
    let entries ← loadKeys tools file
    addKey tools name h token now entries
  else .error (.own (.invalidName name))

/-- The rest of `revoke` after `load`: the text of the new file. -/
def dropKey (name : Str) (entries : List KeyEntry) : Except (Raised KeysError) Str :=
  let kept := entries.filter fun e => e.name ≠ name
  if kept.length = entries.length then .error (.own (.missing name))
  else saveKeys kept

/-- `revoke`. -/
def revokeKey (name : Str) (file : Except Str (Option Str)) : Except (Raised KeysError) Str := do
  let entries ← loadKeys tools file
  dropKey name entries

/-! ## The store of the gateway -/

/-- `KeyStore`: the stamp of the file and the digests read from it. -/
structure KeyStore (Stamp : Type) where
  stamp : Option Stamp
  hashes : List (Str × List UInt8)
  deriving DecidableEq

variable {Stamp : Type} [DecidableEq Stamp]

def KeyStore.new : KeyStore Stamp := ⟨none, []⟩

/-- The names with the digests that `_refresh` compares. -/
def hashesOf (entries : List KeyEntry) : List (Str × List UInt8) :=
  entries.map fun e => (e.name, fromHex (e.hash.drop 7))

/-- Whether `_refresh` keeps what it has. -/
def KeyStore.isCurrent (store : KeyStore Stamp) (stamp : Option Stamp) : Bool :=
  stamp = store.stamp && stamp.isSome

/-- The rest of `_refresh`: a `KeysError` leaves no key, another exception the store as it was. -/
def KeyStore.reload (stamp : Option Stamp) :
    Except (Raised KeysError) (List KeyEntry) → Except PyExc (KeyStore Stamp)
  | .ok entries => .ok ⟨stamp, hashesOf entries⟩
  | .error (.own _) => .ok ⟨stamp, []⟩
  | .error (.builtin x) => .error x

/-- The last name whose digest is the one of the key. -/
def findKey (digest : List UInt8) (hashes : List (Str × List UInt8)) : Option Str :=
  hashes.foldl (fun found item => if digest = item.2 then some item.1 else found) none

/-- What `check` returns once the store is refreshed. -/
def KeyStore.answer (store : KeyStore Stamp) (key : Str) : Except PyExc (Option Str) :=
  if encodable key then .ok (findKey (tools.sha256 key).bytes store.hashes)
  else .error .unicodeEncodeError

/-! ### What is found -/

theorem hexValue_hexChar : ∀ n < 16, Toml.hexValue (hexChar n) = n := by decide

theorem hexChar_hexValue {c : CodePoint} (h : isLowerHex c = true) :
    hexChar (Toml.hexValue c) = c := by
  simp only [isLowerHex, Bool.or_eq_true, Bool.and_eq_true, decide_eq_true_eq] at h
  apply Fin.ext
  unfold hexChar Toml.hexValue
  simp only [Fin.ofNat]
  have hlt := c.isLt
  split_ifs <;> omega

theorem hexValue_lt {c : CodePoint} (h : isLowerHex c = true) : Toml.hexValue c < 16 := by
  simp only [isLowerHex, Bool.or_eq_true, Bool.and_eq_true, decide_eq_true_eq] at h
  unfold Toml.hexValue
  split_ifs <;> omega

theorem fromHex_hex (bytes : List UInt8) : fromHex (hex bytes) = bytes := by
  induction bytes with
  | nil => rfl
  | cons b bytes ih =>
    have hb := b.toNat_lt
    show UInt8.ofNat (16 * Toml.hexValue (hexChar (b.toNat / 16)) +
      Toml.hexValue (hexChar (b.toNat % 16))) :: fromHex (hex bytes) = _
    rw [ih, hexValue_hexChar _ (by omega), hexValue_hexChar _ (by omega), Nat.div_add_mod,
      UInt8.ofNat_toNat]

theorem hex_fromHex : ∀ (n : ℕ) (s : Str), s.length = 2 * n → s.all isLowerHex = true →
    hex (fromHex s) = s
  | 0, s, hlen, _ => by rw [List.eq_nil_of_length_eq_zero hlen]; rfl
  | n + 1, s, hlen, h => by
    obtain _ | ⟨a, _ | ⟨b, s⟩⟩ := s
    · cases hlen
    · simp at hlen; omega
    rw [List.all_cons, List.all_cons, Bool.and_eq_true, Bool.and_eq_true] at h
    obtain ⟨ha, hb, hs⟩ := h
    have hav := hexValue_lt ha
    have hbv := hexValue_lt hb
    have hsize : UInt8.size = 256 := rfl
    have hbyte : (UInt8.ofNat (16 * Toml.hexValue a + Toml.hexValue b)).toNat =
        16 * Toml.hexValue a + Toml.hexValue b := UInt8.toNat_ofNat_of_lt' (by omega)
    show hexChar ((UInt8.ofNat (16 * Toml.hexValue a + Toml.hexValue b)).toNat / 16) ::
      hexChar ((UInt8.ofNat (16 * Toml.hexValue a + Toml.hexValue b)).toNat % 16) ::
        hex (fromHex s) = _
    rw [hbyte, hex_fromHex n s (by simp at hlen; omega) hs, Nat.mul_add_div (by decide),
      Nat.div_eq_of_lt hbv, Nat.add_zero, Nat.mul_add_mod, Nat.mod_eq_of_lt hbv,
      hexChar_hexValue ha, hexChar_hexValue hb]

/-- The digests of an entry and a key are the same exactly if the hashes are. -/
theorem digest_eq_iff (e : KeyEntry) (key : Str) :
    (tools.sha256 key).bytes = fromHex (e.hash.drop 7) ↔ e.hash = hashKey tools key := by
  have h := e.hash_valid
  simp only [isHash, Bool.and_eq_true, decide_eq_true_eq, List.isPrefixOf_iff_prefix] at h
  obtain ⟨⟨⟨rest, hrest⟩, hlen⟩, hhex⟩ := h
  rw [← hrest] at hlen hhex ⊢
  have hdrop : (str "sha256:" ++ rest).drop 7 = rest := rfl
  rw [hdrop] at hlen hhex ⊢
  rw [hashKey, List.append_cancel_left_eq]
  constructor
  · intro heq
    rw [heq, hex_fromHex 32 rest hlen hhex]
  · intro heq
    rw [heq, fromHex_hex]

/-- What a key is to be answered: the name of an entry with its hash, if there is one. -/
def Answers (entries : List KeyEntry) (key : Str) : Option Str → Prop
  | some name => ∃ e ∈ entries, e.name = name ∧ e.hash = hashKey tools key
  | none => ∀ e ∈ entries, e.hash ≠ hashKey tools key

theorem findKey_concat (digest : List UInt8) (hashes : List (Str × List UInt8))
    (item : Str × List UInt8) : findKey digest (hashes ++ [item]) =
      if digest = item.2 then some item.1 else findKey digest hashes := by
  unfold findKey
  rw [List.foldl_append]
  rfl

theorem findKey_answers (entries : List KeyEntry) (key : Str) :
    Answers tools entries key (findKey (tools.sha256 key).bytes (hashesOf entries)) := by
  induction entries using List.reverseRecOn with
  | nil => exact nofun
  | append_singleton entries e ih =>
    have hconcat : hashesOf (entries ++ [e]) =
        hashesOf entries ++ [(e.name, fromHex (e.hash.drop 7))] := List.map_append
    rw [hconcat, findKey_concat]
    split_ifs with h
    · exact ⟨e, List.mem_append_right _ (List.mem_singleton.2 rfl), rfl,
        (digest_eq_iff tools e key).1 h⟩
    · cases hfound : findKey (tools.sha256 key).bytes (hashesOf entries) with
      | none =>
        rw [hfound] at ih
        intro e' he'
        rcases List.mem_append.1 he' with he' | he'
        · exact ih e' he'
        · rw [List.mem_singleton.1 he']
          exact fun heq => h ((digest_eq_iff tools e key).2 heq)
      | some name =>
        rw [hfound] at ih
        obtain ⟨e', he', hname, hhash⟩ := ih
        exact ⟨e', List.mem_append_left _ he', hname, hhash⟩

end AgentLab.Gateway
