import AgentLab.Gateway.KeyCache
import AgentLab.Python.Text

/-!
# A broken keys file

`load` and `KeyStore.check` from the bytes of the keys file on. A check accepts no key that the file
does not hold, whatever the bytes are; it raises what `load` does not turn into a `KeysError`, which
is what decoding the bytes raises, what `tomllib` raises besides its `TOMLDecodeError` and what
`str` of a `created` raises, and it raises for a key that has no UTF-8 form (`broken_file_iff`).
-/

namespace AgentLab.Gateway

open Python

/-- What opening and reading the keys file comes to: an `OSError`, no file, or its bytes. -/
abbrev KeysFile := Except Str (Option (List UInt8))

variable (tools : KeyTools)

/-- `load`. `tomllib.load` decodes the bytes before it parses the text. -/
def loadFile : KeysFile → Except (Raised KeysError) (List KeyEntry)
  | .error exc => loadKeys tools (.error exc)
  | .ok none => loadKeys tools (.ok none)
  | .ok (some content) =>
    match decodeStrict content with
    | .error x => .error (.builtin x)
    | .ok text => loadKeys tools (.ok (some text))

section

variable {Stamp : Type} [DecidableEq Stamp]

/-- `_refresh`, for what `stat` finds. -/
def KeyStore.refresh (store : KeyStore Stamp) (stamp : Option Stamp) (file : KeysFile) :
    Except PyExc (KeyStore Stamp) :=
  if store.isCurrent stamp then .ok store else KeyStore.reload stamp (loadFile tools file)

/-- `check`. -/
def KeyStore.check (store : KeyStore Stamp) (stamp : Option Stamp) (file : KeysFile) (key : Str) :
    Except PyExc (Option Str) := do
  (← store.refresh tools stamp file).answer tools key

/-- The store after a check, which an exception leaves as it was. -/
def KeyStore.after (store : KeyStore Stamp) (stamp : Option Stamp) (file : KeysFile) :
    KeyStore Stamp :=
  match store.refresh tools stamp file with
  | .ok store' => store'
  | .error _ => store

end

/-! ## Valid files -/

/-- The test of an item in `load`. -/
def isEntry (item : Str × Toml) : Bool :=
  match item.2 with
  | .table fields =>
    match Dict.get? fields (str "hash") with
    | some (.string hash) => isKeyName item.1 && isHash hash
    | _ => false
  | _ => false

/-- `item.get("created", "")`. -/
def createdOf (item : Str × Toml) : Toml :=
  match item.2 with
  | .table fields => (Dict.get? fields (str "created")).getD (.string [])
  | _ => .string []

/-- The content is a valid keys file, with an entry of that name and hash. -/
def HasEntry (content : List UInt8) (name hash : Str) : Prop :=
  ∃ text data items fields, decodeStrict content = .ok text ∧ tools.loads text = .ok data ∧
    Dict.get? data (str "keys") = some (.table items) ∧ (∀ item ∈ items, isEntry item = true) ∧
    (name, .table fields) ∈ items ∧ Dict.get? fields (str "hash") = some (.string hash)

/-- Nothing but a `TOMLDecodeError` is raised on the way from the bytes to the entries: the bytes
are UTF-8, `tomllib` raises nothing else for the text, and every `created` of the items before the
first invalid one has a text. -/
def Readable (content : List UInt8) : Prop :=
  ∃ text, decodeStrict content = .ok text ∧
    match tools.loads text with
    | .error (.own _) => True
    | .error (.builtin _) => False
    | .ok data => ∀ items, (Dict.get? data (str "keys")).getD (.table []) = .table items →
      ∀ item ∈ items.takeWhile isEntry, ∃ created, pyText tools (createdOf item) = .ok created

variable {tools}

/-- What the test says of an item that passes it. -/
theorem isEntry_eq_true {item : Str × Toml} : isEntry item = true ↔ ∃ fields hash,
    item.2 = .table fields ∧ Dict.get? fields (str "hash") = some (.string hash) ∧
      isKeyName item.1 = true ∧ isHash hash = true := by
  unfold isEntry
  split
  · next fields hfields =>
    split
    · next hash hhash =>
      rw [Bool.and_eq_true]
      constructor
      · rintro ⟨hname, hvalid⟩
        exact ⟨fields, hash, hfields, hhash, hname, hvalid⟩
      · rintro ⟨_, _, hfields', hhash', hname, hvalid⟩
        obtain rfl : fields = _ := Toml.table.inj (hfields.symm.trans hfields')
        obtain rfl : hash = _ := Toml.string.inj (Option.some.inj (hhash.symm.trans hhash'))
        exact ⟨hname, hvalid⟩
    · next hno =>
      refine iff_of_false nofun ?_
      rintro ⟨_, hash, hfields', hhash', -⟩
      obtain rfl : fields = _ := Toml.table.inj (hfields.symm.trans hfields')
      exact hno hash hhash'
  · next hno => exact iff_of_false nofun fun ⟨fields, _, hfields, _⟩ => hno fields hfields

/-- An item that fails the test raises a `KeysError`. -/
theorem readEntry_invalid {item : Str × Toml} (h : isEntry item = false) :
    readEntry tools item = .error (.own (.invalidEntry item.1)) := by
  unfold readEntry
  unfold isEntry at h
  split
  · next fields hfields =>
    rw [hfields] at h
    dsimp only at h
    split
    · next hash hhash =>
      rw [hhash] at h
      exact dif_neg fun hvalid => by simp [hvalid] at h
    · rfl
  · rfl

/-- Another one becomes an entry if its `created` has a text. -/
theorem readEntry_valid {item : Str × Toml} (h : isEntry item = true) :
    match pyText tools (createdOf item) with
    | .ok created => ∃ e, readEntry tools item = .ok e ∧ e.name = item.1 ∧ e.created = created ∧
        ∃ fields, item.2 = .table fields ∧ Dict.get? fields (str "hash") = some (.string e.hash)
    | .error x => readEntry tools item = .error (.builtin x) := by
  obtain ⟨name, value⟩ := item
  obtain ⟨fields, hash, rfl, hhash, hname, hvalid⟩ := isEntry_eq_true.1 h
  have hread : readEntry tools (name, .table fields) =
      (pyText tools (createdOf (name, .table fields))).mapError .builtin >>= fun created =>
        .ok ⟨name, hash, created, hname, hvalid⟩ := by
    unfold readEntry
    dsimp only
    rw [hhash]
    exact dif_pos ⟨hname, hvalid⟩
  rw [hread]
  cases pyText tools (createdOf (name, .table fields)) with
  | error x => rfl
  | ok created => exact ⟨_, rfl, rfl, rfl, fields, rfl, hhash⟩

/-- An exception that is no `KeysError` comes from the `created` of an item before the first invalid
one. -/
theorem mapM_readEntry_builtin {items : Dict Toml} :
    (∀ x, items.mapM (readEntry tools) ≠ .error (.builtin x)) ↔
      ∀ item ∈ items.takeWhile isEntry, ∃ created, pyText tools (createdOf item) = .ok created := by
  induction items with
  | nil => exact iff_of_true nofun nofun
  | cons item items ih =>
    rw [List.mapM_cons, List.takeWhile_cons]
    cases hentry : isEntry item with
    | false =>
      rw [readEntry_invalid hentry]
      exact iff_of_true nofun nofun
    | true =>
      have hread := @readEntry_valid tools item hentry
      rw [if_pos rfl, List.forall_mem_cons]
      cases hcreated : pyText tools (createdOf item) with
      | error x =>
        rw [hcreated] at hread
        rw [hread]
        exact iff_of_false (fun h => h x rfl) fun h => nomatch h.1
      | ok created =>
        rw [hcreated] at hread
        obtain ⟨e, he, -⟩ := hread
        rw [he, ← ih]
        constructor
        · intro h
          refine ⟨⟨created, rfl⟩, fun x hx => h x ?_⟩
          rw [hx]
          rfl
        · rintro ⟨-, h⟩ x hx
          cases hrest : items.mapM (readEntry tools) with
          | error exc =>
            rw [hrest] at hx
            cases hx
            exact h x hrest
          | ok es =>
            rw [hrest] at hx
            cases hx

/-- **What `load` raises**: only a `KeysError` exactly for a readable content. -/
theorem loadFile_readable {content : List UInt8} :
    (∀ x, loadFile tools (.ok (some content)) ≠ .error (.builtin x)) ↔ Readable tools content := by
  unfold loadFile Readable
  dsimp only
  cases decodeStrict content with
  | error x => exact iff_of_false (fun h => h x rfl) fun ⟨_, h, _⟩ => nomatch h
  | ok text =>
    have hone : ∀ {P : Str → Prop}, (∃ text', (Except.ok text : Except PyExc Str) = .ok text' ∧
        P text') ↔ P text := fun {P} =>
      ⟨fun ⟨_, heq, h⟩ => Except.ok.inj heq ▸ h, fun h => ⟨text, rfl, h⟩⟩
    rw [hone]
    unfold loadKeys
    dsimp only
    cases tools.loads text with
    | error exc =>
      cases exc with
      | own exc => exact iff_of_true nofun trivial
      | builtin x => exact iff_of_false (fun h => h x rfl) id
    | ok data =>
      dsimp only
      cases hkeys : (Dict.get? data (str "keys")).getD (.table []) with
      | table items =>
        dsimp only
        rw [mapM_readEntry_builtin]
        exact ⟨fun h items' hitems' => Toml.table.inj hitems' ▸ h, fun h => h items rfl⟩
      | _ => exact iff_of_true nofun nofun

theorem mapM_readEntry_valid {items : Dict Toml} {entries : List KeyEntry}
    (h : items.mapM (readEntry tools) = .ok entries) : ∀ item ∈ items, isEntry item = true := by
  induction items generalizing entries with
  | nil => exact nofun
  | cons item items ih =>
    rw [List.mapM_cons] at h
    obtain ⟨e, he, h⟩ := Except.bind_eq_ok.1 h
    obtain ⟨es, hes, -⟩ := Except.bind_eq_ok.1 h
    refine List.forall_mem_cons.2 ⟨?_, ih hes⟩
    by_contra hinvalid
    rw [readEntry_invalid (Bool.eq_false_iff.2 hinvalid)] at he
    cases he

/-- The entries that are loaded are those of a valid file. -/
theorem loadFile_hasEntry {content : List UInt8} {entries : List KeyEntry}
    (h : loadFile tools (.ok (some content)) = .ok entries) {e : KeyEntry} (he : e ∈ entries) :
    HasEntry tools content e.name e.hash := by
  unfold loadFile at h
  dsimp only at h
  split at h
  · cases h
  next text htext =>
  obtain ⟨data, items, hdata, hitems, hmap⟩ := loadKeys_ok h
  have hall := mapM_readEntry_valid hmap
  obtain ⟨⟨name, value⟩, hitem, hread⟩ := (mapM_readEntry_ok hmap).2 e he
  have hentry := @readEntry_valid tools (name, value) (hall _ hitem)
  cases hcreated : pyText tools (createdOf (name, value)) with
  | error x =>
    rw [hcreated] at hentry
    cases hread.symm.trans hentry
  | ok created =>
    rw [hcreated] at hentry
    obtain ⟨e', he', hname, -, fields, hfields, hhash⟩ := hentry
    obtain rfl : e = e' := Except.ok.inj (hread.symm.trans he')
    obtain rfl : value = .table fields := hfields
    obtain rfl : e.name = name := hname
    refine ⟨text, data, items, fields, htext, hdata, ?_, hall, hitem, hhash⟩
    cases hkeys : Dict.get? data (str "keys") with
    | none =>
      rw [hkeys] at hitems
      cases hitems
      cases hitem
    | some keys =>
      rw [hkeys] at hitems
      exact congrArg some hitems

/-! ## Checks -/

section

variable (tools) {Stamp : Type}

/-- A name that the store has for a key is that of an entry of the content. -/
def KeyStore.Kept (store : KeyStore Stamp) (content : List UInt8) (key : Str) : Prop :=
  ∀ name, findKey (tools.sha256 key).bytes store.hashes = some name →
    HasEntry tools content name (hashKey tools key)

/-- What a check reads is what has the stamp that it found. -/
def ReadsVersion (version : Stamp → List UInt8) (stamp : Option Stamp) (file : KeysFile) : Prop :=
  ∀ s content, stamp = some s → file = .ok (some content) → content = version s

/-- The store after checks. -/
def checked [DecidableEq Stamp] (checks : List (Option Stamp × KeysFile)) : KeyStore Stamp :=
  checks.foldl (fun store c => store.after tools c.1 c.2) .new

end

/-- **What is read of a content** is right for it. -/
theorem reload_kept {Stamp : Type} {content : List UInt8} {stamp : Option Stamp}
    {store' : KeyStore Stamp}
    (h : KeyStore.reload stamp (loadFile tools (.ok (some content))) = .ok store') (key : Str) :
    store'.Kept tools content key := by
  intro name hname
  cases hload : loadFile tools (.ok (some content)) with
  | error exc =>
    rw [hload] at h
    cases exc with
    | own exc =>
      cases h
      cases hname
    | builtin x => cases h
  | ok entries =>
    rw [hload] at h
    cases h
    have hanswers := findKey_answers tools entries key
    rw [hname] at hanswers
    obtain ⟨e, he, rfl, hhash⟩ := hanswers
    rw [← hhash]
    exact loadFile_hasEntry hload he

variable {Stamp : Type} [DecidableEq Stamp] {store : KeyStore Stamp} {content : List UInt8}
  {key : Str}

theorem isCurrent_some {stamp : Stamp} :
    store.isCurrent (some stamp) = decide (store.stamp = some stamp) := by
  unfold KeyStore.isCurrent
  rw [Option.isSome_some, Bool.and_true, decide_eq_decide]
  exact eq_comm

/-- What a store keeps under a stamp is right for the content with that stamp. -/
def KeyStore.Right (tools : KeyTools) (version : Stamp → List UInt8) (store : KeyStore Stamp) :
    Prop :=
  ∀ stamp, store.stamp = some stamp → ∀ key, store.Kept tools (version stamp) key

/-- A check leaves the store right. -/
theorem KeyStore.Right.after {version : Stamp → List UInt8} (h : store.Right tools version)
    {stamp : Option Stamp} {file : KeysFile} (hread : ReadsVersion version stamp file) :
    (store.after tools stamp file).Right tools version := by
  unfold KeyStore.after KeyStore.refresh
  split
  · next store' hstore =>
    split_ifs at hstore
    · rw [← Except.ok.inj hstore]
      exact h
    · intro s hs key
      have hstamp := (KeyCache.reload_ok hstore).1
      rcases file with exc | _ | content
      · cases hstore
        rintro hash ⟨⟩
      · cases hstore
        rintro hash ⟨⟩
      · obtain rfl := hread s content (hstamp.symm.trans hs) rfl
        exact reload_kept hstore key
  · exact h

theorem checked_right {version : Stamp → List UInt8} {checks : List (Option Stamp × KeysFile)}
    (h : ∀ c ∈ checks, ReadsVersion version c.1 c.2) :
    (checked tools checks).Right tools version := by
  induction checks using List.reverseRecOn with
  | nil => exact nofun
  | append_singleton checks c ih =>
    unfold checked
    rw [List.foldl_append]
    exact (ih fun c hc => h c (List.mem_append_left _ hc)).after
      (h c (List.mem_append_right _ (List.mem_singleton.2 rfl)))

/-- What a check returns of the content with the stamp. -/
theorem check_eq_ok {stamp : Stamp} {found : Option Str} :
    store.check tools (some stamp) (.ok (some content)) key = .ok found ↔
      encodable key = true ∧ ∃ store',
        store.refresh tools (some stamp) (.ok (some content)) = .ok store' ∧
          findKey (tools.sha256 key).bytes store'.hashes = found := by
  unfold KeyStore.check
  rw [Except.bind_eq_ok]
  unfold KeyStore.answer
  constructor
  · rintro ⟨store', hstore, h⟩
    split_ifs at h with hkey
    exact ⟨hkey, store', hstore, Except.ok.inj h⟩
  · rintro ⟨hkey, store', hstore, rfl⟩
    exact ⟨store', hstore, if_pos hkey⟩

/-- **When a broken keys file fails cleanly.** For every content and every store, `load` raises only
`KeysError`s, and the check raises nothing and returns only names of entries with the hash of the
key, exactly if the key has a UTF-8 form, the content is readable, and a store that has the stamp of
the file keeps only names of the file for the key. The last is so for every store that checks
leave. -/
theorem broken_file_iff (tools : KeyTools) (Stamp : Type) [DecidableEq Stamp] :
    (∀ (store : KeyStore Stamp) (stamp : Stamp) (content : List UInt8) (key : Str),
      ((∀ x, loadFile tools (.ok (some content)) ≠ .error (.builtin x)) ∧
        ∃ found, store.check tools (some stamp) (.ok (some content)) key = .ok found ∧
          ∀ name, found = some name → HasEntry tools content name (hashKey tools key)) ↔
      encodable key = true ∧ Readable tools content ∧
        (store.stamp = some stamp → store.Kept tools content key)) ∧
    ∀ (version : Stamp → List UInt8) (checks : List (Option Stamp × KeysFile)),
      (∀ c ∈ checks, ReadsVersion version c.1 c.2) →
      ∀ stamp, (checked tools checks).stamp = some stamp →
        ∀ key, (checked tools checks).Kept tools (version stamp) key := by
  refine ⟨fun store stamp content key => ?_, fun version checks h => checked_right h⟩
  rw [loadFile_readable]
  have hrefresh : store.refresh tools (some stamp) (.ok (some content)) =
      if store.stamp = some stamp then .ok store
      else KeyStore.reload (some stamp) (loadFile tools (.ok (some content))) := by
    unfold KeyStore.refresh
    rw [isCurrent_some]
    simp only [decide_eq_true_eq]
  constructor
  · rintro ⟨hreadable, found, hcheck, hfound⟩
    obtain ⟨hkey, store', hstore, rfl⟩ := check_eq_ok.1 hcheck
    refine ⟨hkey, hreadable, fun hcurrent => ?_⟩
    rw [hrefresh, if_pos hcurrent] at hstore
    obtain rfl := Except.ok.inj hstore
    exact hfound
  · rintro ⟨hkey, hreadable, hkept⟩
    refine ⟨hreadable, ?_⟩
    obtain ⟨store', hstore, hright⟩ : ∃ store',
        store.refresh tools (some stamp) (.ok (some content)) = .ok store' ∧
          store'.Kept tools content key := by
      rw [hrefresh]
      split_ifs with hcurrent
      · exact ⟨store, rfl, hkept hcurrent⟩
      · cases hload : loadFile tools (.ok (some content)) with
        | error exc =>
          cases exc with
          | own exc => exact ⟨⟨some stamp, []⟩, rfl, nofun⟩
          | builtin x => exact absurd hload (loadFile_readable.2 hreadable x)
        | ok entries =>
          have hreload : KeyStore.reload (some stamp) (loadFile tools (.ok (some content))) =
              .ok ⟨some stamp, hashesOf entries⟩ := by rw [hload]; rfl
          exact ⟨_, rfl, reload_kept hreload key⟩
    exact ⟨_, check_eq_ok.2 ⟨hkey, store', hstore, rfl⟩, hright⟩

/-- A file that is not UTF-8. -/
theorem broken_file_raises : ¬ ∀ (tools : KeyTools) (store : KeyStore ℕ) (stamp : ℕ)
    (content : List UInt8) (key : Str), ∃ found,
      store.check tools (some stamp) (.ok (some content)) key = .ok found := by
  intro h
  obtain ⟨found, hfound⟩ := h .reader .new 1 [0xFF] (str "sk-alab-2f")
  obtain ⟨-, store', hstore, -⟩ := check_eq_ok.1 hfound
  have hraises : KeyStore.refresh .reader (.new : KeyStore ℕ) (some 1) (.ok (some [0xFF])) =
      .error .unicodeDecodeError := by
    decide +kernel
  cases hraises.symm.trans hstore

end AgentLab.Gateway
