import AgentLab.Gateway.Keys
import AgentLab.Python.Render
import AgentLab.Python.TomlReader

/-!
# The keys file, written and read

`_render` puts the texts of the entries between quotation marks as they are. The names and hashes
that `load` accepts stand for themselves there, the `created` texts, which `load` takes from any
value, need not. `load_render` reads a file back whose `created` texts are plain;
`plain_of_load_render` is the converse, by the first entry whose text is not.

`key_commands_preserve_iff` puts this together for `create` and `revoke`.
-/

namespace AgentLab.Gateway

open Python Toml

variable {tools : KeyTools} {entries : List KeyEntry}

/-! ## The lines of the file -/

def keyComment : Str :=
  str " API keys for the gateway, managed by `alab keys`. Only hashes are stored."

/-- The lines of an entry up to `created`. -/
def entryStart (e : KeyEntry) : List Line :=
  [.blank, .header [str "keys", e.name], .pair (str "hash") e.hash]

def entryLines (e : KeyEntry) : List Line := entryStart e ++ [.pair (str "created") e.created]

def keyLines (entries : List KeyEntry) : List Line :=
  .comment keyComment :: entries.flatMap entryLines

theorem linesText_cons (line : Line) (lines : List Line) :
    linesText (line :: lines) = line.text ++ [newline] ++ linesText lines := rfl

theorem linesText_append (l l' : List Line) : linesText (l ++ l') = linesText l ++ linesText l' :=
  List.flatMap_append

theorem join_cons (sep a b : Str) (l : List Str) :
    join sep (a :: b :: l) = a ++ (sep ++ join sep (b :: l)) := rfl

/-- The lines that `_render` adds for the entries, each group ended by an empty line. -/
theorem join_entries (entries : List KeyEntry) (x : Str) :
    join (str "\n") (x :: entries.flatMap fun entry =>
      [str "[keys." ++ entry.name ++ str "]",
        str "hash = \"" ++ entry.hash ++ str "\"",
        str "created = \"" ++ entry.created ++ str "\"",
        str ""]) = x ++ linesText (entries.flatMap entryLines) := by
  induction entries generalizing x with
  | nil =>
    show x ++ [] = x ++ []
    rfl
  | cons e entries ih =>
    rw [List.flatMap_cons, List.flatMap_cons, linesText_append]
    simp only [List.cons_append, List.nil_append]
    rw [join_cons, join_cons, join_cons, join_cons, ih]
    have hheader : str "[keys." ++ e.name ++ str "]" = (Line.header [str "keys", e.name]).text := by
      show _ = str "[" ++ (str "keys" ++ (str "." ++ (e.name ++ []))) ++ str "]"
      rw [List.append_nil]
      rfl
    have hhash : str "hash = \"" ++ e.hash ++ str "\"" = (Line.pair (str "hash") e.hash).text := rfl
    have hcreated : str "created = \"" ++ e.created ++ str "\"" =
      (Line.pair (str "created") e.created).text := rfl
    rw [hheader, hhash, hcreated]
    simp only [entryLines, entryStart, linesText_cons, List.cons_append, List.nil_append,
      List.append_assoc]
    rfl

theorem renderKeys_eq (entries : List KeyEntry) :
    renderKeys entries = linesText (keyLines entries) := by
  unfold renderKeys
  dsimp only
  rw [List.cons_append, List.cons_append, List.nil_append, join_cons, join_entries, keyLines,
    linesText_cons]
  simp only [List.append_assoc]
  rfl

/-! ## What stands for itself -/

theorem unescaped_of_lowerHex {c : CodePoint} (h : isLowerHex c = true) : Unescaped c := by
  simp only [isLowerHex, Bool.or_eq_true, Bool.and_eq_true, decide_eq_true_eq] at h
  exact unescaped_of_val (by omega) (by omega) (by omega) (by omega)

theorem plain_hash (e : KeyEntry) : Plain e.hash := by
  have h := e.hash_valid
  simp only [isHash, Bool.and_eq_true, decide_eq_true_eq, List.isPrefixOf_iff_prefix] at h
  obtain ⟨⟨⟨rest, hrest⟩, -⟩, hhex⟩ := h
  rw [← hrest] at hhex ⊢
  have hdrop : (str "sha256:" ++ rest).drop 7 = rest := rfl
  rw [hdrop, List.all_eq_true] at hhex
  exact plain_append.2 ⟨by decide, fun c hc => unescaped_of_lowerHex (hhex c hc)⟩

theorem bareKey_of_keyName {s : Str} (h : isKeyName s = true) : isBareKey s = true := by
  have hchar : ∀ c : CodePoint, isNameChar c = true → ((0x41 ≤ c.val && c.val ≤ 0x5A) ||
      (0x61 ≤ c.val && c.val ≤ 0x7A) || (0x30 ≤ c.val && c.val ≤ 0x39) || c = 0x2D ||
      c = 0x5F) = true := by
    intro c hc
    simp only [isNameChar, isNameStart, Bool.or_eq_true, Bool.and_eq_true,
      decide_eq_true_eq] at hc ⊢
    tauto
  cases s with
  | nil => cases h
  | cons c cs =>
    simp only [isKeyName, Bool.and_eq_true, List.all_eq_true] at h
    have hc : isNameChar c = true := by simp [isNameChar, h.1.1]
    simp only [isBareKey, List.isEmpty_cons, Bool.not_false, Bool.true_and, List.all_eq_true,
      List.forall_mem_cons]
    exact ⟨hchar c hc, fun d hd => hchar d (h.2 d hd)⟩

theorem plain_natStr (n : ℕ) : Plain (natStr n) := by
  intro c hc
  unfold natStr str at hc
  obtain ⟨d, hd, rfl⟩ := List.mem_map.1 hc
  have hdigit : d.isDigit = true := by
    have hd' : d ∈ (Nat.repr n).toList := hd
    rw [Nat.toList_repr] at hd'
    exact Nat.isDigit_of_mem_toDigits (by decide) (by decide) hd'
  obtain ⟨hlow, hhigh⟩ : 48 ≤ d.toNat ∧ d.toNat ≤ 57 := by
    simp only [Char.isDigit, Bool.and_eq_true, decide_eq_true_eq] at hdigit
    exact ⟨hdigit.1, hdigit.2⟩
  have hval : (Fin.ofNat 0x110000 d.toNat).val = d.toNat := Nat.mod_eq_of_lt (by omega)
  exact unescaped_of_val (by omega) (by omega) (by omega) (by omega)

theorem plain_padded (width n : ℕ) : Plain (padded width n) := by
  refine plain_append.2 ⟨fun c hc => ?_, plain_natStr n⟩
  rw [List.eq_of_mem_replicate hc]
  decide

theorem plain_isoformat (t : UtcTime) : Plain t.isoformat := by
  simp only [UtcTime.isoformat, plain_append, plain_padded, true_and, and_true]
  decide

/-! ## Reading a file back -/

def itemOf (e : KeyEntry) : Str × Toml :=
  (e.name, .table [(str "hash", .string e.hash), (str "created", .string e.created)])

/-- The items of a file with the entries. -/
def keyItems : List KeyEntry → Dict Toml
  | [] => []
  | e :: entries => [(str "keys", .table ((e :: entries).map itemOf))]

theorem set_append_of_notMem {α : Type} {d : Dict α} {key : Str} (h : key ∉ d.map Prod.fst)
    (d' : Dict α) (v : α) : Dict.set (d ++ d') key v = d ++ Dict.set d' key v := by
  induction d with
  | nil => rfl
  | cons item d ih =>
    rw [List.map_cons, List.mem_cons, not_or] at h
    rw [List.cons_append, Dict.set, if_neg (Ne.symm h.1), ih h.2, List.cons_append]

/-- A pair in the last table of a document of keys. -/
theorem insertNew_pair {items fields : Dict Toml} {name key : Str}
    (hname : name ∉ items.map Prod.fst) (hkey : Dict.get? fields key = none) (v : Toml) :
    insertNew [str "keys", name, key] v [(str "keys", .table (items ++ [(name, .table fields)]))] =
      some [(str "keys", .table (items ++ [(name, .table (fields ++ [(key, v)]))]))] := by
  have hget : Dict.get? (items ++ [(name, Toml.table fields)]) name = some (.table fields) := by
    rw [Dict.get?_append, (Dict.get?_eq_none _ _).2 hname]
    exact if_pos rfl
  have hset : Dict.set (items ++ [(name, Toml.table fields)]) name (.table (fields ++ [(key, v)])) =
      items ++ [(name, .table (fields ++ [(key, v)]))] := by
    rw [set_append_of_notMem hname]
    exact congrArg _ (if_pos rfl)
  simp [insertNew, Dict.get?_cons, hget, hkey, hset, Dict.set]

/-- The table of the next entry. -/
theorem insertNew_header {name : Str} (hname : name ∉ entries.map KeyEntry.name) :
    insertNew [str "keys", name] (.table []) (keyItems entries) =
      some [(str "keys", .table (entries.map itemOf ++ [(name, .table [])]))] := by
  have hkeys : (entries.map itemOf).map Prod.fst = entries.map KeyEntry.name := by
    rw [List.map_map]
    rfl
  have hget : Dict.get? (entries.map itemOf) name = none := by
    rw [Dict.get?_eq_none, hkeys]
    exact hname
  cases entries with
  | nil => rfl
  | cons e entries =>
    rw [List.map_cons] at hget
    simp [insertNew, keyItems, Dict.get?_cons, Dict.set, hget]

/-- A pair of an entry. -/
theorem line_pair {name key value : Str} {fields : Dict Toml}
    (hname : name ∉ entries.map KeyEntry.name) (hkey : isBareKey key = true)
    (hnew : Dict.get? fields key = none) (hvalue : Plain value) :
    Document.line ⟨[str "keys", name],
        [(str "keys", .table (entries.map itemOf ++ [(name, .table fields)]))]⟩ (.pair key value) =
      some ⟨[str "keys", name], [(str "keys", .table (entries.map itemOf ++
        [(name, .table (fields ++ [(key, .string value)]))]))]⟩ := by
  have hitems : name ∉ (entries.map itemOf).map Prod.fst := by
    rw [List.map_map]
    exact hname
  have hinsert := insertNew_pair hitems hnew (.string value)
  unfold Document.line
  dsimp only
  rw [if_pos ⟨hkey, hvalue⟩]
  exact congrArg _ hinsert

/-- The document up to the `created` of an entry. -/
theorem document_entryStart {e : KeyEntry} (hname : e.name ∉ entries.map KeyEntry.name)
    (path : List Str) :
    (entryStart e).foldlM Document.line ⟨path, keyItems entries⟩ =
      some ⟨[str "keys", e.name], [(str "keys", .table (entries.map itemOf ++
        [(e.name, .table [(str "hash", .string e.hash)])]))]⟩ := by
  have hbare : [str "keys", e.name].all isBareKey = true := by
    rw [List.all_cons, List.all_cons, bareKey_of_keyName e.name_valid]
    decide
  have hheader : Document.line ⟨path, keyItems entries⟩ (.header [str "keys", e.name]) =
      some ⟨[str "keys", e.name],
        [(str "keys", .table (entries.map itemOf ++ [(e.name, .table [])]))]⟩ := by
    unfold Document.line
    dsimp only
    rw [if_pos hbare, insertNew_header hname]
    rfl
  have hhash := line_pair hname (by decide : isBareKey (str "hash") = true)
    (rfl : Dict.get? ([] : Dict Toml) (str "hash") = none) (plain_hash e)
  show Document.line _ .blank >>= _ = _
  show Document.line _ (.header [str "keys", e.name]) >>= _ = _
  rw [hheader]
  show Document.line _ (.pair (str "hash") e.hash) >>= _ = _
  rw [hhash]
  rfl

theorem document_entryLines {e : KeyEntry} (hname : e.name ∉ entries.map KeyEntry.name)
    (hplain : Plain e.created) (path : List Str) :
    (entryLines e).foldlM Document.line ⟨path, keyItems entries⟩ =
      some ⟨[str "keys", e.name], keyItems (entries ++ [e])⟩ := by
  have hcreated := line_pair hname (by decide : isBareKey (str "created") = true)
    (rfl : Dict.get? [(str "hash", Toml.string e.hash)] (str "created") = none) hplain
  have hitems : keyItems (entries ++ [e]) =
      [(str "keys", .table (entries.map itemOf ++ [itemOf e]))] := by
    cases entries with
    | nil => rfl
    | cons e' entries =>
      rw [List.cons_append, keyItems, ← List.cons_append, List.map_append]
      rfl
  rw [entryLines, List.foldlM_append, document_entryStart hname, hitems]
  show Document.line _ (.pair (str "created") e.created) >>= _ = _
  rw [hcreated]
  rfl

theorem document_entries (entries : List KeyEntry) {more : List KeyEntry}
    (hnodup : ((entries ++ more).map KeyEntry.name).Nodup)
    (hplain : ∀ e ∈ more, Plain e.created) (path : List Str) : ∃ path',
    (more.flatMap entryLines).foldlM Document.line ⟨path, keyItems entries⟩ =
      some ⟨path', keyItems (entries ++ more)⟩ := by
  induction more generalizing entries path with
  | nil => exact ⟨path, by rw [List.append_nil]; rfl⟩
  | cons e more ih =>
    obtain ⟨he, hmore⟩ := List.forall_mem_cons.1 hplain
    have hname : e.name ∉ entries.map KeyEntry.name := by
      rw [List.map_append, List.map_cons] at hnodup
      exact fun h => (List.nodup_append.1 hnodup).2.2 _ h _ List.mem_cons_self rfl
    have happend : entries ++ e :: more = entries ++ [e] ++ more := List.append_cons ..
    rw [happend] at hnodup ⊢
    obtain ⟨path', h⟩ := ih _ hnodup hmore [str "keys", e.name]
    refine ⟨path', ?_⟩
    rw [List.flatMap_cons, List.foldlM_append, document_entryLines hname he]
    exact h

/-- What a file with plain texts says. -/
theorem document_keyLines (hnodup : (entries.map KeyEntry.name).Nodup)
    (hplain : ∀ e ∈ entries, Plain e.created) :
    ∃ path, document (keyLines entries) = some ⟨path, keyItems entries⟩ := by
  obtain ⟨path, h⟩ := document_entries [] hnodup hplain []
  refine ⟨path, ?_⟩
  have hcomment : Document.line ⟨[], []⟩ (.comment keyComment) = some ⟨[], keyItems []⟩ := by
    show (if keyComment.all isPrintable = true then some _ else none) = _
    exact if_pos (by decide)
  unfold document keyLines
  rw [List.foldlM_cons, hcomment]
  exact h

theorem readEntry_itemOf (e : KeyEntry) : readEntry tools (itemOf e) = .ok e := by
  unfold readEntry itemOf
  have hhash : Dict.get? [(str "hash", Toml.string e.hash), (str "created", .string e.created)]
    (str "hash") = some (.string e.hash) := rfl
  dsimp only
  rw [hhash]
  dsimp only
  rw [dif_pos ⟨e.name_valid, e.hash_valid⟩]
  rfl

theorem mapM_readEntry (entries : List KeyEntry) :
    (entries.map itemOf).mapM (readEntry tools) = .ok entries := by
  induction entries with
  | nil => rfl
  | cons e entries ih =>
    rw [List.map_cons, List.mapM_cons, readEntry_itemOf, ih]
    rfl

/-- **A file with plain texts is read back as it was written.** -/
theorem load_render (h : Toml10 tools.loads) (hnodup : (entries.map KeyEntry.name).Nodup)
    (hplain : ∀ e ∈ entries, Plain e.created) :
    loadKeys tools (.ok (some (renderKeys entries))) = .ok entries := by
  obtain ⟨path, hdoc⟩ := document_keyLines hnodup hplain
  unfold loadKeys
  dsimp only
  rw [renderKeys_eq, h.lines hdoc]
  cases entries with
  | nil => rfl
  | cons e entries => exact mapM_readEntry (e :: entries)

/-! ## The first entry that is not plain -/

theorem readEntry_ok {item : Str × Toml} {e : KeyEntry} (h : readEntry tools item = .ok e) :
    e.name = item.1 ∧ ∃ fields, item.2 = .table fields ∧
      pyText tools ((Dict.get? fields (str "created")).getD (.string [])) = .ok e.created := by
  obtain ⟨name, value⟩ := item
  cases value with
  | table fields =>
    unfold readEntry at h
    dsimp only at h
    split at h
    · split_ifs at h
      cases hcreated : pyText tools ((Dict.get? fields (str "created")).getD (.string [])) with
      | error x =>
        rw [hcreated] at h
        cases h
      | ok created =>
        rw [hcreated] at h
        cases h
        exact ⟨rfl, fields, rfl, hcreated⟩
    · cases h
  | _ => cases h

/-- Each entry comes from the item of its name. -/
theorem mapM_readEntry_ok {items : Dict Toml} (h : items.mapM (readEntry tools) = .ok entries) :
    entries.map KeyEntry.name = items.map Prod.fst ∧
      ∀ e ∈ entries, ∃ item ∈ items, readEntry tools item = .ok e := by
  induction items generalizing entries with
  | nil =>
    cases h
    exact ⟨rfl, nofun⟩
  | cons item items ih =>
    rw [List.mapM_cons] at h
    obtain ⟨e, he, h⟩ := Except.bind_eq_ok.1 h
    obtain ⟨es, hes, h⟩ := Except.bind_eq_ok.1 h
    cases h
    obtain ⟨hnames, hitems⟩ := ih hes
    refine ⟨by rw [List.map_cons, List.map_cons, hnames, (readEntry_ok he).1],
      List.forall_mem_cons.2 ⟨⟨item, List.mem_cons_self, he⟩, fun e' he' => ?_⟩⟩
    obtain ⟨item', hmem, hread⟩ := hitems e' he'
    exact ⟨item', List.mem_cons_of_mem _ hmem, hread⟩

theorem loadKeys_ok {text : Str} (h : loadKeys tools (.ok (some text)) = .ok entries) :
    ∃ data items, tools.loads text = .ok data ∧
      (Dict.get? data (str "keys")).getD (.table []) = .table items ∧
      items.mapM (readEntry tools) = .ok entries := by
  unfold loadKeys at h
  dsimp only at h
  split at h
  · cases h
  · cases h
  · next data hdata =>
    split at h
    · next items hitems => exact ⟨data, items, hdata, hitems, h⟩
    · cases h

/-- The names of a file are distinct. -/
theorem nodup_of_load (h : Toml10 tools.loads) {file : Except Str (Option Str)}
    (hload : loadKeys tools file = .ok entries) : (entries.map KeyEntry.name).Nodup := by
  rcases file with exc | _ | text
  · cases hload
  · cases hload
    exact List.nodup_nil
  · obtain ⟨data, items, hdata, hitems, hmap⟩ := loadKeys_ok hload
    rw [(mapM_readEntry_ok hmap).1]
    cases hkeys : Dict.get? data (str "keys") with
    | none =>
      rw [hkeys] at hitems
      cases hitems
      exact List.nodup_nil
    | some value =>
      rw [hkeys] at hitems
      cases hitems
      exact h.distinct hdata hkeys

theorem get?_of_mem {items : Dict Toml} (hnodup : (items.map Prod.fst).Nodup) {item : Str × Toml}
    (h : item ∈ items) : Dict.get? items item.1 = some item.2 := by
  induction items with
  | nil => cases h
  | cons first items ih =>
    obtain ⟨k, v⟩ := first
    rw [List.map_cons, List.nodup_cons] at hnodup
    rw [Dict.get?_cons]
    rcases List.mem_cons.1 h with rfl | hmem
    · exact if_pos rfl
    · have hname : item.1 ∈ items.map Prod.fst := List.mem_map_of_mem hmem
      have hk : k ≠ item.1 := by
        rintro rfl
        exact hnodup.1 hname
      rw [if_neg hk, ih hnodup.2 hmem]

/-- The text that follows `created = "` for an entry, up to the end of the file. -/
theorem linesText_split (before after : List KeyEntry) (e : KeyEntry) :
    linesText (keyLines (before ++ e :: after)) =
      linesText (keyLines before ++ entryStart e) ++ str "created" ++ str " = \"" ++
        (e.created ++ quote :: newline :: linesText (after.flatMap entryLines)) := by
  have hlines : keyLines (before ++ e :: after) = keyLines before ++ entryStart e ++
      (.pair (str "created") e.created :: after.flatMap entryLines) := by
    simp [keyLines, entryLines]
  rw [hlines, linesText_append, linesText_cons]
  simp only [Line.text, List.append_assoc]
  rfl

theorem linesText_entries (after : List KeyEntry) :
    linesText (after.flatMap entryLines) = [] ∨
      ∃ t, linesText (after.flatMap entryLines) = newline :: t := by
  cases after with
  | nil => exact .inl rfl
  | cons e after => exact .inr ⟨_, rfl⟩

/-- The first entry whose text is not plain is not read back. -/
theorem plain_of_load_split (h : Toml10 tools.loads) {before after : List KeyEntry} {e : KeyEntry}
    (hnodup : ((before ++ e :: after).map KeyEntry.name).Nodup)
    (hbefore : ∀ e' ∈ before, Plain e'.created)
    (hload : loadKeys tools (.ok (some (renderKeys (before ++ e :: after)))) =
      .ok (before ++ e :: after)) : Plain e.created := by
  obtain ⟨data, items, hdata, hitems, hmap⟩ := loadKeys_ok hload
  obtain ⟨hnames, hread⟩ := mapM_readEntry_ok hmap
  rw [List.map_append, List.map_cons] at hnodup
  have hname : e.name ∉ before.map KeyEntry.name :=
    fun hmem => (List.nodup_append.1 hnodup).2.2 _ hmem _ List.mem_cons_self rfl
  obtain ⟨path, hdoc⟩ := document_keyLines (List.nodup_append.1 hnodup).1 hbefore
  have hstart : document (keyLines before ++ entryStart e) =
      some ⟨[str "keys", e.name], [(str "keys", .table (before.map itemOf ++
        [(e.name, .table [(str "hash", .string e.hash)])]))]⟩ := by
    unfold document at hdoc ⊢
    rw [List.foldlM_append, hdoc]
    exact document_entryStart hname path
  rw [renderKeys_eq, linesText_split] at hdata
  obtain ⟨v, htoken, hget⟩ := h.token hstart (by decide : isBareKey (str "created") = true) hdata
  -- The item of the entry's name is where the value was defined.
  obtain ⟨item, hmem, hitem⟩ := hread e (List.mem_append_right _ List.mem_cons_self)
  obtain ⟨hfst, fields, hfields, hcreated⟩ := readEntry_ok hitem
  cases hkeys : Dict.get? data (str "keys") with
  | none =>
    simp [getAt, hkeys] at hget
  | some value =>
    rw [hkeys] at hitems
    cases hitems
    have hentry := get?_of_mem (h.distinct hdata hkeys) hmem
    rw [← hfst, hfields] at hentry
    have hv : Dict.get? fields (str "created") = some (.string v) := by
      simp only [List.cons_append, List.nil_append, getAt, hkeys, Option.bind_some, hentry] at hget
      cases hf : Dict.get? fields (str "created") with
      | none =>
        rw [hf] at hget
        cases hget
      | some w =>
        rw [hf] at hget
        exact hget
    rw [hv] at hcreated
    rw [← Except.ok.inj hcreated] at htoken ⊢
    exact htoken.plain (linesText_entries after)

/-- **Only plain texts are read back as they were written.** -/
theorem plain_of_load_render (h : Toml10 tools.loads) (hnodup : (entries.map KeyEntry.name).Nodup)
    (hload : loadKeys tools (.ok (some (renderKeys entries))) = .ok entries) :
    ∀ e ∈ entries, Plain e.created := by
  have hfrom : ∀ after before : List KeyEntry, before ++ after = entries →
      (∀ e ∈ before, Plain e.created) → ∀ e ∈ after, Plain e.created := by
    intro after
    induction after with
    | nil => exact fun _ _ _ => nofun
    | cons e after ih =>
      intro before hsplit hbefore
      rw [← hsplit] at hnodup hload
      have he := plain_of_load_split h hnodup hbefore hload
      refine List.forall_mem_cons.2 ⟨he, ih (before ++ [e]) (by simp [← hsplit]) ?_⟩
      exact List.forall_mem_append.2 ⟨hbefore, by simpa using he⟩
  exact hfrom entries [] rfl nofun

theorem load_render_iff (h : Toml10 tools.loads) (hnodup : (entries.map KeyEntry.name).Nodup) :
    loadKeys tools (.ok (some (renderKeys entries))) = .ok entries ↔
      ∀ e ∈ entries, Plain e.created :=
  ⟨plain_of_load_render h hnodup, load_render h hnodup⟩

/-! ## The commands -/

theorem saveKeys_ok {text : Str} (h : saveKeys entries = .ok text) : text = renderKeys entries := by
  unfold saveKeys at h
  split_ifs at h
  exact (Except.ok.inj h).symm

/-- What `create` writes. -/
theorem addKey_ok {name token key text : Str} {hname : isKeyName name = true} {now : UtcTime}
    (h : addKey tools name hname token now entries = .ok (key, text)) :
    key = KEY_PREFIX ++ token ∧ name ∉ entries.map KeyEntry.name ∧
      text = renderKeys (entries ++ [.of tools name hname key now]) := by
  unfold addKey at h
  split_ifs at h with hany
  obtain ⟨saved, hsave, hret⟩ := Except.bind_eq_ok.1 h
  cases hret
  refine ⟨rfl, fun hmem => ?_, saveKeys_ok hsave⟩
  obtain ⟨e, he, hen⟩ := List.mem_map.1 hmem
  exact hany (List.any_eq_true.2 ⟨e, he, by simpa using hen⟩)

/-- What `revoke` writes. -/
theorem dropKey_ok {name text : Str} (h : dropKey name entries = .ok text) :
    name ∈ entries.map KeyEntry.name ∧
      text = renderKeys (entries.filter fun e => e.name ≠ name) := by
  unfold dropKey at h
  dsimp only at h
  split_ifs at h with hlen
  refine ⟨?_, saveKeys_ok h⟩
  by_contra hnot
  refine hlen (congrArg List.length (List.filter_eq_self.2 fun e he => ?_))
  exact decide_eq_true fun hname => hnot (hname ▸ List.mem_map_of_mem he)

theorem encodable_of_plain {s : Str} (h : Plain s) : encodable s = true := by
  unfold encodable
  rw [List.all_eq_true]
  intro c hc
  rcases h c hc with htab | ⟨-, -, -, -, hsurrogate⟩
  · simp [isSurrogate, htab]
  · rw [hsurrogate]
    rfl

theorem encodable_name (e : KeyEntry) : encodable e.name = true := by
  have hbare := bareKey_of_keyName e.name_valid
  simp only [isBareKey, Bool.and_eq_true, List.all_eq_true, Bool.or_eq_true,
    decide_eq_true_eq] at hbare
  unfold encodable
  rw [List.all_eq_true]
  intro c hc
  have hlt : c.val < 0x80 := by
    rcases hbare.2 c hc with (((h | h) | h) | rfl) | rfl <;> omega
  simp only [isSurrogate, Bool.not_eq_true', Bool.and_eq_false_iff, decide_eq_false_iff_not]
  omega

theorem encodable_entryLines (e : KeyEntry) (h : Plain e.created) :
    encodable (linesText (entryLines e)) = true := by
  have hheader : encodable (Line.header [str "keys", e.name]).text = true := by
    show encodable (str "[" ++ (str "keys" ++ (str "." ++ (e.name ++ []))) ++ str "]") = true
    simp [encodable_append, encodable_str, encodable_name]
  have hpair : ∀ key value, encodable value = true →
      encodable (Line.pair (str key) value).text = true := by
    intro key value hvalue
    show encodable (str key ++ str " = \"" ++ value ++ str "\"") = true
    simp [encodable_append, encodable_str, hvalue]
  simp only [entryLines, entryStart, linesText_cons, List.cons_append, List.nil_append,
    encodable_append]
  exact ⟨⟨rfl, rfl⟩, ⟨hheader, rfl⟩, ⟨hpair _ _ (encodable_of_plain (plain_hash e)), rfl⟩,
    ⟨hpair _ _ (encodable_of_plain h), rfl⟩, rfl⟩

/-- A file of plain texts can be written. -/
theorem saveKeys_plain (h : ∀ e ∈ entries, Plain e.created) :
    saveKeys entries = .ok (renderKeys entries) := by
  have hlines : encodable (linesText (entries.flatMap entryLines)) = true := by
    induction entries with
    | nil => rfl
    | cons e entries ih =>
      obtain ⟨he, h⟩ := List.forall_mem_cons.1 h
      rw [List.flatMap_cons, linesText_append, encodable_append]
      exact ⟨encodable_entryLines e he, ih h⟩
  unfold saveKeys
  rw [if_pos]
  rw [renderKeys_eq, keyLines, linesText_cons, encodable_append, encodable_append]
  exact ⟨⟨by decide, rfl⟩, hlines⟩

/-- The names stay distinct when one that is not there is added. -/
theorem nodup_concat {e : KeyEntry} (hnodup : (entries.map KeyEntry.name).Nodup)
    (he : e.name ∉ entries.map KeyEntry.name) : ((entries ++ [e]).map KeyEntry.name).Nodup := by
  rw [List.map_append, List.nodup_append]
  refine ⟨hnodup, List.pairwise_singleton .., ?_⟩
  rintro x hx y hy rfl
  exact he (List.mem_singleton.1 hy ▸ hx)

/-- **The commands preserve a file exactly if the texts they write are plain.** -/
theorem key_commands_preserve_iff (h : Toml10 tools.loads) {file : Except Str (Option Str)}
    (hload : loadKeys tools file = .ok entries) :
    (∀ name token now key text, createKey tools name token now file = .ok (key, text) →
      ∃ hname, (loadKeys tools (.ok (some text)) =
        .ok (entries ++ [KeyEntry.of tools name hname key now]) ↔
          ∀ e ∈ entries, Plain e.created)) ∧
    ∀ name text, revokeKey tools name file = .ok text →
      (loadKeys tools (.ok (some text)) = .ok (entries.filter fun e => e.name ≠ name) ↔
        ∀ e ∈ entries, e.name ≠ name → Plain e.created) := by
  have hnodup := nodup_of_load h hload
  constructor
  · intro name token now key text hcreate
    unfold createKey at hcreate
    split_ifs at hcreate with hname
    rw [hload, Except.ok_bind] at hcreate
    obtain ⟨-, hnew, rfl⟩ := addKey_ok hcreate
    refine ⟨hname, ?_⟩
    rw [load_render_iff h (nodup_concat hnodup hnew), List.forall_mem_append]
    exact and_iff_left (List.forall_mem_singleton.2 (plain_isoformat now))
  · intro name text hrevoke
    unfold revokeKey at hrevoke
    rw [hload, Except.ok_bind] at hrevoke
    rw [(dropKey_ok hrevoke).2,
      load_render_iff h (hnodup.sublist (List.filter_sublist.map _))]
    simp

/-! ## A file edited by hand -/

/-- SHA-256 of the key `sk-alab-2f`. -/
def springDigest : Digest where
  bytes := [
    0x9d, 0x0d, 0xec, 0x4a, 0x44, 0x84, 0xce, 0x24, 0xd5, 0x1d, 0x84, 0xa3, 0x32, 0xca, 0x2a,
    0xbc, 0x60, 0x3a, 0x22, 0xf0, 0x1c, 0xef, 0x44, 0xe1, 0x3b, 0xf6, 0x65, 0x6a, 0x8b, 0x41,
    0x6f, 0x9f]
  length_eq := rfl

/-- Tools that follow TOML, enough for files without numbers and dates, with the digest of one
key. -/
def KeyTools.reader : KeyTools :=
  ⟨loadsToml (.own (str "Invalid statement")), fun _ => .ok [],
    fun key => if key = str "sk-alab-2f" then springDigest else ⟨List.replicate 32 0, rfl⟩⟩

theorem reader_toml10 : Toml10 KeyTools.reader.loads := readToml_toml10 _

def handEdited (created : String) : Str :=
  str "[keys.cursor]\nhash = \"sha256:" ++ List.replicate 64 0x30 ++ str "\"\ncreated = '" ++
    str created ++ str "'\n"

def editedEntry (created : String) : KeyEntry :=
  ⟨str "cursor", str "sha256:" ++ List.replicate 64 0x30, str created, by decide, by decide⟩

def springTime : UtcTime := ⟨2026, 3, 20, 9, 46, 0⟩

/-- The entry that `create` adds to the edited file. -/
def springEntry : KeyEntry :=
  .of .reader (str "opencode") (by decide) (str "sk-alab-2f") springTime

theorem load_handEdited (created : String) (h : created = "spring" ∨ created = "\"spring\"") :
    loadKeys .reader (.ok (some (handEdited created))) = .ok [editedEntry created] := by
  rcases h with rfl | rfl <;> decide +kernel

theorem create_handEdited (created : String) (h : created = "spring" ∨ created = "\"spring\"") :
    createKey .reader (str "opencode") (str "2f") springTime (.ok (some (handEdited created))) =
      .ok (str "sk-alab-2f", renderKeys [editedEntry created, springEntry]) := by
  rcases h with rfl | rfl <;> decide +kernel

theorem key_commands_preserve_handEdited :
    loadKeys .reader (.ok (some (renderKeys [editedEntry "spring", springEntry]))) =
      .ok [editedEntry "spring", springEntry] := by
  have h := key_commands_preserve_iff reader_toml10 (load_handEdited "spring" (.inl rfl))
  obtain ⟨_, hiff⟩ := h.1 _ _ _ _ _ (create_handEdited "spring" (.inl rfl))
  exact hiff.2 (by decide)

/-- A `created` text with quotation marks: `load` refuses the file that `create` writes. -/
theorem create_breaks_handEdited :
    ¬ ∀ entries key text,
      loadKeys .reader (.ok (some (handEdited "\"spring\""))) = .ok entries →
      createKey .reader (str "opencode") (str "2f") springTime
        (.ok (some (handEdited "\"spring\""))) = .ok (key, text) →
      loadKeys .reader (.ok (some text)) = .ok (entries ++ [springEntry]) := by
  intro hall
  have h := hall _ _ _ (load_handEdited _ (.inr rfl)) (create_handEdited _ (.inr rfl))
  exact absurd h (by decide +kernel)

end AgentLab.Gateway
