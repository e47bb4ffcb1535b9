import AgentLab.Config.Write
import Mathlib.Data.List.Sort
import Mathlib.Data.List.Pairwise

/-!
# The rewritten registry

`write_entry` and then `load_registry`: the entries that were there, the new one in its place, and
all in the order of their ids, each with the disk space of its files. This holds whenever no
description and no file name that is written has a control character, and in no other case
(`registry_rewritten_iff`).
-/

namespace AgentLab.Config

open Python

variable {py : Texts}

/-! ## Accepted entries -/

/-- An entry that `parse_registry` accepts. -/
structure Accepted (e : ModelEntry) : Prop where
  table : ∃ t, e.In t
  space : e.tooSmall = false

theorem plain_of_all {p : Char → Bool} (hp : ∀ c, p c = true → isControl c = false) {value : String}
    (h : value.toList.all p = true) : isBroken value = false :=
  List.any_eq_false.2 fun c hc => by rw [hp c (List.all_eq_true.1 h c hc)]; exact Bool.false_ne_true

theorem toNat_between {c lo hi : Char} (h : lo.val ≤ c.val ∧ c.val ≤ hi.val) :
    lo.toNat ≤ c.toNat ∧ c.toNat ≤ hi.toNat :=
  ⟨UInt32.le_iff_toNat_le.1 h.1, UInt32.le_iff_toNat_le.1 h.2⟩

/-- The characters of identifiers are no control characters. -/
theorem not_control_of_name {c : Char} (h : isNameChar c = true) : isControl c = false := by
  have halphanum : c.isAlphanum = true → '0'.toNat ≤ c.toNat ∧ c.toNat ≤ 'z'.toNat := by
    intro h
    rcases Bool.or_eq_true_iff.1 h with h | h
    · rcases Bool.or_eq_true_iff.1 h with h | h
      · have hupper : 'A'.val ≤ c.val ∧ c.val ≤ 'Z'.val := of_decide_eq_true h
        exact ⟨le_trans (by decide) (toNat_between hupper).1,
          (toNat_between hupper).2.trans (by decide)⟩
      · have hlower := Bool.and_eq_true_iff.1 h
        have hrange := toNat_between ⟨of_decide_eq_true hlower.1, of_decide_eq_true hlower.2⟩
        exact ⟨le_trans (by decide) hrange.1, hrange.2⟩
    · have hdigit := Char.isDigit_iff_toNat.1 h
      exact ⟨hdigit.1, hdigit.2.trans (by decide)⟩
  have hrange : 0x2D ≤ c.toNat ∧ c.toNat < 0x7F := by
    simp only [isNameChar, Bool.or_eq_true, decide_eq_true_eq] at h
    rcases h with ((h | rfl) | rfl) | rfl
    · exact ⟨le_trans (by decide) (halphanum h).1, (halphanum h).2.trans_lt (by decide)⟩
    all_goals decide
  unfold isControl
  simp only [Bool.or_eq_false_iff, Bool.and_eq_false_iff, decide_eq_false_iff_not]
  omega

theorem name_of_alphanum {c : Char} (h : c.isAlphanum = true) : isNameChar c = true := by
  simp [isNameChar, h]

theorem name_of_lower {c : Char} (h : isLower c = true) : isNameChar c = true := by
  have halpha : c.isAlpha = true := Bool.or_eq_true_iff.2 (.inr h)
  exact name_of_alphanum (Bool.or_eq_true_iff.2 (.inl halpha))

theorem name_of_digit {c : Char} (h : c.isDigit = true) : isNameChar c = true :=
  name_of_alphanum (Bool.or_eq_true_iff.2 (.inr h))

theorem name_of_id {c : Char} (h : isIdChar c = true) : isNameChar c = true := by
  simp only [isIdChar, isIdStart, Bool.or_eq_true, decide_eq_true_eq] at h
  rcases h with (((h | h) | rfl) | rfl) | rfl
  · exact name_of_lower h
  · exact name_of_digit h
  all_goals decide

theorem name_of_hex {c : Char} (h : isHexChar c = true) : isNameChar c = true := by
  simp only [isHexChar, Bool.or_eq_true, Bool.and_eq_true, decide_eq_true_eq] at h
  rcases h with h | ⟨hge, hle⟩
  · exact name_of_digit h
  · have hlower : isLower c = true := by
      simp only [isLower, Bool.and_eq_true, decide_eq_true_eq]
      exact ⟨hge, Char.le_trans hle (by decide)⟩
    exact name_of_lower hlower

theorem plain_of_name {p : Char → Bool} (hp : ∀ c, p c = true → isNameChar c = true)
    {value : String} (h : value.toList.all p = true) : isBroken value = false :=
  plain_of_all (fun c hc => not_control_of_name (hp c hc)) h

theorem plain_of_repo {value : String} (h : repoRe value = true) : isBroken value = false := by
  unfold repoRe at h
  obtain ⟨-, hparts⟩ := Bool.and_eq_true_iff.1 h
  refine List.any_eq_false.2 fun c hc => ?_
  have hvalue : ['/'].intercalate (value.toList.splitOn '/') = value.toList :=
    List.intercalate_splitOn '/'
  rw [← hvalue] at hc
  have hmem : ∀ parts : List (List Char), (∀ part ∈ parts, isRepoPart part = true) →
      c ∈ ['/'].intercalate parts → isControl c = false := by
    intro parts
    induction parts with
    | nil => exact fun _ hc => absurd hc (by simp)
    | cons part parts ih =>
      intro hall hc
      obtain ⟨hpart, hall⟩ := List.forall_mem_cons.1 hall
      have hchars : c ∈ part → isControl c = false := fun hc =>
        not_control_of_name (List.all_eq_true.1 (Bool.and_eq_true_iff.1 hpart).2 c hc)
      cases parts with
      | nil => exact hchars (by simpa using hc)
      | cons next parts =>
        rw [List.intercalate_cons_cons, List.mem_append, List.mem_append, List.mem_singleton] at hc
        rcases hc with (hc | rfl) | hc
        · exact hchars hc
        · rfl
        · exact ih hall hc
  rw [hmem _ (List.all_eq_true.1 hparts) hc]
  exact Bool.false_ne_true

theorem ne_empty_of_length {value : String} {n : ℕ} (h : value.toList.length = n) (hn : n ≠ 0) :
    value ≠ "" := by
  rintro rfl
  exact hn h.symm

theorem Accepted.totalSize_le {e : ModelEntry} (h : Accepted e) :
    (e.totalSize : ℤ) ≤ maxGb * GIB := by
  obtain ⟨t, ht⟩ := h.table
  obtain ⟨text, -, htext, hpos⟩ := ht.diskSpace
  obtain ⟨items, -, hne, hitems, -⟩ := ht.files
  have hfiles : e.files ≠ [] := fun hnil => hne (List.forall₂_nil_right_iff.1 (hnil ▸ hitems))
  have hspace : (e.totalSize : ℤ) ≤ e.diskSpace := by
    have hsmall := h.space
    unfold ModelEntry.tooSmall at hsmall
    simp only [Bool.and_eq_false_iff, Bool.not_eq_eq_eq_not, Bool.not_false, List.isEmpty_iff,
      decide_eq_false_iff_not, ne_eq, not_not, not_lt] at hsmall
    rcases hsmall with (hnil | hzero) | hle
    · exact absurd hnil hfiles
    · omega
    · exact hle
  exact hspace.trans (parseSize_le htext)

/-- A number has no more decimal digits than bits. -/
theorem length_toDigits_le {n k : ℕ} (hk : 0 < k) (h : n < 2 ^ k) :
    (Nat.toDigits 10 n).length ≤ k :=
  (Nat.length_toDigits_le_iff (by decide) hk).2 (h.trans_le (Nat.pow_le_pow_left (by decide) k))

/-- The sizes of accepted files have few digits. -/
theorem Accepted.short {e : ModelEntry} (h : Accepted e) {f : ModelFile} (hf : f ∈ e.files) :
    Short f := by
  have hsize : f.size ≤ e.totalSize := List.single_le_sum (fun _ _ => Nat.zero_le _) _
    (List.mem_map_of_mem hf)
  have hmax : ((maxGb * GIB : ℕ) : ℚ) < (2 ^ 1024 : ℕ) := by
    rw [Nat.cast_mul, maxGb_mul, Nat.cast_pow, Nat.cast_ofNat]
    exact maxFloat_lt
  have htotal : e.totalSize ≤ maxGb * GIB := by exact_mod_cast h.totalSize_le
  have hnat : maxGb * GIB < 2 ^ 1024 := (Nat.cast_lt (α := ℚ)).1 hmax
  have hlength := length_toDigits_le (by decide) ((hsize.trans htotal).trans_lt hnat)
  exact hlength.trans (by decide)

theorem Accepted.printed {e : ModelEntry} (h : Accepted e) : e.Printed := by
  obtain ⟨t, ht⟩ := h.table
  refine ⟨⟨ht.id.2.1, ?_⟩, ht.description.2.1, ⟨ht.repo.2.1, plain_of_repo ht.repo.2.2⟩,
    ⟨ht.revision.2.1, ?_⟩, fun f hf => ⟨?_, h.short hf, ?_, ?_⟩⟩
  · exact plain_of_name (fun _ => name_of_id) (Bool.and_eq_true_iff.1 ht.id.2.2).2
  · exact plain_of_name (fun _ => name_of_hex) (Bool.and_eq_true_iff.1 ht.revision.2.2).2
  · rintro hname
    have hproblem := (ht.files.valid f hf).name
    rw [hname] at hproblem
    cases hproblem
  · have hsha := (Bool.and_eq_true_iff.1 (ht.files.valid f hf).sha256).1
    exact ne_empty_of_length (of_decide_eq_true hsha) (by decide)
  · exact plain_of_name (fun _ => name_of_hex)
      (Bool.and_eq_true_iff.1 (ht.files.valid f hf).sha256).2

theorem accepted_of_parse {path : String} {data : List (String × Toml)} {entries : List ModelEntry}
    (h : parseRegistry py path data = .ok entries) : ∀ e ∈ entries, Accepted e := fun e he =>
  have hin := parseRegistry_eq_ok.1 h
  ⟨hin.table e he, hin.space e he⟩

/-! ## The written document -/

theorem fileTable_item {f : ModelFile} (h : f.Valid) : FileItem (.table (fileTable f)) f :=
  ⟨fileTable f, rfl, ⟨rfl, rfl, rfl, by simp [OnlyFields, fileTable, fileFields]⟩, h⟩

theorem filesIn_written {value : Option Toml} {files : List ModelFile} (h : FilesIn value files) :
    FilesIn (some (.array (files.map fun f => .table (fileTable f)))) files := by
  have hvalid := h.valid
  obtain ⟨items, -, hne, hitems, hnodup⟩ := h
  have hfiles : files ≠ [] := fun hnil => hne (List.forall₂_nil_right_iff.1 (hnil ▸ hitems))
  refine ⟨_, rfl, by simpa using hfiles, ?_, hnodup⟩
  rw [List.forall₂_map_left_iff]
  exact List.forall₂_same.2 fun f hf => fileTable_item (hvalid f hf)

/-- The entry with another disk space. -/
def ModelEntry.withSpace (e : ModelEntry) (n : ℤ) : ModelEntry := { e with diskSpace := n }

theorem entryTable_in {e : ModelEntry} (h : Accepted e) {space : String} {n : ℤ}
    (hparse : parseSize space = .ok n) (hpos : 0 < n) :
    (e.withSpace n).In (entryTable space e) := by
  obtain ⟨t, ht⟩ := h.table
  exact ⟨⟨rfl, ht.id.2⟩, ⟨rfl, ht.description.2⟩, ⟨rfl, ht.repo.2⟩, ⟨rfl, ht.revision.2⟩,
    ⟨space, rfl, hparse, hpos⟩, filesIn_written ht.files,
    by simp [OnlyFields, entryTable, entryFields]⟩

section

variable {space : ModelEntry → String} {number : ModelEntry → ℤ} {entries : List ModelEntry}

theorem parse_written {path : String} (haccepted : ∀ e ∈ entries, Accepted e)
    (hids : (entries.map ModelEntry.id).Nodup) (hspace : ∀ e ∈ entries,
      parseSize (space e) = .ok (number e) ∧ (e.totalSize : ℤ) ≤ number e ∧ 0 < number e) :
    parseRegistry py path (tablesData (entries.map fun e => entryTable (space e) e)) =
      .ok (entries.map fun e => e.withSpace (number e)) := by
  refine parseRegistry_eq_ok.2 ⟨?_, ?_, ?_, ?_⟩
  · refine ⟨entries.map fun e => .table (entryTable (space e) e), ?_, ?_⟩
    · unfold tablesData
      split_ifs with hnil
      · rw [List.map_eq_nil_iff.1 hnil]
        rfl
      · rw [List.map_map]
        rfl
    · rw [List.forall₂_map_left_iff, List.forall₂_map_right_iff]
      refine List.forall₂_same.2 fun e he => ⟨_, rfl, ?_⟩
      exact entryTable_in (haccepted e he) (hspace e he).1 (hspace e he).2.2
  · rw [List.map_map]
    exact hids
  · rintro _ he'
    obtain ⟨e, he, rfl⟩ := List.mem_map.1 he'
    have hle : ¬(number e < (e.withSpace (number e)).totalSize) := not_lt.2 (hspace e he).2.1
    have hnot := decide_eq_false hle
    unfold ModelEntry.tooSmall
    exact (congrArg (fun b => _ && b) hnot).trans (Bool.and_false _)
  · unfold tablesData
    split_ifs
    · exact nofun
    · simp [OnlyFields]

end

/-! ## The entries of the new registry -/

/-- `old` with `entry` added or in the place of the one with its id, in the order of the ids. -/
structure Merged (old : List ModelEntry) (entry : ModelEntry) (merged : List ModelEntry) :
    Prop where
  mem : ∀ e, e ∈ merged ↔ e = entry ∨ e ∈ old ∧ e.id ≠ entry.id
  order : (merged.map ModelEntry.id).Pairwise (· < ·)

theorem Merged.nodup {old merged : List ModelEntry} {entry : ModelEntry}
    (h : Merged old entry merged) : (merged.map ModelEntry.id).Nodup :=
  List.Pairwise.imp (fun {a b} (hlt : a < b) (heq : a = b) => String.lt_irrefl b (heq ▸ hlt))
    h.order

theorem mem_setEntry {old : List ModelEntry} {entry e : ModelEntry} :
    e ∈ setEntry old entry ↔ e = entry ∨ e ∈ old ∧ e.id ≠ entry.id := by
  unfold setEntry
  split_ifs with hmem
  · rw [List.mem_map]
    constructor
    · rintro ⟨e', he', rfl⟩
      split_ifs with hid
      · exact .inl rfl
      · exact .inr ⟨he', hid⟩
    · rintro (rfl | ⟨he, hid⟩)
      · obtain ⟨e', he', hid⟩ := List.mem_map.1 hmem
        exact ⟨e', he', if_pos hid⟩
      · exact ⟨e, he, if_neg hid⟩
  · rw [List.mem_append, List.mem_singleton, or_comm]
    refine or_congr_right ⟨fun he => ⟨he, fun hid => hmem (hid ▸ List.mem_map_of_mem he)⟩, And.left⟩

theorem setEntry_ids {old : List ModelEntry} (h : (old.map ModelEntry.id).Nodup)
    (entry : ModelEntry) :
    ((setEntry old entry).map ModelEntry.id).Nodup := by
  unfold setEntry
  split_ifs with hmem
  · have hids : (old.map fun e => if e.id = entry.id then entry else e).map ModelEntry.id =
        old.map ModelEntry.id := by
      rw [List.map_map]
      refine List.map_congr_left fun e _ => ?_
      rw [Function.comp_apply]
      split_ifs with hid
      · exact hid.symm
      · rfl
    rwa [hids]
  · rw [List.map_append]
    refine List.nodup_append'.2 ⟨h, List.nodup_singleton _, ?_⟩
    simpa using hmem

theorem mem_sortedEntries {entries : List ModelEntry} {e : ModelEntry} :
    e ∈ sortedEntries entries ↔ e ∈ entries := List.mem_mergeSort

theorem merged_sorted {old : List ModelEntry} (h : (old.map ModelEntry.id).Nodup)
    (entry : ModelEntry) :
    Merged old entry (sortedEntries (setEntry old entry)) := by
  refine ⟨fun e => mem_sortedEntries.trans mem_setEntry, ?_⟩
  have hsorted : (sortedEntries (setEntry old entry)).Pairwise fun a b => a.id ≤ b.id := by
    refine (List.pairwise_mergeSort (fun a b c hab hbc => ?_) (fun a b => ?_) _).imp
      of_decide_eq_true
    · exact decide_eq_true (String.le_trans (of_decide_eq_true hab) (of_decide_eq_true hbc))
    · simpa using String.le_total a.id b.id
  have hnodup : ((sortedEntries (setEntry old entry)).map ModelEntry.id).Nodup :=
    ((List.mergeSort_perm _ _).map _).nodup_iff.2 (setEntry_ids h entry)
  have hle := List.pairwise_map.2 hsorted
  refine (hle.and hnodup).imp fun {a b} h => ?_
  exact String.not_le.1 fun hba => h.2 (String.le_antisymm h.1 hba)

/-! ## The round trip -/

/-- The entry, with the disk space of its files. -/
structure Rewritten (e e' : ModelEntry) : Prop where
  same : e' = e.withSpace e'.diskSpace
  space : ∃ rounds text,
    (∀ fuel, rounds ≤ fuel → diskSpaceFor fuel e.totalSize = .ok (some text)) ∧
      parseSize text = .ok e'.diskSpace

/-- `write_entry` writes a file, of which `load_registry` reads the old entries and the new one. -/
def Survives (py : Texts) (loads : Parser) (path : String) (file : Option FileRead)
    (old : List ModelEntry) (entry : ModelEntry) : Prop :=
  ∃ rounds bytes merged new,
    (∀ fuel, rounds ≤ fuel → writeEntry py loads fuel path file entry = .ok (some bytes)) ∧
      loadRegistry py loads path (.bytes bytes) = .ok new ∧ Merged old entry merged ∧
        List.Forall₂ Rewritten merged new

theorem plain_decimal (s : ℕ) : PlainText (decimal s ++ "GB") := by
  have htoString : ∀ n : ℕ, (toString n).toList = Nat.toDigits 10 n := fun n => Nat.toList_repr
  refine ⟨fun hnil => ?_, plain_of_all (fun _ => not_control_of_name)
    (List.all_eq_true.2 fun c hc => ?_)⟩
  · have hlist := congrArg String.toList hnil
    simp at hlist
  · have hdigits : ∀ n, ∀ d ∈ Nat.toDigits 10 n, isNameChar d = true := fun n d hd =>
      name_of_digit (Nat.isDigit_of_mem_toDigits (by decide) (by decide) hd)
    simp only [decimal, String.toList_append, htoString, List.mem_append] at hc
    rcases hc with ((hc | hc) | hc) | hc
    · exact hdigits _ c hc
    · exact List.all_eq_true.1 (by decide : ".".toList.all isNameChar = true) c hc
    · exact hdigits _ c hc
    · exact List.all_eq_true.1 (by decide : "GB".toList.all isNameChar = true) c hc

/-- The spaces of some entries, and the rounds that are enough for all. -/
theorem spaces_ok {entries : List ModelEntry} (haccepted : ∀ e ∈ entries, Accepted e) :
    ∃ (rounds : ℕ) (space : ModelEntry → String) (number : ModelEntry → ℤ), ∀ e ∈ entries,
      (∀ fuel, rounds ≤ fuel → diskSpaceFor fuel e.totalSize = .ok (some (space e))) ∧
        PlainText (space e) ∧ parseSize (space e) = .ok (number e) ∧ (e.totalSize : ℤ) ≤ number e ∧
          0 < number e := by
  choose! rounds s number hspec using fun e he => diskSpaceFor_ok (haccepted e he).totalSize_le
  refine ⟨(entries.map rounds).sum, fun e => decimal (s e) ++ "GB", number, fun e he => ?_⟩
  obtain ⟨hrounds, hrest⟩ := hspec e he
  have hle : rounds e ≤ (entries.map rounds).sum :=
    List.single_le_sum (fun _ _ => Nat.zero_le _) _ (List.mem_map_of_mem he)
  exact ⟨fun fuel hfuel => hrounds fuel (hle.trans hfuel), plain_decimal _, hrest⟩

section

variable {loads : Parser} {path : String} {file : Option FileRead} {old : List ModelEntry}
  {entry : ModelEntry}

/-- What `write_entry` comes to, from the text on. -/
theorem writeEntry_eq (hold : currentRegistry py loads path file = .ok old) {fuel : ℕ}
    {body : String}
    (hbody : renderEntries fuel (sortedEntries (setEntry old entry)) = .ok (some body)) :
    writeEntry py loads fuel path file entry = (do
      let _ ← configFault (parseRegistry py path (← loadsFault loads (HEADER ++ body)))
      return some (utf8 (HEADER ++ body).toList)) := by
  unfold writeEntry
  rw [hold]
  show (builtinFault _ >>= _) = _
  rw [hbody]
  rfl

theorem loadRegistry_utf8 (text : String) : loadRegistry py loads path (.bytes (utf8 text.toList)) =
    (match loads text with
      | .error exc => .error (.own ("cannot parse " ++ path ++ ": " ++ exc))
      | .ok data => parseRegistry py path data) := by
  have hdecode : decodeUtf8 (utf8 text.toList) = .ok text := by
    unfold decodeUtf8
    rw [fromUTF8?_utf8, String.ofList_toList]
  unfold loadRegistry loadToml
  dsimp only
  rw [hdecode]
  dsimp only
  cases loads text <;> rfl

/-- **Without such a character, the registry survives.** -/
theorem survives_of_plain (hloads : Follows loads)
    (hold : currentRegistry py loads path file = .ok old)
    (hids : (old.map ModelEntry.id).Nodup) (hall : ∀ e ∈ setEntry old entry, Accepted e)
    (hplain : ∀ e ∈ setEntry old entry, e.broken = false) :
    Survives py loads path file old entry := by
  have hmerged := merged_sorted hids entry
  have hmem : ∀ {e}, e ∈ sortedEntries (setEntry old entry) → e ∈ setEntry old entry :=
    mem_sortedEntries.1
  obtain ⟨rounds, space, number, hspec⟩ := spaces_ok fun e he => hall e (hmem he)
  have hprinted : ∀ e ∈ sortedEntries (setEntry old entry), e.Printed := fun e he =>
    (hall e (hmem he)).printed
  have hrender : ∀ fuel, rounds ≤ fuel → ∃ body,
      renderEntries fuel (sortedEntries (setEntry old entry)) = .ok (some body) ∧
        body.toList = entriesText space (sortedEntries (setEntry old entry)) := fun fuel hfuel =>
    renderEntries_ok (fun e he => (hspec e he).1 fuel hfuel) hprinted
  obtain ⟨body, -, hbody⟩ := hrender rounds le_rfl
  have hbroken : (sortedEntries (setEntry old entry)).any ModelEntry.broken = false :=
    List.any_eq_false.2 fun e he => by rw [hplain e (hmem he)]; exact Bool.false_ne_true
  have hread := readToml_rendered hbody hprinted fun e he => (hspec e he).2.1
  rw [hbroken, if_neg Bool.false_ne_true] at hread
  have hnodup : ((sortedEntries (setEntry old entry)).map ModelEntry.id).Nodup :=
    List.Pairwise.imp (fun {a b} (h : a < b) (heq : a = b) => String.lt_irrefl b (heq ▸ h))
      hmerged.order
  have hparse : parseRegistry py path _ = .ok _ :=
    parse_written (fun e he => hall e (hmem he)) hnodup fun e he => (hspec e he).2.2
  refine ⟨rounds, utf8 (HEADER ++ body).toList, _,
    (sortedEntries (setEntry old entry)).map fun e => e.withSpace (number e),
    fun fuel hfuel => ?_, ?_, hmerged, ?_⟩
  · obtain ⟨body', hok, hbody'⟩ := hrender fuel hfuel
    obtain rfl : body' = body := String.toList_inj.1 (hbody'.trans hbody.symm)
    have hfault : loadsFault loads (HEADER ++ body') = .ok (tablesData
        ((sortedEntries (setEntry old entry)).map fun e => entryTable (space e) e)) := by
      unfold loadsFault
      rw [hloads.reads _ _ hread]
    rw [writeEntry_eq hold hok, hfault]
    show (configFault (parseRegistry py path _) >>= _) = _
    rw [hparse]
    rfl
  · rw [loadRegistry_utf8, hloads.reads _ _ hread]
    exact hparse
  · rw [List.forall₂_map_right_iff]
    refine List.forall₂_same.2 fun e he => ⟨rfl, rounds, space e, (hspec e he).1, ?_⟩
    exact (hspec e he).2.2.1

/-- **With one, `write_entry` raises.** -/
theorem not_survives_of_broken (hloads : Follows loads)
    (hold : currentRegistry py loads path file = .ok old)
    (hall : ∀ e ∈ setEntry old entry, Accepted e)
    (hbroken : ∃ e ∈ setEntry old entry, e.broken = true) :
    ¬Survives py loads path file old entry := by
  have hmem : ∀ {e}, e ∈ sortedEntries (setEntry old entry) → e ∈ setEntry old entry :=
    mem_sortedEntries.1
  rintro ⟨rounds', bytes, -, -, hwrite, -⟩
  obtain ⟨rounds, space, number, hspec⟩ := spaces_ok fun e he => hall e (hmem he)
  have hprinted : ∀ e ∈ sortedEntries (setEntry old entry), e.Printed := fun e he =>
    (hall e (hmem he)).printed
  obtain ⟨body, hok, hbody⟩ := renderEntries_ok
    (fun e he => (hspec e he).1 (max rounds rounds') (le_max_left _ _)) hprinted
  obtain ⟨e, he, hcontrol⟩ := hbroken
  have hread := readToml_rendered hbody hprinted fun e he => (hspec e he).2.1
  rw [if_pos (List.any_eq_true.2 ⟨e, mem_sortedEntries.2 he, hcontrol⟩)] at hread
  obtain ⟨exc, hexc⟩ := hloads.rejects _ hread
  have hraise := hwrite _ (le_max_right rounds rounds')
  have hfault : loadsFault loads (HEADER ++ body) = .error (.own (.tomlDecodeError exc)) := by
    unfold loadsFault
    rw [hexc]
  rw [writeEntry_eq hold hok, hfault] at hraise
  cases hraise

end

/-- The entries before and after the new one is set are all accepted, and no two have one id. -/
theorem accepted_setEntry {loads : Parser} {path : String} {file : Option FileRead}
    {old : List ModelEntry} {entry : ModelEntry}
    (hold : currentRegistry py loads path file = .ok old) (hentry : Accepted entry) :
    (old.map ModelEntry.id).Nodup ∧ ∀ e ∈ setEntry old entry, Accepted e := by
  have hall : (old.map ModelEntry.id).Nodup ∧ ∀ e ∈ old, Accepted e := by
    cases file with
    | none =>
      obtain rfl := Except.ok.inj hold
      exact ⟨List.nodup_nil, nofun⟩
    | some file =>
      obtain ⟨data, -, hparse⟩ := Except.bind_eq_ok.1 hold
      exact ⟨(parseRegistry_eq_ok.1 hparse).ids, accepted_of_parse hparse⟩
  refine ⟨hall.1, fun e he => ?_⟩
  rcases mem_setEntry.1 he with rfl | ⟨he, -⟩
  · exact hentry
  · exact hall.2 e he

/-- **The registry survives being rewritten exactly if no string that is written has a control
character.** -/
theorem registry_rewritten_iff (py : Texts) {loads : Parser} (hloads : Follows loads)
    {path : String} {file : Option FileRead} {old : List ModelEntry} {entry : ModelEntry}
    (hold : currentRegistry py loads path file = .ok old)
    (hentry : ∃ path data entries, parseRegistry py path data = .ok entries ∧ entry ∈ entries) :
    Survives py loads path file old entry ↔
      entry.broken = false ∧ ∀ e ∈ old, e.id ≠ entry.id → e.broken = false := by
  obtain ⟨_, _, _, hparse, hmem⟩ := hentry
  obtain ⟨hids, hall⟩ := accepted_setEntry hold (accepted_of_parse hparse entry hmem)
  have hplain : (∀ e ∈ setEntry old entry, e.broken = false) ↔
      entry.broken = false ∧ ∀ e ∈ old, e.id ≠ entry.id → e.broken = false := by
    constructor
    · exact fun h => ⟨h entry (mem_setEntry.2 (.inl rfl)),
        fun e he hid => h e (mem_setEntry.2 (.inr ⟨he, hid⟩))⟩
    · rintro ⟨hentry, hold⟩ e he
      rcases mem_setEntry.1 he with rfl | ⟨he, hid⟩
      · exact hentry
      · exact hold e he hid
  rw [← hplain]
  constructor
  · intro hsurvives e he
    by_contra hbroken
    exact not_survives_of_broken hloads hold hall ⟨e, he, Bool.of_not_eq_false hbroken⟩ hsurvives
  · exact survives_of_plain hloads hold hids hall

/-- The fragment as a parser. -/
def fragmentLoads : Parser := fun text =>
  match readToml text with
  | .ok data => .ok data
  | .error _ => .error "Invalid statement"

theorem fragment_follows : Follows fragmentLoads where
  reads text data h := by
    unfold fragmentLoads
    rw [h]
  rejects text h := by
    unfold fragmentLoads
    rw [h]
    exact ⟨_, rfl⟩

def plainTexts : Texts := ⟨fun _ => .ok "", fun _ => .ok ""⟩

theorem empty_registry :
    currentRegistry plainTexts fragmentLoads "models.toml" (some (.bytes [])) = .ok [] := by
  show loadRegistry plainTexts fragmentLoads "models.toml" (.bytes (utf8 "".toList)) = _
  rw [loadRegistry_utf8]
  unfold fragmentLoads readToml
  rw [String.toList_empty, readLines]
  rfl

/-- An entry written to the file that `write_entry` has made of an empty one. -/
theorem registry_rewritten_nested : ∃ bytes e, Rewritten tinyEntry e ∧
    currentRegistry plainTexts fragmentLoads "models.toml" (some (.bytes bytes)) = .ok [e] ∧
    Survives plainTexts fragmentLoads "models.toml" (some (.bytes bytes)) [e] nestedEntry := by
  have hparse : parseRegistry plainTexts "models.toml" nestedData = .ok [tinyEntry, nestedEntry] :=
    parseRegistry_eq_ok.2 nested_in
  have htiny : tinyEntry ∈ [tinyEntry, nestedEntry] := List.mem_cons_self
  have hnested : nestedEntry ∈ [tinyEntry, nestedEntry] :=
    List.mem_cons_of_mem _ List.mem_cons_self
  obtain ⟨_, bytes, merged, new, -, hload, hmerged, hnew⟩ :=
    (registry_rewritten_iff plainTexts fragment_follows empty_registry ⟨_, _, _, hparse, htiny⟩).2
      ⟨by decide, List.forall_mem_nil _⟩
  obtain rfl : merged = [tinyEntry] := by
    refine List.perm_singleton.1
      ((List.perm_ext_iff_of_nodup (.of_map _ hmerged.nodup) (List.nodup_singleton _)).2 ?_)
    intro e
    simp [hmerged.mem e]
  obtain ⟨e, _, he, hnil, rfl⟩ := List.forall₂_cons_left_iff.1 hnew
  obtain rfl := List.forall₂_nil_left_iff.1 hnil
  have hcurrent : currentRegistry plainTexts fragmentLoads "models.toml" (some (.bytes bytes)) =
      .ok [e] := hload
  have hbroken : e.broken = false := by
    rw [he.same]
    show tinyEntry.broken = false
    decide
  refine ⟨bytes, e, he, hcurrent, ?_⟩
  have hiff :=
    registry_rewritten_iff plainTexts fragment_follows hcurrent ⟨_, _, _, hparse, hnested⟩
  refine hiff.2 ?_
  exact ⟨by decide, List.forall_mem_singleton.2 fun _ => hbroken⟩

/-- A description of two lines. -/
def linesEntry : ModelEntry := { tinyEntry with description := "A model.\nA tiny one." }

def linesData : List (String × Toml) :=
  [("model", .array [.table [("id", .str "tiny"), ("description", .str "A model.\nA tiny one."),
    ("repo", .str "owner/tiny"), ("revision", .str ("".pushn '0' 40)), ("disk_space", .str "1.0GB"),
    ("files", .array [.table [("name", .str "config.json"), ("size", .int 0),
      ("sha256", .str ("".pushn '0' 64))]])]])]

theorem lines_in : RegistryIn linesData [linesEntry] := by
  refine ⟨⟨_, rfl, .cons ⟨_, rfl, ?_⟩ .nil⟩, List.nodup_singleton _, by decide, by decide⟩
  refine ⟨⟨rfl, by decide, by decide⟩, ⟨rfl, by decide, rfl⟩, ⟨rfl, by decide, by decide⟩,
    ⟨rfl, by decide, by decide⟩, ⟨"1.0GB", rfl, by decide +kernel, by decide⟩, ?_, by decide⟩
  exact ⟨_, rfl, List.cons_ne_nil _ _, .cons ⟨_, rfl, ⟨rfl, rfl, rfl, by decide⟩, rfl, rfl⟩ .nil,
    List.nodup_singleton _⟩

/-- `write_entry` of an entry whose description has a line feed raises. -/
theorem registry_not_rewritten : ¬∀ (py : Texts) (loads : Parser), Follows loads →
    ∀ (path : String) (file : Option FileRead) (old : List ModelEntry) (entry : ModelEntry),
      currentRegistry py loads path file = .ok old →
      (∃ path data entries, parseRegistry py path data = .ok entries ∧ entry ∈ entries) →
      Survives py loads path file old entry := by
  intro h
  have hparse : parseRegistry plainTexts "models.toml" linesData = .ok [linesEntry] :=
    parseRegistry_eq_ok.2 lines_in
  have hmem := List.mem_singleton_self linesEntry
  have hall := (accepted_setEntry empty_registry (accepted_of_parse hparse _ hmem)).2
  refine not_survives_of_broken fragment_follows empty_registry hall
    ⟨linesEntry, hmem, by decide⟩ ?_
  exact h _ _ fragment_follows _ _ _ _ empty_registry ⟨_, _, _, hparse, hmem⟩

end AgentLab.Config
