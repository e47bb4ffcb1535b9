import AgentLab.Python.Replace

/-!
# The stamp of a tool

What `bootstrap.sh` writes when it has installed a tool, and its two readers: `read_stamp`, which
takes a line apart at the first equals sign, and `stamp_get` in the shell, which prints what follows
a key.

Both give a key the values that stand for it in the lines (`get?_readStamp`, `stampGet_eq`). The
writing of a stamp may end early; then the values of the keys that were not reached are missing, and
at most the last one is cut (`CutStamp`).
-/

namespace AgentLab.Toolchain

open Python

/-- `=`. -/
abbrev EQUALS : CodePoint := 0x3D

/-! ## The readers -/

/-- `line.partition("=")`, where there is one. -/
def partition (line : Str) : Option (Str × Str) :=
  match line.dropWhile (· ≠ EQUALS) with
  | [] => none
  | _ :: value => some (line.takeWhile (· ≠ EQUALS), value)

def addLine (values : Dict Str) (line : Str) : Dict Str :=
  match partition line with
  | some (key, value) => Dict.set values key value
  | none => values

/-- `read_stamp`. -/
def readStamp : Option Str → Dict Str
  | none => []
  | some text => (splitlines (universalNewlines text)).foldl addLine []

/-- Lines of which the last is open, and none if it is empty. -/
def closeLast (lines : List Str) : List Str :=
  if lines.getLast? = some [] then lines.dropLast else lines

/-- The lines that `sed` reads. -/
def sedLines (text : Str) : List Str := closeLast (text.splitOn 0xA)

/-- What `sed -n "s/^key=//p"` prints of a line. -/
def valueOf (key line : Str) : Option Str :=
  if key ++ [EQUALS] <+: line then some (line.drop (key.length + 1)) else none

/-- `$(stamp_get name key)`, which ends before the newlines at the end. -/
def stampGet (stamp : Option Str) (key : Str) : Str :=
  match stamp with
  | none => []
  | some text => (join (str "\n") ((sedLines text).filterMap (valueOf key))).rdropWhile (· = 0xA)

/-! ## The values of a key -/

/-- The values that the lines of a text have for a key. -/
def values (text key : Str) : List Str := (splitlines text).filterMap (valueOf key)

variable {key name value line text : Str}

theorem valueOf_eq_some : valueOf key line = some value ↔ line = key ++ EQUALS :: value := by
  unfold valueOf
  constructor
  · intro h
    split_ifs at h with hpre
    obtain ⟨rest, rfl⟩ := hpre
    have hvalue : (key ++ [EQUALS] ++ rest).drop (key.length + 1) = rest := by
      rw [← List.length_singleton (a := EQUALS), ← List.length_append, List.drop_left]
    rw [hvalue] at h
    rw [← Option.some.inj h, List.append_assoc]
    rfl
  · rintro rfl
    have hpre : key ++ EQUALS :: value = key ++ [EQUALS] ++ value := by rw [List.append_assoc]; rfl
    rw [hpre, if_pos (List.prefix_append _ _), ← List.length_singleton (a := EQUALS),
      ← List.length_append, List.drop_left]

theorem partition_eq_some :
    partition line = some (key, value) ↔ EQUALS ∉ key ∧ line = key ++ EQUALS :: value := by
  have hwhole := List.takeWhile_append_dropWhile (p := (· ≠ EQUALS)) (l := line)
  have hkey : ∀ {key : Str}, EQUALS ∉ key → ∀ c ∈ key, decide (c ≠ EQUALS) = true :=
    fun hnot c hc => decide_eq_true fun heq => hnot (heq ▸ hc)
  unfold partition
  constructor
  · intro h
    cases hrest : line.dropWhile (· ≠ EQUALS) with
    | nil =>
      rw [hrest] at h
      cases h
    | cons c rest =>
      have hc : c = EQUALS := by
        have hhead := List.head?_dropWhile_not (· ≠ EQUALS) line
        rw [hrest] at hhead
        simpa using hhead
      rw [hrest] at h hwhole
      obtain ⟨rfl, rfl⟩ := Prod.mk.inj (Option.some.inj h)
      refine ⟨fun hmem => ?_, hc ▸ hwhole.symm⟩
      simpa using List.mem_takeWhile_imp hmem
  · rintro ⟨hnot, rfl⟩
    rw [List.dropWhile_append_of_pos (hkey hnot), List.dropWhile_cons_of_neg (by simp),
      List.takeWhile_append_of_pos (hkey hnot), List.takeWhile_cons_of_neg (by simp),
      List.append_nil]

/-- The two ways to take a line apart. -/
theorem partition_iff_valueOf (hkey : EQUALS ∉ key) :
    partition line = some (key, value) ↔ valueOf key line = some value := by
  rw [partition_eq_some, valueOf_eq_some, and_iff_right hkey]

/-- What a line adds for a key. -/
theorem get?_addLine (hkey : EQUALS ∉ key) (d : Dict Str) (line : Str) :
    Dict.get? (addLine d line) key = (valueOf key line).or (Dict.get? d key) := by
  unfold addLine
  cases hline : partition line with
  | none =>
    cases hvalue : valueOf key line with
    | none => rfl
    | some value =>
      rw [(partition_iff_valueOf hkey).2 hvalue] at hline
      cases hline
  | some kv =>
    dsimp only
    rw [Dict.get?_set]
    split_ifs with heq
    · have hpair : partition line = some (key, kv.2) := by rw [hline, ← heq]
      rw [(partition_iff_valueOf hkey).1 hpair]
      rfl
    · cases hvalue : valueOf key line with
      | none => rfl
      | some value =>
        have hpair := (partition_iff_valueOf hkey).2 hvalue
        rw [hline] at hpair
        exact absurd (congrArg Prod.fst (Option.some.inj hpair)) heq

theorem get?_foldl_addLine (hkey : EQUALS ∉ key) (lines : List Str) (d : Dict Str) :
    Dict.get? (lines.foldl addLine d) key =
      (lines.filterMap (valueOf key)).getLast?.or (Dict.get? d key) := by
  induction lines generalizing d with
  | nil => rfl
  | cons line lines ih =>
    rw [List.foldl_cons, ih, get?_addLine hkey, List.filterMap_cons]
    cases hvalue : valueOf key line with
    | none => rfl
    | some value =>
      dsimp only
      rw [List.getLast?_cons, Option.some_or, Option.some_or]
      cases (lines.filterMap (valueOf key)).getLast? <;> rfl

/-- A text in which only newlines end lines. -/
def OneLineEnd (text : Str) : Prop := ∀ c ∈ text, isLineEnd c = true → c = 0xA

/-- `read_stamp` gives a key its last value. -/
theorem get?_readStamp (hkey : EQUALS ∉ key) (htext : OneLineEnd text) :
    Dict.get? (readStamp (some text)) key = (values text key).getLast? := by
  have hcr : 0xD ∉ text := fun hmem => absurd (htext _ hmem (by decide)) (by decide)
  unfold readStamp
  dsimp only
  rw [universalNewlines_eq_self hcr, get?_foldl_addLine hkey, Dict.get?_nil, Option.or_none]
  rfl

theorem closeLast_cons {lines : List Str} (hne : lines ≠ []) (line : Str) :
    closeLast (line :: lines) = line :: closeLast lines := by
  unfold closeLast
  rw [List.getLast?_cons_of_ne_nil hne, List.dropLast_cons_of_ne_nil hne]
  split_ifs <;> rfl

theorem splitlinesFrom_eq (htext : OneLineEnd text) (line : Str) :
    splitlinesFrom isLineEnd line false text =
      closeLast ((text.splitOn 0xA).modifyHead (line ++ ·)) := by
  induction text generalizing line with
  | nil =>
    rw [List.splitOn_eq_splitOnP, List.splitOnP_nil, List.modifyHead_cons, List.append_nil]
    unfold splitlinesFrom closeLast
    cases line <;> rfl
  | cons c text ih =>
    obtain ⟨hc, htext⟩ := List.forall_mem_cons.1 htext
    have hno : ¬(c = 0xA ∧ false = true) := fun hcrlf => Bool.false_ne_true hcrlf.2
    have hne : text.splitOn 0xA ≠ [] := by
      rw [List.splitOn_eq_splitOnP]
      exact List.splitOnP_ne_nil _ _
    rw [splitlinesFrom, if_neg hno, List.splitOn_eq_splitOnP, List.splitOnP_cons_eq_if_modifyHead,
      ← List.splitOn_eq_splitOnP]
    by_cases hlf : c = 0xA
    · have hhead : (text.splitOn 0xA).modifyHead ([] ++ ·) = text.splitOn 0xA := by
        cases text.splitOn 0xA <;> rfl
      rw [if_pos (by rw [hlf]; decide), if_pos (beq_iff_eq.2 hlf), List.modifyHead_cons,
        List.append_nil, closeLast_cons hne, decide_eq_false (by rw [hlf]; decide), ih htext, hhead]
    · rw [if_neg (fun hend => hlf (hc hend)), if_neg (fun heq => hlf (beq_iff_eq.1 heq)), ih htext]
      cases text.splitOn 0xA with
      | nil => rfl
      | cons piece pieces =>
        rw [List.modifyHead_cons, List.modifyHead_cons, List.modifyHead_cons, List.append_assoc]
        rfl

theorem sedLines_eq (htext : OneLineEnd text) : sedLines text = splitlines text := by
  have hhead : (text.splitOn 0xA).modifyHead ([] ++ ·) = text.splitOn 0xA := by
    cases text.splitOn 0xA <;> rfl
  have hlines := splitlinesFrom_eq htext []
  rw [hhead] at hlines
  exact hlines.symm

theorem stampGet_some (htext : OneLineEnd text) :
    stampGet (some text) key = (join (str "\n") (values text key)).rdropWhile (· = 0xA) := by
  unfold stampGet
  dsimp only
  rw [sedLines_eq htext]
  rfl

/-- `stamp_get` gives a key its value. -/
theorem stampGet_eq (htext : OneLineEnd text) (hvalue : values text key = [value])
    (hline : 0xA ∉ value) : stampGet (some text) key = value := by
  have hjoin : join (str "\n") [value] = value ++ [] := rfl
  rw [stampGet_some htext, hvalue, hjoin, List.append_nil, List.rdropWhile_eq_self_iff]
  intro hne hlast
  exact hline (of_decide_eq_true hlast ▸ List.getLast_mem hne)

theorem stampGet_nil (htext : OneLineEnd text) (hvalues : values text key = []) :
    stampGet (some text) key = [] := by
  rw [stampGet_some htext, hvalues]
  rfl

/-! ## The stamp -/

/-- The keys of a stamp. -/
abbrev VERSION : Str := str "version"
abbrev SHA256 : Str := str "sha256"
abbrev BINARY_SHA256 : Str := str "binary_sha256"

/-- What is printed into the stamp. -/
def stampText (version sha256 binary : Str) : Str :=
  str "version=" ++ version ++ str "\nsha256=" ++ sha256 ++ str "\nbinary_sha256=" ++
    binary ++ str "\n"

/-- A text of one line. -/
def OneLine (s : Str) : Prop := ∀ c ∈ s, isLineEnd c = false

def stampLines (version sha256 binary : Str) : List Str :=
  [VERSION ++ EQUALS :: version, SHA256 ++ EQUALS :: sha256, BINARY_SHA256 ++ EQUALS :: binary]

variable {version sha256 binary part : Str}

theorem stampText_eq (version sha256 binary : Str) :
    stampText version sha256 binary = (stampLines version sha256 binary).flatMap (· ++ [0xA]) := by
  simp [stampText, stampLines, str]

theorem splitlines_line {line : Str} (h : OneLine line) (hne : line ≠ []) :
    splitlines line = [line] := by
  have hopen := splitlinesFrom_open h [] []
  rw [List.append_nil, List.nil_append, splitlinesFrom, if_neg (by simpa using hne)] at hopen
  exact hopen

theorem splitlines_newline {line : Str} (h : OneLine line) (more : Str) :
    splitlines (line ++ 0xA :: more) = line :: splitlines more := by
  unfold splitlines
  rw [splitlinesFrom_open h, splitlinesFrom, if_neg fun hcrlf => Bool.false_ne_true hcrlf.2,
    if_pos (by decide)]
  rfl

theorem splitlines_lines {lines : List Str} (h : ∀ l ∈ lines, OneLine l) :
    splitlines (lines.flatMap (· ++ [0xA])) = lines := by
  induction lines with
  | nil => rfl
  | cons l lines ih =>
    obtain ⟨hl, hlines⟩ := List.forall_mem_cons.1 h
    rw [List.flatMap_cons, List.append_assoc, List.singleton_append, splitlines_newline hl,
      ih hlines]

/-- The lines of a text that is cut. -/
theorem splitlines_cut {lines : List Str} (h : ∀ l ∈ lines, OneLine l) {cut : Str}
    (hcut : cut <+: lines.flatMap (· ++ [0xA])) : ∃ done rest, lines = done ++ rest ∧
      (splitlines cut = done ∨
        ∃ l more part, rest = l :: more ∧ part <+: l ∧ splitlines cut = done ++ [part]) := by
  induction lines generalizing cut with
  | nil =>
    obtain rfl := List.prefix_nil.1 hcut
    exact ⟨[], [], rfl, .inl rfl⟩
  | cons l lines ih =>
    obtain ⟨hl, hlines⟩ := List.forall_mem_cons.1 h
    rw [List.flatMap_cons, List.append_assoc] at hcut
    have hwithin : cut <+: l → ∃ done rest, l :: lines = done ++ rest ∧ (splitlines cut = done ∨
        ∃ l' more part, rest = l' :: more ∧ part <+: l' ∧ splitlines cut = done ++ [part]) := by
      intro hpre
      refine ⟨[], l :: lines, rfl, ?_⟩
      by_cases hne : cut = []
      · exact .inl (hne ▸ rfl)
      · exact .inr ⟨l, lines, cut, rfl, hpre,
          splitlines_line (fun c hc => hl c (hpre.subset hc)) hne⟩
    rcases List.prefix_or_prefix_of_prefix hcut (List.prefix_append _ _) with hpre | ⟨more, rfl⟩
    · exact hwithin hpre
    · have hmore : more <+: [0xA] ++ _ := (List.prefix_append_right_inj l).1 hcut
      cases more with
      | nil => exact hwithin (by rw [List.append_nil])
      | cons c more =>
        have hcons : c :: more <+: 0xA :: lines.flatMap (· ++ [0xA]) := hmore
        obtain ⟨rfl, hrest⟩ := List.cons_prefix_cons.1 hcons
        obtain ⟨done, rest, rfl, hdone⟩ := ih hlines hrest
        refine ⟨l :: done, rest, rfl, ?_⟩
        rw [splitlines_newline hl]
        rcases hdone with hdone | ⟨l', rest', part, hrest, hpart, hdone⟩
        · exact .inl (congrArg (l :: ·) hdone)
        · exact .inr ⟨l', rest', part, hrest, hpart, congrArg (l :: ·) hdone⟩

/-- A line that is cut has no other key than the line. -/
theorem valueOf_begins (hkey : EQUALS ∉ key) (hname : EQUALS ∉ name) {whole : Str}
    (hline : line <+: name ++ EQUALS :: whole) (hvalue : valueOf key line = some value) :
    key = name ∧ value <+: whole := by
  obtain ⟨more, hmore⟩ := hline
  rw [valueOf_eq_some.1 hvalue, List.append_assoc, List.cons_append] at hmore
  have hpair : partition (key ++ EQUALS :: (value ++ more)) = some (key, value ++ more) :=
    partition_eq_some.2 ⟨hkey, rfl⟩
  rw [hmore, partition_eq_some.2 ⟨hname, rfl⟩] at hpair
  obtain ⟨rfl, rfl⟩ := Prod.mk.inj (Option.some.inj hpair)
  exact ⟨rfl, List.prefix_append _ _⟩

theorem valueOf_other (hkey : EQUALS ∉ key) (hname : EQUALS ∉ name) {whole : Str}
    (hline : line <+: name ++ EQUALS :: whole) (hne : key ≠ name) : valueOf key line = none := by
  cases hvalue : valueOf key line with
  | none => rfl
  | some value => exact absurd (valueOf_begins hkey hname hline hvalue).1 hne

theorem valueOf_self (key value : Str) : valueOf key (key ++ EQUALS :: value) = some value :=
  valueOf_eq_some.2 rfl

/-- What a stamp has of which the writing may have ended early: where there is a digest of the
binary, it is the whole of the other values. -/
structure CutStamp (version sha256 binary cut : Str) : Prop where
  oneLineEnd : OneLineEnd cut
  complete : ∀ value ∈ values cut BINARY_SHA256,
    values cut VERSION = [version] ∧ values cut SHA256 = [sha256] ∧
    values cut BINARY_SHA256 = [value] ∧ value <+: binary

theorem equals_not_mem : EQUALS ∉ VERSION ∧ EQUALS ∉ SHA256 ∧ EQUALS ∉ BINARY_SHA256 := by decide

/-- The lines that were written, of which the last may be cut. -/
inductive Written (version sha256 binary : Str) : List Str → Prop
  | none : Written version sha256 binary []
  | version {part : Str} : part <+: VERSION ++ EQUALS :: version →
      Written version sha256 binary [part]
  | sha256 {part : Str} : part <+: SHA256 ++ EQUALS :: sha256 →
      Written version sha256 binary [VERSION ++ EQUALS :: version, part]
  | binary {part : Str} : part <+: BINARY_SHA256 ++ EQUALS :: binary →
      Written version sha256 binary [VERSION ++ EQUALS :: version, SHA256 ++ EQUALS :: sha256, part]

theorem oneLine_stampLines (hversion : OneLine version) (hsha256 : OneLine sha256)
    (hbinary : OneLine binary) :
    ∀ l ∈ stampLines version sha256 binary, OneLine l := by
  have hline : ∀ {name value : Str}, name.all (fun c => !isLineEnd c) = true → OneLine value →
      OneLine (name ++ EQUALS :: value) := fun hname hvalue =>
    List.forall_mem_append.2 ⟨by simpa using hname, List.forall_mem_cons.2 ⟨by decide, hvalue⟩⟩
  unfold stampLines
  simp only [List.forall_mem_cons]
  exact ⟨hline (by decide) hversion, hline (by decide) hsha256, hline (by decide) hbinary,
    List.forall_mem_nil _⟩

theorem written_of_cut (hversion : OneLine version) (hsha256 : OneLine sha256)
    (hbinary : OneLine binary) {cut : Str} (h : cut <+: stampText version sha256 binary) :
    Written version sha256 binary (splitlines cut) := by
  rw [stampText_eq] at h
  obtain ⟨done, rest, hlines, hcut⟩ :=
    splitlines_cut (oneLine_stampLines hversion hsha256 hbinary) h
  unfold stampLines at hlines
  have hself : ∀ {l : Str}, l <+: l := List.prefix_rfl
  rcases done with _ | ⟨a, _ | ⟨b, _ | ⟨c, _ | ⟨d, done⟩⟩⟩⟩ <;>
    simp only [List.nil_append, List.cons_append, List.cons.injEq] at hlines
  · rcases hcut with hcut | ⟨l, more, part, hrest, hpart, hcut⟩
    · rw [hcut]
      exact .none
    · obtain ⟨rfl, -⟩ := List.cons.inj (hlines.trans hrest)
      rw [hcut]
      exact .version hpart
  · obtain ⟨rfl, hlines⟩ := hlines
    rcases hcut with hcut | ⟨l, more, part, hrest, hpart, hcut⟩
    · rw [hcut]
      exact .version hself
    · obtain ⟨rfl, -⟩ := List.cons.inj (hlines.trans hrest)
      rw [hcut]
      exact .sha256 hpart
  · obtain ⟨rfl, rfl, hlines⟩ := hlines
    rcases hcut with hcut | ⟨l, more, part, hrest, hpart, hcut⟩
    · rw [hcut]
      exact .sha256 hself
    · obtain ⟨rfl, -⟩ := List.cons.inj (hlines.trans hrest)
      rw [hcut]
      exact .binary hpart
  · obtain ⟨rfl, rfl, rfl, hlines⟩ := hlines
    rcases hcut with hcut | ⟨l, more, part, hrest, hpart, hcut⟩
    · rw [hcut]
      exact .binary hself
    · cases hlines.trans hrest
  · exact absurd hlines.2.2.2 (by simp)

theorem Written.complete {lines : List Str} (h : Written version sha256 binary lines) :
    ∀ value ∈ lines.filterMap (valueOf BINARY_SHA256),
      lines.filterMap (valueOf VERSION) = [version] ∧
      lines.filterMap (valueOf SHA256) = [sha256] ∧
      lines.filterMap (valueOf BINARY_SHA256) = [value] ∧
        value <+: binary := by
  obtain ⟨hv, hs, hb⟩ := equals_not_mem
  have hself : ∀ {l : Str}, l <+: l := List.prefix_rfl
  have hversion := valueOf_other hb hv (hself (l := VERSION ++ EQUALS :: version)) (by decide)
  have hsha256 := valueOf_other hb hs (hself (l := SHA256 ++ EQUALS :: sha256)) (by decide)
  intro value hvalue
  cases h with
  | none => cases hvalue
  | version hpart =>
    rw [List.filterMap_cons, valueOf_other hb hv hpart (by decide)] at hvalue
    cases hvalue
  | sha256 hpart =>
    rw [List.filterMap_cons, hversion, List.filterMap_cons,
      valueOf_other hb hs hpart (by decide)] at hvalue
    cases hvalue
  | binary hpart =>
    have hvs := valueOf_other hv hs (hself (l := SHA256 ++ EQUALS :: sha256)) (by decide)
    have hsv := valueOf_other hs hv (hself (l := VERSION ++ EQUALS :: version)) (by decide)
    have hpartv := valueOf_other hv hb hpart (by decide)
    have hparts := valueOf_other hs hb hpart (by decide)
    simp only [List.filterMap_cons, List.filterMap_nil, valueOf_self, hversion, hsha256, hvs,
      hsv, hpartv, hparts] at hvalue ⊢
    cases hpartb : valueOf BINARY_SHA256 _ with
    | none =>
      rw [hpartb] at hvalue
      cases hvalue
    | some rest =>
      rw [hpartb] at hvalue
      obtain rfl := List.mem_singleton.1 hvalue
      exact ⟨trivial, trivial, rfl, (valueOf_begins hb hb hpart hpartb).2⟩

theorem cutStamp (hversion : OneLine version) (hsha256 : OneLine sha256) (hbinary : OneLine binary)
    {cut : Str} (h : cut <+: stampText version sha256 binary) :
    CutStamp version sha256 binary cut where
  oneLineEnd c hc hend := by
    have hmem := h.subset hc
    rw [stampText_eq] at hmem
    obtain ⟨l, hl, hc⟩ := List.mem_flatMap.1 hmem
    rcases List.mem_append.1 hc with hc | hc
    · rw [oneLine_stampLines hversion hsha256 hbinary l hl c hc] at hend
      cases hend
    · exact List.mem_singleton.1 hc
  complete := (written_of_cut hversion hsha256 hbinary h).complete

/-- The stamp that was written to its end. -/
theorem values_stampText (hversion : OneLine version) (hsha256 : OneLine sha256)
    (hbinary : OneLine binary) :
    values (stampText version sha256 binary) VERSION = [version] ∧
      values (stampText version sha256 binary) SHA256 = [sha256] ∧
        values (stampText version sha256 binary) BINARY_SHA256 = [binary] := by
  have hlines : splitlines (stampText version sha256 binary) =
      stampLines version sha256 binary := by
    rw [stampText_eq, splitlines_lines (oneLine_stampLines hversion hsha256 hbinary)]
  have hwritten : Written version sha256 binary (stampLines version sha256 binary) :=
    .binary List.prefix_rfl
  have hmem : binary ∈ (stampLines version sha256 binary).filterMap (valueOf BINARY_SHA256) :=
    List.mem_filterMap.2 ⟨BINARY_SHA256 ++ EQUALS :: binary, by simp [stampLines], valueOf_self _ _⟩
  obtain ⟨hv, hs, hb, -⟩ := hwritten.complete binary hmem
  unfold values
  rw [hlines]
  exact ⟨hv, hs, hb⟩

variable {cut digest : Str}

/-- **The two readers** find the same stamps to match. -/
theorem CutStamp.readers_agree (h : CutStamp version sha256 binary cut) (hbinary : OneLine binary)
    (hversion : OneLine version) (hsha256 : OneLine sha256) (hdigest : digest ≠ [])
    (version' sha256' : Str) :
    (Dict.get? (readStamp (some cut)) VERSION = some version' ∧
      Dict.get? (readStamp (some cut)) SHA256 = some sha256' ∧
      Dict.get? (readStamp (some cut)) BINARY_SHA256 = some digest) ↔
    (stampGet (some cut) VERSION = version' ∧ stampGet (some cut) SHA256 = sha256' ∧
      stampGet (some cut) BINARY_SHA256 = digest) := by
  obtain ⟨hv, hs, hb⟩ := equals_not_mem
  have hnewline : ∀ {s : Str}, OneLine s → 0xA ∉ s := fun hline hmem =>
    absurd (hline _ hmem) (by decide)
  rw [get?_readStamp hv h.oneLineEnd, get?_readStamp hs h.oneLineEnd,
    get?_readStamp hb h.oneLineEnd]
  cases hvalues : values cut BINARY_SHA256 with
  | nil =>
    rw [stampGet_nil h.oneLineEnd hvalues]
    refine iff_of_false ?_ fun hc => hdigest hc.2.2.symm
    rintro ⟨-, -, hc⟩
    cases hc
  | cons value more =>
    obtain ⟨hvs, hss, hbs, hpre⟩ := h.complete value (hvalues ▸ List.mem_cons_self)
    rw [← hvalues, hvs, hss, hbs, stampGet_eq h.oneLineEnd hvs (hnewline hversion),
      stampGet_eq h.oneLineEnd hss (hnewline hsha256),
      stampGet_eq h.oneLineEnd hbs fun hmem => hnewline hbinary (hpre.subset hmem)]
    simp only [List.getLast?_singleton, Option.some.injEq]

end AgentLab.Toolchain
