import AgentLab.Python.TomlReader
import AgentLab.Toolchain.Stamp

/-!
# The pins of the tools

`tools.toml` has two readers: `load_pins`, which takes it as TOML, and `toml_get` of `bootstrap.sh`,
an `awk` program that goes through it line by line. The file asks to be kept to lines that both can
read, and on every TOML document of such lines the two agree (`pins_agree`): what one installs is
what the other checks.
-/

namespace AgentLab.Toolchain

open Python Toml

/-! ## The reader of the shell -/

/-- `[[:space:]]`. -/
def isSpaceClass (c : CodePoint) : Bool := c = 0x20 || (0x9 ≤ c.val && c.val ≤ 0xD)

/-- `sub(/\][[:space:]]*$/, "", s)`, which cuts where it can first. -/
def cutBracket : Str → Str
  | [] => []
  | c :: s => if c = 0x5D ∧ s.all isSpaceClass = true then [] else c :: cutBracket s

/-- `sub(/"[[:space:]]*(#.*)?$/, "", v)`. -/
def cutQuote : Str → Str
  | [] => []
  | c :: s =>
      if c = quote ∧ (s.dropWhile isSpaceClass).head?.all (· = 0x23) = true then []
      else c :: cutQuote s

/-- `sub(/^[[:space:]]*"/, "", v)`. -/
def openQuote (v : Str) : Str :=
  match v.dropWhile isSpaceClass with
  | c :: s => if c = quote then s else v
  | [] => v

/-- The section that a line opens. -/
def sectionOf (line : Str) : Option Str :=
  match line.dropWhile isSpaceClass with
  | c :: s => if c = 0x5B then some (cutBracket s) else none
  | [] => none

/-- The value that a line has for a key. -/
def lineValue (key line : Str) : Option Str :=
  match partition (line.dropWhile isSpaceClass) with
  | some (k, v) => if k.rdropWhile isSpaceClass = key then some (cutQuote (openQuote v)) else none
  | none => none

/-- The `awk` program, in a section; the names that are asked for are no numbers, so texts are
compared. -/
def getFrom (want key : Str) : Str → List Str → Option Str
  | _, [] => none
  | current, line :: lines =>
    match sectionOf line with
    | some name => getFrom want key name lines
    | none =>
      if current = want then (lineValue key line).or (getFrom want key current lines)
      else getFrom want key current lines

/-- `$(toml_get want key)`, unless it dies. -/
def tomlGet (text want key : Str) : Option Str :=
  (getFrom want key [] (sedLines text)).map (·.rdropWhile (· = 0xA))

/-! ## The reader of Python -/

/-- `ToolPin`; its values are those of the document, of any type. -/
structure ToolPin where
  name : Str
  version : Toml
  sha256 : Toml

def TOOLS : List Str := [str "uv", str "cloudflared"]

/-- `pins[name]`, unless a key is missing or a value has none. -/
def loadPin (data : Dict Toml) (platform name : Str) : Option ToolPin := do
  let version ← getAt [name, VERSION] (.table data)
  let sha256 ← getAt [name, platform, SHA256] (.table data)
  return ⟨name, version, sha256⟩

/-- One round of `load_pins`, with the text of `ToolchainError`. -/
def pinOf (path platform : Str) (data : Dict Toml) (name : Str) : Except Str ToolPin :=
  match loadPin data platform name with
  | some pin => .ok pin
  | none => .error (path ++ str ": no " ++ name ++ str " entry for " ++ platform)

/-- `load_pins`; `file` is the text, or that of the `OSError`. -/
def loadPins (loads : Str → Except Str (Dict Toml)) (path platform : Str) (file : Except Str Str) :
    Except Str (List ToolPin) :=
  match file.bind loads with
  | .error exc => .error (str "cannot read " ++ path ++ str ": " ++ exc)
  | .ok data => TOOLS.mapM (pinOf path platform data)

/-! ## The strings of a document -/

def asString : Toml → Option Str
  | .string s => some s
  | .table _ | .other _ => none

/-- The string at a path. -/
def stringAt (path : List Str) (d : Dict Toml) : Option Str := (getAt path (.table d)).bind asString

variable {key name platform s v want : Str} {at' path : List Str} {d d' : Dict Toml}

theorem stringAt_cons (key : Str) (path : List Str) (d : Dict Toml) :
    stringAt (key :: path) d = (Dict.get? d key).bind fun w => (getAt path w).bind asString := by
  unfold stringAt
  rw [getAt_cons, Option.bind_assoc]

theorem stringAt_nil (path : List Str) : stringAt path [] = none := by
  cases path <;> rfl

/-- What is new at a path: a string or an empty table. -/
theorem stringAt_insertNew {w : Toml} (hw : (∃ s, w = .string s) ∨ w = .table [])
    (h : insertNew path w d = some d') (at' : List Str) :
    stringAt at' d' = if at' = path then asString w else stringAt at' d := by
  induction path generalizing d d' at' with
  | nil => cases h
  | cons key path ih =>
    cases at' with
    | nil => rfl
    | cons key' at' =>
      have hbelow : ∀ at' : List Str,
          (getAt at' w).bind asString = if at' = [] then asString w else none := by
        intro at'
        rcases hw with ⟨s, rfl⟩ | rfl
        · cases at' <;> rfl
        · cases at' <;> rfl
      rw [stringAt_cons, stringAt_cons]
      by_cases hkey : key' = key
      · subst hkey
        rcases insertNew_cons h with
          ⟨rfl, hnone, rfl⟩ | ⟨hnone, t, ht, rfl⟩ | ⟨t, t', hget, ht, rfl⟩
        · rw [Dict.get?_append, hnone, Option.none_or, Dict.get?_cons, if_pos rfl,
            Option.bind_some, hbelow]
          simp
        · have hsub := ih ht at'
          rw [stringAt_nil] at hsub
          rw [Dict.get?_append, hnone, Option.none_or, Dict.get?_cons, if_pos rfl, Option.bind_some]
          refine hsub.trans ?_
          simp
        · rw [Dict.get?_set_self, hget, Option.bind_some, Option.bind_some]
          refine (ih ht at').trans ?_
          simp [stringAt]
      · have hpath : key' :: at' ≠ key :: path := fun heq => hkey (List.cons.inj heq).1
        rw [if_neg hpath]
        rcases insertNew_cons h with ⟨rfl, -, rfl⟩ | ⟨-, t, -, rfl⟩ | ⟨t, t', -, -, rfl⟩
        · rw [Dict.get?_append, Dict.get?_cons, if_neg (Ne.symm hkey), Dict.get?_nil,
            Option.or_none]
        · rw [Dict.get?_append, Dict.get?_cons, if_neg (Ne.symm hkey), Dict.get?_nil,
            Option.or_none]
        · rw [Dict.get?_set, if_neg (Ne.symm hkey)]

/-! ## A line to the shell -/

theorem isSpaceClass_of_bare {c : CodePoint} (h : isBareChar c = true) :
    isSpaceClass c = false := by
  unfold isBareChar at h
  unfold isSpaceClass
  simp only [Bool.or_eq_true, Bool.and_eq_true, decide_eq_true_eq] at h
  simp only [Bool.or_eq_false_iff, Bool.and_eq_false_iff, decide_eq_false_iff_not]
  have hval : ∀ n : CodePoint, c = n → c.val = n.val := fun n => congrArg Fin.val
  refine ⟨fun hc => ?_, ?_⟩
  · subst hc
    revert h
    decide
  · by_cases hc : 0xD < c.val
    · exact .inr (by omega)
    · have hle : c.val ≤ 0xD := by omega
      rcases h with (((h | h) | h) | h) | h
      · omega
      · omega
      · omega
      · exact absurd (hval _ h) (by omega)
      · exact absurd (hval _ h) (by omega)

theorem all_bare (h : isBareKey key = true) : ∀ c ∈ key, isBareChar c = true := by
  rw [isBareKey_eq, Bool.and_eq_true, List.all_eq_true] at h
  exact h.2

theorem bare_cons (h : isBareKey key = true) : ∃ c s, key = c :: s ∧ isBareChar c = true := by
  cases key with
  | nil => cases h
  | cons c s => exact ⟨c, s, rfl, all_bare h c List.mem_cons_self⟩

/-- A dotted name has no other characters. -/
theorem mem_join {c : CodePoint} (h : ∀ key ∈ path, isBareKey key = true)
    (hc : c ∈ join (str ".") path) :
    isBareChar c = true ∨ c = 0x2E := by
  induction path with
  | nil => exact absurd hc List.not_mem_nil
  | cons key path ih =>
    obtain ⟨hkey, hpath⟩ := List.forall_mem_cons.1 h
    cases path with
    | nil =>
      have hjoin : join (str ".") [key] = key ++ [] := rfl
      rw [hjoin, List.append_nil] at hc
      exact .inl (all_bare hkey c hc)
    | cons key' path =>
      have hjoin : join (str ".") (key :: key' :: path) =
          key ++ (str "." ++ join (str ".") (key' :: path)) := rfl
      rw [hjoin, List.mem_append, List.mem_append] at hc
      rcases hc with hc | hc | hc
      · exact .inl (all_bare hkey c hc)
      · exact .inr (List.mem_singleton.1 hc)
      · exact ih hpath hc

/-- A dotted name names one path. -/
theorem join_inj {other : List Str} (hpath : ∀ key ∈ path, isBareKey key = true)
    (hother : ∀ key ∈ other, isBareKey key = true) (hne : path ≠ [])
    (h : join (str ".") other = join (str ".") path) : other = path := by
  have hsplit : ∀ {names : List Str}, (∀ key ∈ names, isBareKey key = true) → names ≠ [] →
      (join (str ".") names).splitOn 0x2E = names := by
    intro names hnames hne
    refine List.splitOn_intercalate 0x2E (fun key hkey hmem => ?_) hne
    exact absurd (all_bare (hnames key hkey) _ hmem) (by decide)
  have hother' : other ≠ [] := by
    rintro rfl
    obtain ⟨key, rest, rfl⟩ := List.exists_cons_of_ne_nil hne
    obtain ⟨c, s, rfl, -⟩ := bare_cons (hpath key List.mem_cons_self)
    cases rest <;> cases h
  rw [← hsplit hother hother', h, hsplit hpath hne]

theorem cutBracket_append (h : 0x5D ∉ s) : cutBracket (s ++ [0x5D]) = s := by
  induction s with
  | nil => rfl
  | cons c s ih =>
    rw [List.mem_cons, not_or] at h
    rw [List.cons_append, cutBracket, if_neg fun hc => h.1 hc.1.symm, ih h.2]

theorem cutQuote_append (h : quote ∉ s) : cutQuote (s ++ [quote]) = s := by
  induction s with
  | nil => rfl
  | cons c s ih =>
    rw [List.mem_cons, not_or] at h
    rw [List.cons_append, cutQuote, if_neg fun hc => h.1 hc.1.symm, ih h.2]

theorem cutQuote_begins (s : Str) : cutQuote s <+: s := by
  induction s with
  | nil => exact List.prefix_rfl
  | cons c s ih =>
    rw [cutQuote]
    split_ifs
    · exact List.nil_prefix
    · exact (List.prefix_cons_inj c).2 ih

theorem openQuote_ends (v : Str) : openQuote v <:+ v := by
  unfold openQuote
  split
  · next c s hv =>
    split_ifs
    · exact (hv ▸ List.suffix_cons c s).trans (List.dropWhile_suffix _)
    · exact List.suffix_rfl
  · exact List.suffix_rfl

/-- Where a line has a value for a key, it begins with the key, and the value is part of it. -/
theorem lineValue_begins {line : Str} (h : lineValue key line = some v) :
    key <+: line.dropWhile isSpaceClass ∧ v ⊆ line := by
  unfold lineValue at h
  cases hpair : partition (line.dropWhile isSpaceClass) with
  | none =>
    rw [hpair] at h
    cases h
  | some kv =>
    obtain ⟨k, w⟩ := kv
    rw [hpair] at h
    dsimp only at h
    split_ifs at h with hkey
    obtain ⟨-, hline⟩ := partition_eq_some.1 hpair
    refine ⟨?_, ?_⟩
    · rw [← hkey, hline]
      exact (List.rdropWhile_prefix _ _).trans (List.prefix_append _ _)
    · rw [← Option.some.inj h]
      have hw : w ⊆ line.dropWhile isSpaceClass := by
        rw [hline]
        exact fun c hc => List.mem_append_right _ (List.mem_cons_of_mem _ hc)
      intro c hc
      exact (List.dropWhile_suffix _).subset
        (hw ((openQuote_ends w).subset ((cutQuote_begins _).subset hc)))

theorem lineValue_other {line : Str} (hkey : isBareKey key = true)
    (hline : (line.dropWhile isSpaceClass).head?.all (fun c => !isBareChar c) = true) :
    lineValue key line = none := by
  cases hv : lineValue key line with
  | none => rfl
  | some v =>
    obtain ⟨c, s, rfl, hc⟩ := bare_cons hkey
    obtain ⟨more, hmore⟩ := (lineValue_begins hv).1
    rw [← hmore, List.cons_append, List.head?_cons, Option.all_some, hc] at hline
    cases hline

/-- A header opens its section. -/
theorem sectionOf_header (h : ∀ key ∈ path, isBareKey key = true) :
    sectionOf (Line.header path).text = some (join (str ".") path) := by
  have hnot : 0x5D ∉ join (str ".") path := fun hmem => by
    rcases mem_join h hmem with hbare | hdot
    · exact absurd hbare (by decide)
    · exact absurd hdot (by decide)
  have hopen : sectionOf (Line.header path).text =
      some (cutBracket (join (str ".") path ++ [0x5D])) := rfl
  rw [hopen, cutBracket_append hnot]

theorem dropWhile_bare (h : isBareKey key = true) (s : Str) :
    (key ++ s).dropWhile isSpaceClass = key ++ s := by
  obtain ⟨c, k, rfl, hc⟩ := bare_cons h
  rw [List.cons_append, List.dropWhile_cons_of_neg]
  rw [isSpaceClass_of_bare hc]
  exact Bool.false_ne_true

theorem pair_text (key value : Str) :
    (Line.pair key value).text =
      key ++ [0x20] ++ EQUALS :: 0x20 :: quote :: (value ++ [quote]) := by
  simp [Line.text, str]

theorem sectionOf_pair (hkey : isBareKey key = true) (value : Str) :
    sectionOf (Line.pair key value).text = none := by
  unfold sectionOf
  rw [pair_text, List.append_assoc, dropWhile_bare hkey]
  obtain ⟨c, k, rfl, hc⟩ := bare_cons hkey
  have hne : c ≠ 0x5B := by
    rintro rfl
    exact absurd hc (by decide)
  exact if_neg hne

/-- A pair has its value for its key. -/
theorem lineValue_pair {value : Str} (hname : isBareKey s = true) (hvalue : Plain value) :
    lineValue key (Line.pair s value).text = if s = key then some value else none := by
  have hequals : EQUALS ∉ s ++ [0x20] := by
    rw [List.mem_append, List.mem_singleton, not_or]
    exact ⟨fun hmem => absurd (all_bare hname _ hmem) (by decide), by decide⟩
  have hspace : (s ++ [0x20]).rdropWhile isSpaceClass = s := by
    rw [List.rdropWhile_concat_pos _ _ _ (by decide), List.rdropWhile_eq_self_iff]
    intro hne hlast
    rw [isSpaceClass_of_bare (all_bare hname _ (List.getLast_mem hne))] at hlast
    cases hlast
  have hopen : openQuote (0x20 :: quote :: (value ++ [quote])) = value ++ [quote] := rfl
  have hquote : quote ∉ value := fun hmem => (hvalue _ hmem).ne_quote rfl
  unfold lineValue
  rw [pair_text, List.append_assoc, dropWhile_bare hname, ← List.append_assoc,
    partition_eq_some.2 ⟨hequals, rfl⟩]
  dsimp only
  rw [hspace, hopen, cutQuote_append hquote]

/-! ## A document to both readers -/

variable {doc doc' : Document} {line : Line} {lines : List Line}

/-- What a line can do to a document. -/
theorem line_cases (h : doc.line line = some doc') :
    doc' = doc ∧ (line = .blank ∨ ∃ text, line = .comment text) ∨
    (∃ p, line = .header p ∧ (∀ key ∈ p, isBareKey key = true) ∧ doc'.path = p ∧
      insertNew p (.table []) doc.items = some doc'.items) ∨
    ∃ k w, line = .pair k w ∧ isBareKey k = true ∧ Plain w ∧ doc'.path = doc.path ∧
      insertNew (doc.path ++ [k]) (.string w) doc.items = some doc'.items := by
  unfold Document.line at h
  cases line with
  | blank =>
    cases h
    exact .inl ⟨rfl, .inl rfl⟩
  | comment text =>
    dsimp only at h
    split_ifs at h
    cases h
    exact .inl ⟨rfl, .inr ⟨text, rfl⟩⟩
  | header p =>
    dsimp only at h
    split_ifs at h with hp
    obtain ⟨items, hitems, rfl⟩ := Option.map_eq_some_iff.1 h
    exact .inr (.inl ⟨p, rfl, List.all_eq_true.1 hp, rfl, hitems⟩)
  | pair k w =>
    dsimp only at h
    split_ifs at h with hpair
    obtain ⟨items, hitems, rfl⟩ := Option.map_eq_some_iff.1 h
    exact .inr (.inr ⟨k, w, rfl, hpair.1, hpair.2, rfl, hitems⟩)

theorem stringAt_eq_some : stringAt path d = some v ↔ getAt path (.table d) = some (.string v) := by
  unfold stringAt
  rw [Option.bind_eq_some_iff]
  constructor
  · rintro ⟨w, hw, hv⟩
    cases w with
    | string s =>
      cases hv
      exact hw
    | table _ => cases hv
    | other _ => cases hv
  · exact fun h => ⟨_, h, rfl⟩

/-- Later lines keep a string. -/
theorem stringAt_kept (h : lines.foldlM Document.line doc = some doc')
    (hv : stringAt path doc.items = some v) : stringAt path doc'.items = some v := by
  induction lines generalizing doc with
  | nil =>
    cases h
    exact hv
  | cons line lines ih =>
    rw [List.foldlM_cons] at h
    obtain ⟨doc₁, hline, h⟩ := Option.bind_eq_some_iff.1 h
    refine ih h ?_
    rw [stringAt_eq_some] at hv ⊢
    rcases line_cases hline with ⟨rfl, -⟩ | ⟨p, -, -, -, hitems⟩ | ⟨k, w, -, -, -, -, hitems⟩
    · exact hv
    · exact getAt_of_insertNew hitems hv
    · exact getAt_of_insertNew hitems hv

/-- From a line on, in which the value is not there yet, the shell finds the value that TOML says is
there in the end. The induction is on the lines; what is read of them so far is `doc`. -/
theorem getFrom_lines (hne : path ≠ []) (hpath : ∀ key ∈ path, isBareKey key = true)
    (hkey : isBareKey key = true) (h : lines.foldlM Document.line doc = some doc')
    (hdoc : ∀ key ∈ doc.path, isBareKey key = true)
    (hnone : stringAt (path ++ [key]) doc.items = none) :
    getFrom (join (str ".") path) key (join (str ".") doc.path) (lines.map Line.text) =
      stringAt (path ++ [key]) doc'.items := by
  induction lines generalizing doc with
  | nil =>
    cases h
    exact hnone.symm
  | cons line lines ih =>
    rw [List.foldlM_cons] at h
    obtain ⟨doc₁, hline, hlines⟩ := Option.bind_eq_some_iff.1 h
    rw [List.map_cons, getFrom]
    rcases line_cases hline with
      ⟨rfl, hkind⟩ | ⟨p, rfl, hp, hdoc₁, hitems⟩ | ⟨k, w, rfl, hk, hw, hdoc₁, hitems⟩
    · have hskip : sectionOf line.text = none ∧ lineValue key line.text = none := by
        rcases hkind with rfl | ⟨text, rfl⟩
        · exact ⟨rfl, lineValue_other hkey rfl⟩
        · exact ⟨rfl, lineValue_other hkey rfl⟩
      rw [hskip.1, hskip.2]
      dsimp only
      rw [Option.none_or, ite_self]
      exact ih hlines hdoc hnone
    · rw [sectionOf_header hp, ← hdoc₁]
      refine ih hlines (hdoc₁ ▸ hp) ?_
      rw [stringAt_insertNew (.inr rfl) hitems, hnone]
      split_ifs <;> rfl
    · have hnext : stringAt (path ++ [key]) doc₁.items =
          if path ++ [key] = doc.path ++ [k] then some w else none := by
        rw [stringAt_insertNew (.inl ⟨w, rfl⟩) hitems, hnone]
        rfl
      have hbare : ∀ key ∈ doc₁.path, isBareKey key = true := hdoc₁ ▸ hdoc
      rw [sectionOf_pair hk, lineValue_pair hk hw]
      dsimp only
      by_cases hhere : path ++ [key] = doc.path ++ [k]
      · obtain ⟨hsection, hlast⟩ := List.append_inj' hhere rfl
        obtain rfl : key = k := List.singleton_inj.1 hlast
        rw [if_pos hhere] at hnext
        rw [if_pos (hsection ▸ rfl), if_pos rfl, Option.some_or]
        exact (stringAt_kept hlines hnext).symm
      · rw [if_neg hhere] at hnext
        have hgo := ih hlines hbare hnext
        rw [hdoc₁] at hgo
        split_ifs with hsection hname
        · obtain rfl := join_inj hpath hdoc hne hsection
          exact absurd (by rw [hname]) hhere
        · rw [Option.none_or]
          exact hgo
        · exact hgo

theorem newline_notMem_lines (h : lines.foldlM Document.line doc = some doc') :
    ∀ line ∈ lines, newline ∉ line.text := by
  induction lines generalizing doc with
  | nil => exact List.forall_mem_nil _
  | cons line lines ih =>
    rw [List.foldlM_cons] at h
    obtain ⟨doc₁, hline, h⟩ := Option.bind_eq_some_iff.1 h
    exact List.forall_mem_cons.2 ⟨Document.newline_notMem hline, ih h⟩

/-- The shell takes a text apart into its lines. -/
theorem sedLines_linesText (h : ∀ line ∈ lines, newline ∉ line.text) :
    sedLines (linesText lines) = lines.map Line.text := by
  induction lines with
  | nil => rfl
  | cons line lines ih =>
    obtain ⟨hline, hlines⟩ := List.forall_mem_cons.1 h
    have htext : linesText (line :: lines) = line.text ++ newline :: linesText lines := by
      simp [linesText]
    have hsplit : (line.text ++ newline :: linesText lines).splitOn newline =
        line.text :: (linesText lines).splitOn newline := by
      rw [List.splitOn_append_cons_self, List.splitOn_eq_singleton hline]
      rfl
    unfold sedLines
    rw [htext, hsplit, closeLast_cons (List.splitOn_ne_nil _ _), List.map_cons]
    exact congrArg (line.text :: ·) (ih hlines)

theorem getFrom_mem {current : Str} {texts : List Str}
    (h : getFrom want key current texts = some v) :
    ∃ text ∈ texts, lineValue key text = some v := by
  induction texts generalizing current with
  | nil => cases h
  | cons text texts ih =>
    have hlater : ∀ {current : Str}, getFrom want key current texts = some v →
        ∃ t ∈ text :: texts, lineValue key t = some v := by
      intro current hv
      obtain ⟨t, ht, hv⟩ := ih hv
      exact ⟨t, List.mem_cons_of_mem _ ht, hv⟩
    rw [getFrom] at h
    split at h
    · exact hlater h
    · split_ifs at h
      · rcases Option.or_eq_some_iff.1 h with hv | ⟨-, hv⟩
        · exact ⟨text, List.mem_cons_self, hv⟩
        · exact hlater hv
      · exact hlater h

/-- **The shell reads what TOML says**: on a document, `toml_get` prints the string that is there,
and dies where there is none. -/
theorem tomlGet_document (h : document lines = some doc) (hne : path ≠ [])
    (hpath : ∀ key ∈ path, isBareKey key = true) (hkey : isBareKey key = true) :
    tomlGet (linesText lines) (join (str ".") path) key = stringAt (path ++ [key]) doc.items := by
  have hnewline := newline_notMem_lines h
  have hget := getFrom_lines hne hpath hkey h (fun key hmem => absurd hmem List.not_mem_nil)
    (stringAt_nil _)
  have hempty : join (str ".") ([] : List Str) = [] := rfl
  dsimp only at hget
  rw [hempty] at hget
  unfold tomlGet
  rw [sedLines_linesText hnewline, ← hget]
  cases hv : getFrom (join (str ".") path) key [] (lines.map Line.text) with
  | none => rfl
  | some v =>
    -- The value is part of a line, so `$(…)` has no newline to take away.
    obtain ⟨text, htext, hvalue⟩ := getFrom_mem hv
    have hnot : newline ∉ v := by
      intro hmem
      have hin := (lineValue_begins hvalue).2 hmem
      obtain ⟨line, hline, rfl⟩ := List.mem_map.1 htext
      exact hnewline line hline hin
    rw [Option.map_some, List.rdropWhile_eq_self_iff.2]
    intro hne hlast
    have hmem := List.getLast_mem hne
    rw [of_decide_eq_true hlast] at hmem
    exact hnot hmem

/-! ## The pins -/

theorem bare_names : isBareKey VERSION = true ∧ isBareKey SHA256 = true ∧
    ∀ name ∈ TOOLS, isBareKey name = true := by
  decide

/-- What is read of one tool. -/
theorem loadPin_eq_some {pin : ToolPin} : loadPin d platform name = some pin ↔
    pin.name = name ∧ getAt [name, VERSION] (.table d) = some pin.version ∧
      getAt [name, platform, SHA256] (.table d) = some pin.sha256 := by
  obtain ⟨name', version, sha256⟩ := pin
  unfold loadPin
  cases getAt [name, VERSION] (.table d) with
  | none => simp
  | some v =>
    cases getAt [name, platform, SHA256] (.table d) with
    | none => simp
    | some w => simp [eq_comm]

theorem pinOf_eq_ok {file : Str} {pin : ToolPin} :
    pinOf file platform d name = .ok pin ↔ loadPin d platform name = some pin := by
  unfold pinOf
  cases loadPin d platform name <;> simp

theorem mapM_pinOf {file : Str} {names : List Str} {pins : List ToolPin}
    (h : names.mapM (pinOf file platform d) = .ok pins) :
    pins.map ToolPin.name = names ∧ ∀ pin ∈ pins, loadPin d platform pin.name = some pin := by
  induction names generalizing pins with
  | nil =>
    cases h
    exact ⟨rfl, List.forall_mem_nil _⟩
  | cons name names ih =>
    rw [List.mapM_cons] at h
    obtain ⟨pin, hpin, h⟩ := Except.bind_eq_ok.1 h
    obtain ⟨rest, hrest, h⟩ := Except.bind_eq_ok.1 h
    cases h
    obtain ⟨hnames, hpins⟩ := ih hrest
    have hpin := pinOf_eq_ok.1 hpin
    have hname := (loadPin_eq_some.1 hpin).1
    refine ⟨?_, List.forall_mem_cons.2 ⟨hname.symm ▸ hpin, hpins⟩⟩
    rw [List.map_cons, hname, hnames]

theorem exists_mapM_pinOf {file : Str} {names : List Str}
    (h : ∀ name ∈ names, ∃ pin, loadPin d platform name = some pin) :
    ∃ pins, names.mapM (pinOf file platform d) = .ok pins := by
  induction names with
  | nil => exact ⟨[], rfl⟩
  | cons name names ih =>
    obtain ⟨⟨pin, hpin⟩, hnames⟩ := List.forall_mem_cons.1 h
    obtain ⟨pins, hpins⟩ := ih hnames
    refine ⟨pin :: pins, ?_⟩
    rw [List.mapM_cons, pinOf_eq_ok.2 hpin, hpins]
    rfl

/-- **The two readers of `tools.toml` agree** on every TOML document of lines that both can read:
where `load_pins` returns, `toml_get` prints the same strings, and where `toml_get` prints all of
them, `load_pins` returns. -/
theorem pins_agree {loads : Str → Except Str (Dict Toml)} (hloads : Toml10 loads)
    (h : document lines = some doc) (hplatform : isBareKey platform = true) (path : Str) :
    (∀ pins, loadPins loads path platform (.ok (linesText lines)) = .ok pins →
      pins.map ToolPin.name = TOOLS ∧ ∀ pin ∈ pins,
        tomlGet (linesText lines) pin.name VERSION = asString pin.version ∧
        tomlGet (linesText lines) (pin.name ++ str "." ++ platform) SHA256 = asString pin.sha256) ∧
    ((∀ name ∈ TOOLS, (tomlGet (linesText lines) name VERSION).isSome = true ∧
        (tomlGet (linesText lines) (name ++ str "." ++ platform) SHA256).isSome = true) →
      ∃ pins, loadPins loads path platform (.ok (linesText lines)) = .ok pins) := by
  obtain ⟨hversion, hsha256, htools⟩ := bare_names
  have hload : loadPins loads path platform (.ok (linesText lines)) =
      TOOLS.mapM (pinOf path platform doc.items) := by
    unfold loadPins
    have hread : (Except.ok (linesText lines)).bind loads = .ok doc.items := hloads.lines h
    rw [hread]
  have hsection : ∀ name : Str, join (str ".") [name] = name ∧
      join (str ".") [name, platform] = name ++ str "." ++ platform := by
    intro name
    simp [join]
  -- What the shell reads of a tool, as strings of the document.
  have hshell : ∀ name ∈ TOOLS,
      tomlGet (linesText lines) name VERSION = stringAt [name, VERSION] doc.items ∧
      tomlGet (linesText lines) (name ++ str "." ++ platform) SHA256 =
        stringAt [name, platform, SHA256] doc.items := by
    intro name hname
    have hbare := htools name hname
    have hone :=
      tomlGet_document h (List.cons_ne_nil name []) (List.forall_mem_singleton.2 hbare) hversion
    have htwo := tomlGet_document h (List.cons_ne_nil name [platform])
      (List.forall_mem_cons.2 ⟨hbare, List.forall_mem_singleton.2 hplatform⟩) hsha256
    rw [(hsection name).1] at hone
    rw [(hsection name).2] at htwo
    exact ⟨hone, htwo⟩
  rw [hload]
  refine ⟨fun pins hpins => ?_, fun hall => exists_mapM_pinOf fun name hname => ?_⟩
  · obtain ⟨hnames, hpins⟩ := mapM_pinOf hpins
    refine ⟨hnames, fun pin hpin => ?_⟩
    obtain ⟨-, hv, hs⟩ := loadPin_eq_some.1 (hpins pin hpin)
    obtain ⟨hone, htwo⟩ := hshell pin.name (hnames ▸ List.mem_map_of_mem hpin)
    rw [hone, htwo]
    unfold stringAt
    rw [hv, hs]
    exact ⟨rfl, rfl⟩
  · obtain ⟨hone, htwo⟩ := hshell name hname
    obtain ⟨hv, hs⟩ := hall name hname
    rw [hone, Option.isSome_iff_exists] at hv
    rw [htwo, Option.isSome_iff_exists] at hs
    obtain ⟨v, hv⟩ := hv
    obtain ⟨s, hs⟩ := hs
    exact ⟨⟨name, .string v, .string s⟩,
      loadPin_eq_some.2 ⟨rfl, stringAt_eq_some.1 hv, stringAt_eq_some.1 hs⟩⟩

/-- A file with a comment and two tools. -/
def smallTools : List Line :=
  [.comment (str " version = \"0\""), .header [str "uv"], .pair VERSION (str "0.12"), .blank,
    .header [str "uv", str "linux"], .pair (str "url") (str "u=1"), .pair SHA256 (str "ab"),
    .header [str "cloudflared"], .pair VERSION (str "2026.9"),
    .header [str "cloudflared", str "linux"],
    .pair SHA256 (str "cd")]

theorem pins_agree_small : ∃ pins,
    loadPins (loadsToml (str "invalid")) (str "tools.toml") (str "linux")
    (.ok (linesText smallTools)) =
        .ok pins ∧
      ∀ pin ∈ pins, tomlGet (linesText smallTools) pin.name VERSION = asString pin.version := by
  obtain ⟨doc, hdoc⟩ : ∃ doc, document smallTools = some doc := ⟨_, rfl⟩
  obtain ⟨hsame, hall⟩ := pins_agree (readToml_toml10 (str "invalid")) hdoc
    (by decide : isBareKey (str "linux") = true) (str "tools.toml")
  obtain ⟨pins, hpins⟩ := hall (by decide)
  exact ⟨pins, hpins, fun pin hpin => ((hsame pins hpins).2 pin hpin).1⟩

end AgentLab.Toolchain
