import AgentLab.Python.JsonText
import Mathlib.Data.List.Nodup

/-!
# What is dumped is loaded

`json.loads` of `json.dumps(value, indent=2)`, for every value. Strings come back with their pairs
of surrogates joined, and an object as the assignments of its members in their order (`rejoin`),
which is the value itself where no string has such a pair and no two members have one key
(`rejoin_plain`). There must be room for the nesting of the value, and its integers must have few
enough digits to be dumped at all (`loads_dumps`).
-/

namespace AgentLab.Python

/-! ## What comes back -/

def rejoinStr (s : Str) : Str := joinUnits (s.flatMap unitsOf)

mutual

def rejoin : Json → Json
  | .str s => .str (rejoinStr s)
  | .list l => .list (rejoinItems l)
  | .obj o => .obj (rejoinMembers [] o)
  | v => v

def rejoinItems : List Json → List Json
  | [] => []
  | v :: l => rejoin v :: rejoinItems l

/-- The members after `items`. -/
def rejoinMembers (items : Dict Json) : List (Str × Json) → Dict Json
  | [] => items
  | (key, v) :: o => rejoinMembers (Dict.set items (rejoinStr key) (rejoin v)) o

end

mutual

/-- How many containers are around the innermost one of a value, itself counted. -/
def depth : Json → ℕ
  | .list l => depthItems l + 1
  | .obj o => depthMembers o + 1
  | _ => 0

def depthItems : List Json → ℕ
  | [] => 0
  | v :: l => max (depth v) (depthItems l)

def depthMembers : List (Str × Json) → ℕ
  | [] => 0
  | (_, v) :: o => max (depth v) (depthMembers o)

end

mutual

/-- All numbers of the value are those of floats. -/
def HasFloats : Json → Prop
  | .float f => ∀ q, f = .finite q → IsFloat q
  | .list l => HasFloatsItems l
  | .obj o => HasFloatsMembers o
  | _ => True

def HasFloatsItems : List Json → Prop
  | [] => True
  | v :: l => HasFloats v ∧ HasFloatsItems l

def HasFloatsMembers : List (Str × Json) → Prop
  | [] => True
  | (_, v) :: o => HasFloats v ∧ HasFloatsMembers o

end

/-! ## Values -/

variable {limits : JsonLimits} {stack : List JsonFrame} {first : Bool} {ts : List JsonToken}
  {rest s : Str} {level : ℕ} {items : Dict Json}

/-- What a token does where a value is due is the same at the beginning of an array. -/
theorem readToken_value {t : JsonToken} (ht : t ≠ .rbracket) :
    readToken limits (stack, .value first) t = readValue limits stack t := by
  cases first with
  | false => rfl
  | true =>
    show readFirst limits stack t = readValue limits stack t
    unfold readFirst
    split
    · exact absurd rfl ht
    · rfl

theorem readTokens_scalar {t : JsonToken} {v : Json} (ht : t ≠ .rbracket) (h : IsValue limits t v) :
    (t :: ts).foldlM (readToken limits) (stack, .value first) =
      ts.foldlM (readToken limits) (stack, .after v) := by
  rw [List.foldlM_cons, readToken_value ht, h, Except.ok_bind]

/-- A container for which there is room. -/
theorem readTokens_open {t : JsonToken} {opened : JsonState} (ht : t ≠ .rbracket)
    (h : readValue limits stack t = openContainer limits stack opened)
    (hroom : stack.length ≤ limits.room) :
    (t :: ts).foldlM (readToken limits) (stack, .value first) =
      ts.foldlM (readToken limits) opened := by
  unfold openContainer at h
  rw [if_neg (not_lt.2 hroom)] at h
  rw [List.foldlM_cons, readToken_value ht, h, Except.ok_bind]

theorem endsNumber_cons {c : CodePoint} (hc : isNumberChar c = false) (s : Str) :
    EndsNumber (c :: s) := by
  rintro d hd
  obtain rfl := Option.some.inj hd
  exact hc

theorem endsNumber_newlineIndent (level : ℕ) (s : Str) : EndsNumber (newlineIndent level ++ s) :=
  endsNumber_cons (by decide) _

theorem tokens_colon (s : Str) : tokens (str ": " ++ s) = .colon :: tokens s := by
  show tokens (0x3A :: 0x20 :: s) = _
  rw [tokens_punctuation rfl, tokens_space (by decide)]

theorem endsNumber_items {l : List Json} {text : Str} (h : dumpsItems level l = .ok text)
    (level' : ℕ) (s : Str) : EndsNumber (text ++ (newlineIndent level' ++ s)) := by
  cases l with
  | nil =>
    cases h
    exact endsNumber_newlineIndent level' s
  | cons v l =>
    obtain ⟨_, -, h⟩ := Except.bind_eq_ok.1 h
    obtain ⟨_, -, h⟩ := Except.bind_eq_ok.1 h
    cases h
    exact endsNumber_cons (by decide) _

theorem endsNumber_members {o : List (Str × Json)} {text : Str}
    (h : dumpsMembers level o = .ok text)
    (level' : ℕ) (s : Str) : EndsNumber (text ++ (newlineIndent level' ++ s)) := by
  cases o with
  | nil =>
    cases h
    exact endsNumber_newlineIndent level' s
  | cons kv o =>
    obtain ⟨key, v⟩ := kv
    obtain ⟨_, -, h⟩ := Except.bind_eq_ok.1 h
    obtain ⟨_, -, h⟩ := Except.bind_eq_ok.1 h
    cases h
    exact endsNumber_cons (by decide) _

/-! ## Reading -/

/-- The literals that are words. -/
theorem tokens_word {text : Str} {v : Json}
    (h : (text, v) ∈ ([("null", .null), ("true", .bool true),
    ("false", .bool false)] : List (Str × Json))) (rest : Str) :
    tokens (text ++ rest) = .literal v :: tokens rest := by
  have hne : text ++ rest ≠ [] := by
    rw [List.mem_cons, List.mem_cons, List.mem_singleton] at h
    obtain h | h | h := h <;> cases h <;> exact List.cons_ne_nil _ _
  have hscan : scanToken (text ++ rest) = (some (.literal v), rest) := by
    unfold scanToken
    rw [List.mem_cons, List.mem_cons, List.mem_singleton] at h
    obtain h | h | h := h <;> cases h
    · rw [number?_eq_none (c := 0x6E) (by decide) rfl]; rfl
    · rw [number?_eq_none (c := 0x74) (by decide) rfl]; rfl
    · rw [number?_eq_none (c := 0x66) (by decide) rfl]; rfl
  rw [tokens_eq hne, hscan]
  rfl

theorem intText_ok {n : ℤ} (h : intText n = .ok s) :
    (natStr n.natAbs).length ≤ 4300 ∧ s = intStr n := by
  unfold intText at h
  split_ifs at h with hlong
  cases h
  exact ⟨not_lt.1 hlong, rfl⟩

theorem readTokens_key (key : Str) :
    (tokens (quoted key ++ (str ": " ++ s))).foldlM (readToken limits) (stack, .key items first) =
      (tokens s).foldlM (readToken limits) (.object items (rejoinStr key) :: stack,
        .value false) := by
  rw [tokens_quoted, tokens_colon]
  rfl

/-- An empty container. -/
theorem readTokens_brackets (hroom : stack.length ≤ limits.room) (rest : Str) :
    (tokens (str "[]" ++ rest)).foldlM (readToken limits) (stack, .value first) =
      (tokens rest).foldlM (readToken limits) (stack, .after (.list [])) := by
  show (tokens (0x5B :: 0x5D :: rest)).foldlM _ _ = _
  rw [tokens_punctuation rfl, tokens_punctuation rfl, readTokens_open (by simp) rfl hroom]
  rfl

theorem readTokens_braces (hroom : stack.length ≤ limits.room) (rest : Str) :
    (tokens (str "\x7b\x7d" ++ rest)).foldlM (readToken limits) (stack, .value first) =
      (tokens rest).foldlM (readToken limits) (stack, .after (.obj [])) := by
  show (tokens (0x7B :: 0x7D :: rest)).foldlM _ _ = _
  rw [tokens_punctuation rfl, tokens_punctuation rfl, readTokens_open (by simp) rfl hroom]
  rfl

/-- A container up to its first value; `more` is the text of the values after that one. -/
theorem readTokens_openList (hroom : stack.length ≤ limits.room) (level : ℕ) (sv more rest : Str) :
    (tokens (0x5B :: newlineIndent (level + 1) ++ sv ++ more ++ newlineIndent level ++ [0x5D] ++
        rest)).foldlM (readToken limits) (stack, .value first) =
      (tokens (sv ++ (more ++ (newlineIndent level ++ 0x5D :: rest)))).foldlM (readToken limits)
        (.array [] :: stack, .value true) := by
  have htext :
      0x5B :: newlineIndent (level + 1) ++ sv ++ more ++ newlineIndent level ++ [0x5D] ++ rest =
        0x5B :: (newlineIndent (level + 1) ++
          (sv ++ (more ++ (newlineIndent level ++ 0x5D :: rest)))) := by
    simp
  rw [htext, tokens_punctuation rfl, readTokens_open (by simp) rfl hroom, tokens_newlineIndent]

theorem readTokens_openObject (hroom : stack.length ≤ limits.room) (level : ℕ)
    (key sv more rest : Str) :
    (tokens (0x7B :: newlineIndent (level + 1) ++ quoted key ++ str ": " ++ sv ++ more ++
        newlineIndent level ++ [0x7D] ++ rest)).foldlM (readToken limits) (stack, .value first) =
      (tokens (sv ++ (more ++ (newlineIndent level ++ 0x7D :: rest)))).foldlM (readToken limits)
        (.object [] (rejoinStr key) :: stack, .value false) := by
  have htext : 0x7B :: newlineIndent (level + 1) ++ quoted key ++ str ": " ++ sv ++ more ++
      newlineIndent level ++ [0x7D] ++ rest = 0x7B :: (newlineIndent (level + 1) ++
        (quoted key ++ (str ": " ++ (sv ++ (more ++ (newlineIndent level ++ 0x7D :: rest)))))) := by
    simp
  rw [htext, tokens_punctuation rfl, readTokens_open (by simp) rfl hroom, tokens_newlineIndent,
    readTokens_key]

mutual

/-- **A value that is dumped is read**, wherever one is due. -/
theorem readTokens_dumpsAt (hdigits : 4300 ≤ limits.digits) :
    ∀ (v : Json) {level : ℕ} {s rest : Str}
    {stack : List JsonFrame} {first : Bool}, dumpsAt level v = .ok s → HasFloats v →
      stack.length + depth v ≤ limits.room + 1 → EndsNumber rest →
      (tokens (s ++ rest)).foldlM (readToken limits) (stack, .value first) =
        (tokens rest).foldlM (readToken limits) (stack, .after (rejoin v))
  | .null, _, _, rest, _, _, h, _, _, _ => by
    cases h
    rw [tokens_word (v := .null) (by simp) rest, readTokens_scalar (by simp) fun _ => rfl]
    rfl
  | .bool b, _, _, rest, _, _, h, _, _, _ => by
    cases h
    cases b
    · rw [if_neg Bool.false_ne_true, tokens_word (v := .bool false) (by simp) rest,
        readTokens_scalar (by simp) fun _ => rfl]
      rfl
    · rw [if_pos rfl, tokens_word (v := .bool true) (by simp) rest,
        readTokens_scalar (by simp) fun _ => rfl]
      rfl
  | .int n, _, _, rest, _, _, h, _, _, hrest => by
    obtain ⟨hlength, rfl⟩ := intText_ok h
    rw [tokens_intStr n hrest, readTokens_scalar (by simp) (isValue_int (hlength.trans hdigits))]
    rfl
  | .float f, _, _, rest, _, _, h, hfloats, _, hrest => by
    cases h
    rw [tokens_jsonFloat hfloats hrest, readTokens_scalar (by simp) fun _ => rfl]
    rfl
  | .str s, _, _, rest, _, _, h, _, _, _ => by
    cases h
    rw [tokens_quoted, readTokens_scalar (by simp) fun _ => rfl]
    rfl
  | .list [], _, _, rest, stack, _, h, _, hroom, _ => by
    cases h
    exact readTokens_brackets (Nat.le_of_succ_le_succ hroom) rest
  | .list (v :: l), level, _, rest, stack, _, h, hfloats, hroom, _ => by
    obtain ⟨sv, hv, h⟩ := Except.bind_eq_ok.1 h
    obtain ⟨sl, hl, h⟩ := Except.bind_eq_ok.1 h
    cases h
    have hroom : stack.length + (max (depth v) (depthItems l) + 1) ≤ limits.room + 1 := hroom
    rw [readTokens_openList (by omega),
      readTokens_dumpsAt hdigits v hv hfloats.1 (by rw [List.length_cons]; omega)
        (endsNumber_items hl _ _),
      readTokens_dumpsItems hdigits l hl hfloats.2 (by omega)]
    rfl
  | .obj [], _, _, rest, stack, _, h, _, hroom, _ => by
    cases h
    exact readTokens_braces (Nat.le_of_succ_le_succ hroom) rest
  | .obj ((key, v) :: o), level, _, rest, stack, _, h, hfloats, hroom, _ => by
    obtain ⟨sv, hv, h⟩ := Except.bind_eq_ok.1 h
    obtain ⟨so, ho, h⟩ := Except.bind_eq_ok.1 h
    cases h
    have hroom : stack.length + (max (depth v) (depthMembers o) + 1) ≤ limits.room + 1 := hroom
    rw [readTokens_openObject (by omega),
      readTokens_dumpsAt hdigits v hv hfloats.1 (by rw [List.length_cons]; omega)
        (endsNumber_members ho _ _),
      readTokens_dumpsMembers hdigits o ho hfloats.2 (by omega)]
    rfl

theorem readTokens_dumpsItems (hdigits : 4300 ≤ limits.digits) :
    ∀ (l : List Json) {level level' : ℕ}
    {s rest : Str} {stack : List JsonFrame} {items : List Json} {v : Json},
    dumpsItems level l = .ok s → HasFloatsItems l → stack.length + depthItems l ≤ limits.room →
      (tokens (s ++ (newlineIndent level' ++ 0x5D :: rest))).foldlM (readToken limits)
          (.array items :: stack, .after v) =
        (tokens rest).foldlM (readToken limits)
        (stack, .after (.list (items ++ v :: rejoinItems l)))
  | [], _, _, _, rest, _, _, _, h, _, _ => by
    cases h
    rw [List.nil_append, tokens_newlineIndent, tokens_punctuation rfl]
    rfl
  | w :: l, level, level', _, rest, stack, items, v, h, hfloats, hroom => by
    obtain ⟨sw, hw, h⟩ := Except.bind_eq_ok.1 h
    obtain ⟨sl, hl, h⟩ := Except.bind_eq_ok.1 h
    cases h
    have hroom : stack.length + max (depth w) (depthItems l) ≤ limits.room := hroom
    have htext : 0x2C :: newlineIndent level ++ sw ++ sl ++ (newlineIndent level' ++ 0x5D :: rest) =
        0x2C :: (newlineIndent level ++
          (sw ++ (sl ++ (newlineIndent level' ++ 0x5D :: rest)))) := by simp
    have hcomma : ∀ ts : List JsonToken,
        (.comma :: ts).foldlM (readToken limits) (.array items :: stack, .after v) =
          ts.foldlM (readToken limits) (.array (items ++ [v]) :: stack, .value false) :=
      fun _ => rfl
    rw [htext, tokens_punctuation rfl, hcomma, tokens_newlineIndent,
      readTokens_dumpsAt hdigits w hw hfloats.1 (by rw [List.length_cons]; omega)
        (endsNumber_items hl _ _),
      readTokens_dumpsItems hdigits l hl hfloats.2 (by omega), List.append_assoc]
    rfl

theorem readTokens_dumpsMembers (hdigits : 4300 ≤ limits.digits) : ∀ (o : List (Str × Json))
    {level level' : ℕ} {s rest : Str} {stack : List JsonFrame} {items : Dict Json} {key : Str}
    {v : Json},
    dumpsMembers level o = .ok s → HasFloatsMembers o →
    stack.length + depthMembers o ≤ limits.room →
      (tokens (s ++ (newlineIndent level' ++ 0x7D :: rest))).foldlM (readToken limits)
          (.object items key :: stack, .after v) =
        (tokens rest).foldlM (readToken limits)
          (stack, .after (.obj (rejoinMembers (Dict.set items key v) o)))
  | [], _, _, _, rest, _, _, _, _, h, _, _ => by
    cases h
    rw [List.nil_append, tokens_newlineIndent, tokens_punctuation rfl]
    rfl
  | (key', w) :: o, level, level', _, rest, stack, items, key, v, h, hfloats, hroom => by
    obtain ⟨sw, hw, h⟩ := Except.bind_eq_ok.1 h
    obtain ⟨so, ho, h⟩ := Except.bind_eq_ok.1 h
    cases h
    have hroom : stack.length + max (depth w) (depthMembers o) ≤ limits.room := hroom
    have htext : 0x2C :: newlineIndent level ++ quoted key' ++ str ": " ++ sw ++ so ++
        (newlineIndent level' ++ 0x7D :: rest) = 0x2C :: (newlineIndent level ++ (quoted key' ++
          (str ": " ++ (sw ++ (so ++ (newlineIndent level' ++ 0x7D :: rest)))))) := by simp
    rw [htext, tokens_punctuation rfl, readTokens_comma, tokens_newlineIndent, readTokens_key,
      readTokens_dumpsAt hdigits w hw hfloats.1 (by rw [List.length_cons]; omega)
        (endsNumber_members ho _ _), readTokens_dumpsMembers hdigits o ho hfloats.2 (by omega)]
    rfl

end

/-! ## Values that come back as they are -/

mutual

/-- No string has a pair of surrogates, and no object two members with one key. -/
def Plain : Json → Prop
  | .str s => Unpaired s
  | .list l => PlainItems l
  | .obj o => PlainMembers o ∧ (o.map Prod.fst).Nodup
  | _ => True

def PlainItems : List Json → Prop
  | [] => True
  | v :: l => Plain v ∧ PlainItems l

def PlainMembers : List (Str × Json) → Prop
  | [] => True
  | (key, v) :: o => Unpaired key ∧ Plain v ∧ PlainMembers o

end

theorem rejoinStr_eq (h : Unpaired s) : rejoinStr s = s := (joinUnits_flatMap_iff s).2 h

theorem set_new {d : Dict Json} {key : Str} (h : key ∉ d.map Prod.fst) (v : Json) :
    Dict.set d key v = d ++ [(key, v)] := by
  induction d with
  | nil => rfl
  | cons kw d ih =>
    obtain ⟨k, w⟩ := kw
    rw [List.map_cons, List.mem_cons, not_or] at h
    unfold Dict.set
    rw [if_neg (Ne.symm h.1), ih h.2, List.cons_append]

mutual

theorem rejoin_plain : ∀ v : Json, Plain v → rejoin v = v
  | .null, _ | .bool _, _ | .int _, _ | .float _, _ => rfl
  | .str s, h => congrArg Json.str (rejoinStr_eq h)
  | .list l, h => congrArg Json.list (rejoinItems_plain l h)
  | .obj o, h => by
    have hmembers := rejoinMembers_plain o [] h.1 (by simpa using h.2)
    exact congrArg Json.obj hmembers

theorem rejoinItems_plain : ∀ l : List Json, PlainItems l → rejoinItems l = l
  | [], _ => rfl
  | v :: l, h => congrArg₂ List.cons (rejoin_plain v h.1) (rejoinItems_plain l h.2)

theorem rejoinMembers_plain : ∀ (o : List (Str × Json)) (items : Dict Json), PlainMembers o →
    ((items ++ o).map Prod.fst).Nodup → rejoinMembers items o = items ++ o
  | [], items, _, _ => (List.append_nil items).symm
  | (key, v) :: o, items, h, hkeys => by
    have hnew : key ∉ items.map Prod.fst := by
      rw [List.map_append, List.map_cons] at hkeys
      exact fun hmem => (List.nodup_append'.1 hkeys).2.2 hmem List.mem_cons_self
    have hmore : ((items ++ [(key, v)] ++ o).map Prod.fst).Nodup := by simpa using hkeys
    unfold rejoinMembers
    rw [rejoinStr_eq h.1, rejoin_plain v h.2.1, set_new hnew, rejoinMembers_plain o _ h.2.2 hmore,
      List.append_assoc]
    rfl

end

/-! ## The round trip -/

theorem tokens_spaces (h : ∀ c ∈ rest, isJsonSpace c = true) : tokens rest = [] := by
  induction rest with
  | nil => rfl
  | cons c rest ih =>
    obtain ⟨hc, hrest⟩ := List.forall_mem_cons.1 h
    rw [tokens_space hc, ih hrest]

theorem endsNumber_spaces (h : ∀ c ∈ rest, isJsonSpace c = true) : EndsNumber rest := by
  intro c hc
  have hspace := h c (List.mem_of_mem_head? hc)
  simp only [isJsonSpace, Bool.or_eq_true, decide_eq_true_eq] at hspace
  obtain ((rfl | rfl) | rfl) | rfl := hspace <;> decide

/-- **What is dumped is loaded**, with any white space after it. -/
theorem loads_dumps {v : Json} {room : ℕ} (h : dumps v = .ok s) (hfloats : HasFloats v)
    (hroom : depth v ≤ room + 1) (hrest : ∀ c ∈ rest, isJsonSpace c = true) :
    loads room (s ++ rest) = .ok (rejoin v) := by
  have hstack : ([] : List JsonFrame).length + depth v ≤ room + 1 := by
    rwa [List.length_nil, Nat.zero_add]
  have hdumped := @readTokens_dumpsAt ⟨room, 4300⟩ le_rfl v 0 s rest [] false h hfloats hstack
    (endsNumber_spaces hrest)
  unfold loads readJson
  rw [hdumped, tokens_spaces hrest]
  rfl

mutual

theorem isAsciiText_dumpsAt : ∀ (v : Json) {level : ℕ} {s : Str}, dumpsAt level v = .ok s →
    ∀ c ∈ s, isAsciiText c = true
  | .null, _, _, h => by cases h; exact List.all_eq_true.1 (by decide)
  | .bool b, _, _, h => by cases h; cases b <;> exact List.all_eq_true.1 (by decide)
  | .int n, _, _, h => by
    obtain ⟨-, rfl⟩ := intText_ok h
    exact isAsciiText_intStr n
  | .float f, _, _, h => by cases h; exact isAsciiText_jsonFloat f
  | .str s, _, _, h => by cases h; exact isAsciiText_quoted s
  | .list [], _, _, h => by cases h; exact List.all_eq_true.1 (by decide)
  | .list (v :: l), _, _, h => by
    obtain ⟨sv, hv, h⟩ := Except.bind_eq_ok.1 h
    obtain ⟨sl, hl, h⟩ := Except.bind_eq_ok.1 h
    cases h
    simp only [List.forall_mem_append, List.forall_mem_cons]
    exact ⟨⟨⟨⟨⟨by decide, isAsciiText_newlineIndent _⟩, isAsciiText_dumpsAt v hv⟩,
      isAsciiText_dumpsItems l hl⟩, isAsciiText_newlineIndent _⟩, by decide, List.forall_mem_nil _⟩
  | .obj [], _, _, h => by cases h; exact List.all_eq_true.1 (by decide)
  | .obj ((key, v) :: o), _, _, h => by
    obtain ⟨sv, hv, h⟩ := Except.bind_eq_ok.1 h
    obtain ⟨so, ho, h⟩ := Except.bind_eq_ok.1 h
    cases h
    simp only [List.forall_mem_append, List.forall_mem_cons]
    exact ⟨⟨⟨⟨⟨⟨⟨by decide, isAsciiText_newlineIndent _⟩, isAsciiText_quoted key⟩,
      List.all_eq_true.1 (by decide)⟩, isAsciiText_dumpsAt v hv⟩, isAsciiText_dumpsMembers o ho⟩,
      isAsciiText_newlineIndent _⟩, by decide, List.forall_mem_nil _⟩

theorem isAsciiText_dumpsItems : ∀ (l : List Json) {level : ℕ} {s : Str},
    dumpsItems level l = .ok s →
    ∀ c ∈ s, isAsciiText c = true
  | [], _, _, h => by cases h; exact List.forall_mem_nil _
  | v :: l, _, _, h => by
    obtain ⟨sv, hv, h⟩ := Except.bind_eq_ok.1 h
    obtain ⟨sl, hl, h⟩ := Except.bind_eq_ok.1 h
    cases h
    simp only [List.forall_mem_append, List.forall_mem_cons]
    exact ⟨⟨⟨by decide, isAsciiText_newlineIndent _⟩, isAsciiText_dumpsAt v hv⟩,
      isAsciiText_dumpsItems l hl⟩

theorem isAsciiText_dumpsMembers : ∀ (o : List (Str × Json)) {level : ℕ} {s : Str},
    dumpsMembers level o = .ok s → ∀ c ∈ s, isAsciiText c = true
  | [], _, _, h => by cases h; exact List.forall_mem_nil _
  | (key, v) :: o, _, _, h => by
    obtain ⟨sv, hv, h⟩ := Except.bind_eq_ok.1 h
    obtain ⟨so, ho, h⟩ := Except.bind_eq_ok.1 h
    cases h
    simp only [List.forall_mem_append, List.forall_mem_cons]
    exact ⟨⟨⟨⟨⟨by decide, isAsciiText_newlineIndent _⟩, isAsciiText_quoted key⟩,
      List.all_eq_true.1 (by decide)⟩, isAsciiText_dumpsAt v hv⟩, isAsciiText_dumpsMembers o ho⟩

end

end AgentLab.Python
