import AgentLab.Python.Text

/-!
# JSON texts

`json.loads` and `json.dumps(value, indent=2)`.

`loads` goes through the tokens of a text with a stack of the containers that are open. It has two
limits: the room for containers within each other, and the digits of an integer. A text is JSON for
a value (`IsJson`) if it is read within some limits; the value is then the same within all limits
that admit it (`IsJson.unique`), and `loads_of_isJson` says when it is not read.
-/

namespace AgentLab.Python

/-! ## Tokens -/

inductive JsonToken
  | lbrace
  | rbrace
  | lbracket
  | rbracket
  | colon
  | comma
  | string (s : Str)
  /-- An integer, and how many digits it is written with. -/
  | int (digits : ℕ) (n : ℤ)
  /-- A float, or one of the literals. -/
  | literal (v : Json)
  /-- No token starts here. -/
  | bad

def isJsonSpace (c : CodePoint) : Bool := c = 0x20 || c = 0x9 || c = 0xA || c = 0xD

def isAsciiDigit (c : CodePoint) : Bool := 0x30 ≤ c.val && c.val ≤ 0x39

/-- The number of some digits. -/
def digitsValue (s : Str) : ℕ := s.foldl (fun n c => 10 * n + (c.val - 0x30)) 0

/-- The sign that a text starts with, and what follows it. -/
def splitSign (s : Str) : Bool × Str := if s.head? = some 0x2D then (true, s.drop 1) else (false, s)

/-- The digits of the integer that a text starts with, which has no leading zeros, and what follows
it. -/
def splitInt (s : Str) : Str × Str :=
  if s.head? = some 0x30 then ([0x30], s.drop 1)
  else (s.takeWhile isAsciiDigit, s.dropWhile isAsciiDigit)

/-- The digits after a decimal point, if there are some, and what follows them. -/
def splitFraction (s : Str) : Str × Str :=
  if s.head? = some 0x2E ∧ (s.drop 1).takeWhile isAsciiDigit ≠ [] then
    ((s.drop 1).takeWhile isAsciiDigit, (s.drop 1).dropWhile isAsciiDigit)
  else ([], s)

/-- The sign of an exponent, and what follows it. -/
def splitExponentSign (s : Str) : ℤ × Str :=
  if s.head? = some 0x2D then (-1, s.drop 1)
  else if s.head? = some 0x2B then (1, s.drop 1)
  else (1, s)

/-- The exponent that a text starts with, if it does, and what follows it. -/
def splitExponent (s : Str) : Option ℤ × Str :=
  let (sign, rest) := splitExponentSign (s.drop 1)
  if (s.head? = some 0x65 ∨ s.head? = some 0x45) ∧ rest.takeWhile isAsciiDigit ≠ [] then
    (some (sign * digitsValue (rest.takeWhile isAsciiDigit)), rest.dropWhile isAsciiDigit)
  else (none, s)

/-- The number that a text starts with, and what follows it. -/
def number? (s : Str) : Option (JsonToken × Str) :=
  let (negative, s) := splitSign s
  let (int, s) := splitInt s
  let (fraction, s) := splitFraction s
  let (exponent, s) := splitExponent s
  let sign : ℤ := if negative then -1 else 1
  if int = [] then none
  else if fraction = [] ∧ exponent = none then some (.int int.length (sign * digitsValue int), s)
  else
    let q : ℚ := sign * digitsValue (int ++ fraction) * 10 ^ (exponent.getD 0 - fraction.length)
    some (.literal (.float (.ofRat q)), s)

def hexValue? (c : CodePoint) : Option ℕ :=
  if 0x30 ≤ c.val ∧ c.val ≤ 0x39 then some (c.val - 0x30)
  else if 0x41 ≤ c.val ∧ c.val ≤ 0x46 then some (c.val - 0x37)
  else if 0x61 ≤ c.val ∧ c.val ≤ 0x66 then some (c.val - 0x57)
  else none

/-- The code unit of four hexadecimal digits. -/
def hexUnit? (a b c d : CodePoint) : Option CodePoint := do
  let n := 16 * (16 * (16 * (← hexValue? a) + (← hexValue? b)) + (← hexValue? c)) + (← hexValue? d)
  return Fin.ofNat 0x110000 n

/-- What a backslash and the character stand for. -/
def escape? (c : CodePoint) : Option CodePoint :=
  ([(0x22, 0x22), (0x5C, 0x5C), (0x2F, 0x2F), (0x62, 0x8), (0x66, 0xC), (0x6E, 0xA), (0x72, 0xD),
    (0x74, 0x9)] : List (CodePoint × CodePoint)).lookup c

/-- The characters up to the closing quotation mark, and what follows it; `true` marks those written
as `\uXXXX`. -/
def scanString : Str → Option (List (Bool × CodePoint) × Str)
  | [] => none
  | c :: s =>
    if c = 0x22 then some ([], s)
    else if c.val < 0x20 then none
    else if c ≠ 0x5C then (scanString s).map fun r => ((false, c) :: r.1, r.2)
    else
      match s with
      | [] => none
      | e :: s =>
        if e = 0x75 then
          match s with
          | h₁ :: h₂ :: h₃ :: h₄ :: s => do
            let u ← hexUnit? h₁ h₂ h₃ h₄
            (scanString s).map fun r => ((true, u) :: r.1, r.2)
          | _ => none
        else do
          let u ← escape? e
          (scanString s).map fun r => ((false, u) :: r.1, r.2)

def isHigh (c : CodePoint) : Bool := 0xD800 ≤ c.val && c.val ≤ 0xDBFF

def isLow (c : CodePoint) : Bool := 0xDC00 ≤ c.val && c.val ≤ 0xDFFF

/-- The character of a pair of surrogates. -/
def paired (high low : CodePoint) : CodePoint :=
  Fin.ofNat 0x110000 (0x10000 + 0x400 * (high.val - 0xD800) + (low.val - 0xDC00))

/-- The characters, with each pair of surrogates that are both escaped as one. -/
def joinUnits : List (Bool × CodePoint) → Str
  | (true, a) :: (true, b) :: s =>
    if isHigh a && isLow b then paired a b :: joinUnits s else a :: joinUnits ((true, b) :: s)
  | (_, a) :: s => a :: joinUnits s
  | [] => []

def jsonLiterals : List (Str × Json) :=
  [("null", .null), ("true", .bool true), ("false", .bool false), ("NaN", .float .nan),
    ("Infinity", .float .inf), ("-Infinity", .float .negInf)]

def punctuation? (c : CodePoint) : Option JsonToken :=
  if c = 0x7B then some .lbrace
  else if c = 0x7D then some .rbrace
  else if c = 0x5B then some .lbracket
  else if c = 0x5D then some .rbracket
  else if c = 0x3A then some .colon
  else if c = 0x2C then some .comma
  else none

/-- The token that a text starts with, unless it starts with white space, and what follows. -/
def scanToken (s : Str) : Option JsonToken × Str :=
  match number? s with
  | some (t, rest) => (some t, rest)
  | none =>
    match s with
    | [] => (none, [])
    | c :: rest =>
      if isJsonSpace c then (none, rest)
      else if c = 0x22 then
        match scanString rest with
        | some (units, rest) => (some (.string (joinUnits units)), rest)
        | none => (some .bad, [])
      else
        match punctuation? c with
        | some t => (some t, rest)
        | none =>
          match jsonLiterals.find? fun l => l.1.isPrefixOf s with
          | some (text, v) => (some (.literal v), s.drop text.length)
          | none => (some .bad, [])

/-- The tokens of a text of at most `fuel` characters. -/
def tokensFrom : ℕ → Str → List JsonToken
  | 0, _ => []
  | fuel + 1, s =>
    if s = [] then [] else (scanToken s).1.toList ++ tokensFrom fuel (scanToken s).2

def tokens (s : Str) : List JsonToken := tokensFrom s.length s

/-! ## The rest of a text -/

theorem scanString_length {s rest : Str} {units : List (Bool × CodePoint)}
    (h : scanString s = some (units, rest)) : rest.length < s.length := by
  fun_induction scanString s generalizing units rest with
  | case1 => cases h
  | case2 s =>
    cases h
    exact Nat.lt_succ_self _
  | case3 => cases h
  | case4 c s hquote hcontrol hplain ih =>
    obtain ⟨⟨units', rest'⟩, hr, heq⟩ := Option.map_eq_some_iff.1 h
    cases heq
    exact (ih hr).trans (Nat.lt_succ_self _)
  | case5 => cases h
  | case6 c hquote hcontrol hescape h₁ h₂ h₃ h₄ s ih =>
    obtain ⟨u, -, h⟩ := Option.bind_eq_some_iff.1 h
    obtain ⟨⟨units', rest'⟩, hr, heq⟩ := Option.map_eq_some_iff.1 h
    cases heq
    have hlt := ih hr
    simp only [List.length_cons]
    omega
  | case7 => cases h
  | case8 c hquote hcontrol hescape e s hu ih =>
    obtain ⟨u, -, h⟩ := Option.bind_eq_some_iff.1 h
    obtain ⟨⟨units', rest'⟩, hr, heq⟩ := Option.map_eq_some_iff.1 h
    cases heq
    have hlt := ih hr
    simp only [List.length_cons]
    omega

theorem splitSign_length (s : Str) : (splitSign s).2.length ≤ s.length := by
  unfold splitSign
  split_ifs
  · exact (List.drop_sublist 1 s).length_le
  · exact le_refl _

theorem splitInt_length (s : Str) : (splitInt s).1.length + (splitInt s).2.length = s.length := by
  unfold splitInt
  split_ifs with hzero
  · cases s with
    | nil => cases hzero
    | cons c s => exact Nat.add_comm 1 s.length
  · rw [← List.length_append, List.takeWhile_append_dropWhile]

theorem splitFraction_length (s : Str) : (splitFraction s).2.length ≤ s.length := by
  unfold splitFraction
  split_ifs
  · exact ((List.dropWhile_sublist _).trans (List.drop_sublist 1 s)).length_le
  · exact le_refl _

theorem splitExponent_length (s : Str) : (splitExponent s).2.length ≤ s.length := by
  have hsign : (splitExponentSign (s.drop 1)).2.length ≤ s.length := by
    unfold splitExponentSign
    split_ifs <;> simp only [List.length_drop] <;> omega
  unfold splitExponent
  dsimp only
  split_ifs
  · exact (List.dropWhile_sublist _).length_le.trans hsign
  · exact le_refl _

theorem number?_length {s rest : Str} {t : JsonToken} (h : number? s = some (t, rest)) :
    rest.length < s.length := by
  have hsign := splitSign_length s
  have hint := splitInt_length (splitSign s).2
  have hfraction := splitFraction_length (splitInt (splitSign s).2).2
  have hexponent := splitExponent_length (splitFraction (splitInt (splitSign s).2).2).2
  unfold number? at h
  dsimp only at h
  have hpos : (splitInt (splitSign s).2).1 ≠ [] := by
    intro hnil
    rw [if_pos hnil] at h
    cases h
  have hpos := List.length_pos_iff.2 hpos
  split_ifs at h <;> cases h <;> omega

theorem length_jsonLiterals : ∀ l ∈ jsonLiterals, 0 < l.1.length := by decide

theorem scanToken_length {s : Str} (h : s ≠ []) : (scanToken s).2.length < s.length := by
  unfold scanToken
  split
  · next t rest hnumber => exact number?_length hnumber
  · cases s with
    | nil => exact absurd rfl h
    | cons c rest =>
      dsimp only
      split_ifs
      · exact Nat.lt_succ_self _
      · split
        · next units rest' hstring => exact (scanString_length hstring).trans (Nat.lt_succ_self _)
        · exact Nat.succ_pos _
      · split
        · exact Nat.lt_succ_self _
        · split
          · next text v hfind =>
            have htext : 0 < text.length :=
              length_jsonLiterals _ (List.mem_of_find?_eq_some hfind)
            simp only [List.length_drop, List.length_cons]
            omega
          · exact Nat.succ_pos _

theorem tokensFrom_fuel {s : Str} {fuel : ℕ} (h : s.length ≤ fuel) :
    tokensFrom fuel s = tokens s := by
  have key : ∀ n (s : Str) (fuel : ℕ), s.length ≤ n → s.length ≤ fuel →
      tokensFrom fuel s = tokensFrom n s := by
    intro n
    induction n with
    | zero =>
      intro s fuel hn _
      obtain rfl := List.length_eq_zero_iff.1 (Nat.le_zero.1 hn)
      cases fuel <;> rfl
    | succ n ih =>
      intro s fuel hn hfuel
      by_cases hs : s = []
      · subst hs
        cases fuel <;> rfl
      · have hrest := scanToken_length hs
        cases fuel with
        | zero => exact absurd (List.length_eq_zero_iff.1 (Nat.le_zero.1 hfuel)) hs
        | succ fuel =>
          unfold tokensFrom
          rw [if_neg hs, if_neg hs, ih _ fuel (by omega) (by omega)]
  exact key s.length s fuel (le_refl _) h

theorem tokens_eq {s : Str} (h : s ≠ []) :
    tokens s = (scanToken s).1.toList ++ tokens (scanToken s).2 := by
  have hrest := scanToken_length h
  obtain ⟨n, hn⟩ := Nat.exists_eq_add_of_lt (Nat.zero_lt_of_lt hrest)
  rw [Nat.zero_add] at hn
  unfold tokens
  rw [hn, tokensFrom, if_neg h, tokensFrom_fuel (by omega)]
  rfl

/-! ## Reading -/

structure JsonLimits where
  /-- How many containers there is room for around another one. -/
  room : ℕ
  digits : ℕ

/-- A container that is open around a value. -/
inductive JsonFrame
  | array (items : List Json)
  | object (items : Dict Json) (key : Str)

/-- What is due. -/
inductive JsonPlace
  /-- A value, or (`first`) the end of the array. -/
  | value (first : Bool)
  /-- A key of this object, or (`first`) its end. -/
  | key (items : Dict Json) (first : Bool)
  | colon (items : Dict Json) (key : Str)
  /-- What follows a value. -/
  | after (v : Json)

abbrev JsonState := List JsonFrame × JsonPlace

/-- What opening a container comes to. -/
def openContainer (limits : JsonLimits) (stack : List JsonFrame) (opened : JsonState) :
    Except PyExc JsonState :=
  if limits.room < stack.length then .error .recursionError else .ok opened

/-- A token where a value is due. -/
def readValue (limits : JsonLimits) (stack : List JsonFrame) : JsonToken → Except PyExc JsonState
  | .string s => .ok (stack, .after (.str s))
  | .int digits n =>
    if limits.digits < digits then .error .valueError else .ok (stack, .after (.int n))
  | .literal v => .ok (stack, .after v)
  | .lbracket => openContainer limits stack (.array [] :: stack, .value true)
  | .lbrace => openContainer limits stack (stack, .key [] true)
  | _ => .error .valueError

/-- A token after a value. -/
def readAfter (v : Json) : List JsonFrame → JsonToken → Except PyExc JsonState
  | .array items :: stack, .comma => .ok (.array (items ++ [v]) :: stack, .value false)
  | .array items :: stack, .rbracket => .ok (stack, .after (.list (items ++ [v])))
  | .object items key :: stack, .comma => .ok (stack, .key (Dict.set items key v) false)
  | .object items key :: stack, .rbrace => .ok (stack, .after (.obj (Dict.set items key v)))
  | _, _ => .error .valueError

/-- A token after the bracket that opens an array. -/
def readFirst (limits : JsonLimits) : List JsonFrame → JsonToken → Except PyExc JsonState
  | .array items :: stack, .rbracket => .ok (stack, .after (.list items))
  | stack, t => readValue limits stack t

/-- A token where a key is due. -/
def readKey (stack : List JsonFrame) (items : Dict Json) (first : Bool) :
    JsonToken → Except PyExc JsonState
  | .string key => .ok (stack, .colon items key)
  | .rbrace => if first then .ok (stack, .after (.obj items)) else .error .valueError
  | _ => .error .valueError

/-- A token after a key. -/
def readColon (stack : List JsonFrame) (items : Dict Json) (key : Str) :
    JsonToken → Except PyExc JsonState
  | .colon => .ok (.object items key :: stack, .value false)
  | _ => .error .valueError

def readToken (limits : JsonLimits) (state : JsonState) (t : JsonToken) : Except PyExc JsonState :=
  match state.2 with
  | .value first => if first then readFirst limits state.1 t else readValue limits state.1 t
  | .key items first => readKey state.1 items first t
  | .colon items key => readColon state.1 items key t
  | .after v => readAfter v state.1 t

/-- The value, at the end of the text. -/
def readEnd : JsonState → Except PyExc Json
  | ([], .after v) => .ok v
  | _ => .error .valueError

def readJson (limits : JsonLimits) (s : Str) : Except PyExc Json :=
  (tokens s).foldlM (readToken limits) ([], .value false) >>= readEnd

/-- `json.loads`, with this room on the stack. -/
def loads (room : ℕ) (s : Str) : Except PyExc Json := readJson ⟨room, 4300⟩ s

/-- The text is JSON for the value, in the form that Python reads, without limits. -/
def IsJson (s : Str) (v : Json) : Prop := ∃ limits, readJson limits s = .ok v

/-! ## Limits -/

variable {limits limits' : JsonLimits} {state state' : JsonState} {stack : List JsonFrame}
  {t : JsonToken} {s : Str} {v v' : Json}

/-- The integer tokens are within the limit. -/
def DigitsWithin (digits : ℕ) (ts : List JsonToken) : Prop := ∀ d n, .int d n ∈ ts → d ≤ digits

theorem readKey_error {items : Dict Json} {first : Bool} {x : PyExc}
    (h : readKey stack items first t = .error x) : x = .valueError := by
  cases t with
  | string key => cases h
  | rbrace =>
    simp only [readKey] at h
    split_ifs at h
    exact (Except.error.inj h).symm
  | _ => exact (Except.error.inj h).symm

theorem readColon_error {items : Dict Json} {key : Str} {x : PyExc}
    (h : readColon stack items key t = .error x) : x = .valueError := by
  cases t with
  | colon => cases h
  | _ => exact (Except.error.inj h).symm

theorem readAfter_error {x : PyExc} (h : readAfter v stack t = .error x) : x = .valueError := by
  unfold readAfter at h
  split at h <;> first | exact (Except.error.inj h).symm | cases h

/-- Only reading a value asks for the limits, and an integer is read as a value. -/
theorem readToken_cases (state : JsonState) (t : JsonToken) :
    (∃ stack, ∀ limits, readToken limits state t = readValue limits stack t) ∨
      ∃ r, (∀ limits, readToken limits state t = r) ∧ (∀ x, r = .error x → x = .valueError) ∧
        ∀ d n, t = .int d n → r = .error .valueError := by
  obtain ⟨stack, place⟩ := state
  cases place with
  | value first =>
    cases first with
    | false => exact .inl ⟨stack, fun _ => rfl⟩
    | true =>
      cases stack with
      | nil => exact .inl ⟨[], fun _ => rfl⟩
      | cons frame stack =>
        cases frame with
        | object items key => exact .inl ⟨.object items key :: stack, fun _ => rfl⟩
        | array items =>
          cases t with
          | rbracket => exact .inr ⟨_, fun _ => rfl, nofun, nofun⟩
          | _ => exact .inl ⟨.array items :: stack, fun _ => rfl⟩
  | key items first => exact .inr ⟨_, fun _ => rfl, fun _ => readKey_error, fun _ _ ht => ht ▸ rfl⟩
  | colon items key =>
    exact .inr ⟨_, fun _ => rfl, fun _ => readColon_error, fun _ _ ht => ht ▸ rfl⟩
  | after v =>
    refine .inr ⟨_, fun _ => rfl, fun _ => readAfter_error, ?_⟩
    rintro d n rfl
    match stack with
    | [] | .array _ :: _ | .object _ _ :: _ => rfl

theorem readValue_mono (hroom : limits.room ≤ limits'.room)
    (hdigits : limits.digits ≤ limits'.digits)
    (h : readValue limits stack t = .ok state) : readValue limits' stack t = .ok state := by
  cases t with
  | int d n =>
    simp only [readValue] at h ⊢
    split_ifs at h ⊢
    · omega
    · exact h
  | lbrace | lbracket =>
    simp only [readValue, openContainer] at h ⊢
    split_ifs at h ⊢
    · omega
    · exact h
  | _ => exact h

/-- A value that is read within some limits is read within others, or it is beyond one of them. -/
theorem readValue_or (h : readValue limits' stack t = .ok state) :
    readValue limits stack t = .ok state ∨ readValue limits stack t = .error .recursionError ∨
      ∃ d n, t = .int d n ∧ limits.digits < d := by
  cases t with
  | int d n =>
    by_cases hlong : limits.digits < d
    · exact .inr (.inr ⟨d, n, rfl, hlong⟩)
    · simp only [readValue, if_neg hlong] at h ⊢
      split_ifs at h
      exact .inl h
  | lbrace | lbracket =>
    simp only [readValue, openContainer] at h ⊢
    split_ifs at h ⊢
    · exact .inr (.inl rfl)
    · exact .inl h
  | _ => exact .inl h

theorem readValue_digits {d : ℕ} {n : ℤ} (h : readValue limits stack (.int d n) = .ok state) :
    d ≤ limits.digits := by
  simp only [readValue] at h
  split_ifs at h with hlong
  exact not_lt.1 hlong

theorem readValue_error {x : PyExc} (h : readValue limits stack t = .error x) :
    x = .valueError ∨ x = .recursionError := by
  cases t with
  | int d n =>
    simp only [readValue] at h
    split_ifs at h
    exact .inl (Except.error.inj h).symm
  | lbrace | lbracket =>
    simp only [readValue, openContainer] at h
    split_ifs at h
    exact .inr (Except.error.inj h).symm
  | string | literal => exact nomatch h
  | _ => exact .inl (Except.error.inj h).symm

section

variable {ts : List JsonToken}

variable (limits') in
theorem readTokens_mono (hroom : limits.room ≤ limits'.room)
    (hdigits : limits.digits ≤ limits'.digits)
    (h : ts.foldlM (readToken limits) state = .ok state') :
    ts.foldlM (readToken limits') state = .ok state' := by
  induction ts generalizing state with
  | nil => exact h
  | cons t ts ih =>
    rw [List.foldlM_cons, Except.bind_eq_ok] at h ⊢
    obtain ⟨next, hnext, hrest⟩ := h
    refine ⟨next, ?_, ih hrest⟩
    obtain ⟨stack, heq⟩ | ⟨r, heq, -, -⟩ := readToken_cases state t
    · rw [heq] at hnext ⊢
      exact readValue_mono hroom hdigits hnext
    · rw [heq] at hnext ⊢
      exact hnext

variable (limits) in
theorem readTokens_or (h : ts.foldlM (readToken limits') state = .ok state') :
    ts.foldlM (readToken limits) state = .ok state' ∨
      ts.foldlM (readToken limits) state = .error .recursionError ∨
      ¬ DigitsWithin limits.digits ts := by
  induction ts generalizing state with
  | nil => exact .inl h
  | cons t ts ih =>
    rw [List.foldlM_cons, Except.bind_eq_ok] at h
    obtain ⟨next, hnext, hrest⟩ := h
    have hstep : readToken limits state t = .ok next ∨
        readToken limits state t = .error .recursionError ∨ ∃ d n, t = .int d n ∧
        limits.digits < d := by
      obtain ⟨stack, heq⟩ | ⟨r, heq, -, -⟩ := readToken_cases state t
      · rw [heq] at hnext ⊢
        exact readValue_or hnext
      · rw [heq] at hnext ⊢
        exact .inl hnext
    rw [List.foldlM_cons]
    obtain hstep | hstep | ⟨d, n, rfl, hlong⟩ := hstep
    · rw [hstep, Except.ok_bind]
      refine (ih hrest).imp_right (Or.imp_right fun hnot hwithin => hnot fun d n hmem => ?_)
      exact hwithin d n (List.mem_cons_of_mem t hmem)
    · rw [hstep]
      exact .inr (.inl rfl)
    · exact .inr (.inr fun hwithin => absurd (hwithin d n List.mem_cons_self) (not_le.2 hlong))

theorem readTokens_error {x : PyExc} (h : ts.foldlM (readToken limits) state = .error x) :
    x = .valueError ∨ x = .recursionError := by
  induction ts generalizing state with
  | nil => cases h
  | cons t ts ih =>
    rw [List.foldlM_cons] at h
    cases hnext : readToken limits state t with
    | ok next =>
      rw [hnext] at h
      exact ih h
    | error x' =>
      rw [hnext] at h
      obtain rfl : x' = x := Except.error.inj h
      obtain ⟨stack, heq⟩ | ⟨r, heq, hr, -⟩ := readToken_cases state t
      · exact readValue_error ((heq limits).symm.trans hnext)
      · exact .inl (hr x' ((heq limits).symm.trans hnext))

theorem readTokens_digits (h : ts.foldlM (readToken limits) state = .ok state') :
    DigitsWithin limits.digits ts := by
  induction ts generalizing state with
  | nil => exact fun _ _ hmem => nomatch hmem
  | cons t ts ih =>
    rw [List.foldlM_cons, Except.bind_eq_ok] at h
    obtain ⟨next, hnext, hrest⟩ := h
    intro d n hmem
    rw [List.mem_cons] at hmem
    obtain rfl | hmem := hmem
    · obtain ⟨stack, heq⟩ | ⟨r, heq, -, hr⟩ := readToken_cases state (.int d n)
      · exact readValue_digits ((heq limits).symm.trans hnext)
      · exact nomatch (hr d n rfl).symm.trans ((heq limits).symm.trans hnext)
    · exact ih hrest d n hmem

end

/-! ## Objects -/

section

variable {ts : List JsonToken} {items : Dict Json} {first : Bool} {key : Str}

/-- A token that is a value wherever one is due. -/
def IsValue (limits : JsonLimits) (t : JsonToken) (v : Json) : Prop :=
  ∀ stack, readValue limits stack t = .ok (stack, .after v)

theorem isValue_int {n : ℤ} {d : ℕ} (h : d ≤ limits.digits) : IsValue limits (.int d n) (.int n) :=
  fun _ => if_neg (not_lt.2 h)

theorem readTokens_object : (.lbrace :: ts).foldlM (readToken limits) ([], .value false) =
    ts.foldlM (readToken limits) ([], .key [] true) := by
  have hopen : readToken limits ([], .value false) .lbrace = .ok ([], .key [] true) := by
    show openContainer limits [] ([], .key [] true) = _
    exact if_neg (Nat.not_lt_zero limits.room)
  rw [List.foldlM_cons, hopen, Except.ok_bind]

theorem readTokens_member (h : IsValue limits t v) :
    (.string key :: .colon :: t :: ts).foldlM (readToken limits) (stack, .key items first) =
      ts.foldlM (readToken limits) (.object items key :: stack, .after v) := by
  have hkey : readToken limits (stack, .key items first) (.string key) =
      .ok (stack, .colon items key) := rfl
  have hcolon : readToken limits (stack, .colon items key) .colon =
      .ok (.object items key :: stack, .value false) := rfl
  have hvalue : readToken limits (.object items key :: stack, .value false) t =
      .ok (.object items key :: stack, .after v) := h _
  rw [List.foldlM_cons, hkey, Except.ok_bind, List.foldlM_cons, hcolon, Except.ok_bind,
    List.foldlM_cons, hvalue, Except.ok_bind]

theorem readTokens_comma :
    (.comma :: ts).foldlM (readToken limits) (.object items key :: stack, .after v) =
      ts.foldlM (readToken limits) (stack, .key (Dict.set items key v) false) := rfl

theorem readTokens_rbrace :
    [JsonToken.rbrace].foldlM (readToken limits) (.object items key :: stack, .after v) =
      .ok (stack, .after (.obj (Dict.set items key v))) := rfl

end

/-! ## Texts -/

theorem readJson_eq_ok : readJson limits s = .ok v ↔
    ∃ state, (tokens s).foldlM (readToken limits) ([], .value false) = .ok state ∧
      readEnd state = .ok v := Except.bind_eq_ok

theorem IsJson.unique (h : IsJson s v) (h' : IsJson s v') : v = v' := by
  obtain ⟨limits, h⟩ := h
  obtain ⟨limits', h'⟩ := h'
  obtain ⟨state, hstate, hv⟩ := readJson_eq_ok.1 h
  obtain ⟨state', hstate', hv'⟩ := readJson_eq_ok.1 h'
  have hmax := readTokens_mono ⟨max limits.room limits'.room, max limits.digits limits'.digits⟩
    (Nat.le_max_left ..) (Nat.le_max_left ..) hstate
  have hmax' := readTokens_mono ⟨max limits.room limits'.room, max limits.digits limits'.digits⟩
    (Nat.le_max_right ..) (Nat.le_max_right ..) hstate'
  obtain rfl : state = state' := Except.ok.inj (hmax.symm.trans hmax')
  exact Except.ok.inj (hv.symm.trans hv')

variable {room : ℕ}

theorem loads_ok (h : loads room s = .ok v) : IsJson s v ∧ DigitsWithin 4300 (tokens s) := by
  obtain ⟨state, hstate, -⟩ := readJson_eq_ok.1 h
  exact ⟨⟨_, h⟩, readTokens_digits hstate⟩

theorem loads_error {x : PyExc} (h : loads room s = .error x) :
    x = .valueError ∨ x = .recursionError := by
  unfold loads readJson at h
  cases hstate : (tokens s).foldlM (readToken ⟨room, 4300⟩) ([], .value false) with
  | error x' =>
    rw [hstate] at h
    obtain rfl : x' = x := Except.error.inj h
    exact readTokens_error hstate
  | ok state =>
    rw [hstate, Except.ok_bind] at h
    unfold readEnd at h
    split at h
    · cases h
    · exact .inl (Except.error.inj h).symm

variable (room) in
/-- What keeps `loads` from reading a JSON text. -/
theorem loads_of_isJson (h : IsJson s v) : loads room s = .ok v ∨
    loads room s = .error .recursionError ∨ ¬ DigitsWithin 4300 (tokens s) := by
  obtain ⟨limits, h⟩ := h
  obtain ⟨state, hstate, hv⟩ := readJson_eq_ok.1 h
  obtain hok | herror | hdigits := readTokens_or ⟨room, 4300⟩ hstate
  · exact .inl (readJson_eq_ok.2 ⟨state, hok, hv⟩)
  · refine .inr (.inl ?_)
    unfold loads readJson
    rw [herror]
    rfl
  · exact .inr (.inr hdigits)

end AgentLab.Python
