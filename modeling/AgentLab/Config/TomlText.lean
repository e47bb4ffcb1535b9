import AgentLab.Config.Load
import AgentLab.Python.Text

/-!
# TOML texts

The part of TOML that the registry is written in, read as TOML 1.0 says: comments, basic strings,
decimal integers, the tables of one array of tables, and arrays of inline tables. `Follows` says of
a parser that it agrees with it, on the texts that are read and on those that are no TOML.
-/

namespace AgentLab.Config

open Python

/-- Why a text is not read: it is no TOML, or it has other forms. -/
inductive TomlFault
  | invalid
  | beyond
  deriving DecidableEq

/-- The control characters that no string or comment holds. -/
def isControl (c : Char) : Bool := (c.toNat < 0x20 && c ≠ '\t') || c.toNat = 0x7F

/-! ## Values -/

/-- The rest of a basic string. -/
def readString : List Char → Except TomlFault (List Char × List Char)
  | [] => .error .beyond
  | '\\' :: c :: cs =>
    if c = '"' ∨ c = '\\' then (readString cs).map fun r => (c :: r.1, r.2) else .error .beyond
  | c :: cs =>
    if c = '"' then .ok ([], cs)
    else if isControl c then .error .invalid
    else if c = '\\' then .error .beyond
    else (readString cs).map fun r => (c :: r.1, r.2)

/-- The characters that may follow an integer here. -/
def endsInteger (c : Char) : Bool := c = ',' || c = ' ' || c = '}' || c = '\n'

/-- A decimal integer, of no more digits than Python reads. -/
def readInteger (cs : List Char) : Except TomlFault (ℕ × List Char) :=
  let digits := cs.takeWhile Char.isDigit
  let rest := cs.dropWhile Char.isDigit
  if digits = [] ∨ digits.head? = some '0' ∧ digits.length ≠ 1 ∨ 4300 < digits.length ∨
      rest.head?.any endsInteger = false then .error .beyond
  else .ok (Nat.ofDigitChars 10 digits 0, rest)

/-- A string that is not empty, or an integer. -/
def readScalar (cs : List Char) : Except TomlFault (Toml × List Char) :=
  if cs.head? = some '"' then do
    let (s, rest) ← readString (cs.drop 1)
    if s = [] then .error .beyond else .ok (.str (String.ofList s), rest)
  else (readInteger cs).map fun r => (.int r.1, r.2)

/-! ## Tables -/

def isKeyChar (c : Char) : Bool := c.isAlphanum || c = '_' || c = '-'

def readTomlKey (cs : List Char) : Except TomlFault (String × List Char) :=
  if cs.takeWhile isKeyChar = [] then .error .beyond
  else .ok (String.ofList (cs.takeWhile isKeyChar), cs.dropWhile isKeyChar)

def skipSpaces (cs : List Char) : List Char := cs.dropWhile (· = ' ')

/-- A key and the equals sign, with the spaces around it. -/
def readTomlEquals (cs : List Char) : Except TomlFault (String × List Char) := do
  let (key, rest) ← readTomlKey cs
  match skipSpaces rest with
  | '=' :: rest => .ok (key, skipSpaces rest)
  | _ => .error .beyond

/-- The pairs of an inline table, of at most `fuel`, and its closing brace. -/
def readPairs : ℕ → List (String × Toml) → List Char →
    Except TomlFault (List (String × Toml) × List Char)
  | 0, _, _ => .error .beyond
  | fuel + 1, pairs, cs => do
    let (key, rest) ← readTomlEquals (skipSpaces cs)
    let (value, rest) ← readScalar rest
    if key ∈ pairs.map Prod.fst then .error .beyond
    else
      match skipSpaces rest with
      | ',' :: rest => readPairs fuel (pairs ++ [(key, value)]) rest
      | '}' :: rest => .ok (pairs ++ [(key, value)], rest)
      | _ => .error .beyond

/-! ## Documents -/

structure TomlState where
  /-- The pairs before the first table. -/
  root : List (String × Toml)
  /-- The array of tables. -/
  name : String
  closed : List (List (String × Toml))
  /-- The last table. -/
  current : Option (List (String × Toml))
  /-- An array of inline tables that is open, and its key. -/
  array : Option (String × List Toml)

namespace TomlState

def put (s : TomlState) (key : String) (value : Toml) : Except TomlFault TomlState :=
  match s.current with
  | none =>
    if key ∈ s.root.map Prod.fst then .error .beyond
    else .ok { s with root := s.root ++ [(key, value)] }
  | some t =>
    if key ∈ t.map Prod.fst then .error .beyond
    else .ok { s with current := some (t ++ [(key, value)]) }

/-- `[[name]]`. -/
def openTable (s : TomlState) (name : String) : Except TomlFault TomlState :=
  match s.current with
  | none =>
    if name ∈ s.root.map Prod.fst then .error .beyond else .ok { s with name, current := some [] }
  | some t =>
    if name = s.name then .ok { s with closed := s.closed ++ [t], current := some [] }
    else .error .beyond

def data (s : TomlState) : List (String × Toml) :=
  match s.current with
  | none => s.root
  | some t => s.root ++ [(s.name, .array ((s.closed ++ [t]).map .table))]

end TomlState

def endLine (s : TomlState) : List Char → Except TomlFault (TomlState × List Char)
  | '\n' :: rest => .ok (s, rest)
  | _ => .error .beyond

/-- An item of an open array and the comma after it, or the end of the array. -/
def readItemOf (s : TomlState) (key : String) (items : List Toml) (cs : List Char) :
    Except TomlFault (TomlState × List Char) :=
  match cs.dropWhile fun c => c = ' ' || c = '\n' with
  | ']' :: rest => do endLine (← { s with array := none }.put key (.array items)) rest
  | '\x7b' :: rest => do
    let (t, rest) ← readPairs rest.length [] rest
    match rest with
    | ',' :: rest => .ok ({ s with array := some (key, items ++ [.table t]) }, rest)
    | _ => .error .beyond
  | _ => .error .beyond

/-- A pair, or the beginning of one whose value is an array. -/
def readPairLine (s : TomlState) (cs : List Char) : Except TomlFault (TomlState × List Char) := do
  let (key, rest) ← readTomlEquals cs
  if rest.head? = some '[' then .ok ({ s with array := some (key, []) }, rest.drop 1)
  else do
    let (value, rest) ← readScalar rest
    endLine (← s.put key value) rest

/-- One line; of a comment, the characters before its end. -/
def readStatement (s : TomlState) : List Char → Except TomlFault (TomlState × List Char)
  | '\n' :: rest => .ok (s, rest)
  | '#' :: rest =>
    if (rest.takeWhile (· ≠ '\n')).any isControl then .error .beyond
    else .ok (s, rest.dropWhile (· ≠ '\n'))
  | '[' :: '[' :: rest => do
    let (name, rest) ← readTomlKey rest
    match rest with
    | ']' :: ']' :: rest => do endLine (← s.openTable name) rest
    | _ => .error .beyond
  | cs => readPairLine s cs

/-- One line, or an item of an array. -/
def readLine (s : TomlState) (cs : List Char) : Except TomlFault (TomlState × List Char) :=
  match s.array with
  | some (key, items) => readItemOf s key items cs
  | none => readStatement s cs

def readLines (s : TomlState) (cs : List Char) : Except TomlFault (List (String × Toml)) :=
  match cs with
  | [] => if s.array.isSome then .error .beyond else .ok s.data
  | c :: cs =>
    match readLine s (c :: cs) with
    | .error fault => .error fault
    | .ok (s', rest) => if rest.length ≤ cs.length then readLines s' rest else .error .beyond
termination_by cs.length

def readToml (text : String) : Except TomlFault (List (String × Toml)) :=
  readLines ⟨[], "", [], none, none⟩ text.toList

/-- The parser reads what is read here, and rejects what is no TOML. -/
structure Follows (loads : Parser) : Prop where
  reads : ∀ text data, readToml text = .ok data → loads text = .ok data
  rejects : ∀ text, readToml text = .error .invalid → ∃ exc, loads text = .error exc

/-! ## Strings and numbers that are written -/

/-- The characters of a basic string, its quotation marks and backslashes escaped. -/
def escaped (cs : List Char) : List Char :=
  cs.flatMap fun c => if c = '"' ∨ c = '\\' then ['\\', c] else [c]

theorem readString_escaped (cs rest : List Char) : readString (escaped cs ++ '"' :: rest) =
    if cs.any isControl then .error .invalid else .ok (cs, rest) := by
  induction cs with
  | nil => rfl
  | cons c cs ih =>
    have hcons : escaped (c :: cs) =
        (if c = '"' ∨ c = '\\' then ['\\', c] else [c]) ++ escaped cs := rfl
    rw [hcons, List.any_cons]
    by_cases hc : c = '"' ∨ c = '\\'
    · have hplain : isControl c = false := by rcases hc with rfl | rfl <;> rfl
      have hstep : readString ('\\' :: c :: (escaped cs ++ '"' :: rest)) =
          (readString (escaped cs ++ '"' :: rest)).map fun r => (c :: r.1, r.2) := if_pos hc
      rw [if_pos hc, hplain, Bool.false_or]
      refine hstep.trans ?_
      rw [ih]
      split_ifs <;> rfl
    · obtain ⟨hquote, hslash⟩ := not_or.1 hc
      rw [if_neg hc, List.cons_append, List.nil_append, List.cons_append,
        readString.eq_3 _ _ (by simp [hslash]), if_neg hquote, if_neg hslash, ih]
      cases isControl c with
      | true => rfl
      | false =>
        rw [if_neg Bool.false_ne_true, Bool.false_or]
        split_ifs <;> rfl

theorem zero_of_head {n : ℕ} (h : (Nat.toDigits 10 n).head? = some '0') : n = 0 := by
  induction n using Nat.strongRecOn with
  | _ n ih =>
    by_cases hn : n < 10
    · rw [Nat.toDigits_of_lt_base hn] at h
      have hdigit : ∀ d < 10, Nat.digitChar d = '0' → d = 0 := by decide
      exact hdigit n hn (Option.some.inj h)
    · rw [Nat.toDigits_of_base_le (by decide) (not_lt.1 hn),
        List.head?_append_of_ne_nil _ Nat.toDigits_ne_nil] at h
      have hzero := ih (n / 10) (by omega) h
      omega

theorem readInteger_toDigits {n : ℕ} (hn : (Nat.toDigits 10 n).length ≤ 4300) {c : Char}
    (hc : endsInteger c = true) (rest : List Char) :
    readInteger (Nat.toDigits 10 n ++ c :: rest) = .ok (n, c :: rest) := by
  have hdigits : ∀ d ∈ Nat.toDigits 10 n, d.isDigit = true := fun d hd =>
    Nat.isDigit_of_mem_toDigits (by decide) (by decide) hd
  have hend : c.isDigit = false := by
    simp only [endsInteger, Bool.or_eq_true, decide_eq_true_eq] at hc
    rcases hc with ((rfl | rfl) | rfl) | rfl <;> rfl
  unfold readInteger
  dsimp only
  rw [List.takeWhile_append_of_pos hdigits, List.dropWhile_append_of_pos hdigits,
    List.takeWhile_cons, List.dropWhile_cons, hend, if_neg Bool.false_ne_true, List.append_nil,
    if_neg Bool.false_ne_true, if_neg, Nat.ofDigitChars_ten_toDigits]
  rintro (hnil | ⟨hzero, hone⟩ | hlong | hstop)
  · exact Nat.toDigits_ne_nil hnil
  · obtain rfl := zero_of_head hzero
    exact hone rfl
  · omega
  · rw [List.head?_cons, Option.any_some, hc] at hstop
    cases hstop

/-- Whether a key is written bare. -/
def isBareKey (key : String) : Bool := !key.toList.isEmpty && key.toList.all isKeyChar

theorem readTomlKey_bare {key : String} (hkey : isBareKey key = true) {rest : List Char}
    (hrest : rest.head?.all (fun c => !isKeyChar c) = true) :
    readTomlKey (key.toList ++ rest) = .ok (key, rest) := by
  obtain ⟨hne, hall⟩ := Bool.and_eq_true_iff.1 hkey
  have hall := List.all_eq_true.1 hall
  have hnone : rest.takeWhile isKeyChar = [] ∧ rest.dropWhile isKeyChar = rest := by
    cases rest with
    | nil => exact ⟨rfl, rfl⟩
    | cons c rest =>
      have hc : isKeyChar c = false := by simpa using hrest
      rw [List.takeWhile_cons, List.dropWhile_cons, hc]
      exact ⟨rfl, rfl⟩
  unfold readTomlKey
  rw [List.takeWhile_append_of_pos hall, List.dropWhile_append_of_pos hall, hnone.1, hnone.2,
    List.append_nil, if_neg (by simpa using hne), String.ofList_toList]

theorem readTomlEquals_bare {key : String} (hkey : isBareKey key = true) {c : Char} (hc : c ≠ ' ')
    (rest : List Char) :
    readTomlEquals (key.toList ++ ' ' :: '=' :: ' ' :: c :: rest) = .ok (key, c :: rest) := by
  have hspaces : skipSpaces (' ' :: '=' :: ' ' :: c :: rest) = '=' :: ' ' :: c :: rest := rfl
  have hspace : skipSpaces (' ' :: c :: rest) = c :: rest := by
    unfold skipSpaces
    rw [List.dropWhile_cons_of_pos (by decide), List.dropWhile_cons_of_neg (by simpa using hc)]
  unfold readTomlEquals
  rw [readTomlKey_bare hkey (by rfl), Except.ok_bind]
  dsimp only
  rw [hspaces]
  exact congrArg (fun r => Except.ok (key, r)) hspace

/-! ## Pairs -/

/-- A pair of a key and a string. -/
def stringPair (key value : String) : List Char :=
  key.toList ++ " = \"".toList ++ escaped value.toList ++ ['"']

/-- A pair of a key and a number. -/
def numberPair (key : String) (n : ℕ) : List Char := key.toList ++ " = ".toList ++ Nat.toDigits 10 n

/-- The control characters that keep a string from being read. -/
def isBroken (value : String) : Bool := value.toList.any isControl

theorem readScalar_string {value : String} (hne : value ≠ "") (rest : List Char) :
    readScalar ('"' :: (escaped value.toList ++ '"' :: rest)) =
      if isBroken value then .error .invalid else .ok (.str value, rest) := by
  unfold readScalar isBroken
  rw [List.head?_cons, if_pos rfl, List.drop_one, List.tail_cons, readString_escaped]
  split_ifs
  · rfl
  · rw [Except.ok_bind]
    dsimp only
    rw [String.ofList_toList, if_neg]
    simpa using hne

theorem readScalar_number {n : ℕ} (hn : (Nat.toDigits 10 n).length ≤ 4300) {c : Char}
    (hc : endsInteger c = true) (rest : List Char) :
    readScalar (Nat.toDigits 10 n ++ c :: rest) = .ok (.int n, c :: rest) := by
  obtain ⟨d, ds, hds⟩ := List.exists_cons_of_ne_nil (@Nat.toDigits_ne_nil n 10)
  have hdigit : d.isDigit = true :=
    Nat.isDigit_of_mem_toDigits (by decide) (by decide) (hds ▸ List.mem_cons_self)
  unfold readScalar
  rw [readInteger_toDigits hn hc, if_neg]
  · rfl
  · rw [hds, List.cons_append, List.head?_cons]
    rintro ⟨⟩
    cases hdigit

theorem skipSpaces_key {key : String} (hkey : isBareKey key = true) (rest : List Char) :
    skipSpaces (' ' :: (key.toList ++ rest)) = key.toList ++ rest := by
  obtain ⟨hne, hall⟩ := Bool.and_eq_true_iff.1 hkey
  obtain ⟨c, cs, hcs⟩ := List.exists_cons_of_ne_nil (l := key.toList) (by simpa using hne)
  have hc : isKeyChar c = true := List.all_eq_true.1 hall c (hcs ▸ List.mem_cons_self)
  unfold skipSpaces
  rw [List.dropWhile_cons_of_pos (by decide), hcs, List.cons_append, List.dropWhile_cons_of_neg]
  rintro hspace
  obtain rfl := of_decide_eq_true hspace
  cases hc

section

variable {cs vs rest : List Char} {key : String} {value : Toml} {pairs : List (String × Toml)}

theorem readPairs_comma (fuel : ℕ) (hequals : readTomlEquals (skipSpaces cs) = .ok (key, vs))
    (hscalar : readScalar vs = .ok (value, ',' :: rest)) (hnew : key ∉ pairs.map Prod.fst) :
    readPairs (fuel + 1) pairs cs = readPairs fuel (pairs ++ [(key, value)]) rest := by
  rw [readPairs, hequals, Except.ok_bind]
  dsimp only
  rw [hscalar, Except.ok_bind]
  dsimp only
  rw [if_neg hnew]
  rfl

theorem readPairs_brace (fuel : ℕ) (hequals : readTomlEquals (skipSpaces cs) = .ok (key, vs))
    (hscalar : readScalar vs = .ok (value, ' ' :: '\x7d' :: rest))
    (hnew : key ∉ pairs.map Prod.fst) :
    readPairs (fuel + 1) pairs cs = .ok (pairs ++ [(key, value)], rest) := by
  rw [readPairs, hequals, Except.ok_bind]
  dsimp only
  rw [hscalar, Except.ok_bind]
  dsimp only
  rw [if_neg hnew]
  rfl

theorem readPairs_invalid (fuel : ℕ) (hequals : readTomlEquals (skipSpaces cs) = .ok (key, vs))
    (hscalar : readScalar vs = .error .invalid) :
    readPairs (fuel + 1) pairs cs = .error .invalid := by
  rw [readPairs, hequals, Except.ok_bind]
  dsimp only
  rw [hscalar]
  rfl

end

/-! ## Lines -/

theorem readLines_step {s s' : TomlState} {cs rest : List Char} (h : readLine s cs = .ok (s', rest))
    (hlt : rest.length < cs.length) : readLines s cs = readLines s' rest := by
  cases cs with
  | nil => exact absurd hlt (Nat.not_lt_zero _)
  | cons c cs =>
    rw [readLines, h]
    exact if_pos (Nat.le_of_lt_succ hlt)

theorem readLines_error {s : TomlState} {cs : List Char} {fault : TomlFault} (hne : cs ≠ [])
    (h : readLine s cs = .error fault) : readLines s cs = .error fault := by
  cases cs with
  | nil => exact absurd rfl hne
  | cons c cs => rw [readLines, h]

/-- The table `t` is read, after the tables `ts`. -/
def inTable (name : String) (ts : List (List (String × Toml))) (t : List (String × Toml)) :
    TomlState :=
  ⟨[], name, ts, some t, none⟩

/-- The tables `ts` are read. -/
def afterTables (name : String) (ts : List (List (String × Toml))) : TomlState :=
  match ts.getLast? with
  | none => ⟨[], "", [], none, none⟩
  | some t => inTable name ts.dropLast t

theorem array_afterTables (name : String) (ts : List (List (String × Toml))) :
    (afterTables name ts).array = none := by
  unfold afterTables
  split <;> rfl

theorem afterTables_concat (name : String) (ts : List (List (String × Toml)))
    (t : List (String × Toml)) : afterTables name (ts ++ [t]) = inTable name ts t := by
  unfold afterTables
  rw [List.getLast?_concat, List.dropLast_concat]

theorem data_afterTables (name : String) (ts : List (List (String × Toml))) :
    (afterTables name ts).data = if ts = [] then [] else [(name, .array (ts.map .table))] := by
  rcases List.eq_nil_or_concat ts with rfl | ⟨ts, t, rfl⟩
  · rfl
  · rw [List.concat_eq_append, afterTables_concat, if_neg (by simp)]
    rfl

theorem readLines_statement {s s' : TomlState} (hs : s.array = none) {cs rest : List Char}
    (h : readStatement s cs = .ok (s', rest)) (hlt : rest.length < cs.length) :
    readLines s cs = readLines s' rest := by
  refine readLines_step ?_ hlt
  unfold readLine
  rw [hs]
  exact h

theorem readLines_blank {s : TomlState} (hs : s.array = none) (rest : List Char) :
    readLines s ('\n' :: rest) = readLines s rest :=
  readLines_statement hs rfl (by simp)

theorem readLines_comment {s : TomlState} (hs : s.array = none) {text : List Char}
    (htext : text.all (fun c => c ≠ '\n' && !isControl c) = true) (rest : List Char) :
    readLines s ('#' :: (text ++ '\n' :: rest)) = readLines s rest := by
  have hall : ∀ c ∈ text, decide (c ≠ '\n') = true := fun c hc =>
    (Bool.and_eq_true_iff.1 (List.all_eq_true.1 htext c hc)).1
  have hplain : text.any isControl = false := by
    refine List.any_eq_false.2 fun c hc => ?_
    simpa using (Bool.and_eq_true_iff.1 (List.all_eq_true.1 htext c hc)).2
  have hline : readStatement s ('#' :: (text ++ '\n' :: rest)) = .ok (s, '\n' :: rest) := by
    show (if ((text ++ '\n' :: rest).takeWhile fun c => decide (c ≠ '\n')).any isControl then _ else
      Except.ok (s, (text ++ '\n' :: rest).dropWhile fun c => decide (c ≠ '\n'))) = _
    rw [List.takeWhile_append_of_pos hall, List.dropWhile_append_of_pos hall,
      List.takeWhile_cons_of_neg (by decide), List.dropWhile_cons_of_neg (by decide),
      List.append_nil,
      hplain]
    rfl
  have hlength : ('\n' :: rest).length < ('#' :: (text ++ '\n' :: rest)).length := by
    simp only [List.length_cons, List.length_append]
    omega
  rw [readLines_statement hs hline hlength, readLines_blank hs]

/-- The line that opens a table. -/
def tableLine (name : String) : List Char := "[[".toList ++ name.toList ++ "]]\n".toList

theorem readLines_table {name : String} (hname : isBareKey name = true)
    (ts : List (List (String × Toml))) (rest : List Char) :
    readLines (afterTables name ts) (tableLine name ++ rest) =
      readLines (inTable name ts []) rest := by
  have hopen : (afterTables name ts).openTable name = .ok (inTable name ts []) := by
    rcases List.eq_nil_or_concat ts with rfl | ⟨ts, t, rfl⟩
    · rfl
    · rw [List.concat_eq_append, afterTables_concat]
      exact if_pos rfl
  have hline : readStatement (afterTables name ts) (tableLine name ++ rest) =
      .ok (inTable name ts [], rest) := by
    have htext : tableLine name ++ rest =
        '[' :: '[' :: (name.toList ++ ']' :: ']' :: '\n' :: rest) := by
      simp [tableLine]
    rw [htext]
    show (readTomlKey (name.toList ++ ']' :: ']' :: '\n' :: rest) >>= _) = _
    rw [readTomlKey_bare hname (by rfl), Except.ok_bind]
    show ((afterTables name ts).openTable name >>= _) = _
    rw [hopen]
    rfl
  refine readLines_statement (array_afterTables name ts) hline ?_
  simp only [tableLine, List.length_append]
  have hopen : 0 < "[[".toList.length := by decide
  omega

/-- A line of a pair. -/
theorem readStatement_pair {key : String} (hkey : isBareKey key = true) (s : TomlState)
    (rest : List Char) :
    readStatement s (key.toList ++ rest) = readPairLine s (key.toList ++ rest) := by
  obtain ⟨hne, hall⟩ := Bool.and_eq_true_iff.1 hkey
  obtain ⟨c, cs, hcs⟩ := List.exists_cons_of_ne_nil (l := key.toList) (by simpa using hne)
  have hc : isKeyChar c = true := List.all_eq_true.1 hall c (hcs ▸ List.mem_cons_self)
  rw [hcs, List.cons_append]
  unfold readStatement
  split
  · next heq => obtain ⟨rfl, -⟩ := List.cons.inj heq; cases hc
  · next heq => obtain ⟨rfl, -⟩ := List.cons.inj heq; cases hc
  · next heq => obtain ⟨rfl, -⟩ := List.cons.inj heq; cases hc
  · rfl

theorem put_inTable (name : String) (ts : List (List (String × Toml))) {t : List (String × Toml)}
    {key : String} (hnew : key ∉ t.map Prod.fst) (value : Toml) :
    (inTable name ts t).put key value = .ok (inTable name ts (t ++ [(key, value)])) := if_neg hnew

theorem readLines_string {key value : String} (hkey : isBareKey key = true) (hne : value ≠ "")
    {t : List (String × Toml)} (hnew : key ∉ t.map Prod.fst) (name : String)
    (ts : List (List (String × Toml))) (rest : List Char) :
    readLines (inTable name ts t) (stringPair key value ++ '\n' :: rest) =
      if isBroken value then .error .invalid
      else readLines (inTable name ts (t ++ [(key, .str value)])) rest := by
  have htext : stringPair key value ++ '\n' :: rest =
      key.toList ++ ' ' :: '=' :: ' ' :: '"' :: (escaped value.toList ++ '"' :: '\n' :: rest) := by
    simp [stringPair]
  have hline : readStatement (inTable name ts t) (stringPair key value ++ '\n' :: rest) =
      if isBroken value then .error .invalid
      else .ok (inTable name ts (t ++ [(key, .str value)]), rest) := by
    rw [htext, readStatement_pair hkey]
    unfold readPairLine
    rw [readTomlEquals_bare hkey (by decide), Except.ok_bind]
    dsimp only
    rw [List.head?_cons, if_neg (by decide), readScalar_string hne]
    split_ifs
    · rfl
    · rw [Except.ok_bind]
      dsimp only
      rw [put_inTable name ts hnew]
      rfl
  split_ifs at hline ⊢ with hbroken
  · refine readLines_error (by simp [stringPair]) ?_
    exact hline
  · refine readLines_statement rfl hline ?_
    simp only [List.length_append, List.length_cons]
    omega

/-! ## Arrays of inline tables -/

/-- The line that opens an array. -/
def arrayLine (key : String) : List Char := key.toList ++ " = [".toList

/-- The items so far of an open array. -/
def inArray (name : String) (ts : List (List (String × Toml))) (t : List (String × Toml))
    (key : String) (items : List Toml) : TomlState :=
  { inTable name ts t with array := some (key, items) }

theorem readLines_array {key : String} (hkey : isBareKey key = true) (name : String)
    (ts : List (List (String × Toml))) (t : List (String × Toml)) (rest : List Char) :
    readLines (inTable name ts t) (arrayLine key ++ rest) =
      readLines (inArray name ts t key []) rest := by
  have htext : arrayLine key ++ rest = key.toList ++ ' ' :: '=' :: ' ' :: '[' :: rest := by
    simp [arrayLine]
  have hline : readStatement (inTable name ts t) (arrayLine key ++ rest) =
      .ok (inArray name ts t key [], rest) := by
    rw [htext, readStatement_pair hkey]
    unfold readPairLine
    rw [readTomlEquals_bare hkey (by decide), Except.ok_bind]
    rfl
  refine readLines_statement rfl hline ?_
  simp only [arrayLine, List.length_append]
  have hopen : 0 < " = [".toList.length := by decide
  omega

/-- The text of an item, between its line and the next one. -/
def itemText (body : List Char) : List Char := "\n  \x7b".toList ++ body ++ ",".toList

section

variable {name key : String} {ts : List (List (String × Toml))} {t : List (String × Toml)}
  {items : List Toml} {body rest : List Char}

theorem readLine_item (name key : String) (ts : List (List (String × Toml)))
    (t : List (String × Toml)) (items : List Toml) (body rest : List Char) :
    readLine (inArray name ts t key items) (itemText body ++ rest) = (do
      let (pairs, rest) ← readPairs (body ++ ',' :: rest).length [] (body ++ ',' :: rest)
      match rest with
      | ',' :: rest => .ok (inArray name ts t key (items ++ [.table pairs]), rest)
      | _ => .error .beyond) := by
  have htext : itemText body ++ rest = '\n' :: ' ' :: ' ' :: '\x7b' :: (body ++ ',' :: rest) := by
    simp [itemText]
  rw [htext]
  rfl

theorem readLines_item {pairs : List (String × Toml)}
    (h : ∀ fuel, body.length < fuel →
      readPairs fuel [] (body ++ ',' :: rest) = .ok (pairs, ',' :: rest)) :
    readLines (inArray name ts t key items) (itemText body ++ rest) =
      readLines (inArray name ts t key (items ++ [.table pairs])) rest := by
  have hline : readLine (inArray name ts t key items) (itemText body ++ rest) =
      .ok (inArray name ts t key (items ++ [.table pairs]), rest) := by
    rw [readLine_item, h _ (by simp)]
    rfl
  refine readLines_step hline ?_
  simp only [itemText, List.length_append]
  have hopen : 0 < ",".toList.length := by decide
  omega

theorem readLines_item_invalid
    (h : ∀ fuel, body.length < fuel → readPairs fuel [] (body ++ ',' :: rest) = .error .invalid) :
    readLines (inArray name ts t key items) (itemText body ++ rest) = .error .invalid := by
  refine readLines_error (by simp [itemText]) ?_
  rw [readLine_item, h _ (by simp)]
  rfl

theorem readLines_close (hnew : key ∉ t.map Prod.fst) :
    readLines (inArray name ts t key items) ("\n]\n".toList ++ rest) =
      readLines (inTable name ts (t ++ [(key, .array items)])) rest := by
  have hline : readLine (inArray name ts t key items) ("\n]\n".toList ++ rest) =
      .ok (inTable name ts (t ++ [(key, .array items)]), rest) := by
    show ((inTable name ts t).put key (.array items) >>= _) = _
    rw [put_inTable name ts hnew]
    rfl
  refine readLines_step hline ?_
  simp only [List.length_append]
  have hclose : 0 < "\n]\n".toList.length := by decide
  omega

end

end AgentLab.Config
