import Mathlib.Data.Int.Log
import AgentLab.Python.Json

/-!
# Writing JSON

`json.dumps(value, indent=2)`, with `repr` of a float, and what `loads` makes of its parts: each of
them is one token (`tokens_intStr`, `tokens_floatText`, `tokens_quoted`). Only a string with two
surrogates that make a pair comes back as another one (`joinUnits_flatMap_iff`).
-/

namespace AgentLab.Python

/-! ## Strings -/

def hexDigit (n : ℕ) : CodePoint := Fin.ofNat 0x110000 (if n < 10 then 0x30 + n else 0x57 + n)

/-- `\uXXXX`. -/
def unitEscape (n : ℕ) : Str :=
  [0x5C, 0x75, hexDigit (n / 0x1000 % 16), hexDigit (n / 0x100 % 16), hexDigit (n / 0x10 % 16),
    hexDigit (n % 16)]

def highOf (c : CodePoint) : ℕ := 0xD800 + (c.val - 0x10000) / 0x400

def lowOf (c : CodePoint) : ℕ := 0xDC00 + (c.val - 0x10000) % 0x400

/-- The characters that are escaped by one character. -/
def letterEscapes : List (CodePoint × CodePoint) :=
  [(0x22, 0x22), (0x5C, 0x5C), (0x8, 0x62), (0xC, 0x66), (0xA, 0x6E), (0xD, 0x72), (0x9, 0x74)]

def letterEscape? (c : CodePoint) : Option CodePoint := letterEscapes.lookup c

/-- A character of a JSON string, in ASCII. -/
def escapeAscii (c : CodePoint) : Str :=
  match letterEscape? c with
  | some e => [0x5C, e]
  | none =>
    if 0x20 ≤ c.val ∧ c.val ≤ 0x7E then [c]
    else if c.val < 0x10000 then unitEscape c.val
    else unitEscape (highOf c) ++ unitEscape (lowOf c)

/-- `json.dumps` of a string. -/
def quoted (s : Str) : Str := 0x22 :: (s.flatMap escapeAscii ++ [0x22])

/-! ## Floats -/

/-- The exponent that `repr` shows. -/
def exponentText (e : ℤ) : Str :=
  (if e < 0 then [0x2D] else [0x2B]) ++ (if e.natAbs < 10 then [0x30] else []) ++ natStr e.natAbs

/-- `n * 10 ** e` in the format of `repr`. -/
def reprText (n : ℕ) (e : ℤ) : Str :=
  let digits := (natStr n).rdropWhile (· = 0x30)
  let point : ℤ := (natStr n).length + e
  if point ≤ -4 ∨ 16 < point then
    digits.take 1 ++ (if digits.length ≤ 1 then [] else 0x2E :: digits.drop 1) ++
      0x65 :: exponentText (point - 1)
  else if point ≤ 0 then str "0." ++ List.replicate (-point).toNat 0x30 ++ digits
  else if digits.length ≤ point.toNat then
    digits ++ List.replicate (point.toNat - digits.length) 0x30 ++ str ".0"
  else digits.take point.toNat ++ 0x2E :: digits.drop point.toNat

/-- The decimals next to a positive number, of one digit, of two and so on, the nearer one first. -/
def nearDecimals (q : ℚ) : List Str :=
  (List.range 17).flatMap fun d =>
    let e := Int.log 10 q - d
    let r := q / 10 ^ e
    let near := (roundHalfEven r).toNat
    let far := if near = ⌊r⌋.toNat then near + 1 else near - 1
    [reprText near e, reprText far e]

/-- `float(text) == q`. -/
def readsBack (q : ℚ) (text : Str) : Bool :=
  match number? text with
  | some (.literal (.float f), []) => f = .finite q
  | _ => false

/-- The decimal expansion of a binary64 number. -/
def exactText (q : ℚ) : Str := intStr ⌊q * 10 ^ 1074⌋ ++ str "e-1074"

/-- `repr` of a finite float: the first decimal that reads back. Seventeen digits are always enough;
where they were not, it would be the exact expansion. -/
def floatText (q : ℚ) : Str :=
  if q = 0 then str "0.0"
  else
    let sign : Str := if q < 0 then [0x2D] else []
    (((nearDecimals |q|).map (sign ++ ·)).find? (readsBack q)).getD (exactText q)

/-! ## Values -/

/-- `repr` of an integer; from 4301 digits on Python refuses. -/
def intText (n : ℤ) : Except PyExc Str :=
  if 4300 < (natStr n.natAbs).length then .error .valueError else .ok (intStr n)

def jsonFloat : PyFloat → Str
  | .finite q => floatText q
  | .inf => "Infinity"
  | .negInf => "-Infinity"
  | .nan => "NaN"

def newlineIndent (level : ℕ) : Str := 0xA :: List.replicate (2 * level) 0x20

mutual

/-- `json.dumps(value, indent=2)`, at a level of nesting. -/
def dumpsAt (level : ℕ) : Json → Except PyExc Str
  | .null => .ok "null"
  | .bool b => .ok (if b then "true" else "false")
  | .int n => intText n
  | .float f => .ok (jsonFloat f)
  | .str s => .ok (quoted s)
  | .list [] => .ok "[]"
  | .list (v :: l) => do
    return 0x5B :: newlineIndent (level + 1) ++ (← dumpsAt (level + 1) v) ++
      (← dumpsItems (level + 1) l) ++
      newlineIndent level ++ [0x5D]
  | .obj [] => .ok "{}"
  | .obj ((key, v) :: o) => do
    return 0x7B :: newlineIndent (level + 1) ++ quoted key ++ str ": " ++
      (← dumpsAt (level + 1) v) ++
      (← dumpsMembers (level + 1) o) ++ newlineIndent level ++ [0x7D]

def dumpsItems (level : ℕ) : List Json → Except PyExc Str
  | [] => .ok []
  | v :: l => do
    return 0x2C :: newlineIndent level ++ (← dumpsAt level v) ++ (← dumpsItems level l)

def dumpsMembers (level : ℕ) : List (Str × Json) → Except PyExc Str
  | [] => .ok []
  | (key, v) :: o => do
    return 0x2C :: newlineIndent level ++ quoted key ++ str ": " ++ (← dumpsAt level v) ++
      (← dumpsMembers level o)

end

/-- `json.dumps(value, indent=2)`. -/
def dumps (v : Json) : Except PyExc Str := dumpsAt 0 v

/-! ## Digits -/

variable {s rest : Str} {t : JsonToken}

theorem natStr_eq (n : ℕ) :
    natStr n = (Nat.toDigits 10 n).map fun c => Fin.ofNat 0x110000 c.toNat := by
  unfold natStr str
  rw [Nat.toString_eq_ofList_toDigits, String.toList_ofList]

theorem digitChar_toNat {d : ℕ} (h : d < 10) : (Nat.digitChar d).toNat = 0x30 + d := by
  revert h
  exact (by decide : ∀ d < 10, (Nat.digitChar d).toNat = 0x30 + d) d

theorem natStr_of_lt {n : ℕ} (h : n < 10) : natStr n = [Fin.ofNat 0x110000 (0x30 + n)] := by
  rw [natStr_eq, Nat.toDigits_of_lt_base h, List.map_singleton, digitChar_toNat h]

theorem natStr_of_ge {n : ℕ} (h : 10 ≤ n) :
    natStr n = natStr (n / 10) ++ [Fin.ofNat 0x110000 (0x30 + n % 10)] := by
  rw [natStr_eq, Nat.toDigits_of_base_le (by decide) h, List.map_append, ← natStr_eq,
    List.map_singleton, digitChar_toNat (Nat.mod_lt n (by decide))]

theorem val_digit {d : ℕ} (h : d < 10) : (Fin.ofNat 0x110000 (0x30 + d)).val = 0x30 + d :=
  Nat.mod_eq_of_lt (by omega)

theorem digitsValue_concat (s : Str) (c : CodePoint) :
    digitsValue (s ++ [c]) = 10 * digitsValue s + (c.val - 0x30) := by
  unfold digitsValue
  rw [List.foldl_append]
  rfl

/-- The digits of a number: they are digits, stand for it, and only those of zero start with one. -/
theorem natStr_spec (n : ℕ) : natStr n ≠ [] ∧ (∀ c ∈ natStr n, isAsciiDigit c = true) ∧
    digitsValue (natStr n) = n ∧ ((natStr n).head? = some 0x30 → n = 0) := by
  have hdigit : ∀ d < 10, isAsciiDigit (Fin.ofNat 0x110000 (0x30 + d)) = true := by decide
  induction n using Nat.strongRecOn with
  | _ n ih =>
    by_cases hn : n < 10
    · rw [natStr_of_lt hn]
      refine ⟨List.cons_ne_nil _ _, List.forall_mem_singleton.2 (hdigit n hn), ?_, fun hzero => ?_⟩
      · show 10 * 0 + ((Fin.ofNat 0x110000 (0x30 + n)).val - 0x30) = n
        rw [val_digit hn]
        omega
      · have hval := congrArg Fin.val (Option.some.inj hzero)
        rw [val_digit hn] at hval
        have hval : 0x30 + n = 0x30 := hval
        omega
    · obtain ⟨hne, hall, hvalue, hhead⟩ := ih (n / 10) (by omega)
      have hmod : n % 10 < 10 := Nat.mod_lt n (by decide)
      rw [natStr_of_ge (not_lt.1 hn)]
      refine ⟨List.append_ne_nil_of_left_ne_nil hne _, ?_, ?_, fun hzero => ?_⟩
      · rw [List.forall_mem_append]
        exact ⟨hall, List.forall_mem_singleton.2 (hdigit _ hmod)⟩
      · rw [digitsValue_concat, hvalue, val_digit hmod]
        omega
      · rw [List.head?_append_of_ne_nil _ hne] at hzero
        have := hhead hzero
        omega

theorem natStr_ne_nil (n : ℕ) : natStr n ≠ [] := (natStr_spec n).1

theorem isAsciiDigit_of_mem_natStr {n : ℕ} : ∀ c ∈ natStr n, isAsciiDigit c = true :=
  (natStr_spec n).2.1

@[simp] theorem digitsValue_natStr (n : ℕ) : digitsValue (natStr n) = n := (natStr_spec n).2.2.1

theorem eq_zero_of_natStr {n : ℕ} (h : (natStr n).head? = some 0x30) : n = 0 :=
  (natStr_spec n).2.2.2 h

theorem takeWhile_digits (h : ∀ c ∈ s, isAsciiDigit c = true)
    (hrest : ∀ c ∈ rest.head?, isAsciiDigit c = false) :
    (s ++ rest).takeWhile isAsciiDigit = s ∧ (s ++ rest).dropWhile isAsciiDigit = rest := by
  have hnone : rest.takeWhile isAsciiDigit = [] ∧ rest.dropWhile isAsciiDigit = rest := by
    cases rest with
    | nil => exact ⟨rfl, rfl⟩
    | cons c rest =>
      have hc := hrest c rfl
      rw [List.takeWhile_cons, List.dropWhile_cons, hc]
      exact ⟨rfl, rfl⟩
  rw [List.takeWhile_append_of_pos h, List.dropWhile_append_of_pos h, hnone.1, hnone.2,
    List.append_nil]
  exact ⟨rfl, rfl⟩

theorem takeWhile_all (h : ∀ c ∈ s, isAsciiDigit c = true) :
    s.takeWhile isAsciiDigit = s ∧ s.dropWhile isAsciiDigit = [] := by
  have hnil := takeWhile_digits h (fun c (hc : c ∈ ([] : Str).head?) => nomatch hc)
  rwa [List.append_nil] at hnil

/-! ## Numbers -/

/-- The characters that a number may go on with. -/
def isNumberChar (c : CodePoint) : Bool :=
  isAsciiDigit c || c = 0x2E || c = 0x65 || c = 0x45 || c = 0x2B || c = 0x2D

/-- A number that is followed by the text ends there. -/
def EndsNumber (rest : Str) : Prop := ∀ c ∈ rest.head?, isNumberChar c = false

theorem EndsNumber.ne {c : CodePoint} (h : EndsNumber rest) (hc : isNumberChar c = true) :
    rest.head? ≠ some c := fun hhead => Bool.false_ne_true ((h c hhead).symm.trans hc)

theorem EndsNumber.digit (h : EndsNumber rest) : ∀ c ∈ rest.head?, isAsciiDigit c = false := by
  intro c hc
  have hnot := h c hc
  unfold isNumberChar at hnot
  simp only [Bool.or_eq_false_iff] at hnot
  exact hnot.1.1.1.1.1

theorem takeWhile_append_rest (h : EndsNumber rest) (s : Str) :
    (s ++ rest).takeWhile isAsciiDigit = s.takeWhile isAsciiDigit ∧
      (s ++ rest).dropWhile isAsciiDigit = s.dropWhile isAsciiDigit ++ rest := by
  induction s with
  | nil => exact takeWhile_digits (List.forall_mem_nil _) h.digit
  | cons c s ih =>
    rw [List.cons_append, List.takeWhile_cons, List.dropWhile_cons, List.takeWhile_cons,
      List.dropWhile_cons]
    split_ifs
    · exact ⟨congrArg _ ih.1, ih.2⟩
    · exact ⟨rfl, rfl⟩

theorem splitSign_append (h : EndsNumber rest) (s : Str) :
    splitSign (s ++ rest) = ((splitSign s).1, (splitSign s).2 ++ rest) := by
  unfold splitSign
  cases s with
  | nil => rw [List.nil_append, if_neg (h.ne (by decide))]; rfl
  | cons c s =>
    rw [List.cons_append, List.head?_cons, List.head?_cons]
    split_ifs <;> rfl

theorem splitInt_append (h : EndsNumber rest) (s : Str) :
    splitInt (s ++ rest) = ((splitInt s).1, (splitInt s).2 ++ rest) := by
  unfold splitInt
  rw [(takeWhile_append_rest h s).1, (takeWhile_append_rest h s).2]
  cases s with
  | nil => rw [List.nil_append, if_neg (h.ne (by decide))]; rfl
  | cons c s =>
    rw [List.cons_append, List.head?_cons, List.head?_cons]
    split_ifs <;> rfl

theorem splitFraction_append (h : EndsNumber rest) (s : Str) :
    splitFraction (s ++ rest) = ((splitFraction s).1, (splitFraction s).2 ++ rest) := by
  unfold splitFraction
  cases s with
  | nil => rw [List.nil_append, if_neg (fun hpoint => h.ne (by decide) hpoint.1)]; rfl
  | cons c s =>
    rw [List.cons_append, List.head?_cons, List.head?_cons, List.drop_succ_cons,
      List.drop_succ_cons, List.drop_zero, List.drop_zero, (takeWhile_append_rest h s).1,
      (takeWhile_append_rest h s).2]
    split_ifs <;> rfl

theorem splitExponentSign_append (h : EndsNumber rest) (s : Str) :
    splitExponentSign (s ++ rest) = ((splitExponentSign s).1, (splitExponentSign s).2 ++ rest) := by
  unfold splitExponentSign
  cases s with
  | nil =>
    rw [List.nil_append, if_neg (h.ne (by decide)), if_neg (h.ne (by decide))]
    rfl
  | cons c s =>
    rw [List.cons_append, List.head?_cons, List.head?_cons]
    split_ifs <;> rfl

theorem splitExponent_append (h : EndsNumber rest) (s : Str) :
    splitExponent (s ++ rest) = ((splitExponent s).1, (splitExponent s).2 ++ rest) := by
  unfold splitExponent
  cases s with
  | nil =>
    have he : ¬ (rest.head? = some 0x65 ∨ rest.head? = some 0x45) := by
      rintro (he | he)
      · exact h.ne (by decide) he
      · exact h.ne (by decide) he
    dsimp only
    rw [List.nil_append, if_neg (fun hexponent => he hexponent.1)]
    rfl
  | cons c s =>
    rw [List.cons_append, List.head?_cons, List.head?_cons, List.drop_succ_cons,
      List.drop_succ_cons, List.drop_zero, List.drop_zero, splitExponentSign_append h]
    dsimp only
    rw [(takeWhile_append_rest h _).1, (takeWhile_append_rest h _).2]
    split_ifs <;> rfl

theorem number?_append (h : EndsNumber rest) (s : Str) :
    number? (s ++ rest) = (number? s).map fun r => (r.1, r.2 ++ rest) := by
  unfold number?
  rw [splitSign_append h]
  dsimp only
  rw [splitInt_append h]
  dsimp only
  rw [splitFraction_append h]
  dsimp only
  rw [splitExponent_append h]
  dsimp only
  split_ifs <;> rfl

theorem tokens_number (h : number? s = some (t, rest)) : tokens s = t :: tokens rest := by
  have hs : s ≠ [] := by
    rintro rfl
    cases h
  have hscan : scanToken s = (some t, rest) := by
    unfold scanToken
    rw [h]
  rw [tokens_eq hs, hscan]
  rfl

/-! ### Integers -/

theorem splitInt_natStr (n : ℕ) (hrest : ∀ c ∈ rest.head?, isAsciiDigit c = false) :
    splitInt (natStr n ++ rest) = (natStr n, rest) := by
  obtain ⟨htake, hdrop⟩ := takeWhile_digits (isAsciiDigit_of_mem_natStr (n := n)) hrest
  unfold splitInt
  split_ifs with hzero
  · rw [List.head?_append_of_ne_nil _ (natStr_ne_nil n)] at hzero
    obtain rfl := eq_zero_of_natStr hzero
    rfl
  · rw [htake, hdrop]

theorem intStr_neg_succ (n : ℕ) : intStr (Int.negSucc n) = 0x2D :: natStr (n + 1) := by
  have hrepr : toString (Int.negSucc n) = "-" ++ toString (n + 1) := rfl
  unfold intStr natStr str
  rw [hrepr, String.toList_append, List.map_append]
  rfl

theorem splitSign_intStr (n : ℤ) (rest : Str) :
    splitSign (intStr n ++ rest) = (decide (n < 0), natStr n.natAbs ++ rest) := by
  cases n with
  | ofNat n =>
    have hhead : (natStr n ++ rest).head? ≠ some 0x2D := by
      intro hminus
      rw [List.head?_append_of_ne_nil _ (natStr_ne_nil n)] at hminus
      have hdigit := isAsciiDigit_of_mem_natStr _ (List.mem_of_mem_head? hminus)
      exact absurd hdigit (by decide)
    show splitSign (natStr n ++ rest) = _
    rw [splitSign, if_neg hhead]
    exact Prod.ext (decide_eq_false (not_lt.2 (Int.natCast_nonneg n))).symm rfl
  | negSucc n =>
    have hminus : (0x2D :: natStr (n + 1) ++ rest).head? = some 0x2D := rfl
    rw [intStr_neg_succ, splitSign, if_pos hminus]
    exact Prod.ext (decide_eq_true (Int.negSucc_lt_zero n)).symm rfl

theorem sign_mul_natAbs (n : ℤ) :
    (if decide (n < 0) = true then -1 else 1) * (n.natAbs : ℤ) = n := by
  split_ifs with h <;> simp only [decide_eq_true_eq] at h <;> omega

theorem number?_intStr (n : ℤ) (h : EndsNumber rest) :
    number? (intStr n ++ rest) = some (.int (natStr n.natAbs).length n, rest) := by
  have hfraction : splitFraction rest = ([], rest) :=
    if_neg fun hpoint => h.ne (by decide) hpoint.1
  have hexponent : splitExponent rest = (none, rest) := by
    refine if_neg fun he => he.1.elim (h.ne (by decide)) (h.ne (by decide))
  unfold number?
  rw [splitSign_intStr]
  dsimp only
  rw [splitInt_natStr n.natAbs h.digit]
  dsimp only
  rw [hfraction]
  dsimp only
  rw [hexponent]
  dsimp only
  rw [if_neg (natStr_ne_nil _), if_pos ⟨rfl, rfl⟩, digitsValue_natStr, sign_mul_natAbs]

/-! ### Floats -/

/-- The binary64 numbers. -/
def IsFloat (q : ℚ) : Prop := PyFloat.ofRat q = .finite q

theorem number?_scientific (n : ℤ) (k : ℕ) : number? (intStr n ++ str "e-" ++ natStr k) =
    some (.literal (.float (.ofRat (n * 10 ^ (-(k : ℤ))))), []) := by
  have hrest : (0x65 :: 0x2D :: natStr k : Str).head? = some 0x65 := rfl
  have hfraction : splitFraction (0x65 :: 0x2D :: natStr k) = ([], 0x65 :: 0x2D :: natStr k) :=
    if_neg fun hpoint => by cases hpoint.1
  obtain ⟨htake, hdrop⟩ :=
    takeWhile_all (isAsciiDigit_of_mem_natStr (n := k))
  have hsign : splitExponentSign (0x2D :: natStr k) = (-1, natStr k) := if_pos rfl
  have hexponent : splitExponent (0x65 :: 0x2D :: natStr k) = (some (-(k : ℤ)), []) := by
    unfold splitExponent
    rw [List.drop_succ_cons, List.drop_zero, hsign]
    dsimp only
    rw [htake, hdrop, if_pos ⟨.inl rfl, natStr_ne_nil k⟩, digitsValue_natStr, neg_one_mul]
  have htext : intStr n ++ str "e-" ++ natStr k = intStr n ++ (0x65 :: 0x2D :: natStr k) :=
    List.append_assoc _ _ _
  unfold number?
  rw [htext, splitSign_intStr]
  dsimp only
  rw [splitInt_natStr n.natAbs (fun c hc => by cases hc; rfl)]
  dsimp only
  rw [hfraction]
  dsimp only
  rw [hexponent]
  dsimp only
  rw [if_neg (natStr_ne_nil _), if_neg (fun h => nomatch h.2), List.append_nil, digitsValue_natStr]
  have hn : ((if decide (n < 0) = true then -1 else 1 : ℤ) : ℚ) * (n.natAbs : ℕ) = n := by
    have hcast := congrArg (Int.cast : ℤ → ℚ) (sign_mul_natAbs n)
    rwa [Int.cast_mul, Int.cast_natCast] at hcast
  rw [hn, Option.getD_some, List.length_nil, Nat.cast_zero, sub_zero]

theorem IsFloat.scaled {q : ℚ} (h : IsFloat q) : ∃ n : ℤ, q * 10 ^ 1074 = n := by
  obtain ⟨z, m, hz, hq⟩ : ∃ (z : ℤ) (m : ℤ), -1074 ≤ z ∧ m * (2 : ℚ) ^ z = q := by
    unfold IsFloat PyFloat.ofRat at h
    dsimp only at h
    split_ifs at h
    refine ⟨_, _, ?_, PyFloat.finite.inj h⟩
    have := le_max_right (binaryExponent q) (-1022)
    omega
  obtain ⟨k, hk⟩ := Int.eq_ofNat_of_zero_le (a := z + 1074) (by omega)
  refine ⟨m * 2 ^ k * 5 ^ 1074, ?_⟩
  have hten : (10 : ℚ) ^ 1074 = 2 ^ (1074 : ℤ) * 5 ^ 1074 := by
    have h10 : (10 : ℚ) = 2 * 5 := by norm_num
    rw [h10, mul_pow]
    rfl
  have hpow : (2 : ℚ) ^ z * 2 ^ (1074 : ℤ) = 2 ^ k := by
    rw [← zpow_add₀ two_ne_zero, hk]
    rfl
  rw [← hq, hten, mul_assoc, ← mul_assoc (2 ^ z), hpow, ← mul_assoc]
  rw [Int.cast_mul, Int.cast_mul, Int.cast_pow, Int.cast_pow, Int.cast_ofNat, Int.cast_ofNat]

theorem number?_exactText {q : ℚ} (h : IsFloat q) :
    number? (exactText q) = some (.literal (.float (.finite q)), []) := by
  obtain ⟨n, hn⟩ := h.scaled
  have hfloor : ⌊q * 10 ^ 1074⌋ = n := by rw [hn, Int.floor_intCast]
  have htext : exactText q = intStr n ++ str "e-" ++ natStr 1074 := by
    have hsplit : str "e-1074" = str "e-" ++ natStr 1074 := by decide +kernel
    unfold exactText
    rw [hfloor, hsplit, List.append_assoc]
  have hq : (n : ℚ) * 10 ^ (-(1074 : ℕ) : ℤ) = q := by
    rw [← hn, zpow_neg, zpow_natCast]
    exact mul_inv_cancel_right₀ (pow_ne_zero _ (by norm_num)) q
  rw [htext, number?_scientific, hq, h]

/-- `float(repr(q)) == q`. -/
theorem number?_floatText {q : ℚ} (h : IsFloat q) :
    number? (floatText q) = some (.literal (.float (.finite q)), []) := by
  unfold floatText
  by_cases hzero : q = 0
  · have hnumber : number? (str "0.0") =
        some (.literal (.float (.ofRat ((1 : ℤ) * (0 : ℕ) * 10 ^ ((0 : ℤ) - (1 : ℕ))))), []) := rfl
    rw [Nat.cast_zero, mul_zero, zero_mul, ← hzero, h] at hnumber
    rw [if_pos hzero, hnumber]
  · rw [if_neg hzero]
    dsimp only
    generalize hfind : List.find? (readsBack q) _ = found
    cases found with
    | none => exact number?_exactText h
    | some text =>
      have hreads := List.find?_some hfind
      unfold readsBack at hreads
      split at hreads
      · next f hnumber =>
        rw [Option.getD_some, hnumber, of_decide_eq_true hreads]
      · cases hreads

/-! ## Tokens of the parts -/

theorem tokens_intStr (n : ℤ) (h : EndsNumber rest) :
    tokens (intStr n ++ rest) = .int (natStr n.natAbs).length n :: tokens rest :=
  tokens_number (number?_intStr n h)

theorem tokens_floatText {q : ℚ} (hq : IsFloat q) (h : EndsNumber rest) :
    tokens (floatText q ++ rest) = .literal (.float (.finite q)) :: tokens rest := by
  have hnumber := number?_append h (floatText q)
  rw [number?_floatText hq] at hnumber
  exact tokens_number hnumber

/-- No number starts with the character, with or without a sign before it. -/
theorem number?_eq_none {c : CodePoint} {s' : Str} (hc : isAsciiDigit c = false)
    (hs : (splitSign s).2 = c :: s') : number? s = none := by
  have hzero : (c :: s').head? ≠ some 0x30 := by
    intro h
    obtain rfl := Option.some.inj h
    cases hc
  have hint : splitInt (c :: s') = ([], c :: s') := by
    unfold splitInt
    rw [if_neg hzero, List.takeWhile_cons, List.dropWhile_cons, hc]
    rfl
  unfold number?
  dsimp only
  rw [hs, hint]
  exact if_pos rfl

theorem splitSign_cons {c : CodePoint} (hc : c ≠ 0x2D) (s : Str) :
    splitSign (c :: s) = (false, c :: s) := if_neg fun h => hc (Option.some.inj h)

theorem tokens_space {c : CodePoint} (hc : isJsonSpace c = true) (s : Str) :
    tokens (c :: s) = tokens s := by
  have hnot : isAsciiDigit c = false ∧ c ≠ 0x2D := by
    unfold isJsonSpace at hc
    simp only [Bool.or_eq_true, decide_eq_true_eq] at hc
    obtain ((rfl | rfl) | rfl) | rfl := hc <;> decide
  have hscan : scanToken (c :: s) = (none, s) := by
    unfold scanToken
    rw [number?_eq_none hnot.1 (congrArg Prod.snd (splitSign_cons hnot.2 s))]
    exact if_pos hc
  rw [tokens_eq (List.cons_ne_nil c s), hscan]
  rfl

theorem tokens_punctuation {c : CodePoint} (hc : punctuation? c = some t) (s : Str) :
    tokens (c :: s) = t :: tokens s := by
  have hnot : isAsciiDigit c = false ∧ c ≠ 0x2D ∧ ¬ isJsonSpace c = true ∧ c ≠ 0x22 := by
    unfold punctuation? at hc
    split_ifs at hc with h h h h h h <;> subst h <;> decide
  have hscan : scanToken (c :: s) = (some t, s) := by
    unfold scanToken
    rw [number?_eq_none hnot.1 (congrArg Prod.snd (splitSign_cons hnot.2.1 s))]
    dsimp only
    rw [if_neg hnot.2.2.1, if_neg hnot.2.2.2, hc]
  rw [tokens_eq (List.cons_ne_nil c s), hscan]
  rfl

theorem tokens_newlineIndent (level : ℕ) (s : Str) :
    tokens (newlineIndent level ++ s) = tokens s := by
  have hspaces : ∀ n, tokens (List.replicate n 0x20 ++ s) = tokens s := by
    intro n
    induction n with
    | zero => rfl
    | succ n ih =>
      rw [List.replicate_succ, List.cons_append, tokens_space (by decide), ih]
  unfold newlineIndent
  rw [List.cons_append, tokens_space (by decide), hspaces]

theorem tokens_constant {text : Str} {f : PyFloat}
    (h : (text, f) ∈
      ([("NaN", .nan), ("Infinity", .inf), ("-Infinity", .negInf)] : List (Str × PyFloat)))
    (rest : Str) : tokens (text ++ rest) = .literal (.float f) :: tokens rest := by
  have hne : text ++ rest ≠ [] := by
    rw [List.mem_cons, List.mem_cons, List.mem_singleton] at h
    obtain h | h | h := h <;> cases h <;> exact nofun
  have hscan : scanToken (text ++ rest) = (some (.literal (.float f)), rest) := by
    unfold scanToken
    rw [List.mem_cons, List.mem_cons, List.mem_singleton] at h
    obtain h | h | h := h <;> cases h
    · rw [number?_eq_none (c := 0x4E) (by decide) rfl]; rfl
    · rw [number?_eq_none (c := 0x49) (by decide) rfl]; rfl
    · rw [number?_eq_none (c := 0x49) (by decide) rfl]; rfl
  rw [tokens_eq hne, hscan]
  rfl

theorem tokens_jsonFloat {f : PyFloat} (hf : ∀ q, f = .finite q → IsFloat q) (h : EndsNumber rest) :
    tokens (jsonFloat f ++ rest) = .literal (.float f) :: tokens rest := by
  cases f with
  | finite q => exact tokens_floatText (hf q rfl) h
  | inf => exact tokens_constant (by simp [jsonFloat]) rest
  | negInf => exact tokens_constant (by simp [jsonFloat]) rest
  | nan => exact tokens_constant (by simp [jsonFloat]) rest

/-! ## Strings read back -/

/-- What a character of a string is scanned as. -/
def unitsOf (c : CodePoint) : List (Bool × CodePoint) :=
  if (letterEscape? c).isSome ∨ 0x20 ≤ c.val ∧ c.val ≤ 0x7E then [(false, c)]
  else if c.val < 0x10000 then [(true, c)]
  else [(true, Fin.ofNat 0x110000 (highOf c)), (true, Fin.ofNat 0x110000 (lowOf c))]

theorem hexValue?_hexDigit {n : ℕ} (h : n < 16) : hexValue? (hexDigit n) = some n := by
  revert h
  exact (by decide : ∀ n < 16, hexValue? (hexDigit n) = some n) n

theorem scanString_end (s : Str) : scanString (0x22 :: s) = some ([], s) := by
  rw [scanString.eq_def]
  exact if_pos rfl

theorem scanString_plain {c : CodePoint} (hquote : c ≠ 0x22) (hcontrol : 0x20 ≤ c.val)
    (hescape : c ≠ 0x5C) (s : Str) :
    scanString (c :: s) = (scanString s).map fun r => ((false, c) :: r.1, r.2) := by
  rw [scanString.eq_def]
  dsimp only
  rw [if_neg hquote, if_neg (not_lt.2 hcontrol), if_pos hescape]

theorem scanString_unitEscape {n : ℕ} (h : n < 0x10000) (s : Str) :
    scanString (unitEscape n ++ s) =
      (scanString s).map fun r => ((true, Fin.ofNat 0x110000 n) :: r.1, r.2) := by
  have hunit : hexUnit? (hexDigit (n / 0x1000 % 16)) (hexDigit (n / 0x100 % 16))
      (hexDigit (n / 0x10 % 16)) (hexDigit (n % 16)) = some (Fin.ofNat 0x110000 n) := by
    unfold hexUnit?
    have hdigit : ∀ m, hexValue? (hexDigit (m % 16)) = some (m % 16) :=
      fun m => hexValue?_hexDigit (Nat.mod_lt m (by decide))
    rw [hdigit, hdigit, hdigit, hdigit]
    have hn :
        16 * (16 * (16 * (n / 0x1000 % 16) + n / 0x100 % 16) + n / 0x10 % 16) + n % 16 = n := by
      omega
    show some (Fin.ofNat 0x110000 _) = _
    rw [hn]
  show scanString (0x5C :: 0x75 :: _ :: _ :: _ :: _ :: s) = _
  rw [scanString.eq_def]
  dsimp only
  rw [if_neg (by decide), if_neg (by decide), if_neg (by decide), if_pos rfl, hunit]
  rfl

theorem scanString_letter {c e : CodePoint} (h : letterEscape? c = some e) (s : Str) :
    scanString (0x5C :: e :: s) = (scanString s).map fun r => ((false, c) :: r.1, r.2) := by
  have hescape : escape? e = some c ∧ e ≠ 0x75 := by
    obtain ⟨before, after, heq, -⟩ := List.lookup_eq_some_iff.1 h
    have hmem : (c, e) ∈ letterEscapes := heq ▸ List.mem_append_right _ List.mem_cons_self
    exact of_decide_eq_true (List.all_eq_true.1
      (by decide : (letterEscapes.all fun l => escape? l.2 = some l.1 ∧ l.2 ≠ 0x75) = true) _ hmem)
  rw [scanString.eq_def]
  dsimp only
  rw [if_neg (by decide), if_neg (by decide), if_neg (by decide), if_neg hescape.2, hescape.1]
  rfl

theorem scanString_escapeAscii (c : CodePoint) (s : Str) :
    scanString (escapeAscii c ++ s) = (scanString s).map fun r => (unitsOf c ++ r.1, r.2) := by
  unfold escapeAscii unitsOf
  cases hletter : letterEscape? c with
  | some e => exact scanString_letter hletter s
  | none =>
    have hnone : ¬ (none : Option CodePoint).isSome = true := Bool.false_ne_true
    have hquote : c ≠ 0x22 := by rintro rfl; cases hletter
    have hescape : c ≠ 0x5C := by rintro rfl; cases hletter
    dsimp only
    by_cases hplain : 0x20 ≤ c.val ∧ c.val ≤ 0x7E
    · simp only [hplain, and_self, or_true, if_true]
      exact scanString_plain hquote hplain.1 hescape s
    · by_cases hbmp : c.val < 0x10000
      · have hc : Fin.ofNat 0x110000 c.val = c := Fin.ext (Nat.mod_eq_of_lt c.isLt)
        simp only [hplain, hnone, hbmp, if_true, if_false]
        rw [scanString_unitEscape hbmp, hc]
        rfl
      · have hc := c.isLt
        have hhigh : highOf c < 0x10000 := by unfold highOf; omega
        have hlow : lowOf c < 0x10000 := by unfold lowOf; omega
        simp only [hplain, hnone, hbmp, if_false]
        rw [List.append_assoc, scanString_unitEscape hhigh, scanString_unitEscape hlow,
          Option.map_map]
        rfl

theorem scanString_quoted (s rest : Str) :
    scanString (s.flatMap escapeAscii ++ 0x22 :: rest) = some (s.flatMap unitsOf, rest) := by
  induction s with
  | nil => exact scanString_end rest
  | cons c s ih =>
    rw [List.flatMap_cons, List.append_assoc, scanString_escapeAscii, ih]
    rfl

theorem tokens_quoted (s rest : Str) :
    tokens (quoted s ++ rest) = .string (joinUnits (s.flatMap unitsOf)) :: tokens rest := by
  have htext : quoted s ++ rest = 0x22 :: (s.flatMap escapeAscii ++ 0x22 :: rest) := by
    simp [quoted]
  have hscan : scanToken (quoted s ++ rest) =
      (some (.string (joinUnits (s.flatMap unitsOf))), rest) := by
    unfold scanToken
    rw [htext, number?_eq_none (c := 0x22) (by decide) rfl]
    dsimp only
    rw [if_neg (by decide), if_pos rfl, scanString_quoted]
  rw [tokens_eq (htext ▸ List.cons_ne_nil _ _), hscan]
  rfl

/-! ### Pairs of surrogates -/

/-- No two surrogates in a row that make a pair. -/
def Unpaired (s : Str) : Prop := s.IsChain fun a b => ¬ (isHigh a = true ∧ isLow b = true)

instance (s : Str) : Decidable (Unpaired s) :=
  inferInstanceAs (Decidable (s.IsChain fun a b => ¬ (isHigh a = true ∧ isLow b = true)))

theorem unitsOf_cases (c : CodePoint) : unitsOf c = [(false, c)] ∨ unitsOf c = [(true, c)] ∨
    ∃ a b, unitsOf c = [(true, a), (true, b)] ∧ isHigh a = true ∧ isLow a = false ∧ isLow b = true ∧
      paired a b = c := by
  have hc := c.isLt
  unfold unitsOf
  split_ifs with hplain hbmp
  · exact .inl rfl
  · exact .inr (.inl rfl)
  · have hhigh : (Fin.ofNat 0x110000 (highOf c)).val = highOf c :=
      Nat.mod_eq_of_lt (by unfold highOf; omega)
    have hlow : (Fin.ofNat 0x110000 (lowOf c)).val = lowOf c :=
      Nat.mod_eq_of_lt (by unfold lowOf; omega)
    refine .inr (.inr ⟨_, _, rfl, ?_, ?_, ?_, ?_⟩)
    · unfold isHigh
      rw [hhigh, Bool.and_eq_true, decide_eq_true_eq, decide_eq_true_eq]
      unfold highOf
      omega
    · unfold isLow
      rw [hhigh, Bool.and_eq_false_iff, decide_eq_false_iff_not]
      unfold highOf
      omega
    · unfold isLow
      rw [hlow, Bool.and_eq_true, decide_eq_true_eq, decide_eq_true_eq]
      unfold lowOf
      omega
    · unfold paired
      rw [hhigh, hlow]
      refine Fin.ext ((Nat.mod_eq_of_lt ?_).trans ?_) <;> unfold highOf lowOf <;> omega

theorem joinUnits_cons {c : CodePoint}
    (h : ∀ d ∈ s.head?, ¬ (isHigh c = true ∧ isLow d = true)) :
    joinUnits ((c :: s).flatMap unitsOf) = c :: joinUnits (s.flatMap unitsOf) := by
  rw [List.flatMap_cons]
  obtain hc | hc | ⟨a, b, hc, hhigh, -, hlow, hpaired⟩ := unitsOf_cases c
  · rw [hc]
    rfl
  · rw [hc]
    cases s with
    | nil => rfl
    | cons d s =>
      have hd := h d rfl
      rw [List.flatMap_cons]
      obtain heq | heq | ⟨a, b, heq, -, hlow, -⟩ := unitsOf_cases d
      · rw [heq]
        rfl
      · rw [heq]
        exact if_neg (by rwa [Bool.and_eq_true])
      · rw [heq]
        exact if_neg (by rw [hlow, Bool.and_false]; exact Bool.false_ne_true)
  · rw [hc, ← hpaired]
    exact if_pos (by rw [hhigh, hlow]; rfl)

theorem joinUnits_pair {c d : CodePoint} (hc : isHigh c = true) (hd : isLow d = true) (s : Str) :
    joinUnits ((c :: d :: s).flatMap unitsOf) = paired c d :: joinUnits (s.flatMap unitsOf) := by
  have hsurrogate : ∀ x : CodePoint, 0xD800 ≤ x.val → x.val ≤ 0xDFFF → unitsOf x = [(true, x)] := by
    intro x hx hx'
    have hletter : letterEscape? x = none := by
      refine List.lookup_eq_none_iff.2 fun l hl => ?_
      have hsmall : l.1.val < 0x80 := of_decide_eq_true (List.all_eq_true.1
        (by decide : (letterEscapes.all fun l => l.1.val < 0x80) = true) l hl)
      rw [bne_iff_ne]
      rintro rfl
      omega
    unfold unitsOf
    rw [hletter, if_neg, if_pos (by omega)]
    rintro (hsome | hplain)
    · cases hsome
    · omega
  simp only [isHigh, isLow, Bool.and_eq_true, decide_eq_true_eq] at hc hd
  rw [List.flatMap_cons, List.flatMap_cons, hsurrogate c hc.1 (by omega),
    hsurrogate d (by omega) hd.2]
  exact if_pos (by simp only [isHigh, isLow, Bool.and_eq_true, decide_eq_true_eq]; exact ⟨hc, hd⟩)

theorem length_joinUnits : ∀ s : Str, (joinUnits (s.flatMap unitsOf)).length ≤ s.length
  | [] => le_refl 0
  | [c] => by
    rw [joinUnits_cons (fun _ hd => absurd hd (Option.not_mem_none _))]
    exact le_refl 1
  | c :: d :: s => by
    by_cases hpair : isHigh c = true ∧ isLow d = true
    · have hs := length_joinUnits s
      rw [joinUnits_pair hpair.1 hpair.2]
      simp only [List.length_cons]
      omega
    · have hs := length_joinUnits (d :: s)
      rw [joinUnits_cons (fun _ hd => Option.some.inj hd ▸ hpair)]
      simp only [List.length_cons] at hs ⊢
      omega

/-- A string comes back unless two of its surrogates make a pair. -/
theorem joinUnits_flatMap_iff (s : Str) : joinUnits (s.flatMap unitsOf) = s ↔ Unpaired s := by
  unfold Unpaired
  induction s with
  | nil => exact ⟨fun _ => .nil, fun _ => rfl⟩
  | cons c s ih =>
    cases s with
    | nil =>
      rw [joinUnits_cons (fun _ hd => absurd hd (Option.not_mem_none _))]
      exact ⟨fun _ => .singleton c, fun _ => rfl⟩
    | cons d s =>
      rw [List.isChain_cons_cons, ← ih]
      by_cases hpair : isHigh c = true ∧ isLow d = true
      · refine ⟨fun heq => ?_, fun h => absurd hpair h.1⟩
        have hlength := congrArg List.length heq
        have hs := length_joinUnits s
        rw [joinUnits_pair hpair.1 hpair.2] at hlength
        simp only [List.length_cons] at hlength
        omega
      · rw [joinUnits_cons (fun _ hd => Option.some.inj hd ▸ hpair), List.cons_inj_right]
        exact ⟨fun h => ⟨hpair, h⟩, fun h => h.2⟩

/-! ## ASCII -/

/-- A printable character of ASCII, or a line feed. -/
def isAsciiText (c : CodePoint) : Bool := c = 0xA || 0x20 ≤ c.val && c.val ≤ 0x7E

theorem isAsciiText_of_isNumberChar {c : CodePoint} (h : isNumberChar c = true) :
    isAsciiText c = true := by
  simp only [isNumberChar, isAsciiDigit, Bool.or_eq_true, Bool.and_eq_true, decide_eq_true_eq] at h
  obtain ((((h | rfl) | rfl) | rfl) | rfl) | rfl := h
  · simp only [isAsciiText, Bool.or_eq_true, Bool.and_eq_true, decide_eq_true_eq]
    omega
  all_goals decide

theorem isNumberChar_natStr {n : ℕ} : ∀ c ∈ natStr n, isNumberChar c = true := by
  intro c hc
  unfold isNumberChar
  rw [isAsciiDigit_of_mem_natStr c hc]
  rfl

theorem isNumberChar_intStr (n : ℤ) : ∀ c ∈ intStr n, isNumberChar c = true := by
  cases n with
  | ofNat n => exact isNumberChar_natStr
  | negSucc n =>
    rw [intStr_neg_succ, List.forall_mem_cons]
    exact ⟨rfl, isNumberChar_natStr⟩

theorem isAsciiText_intStr (n : ℤ) : ∀ c ∈ intStr n, isAsciiText c = true :=
  fun c hc => isAsciiText_of_isNumberChar (isNumberChar_intStr n c hc)

theorem isNumberChar_reprText (n : ℕ) (e : ℤ) : ∀ c ∈ reprText n e, isNumberChar c = true := by
  have hdigits : ∀ c ∈ (natStr n).rdropWhile (· = 0x30), isNumberChar c = true :=
    fun c hc => isNumberChar_natStr c ((List.rdropWhile_prefix _ _).subset hc)
  have htake : ∀ k, ∀ c ∈ ((natStr n).rdropWhile (· = 0x30)).take k, isNumberChar c = true :=
    fun k c hc => hdigits c (List.mem_of_mem_take hc)
  have hdrop : ∀ k, ∀ c ∈ ((natStr n).rdropWhile (· = 0x30)).drop k, isNumberChar c = true :=
    fun k c hc => hdigits c (List.mem_of_mem_drop hc)
  have hzeros : ∀ k, ∀ c ∈ List.replicate k (0x30 : CodePoint), isNumberChar c = true :=
    fun k c hc => List.eq_of_mem_replicate hc ▸ rfl
  have hexponent : ∀ e, ∀ c ∈ exponentText e, isNumberChar c = true := by
    intro e
    unfold exponentText
    rw [List.forall_mem_append, List.forall_mem_append]
    refine ⟨⟨?_, ?_⟩, isNumberChar_natStr⟩ <;> split_ifs <;> exact List.all_eq_true.1 (by decide)
  unfold reprText
  dsimp only
  split_ifs
  · rw [List.forall_mem_append, List.forall_mem_append, List.forall_mem_cons]
    exact ⟨⟨htake 1, List.forall_mem_nil _⟩, rfl, hexponent _⟩
  · rw [List.forall_mem_append, List.forall_mem_append, List.forall_mem_cons, List.forall_mem_cons]
    exact ⟨⟨htake 1, rfl, hdrop 1⟩, rfl, hexponent _⟩
  · rw [List.forall_mem_append, List.forall_mem_append]
    exact ⟨⟨List.all_eq_true.1 (by decide), hzeros _⟩, hdigits⟩
  · rw [List.forall_mem_append, List.forall_mem_append]
    exact ⟨⟨hdigits, hzeros _⟩, List.all_eq_true.1 (by decide)⟩
  · rw [List.forall_mem_append, List.forall_mem_cons]
    exact ⟨htake _, rfl, hdrop _⟩

theorem isNumberChar_floatText (q : ℚ) : ∀ c ∈ floatText q, isNumberChar c = true := by
  unfold floatText
  split_ifs
  · exact List.all_eq_true.1 (by decide)
  all_goals
    dsimp only
    generalize hfind : List.find? (readsBack q) _ = found
    cases found with
    | none =>
      rw [Option.getD_none, exactText, List.forall_mem_append]
      exact ⟨isNumberChar_intStr _, List.all_eq_true.1 (by decide)⟩
    | some text =>
      obtain ⟨near, hnear, rfl⟩ := List.mem_map.1 (List.mem_of_find?_eq_some hfind)
      obtain ⟨d, -, hd⟩ := List.mem_flatMap.1 hnear
      simp only [List.mem_cons, List.not_mem_nil, or_false] at hd
      rw [Option.getD_some, List.forall_mem_append]
      refine ⟨List.all_eq_true.1 (by decide), ?_⟩
      obtain rfl | rfl := hd <;> exact isNumberChar_reprText _ _

theorem isAsciiText_escapeAscii (c : CodePoint) : ∀ d ∈ escapeAscii c, isAsciiText d = true := by
  have hunit : ∀ n, ∀ d ∈ unitEscape n, isAsciiText d = true := by
    intro n
    have hdigit : ∀ n < 16, isAsciiText (hexDigit n) = true := by decide
    unfold unitEscape
    simp only [List.forall_mem_cons]
    exact ⟨by decide, by decide, hdigit _ (Nat.mod_lt _ (by decide)),
      hdigit _ (Nat.mod_lt _ (by decide)), hdigit _ (Nat.mod_lt _ (by decide)),
      hdigit _ (Nat.mod_lt _ (by decide)), List.forall_mem_nil _⟩
  unfold escapeAscii
  split
  · next e hletter =>
    obtain ⟨before, after, heq, -⟩ := List.lookup_eq_some_iff.1 hletter
    have hmem : (c, e) ∈ letterEscapes := heq ▸ List.mem_append_right _ List.mem_cons_self
    simp only [List.forall_mem_cons]
    exact ⟨by decide,
      List.all_eq_true.1 (by decide : (letterEscapes.all fun l => isAsciiText l.2) = true) _ hmem,
      List.forall_mem_nil _⟩
  · split_ifs with hplain
    · rw [List.forall_mem_singleton]
      simp only [isAsciiText, Bool.or_eq_true, Bool.and_eq_true, decide_eq_true_eq]
      exact .inr hplain
    · exact hunit _
    · rw [List.forall_mem_append]
      exact ⟨hunit _, hunit _⟩

theorem isAsciiText_quoted (s : Str) : ∀ c ∈ quoted s, isAsciiText c = true := by
  unfold quoted
  rw [List.forall_mem_cons, List.forall_mem_append]
  refine ⟨by decide, fun c hc => ?_, List.forall_mem_singleton.2 (by decide)⟩
  obtain ⟨d, -, hd⟩ := List.mem_flatMap.1 hc
  exact isAsciiText_escapeAscii d c hd

theorem isAsciiText_jsonFloat (f : PyFloat) : ∀ c ∈ jsonFloat f, isAsciiText c = true := by
  cases f with
  | finite q => exact fun c hc => isAsciiText_of_isNumberChar (isNumberChar_floatText q c hc)
  | _ => exact List.all_eq_true.1 (by decide)

theorem isAsciiText_newlineIndent (level : ℕ) :
    ∀ c ∈ newlineIndent level, isAsciiText c = true := by
  unfold newlineIndent
  rw [List.forall_mem_cons]
  exact ⟨by decide, fun c hc => List.eq_of_mem_replicate hc ▸ by decide⟩

/-- A text of ASCII comes back from its bytes. -/
theorem read_ascii {s : Str} (h : ∀ c ∈ s, isAsciiText c = true) :
    decodeStrict (encode s) = .ok s ∧ universalNewlines s = s := by
  constructor
  · refine decodeStrict_encode (List.all_eq_true.2 fun c hc => ?_)
    have hc := h c hc
    simp only [isAsciiText, Bool.or_eq_true, Bool.and_eq_true, decide_eq_true_eq] at hc
    simp only [isSurrogate, Bool.not_eq_true', Bool.and_eq_false_iff, decide_eq_false_iff_not]
    obtain rfl | hc := hc
    · decide
    · omega
  · refine universalNewlines_eq_self fun hmem => ?_
    exact absurd (h _ hmem) (by decide)

end AgentLab.Python
