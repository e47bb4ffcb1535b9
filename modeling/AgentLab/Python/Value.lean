import Mathlib.Algebra.Order.Floor.Ring
import Mathlib.Data.Int.Notation
import Mathlib.Data.Rat.Floor

/-!
# Python values

The part of Python that the modelled code computes with: strings of code points (lone surrogates
included), the values `json.loads` returns, dictionaries in insertion order, truth and exceptions.

A finite float is the rational number it stands for, so the two zeros are one value; a dictionary
is the list of its items, and `Dict.get?` and `Dict.set` read and write the first item of a key.
-/

namespace AgentLab.Python

/-! ## Strings -/

/-- A code point, surrogates included. -/
abbrev CodePoint := Fin 0x110000

instance neZero_codePoints : NeZero 0x110000 := ⟨by decide⟩

abbrev Str := List CodePoint

instance lawfulBEq_str : LawfulBEq Str := inferInstance

/-- A Python string literal, or a string of Unicode scalar values. -/
def str (s : String) : Str := s.toList.map fun c => Fin.ofNat 0x110000 c.toNat

instance : Coe String Str := ⟨str⟩

/-- The decimal text of a natural number. -/
def natStr (n : ℕ) : Str := str (toString n)

/-- The decimal text of an integer. -/
def intStr (n : ℤ) : Str := str (toString n)

def isSurrogate (c : CodePoint) : Bool := 0xD800 ≤ c.val && c.val ≤ 0xDFFF

/-- Whether `s.encode()` succeeds. -/
def encodable (s : Str) : Bool := s.all fun c => !isSurrogate c

/-- `str.isspace` of one character. -/
def isSpace (c : CodePoint) : Bool :=
  [(0x9, 0xD), (0x1C, 0x20), (0x85, 0x85), (0xA0, 0xA0), (0x1680, 0x1680), (0x2000, 0x200A),
    (0x2028, 0x2029), (0x202F, 0x202F), (0x205F, 0x205F), (0x3000, 0x3000)].any
    fun r => r.1 ≤ c.val && c.val ≤ r.2

/-- `str.strip`. -/
def strip (s : Str) : Str := ((s.dropWhile isSpace).reverse.dropWhile isSpace).reverse

/-- `sep.join(parts)`. -/
def join (sep : Str) (parts : List Str) : Str := (parts.intersperse sep).flatten

/-- The first code points of the runs of ten decimal digits (Unicode 16). -/
def decimalZeros : List ℕ :=
  [0x30, 0x660, 0x6F0, 0x7C0, 0x966, 0x9E6, 0xA66, 0xAE6, 0xB66, 0xBE6, 0xC66, 0xCE6, 0xD66, 0xDE6,
    0xE50, 0xED0, 0xF20, 0x1040, 0x1090, 0x17E0, 0x1810, 0x1946, 0x19D0, 0x1A80, 0x1A90, 0x1B50,
    0x1BB0, 0x1C40, 0x1C50, 0xA620, 0xA8D0, 0xA900, 0xA9D0, 0xA9F0, 0xAA50, 0xABF0, 0xFF10, 0x104A0,
    0x10D30, 0x10D40, 0x11066, 0x110F0, 0x11136, 0x111D0, 0x112F0, 0x11450, 0x114D0, 0x11650,
    0x116C0, 0x116D0, 0x116DA, 0x11730, 0x118E0, 0x11950, 0x11BF0, 0x11C50, 0x11D50, 0x11DA0,
    0x11F50, 0x16A60, 0x16AC0, 0x16B50, 0x16D70, 0x1CCF0, 0x1D7CE, 0x1D7D8, 0x1D7E2, 0x1D7EC,
    0x1D7F6, 0x1E140, 0x1E2F0, 0x1E4F0, 0x1E5F1, 0x1E950, 0x1FBF0]

/-- The value of a decimal digit, `\d` of a regular expression and `int` of one character. -/
def digitValue? (c : CodePoint) : Option ℕ :=
  (decimalZeros.find? fun z => z ≤ c.val && c.val < z + 10).map fun z => c.val - z

/-- The digits that are not decimal digits: superscripts, circled digits and the like. -/
def otherDigits : List (ℕ × ℕ) :=
  [(0xB2, 0xB3), (0xB9, 0xB9), (0x1369, 0x1371), (0x19DA, 0x19DA), (0x2070, 0x2070),
    (0x2074, 0x2079), (0x2080, 0x2089), (0x2460, 0x2468), (0x2474, 0x247C), (0x2488, 0x2490),
    (0x24EA, 0x24EA), (0x24F5, 0x24FD), (0x24FF, 0x24FF), (0x2776, 0x277E), (0x2780, 0x2788),
    (0x278A, 0x2792), (0x10A40, 0x10A43), (0x10E60, 0x10E68), (0x11052, 0x1105A),
    (0x1F100, 0x1F10A)]

/-- `str.isdigit`. -/
def isDigit (s : Str) : Bool :=
  !s.isEmpty && s.all fun c =>
    (digitValue? c).isSome || otherDigits.any fun r => r.1 ≤ c.val && c.val ≤ r.2

/-! ## Exceptions -/

/-- The built-in exceptions that the modelled code can meet. -/
inductive PyExc
  | typeError
  | attributeError
  | valueError
  | overflowError
  | recursionError
  | osError
  /-- From `str.encode`; a kind of `ValueError`. -/
  | unicodeEncodeError
  /-- From `bytes.decode`; a kind of `ValueError`. -/
  | unicodeDecodeError
  | keyError
  deriving DecidableEq, Repr

/-- What a function raises: an exception class of the program, or a built-in one. -/
inductive Raised (ε : Type)
  | own (e : ε)
  | builtin (x : PyExc)
  deriving DecidableEq, Repr

/-- `int(s)` of a string without white space, signs and underscores; from 4301 digits on Python
refuses. -/
def readInt (s : Str) : Except PyExc ℤ :=
  match s.mapM digitValue? with
  | some digits =>
    if digits.isEmpty || 4300 < digits.length then .error .valueError
    else .ok (digits.foldl (fun n d => 10 * n + d) 0 : ℕ)
  | none => .error .valueError

theorem Except.bind_eq_ok {ε α β : Type} {x : Except ε α} {f : α → Except ε β} {b : β} :
    x >>= f = .ok b ↔ ∃ a, x = .ok a ∧ f a = .ok b := by
  cases x with
  | error e => exact ⟨nofun, nofun⟩
  | ok a => exact ⟨fun h => ⟨a, rfl, h⟩, fun ⟨_, h, h'⟩ => by rw [Except.ok.inj h]; exact h'⟩

@[simp] theorem Except.ok_bind {ε α β : Type} (a : α) (f : α → Except ε β) :
    (Except.ok a >>= f) = f a := rfl

/-! ## Values -/

inductive PyFloat
  | finite (q : ℚ)
  | inf
  | negInf
  | nan
  deriving DecidableEq

/-- The nearest integer, ties to even. -/
def roundHalfEven (q : ℚ) : ℤ :=
  let d := q - ⌊q⌋
  if d < 1 / 2 ∨ d = 1 / 2 ∧ ⌊q⌋ % 2 = 0 then ⌊q⌋ else ⌊q⌋ + 1

/-- The exponent of the highest binary digit. -/
def binaryExponent (q : ℚ) : ℤ :=
  let e : ℤ := q.num.natAbs.log2 - q.den.log2
  if |q| < 2 ^ e then e - 1 else e

/-- The nearest binary64 number, ties to even; infinite from 2 ^ 1024 - 2 ^ 970 on. -/
def PyFloat.ofRat (q : ℚ) : PyFloat :=
  let ulp : ℚ := 2 ^ (max (binaryExponent q) (-1022) - 52)
  let r := roundHalfEven (q / ulp) * ulp
  if 2 ^ 1024 ≤ r then .inf else if r ≤ -2 ^ 1024 then .negInf else .finite r

/-- `float(n)`. -/
def PyFloat.ofInt (n : ℤ) : Except PyExc PyFloat :=
  match ofRat n with
  | .finite q => .ok (.finite q)
  | _ => .error .overflowError

/-- The values `json.loads` returns. -/
inductive Json
  | null
  | bool (b : Bool)
  | int (n : ℤ)
  | float (f : PyFloat)
  | str (s : Str)
  | list (l : List Json)
  | obj (o : List (Str × Json))

/-- `bool(value)`. -/
def Json.truthy : Json → Bool
  | .null => false
  | .bool b => b
  | .int n => n ≠ 0
  | .float f => f ≠ .finite 0
  | .str s => !s.isEmpty
  | .list l => !l.isEmpty
  | .obj o => !o.isEmpty

/-- `a or b`. -/
def Json.or (a b : Json) : Json := if a.truthy then a else b

/-! ## Dictionaries -/

abbrev Dict (α : Type) := List (Str × α)

namespace Dict

variable {α : Type}

/-- The item of a key, if there is one. -/
def get? : Dict α → Str → Option α
  | [], _ => none
  | (k, v) :: d, key => if k = key then some v else get? d key

/-- `d[key] = v`. -/
def set : Dict α → Str → α → Dict α
  | [], key, v => [(key, v)]
  | (k, w) :: d, key, v => if k = key then (k, v) :: d else (k, w) :: set d key v

/-- `d.setdefault(key, v)`. -/
def setdefault (d : Dict α) (key : Str) (v : α) : Dict α :=
  if (get? d key).isSome then d else set d key v

/-- `d.pop(key, None)`. -/
def pop (d : Dict α) (key : Str) : Dict α := d.filter fun kv => kv.1 ≠ key

/-- `{**d, **e}`. -/
def merge (d e : Dict α) : Dict α := e.foldl (fun d kv => set d kv.1 kv.2) d

variable (d : Dict α) (key key' : Str) (v : α)

@[simp] theorem get?_nil : get? ([] : Dict α) key = none := rfl

theorem get?_cons (k : Str) : get? ((k, v) :: d) key = if k = key then some v else get? d key := rfl

theorem get?_append (d' : Dict α) :
    get? (d ++ d') key = (get? d key).or (get? d' key) := by
  induction d with
  | nil => rfl
  | cons kw d ih =>
    rw [List.cons_append, get?_cons, get?_cons, ih]
    split_ifs <;> rfl

theorem get?_eq_none : get? d key = none ↔ key ∉ d.map Prod.fst := by
  induction d with
  | nil => simp
  | cons kw d ih =>
    rw [get?_cons, List.map_cons, List.mem_cons, not_or, ← ih]
    split_ifs with hk
    · exact ⟨nofun, fun h => absurd hk.symm h.1⟩
    · exact ⟨fun h => ⟨Ne.symm hk, h⟩, And.right⟩

theorem get?_set : get? (set d key v) key' = if key = key' then some v else get? d key' := by
  induction d with
  | nil => rfl
  | cons kw d ih =>
    obtain ⟨k, w⟩ := kw
    unfold set
    split_ifs with h₁ h₂ h₂
    · rw [get?_cons, if_pos (h₁.trans h₂)]
    · rw [get?_cons, get?_cons, if_neg (fun h => h₂ (h₁.symm.trans h)),
        if_neg (fun h => h₂ (h₁.symm.trans h))]
    · rw [get?_cons, if_neg (fun h => h₁ (h.trans h₂.symm)), ih, if_pos h₂]
    · rw [get?_cons, get?_cons, ih, if_neg h₂]

@[simp] theorem get?_set_self : get? (set d key v) key = some v := by
  rw [get?_set, if_pos rfl]

variable {key key'} in
theorem get?_set_of_ne (h : key ≠ key') : get? (set d key v) key' = get? d key' := by
  rw [get?_set, if_neg h]

theorem get?_setdefault :
    get? (setdefault d key v) key' =
      if key = key' then some ((get? d key).getD v) else get? d key' := by
  unfold setdefault
  split_ifs with h₁ h₂ h₂
  · subst h₂
    cases h : get? d key with
    | none => rw [h] at h₁; cases h₁
    | some w => rfl
  · rfl
  · subst h₂
    rw [get?_set_self, Option.not_isSome_iff_eq_none.1 h₁]; rfl
  · exact get?_set_of_ne d v h₂

theorem get?_pop : get? (pop d key) key' = if key = key' then none else get? d key' := by
  induction d with
  | nil => simp [pop]
  | cons kw d ih =>
    obtain ⟨k, w⟩ := kw
    unfold pop at *
    by_cases hk : k = key
    · rw [List.filter_cons, if_neg (by simp [hk]), ih, get?_cons, hk]
      split_ifs <;> rfl
    · rw [List.filter_cons, if_pos (by simpa using hk), get?_cons, get?_cons, ih]
      split_ifs with h₁ h₂ <;> first | rfl | exact absurd (h₁.trans h₂.symm) hk

end Dict

/-- `o.get(key)` of a dictionary of values. -/
def getD (o : Dict Json) (key : Str) : Json := (Dict.get? o key).getD .null

@[simp] theorem getD_set_self (o : Dict Json) (key : Str) (v : Json) :
    getD (Dict.set o key v) key = v := by
  rw [getD, Dict.get?_set_self]; rfl

theorem getD_set_of_ne (o : Dict Json) {key key' : Str} (v : Json) (h : key ≠ key') :
    getD (Dict.set o key v) key' = getD o key' := by
  rw [getD, Dict.get?_set_of_ne o v h]; rfl

theorem getD_pop_of_ne (o : Dict Json) {key key' : Str} (h : key ≠ key') :
    getD (Dict.pop o key) key' = getD o key' := by
  rw [getD, Dict.get?_pop, if_neg h]; rfl

/-- `value.get(key)`; only dictionaries have `get`. -/
def Json.get (v : Json) (key : Str) : Except PyExc Json :=
  match v with
  | .obj o => .ok (getD o key)
  | _ => .error .attributeError

@[simp] theorem Json.get_obj (o : Dict Json) (key : Str) :
    (Json.obj o).get key = .ok (getD o key) := rfl

/-- `value[key]` for a string key. -/
def Json.item (v : Json) (key : Str) : Except PyExc Json :=
  match v with
  | .obj o => (Dict.get? o key).elim (.error .keyError) .ok
  | _ => .error .typeError

/-- `value[key]` behind the test `value.get(key)`. -/
theorem item_of_truthy {o : Dict Json} {key : Str} (h : (getD o key).truthy = true) :
    (Json.obj o).item key = .ok (getD o key) := by
  unfold Json.item getD at *
  cases hv : Dict.get? o key with
  | none =>
    rw [hv] at h
    cases h
  | some v => simp [hv]

/-- `for x in value`: the items of a list, the characters of a string, the keys of an object. -/
def Json.iter : Json → Except PyExc (List Json)
  | .list l => .ok l
  | .str s => .ok (s.map fun c => .str [c])
  | .obj o => .ok (o.map fun kv => .str kv.1)
  | _ => .error .typeError

@[simp] theorem Json.iter_list (l : List Json) : (Json.list l).iter = .ok l := rfl

end AgentLab.Python
