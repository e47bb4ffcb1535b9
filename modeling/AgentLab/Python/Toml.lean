import AgentLab.Python.Value

/-!
# TOML

What TOML 1.0 says of a document that consists of tables of strings: its text and the values in it
(`documentText`, `documentValue`), and the strings between quotation marks, on one line (`Basic`)
and on several (`Multi`). `Toml10` is what a parser that follows TOML does on such documents and on
those that begin like one.

A text that is put between quotation marks as it is reads as itself exactly if all its characters
stand for themselves (`Token.plain_iff`).
-/

namespace AgentLab.Python

/-- The values of a document; the numbers, dates, booleans and arrays are not told apart. -/
inductive Toml
  | string (s : Str)
  | table (items : List (Str × Toml))
  | other (text : Str)

namespace Toml

/-! ## Strings -/

abbrev quote : CodePoint := 0x22

abbrev backslash : CodePoint := 0x5C

abbrev newline : CodePoint := 0xA

abbrev carriageReturn : CodePoint := 0xD

/-- A character that stands for itself: no quotation mark, backslash, control character other than
tab, or surrogate. -/
def Unescaped (c : CodePoint) : Prop :=
  c.val = 0x9 ∨ 0x20 ≤ c.val ∧ c ≠ quote ∧ c ≠ backslash ∧ c.val ≠ 0x7F ∧ isSurrogate c = false

instance (c : CodePoint) : Decidable (Unescaped c) := inferInstanceAs (Decidable (_ ∨ _))

/-- Every character stands for itself. -/
def Plain (s : Str) : Prop := ∀ c ∈ s, Unescaped c

instance (s : Str) : Decidable (Plain s) := List.decidableBAll _ s

def isHexDigit (c : CodePoint) : Bool :=
  (0x30 ≤ c.val && c.val ≤ 0x39) || (0x41 ≤ c.val && c.val ≤ 0x46) ||
    (0x61 ≤ c.val && c.val ≤ 0x66)

def isBlank (c : CodePoint) : Bool := c = 0x9 || c = 0x20

def hexValue (c : CodePoint) : ℕ :=
  if c.val ≤ 0x39 then c.val - 0x30 else if c.val ≤ 0x46 then c.val - 0x37 else c.val - 0x57

/-- An escape sequence without its backslash, and the character it is for. -/
inductive Escape : Str → CodePoint → Prop
  | short {c d : CodePoint} :
      (c, d) ∈ [(0x62, 0x8), (0x74, 0x9), (0x6E, 0xA), (0x66, 0xC), (0x72, 0xD), (quote, quote),
        (backslash, backslash)] → Escape [c] d
  | unicode {c d : CodePoint} {digits : Str} :
      (c.val = 0x75 ∧ digits.length = 4 ∨ c.val = 0x55 ∧ digits.length = 8) →
      digits.all isHexDigit = true →
      digits.foldl (fun n x => 16 * n + hexValue x) 0 = d.val → isSurrogate d = false →
      Escape (c :: digits) d

/-- The text after an opening quotation mark is a string of the value, closed where `rest`
begins. -/
inductive Basic : Str → Str → Str → Prop
  | close {rest : Str} : Basic (quote :: rest) [] rest
  | char {c : CodePoint} {s v rest : Str} :
      Unescaped c → Basic s v rest → Basic (c :: s) (c :: v) rest
  | escape {e : Str} {d : CodePoint} {s v rest : Str} :
      Escape e d → Basic s v rest → Basic (backslash :: (e ++ s)) (d :: v) rest

/-- The same of a string between three quotation marks, with `k` quotation marks just before. -/
inductive Multi : ℕ → Str → Str → Str → Prop
  | close {k : ℕ} {rest : Str} : Multi k (quote :: quote :: quote :: rest) [] rest
  | mark {k : ℕ} {s v rest : Str} :
      k < 2 → Multi (k + 1) s v rest → Multi k (quote :: s) (quote :: v) rest
  | char {k : ℕ} {c : CodePoint} {s v rest : Str} :
      Unescaped c → Multi 0 s v rest → Multi k (c :: s) (c :: v) rest
  | lineEnd {k : ℕ} {s v rest : Str} :
      Multi 0 s v rest → Multi k (newline :: s) (newline :: v) rest
  | crlf {k : ℕ} {s v rest : Str} : Multi 0 s v rest →
      Multi k (carriageReturn :: newline :: s) (newline :: v) rest
  | escape {k : ℕ} {e : Str} {d : CodePoint} {s v rest : Str} :
      Escape e d → Multi 0 s v rest → Multi k (backslash :: (e ++ s)) (d :: v) rest
  /-- A line that ends in a backslash goes on at the next character that is not white space. -/
  | trimmed {k : ℕ} {w s v rest : Str} :
      (∀ c ∈ w, isBlank c = true ∨ c = newline ∨ c = carriageReturn) → newline ∈ w →
      Multi 0 s v rest → Multi k (backslash :: (w ++ s)) v rest

/-- Without the line end that comes first. -/
def dropNewline : Str → Str
  | 0xA :: s => s
  | 0xD :: 0xA :: s => s
  | s => s

/-- The text after a quotation mark that opens a string of the value. -/
inductive Token : Str → Str → Prop
  | basic {s v rest : Str} : ¬ [quote, quote] <+: s → Basic s v rest → Token s v
  | multi {s v rest : Str} : Multi 0 (dropNewline s) v rest → Token (quote :: quote :: s) v

/-! ### What stands for itself -/

theorem unescaped_of_val {c : CodePoint} (h : 0x20 ≤ c.val) (hquote : c.val ≠ 0x22)
    (hbackslash : c.val ≠ 0x5C) (hdel : c.val < 0x7F) : Unescaped c := by
  refine .inr ⟨h, fun he => hquote (congrArg Fin.val he),
    fun he => hbackslash (congrArg Fin.val he), hdel.ne, ?_⟩
  unfold isSurrogate
  rw [decide_eq_false (by omega : ¬ 0xD800 ≤ c.val)]
  rfl

theorem Unescaped.ne_quote {c : CodePoint} (h : Unescaped c) : c ≠ quote := by
  rintro rfl
  exact absurd h (by decide)

theorem Unescaped.ne_newline {c : CodePoint} (h : Unescaped c) : c ≠ newline := by
  rintro rfl
  exact absurd h (by decide)

theorem plain_cons {c : CodePoint} {s : Str} : Plain (c :: s) ↔ Unescaped c ∧ Plain s :=
  List.forall_mem_cons

theorem plain_append {s t : Str} : Plain (s ++ t) ↔ Plain s ∧ Plain t := List.forall_mem_append

theorem Plain.basic {s : Str} (h : Plain s) (rest : Str) : Basic (s ++ quote :: rest) s rest := by
  induction s with
  | nil => exact .close
  | cons c s ih =>
    obtain ⟨hc, hs⟩ := plain_cons.1 h
    exact .char hc (ih hs)

/-- A quotation mark in an escape sequence is the whole of it. -/
theorem Escape.quote_mem {e : Str} {d : CodePoint} (h : Escape e d) (hq : quote ∈ e) :
    e = [quote] ∧ d = quote := by
  cases h with
  | short hmem =>
    obtain rfl := List.mem_singleton.1 hq
    simp only [List.mem_cons, Prod.mk.injEq, List.not_mem_nil, or_false] at hmem
    rcases hmem with h | h | h | h | h | h | h
    all_goals first | exact absurd h.1 (by decide) | exact ⟨rfl, h.2⟩
  | unicode hc hdigits _ _ =>
    rcases List.mem_cons.1 hq with rfl | hq
    · rcases hc with ⟨hc, -⟩ | ⟨hc, -⟩ <;> exact absurd hc (by decide)
    · exact absurd (List.all_eq_true.1 hdigits _ hq) (by decide)

theorem Escape.ne_nil {e : Str} {d : CodePoint} (h : Escape e d) : e ≠ [] := by
  cases h <;> simp

/-! ### On one line -/

section

variable {tail : Str}

/-- An escape sequence ends before the quotation mark of a line. -/
theorem Escape.split {e s v rest u : Str} {d : CodePoint} (he : Escape e d) (hs : Basic s v rest)
    (h : e ++ s = u ++ quote :: newline :: tail) :
    ∃ a, u = e ++ a ∧ s = a ++ quote :: newline :: tail := by
  rcases List.append_eq_append_iff.1 h with ⟨a, hu, hs'⟩ | ⟨a, he', ha⟩
  · exact ⟨a, hu, hs'⟩
  · cases a with
    | nil => exact ⟨[], by simpa using he'.symm, by simpa using ha.symm⟩
    | cons x a =>
      obtain ⟨rfl, ha⟩ := List.cons.inj ha
      -- The mark would be escaped, and the line end after it part of the string.
      obtain ⟨hquote, -⟩ := he.quote_mem (he' ▸ List.mem_append_right _ List.mem_cons_self)
      rw [hquote] at he'
      have hlen := congrArg List.length he'
      simp only [List.length_append, List.length_cons, List.length_nil] at hlen
      obtain rfl : a = [] := List.eq_nil_of_length_eq_zero (by omega)
      obtain rfl : newline :: tail = s := (List.cons.inj ha).2
      cases hs with
      | char hc _ => exact absurd rfl hc.ne_newline

theorem Basic.length_le {s v rest : Str} (h : Basic s v rest) :
    ∀ u, s = u ++ quote :: newline :: tail → v.length ≤ u.length := by
  induction h with
  | close => exact fun u _ => Nat.zero_le _
  | char hc _ ih =>
    intro u hu
    cases u with
    | nil => exact absurd (List.cons.inj hu).1 hc.ne_quote
    | cons x u =>
      have h := ih u (List.cons.inj hu).2
      rw [List.length_cons, List.length_cons]
      omega
  | escape he hs ih =>
    intro u hu
    cases u with
    | nil => exact absurd (List.cons.inj hu).1 (by decide)
    | cons x u =>
      obtain ⟨a, rfl, hsa⟩ := he.split hs (List.cons.inj hu).2
      have h := ih a hsa
      rw [List.length_cons, List.length_cons, List.length_append]
      omega

/-- A line between quotation marks that reads as itself. -/
theorem Basic.plain {s rest : Str} (h : Basic (s ++ quote :: newline :: tail) s rest) :
    Plain s := by
  induction s with
  | nil => exact fun c hc => absurd hc List.not_mem_nil
  | cons c s ih =>
    generalize hs : (c :: s) ++ quote :: newline :: tail = text at h
    generalize hv : c :: s = v at h
    cases h with
    | close => cases hv
    | char hc hrest =>
      obtain ⟨rfl, rfl⟩ := List.cons.inj hv
      rw [List.cons_append] at hs
      rw [← (List.cons.inj hs).2] at hrest
      exact plain_cons.2 ⟨hc, ih hrest⟩
    | escape he hrest =>
      obtain ⟨rfl, rfl⟩ := List.cons.inj hv
      rw [List.cons_append] at hs
      obtain ⟨a, ha, hsa⟩ := he.split hrest (List.cons.inj hs).2.symm
      have hle := hrest.length_le a hsa
      have hpos := List.length_pos_iff.2 he.ne_nil
      rw [ha, List.length_append] at hle
      omega

end

/-! ### On several lines -/

/-- How often a quotation mark with `n` line ends after it occurs. -/
def marks (n : ℕ) : Str → ℕ
  | [] => 0
  | c :: s => marks n s + if c = quote ∧ List.replicate n newline <+: s then 1 else 0

theorem marks_cons_of_ne {n : ℕ} {c : CodePoint} (hc : c ≠ quote) (s : Str) :
    marks n (c :: s) = marks n s := by
  rw [marks, if_neg (fun h => hc h.1), Nat.add_zero]

theorem marks_quote {n : ℕ} {s : Str} (hs : ¬ List.replicate n newline <+: s) :
    marks n (quote :: s) = marks n s := by
  rw [marks, if_neg (fun h => hs h.2), Nat.add_zero]

theorem not_prefix_quote {n : ℕ} (s : Str) : ¬ List.replicate (n + 1) newline <+: quote :: s :=
  fun h => absurd (List.cons_prefix_cons.1 h).1 (by decide)

theorem marks_append_of_notMem {n : ℕ} {e : Str} (he : quote ∉ e) (s : Str) :
    marks n (e ++ s) = marks n s := by
  induction e with
  | nil => rfl
  | cons c e ih =>
    have hc : c ≠ quote := fun h => he (h ▸ List.mem_cons_self)
    have hrest : quote ∉ e := fun h => he (List.mem_cons_of_mem _ h)
    rw [List.cons_append, marks_cons_of_ne hc, ih hrest]

theorem marks_append_le (n : ℕ) (s t : Str) : marks n s + marks n t ≤ marks n (s ++ t) := by
  induction s with
  | nil => exact (Nat.zero_add _).le
  | cons c s ih =>
    rw [List.cons_append, marks, marks]
    have hle : (if c = quote ∧ List.replicate n newline <+: s then 1 else 0) ≤
        if c = quote ∧ List.replicate n newline <+: s ++ t then 1 else 0 := by
      split_ifs with h₁ h₂
      · exact le_rfl
      · exact absurd ⟨h₁.1, h₁.2.trans (List.prefix_append _ _)⟩ h₂
      · exact Nat.zero_le _
      · exact le_rfl
    omega

/-- The text of a string on several lines, and what of it can be found in its value. -/
structure Holds (raw v : Str) : Prop where
  length : v.length ≤ raw.length
  start : ∀ n, List.replicate n newline <+: raw → List.replicate n newline <+: v
  marked : ∀ n, marks n raw ≤ marks n v

theorem prefix_cons_of_ne {n : ℕ} {c : CodePoint} {s t : Str} (hc : c ≠ newline)
    (h : List.replicate n newline <+: c :: s) : List.replicate n newline <+: t := by
  cases n with
  | zero => exact List.nil_prefix
  | succ n =>
    rw [List.replicate_succ, List.cons_prefix_cons] at h
    exact absurd h.1.symm hc

theorem Holds.cons_quote {raw v : Str} (h : Holds raw v) : Holds (quote :: raw) (quote :: v) where
  length := Nat.succ_le_succ h.length
  start n hn := prefix_cons_of_ne (by decide) hn
  marked n := by
    rw [marks, marks]
    have hle : (if quote = quote ∧ List.replicate n newline <+: raw then 1 else 0) ≤
        if quote = quote ∧ List.replicate n newline <+: v then 1 else 0 := by
      split_ifs with h₁ h₂
      · exact le_rfl
      · exact absurd ⟨rfl, h.start n h₁.2⟩ h₂
      · exact Nat.zero_le _
      · exact le_rfl
    exact Nat.add_le_add (h.marked n) hle

/-- Text without quotation marks that does not begin with a line end. -/
theorem Holds.skip {raw v e w : Str} {c : CodePoint} (h : Holds raw v) (hc : c ≠ newline)
    (hquote : quote ∉ c :: e) (hlen : w.length ≤ (c :: e).length) :
    Holds (c :: (e ++ raw)) (w ++ v) where
  length := by
    have := h.length
    rw [List.length_cons, List.length_append, List.length_append]
    rw [List.length_cons] at hlen
    omega
  start n hn := prefix_cons_of_ne hc hn
  marked n := by
    rw [← List.cons_append, marks_append_of_notMem hquote]
    exact (h.marked n).trans ((Nat.le_add_left _ _).trans (marks_append_le n w v))

theorem Holds.cons_newline {raw v : Str} (h : Holds raw v) :
    Holds (newline :: raw) (newline :: v) where
  length := Nat.succ_le_succ h.length
  start n hn := by
    cases n with
    | zero => exact List.nil_prefix
    | succ n =>
      rw [List.replicate_succ, List.cons_prefix_cons] at hn ⊢
      exact ⟨rfl, h.start n hn.2⟩
  marked n := by
    rw [marks_cons_of_ne (by decide), marks_cons_of_ne (by decide)]
    exact h.marked n

/-- A string on several lines is no longer than its text, and holds as many quotation marks that
line ends follow. -/
theorem Multi.holds {k : ℕ} {s v rest : Str} (h : Multi k s v rest) :
    ∃ raw, s = raw ++ quote :: quote :: quote :: rest ∧ Holds raw v := by
  induction h with
  | close => exact ⟨[], rfl, le_rfl, fun _ h => h, fun _ => le_rfl⟩
  | mark _ _ ih =>
    obtain ⟨raw, rfl, h⟩ := ih
    exact ⟨quote :: raw, rfl, h.cons_quote⟩
  | @char _ c _ _ _ hc _ ih =>
    obtain ⟨raw, rfl, h⟩ := ih
    refine ⟨c :: raw, rfl, ?_⟩
    exact h.skip (e := []) (w := [c]) hc.ne_newline (by simpa using hc.ne_quote.symm) le_rfl
  | lineEnd _ ih =>
    obtain ⟨raw, rfl, h⟩ := ih
    exact ⟨newline :: raw, rfl, h.cons_newline⟩
  | crlf _ ih =>
    obtain ⟨raw, rfl, h⟩ := ih
    refine ⟨carriageReturn :: newline :: raw, rfl, ?_⟩
    exact h.skip (e := [newline]) (w := [newline]) (by decide) (by decide) (by simp)
  | @escape _ e d _ _ _ he _ ih =>
    obtain ⟨raw, rfl, h⟩ := ih
    refine ⟨backslash :: (e ++ raw), by simp, ?_⟩
    by_cases hq : quote ∈ e
    · obtain ⟨rfl, rfl⟩ := he.quote_mem hq
      exact h.cons_quote.skip (e := []) (w := []) (by decide) (by decide) (by simp)
    · exact h.skip (w := [d]) (by decide) (by simpa using ⟨by decide, hq⟩) (by simp)
  | @trimmed _ w _ _ _ hw _ _ ih =>
    obtain ⟨raw, rfl, h⟩ := ih
    refine ⟨backslash :: (w ++ raw), by simp, ?_⟩
    refine h.skip (w := []) (by decide) (List.mem_cons.not.2 (not_or.2 ⟨by decide, fun hq => ?_⟩))
      (by simp)
    rcases hw _ hq with hb | hb | hb <;> exact absurd hb (by decide)

theorem marks_line {n : ℕ} (u : Str) {more : Str} (h : List.replicate n newline <+: more) :
    marks n u + 1 ≤ marks n (u ++ quote :: more) := by
  have hmark : 1 ≤ marks n (quote :: more) := by
    rw [marks, if_pos ⟨rfl, h⟩]
    exact Nat.le_add_left 1 _
  exact (Nat.add_le_add_left hmark _).trans (marks_append_le n u _)

theorem dropNewline_cases (s : Str) :
    (∃ t, s = newline :: t ∧ dropNewline s = t) ∨
      (∃ t, s = carriageReturn :: newline :: t ∧ dropNewline s = t) ∨
      ¬ [newline] <+: s ∧ dropNewline s = s := by
  unfold dropNewline
  split
  · next t => exact .inl ⟨t, rfl, rfl⟩
  · next t => exact .inr (.inl ⟨t, rfl, rfl⟩)
  · next hlf hcrlf =>
    refine .inr (.inr ⟨fun ⟨t, ht⟩ => ?_, rfl⟩)
    exact hlf t ht.symm

/-- What is read reaches over the end of a line before, if it is long enough. -/
theorem reads_over {raw rest u tail : Str} (hu : u.length + 2 ≤ raw.length)
    (hsplit : raw ++ quote :: quote :: quote :: rest = u ++ quote :: newline :: tail) :
    ∃ more, raw = u ++ quote :: newline :: more ∧ more <+: tail := by
  rcases List.append_eq_append_iff.1 hsplit with ⟨a, ha, -⟩ | ⟨a, ha, ha'⟩
  · rw [ha, List.length_append] at hu
    omega
  · rw [ha, List.length_append] at hu
    obtain _ | ⟨x, _ | ⟨y, more⟩⟩ := a
    · exact absurd hu (by simp)
    · exact absurd hu (by simp)
    · simp only [List.cons_append, List.cons.injEq] at ha'
      obtain ⟨rfl, rfl, hmore⟩ := ha'
      exact ⟨more, ha, ⟨_, hmore.symm⟩⟩

/-- A line end came first: the next comes after the empty line below. -/
theorem not_multi_self_newline {s tail rest : Str}
    (htail : tail = [] ∨ ∃ t, tail = newline :: t) :
    ¬ Multi 0 (s ++ quote :: newline :: tail) (quote :: quote :: newline :: s) rest := by
  intro h
  obtain ⟨raw, hraw, hholds⟩ := h.holds
  have hlen := hholds.length
  simp only [List.length_cons] at hlen
  obtain ⟨more, rfl, hmore⟩ := reads_over (u := s) (by omega) hraw.symm
  obtain ⟨more, rfl⟩ : ∃ m, more = newline :: m := by
    obtain _ | ⟨x, more⟩ := more
    · simp at hlen
    · rcases htail with rfl | ⟨u, rfl⟩
      · exact absurd (List.prefix_nil.1 hmore) (by simp)
      · exact ⟨more, by rw [(List.cons_prefix_cons.1 hmore).1]⟩
  have hmarks := (marks_line s (⟨more, rfl⟩ : List.replicate 2 newline <+:
    newline :: newline :: more)).trans (hholds.marked 2)
  have hs : [newline] <+: s := by
    by_contra hs
    have hline : ¬ List.replicate 2 newline <+: newline :: s :=
      fun hp => hs (List.cons_prefix_cons.1 hp).2
    rw [marks_quote (not_prefix_quote _), marks_quote hline, marks_cons_of_ne (by decide)]
      at hmarks
    omega
  have hfirst := hholds.start 1 (hs.trans (List.prefix_append _ _))
  exact absurd (List.cons_prefix_cons.1 hfirst).1 (by decide)

/-- A text between quotation marks that begins with two more, and so is one of several lines, is
not read as itself: its value has fewer quotation marks at line ends than what it is read from. -/
theorem not_multi_self {s tail rest : Str} (htail : tail = [] ∨ ∃ t, tail = newline :: t) :
    ¬ Multi 0 (dropNewline (s ++ quote :: newline :: tail)) (quote :: quote :: s) rest := by
  intro h
  rcases dropNewline_cases (s ++ quote :: newline :: tail) with
    ⟨t, ht, hdrop⟩ | ⟨t, ht, hdrop⟩ | ⟨hnone, hdrop⟩
  · obtain _ | ⟨c, s⟩ := s
    · exact absurd (List.cons.inj ht).1 (by decide)
    simp only [List.cons_append, List.cons.injEq] at ht
    obtain ⟨rfl, rfl⟩ := ht
    rw [hdrop] at h
    exact not_multi_self_newline htail h
  · obtain ⟨raw, hraw, hholds⟩ := h.holds
    have hlen := hholds.length
    obtain _ | ⟨c, _ | ⟨d, s⟩⟩ := s
    · exact absurd (List.cons.inj ht).1 (by decide)
    · exact absurd (List.cons.inj (List.cons.inj ht).2).1 (by decide)
    simp only [List.cons_append, List.cons.injEq] at ht
    obtain ⟨rfl, rfl, rfl⟩ := ht
    rw [hdrop] at hraw
    simp only [List.length_cons] at hlen
    obtain ⟨more, rfl, -⟩ := reads_over (u := s) (by omega) hraw.symm
    have hmarks := (marks_line s (⟨more, rfl⟩ : List.replicate 1 newline <+:
      newline :: more)).trans (hholds.marked 1)
    have hline : ¬ List.replicate 1 newline <+: carriageReturn :: newline :: s :=
      fun hp => absurd (List.cons_prefix_cons.1 hp).1 (by decide)
    rw [marks_quote (not_prefix_quote _), marks_quote hline, marks_cons_of_ne (by decide),
      marks_cons_of_ne (by decide)] at hmarks
    omega
  · obtain ⟨raw, hraw, hholds⟩ := h.holds
    have hlen := hholds.length
    rw [hdrop] at hraw
    simp only [List.length_cons] at hlen
    obtain ⟨more, rfl, -⟩ := reads_over (u := s) (by omega) hraw.symm
    have hmarks := (marks_line s (⟨more, rfl⟩ : List.replicate 1 newline <+:
      newline :: more)).trans (hholds.marked 1)
    have hline : ¬ List.replicate 1 newline <+: s :=
      fun hp => hnone (hp.trans (List.prefix_append _ _))
    rw [marks_quote (not_prefix_quote _), marks_quote hline] at hmarks
    omega

/-- One quotation mark between quotation marks opens a string of several lines. -/
theorem not_multi_mark {tail rest : Str} (htail : tail = [] ∨ ∃ t, tail = newline :: t) :
    ¬ Multi 0 (dropNewline (newline :: tail)) [quote] rest := by
  intro h
  obtain ⟨raw, hraw, hholds⟩ := h.holds
  have hdrop : dropNewline (newline :: tail) = tail := rfl
  rw [hdrop] at hraw
  rcases htail with rfl | ⟨t, rfl⟩
  · exact absurd hraw (by simp)
  · obtain _ | ⟨x, raw⟩ := raw
    · exact absurd hholds.length (by simp)
    obtain ⟨rfl, -⟩ := List.cons.inj hraw
    exact absurd (List.cons_prefix_cons.1 (hholds.start 1 ⟨raw, rfl⟩)).1 (by decide)

/-- **A text that is put between quotation marks as it is** reads as itself only if all its
characters stand for themselves. -/
theorem Token.plain {s tail : Str} (htail : tail = [] ∨ ∃ t, tail = newline :: t)
    (h : Token (s ++ quote :: newline :: tail) s) : Plain s := by
  generalize htext : s ++ quote :: newline :: tail = text at h
  generalize hv : s = v at h
  cases h with
  | basic _ hbasic =>
    subst hv htext
    exact hbasic.plain
  | multi hmulti =>
    subst hv
    obtain _ | ⟨c, _ | ⟨d, s⟩⟩ := s
    · exact absurd (List.cons.inj (List.cons.inj htext).2).1 (by decide)
    · simp only [List.cons_append, List.nil_append, List.cons.injEq] at htext
      obtain ⟨rfl, -, rfl⟩ := htext
      exact absurd hmulti (not_multi_mark htail)
    · simp only [List.cons_append, List.cons.injEq] at htext
      obtain ⟨rfl, rfl, rfl⟩ := htext
      exact absurd hmulti (not_multi_self htail)

/-! ## Documents -/

/-- A line of a document. -/
inductive Line
  | blank
  | comment (text : Str)
  | header (path : List Str)
  | pair (key value : Str)
  deriving DecidableEq

def Line.text : Line → Str
  | .blank => []
  | .comment text => str "#" ++ text
  | .header path => str "[" ++ join (str ".") path ++ str "]"
  | .pair key value => key ++ str " = \"" ++ value ++ str "\""

/-- Lines that are all ended. -/
def linesText (lines : List Line) : Str := lines.flatMap fun line => line.text ++ [newline]

/-- A key that is written without quotation marks. -/
def isBareKey (key : Str) : Bool :=
  !key.isEmpty && key.all fun c =>
    (0x41 ≤ c.val && c.val ≤ 0x5A) || (0x61 ≤ c.val && c.val ≤ 0x7A) ||
      (0x30 ≤ c.val && c.val ≤ 0x39) || c = 0x2D || c = 0x5F

/-- Whether a comment may hold the character. -/
def isPrintable (c : CodePoint) : Bool :=
  c = 0x9 || (0x20 ≤ c.val && c.val ≠ 0x7F && !isSurrogate c)

/-- Define the value at a path where there is none, in tables that are made where needed. -/
def insertNew : List Str → Toml → Dict Toml → Option (Dict Toml)
  | [], _, _ => none
  | [key], v, d => if (Dict.get? d key).isSome then none else some (d ++ [(key, v)])
  | key :: key' :: path, v, d =>
    match Dict.get? d key with
    | none => (insertNew (key' :: path) v []).map fun t => d ++ [(key, .table t)]
    | some (.table t) => (insertNew (key' :: path) v t).map fun t => Dict.set d key (.table t)
    | some _ => none

def getAt : List Str → Toml → Option Toml
  | [], v => some v
  | key :: path, .table t => (Dict.get? t key).bind (getAt path)
  | _, _ => none

/-- The items so far, and the table that the next pairs go to. -/
structure Document where
  path : List Str
  items : Dict Toml

/-- The document with one more line, if TOML allows it there. -/
def Document.line (doc : Document) : Line → Option Document
  | .blank => some doc
  | .comment text => if text.all isPrintable then some doc else none
  | .header path =>
    if path.all isBareKey then (insertNew path (.table []) doc.items).map (⟨path, ·⟩) else none
  | .pair key value =>
    if isBareKey key ∧ Plain value then
      (insertNew (doc.path ++ [key]) (.string value) doc.items).map (⟨doc.path, ·⟩)
    else none

/-- What the lines say. -/
def document (lines : List Line) : Option Document := lines.foldlM Document.line ⟨[], []⟩

/-- **What TOML 1.0 says of a parser.** It reads the documents of such lines; what comes after
them, a key and the mark that opens its value, is a string, which stays the value of that key; and
no key of a table is there twice. -/
structure Toml10 {ε : Type} (loads : Str → Except ε (Dict Toml)) : Prop where
  lines {lines : List Line} {doc : Document} :
    document lines = some doc → loads (linesText lines) = .ok doc.items
  token {lines : List Line} {doc : Document} {key text : Str} {d : Dict Toml} :
    document lines = some doc → isBareKey key = true →
    loads (linesText lines ++ key ++ str " = \"" ++ text) = .ok d →
    ∃ v, Token text v ∧ getAt (doc.path ++ [key]) (.table d) = some (.string v)
  distinct {text : Str} {d t : Dict Toml} {key : Str} : loads text = .ok d →
    Dict.get? d key = some (.table t) → (t.map Prod.fst).Nodup

end Toml

end AgentLab.Python
