import Mathlib.Data.List.SplitBy

/-!
# POSIX paths

The text of a path as `pathlib` and `posixpath` take it apart: the root, the parts without empty
ones and `.`, `join`, and the lexical normal form without `..`. Without symbolic links two texts
with one normal form below a root name one file.
-/

namespace AgentLab.Python

/-- The text of a path, or a part of it. -/
abbrev PathText := List Char

/-- `PurePosixPath`. The root is empty, `/` or `//`. -/
structure PurePosixPath where
  root : PathText
  parts : List PathText
  deriving DecidableEq, Repr

namespace PurePosixPath

/-- `posixpath.splitroot`. Two slashes are a root of their own, three are one. -/
def splitRoot : PathText → PathText × PathText
  | '/' :: '/' :: '/' :: rest => (['/'], '/' :: '/' :: rest)
  | '/' :: '/' :: rest => (['/', '/'], rest)
  | '/' :: rest => (['/'], rest)
  | text => ([], text)

/-- The parts between the slashes that are there for `pathlib`. -/
def partsOf (text : PathText) : List PathText :=
  (text.splitOn '/').filter fun part => part ≠ [] && part ≠ ['.']

def parse (text : PathText) : PurePosixPath :=
  ⟨(splitRoot text).1, partsOf (splitRoot text).2⟩

def isAbsolute (p : PurePosixPath) : Bool := !p.root.isEmpty

/-- `posixpath.join`. -/
def join (path other : PathText) : PathText :=
  if other.head? = some '/' then other
  else if path = [] || path.getLast? = some '/' then path ++ other
  else path ++ '/' :: other

def parent : PathText := ['.', '.']

/-- One round of the loop in `posixpath.normpath`. -/
def resolveStep (rooted : Bool) (comps : List PathText) (comp : PathText) : List PathText :=
  if comp ≠ parent || (!rooted && comps = []) || comps.getLast? = some parent then comps ++ [comp]
  else comps.dropLast

/-- The normal form of a path. -/
def normalise (text : PathText) : PurePosixPath :=
  let p := parse text
  ⟨p.root, p.parts.foldl (resolveStep p.isAbsolute) []⟩

/-- `p` is strictly below `dir`. -/
def Below (p dir : PurePosixPath) : Prop :=
  p.root = dir.root ∧ ∃ rest, rest ≠ [] ∧ p.parts = dir.parts ++ rest

/-! ## Joining -/

/-- The root of a longer text is the same one, where no slash is added to it. -/
theorem splitRoot_append {path more : PathText}
    (h : more.head? ≠ some '/' ∨ path ≠ [] ∧ path.getLast? ≠ some '/') :
    splitRoot (path ++ more) = ((splitRoot path).1, (splitRoot path).2 ++ more) := by
  have hshort : path = [] ∨ path.getLast? = some '/' → more.head? ≠ some '/' := fun hend =>
    h.resolve_right fun h => hend.elim h.1 h.2
  have hrooted : ∀ c : Char, c ≠ '/' → ∀ rest : PathText,
      splitRoot ('/' :: c :: rest) = (['/'], c :: rest) := by
    intro c hc rest
    simp [splitRoot, hc]
  cases path with
  | nil =>
    have hmore := hshort (.inl rfl)
    cases more <;> simp_all [splitRoot]
  | cons a path =>
    by_cases ha : a = '/'
    · subst ha
      cases path with
      | nil =>
        have hmore := hshort (.inr rfl)
        cases more <;> simp_all [splitRoot]
      | cons b path =>
        by_cases hb : b = '/'
        · subst hb
          cases path with
          | nil =>
            have hmore := hshort (.inr rfl)
            cases more <;> simp_all [splitRoot]
          | cons c path => by_cases hc : c = '/' <;> simp [splitRoot, hc]
        · rw [hrooted b hb path]
          exact hrooted b hb (path ++ more)
    · simp [splitRoot, ha]

theorem partsOf_append (text more : PathText) :
    partsOf (text ++ '/' :: more) = partsOf text ++ partsOf more := by
  unfold partsOf
  rw [List.splitOn_append_cons_self, List.filter_append]

/-- A slash at the end adds nothing. -/
theorem partsOf_append_of_slash {text : PathText} (more : PathText)
    (h : text = [] ∨ text.getLast? = some '/') :
    partsOf (text ++ more) = partsOf text ++ partsOf more := by
  rcases h with rfl | h
  · rfl
  · obtain ⟨text, rfl⟩ := List.getLast?_eq_some_iff.1 h
    have hslash : partsOf (text ++ ['/']) = partsOf text :=
      (partsOf_append text []).trans (List.append_nil _)
    rw [hslash, List.append_assoc]
    exact partsOf_append text more

theorem splitRoot_eq (text : PathText) : (splitRoot text).1 ++ (splitRoot text).2 = text := by
  unfold splitRoot
  split <;> rfl

theorem splitRoot_getLast? {text : PathText} (h : text = [] ∨ text.getLast? = some '/') :
    (splitRoot text).2 = [] ∨ (splitRoot text).2.getLast? = some '/' := by
  rw [or_iff_not_imp_left]
  intro hne
  rw [← splitRoot_eq text, List.append_eq_nil_iff, List.getLast?_append_of_ne_nil _ hne] at h
  exact h.resolve_left fun h => hne h.2

theorem splitRoot_relative {text : PathText} (h : text.head? ≠ some '/') :
    splitRoot text = ([], text) :=
  @splitRoot_append [] text (.inl h)

theorem isAbsolute_parse (text : PathText) :
    (parse text).isAbsolute = decide (text.head? = some '/') := by
  by_cases h : text.head? = some '/'
  · obtain ⟨rest, rfl⟩ := List.head?_eq_some_iff.1 h
    unfold isAbsolute parse splitRoot
    split <;> simp_all
  · unfold isAbsolute parse
    rw [splitRoot_relative h, decide_eq_false h]
    rfl

/-- **The parts of a joined path.** -/
theorem parse_join {path other : PathText} (h : other.head? ≠ some '/') :
    parse (join path other) = ⟨(parse path).root, (parse path).parts ++ partsOf other⟩ := by
  unfold join parse
  rw [if_neg h]
  split_ifs with hend
  · rw [splitRoot_append (.inl h)]
    simp only [Bool.or_eq_true, decide_eq_true_eq] at hend
    rw [partsOf_append_of_slash other (splitRoot_getLast? hend)]
  · simp only [Bool.or_eq_true, decide_eq_true_eq, not_or] at hend
    rw [splitRoot_append (.inr hend), partsOf_append]

/-- A relative path that has no `..` is kept as it is. -/
theorem foldl_resolveStep {rooted : Bool} {parts : List PathText} (h : parent ∉ parts)
    (comps : List PathText) : parts.foldl (resolveStep rooted) comps = comps ++ parts := by
  induction parts generalizing comps with
  | nil => exact (List.append_nil comps).symm
  | cons part parts ih =>
    obtain ⟨hpart, hparts⟩ := not_or.1 (mt List.mem_cons.2 h)
    have hstep : resolveStep rooted comps part = comps ++ [part] := by
      simp [resolveStep, Ne.symm hpart]
    rw [List.foldl_cons, hstep, ih hparts, List.append_assoc, List.singleton_append]

/-- **The normal form of a joined path.** -/
theorem normalise_join {path other : PathText} (h : other.head? ≠ some '/')
    (hparent : parent ∉ partsOf other) :
    normalise (join path other) =
      ⟨(normalise path).root, (normalise path).parts ++ partsOf other⟩ := by
  unfold normalise
  rw [parse_join h]
  simp only [isAbsolute, List.foldl_append]
  rw [foldl_resolveStep hparent]

/-- A text without empty parts, `.` and `..` has the parts between its slashes. -/
theorem partsOf_eq {text : PathText} (h : ∀ part ∈ text.splitOn '/', part ≠ [] ∧ part ≠ ['.']) :
    partsOf text = text.splitOn '/' :=
  List.filter_eq_self.2 fun part hpart => by simpa using h part hpart

end PurePosixPath

end AgentLab.Python
