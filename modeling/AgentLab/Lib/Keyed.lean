import Mathlib.Algebra.GroupWithZero.Nat
import Mathlib.Data.List.Basic

/-!
# Lists whose entries own keys

A list of parties (requests, calls) of which some hold a key of their own: `keyAt f l i` is the key
of the `i`-th. `Distinct` says that no two hold the same one. An entry that is replaced keeps this
when its key stays or goes, and when its new key is nobody's.
-/

namespace Keyed

variable {α κ : Type*} {f : α → Option κ} {l : List α} {a b : α} {i : ℕ}

/-- The key of the entry `i`. -/
def keyAt (f : α → Option κ) (l : List α) (i : ℕ) : Option κ := l[i]?.bind f

/-- No key has two owners. -/
def Distinct (f : α → Option κ) (l : List α) : Prop :=
  ∀ i j k, keyAt f l i = some k → keyAt f l j = some k → i = j

theorem keyAt_eq (h : l[i]? = some a) : keyAt f l i = f a := by
  unfold keyAt
  rw [h]
  rfl

theorem keyAt_eq_some {k : κ} : keyAt f l i = some k ↔ ∃ a, l[i]? = some a ∧ f a = some k :=
  Option.bind_eq_some_iff

/-- The keys after the entry `i` is replaced. -/
theorem keyAt_set (h : l[i]? = some a) (b : α) (j : ℕ) :
    keyAt f (l.set i b) j = if j = i then f b else keyAt f l j := by
  have hlt := (List.getElem?_eq_some_iff.1 h).1
  unfold keyAt
  rw [List.getElem?_set]
  by_cases hij : i = j
  · subst hij
    rw [if_pos rfl, if_pos rfl, if_pos hlt]
    rfl
  · rw [if_neg hij, if_neg (Ne.symm hij)]

/-- An entry whose key stays. -/
theorem keyAt_set_same (h : l[i]? = some a) (hb : f b = f a) :
    keyAt f (l.set i b) = keyAt f l := by
  funext j
  rw [keyAt_set h]
  split_ifs with hij
  · rw [hb, hij, keyAt_eq h]
  · rfl

/-- A new entry without a key. -/
theorem keyAt_append (hb : f b = none) : keyAt f (l ++ [b]) = keyAt f l := by
  funext i
  unfold keyAt
  rw [List.getElem?_append]
  split_ifs with hlt
  · rfl
  · rw [List.getElem?_eq_none (Nat.le_of_not_lt hlt)]
    cases i - l.length with
    | zero => exact hb
    | succ n => rfl

/-- An entry that keeps its key, or gets one which nobody has. -/
theorem Distinct.set (hl : Distinct f l) (h : l[i]? = some a)
    (hb : f b = f a ∨ ∀ j k, f b = some k → keyAt f l j ≠ some k) : Distinct f (l.set i b) := by
  rcases hb with hsame | hfresh
  · intro j j' k hj hj'
    rw [keyAt_set_same h hsame] at hj hj'
    exact hl j j' k hj hj'
  · intro j j' k hj hj'
    rw [keyAt_set h] at hj hj'
    split_ifs at hj hj' with hji hji' hji'
    · rw [hji, hji']
    · exact absurd hj' (hfresh j' k hj)
    · exact absurd hj (hfresh j k hj')
    · exact hl j j' k hj hj'

/-! ## Keys that pay once -/

section Spent

variable [DecidableEq κ] (key : α → κ) (credited full : α → ℕ)

/-- What the entries cost in turn: in full, where the key was used before. -/
def spent : List κ → List α → ℕ
  | _, [] => 0
  | used, a :: l => (if key a ∈ used then full a else credited a) + spent (key a :: used) l

variable {key credited full} (hle : ∀ a, credited a ≤ full a)

include hle

theorem credited_le_spent (used : List κ) (l : List α) :
    (l.map credited).sum ≤ spent key credited full used l := by
  induction l generalizing used with
  | nil => exact Nat.le_refl 0
  | cons a l ih =>
    rw [List.map_cons, List.sum_cons]
    refine Nat.add_le_add ?_ (ih _)
    split_ifs
    · exact hle a
    · exact Nat.le_refl _

theorem spent_le_iff_used (used : List κ) (l : List α) :
    spent key credited full used l ≤ (l.map credited).sum ↔
      (∀ a ∈ l, key a ∈ used → full a ≤ credited a) ∧
        l.Pairwise fun a b => key a = key b → full b ≤ credited b := by
  induction l generalizing used with
  | nil => simp [spent]
  | cons a l ih =>
    have hspent : (l.map credited).sum ≤ spent key credited full (key a :: used) l :=
      credited_le_spent hle _ l
    have hhead : spent key credited full used (a :: l) ≤ ((a :: l).map credited).sum ↔
        (key a ∈ used → full a ≤ credited a) ∧
          spent key credited full (key a :: used) l ≤ (l.map credited).sum := by
      rw [List.map_cons, List.sum_cons, spent]
      split_ifs with hused
      · have hfull := hle a
        simp only [hused, forall_true_left]
        omega
      · simp only [hused, false_implies, true_and]
        omega
    rw [hhead, ih, List.forall_mem_cons, List.pairwise_cons]
    constructor
    · rintro ⟨ha, hl, hpairs⟩
      exact ⟨⟨ha, fun b hb hused => hl b hb (List.mem_cons_of_mem _ hused)⟩,
        fun b hb heq => hl b hb (heq ▸ List.mem_cons_self), hpairs⟩
    · rintro ⟨⟨ha, hl⟩, hkey, hpairs⟩
      refine ⟨ha, fun b hb hused => ?_, hpairs⟩
      rcases List.mem_cons.1 hused with heq | hused
      · exact hkey b hb heq.symm
      · exact hl b hb hused

/-- **Nothing is paid for twice** iff an entry that comes after one of its key costs no more in
full. -/
theorem spent_le_iff (l : List α) : spent key credited full [] l ≤ (l.map credited).sum ↔
    l.Pairwise fun a b => key a = key b → full b ≤ credited b := by
  rw [spent_le_iff_used hle]
  simp

end Spent

end Keyed
