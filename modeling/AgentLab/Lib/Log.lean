import Mathlib.Data.List.Basic

/-!
# Logs

A log is the list of what happened, and a position in it is a time. `Valid allowed` says that each
entry was allowed after the ones before it; `Valid.concat` is the rule for a system that writes one,
and `one` what a log gains from entries that are allowed only once.
-/

namespace Log

variable {α : Type*} {allowed : List α → α → Prop} {log : List α} {x : α} {n : ℕ}

/-- What happened at that time. -/
abbrev At (log : List α) (n : ℕ) (x : α) : Prop := log[n]? = some x

/-- Each entry was allowed after the ones before it. -/
def Valid (allowed : List α → α → Prop) (log : List α) : Prop :=
  ∀ n x, At log n x → allowed (log.take n) x

/-- The last entry, and the ones before it. -/
theorem at_concat {y : α} : At (log ++ [x]) n y ↔ At log n y ∨ n = log.length ∧ y = x := by
  unfold At
  rw [List.getElem?_append]
  split_ifs with h
  · constructor
    · exact Or.inl
    · rintro (hy | ⟨hn, -⟩)
      · exact hy
      · omega
  · rw [List.getElem?_eq_none (Nat.le_of_not_lt h)]
    constructor
    · intro hy
      have hlen := (List.getElem?_eq_some_iff.1 hy).1
      rw [List.length_singleton] at hlen
      have hn : n = log.length := by omega
      rw [hn, Nat.sub_self] at hy
      cases hy
      exact .inr ⟨hn, rfl⟩
    · rintro (hy | ⟨rfl, rfl⟩)
      · cases hy
      · rw [Nat.sub_self]
        rfl

theorem Valid.nil : Valid allowed ([] : List α) := by
  intro n x h
  cases h

/-- What is allowed next may be written. -/
theorem Valid.concat (h : Valid allowed log) (hx : allowed log x) : Valid allowed (log ++ [x]) := by
  intro n y hy
  rcases at_concat.1 hy with hy | ⟨rfl, rfl⟩
  · have hlt := (List.getElem?_eq_some_iff.1 hy).1
    rw [List.take_append_of_le_length (Nat.le_of_lt hlt)]
    exact h n y hy
  · rw [List.take_left]
    exact hx

theorem At.lt (h : At log n x) : n < log.length := (List.getElem?_eq_some_iff.1 h).1

/-- What happened before a time. -/
theorem at_take {m : ℕ} : At (log.take m) n x ↔ n < m ∧ At log n x := by
  unfold At
  rw [List.getElem?_take]
  split_ifs with h
  · exact ⟨fun hx => ⟨h, hx⟩, And.right⟩
  · exact ⟨nofun, fun hx => absurd hx.1 h⟩

theorem Valid.take (h : Valid allowed log) (m : ℕ) : Valid allowed (log.take m) := by
  intro n x hx
  obtain ⟨hlt, hx⟩ := at_take.1 hx
  rw [List.take_take, Nat.min_eq_left (Nat.le_of_lt hlt)]
  exact h n x hx

theorem mem_take : x ∈ log.take n ↔ ∃ k, k < n ∧ At log k x := by
  rw [List.mem_iff_getElem?]
  exact exists_congr fun k => at_take

/-- Of the entries that are not allowed after each other there is one. -/
theorem one {P : α → Prop}
    (hP : ∀ n x, At log n x → P x → ∀ y ∈ log.take n, ¬ P y) {m n : ℕ} {x y : α}
    (hx : At log m x) (hy : At log n y) (hPx : P x) (hPy : P y) : m = n ∧ x = y := by
  rcases Nat.lt_trichotomy m n with hlt | rfl | hlt
  · exact absurd hPx (hP n y hy hPy x (mem_take.2 ⟨m, hlt, hx⟩))
  · exact ⟨rfl, Option.some.inj (hx.symm.trans hy)⟩
  · exact absurd hPy (hP m x hx hPx y (mem_take.2 ⟨n, hlt, hy⟩))

end Log
