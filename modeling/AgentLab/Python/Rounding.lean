import AgentLab.Python.Value
import Mathlib.Tactic.Linarith
import Mathlib.Tactic.Positivity
import Mathlib.Tactic.NormNum
import Mathlib.Algebra.Order.Field.Power

/-!
# Rounding to a float

`PyFloat.ofRat` on numbers that are not negative: it keeps the order (`rounded_mono`) and the floats
(`rounded_eq_self`), so a number up to a float is rounded up to that float (`ofRat_le`).
-/

namespace AgentLab.Python

variable {q q' : ℚ}

/-! ## Integers -/

theorem roundHalfEven_intCast (n : ℤ) : roundHalfEven n = n := by
  have hzero : (n : ℚ) - ⌊(n : ℚ)⌋ < 1 / 2 := by
    rw [Int.floor_intCast, sub_self]
    norm_num
  unfold roundHalfEven
  rw [if_pos (.inl hzero), Int.floor_intCast]

theorem roundHalfEven_le_of_lt {n : ℤ} (h : q < n + 1 / 2) : roundHalfEven q ≤ n := by
  have hfloor : ⌊q⌋ ≤ n := by
    have hlt : q < (n + 1 : ℤ) := h.trans (by push_cast; linarith)
    exact Int.lt_add_one_iff.1 (Int.floor_lt.2 hlt)
  unfold roundHalfEven
  dsimp only
  split_ifs with hd
  · exact hfloor
  · refine Int.add_one_le_of_lt (hfloor.lt_of_ne fun heq => hd (.inl ?_))
    rw [heq]
    linarith

theorem floor_le_roundHalfEven (q : ℚ) : ⌊q⌋ ≤ roundHalfEven q ∧ roundHalfEven q ≤ ⌊q⌋ + 1 := by
  unfold roundHalfEven
  dsimp only
  split_ifs <;> omega

theorem roundHalfEven_mono (h : q ≤ q') : roundHalfEven q ≤ roundHalfEven q' := by
  obtain ⟨hlow, -⟩ := floor_le_roundHalfEven q'
  obtain ⟨-, hhigh⟩ := floor_le_roundHalfEven q
  obtain hlt | heq := (Int.floor_le_floor h).lt_or_eq
  · omega
  · unfold roundHalfEven
    rw [heq]
    dsimp only
    have hd : q - ⌊q'⌋ ≤ q' - ⌊q'⌋ := sub_le_sub_right h _
    split_ifs with hup hup'
    · exact le_refl _
    · omega
    · refine absurd ?_ hup
      obtain hlt | ⟨hhalf, heven⟩ := ‹_›
      · exact .inl (hd.trans_lt hlt)
      · exact (hd.trans_eq hhalf).lt_or_eq.imp_right fun hd => ⟨hd, heven⟩
    · exact le_refl _

/-! ## Binary digits -/

theorem binaryExponent_spec (h : 0 < q) :
    (2 : ℚ) ^ binaryExponent q ≤ q ∧ q < 2 ^ (binaryExponent q + 1) := by
  have hnum : q.num.natAbs ≠ 0 := Int.natAbs_ne_zero.2 (Rat.num_pos.2 h).ne'
  have hq : q = q.num.natAbs / q.den := by
    have hcast : ((q.num.natAbs : ℤ) : ℚ) = q.num :=
      congrArg _ (Int.natAbs_of_nonneg (Rat.num_nonneg.2 h.le))
    rw [← Int.cast_natCast (q.num.natAbs), hcast, Rat.num_div_den]
  have hden : (0 : ℚ) < q.den := Nat.cast_pos.2 q.pos
  have hnum₁ : (2 : ℚ) ^ q.num.natAbs.log2 ≤ q.num.natAbs := by exact_mod_cast Nat.log2_self_le hnum
  have hnum₂ : (q.num.natAbs : ℚ) < 2 ^ (q.num.natAbs.log2 + 1) := by
    exact_mod_cast Nat.lt_log2_self
  have hden₁ : (2 : ℚ) ^ q.den.log2 ≤ q.den := by exact_mod_cast Nat.log2_self_le q.den_ne_zero
  have hden₂ : (q.den : ℚ) < 2 ^ (q.den.log2 + 1) := by exact_mod_cast Nat.lt_log2_self
  have hhigh : q < 2 ^ ((q.num.natAbs.log2 : ℤ) - q.den.log2 + 1) := by
    have hexp : (q.num.natAbs.log2 : ℤ) - q.den.log2 + 1 =
        ((q.num.natAbs.log2 + 1 : ℕ) : ℤ) - q.den.log2 := by
      push_cast
      ring
    rw [hexp, zpow_sub₀ two_ne_zero, zpow_natCast, zpow_natCast, lt_div_iff₀ (by positivity)]
    calc q * 2 ^ q.den.log2 ≤ q * q.den := by gcongr
      _ = q.num.natAbs := by
        nth_rewrite 1 [hq]
        exact div_mul_cancel₀ _ hden.ne'
      _ < 2 ^ (q.num.natAbs.log2 + 1) := hnum₂
  have hlow : 2 ^ ((q.num.natAbs.log2 : ℤ) - q.den.log2 - 1) ≤ q := by
    have hexp : (q.num.natAbs.log2 : ℤ) - q.den.log2 - 1 =
        (q.num.natAbs.log2 : ℤ) - ((q.den.log2 + 1 : ℕ) : ℤ) := by
      push_cast
      ring
    rw [hexp, zpow_sub₀ two_ne_zero, zpow_natCast, zpow_natCast, div_le_iff₀ (by positivity)]
    calc (2 : ℚ) ^ q.num.natAbs.log2 ≤ q.num.natAbs := hnum₁
      _ = q * q.den := by
        nth_rewrite 2 [hq]
        exact (div_mul_cancel₀ _ hden.ne').symm
      _ ≤ q * 2 ^ (q.den.log2 + 1) := by gcongr
  unfold binaryExponent
  rw [abs_of_pos h]
  dsimp only
  split_ifs with hbelow
  · rw [sub_add_cancel]
    exact ⟨hlow, hbelow⟩
  · exact ⟨not_lt.1 hbelow, hhigh⟩

theorem binaryExponent_le {z : ℤ} (h : 0 < q) (hz : q < 2 ^ (z + 1)) : binaryExponent q ≤ z := by
  have hlow := (binaryExponent_spec h).1.trans_lt hz
  have := (zpow_lt_zpow_iff_right₀ (one_lt_two (α := ℚ))).1 hlow
  omega

theorem binaryExponent_mono (h : 0 < q) (hle : q ≤ q') : binaryExponent q ≤ binaryExponent q' :=
  binaryExponent_le h (hle.trans_lt (binaryExponent_spec (h.trans_le hle)).2)

/-! ## Floats -/

/-- The exponent of the last binary digit of a float next to the number. -/
def ulpExponent (q : ℚ) : ℤ := max (binaryExponent q) (-1022) - 52

/-- The multiple of the last digit next to the number, as if floats had no end. -/
def rounded (q : ℚ) : ℚ := roundHalfEven (q / 2 ^ ulpExponent q) * 2 ^ ulpExponent q

theorem ofRat_eq (q : ℚ) : PyFloat.ofRat q = if 2 ^ 1024 ≤ rounded q then .inf else
    if rounded q ≤ -2 ^ 1024 then .negInf else .finite (rounded q) := rfl

theorem rounded_zero : rounded 0 = 0 := by
  have hround : roundHalfEven 0 = 0 := roundHalfEven_intCast 0
  unfold rounded
  rw [zero_div, hround, Int.cast_zero, zero_mul]

theorem rounded_nonneg (h : 0 ≤ q) : 0 ≤ rounded q := by
  have hround : roundHalfEven 0 ≤ roundHalfEven (q / 2 ^ ulpExponent q) :=
    roundHalfEven_mono (div_nonneg h (zpow_nonneg zero_le_two _))
  have hzero : roundHalfEven 0 = 0 := roundHalfEven_intCast 0
  rw [hzero] at hround
  exact mul_nonneg (Int.cast_nonneg hround) (zpow_nonneg zero_le_two _)

/-- Multiples of the last digit bound what is rounded to one. -/
theorem rounded_le {n : ℤ} (h : q ≤ n * 2 ^ ulpExponent q) : rounded q ≤ n * 2 ^ ulpExponent q := by
  have hpos : (0 : ℚ) < 2 ^ ulpExponent q := zpow_pos two_pos _
  have hround := roundHalfEven_mono ((div_le_iff₀ hpos).2 h)
  rw [roundHalfEven_intCast] at hround
  exact mul_le_mul_of_nonneg_right (Int.cast_le.2 hround) hpos.le

theorem le_rounded {n : ℤ} (h : n * 2 ^ ulpExponent q ≤ q) : n * 2 ^ ulpExponent q ≤ rounded q := by
  have hpos : (0 : ℚ) < 2 ^ ulpExponent q := zpow_pos two_pos _
  have hround := roundHalfEven_mono ((le_div_iff₀ hpos).2 h)
  rw [roundHalfEven_intCast] at hround
  exact mul_le_mul_of_nonneg_right (Int.cast_le.2 hround) hpos.le

theorem rounded_le_zpow (h : 0 < q) : rounded q ≤ 2 ^ (ulpExponent q + 53) := by
  have hexp : (2 : ℚ) ^ (ulpExponent q + 53) = (2 ^ 53 : ℤ) * 2 ^ ulpExponent q := by
    rw [zpow_add₀ two_ne_zero, mul_comm]
    norm_num
  rw [hexp]
  refine rounded_le ((binaryExponent_spec h).2.le.trans ?_)
  rw [← hexp]
  refine zpow_le_zpow_right₀ one_le_two ?_
  have := le_max_left (binaryExponent q) (-1022)
  unfold ulpExponent
  omega

theorem zpow_le_rounded (h : 0 < q) (hnormal : -1074 < ulpExponent q) :
    2 ^ (ulpExponent q + 52) ≤ rounded q := by
  have hexp : (2 : ℚ) ^ (ulpExponent q + 52) = (2 ^ 52 : ℤ) * 2 ^ ulpExponent q := by
    rw [zpow_add₀ two_ne_zero, mul_comm]
    norm_num
  have hulp : ulpExponent q + 52 = binaryExponent q := by
    unfold ulpExponent at *
    omega
  rw [hexp]
  refine le_rounded ?_
  rw [← hexp, hulp]
  exact (binaryExponent_spec h).1

/-- **Rounding keeps the order.** -/
theorem rounded_mono (h : 0 ≤ q) (hle : q ≤ q') : rounded q ≤ rounded q' := by
  obtain rfl | hpos := h.eq_or_lt
  · rw [rounded_zero]
    exact rounded_nonneg hle
  have hpos' := hpos.trans_le hle
  have hexp : ulpExponent q ≤ ulpExponent q' := by
    have := max_le_max_right (-1022) (binaryExponent_mono hpos hle)
    unfold ulpExponent
    omega
  obtain heq | hlt := hexp.eq_or_lt
  · unfold rounded
    rw [heq]
    have hulp : (0 : ℚ) < 2 ^ ulpExponent q' := zpow_pos two_pos _
    exact mul_le_mul_of_nonneg_right
      (Int.cast_le.2 (roundHalfEven_mono (div_le_div_of_nonneg_right hle hulp.le))) hulp.le
  · have hnormal : -1074 < ulpExponent q' := by
      have := le_max_right (binaryExponent q) (-1022)
      unfold ulpExponent at *
      omega
    -- a power of two lies between the two
    calc rounded q ≤ 2 ^ (ulpExponent q + 53) := rounded_le_zpow hpos
      _ ≤ 2 ^ (ulpExponent q' + 52) := zpow_le_zpow_right₀ one_le_two (by omega)
      _ ≤ rounded q' := zpow_le_rounded hpos' hnormal

/-- What is rounded to a power of two. -/
theorem rounded_half {z : ℤ} (hz : -1022 < z) : rounded (2 ^ z - 2 ^ (z - 54)) = 2 ^ z := by
  have hsplit : ∀ (n : ℕ) (y : ℤ), y = z - 54 + n → (2 : ℚ) ^ y = 2 ^ n * 2 ^ (z - 54) := by
    rintro n _ rfl
    rw [zpow_add₀ two_ne_zero, zpow_natCast, mul_comm]
  have hpos : (0 : ℚ) < 2 ^ (z - 54) := zpow_pos two_pos _
  have htop := hsplit 54 z (by push_cast; omega)
  have hlow := hsplit 53 (z - 1) (by push_cast; omega)
  have hulp := hsplit 1 (z - 53) (by push_cast; omega)
  have hhalf : (0 : ℚ) < 2 ^ z - 2 ^ (z - 54) := by
    rw [htop]
    linarith
  have hexp : binaryExponent (2 ^ z - 2 ^ (z - 54)) = z - 1 := by
    refine le_antisymm (binaryExponent_le hhalf ?_) ?_
    · rw [sub_add_cancel]
      linarith
    · have hle : (2 : ℚ) ^ (z - 1) ≤ 2 ^ z - 2 ^ (z - 54) := by
        rw [hlow, htop]
        linarith
      have hlt := (zpow_lt_zpow_iff_right₀ (one_lt_two (α := ℚ))).1
        (hle.trans_lt (binaryExponent_spec hhalf).2)
      omega
  have hulpExp : ulpExponent (2 ^ z - 2 ^ (z - 54)) = z - 53 := by
    unfold ulpExponent
    rw [hexp]
    omega
  have hquot : ((2 : ℚ) ^ z - 2 ^ (z - 54)) / 2 ^ (z - 53) = 2 ^ 53 - 1 / 2 := by
    rw [htop, hulp]
    field_simp
  have hround : roundHalfEven (2 ^ 53 - 1 / 2) = 2 ^ 53 := by decide +kernel
  unfold rounded
  rw [hulpExp, hquot, hround, htop, hulp]
  push_cast
  ring

/-- **What is rounded below a power of two.** -/
theorem rounded_lt_zpow_iff {z : ℤ} (h : 0 ≤ q) (hz : -1022 < z) :
    rounded q < 2 ^ z ↔ q < 2 ^ z - 2 ^ (z - 54) := by
  constructor
  · intro hlt
    refine not_le.1 fun hle => hlt.not_ge ?_
    have hhalf : (0 : ℚ) ≤ 2 ^ z - 2 ^ (z - 54) :=
      sub_nonneg.2 (zpow_le_zpow_right₀ one_le_two (by omega))
    exact (rounded_half hz).symm.le.trans (rounded_mono hhalf hle)
  · intro hlt
    obtain rfl | hpos := h.eq_or_lt
    · rw [rounded_zero]
      exact zpow_pos two_pos _
    have htop : q < 2 ^ (z - 1 + 1) := by
      rw [sub_add_cancel]
      exact hlt.trans (sub_lt_self _ (zpow_pos two_pos _))
    have hexp := binaryExponent_le hpos htop
    have hulp : ulpExponent q ≤ z - 53 := by
      unfold ulpExponent
      omega
    obtain heq | hbelow := hulp.eq_or_lt
    · have hunit : (0 : ℚ) < 2 ^ (z - 53) := zpow_pos two_pos _
      have hz53 : (2 : ℚ) ^ z = 2 ^ 53 * 2 ^ (z - 53) := by
        rw [← zpow_natCast, ← zpow_add₀ two_ne_zero]
        congr 1
        push_cast
        omega
      have hz54 : (2 : ℚ) ^ (z - 54) = 1 / 2 * 2 ^ (z - 53) := by
        rw [show z - 54 = z - 53 - 1 by omega, zpow_sub_one₀ two_ne_zero]
        ring
      have hround : roundHalfEven (q / 2 ^ (z - 53)) ≤ 2 ^ 53 - 1 := by
        refine roundHalfEven_le_of_lt ((div_lt_iff₀ hunit).2 ?_)
        push_cast
        rw [hz53, hz54] at hlt
        linarith
      unfold rounded
      rw [heq, hz53]
      refine mul_lt_mul_of_pos_right ?_ hunit
      have hcast : ((roundHalfEven (q / 2 ^ (z - 53)) : ℤ) : ℚ) ≤ 2 ^ 53 - 1 := by
        exact_mod_cast hround
      linarith
    · exact (rounded_le_zpow hpos).trans_lt (zpow_lt_zpow_right₀ one_lt_two (by omega))

/-- The value of 53 binary digits. -/
def IsDyadic (q : ℚ) : Prop := ∃ (n : ℕ) (z : ℤ), n < 2 ^ 53 ∧ -1074 ≤ z ∧ q = n * 2 ^ z

/-- **Rounding keeps a float.** -/
theorem rounded_eq_self (h : IsDyadic q) : rounded q = q := by
  obtain ⟨n, z, hn, hz, rfl⟩ := h
  obtain rfl | hpos := n.eq_zero_or_pos
  · rw [Nat.cast_zero, zero_mul]
    exact rounded_zero
  have hq : (0 : ℚ) < n * 2 ^ z := mul_pos (Nat.cast_pos.2 hpos) (zpow_pos two_pos _)
  have hexp : ulpExponent (n * 2 ^ z) ≤ z := by
    have hlt : (n : ℚ) * 2 ^ z < 2 ^ (52 + z + 1) := by
      have hsplit : (2 : ℚ) ^ (52 + z + 1) = 2 ^ 53 * 2 ^ z := by
        rw [add_right_comm, zpow_add₀ two_ne_zero]
        norm_num
      rw [hsplit]
      exact mul_lt_mul_of_pos_right (by exact_mod_cast hn) (zpow_pos two_pos _)
    have := binaryExponent_le hq hlt
    unfold ulpExponent
    omega
  obtain ⟨k, hk⟩ := Int.eq_ofNat_of_zero_le (sub_nonneg.2 hexp)
  have hmul : (n : ℚ) * 2 ^ z = (n * 2 ^ k : ℤ) * 2 ^ ulpExponent (n * 2 ^ z) := by
    have hz : z = k + ulpExponent (n * 2 ^ z) := by omega
    nth_rewrite 1 [hz]
    rw [zpow_add₀ two_ne_zero, zpow_natCast]
    push_cast
    ring
  have hpow : (2 : ℚ) ^ ulpExponent (n * 2 ^ z) ≠ 0 := zpow_ne_zero _ two_ne_zero
  unfold rounded
  rw [(div_eq_iff hpow).2 hmul, roundHalfEven_intCast]
  exact hmul.symm

theorem rounded_dyadic (h : 0 ≤ q) : IsDyadic (rounded q) := by
  obtain rfl | hpos := h.eq_or_lt
  · rw [rounded_zero]
    exact ⟨0, 0, by norm_num, by norm_num, by norm_num⟩
  have hpow : (0 : ℚ) < 2 ^ ulpExponent q := zpow_pos two_pos _
  have hexp : -1074 ≤ ulpExponent q := by
    have := le_max_right (binaryExponent q) (-1022)
    unfold ulpExponent
    omega
  have hnonneg : 0 ≤ roundHalfEven (q / 2 ^ ulpExponent q) := by
    have hmul := rounded_nonneg h
    exact Int.cast_nonneg_iff.1 (nonneg_of_mul_nonneg_left hmul hpow)
  have hle : roundHalfEven (q / 2 ^ ulpExponent q) ≤ 2 ^ 53 := by
    have hmul := rounded_le_zpow hpos
    rw [add_comm, zpow_add₀ two_ne_zero] at hmul
    have hcast : ((roundHalfEven (q / 2 ^ ulpExponent q) : ℤ) : ℚ) ≤ 2 ^ (53 : ℤ) :=
      le_of_mul_le_mul_right hmul hpow
    exact_mod_cast hcast
  obtain ⟨n, hn⟩ := Int.eq_ofNat_of_zero_le hnonneg
  have hvalue : rounded q = n * 2 ^ ulpExponent q := by
    unfold rounded
    rw [hn]
    rfl
  obtain hlt | heq := hle.lt_or_eq
  · exact ⟨n, _, by omega, hexp, hvalue⟩
  · refine ⟨2 ^ 52, ulpExponent q + 1, by norm_num, by omega, ?_⟩
    have hn : (n : ℚ) = 2 ^ 52 * 2 := by
      have hn : n = 2 ^ 53 := by omega
      rw [hn]
      norm_num
    rw [hvalue, hn, zpow_add_one₀ two_ne_zero]
    push_cast
    ring

theorem IsDyadic.mul_two_pow (h : IsDyadic q) (k : ℕ) : IsDyadic (q * 2 ^ k) := by
  obtain ⟨n, z, hn, hz, rfl⟩ := h
  refine ⟨n, z + k, hn, by omega, ?_⟩
  rw [zpow_add₀ two_ne_zero, zpow_natCast, mul_assoc]

theorem IsDyadic.nonneg (h : IsDyadic q) : 0 ≤ q := by
  obtain ⟨n, z, -, -, rfl⟩ := h
  exact mul_nonneg (Nat.cast_nonneg n) (zpow_nonneg zero_le_two z)

/-! ## The largest float -/

def maxFloat : ℚ := (2 ^ 53 - 1) * 2 ^ 971

theorem ofRat_le (h : 0 ≤ q) (hle : q ≤ q') (hfloat : IsDyadic q') (hmax : q' < 2 ^ 1024) :
    ∃ r, PyFloat.ofRat q = .finite r ∧ 0 ≤ r ∧ r ≤ q' := by
  have hrounded : rounded q ≤ q' := (rounded_mono h hle).trans_eq (rounded_eq_self hfloat)
  have hnonneg := rounded_nonneg h
  refine ⟨rounded q, ?_, hnonneg, hrounded⟩
  have hpow : (0 : ℚ) < 2 ^ 1024 := pow_pos two_pos _
  rw [ofRat_eq, if_neg (not_le.2 (hrounded.trans_lt hmax)),
    if_neg (not_le.2 ((neg_lt_zero.2 hpow).trans_le hnonneg))]

theorem ofRat_of_dyadic (h : 0 ≤ q) (hfloat : IsDyadic q) (hmax : q < 2 ^ 1024) :
    PyFloat.ofRat q = .finite q := by
  have hpow : (0 : ℚ) < 2 ^ 1024 := pow_pos two_pos _
  rw [ofRat_eq, rounded_eq_self hfloat, if_neg (not_le.2 hmax),
    if_neg (not_le.2 ((neg_lt_zero.2 hpow).trans_le h))]

theorem rounded_of_ofRat {r : ℚ} (h : PyFloat.ofRat q = .finite r) :
    r = rounded q ∧ rounded q < 2 ^ 1024 := by
  rw [ofRat_eq] at h
  split_ifs at h with hlarge
  exact ⟨(PyFloat.finite.inj h).symm, not_le.1 hlarge⟩

theorem ofRat_mono {r r' : ℚ} (h : 0 ≤ q) (hle : q ≤ q') (hr : PyFloat.ofRat q = .finite r)
    (hr' : PyFloat.ofRat q' = .finite r') : r ≤ r' := by
  rw [(rounded_of_ofRat hr).1, (rounded_of_ofRat hr').1]
  exact rounded_mono h hle

theorem rounded_le_maxFloat (h : 0 ≤ q) (hlt : rounded q < 2 ^ 1024) : rounded q ≤ maxFloat := by
  have hsplit : (2 : ℚ) ^ 1024 = 2 ^ 53 * 2 ^ 971 := by rw [← pow_add]
  obtain rfl | hpos := h.eq_or_lt
  · rw [rounded_zero, maxFloat]
    exact mul_nonneg (by norm_num) (pow_nonneg zero_le_two _)
  obtain hsmall | hlast | hlarge :
      ulpExponent q < 971 ∨ ulpExponent q = 971 ∨ 971 < ulpExponent q :=
    lt_trichotomy _ _
  · have hpow : (2 : ℚ) ^ (ulpExponent q + 53) ≤ 2 ^ 52 * 2 ^ 971 := by
      rw [← pow_add, ← zpow_natCast]
      exact zpow_le_zpow_right₀ one_le_two (by push_cast; omega)
    refine (rounded_le_zpow hpos).trans (hpow.trans ?_)
    exact mul_le_mul_of_nonneg_right (by norm_num) (pow_nonneg zero_le_two _)
  · have hn : roundHalfEven (q / 2 ^ ulpExponent q) ≤ 2 ^ 53 - 1 := by
      refine Int.le_sub_one_of_lt ?_
      unfold rounded at hlt
      rw [hlast, hsplit] at hlt
      have hcast := lt_of_mul_lt_mul_right hlt (zpow_nonneg zero_le_two 971)
      rw [hlast]
      exact_mod_cast hcast
    unfold rounded maxFloat
    rw [hlast]
    have hcast : ((roundHalfEven (q / 2 ^ (971 : ℤ)) : ℤ) : ℚ) ≤ 2 ^ 53 - 1 := by
      rw [hlast] at hn
      exact_mod_cast hn
    have hpow : (2 : ℚ) ^ (971 : ℤ) = 2 ^ 971 := zpow_natCast 2 971
    refine (mul_le_mul_of_nonneg_right hcast (zpow_nonneg zero_le_two 971)).trans_eq ?_
    rw [hpow]
  · refine absurd hlt (not_lt.2 (le_trans ?_ (zpow_le_rounded hpos (by omega))))
    rw [← zpow_natCast]
    exact zpow_le_zpow_right₀ one_le_two (by push_cast; omega)

theorem IsDyadic.le_maxFloat (h : IsDyadic q) (hlt : q < 2 ^ 1024) : q ≤ maxFloat := by
  have heq := rounded_eq_self h
  exact heq ▸ rounded_le_maxFloat h.nonneg (heq.symm ▸ hlt)

end AgentLab.Python
