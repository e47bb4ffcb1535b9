import AgentLab.Config.Registry
import AgentLab.Python.Rounding

/-!
# The disk space of an entry

`disk_space_for`, whose loop goes on until the text parses to no less than the total. It comes to an
end for every total that a float reaches, with a text that `parse_size` accepts (`diskSpaceFor_ok`).
-/

namespace AgentLab.Config

open Python

/-- `f"{tenths / 10:.1f}GB"`. -/
def spaceText (tenths : ℕ) : Except PyExc String := do return fixed1 (← trueDiv tenths 10) ++ "GB"

/-- The loop of `disk_space_for`, of at most `fuel` rounds. -/
def diskSpaceFrom (total : ℕ) : ℕ → ℕ → Except PyExc (Option String)
  | 0, _ => .ok none
  | fuel + 1, tenths => do
    let text ← spaceText tenths
    match parseSize text with
    | .ok n => if n < total then diskSpaceFrom total fuel (tenths + 1) else return some text
    | .error (.valueError _) => .error .valueError
    | .error .overflowError => .error .overflowError

/-- `disk_space_for`. -/
def diskSpaceFor (fuel total : ℕ) : Except PyExc (Option String) := do
  let q ← trueDiv (total * 10) GIB
  diskSpaceFrom total fuel (max 1 ⌈q⌉.toNat)

/-! ## The number of a text -/

theorem digitChar_spec {d : ℕ} (h : d < 10) : digitValue? (codePoint (Nat.digitChar d)) = some d ∧
    isSpaceChar (Nat.digitChar d) = false := by
  revert h
  exact (by decide : ∀ d < 10, digitValue? (codePoint (Nat.digitChar d)) = some d ∧
    isSpaceChar (Nat.digitChar d) = false) d

theorem toDigits_spec (n : ℕ) :
    (∀ c ∈ Nat.toDigits 10 n, isDecimal c = true ∧ isSpaceChar c = false) ∧
      (Nat.toDigits 10 n).foldl (fun n c => 10 * n + (digitValue? (codePoint c)).getD 0) 0 = n := by
  induction n using Nat.strongRecOn with
  | _ n ih =>
    by_cases hn : n < 10
    · obtain ⟨hdigit, hspace⟩ := digitChar_spec hn
      rw [Nat.toDigits_of_lt_base hn, List.forall_mem_singleton, List.foldl_cons, List.foldl_nil,
        isDecimal, hdigit]
      exact ⟨⟨rfl, hspace⟩, by simp⟩
    · obtain ⟨hall, hvalue⟩ := ih (n / 10) (by omega)
      obtain ⟨hdigit, hspace⟩ := digitChar_spec (Nat.mod_lt n (by decide : 0 < 10))
      rw [Nat.toDigits_of_base_le (by decide) (not_lt.1 hn), List.forall_mem_append,
        List.forall_mem_singleton, List.foldl_append, List.foldl_cons, List.foldl_nil, hvalue,
        isDecimal,
        hdigit, Option.getD_some]
      exact ⟨⟨hall, rfl, hspace⟩, by omega⟩

theorem span_decimal {ds rest : List Char} (h : ∀ c ∈ ds, isDecimal c = true)
    (hrest : rest.head?.all (fun c => !isDecimal c) = true) :
    (ds ++ rest).span isDecimal = (ds, rest) := by
  have hnone : rest.takeWhile isDecimal = [] ∧ rest.dropWhile isDecimal = rest := by
    cases rest with
    | nil => exact ⟨rfl, rfl⟩
    | cons c rest =>
      have hc : isDecimal c = false := by simpa using hrest
      rw [List.takeWhile_cons, List.dropWhile_cons, hc]
      exact ⟨rfl, rfl⟩
  rw [List.span_eq_takeWhile_dropWhile, List.takeWhile_append_of_pos h,
    List.dropWhile_append_of_pos h, hnone.1, hnone.2, List.append_nil]

theorem sizeRe_decimal (t : ℕ) : sizeRe (decimal t ++ "GB") = some ((t : ℚ) / 10, ['G', 'B']) := by
  obtain ⟨hwhole, hvalue⟩ := toDigits_spec (t / 10)
  obtain ⟨hfrac, -⟩ := toDigits_spec (t % 10)
  have hmod : t % 10 < 10 := Nat.mod_lt t (by decide)
  have hone : Nat.toDigits 10 (t % 10) = [Nat.digitChar (t % 10)] := Nat.toDigits_of_lt_base hmod
  rw [hone, List.forall_mem_singleton] at hfrac
  have htext : (decimal t ++ "GB").toList =
      Nat.toDigits 10 (t / 10) ++ '.' :: Nat.digitChar (t % 10) :: ['G', 'B'] := by
    have htoString : ∀ n : ℕ, (toString n).toList = Nat.toDigits 10 n := fun n => Nat.toList_repr
    simp only [decimal, String.toList_append, htoString, hone]
    simp
  have hspace : (Nat.toDigits 10 (t / 10) ++ '.' :: Nat.digitChar (t % 10) :: ['G', 'B']).dropWhile
      isSpaceChar = Nat.toDigits 10 (t / 10) ++ '.' :: Nat.digitChar (t % 10) :: ['G', 'B'] := by
    obtain ⟨c, cs, heq⟩ := List.exists_cons_of_ne_nil (@Nat.toDigits_ne_nil (t / 10) 10)
    rw [heq, List.cons_append, List.dropWhile_cons, (hwhole c (heq ▸ List.mem_cons_self)).2]
    rfl
  have hfraction : fraction ('.' :: Nat.digitChar (t % 10) :: ['G', 'B']) =
      ([Nat.digitChar (t % 10)], ['G', 'B']) := by
    have hspan : ([Nat.digitChar (t % 10)] ++ ['G', 'B']).span isDecimal = _ :=
      span_decimal (List.forall_mem_singleton.2 hfrac.1) (by decide)
    have htake : (Nat.digitChar (t % 10) :: ['G', 'B']).takeWhile isDecimal ≠ [] := by
      rw [List.takeWhile_cons, hfrac.1]
      exact List.cons_ne_nil _ _
    show (if ((Nat.digitChar (t % 10) :: ['G', 'B']).takeWhile isDecimal).isEmpty then _ else _) = _
    rw [if_neg (by rwa [List.isEmpty_iff])]
    exact hspan
  have hdecimal : decimalValue (Nat.toDigits 10 (t / 10)) [Nat.digitChar (t % 10)] =
      (t : ℚ) / 10 := by
    have ht : 10 * (t / 10) + t % 10 = t := by omega
    unfold decimalValue
    rw [List.foldl_append, hvalue, List.foldl_cons, List.foldl_nil, (digitChar_spec hmod).1,
      Option.getD_some, ht, List.length_singleton, pow_one]
  unfold sizeRe
  have hpoint :
      (('.' :: Nat.digitChar (t % 10) :: ['G', 'B']).head?.all fun c => !isDecimal c) = true :=
    (by decide : (!isDecimal '.') = true)
  rw [htext, hspace, span_decimal (fun c hc => (hwhole c hc).1) hpoint]
  dsimp only
  rw [hfraction]
  dsimp only
  have hunit : (['G', 'B'].dropWhile isSpaceChar).span Char.isAlpha = (['G', 'B'], []) := by decide
  rw [hunit]
  dsimp only
  rw [hdecimal, if_neg]
  simp

/-! ## The parsed size -/

/-- The gigabytes of the largest float. -/
@[irreducible] def maxGb : ℕ := (2 ^ 53 - 1) * 2 ^ 941

theorem maxGb_dyadic : IsDyadic (maxGb : ℚ) := by
  refine ⟨2 ^ 53 - 1, 941, by norm_num, by norm_num, ?_⟩
  unfold maxGb
  rw [Nat.cast_mul]
  have hpow : ((2 ^ 941 : ℕ) : ℚ) = 2 ^ (941 : ℤ) := by
    rw [Nat.cast_pow]
    exact (zpow_natCast 2 941).symm
  rw [hpow]

theorem maxGb_mul : (maxGb : ℚ) * GIB = maxFloat := by
  have hGIB : (GIB : ℚ) = 2 ^ 30 := by
    unfold GIB
    norm_num
  have hpow : ((2 ^ 941 : ℕ) : ℚ) * 2 ^ 30 = 2 ^ 971 := by
    rw [Nat.cast_pow, Nat.cast_ofNat, ← pow_add]
  unfold maxGb maxFloat
  rw [Nat.cast_mul, hGIB, mul_assoc, hpow]
  norm_num

theorem maxFloat_lt : maxFloat < 2 ^ 1024 := by
  have hsplit : (2 : ℚ) ^ 1024 = 2 ^ 53 * 2 ^ 971 := by rw [← pow_add]
  unfold maxFloat
  rw [hsplit]
  exact mul_lt_mul_of_pos_right (by norm_num) (pow_pos two_pos _)

theorem GIB_pos : (0 : ℚ) < GIB := by
  unfold GIB
  norm_num

theorem maxGb_lt : (maxGb : ℚ) < 2 ^ 1024 := by
  have hone : (1 : ℚ) ≤ GIB := by
    unfold GIB
    norm_num
  calc (maxGb : ℚ) ≤ maxGb * GIB := le_mul_of_one_le_right (Nat.cast_nonneg _) hone
    _ = maxFloat := maxGb_mul
    _ < 2 ^ 1024 := maxFloat_lt

/-- Numbers up to the largest have a float, and tenths of it. -/
theorem ofRat_tenths {t : ℕ} (h : t ≤ 10 * maxGb) :
    ∃ y, PyFloat.ofRat ((t : ℚ) / 10) = .finite y ∧ 0 ≤ y ∧ y ≤ maxGb := by
  refine ofRat_le (by positivity) ?_ maxGb_dyadic maxGb_lt
  rw [div_le_iff₀ (by norm_num), mul_comm]
  exact_mod_cast h

theorem parseSize_decimal {t : ℕ} {y : ℚ} (hy : PyFloat.ofRat ((t : ℚ) / 10) = .finite y)
    (hle : y ≤ maxGb) : parseSize (decimal t ++ "GB") = .ok ⌊y * GIB⌋ := by
  have hlt : y * GIB < 2 ^ 1024 :=
    (mul_le_mul_of_nonneg_right hle GIB_pos.le).trans_lt (maxGb_mul.trans_lt maxFloat_lt)
  have hunit : sizeUnits.find? (fun u => u.1.toList = ['G', 'B'].map Char.toUpper) =
      some ("GB", GIB) := by
    decide
  unfold parseSize
  rw [sizeRe_decimal]
  dsimp only
  rw [hunit]
  dsimp only
  rw [hy]
  exact if_pos hlt

theorem spaceText_eq {t : ℕ} {x : ℚ} (hx : PyFloat.ofRat ((t : ℚ) / 10) = .finite x) :
    spaceText t = .ok (decimal (tenthsOf x) ++ "GB") := by
  have hdiv : trueDiv t 10 = .ok x := by
    unfold trueDiv
    push_cast
    rw [hx]
  unfold spaceText
  rw [hdiv]
  rfl

theorem tenthsOf_mono {x y : ℚ} (h : x ≤ y) : tenthsOf x ≤ tenthsOf y :=
  Int.toNat_le_toNat (roundHalfEven_mono (mul_le_mul_of_nonneg_left h (by norm_num)))

theorem tenthsOf_natCast (n : ℕ) : tenthsOf n = 10 * n := by
  have hcast : (10 : ℚ) * n = ((10 * n : ℕ) : ℤ) := by push_cast; rfl
  unfold tenthsOf
  rw [hcast, roundHalfEven_intCast]
  rfl

theorem sixteenth_le {t : ℕ} {y : ℚ} (hpos : 1 ≤ t)
    (hy : PyFloat.ofRat ((t : ℚ) / 10) = .finite y) :
    1 / 16 ≤ y := by
  have hdyadic : IsDyadic (1 / 16) := ⟨1, -4, by norm_num, by norm_num, by norm_num⟩
  have hlt : (1 / 16 : ℚ) < 2 ^ 1024 :=
    lt_of_lt_of_le (by norm_num : (1 / 16 : ℚ) < 1) (one_le_pow₀ one_le_two)
  refine ofRat_mono (by norm_num) ?_ (ofRat_of_dyadic (by norm_num) hdyadic hlt) hy
  have hcast : (1 : ℚ) ≤ t := by exact_mod_cast hpos
  linarith

theorem ofRat_maxGb {y : ℚ} (hy : PyFloat.ofRat (((10 * maxGb : ℕ) : ℚ) / 10) = .finite y) :
    y = maxGb := by
  have hcast : ((10 * maxGb : ℕ) : ℚ) / 10 = maxGb := by
    rw [Nat.cast_mul, Nat.cast_ofNat]
    exact mul_div_cancel_left₀ _ (by norm_num)
  rw [hcast, ofRat_of_dyadic (Nat.cast_nonneg _) maxGb_dyadic maxGb_lt] at hy
  exact (PyFloat.finite.inj hy).symm

/-- What a round of the loop comes to. -/
theorem space_ok {t : ℕ} (h : t ≤ 10 * maxGb) : ∃ s n, spaceText t = .ok (decimal s ++ "GB") ∧
    parseSize (decimal s ++ "GB") = .ok n ∧ (1 ≤ t → 0 < n) ∧
    (t = 10 * maxGb → n = maxGb * GIB) := by
  obtain ⟨x, hx, -, hle⟩ := ofRat_tenths h
  have hs : tenthsOf x ≤ 10 * maxGb := (tenthsOf_mono hle).trans_eq (tenthsOf_natCast _)
  obtain ⟨y, hy, -, hyle⟩ := ofRat_tenths hs
  refine ⟨tenthsOf x, _, spaceText_eq hx, parseSize_decimal hy hyle, fun hpos => ?_, ?_⟩
  · have hsixteenth : tenthsOf (1 / 16) = 1 := by decide +kernel
    have hspos : 1 ≤ tenthsOf x := hsixteenth ▸ tenthsOf_mono (sixteenth_le hpos hx)
    have hyGB : (1 : ℚ) ≤ y * GIB := by
      have hGIB : (GIB : ℚ) = 2 ^ 30 := by
        unfold GIB
        norm_num
      rw [hGIB]
      linarith [sixteenth_le hspos hy]
    exact Int.le_floor.2 (by exact_mod_cast hyGB)
  · rintro rfl
    obtain rfl := ofRat_maxGb hx
    rw [tenthsOf_natCast] at hy
    obtain rfl := ofRat_maxGb hy
    have hcast : (maxGb : ℚ) * GIB = ((maxGb * GIB : ℤ) : ℚ) := by push_cast; rfl
    rw [hcast, Int.floor_intCast]

/-! ## The loop -/

theorem diskSpaceFrom_ok {total : ℕ} (hmax : (total : ℤ) ≤ maxGb * GIB) :
    ∀ k t, t + k = 10 * maxGb → 1 ≤ t → ∃ rounds s n,
      (∀ fuel, rounds ≤ fuel → diskSpaceFrom total fuel t = .ok (some (decimal s ++ "GB"))) ∧
        parseSize (decimal s ++ "GB") = .ok n ∧ (total : ℤ) ≤ n ∧ 0 < n := by
  intro k
  induction k with
  | zero =>
    intro t ht hpos
    obtain ⟨s, n, htext, hn, hpositive, hlast⟩ := space_ok (t := t) (by omega)
    have hle : (total : ℤ) ≤ n := hmax.trans_eq (hlast (by omega)).symm
    refine ⟨1, s, n, fun fuel hfuel => ?_, hn, hle, hpositive hpos⟩
    obtain ⟨fuel, rfl⟩ := Nat.exists_eq_add_of_le' hfuel
    rw [diskSpaceFrom, htext, Except.ok_bind, hn]
    exact if_neg (not_lt.2 hle)
  | succ k ih =>
    intro t ht hpos
    obtain ⟨s, n, htext, hn, hpositive, -⟩ := space_ok (t := t) (by omega)
    by_cases hle : (total : ℤ) ≤ n
    · refine ⟨1, s, n, fun fuel hfuel => ?_, hn, hle, hpositive hpos⟩
      obtain ⟨fuel, rfl⟩ := Nat.exists_eq_add_of_le' hfuel
      rw [diskSpaceFrom, htext, Except.ok_bind, hn]
      exact if_neg (not_lt.2 hle)
    · obtain ⟨rounds, s', n', hrounds, hrest⟩ := ih (t + 1) (by omega) (by omega)
      refine ⟨rounds + 1, s', n', fun fuel hfuel => ?_, hrest⟩
      obtain ⟨fuel, rfl⟩ := Nat.exists_eq_add_of_le' (le_of_add_le_right hfuel)
      rw [diskSpaceFrom, htext, Except.ok_bind, hn]
      dsimp only
      rw [if_pos (not_le.1 hle)]
      exact hrounds fuel (by omega)

/-- Ten times the largest are rounded down. -/
theorem rounded_tenths : rounded ((10 * maxGb : ℕ) : ℚ) ≤ (10 * maxGb : ℕ) := by decide +kernel

theorem trueDiv_tenths {total : ℕ} (hmax : (total : ℤ) ≤ maxGb * GIB) :
    ∃ q, trueDiv (total * 10) GIB = .ok q ∧ ⌈q⌉.toNat ≤ 10 * maxGb := by
  have hGIB := GIB_pos
  have hle : ((total * 10 : ℤ) : ℚ) / GIB ≤ (10 * maxGb : ℕ) := by
    rw [div_le_iff₀ hGIB]
    have hcast : (total : ℚ) ≤ maxGb * GIB := by exact_mod_cast hmax
    push_cast
    linarith
  have hnonneg : (0 : ℚ) ≤ ((total * 10 : ℤ) : ℚ) / GIB :=
    div_nonneg (Int.cast_nonneg (mul_nonneg (Int.natCast_nonneg _) (by decide))) hGIB.le
  have hrounded := (rounded_mono hnonneg hle).trans rounded_tenths
  have hlt : ((10 * maxGb : ℕ) : ℚ) < 2 ^ 1024 := by
    have hten : (10 : ℚ) ≤ GIB := by
      unfold GIB
      norm_num
    calc ((10 * maxGb : ℕ) : ℚ) = 10 * maxGb := by push_cast; rfl
      _ ≤ GIB * maxGb := mul_le_mul_of_nonneg_right hten (Nat.cast_nonneg _)
      _ = maxFloat := by rw [mul_comm, maxGb_mul]
      _ < 2 ^ 1024 := maxFloat_lt
  refine ⟨rounded (((total * 10 : ℤ) : ℚ) / GIB), ?_, ?_⟩
  · have hpow : (0 : ℚ) < 2 ^ 1024 := pow_pos two_pos _
    have hfinite : PyFloat.ofRat (((total * 10 : ℤ) : ℚ) / GIB) =
        .finite (rounded (((total * 10 : ℤ) : ℚ) / GIB)) := by
      rw [ofRat_eq, if_neg (not_le.2 (hrounded.trans_lt hlt)),
        if_neg (not_le.2 ((neg_lt_zero.2 hpow).trans_le (rounded_nonneg hnonneg)))]
    unfold trueDiv
    rw [hfinite]
  · rw [Int.toNat_le, Int.ceil_le]
    exact_mod_cast hrounded

/-- **The disk space of any total that a float reaches.** -/
theorem diskSpaceFor_ok {total : ℕ} (hmax : (total : ℤ) ≤ maxGb * GIB) : ∃ rounds s n,
    (∀ fuel, rounds ≤ fuel → diskSpaceFor fuel total = .ok (some (decimal s ++ "GB"))) ∧
      parseSize (decimal s ++ "GB") = .ok n ∧ (total : ℤ) ≤ n ∧ 0 < n := by
  obtain ⟨q, hq, hceil⟩ := trueDiv_tenths hmax
  have hpos : 1 ≤ 10 * maxGb := by decide +kernel
  obtain ⟨k, hk⟩ := Nat.exists_eq_add_of_le (max_le hpos hceil)
  obtain ⟨rounds, s, n, hrounds, hrest⟩ := diskSpaceFrom_ok hmax k _ hk.symm (le_max_left _ _)
  refine ⟨rounds, s, n, fun fuel hfuel => ?_, hrest⟩
  unfold diskSpaceFor
  rw [hq, Except.ok_bind]
  exact hrounds fuel hfuel

/-- Every accepted size is one that a float reaches. -/
theorem parseSize_le {text : String} {n : ℤ} (h : parseSize text = .ok n) : n ≤ maxGb * GIB := by
  unfold parseSize at h
  split at h
  · cases h
  · next number unit hre =>
    split at h
    · cases h
    · next name factor hunit =>
      split at h
      · next q hq =>
        split_ifs at h with hlt
        have hnumber : 0 ≤ number := by
          unfold sizeRe at hre
          dsimp only at hre
          split_ifs at hre
          obtain ⟨rfl, -⟩ := Prod.mk.inj (Option.some.inj hre)
          exact div_nonneg (Nat.cast_nonneg _) (pow_nonneg (by norm_num) _)
        have hpow : (factor : ℚ) = 2 ^ factor.log2 := by
          have hunits : ∀ u ∈ sizeUnits, u.2 = 2 ^ u.2.log2 := by decide
          exact_mod_cast hunits _ (List.mem_of_find?_eq_some hunit)
        have hdyadic : IsDyadic (q * factor) := by
          rw [hpow, (rounded_of_ofRat hq).1]
          exact (rounded_dyadic hnumber).mul_two_pow _
        have hle : ((⌊q * factor⌋ : ℤ) : ℚ) ≤ ((maxGb * GIB : ℤ) : ℚ) := by
          refine (Int.floor_le _).trans ((hdyadic.le_maxFloat hlt).trans_eq ?_)
          rw [← maxGb_mul]
          push_cast
          rfl
        rw [← Except.ok.inj h]
        exact Int.cast_le.1 hle
      · cases h

end AgentLab.Config
