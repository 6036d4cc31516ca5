import Mathlib
import MiniLisp.Number.Decimal
/-!
# Nearest — rounding to a pattern

What a fraction is rounded to depends on its value only, not on how it is written (`nearest_congr`), and the exact
magnitude of a finite pattern is rounded to the pattern (`nearest_magnitude`).  So the shortest decimal of a pattern
reads back as the pattern, whether it was found among the short ones or is the exact expansion (`nearest_shortest`).
-/
namespace MiniLisp.Number

/-! ## Fractions -/

theorem roundHalfEven_mul_right (num den : Nat) {k : Nat} (hk : 0 < k) :
    roundHalfEven (num * k) (den * k) = roundHalfEven num den := by
  have hmod : 2 * (num * k % (den * k)) = 2 * (num % den) * k := by
    rw [Nat.mul_mod_mul_right, Nat.mul_assoc]
  unfold roundHalfEven
  rw [Nat.mul_div_mul_right _ _ hk, hmod]
  simp only [Nat.mul_lt_mul_right hk]

theorem nearest_of_shift {num den shift : Nat} (h : (num / den).log2 - 52 = shift) :
    nearest num den = min (shift * 2 ^ 52 + roundHalfEven num (den * 2 ^ shift)) infinityBits := by
  rw [← h]
  rfl

theorem nearest_mul_right (num den : Nat) {k : Nat} (hk : 0 < k) : nearest (num * k) (den * k) = nearest num den := by
  rw [nearest_of_shift rfl, nearest_of_shift rfl, Nat.mul_div_mul_right _ _ hk, Nat.mul_right_comm den k,
    roundHalfEven_mul_right _ _ hk]

/-- **Equal fractions are rounded to the same pattern.** -/
theorem nearest_congr {num den num' den' : Nat} (hd : 0 < den) (hd' : 0 < den') (h : num * den' = num' * den) :
    nearest num den = nearest num' den' :=
  calc nearest num den
    _ = nearest (num * den') (den * den') := (nearest_mul_right num den hd').symm
    _ = nearest (num' * den) (den' * den) := by rw [h, Nat.mul_comm den den']
    _ = nearest num' den' := nearest_mul_right num' den' hd

/-! ## Magnitudes -/

theorem roundHalfEven_exact (n : Nat) {d : Nat} (hd : 0 < d) : roundHalfEven (n * d) d = n := by
  unfold roundHalfEven
  rw [Nat.mul_mod_left, Nat.mul_div_cancel _ hd]
  simp [hd]

/-- A pattern below 2⁵² is its magnitude, and all its bits are in place. -/
theorem nearest_magnitude_low {bits : Nat} (h : bits < 2 ^ 52) : nearest (magnitude bits) 1 = bits := by
  have hlog : bits.log2 - 52 = 0 := by
    by_cases h0 : bits = 0
    · simp [h0]
    · have := (Nat.log2_lt h0).2 h
      omega
  have hround := roundHalfEven_exact bits (show 0 < 1 by decide)
  rw [Nat.mul_one] at hround
  rw [magnitude, if_pos h, nearest_of_shift (by rw [Nat.div_one, hlog]), Nat.pow_zero, Nat.mul_one, hround,
    Nat.zero_mul, Nat.zero_add]
  unfold infinityBits
  omega

/-- Above, the leading 1 stands as many places higher as the magnitude was shifted. -/
theorem nearest_magnitude_high {bits : Nat} (h : 2 ^ 52 ≤ bits) (hfin : bits < infinityBits) :
    nearest (magnitude bits) 1 = bits := by
  have hmod : bits % 2 ^ 52 < 2 ^ 52 := Nat.mod_lt _ (by decide)
  have hdiv : 1 ≤ bits / 2 ^ 52 := (Nat.one_le_div_iff (by decide)).2 h
  have hsplit := Nat.div_add_mod bits (2 ^ 52)
  have hlog : ((2 ^ 52 + bits % 2 ^ 52) * 2 ^ (bits / 2 ^ 52 - 1)).log2 = 52 + (bits / 2 ^ 52 - 1) := by
    have hpos : 0 < 2 ^ (bits / 2 ^ 52 - 1) := Nat.two_pow_pos _
    refine (Nat.log2_eq_iff (Nat.mul_pos (by omega) hpos).ne').2 ⟨?_, ?_⟩
    · rw [Nat.pow_add]
      exact Nat.mul_le_mul_right _ (Nat.le_add_right _ _)
    · rw [Nat.add_right_comm, Nat.pow_add]
      exact Nat.mul_lt_mul_of_pos_right (by omega) hpos
  rw [magnitude, if_neg (Nat.not_lt.2 h), nearest_of_shift (by rw [Nat.div_one, hlog, Nat.add_sub_cancel_left]),
    Nat.one_mul, roundHalfEven_exact _ (Nat.two_pow_pos _)]
  omega

/-- **The exact magnitude of a finite pattern is rounded to the pattern.** -/
theorem nearest_magnitude {bits : Nat} (h : bits < infinityBits) : nearest (magnitude bits) 1 = bits := by
  by_cases hlow : bits < 2 ^ 52
  · exact nearest_magnitude_low hlow
  · exact nearest_magnitude_high (Nat.not_lt.1 hlow) h

/-! ## Decimals -/

namespace Decimal

/-- **The number that a decimal stands for**, exactly. -/
def value (d : Decimal) : ℚ := d.coefficient * 10 ^ d.exponent

theorem fraction_pos : ∀ d : Decimal, 0 < d.fraction.2
  | ⟨_, .ofNat _⟩ => Nat.one_pos
  | ⟨_, .negSucc _⟩ => Nat.pow_pos (by decide)

/-- The fraction of a decimal is its value in units. -/
theorem fraction_eq : ∀ d : Decimal, (d.fraction.1 : ℚ) = d.value * unitsPerOne * d.fraction.2
  | ⟨c, .ofNat k⟩ => by
    have hpow : (10 : ℚ) ^ (Int.ofNat k) = 10 ^ k := zpow_natCast 10 k
    simp only [fraction, value, hpow]
    push_cast
    ring
  | ⟨c, .negSucc k⟩ => by
    have hpow : (10 : ℚ) ^ (Int.negSucc k) * 10 ^ (k + 1) = 1 := by
      rw [zpow_negSucc]
      exact inv_mul_cancel₀ (by positivity)
    simp only [fraction, value]
    push_cast
    rw [mul_right_comm, mul_assoc (c : ℚ), hpow, mul_one]

/-- **Decimals of one value are rounded to one pattern.** -/
theorem nearest_of_value {d d' : Decimal} (h : d.value = d'.value) : d.nearest = d'.nearest := by
  have hcross : (d.fraction.1 * d'.fraction.2 : ℚ) = d'.fraction.1 * d.fraction.2 := by
    rw [fraction_eq d, fraction_eq d', h]
    ring
  exact nearest_congr d.fraction_pos d'.fraction_pos (by exact_mod_cast hcross)

/-- A power of ten may stand in the coefficient or in the exponent. -/
theorem value_mul_pow (c : Nat) (e : Int) (k : Nat) : value ⟨c * 10 ^ k, e⟩ = value ⟨c, e + k⟩ := by
  simp only [value]
  rw [zpow_add₀ (by norm_num), zpow_natCast]
  push_cast
  ring

/-! ### Zeros at the end -/

/-- How many zeros a number ends in. -/
def zerosAtEnd (n : Nat) : Nat := ((Nat.toDigits 10 n).reverse.takeWhile (· == '0')).length

theorem toDigits_zerosAtEnd (n : Nat) : Nat.toDigits 10 n =
    ((Nat.toDigits 10 n).reverse.dropWhile (· == '0')).reverse ++ List.replicate (zerosAtEnd n) '0' := by
  have hzeros : (Nat.toDigits 10 n).reverse.takeWhile (· == '0') = List.replicate (zerosAtEnd n) '0' := by
    refine List.eq_replicate_of_mem fun c hc => ?_
    simpa using List.mem_takeWhile_imp hc
  have hsplit := List.takeWhile_append_dropWhile (p := (· == '0')) (l := (Nat.toDigits 10 n).reverse)
  rw [hzeros] at hsplit
  rw [← List.reverse_inj, List.reverse_append, List.reverse_reverse, List.reverse_replicate, hsplit]

/-- The last digit of a number is its remainder. -/
theorem ofDigitChars_concat_mod {ds : List Char} {c : Char} (hc : c.isDigit = true) (h0 : c ≠ '0') :
    Nat.ofDigitChars 10 (ds ++ [c]) 0 % 10 ≠ 0 := by
  rw [Nat.ofDigitChars_append, Nat.ofDigitChars_cons, Nat.ofDigitChars_nil]
  have hlow : 48 ≤ c.toNat ∧ c.toNat ≤ 57 := by simpa [Char.isDigit, UInt32.le_iff_toNat_le] using hc
  have hne : c.toNat ≠ 48 := fun h => h0 (Char.toNat_inj.1 h)
  have hzero : '0'.toNat = 48 := rfl
  omega

/-- **A number is its significant digits**, the last of which is not zero, and a power of ten. -/
theorem exists_significant {n : Nat} (h : n ≠ 0) : ∃ m, n = m * 10 ^ zerosAtEnd n ∧ m % 10 ≠ 0 := by
  have hdigits := toDigits_zerosAtEnd n
  have hn : n = Nat.ofDigitChars 10 ((Nat.toDigits 10 n).reverse.dropWhile (· == '0')).reverse 0 * 10 ^ zerosAtEnd n :=
    calc n
      _ = Nat.ofDigitChars 10 (Nat.toDigits 10 n) 0 := Nat.ofDigitChars_ten_toDigits.symm
      _ = _ := by rw [hdigits, Nat.ofDigitChars_append, Nat.ofDigitChars_replicate_zero, ← hdigits, Nat.mul_comm]
  refine ⟨_, hn, ?_⟩
  cases hlast : (Nat.toDigits 10 n).reverse.dropWhile (· == '0') with
  | nil =>
    rw [hlast, List.reverse_nil, Nat.ofDigitChars_nil, Nat.zero_mul] at hn
    exact absurd hn h
  | cons c cs =>
    have hmem : c ∈ (Nat.toDigits 10 n).reverse :=
      (List.dropWhile_sublist (· == '0')).mem (by rw [hlast]; exact List.mem_cons_self)
    have hdigit : c.isDigit = true := Nat.isDigit_of_mem_toDigits (by decide) (by decide) (List.mem_reverse.1 hmem)
    have hne : (c == '0') = false := by
      simpa [hlast] using List.head?_dropWhile_not (· == '0') (Nat.toDigits 10 n).reverse
    rw [List.reverse_cons]
    exact ofDigitChars_concat_mod hdigit (by simpa using hne)

/-- A decimal without a zero at the end, or zero itself. -/
def Trimmed (d : Decimal) : Prop := d = ⟨0, 0⟩ ∨ d.coefficient % 10 ≠ 0

theorem trim_cases (d : Decimal) : d.coefficient = 0 ∧ d.trim = ⟨0, 0⟩ ∨
    ∃ m, d = ⟨m * 10 ^ zerosAtEnd d.coefficient, d.exponent⟩ ∧ m % 10 ≠ 0 ∧
      d.trim = ⟨m, d.exponent + zerosAtEnd d.coefficient⟩ := by
  by_cases h : d.coefficient = 0
  · exact .inl ⟨h, if_pos h⟩
  · obtain ⟨m, hm, hmod⟩ := exists_significant h
    refine .inr ⟨m, by rw [← hm], hmod, ?_⟩
    have hdiv : d.coefficient / 10 ^ zerosAtEnd d.coefficient = m := by
      rw [Nat.div_eq_iff_eq_mul_left (Nat.pow_pos (by decide)) ⟨m, by rw [Nat.mul_comm, ← hm]⟩]
      exact hm
    rw [← hdiv]
    exact if_neg h

theorem trimmed_trim (d : Decimal) : Trimmed d.trim := by
  obtain ⟨-, h⟩ | ⟨m, -, hm, h⟩ := d.trim_cases
  · exact .inl h
  · rw [h]
    exact .inr hm

/-- **Zeros at the end play no part.** -/
theorem value_trim (d : Decimal) : d.trim.value = d.value := by
  obtain ⟨hc, h⟩ | ⟨m, hd, -, h⟩ := d.trim_cases
  · rw [h]
    simp [value, hc]
  · rw [h, hd, value_mul_pow, ← hd]

/-! ### The shortest decimal -/

theorem nearest_five_pow (units k : Nat) :
    Number.nearest (units * 5 ^ k * 2 ^ k) (10 ^ k) = Number.nearest units 1 := by
  refine nearest_congr (Nat.pow_pos (by decide)) (by decide) ?_
  rw [Nat.mul_one, Nat.mul_assoc, ← Nat.mul_pow]

theorem nearest_exact (units : Nat) : (exact units).nearest = Number.nearest units 1 :=
  nearest_five_pow units 1074

/-- What the shortest decimal is: a hit among the short ones, or the exact expansion. -/
theorem shortest_cases (bits : Nat) : (∃ d : Decimal, shortest bits = d.trim) ∧
    ((shortest bits).nearest = bits ∨ shortest bits = (exact (magnitude bits)).trim) := by
  unfold shortest
  simp only
  generalize hfound : (List.range 17).findSome? _ = found
  cases found with
  | none =>
    rw [Option.getD_none]
    exact ⟨⟨exact (magnitude bits), rfl⟩, .inr rfl⟩
  | some d =>
    obtain ⟨below, -, hd⟩ := List.exists_of_findSome?_eq_some hfound
    obtain ⟨d', -, hd'⟩ := List.mem_map.1 (List.mem_of_find?_eq_some hd)
    exact ⟨⟨d', hd'.symm⟩, .inl (by simpa using List.find?_some hd)⟩

theorem trimmed_shortest (bits : Nat) : Trimmed (shortest bits) := by
  obtain ⟨d, hd⟩ := (shortest_cases bits).1
  rw [hd]
  exact d.trimmed_trim

/-- **The shortest decimal of a finite pattern reads back as the pattern.** -/
theorem nearest_shortest {bits : Nat} (h : bits < infinityBits) : (shortest bits).nearest = bits := by
  rcases (shortest_cases bits).2 with hs | hs
  · exact hs
  · rw [hs, nearest_of_value (value_trim _), nearest_exact, nearest_magnitude h]

end Decimal

end MiniLisp.Number
