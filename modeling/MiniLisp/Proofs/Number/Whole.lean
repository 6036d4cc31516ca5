import MiniLisp.Proofs.Number.Nearest
/-!
# Whole — natural numbers as numbers

A natural number becomes the number that has its value, where there is one (`counts_ofNat`).  Up to 2⁵³ there is: in
base 2 these have no more digits than a pattern has room for (`exists_digits`).
-/
namespace MiniLisp.Number

/-- **A number that is `n`**, exactly: zero, or 53 digits in base 2, the first of which is 1, that come to `n` where
they are shifted to.  The places begin at 2⁻¹⁰⁷⁴. -/
inductive IsNat (x : Float) : Nat → Prop
  | zero : x.toBits.toNat = 0 → IsNat x 0
  | shifted {n digits shift : Nat} : 2 ^ 52 ≤ digits → digits < 2 ^ 53 → shift < 2046 →
      digits * 2 ^ shift = n * 2 ^ 1074 → x.toBits.toNat = shift * 2 ^ 52 + digits → IsNat x n

/-- **A number that `n` things are counted with**: the only one that is `n`, if any is; and up to 2⁵³ it is. -/
structure Counts (x : Float) (n : Nat) : Prop where
  unique : ∀ y, IsNat y n → y = x
  isNat : n ≤ 2 ^ 53 → IsNat x n

/-! ## Patterns -/

/-- The field above the low 52 bits of a finite pattern is not that of an infinity or a NaN. -/
theorem toBits_ofBits {bits : UInt64} (h : bits.toNat < infinityBits) : (Float.ofBits bits).toBits = bits := by
  have hvalid : Float.Model.Format.binary64.Valid bits.toBitVec := by
    refine ⟨fun hones => ?_⟩
    rw [Float.Model.UnpackedFloat.unpackExponent_def] at hones
    have hfield : (bits.toBitVec.extractLsb' 52 11).toNat = 2047 := congrArg BitVec.toNat hones
    have hbits : bits.toBitVec.toNat = bits.toNat := rfl
    unfold infinityBits at h
    rw [BitVec.extractLsb'_toNat, hbits, Nat.shiftRight_eq_div_pow] at hfield
    omega
  exact congrArg Float.toBits (Float.ofBits_toBits ⟨⟨bits, hvalid⟩⟩)

theorem toNat_toBits_ofBits {bits : Nat} (h : bits < infinityBits) : (ofBits false bits).toBits.toNat = bits := by
  have hword : (UInt64.ofNat bits).toNat = bits := by
    unfold infinityBits at h
    exact UInt64.toNat_ofNat_of_lt' (by simp only [UInt64.size]; omega)
  have hbits : ofBits false bits = Float.ofBits (UInt64.ofNat bits) := rfl
  rw [hbits, toBits_ofBits (by rwa [hword]), hword]

theorem ofBits_toNat_toBits (x : Float) : ofBits false x.toBits.toNat = x := by
  have hbits : ofBits false x.toBits.toNat = Float.ofBits (UInt64.ofNat x.toBits.toNat) := rfl
  rw [hbits, UInt64.ofNat_toNat, Float.ofBits_toBits]

theorem shifted_lt {digits shift : Nat} (hdigits : digits < 2 ^ 53) (hshift : shift < 2046) :
    shift * 2 ^ 52 + digits < infinityBits := by
  unfold infinityBits
  omega

theorem magnitude_shifted {digits : Nat} (hlow : 2 ^ 52 ≤ digits) (hhigh : digits < 2 ^ 53) (shift : Nat) :
    magnitude (shift * 2 ^ 52 + digits) = digits * 2 ^ shift := by
  have hdiv : (shift * 2 ^ 52 + digits) / 2 ^ 52 - 1 = shift := by omega
  have hmod : 2 ^ 52 + (shift * 2 ^ 52 + digits) % 2 ^ 52 = digits := by omega
  rw [magnitude, if_neg (by omega), hdiv, hmod]

/-- **A natural number up to 2⁵³ has 53 digits in base 2**, the first of which is 1, in some places. -/
theorem exists_digits {n : Nat} (hpos : 0 < n) (h : n ≤ 2 ^ 53) : ∃ digits shift : Nat,
    2 ^ 52 ≤ digits ∧ digits < 2 ^ 53 ∧ shift < 2046 ∧ digits * 2 ^ shift = n * 2 ^ 1074 := by
  rcases Nat.eq_or_lt_of_le h with rfl | hlt
  · have hcarry : ∀ shift : Nat, 2 ^ 52 * 2 ^ (shift + 1) = 2 ^ 53 * 2 ^ shift := fun shift => by
      rw [Nat.pow_succ]
      omega
    refine ⟨2 ^ 52, 1075, by decide, by decide, by decide, ?_⟩
    rw [hcarry]
  -- The first digit of `n` is moved to the place of 2⁵².
  obtain ⟨gap, hgap⟩ : ∃ gap, n.log2 + gap = 52 := by
    have hlog : n.log2 < 53 := (Nat.log2_lt hpos.ne').2 hlt
    exact ⟨52 - n.log2, by omega⟩
  have hlow : 2 ^ 52 ≤ n * 2 ^ gap :=
    calc 2 ^ 52
      _ = 2 ^ n.log2 * 2 ^ gap := by rw [← Nat.pow_add, hgap]
      _ ≤ n * 2 ^ gap := Nat.mul_le_mul_right _ (Nat.log2_self_le hpos.ne')
  have hhigh : n * 2 ^ gap < 2 ^ 53 :=
    calc n * 2 ^ gap
      _ < 2 ^ (n.log2 + 1) * 2 ^ gap := Nat.mul_lt_mul_of_pos_right Nat.lt_log2_self (Nat.two_pow_pos gap)
      _ = 2 ^ 53 := by rw [← Nat.pow_add, Nat.add_right_comm, hgap]
  have hshift : gap + (n.log2 + 1022) = 1074 := by omega
  refine ⟨n * 2 ^ gap, n.log2 + 1022, hlow, hhigh, by omega, ?_⟩
  rw [Nat.mul_assoc, ← hshift, Nat.pow_add 2 gap]

/-! ## Counting -/

theorem ofNat_of_magnitude {bits n : Nat} (hfinite : bits < infinityBits) (h : magnitude bits = n * unitsPerOne) :
    ofNat n = ofBits false bits := by
  rw [ofNat, ← h, nearest_magnitude hfinite]

theorem ofNat_zero : ofNat 0 = ofBits false 0 := ofNat_of_magnitude (by decide) (Nat.zero_mul _).symm

theorem ofNat_of_shifted {n digits shift : Nat} (hlow : 2 ^ 52 ≤ digits) (hhigh : digits < 2 ^ 53)
    (hshift : shift < 2046) (h : digits * 2 ^ shift = n * 2 ^ 1074) :
    ofNat n = ofBits false (shift * 2 ^ 52 + digits) :=
  ofNat_of_magnitude (shifted_lt hhigh hshift) (by rw [magnitude_shifted hlow hhigh, h, unitsPerOne])

theorem IsNat.eq_ofNat {x : Float} {n : Nat} (h : IsNat x n) : x = ofNat n := by
  cases h with
  | zero hbits => rw [ofNat_zero, ← hbits, ofBits_toNat_toBits]
  | shifted hlow hhigh hshift hn hbits => rw [ofNat_of_shifted hlow hhigh hshift hn, ← hbits, ofBits_toNat_toBits]

theorem isNat_ofNat {n : Nat} (h : n ≤ 2 ^ 53) : IsNat (ofNat n) n := by
  rcases Nat.eq_zero_or_pos n with rfl | hpos
  · rw [ofNat_zero]
    exact .zero (toNat_toBits_ofBits (by decide))
  · obtain ⟨digits, shift, hlow, hhigh, hshift, hn⟩ := exists_digits hpos h
    rw [ofNat_of_shifted hlow hhigh hshift hn]
    exact .shifted hlow hhigh hshift hn (toNat_toBits_ofBits (shifted_lt hhigh hshift))

/-- **A natural number becomes the number that it is.** -/
theorem counts_ofNat (n : Nat) : Counts (ofNat n) n := ⟨fun _ => IsNat.eq_ofNat, isNat_ofNat⟩

end MiniLisp.Number
