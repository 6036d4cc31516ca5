import MiniLisp.Proofs.Number.ReadBack
/-!
# Shown — the number that a text shows

A finite number reads back from how it is shown, and the others are shown by names that no number reads.  There is
one NaN, so numbers are shown alike only if they are the same (`shown_injective`).
-/
namespace MiniLisp.Number

variable {x y : Float}

/-! ## Finite numbers -/

theorem word_shown (h : isFinite x = true) : Word .number (shown x) := by
  rw [shown_of_isFinite h]
  exact word_withSign (decimal x).denotes_positional

/-- A finite number reads back as itself from how it is shown. -/
theorem read?_shown (h : isFinite x = true) : read? (shown x) = some x := by
  rw [shown_of_isFinite h, read?_of_denotes h (decimal x).denotes_positional]

/-! ## Numbers that are not finite -/

/-- A NaN has the one bit pattern that NaN is stored as. -/
theorem toBits_of_isNaN (h : isNaN x = true) :
    x.toBits.toBitVec = Float.Model.UnpackedFloat.packedNaN .binary64 := by
  have hlt : infinityBits < magnitudeBits x := of_decide_eq_true h
  have hsize : x.toBits.toNat < 2 ^ 64 := x.toBits.toNat_lt
  have hbits : x.toBits.toBitVec.toNat = x.toBits.toNat := rfl
  unfold magnitudeBits signBit infinityBits at hlt
  have hexponent : (x.toBits.toBitVec.extractLsb' 52 11).toNat = 2047 := by
    rw [BitVec.extractLsb'_toNat, hbits, Nat.shiftRight_eq_div_pow]
    omega
  have hmantissa : (x.toBits.toBitVec.extractLsb' 0 52).toNat ≠ 0 := by
    rw [BitVec.extractLsb'_toNat, hbits, Nat.shiftRight_eq_div_pow]
    omega
  refine x.toModel.valid.eq_packedNaN ?_ fun hzero => hmantissa ?_
  · rw [Float.Model.UnpackedFloat.unpackExponent_def]
    exact BitVec.eq_of_toNat_eq hexponent
  · rw [Float.Model.UnpackedFloat.unpackMantissa_def] at hzero
    exact congrArg BitVec.toNat hzero

/-- **There is one NaN.** -/
theorem eq_of_isNaN (hx : isNaN x = true) (hy : isNaN y = true) : x = y := by
  rw [← Float.toBits_inj, ← UInt64.toBitVec_inj, toBits_of_isNaN hx, toBits_of_isNaN hy]

theorem read?_withSign_inf (x : Float) : read? (withSign x ['i', 'n', 'f']) = none := by
  unfold withSign
  split <;> decide

/-! ## All numbers -/

/-- **How a number is shown**: by a literal that reads back, as NaN, or as an infinity with its sign. -/
theorem shown_cases (x : Float) : (Word .number (shown x) ∧ read? (shown x) = some x) ∨
    (isNaN x = true ∧ shown x = ['n', 'a', 'n']) ∨
    (magnitudeBits x = infinityBits ∧ shown x = withSign x ['i', 'n', 'f']) := by
  by_cases hnan : isNaN x = true
  · exact .inr (.inl ⟨hnan, by rw [shown, if_pos hnan]⟩)
  by_cases hfinite : isFinite x = true
  · exact .inl ⟨word_shown hfinite, read?_shown hfinite⟩
  · have hle : ¬infinityBits < magnitudeBits x := fun hlt => hnan (decide_eq_true hlt)
    have hge : ¬magnitudeBits x < infinityBits := fun hlt => hfinite (decide_eq_true hlt)
    exact .inr (.inr ⟨by omega, by rw [shown, if_neg hnan, if_neg hfinite]⟩)

/-- A character that no word has is in no number either. -/
theorem not_mem_shown {c : Char} (hc : (!isIdentChar c && !isOperatorChar c && !c.isDigit && c != '.') = true)
    (x : Float) : c ∉ shown x := by
  have hnan : Word .ident ['n', 'a', 'n'] := .of_letters (by decide)
  have hinf : Word .ident ['i', 'n', 'f'] := .of_letters (by decide)
  have hminus : c ≠ '-' := by
    rintro rfl
    exact absurd hc (by decide)
  rcases shown_cases x with ⟨hword, -⟩ | ⟨-, hx⟩ | ⟨-, hx⟩
  · exact hword.not_mem hc
  · rw [hx]
    exact hnan.not_mem hc
  · rw [hx]
    unfold withSign
    split
    · exact List.not_mem_cons_of_ne_of_not_mem hminus (hinf.not_mem hc)
    · exact hinf.not_mem hc

/-- A text that reads as no number, and is no name of one, shows none. -/
theorem shown_ne {cs : List Char} (x : Float) (hread : read? cs = none) (hnan : cs ≠ ['n', 'a', 'n'])
    (hinf : ∀ y, cs ≠ withSign y ['i', 'n', 'f']) : shown x ≠ cs := by
  rintro rfl
  rcases shown_cases x with ⟨-, hx⟩ | ⟨-, hx⟩ | ⟨-, hx⟩
  · rw [hread] at hx
    cases hx
  · exact hnan hx
  · exact hinf x hx

theorem ne_withSign_inf {cs : List Char} (h : cs.getLast? ≠ some 'f') (y : Float) :
    cs ≠ withSign y ['i', 'n', 'f'] := by
  rintro rfl
  refine h ?_
  unfold withSign
  split <;> rfl

/-- **Numbers are shown differently if they are different**, 0 and -0 among them. -/
theorem shown_injective : Function.Injective shown := by
  intro x y h
  -- A number that reads back is told from the others by what its text reads as.
  have hread : ∀ {x y : Float}, read? (shown x) = some x → shown x = shown y → x = y := by
    intro x y hx h
    rcases shown_cases y with ⟨-, hy⟩ | ⟨-, hy⟩ | ⟨-, hy⟩
    · rw [h, hy] at hx
      exact (Option.some.inj hx).symm
    · rw [h, hy] at hx
      cases hx
    · rw [h, hy, read?_withSign_inf] at hx
      cases hx
  have hname : ∀ y, ['n', 'a', 'n'] ≠ withSign y ['i', 'n', 'f'] := ne_withSign_inf (by decide)
  rcases shown_cases x with ⟨-, hx⟩ | ⟨hx, hx'⟩ | ⟨hx, hx'⟩
  · exact hread hx h
  · rcases shown_cases y with ⟨-, hy⟩ | ⟨hy, -⟩ | ⟨-, hy'⟩
    · exact (hread hy h.symm).symm
    · exact eq_of_isNaN hx hy
    · exact absurd (hx' ▸ hy' ▸ h) (hname y)
  · rcases shown_cases y with ⟨-, hy⟩ | ⟨-, hy'⟩ | ⟨hy, hy'⟩
    · exact (hread hy h.symm).symm
    · exact absurd (hx' ▸ hy' ▸ h).symm (hname x)
    · have hsign : isNegative x = isNegative y := by
        rw [hx', hy'] at h
        cases hnx : isNegative x <;> cases hny : isNegative y <;> simp [withSign, hnx, hny] at h ⊢
      rw [← ofBits_magnitudeBits x, ← ofBits_magnitudeBits y, hx, hy, hsign]

end MiniLisp.Number
