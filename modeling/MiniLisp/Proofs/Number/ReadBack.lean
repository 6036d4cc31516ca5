import MiniLisp.Number.Text
import MiniLisp.Proofs.Number.Nearest
import MiniLisp.Proofs.Token.Word
/-!
# ReadBack — the text of a number

The text of a finite number in code is a number literal, and reads back as the number, down to the sign of zero
(`read?_code`).
-/
namespace MiniLisp.Number

/-! ## Unsigned texts -/

namespace Decimal

theorem digits_digits (d : Decimal) : Digits d.digits :=
  ⟨Nat.toDigits_ne_nil, fun _ hc => Nat.isDigit_of_mem_toDigits (by decide) (by decide) hc⟩

theorem read?_whole {ds : List Char} (h : Digits ds) : read? ds = some (ofDigits ds []) := by
  obtain ⟨ht, hd⟩ := takeWhile_run h.2 (show ∀ c ∈ [].head?, Char.isDigit c = false from nofun)
  rw [List.append_nil] at ht hd
  simp [read?, ht, hd, h.1]

theorem read?_fractional {ds fs : List Char} (h : Digits ds) (hf : Digits fs) :
    read? (ds ++ '.' :: fs) = some (ofDigits ds fs) := by
  obtain ⟨ht, hd⟩ := takeWhile_run h.2 (show ∀ c ∈ ('.' :: fs).head?, c.isDigit = false by simp)
  simpa [read?, ht, hd, h.1, hf.1] using hf.2

theorem digits_zero : Digits ['0'] := ⟨List.cons_ne_nil _ _, by simp⟩

/-- Digits with zeros in front of them. -/
theorem digits_padded (zeros n : Nat) : Digits (List.replicate zeros '0' ++ Nat.toDigits 10 n) ∧
    Nat.ofDigitChars 10 (List.replicate zeros '0' ++ Nat.toDigits 10 n) 0 = n := by
  refine ⟨⟨fun h => Nat.toDigits_ne_nil (List.append_eq_nil_iff.1 h).2, fun c hc => ?_⟩, ?_⟩
  · rcases List.mem_append.1 hc with hc | hc
    · rw [List.eq_of_mem_replicate hc]
      decide
    · exact Nat.isDigit_of_mem_toDigits (by decide) (by decide) hc
  · rw [Nat.ofDigitChars_append, Nat.ofDigitChars_replicate_zero, Nat.mul_zero, Nat.ofDigitChars_ten_toDigits]

/-- **A text without a point** has the digits of the coefficient and a zero for each power of ten. -/
theorem positional_whole {d : Decimal} {k : Nat} (h : d.exponent = .ofNat k) :
    Digits d.positional ∧ Nat.ofDigitChars 10 d.positional 0 = d.coefficient * 10 ^ k := by
  have hp : d.positional = d.digits ++ List.replicate k '0' := by rw [positional, h]
  obtain ⟨hne, hdigit⟩ := d.digits_digits
  rw [hp]
  refine ⟨⟨by simp [hne], fun c hc => ?_⟩, ?_⟩
  · rcases List.mem_append.1 hc with hc | hc
    · exact hdigit c hc
    · rw [List.eq_of_mem_replicate hc]
      decide
  · rw [Nat.ofDigitChars_append, Nat.ofDigitChars_replicate_zero, digits, Nat.ofDigitChars_ten_toDigits,
      Nat.mul_comm]

/-- **A text with a point** has the digits of the coefficient, and zeros in front of them if there are too few. -/
theorem positional_fractional {d : Decimal} {k : Nat} (h : d.exponent = .negSucc k) :
    ∃ ds fs, d.positional = ds ++ '.' :: fs ∧ Digits ds ∧ Digits fs ∧ ofDigits ds fs = d := by
  obtain ⟨⟨-, hmem⟩, hvalue⟩ := digits_padded (k + 2 - d.digits.length) d.coefficient
  have hlength : k + 2 ≤ (List.replicate (k + 2 - d.digits.length) '0' ++ d.digits).length := by
    rw [List.length_append, List.length_replicate]
    omega
  have hp : d.positional =
      (List.replicate (k + 2 - d.digits.length) '0' ++ d.digits).take
        ((List.replicate (k + 2 - d.digits.length) '0' ++ d.digits).length - (k + 1)) ++
      '.' :: (List.replicate (k + 2 - d.digits.length) '0' ++ d.digits).drop
        ((List.replicate (k + 2 - d.digits.length) '0' ++ d.digits).length - (k + 1)) := by
    rw [positional, h]
  rw [← digits] at hmem hvalue
  generalize List.replicate (k + 2 - d.digits.length) '0' ++ d.digits = padded at *
  refine ⟨_, _, hp, ⟨?_, fun c hc => hmem c (List.mem_of_mem_take hc)⟩,
    ⟨?_, fun c hc => hmem c (List.mem_of_mem_drop hc)⟩, ?_⟩
  · rw [← List.length_pos_iff, List.length_take]
    omega
  · rw [← List.length_pos_iff, List.length_drop]
    omega
  · obtain ⟨c, e⟩ := d
    obtain rfl : e = .negSucc k := h
    have hsize : padded.length - (padded.length - (k + 1)) = k + 1 := by omega
    rw [ofDigits, List.take_append_drop, hvalue, List.length_drop, hsize]
    rfl

/-- The final `.0` plays no part. -/
theorem value_ofDigits_whole {d : Decimal} {k : Nat} (h : d.exponent = .ofNat k) (zeros : Nat) :
    (ofDigits d.positional (List.replicate zeros '0')).value = d.value := by
  obtain ⟨c, e⟩ := d
  obtain rfl : e = .ofNat k := h
  have hvalue : Nat.ofDigitChars 10 (positional ⟨c, .ofNat k⟩ ++ List.replicate zeros '0') 0 = c * 10 ^ (k + zeros) := by
    rw [Nat.ofDigitChars_append, (positional_whole rfl).2, Nat.ofDigitChars_replicate_zero]
    ring
  have hexponent : -(zeros : Int) + ((k + zeros : Nat) : Int) = .ofNat k := by
    rw [Int.ofNat_eq_natCast]
    omega
  rw [ofDigits, hvalue, List.length_replicate, value_mul_pow, hexponent]

/-- A text is an unsigned number literal that stands for the number `v`. -/
structure Denotes (text : List Char) (v : ℚ) : Prop where
  word : ∀ s, Sign s → Word .number (s ++ text)
  read : ∃ d, read? text = some d ∧ d.value = v

/-- **The positional text of a decimal stands for the decimal.** -/
theorem denotes_positional (d : Decimal) : Denotes d.positional d.value := by
  cases he : d.exponent with
  | ofNat k =>
    obtain ⟨hdigits, -⟩ := positional_whole he
    exact ⟨fun s hs => .whole hs hdigits, _, read?_whole hdigits, value_ofDigits_whole he 0⟩
  | negSucc k =>
    obtain ⟨ds, fs, hpos, hds, hfs, hd⟩ := positional_fractional he
    refine ⟨fun s hs => ?_, ofDigits ds fs, ?_, by rw [hd]⟩
    · rw [hpos, ← List.append_assoc]
      exact .fractional hs hds hfs
    · rw [hpos]
      exact read?_fractional hds hfs

/-- So does the text of a whole number with a final `.0`. -/
theorem denotes_pointed {d : Decimal} (h : 0 ≤ d.exponent) : Denotes (d.positional ++ ['.', '0']) d.value := by
  obtain ⟨k, he⟩ := Int.eq_ofNat_of_zero_le h
  obtain ⟨hdigits, -⟩ := positional_whole he
  refine ⟨fun s hs => ?_, _, read?_fractional hdigits digits_zero, value_ofDigits_whole he 1⟩
  rw [← List.append_assoc]
  exact .fractional hs hdigits digits_zero

end Decimal

/-! ## Numbers -/

variable {x : Float}

theorem ofBits_magnitudeBits (x : Float) : ofBits (isNegative x) (magnitudeBits x) = x := by
  have hbits : (if isNegative x then signBit + magnitudeBits x else magnitudeBits x) = x.toBits.toNat := by
    have hlt : x.toBits.toNat < 2 ^ 64 := x.toBits.toNat_lt
    unfold isNegative magnitudeBits signBit
    by_cases h : 2 ^ 63 ≤ x.toBits.toNat
    · simp only [h, decide_true, if_true]
      omega
    · simp only [h, decide_false, Bool.false_eq_true, if_false]
      omega
  rw [ofBits, hbits, UInt64.ofNat_toNat, Float.ofBits_toBits]

theorem read?_withSign {text : List Char} {d : Decimal} (h : Decimal.read? text = some d) :
    read? (withSign x text) = some (ofBits (isNegative x) d.nearest) := by
  unfold withSign
  by_cases hn : isNegative x = true
  · rw [if_pos hn, read?, h, hn]
    rfl
  · rw [if_neg hn]
    unfold read?
    split
    · cases h
    · rw [h, Bool.not_eq_true _ |>.mp hn]
      rfl

theorem shown_of_isFinite (h : isFinite x = true) : shown x = withSign x (decimal x).positional := by
  have hn : isNaN x = false := by
    have hlt : magnitudeBits x < infinityBits := of_decide_eq_true h
    exact decide_eq_false (Nat.lt_asymm hlt)
  rw [shown, hn, h, if_neg Bool.false_ne_true, if_pos rfl]

theorem withSign_append (x : Float) (text rest : List Char) : withSign x text ++ rest = withSign x (text ++ rest) := by
  unfold withSign
  split <;> rfl

theorem withSign_eq (x : Float) (text : List Char) : ∃ s, Sign s ∧ withSign x text = s ++ text := by
  unfold withSign
  by_cases hn : isNegative x = true
  · exact ⟨['-'], .inr rfl, by rw [if_pos hn]; rfl⟩
  · exact ⟨[], .inl rfl, by rw [if_neg hn]; rfl⟩

theorem exponent_of_hasPoint (h : hasPoint x = true) : 0 ≤ (decimal x).exponent := by
  unfold hasPoint at h
  simp only [Bool.and_eq_true, decide_eq_true_eq] at h
  exact h.1.2

/-- **The text of a finite number in code** stands for its decimal, with the sign in front. -/
theorem exists_text (h : isFinite x = true) :
    ∃ text, code x = withSign x text ∧ Decimal.Denotes text (decimal x).value := by
  unfold code
  rw [shown_of_isFinite h]
  by_cases hp : hasPoint x = true
  · rw [if_pos hp, withSign_append]
    exact ⟨_, rfl, Decimal.denotes_pointed (exponent_of_hasPoint hp)⟩
  · rw [if_neg hp]
    exact ⟨_, rfl, (decimal x).denotes_positional⟩

theorem word_withSign {text : List Char} {v : ℚ} (h : Decimal.Denotes text v) : Word .number (withSign x text) := by
  obtain ⟨s, hs, he⟩ := withSign_eq x text
  rw [he]
  exact h.word s hs

theorem nearest_decimal (h : isFinite x = true) : (decimal x).nearest = magnitudeBits x :=
  Decimal.nearest_shortest (of_decide_eq_true h)

/-- **A text that stands for the decimal of a finite number reads back as the number.** -/
theorem read?_of_denotes {text : List Char} (h : isFinite x = true) (ht : Decimal.Denotes text (decimal x).value) :
    read? (withSign x text) = some x := by
  obtain ⟨d, hread, hd⟩ := ht.read
  rw [read?_withSign hread, Decimal.nearest_of_value hd, nearest_decimal h, ofBits_magnitudeBits]

theorem word_code (h : isFinite x = true) : Word .number (code x) := by
  obtain ⟨text, hcode, ht⟩ := exists_text h
  rw [hcode]
  exact word_withSign ht

/-- **A finite number reads back as itself.** -/
theorem read?_code (h : isFinite x = true) : read? (code x) = some x := by
  obtain ⟨text, hcode, ht⟩ := exists_text h
  rw [hcode, read?_of_denotes h ht]

end MiniLisp.Number
