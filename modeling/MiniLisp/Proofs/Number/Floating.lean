import MiniLisp.Proofs.Number.Shown
/-!
# Floating — the usual text of a number, and what texts of numbers denote

The usual text of a number has its shortest digits too, but an exponent where the number is very large or very small
(`floating`).  A text with an exponent or without one denotes a sign and a decimal (`signed?`); the value of the
decimal decides which number is next to it, so texts that denote the same are read as the same number
(`float?_congr`).  The text in code is the positional text of the very decimal that the usual text denotes, with the
zero behind its point if it has one (`exists_signed_floating`), and what is shown is the text in code without a final
`.0` (`shown_eq_stripped`), which is never a significant zero.
-/
namespace MiniLisp.Number

namespace Decimal

/-! ## Exponents -/

/-- A power of ten behind an `e`: its sign and two digits at least. -/
def powerText (e : Int) : List Char :=
  let ds := Nat.toDigits 10 e.natAbs
  (if e < 0 then '-' else '+') :: (List.replicate (2 - ds.length) '0' ++ ds)

/-- A run of digits as a number. -/
def digits? (ds : List Char) : Option Nat :=
  if !ds.isEmpty && ds.all Char.isDigit then some (Nat.ofDigitChars 10 ds 0) else none

def power? : List Char → Option Int
  | '-' :: ds => (digits? ds).map fun (n : Nat) => -(n : Int)
  | '+' :: ds => (digits? ds).map fun (n : Nat) => (n : Int)
  | _ => none

theorem digits?_of_digits {ds : List Char} (h : Digits ds) : digits? ds = some (Nat.ofDigitChars 10 ds 0) := by
  refine if_pos ?_
  simpa [h.1] using h.2

theorem digits?_padded (zeros n : Nat) : digits? (List.replicate zeros '0' ++ Nat.toDigits 10 n) = some n := by
  obtain ⟨hdigits, hvalue⟩ := digits_padded zeros n
  rw [digits?_of_digits hdigits, hvalue]

theorem power?_powerText (e : Int) : power? (powerText e) = some e := by
  unfold powerText
  simp only
  by_cases he : e < 0
  · rw [if_pos he, power?, digits?_padded, Option.map_some]
    exact congrArg some (by omega)
  · rw [if_neg he, power?, digits?_padded, Option.map_some]
    exact congrArg some (by omega)

/-! ## Texts with an exponent -/

/-- The first digit of a decimal, and the others behind a point. -/
def mantissa (d : Decimal) : List Char :=
  d.digits.take 1 ++ (if d.digits.length = 1 then [] else '.' :: d.digits.drop 1)

def scientific (d : Decimal) : List Char := d.mantissa ++ 'e' :: powerText (d.wholeSize - 1)

/-- **The usual text of a decimal**: with a point and a digit on either side of it from 10⁻⁴ up to 10¹⁶, otherwise with
an exponent. -/
def floating (d : Decimal) : List Char :=
  if -4 < d.wholeSize ∧ d.wholeSize ≤ wholeDigits then
    if d.exponent < 0 then d.positional else d.positional ++ ['.', '0']
  else d.scientific

/-- An unsigned text, with an exponent or without one, as a decimal. -/
def readFloating? (text : List Char) : Option Decimal :=
  (read? (text.takeWhile (· != 'e'))).bind fun d =>
    match text.dropWhile (· != 'e') with
    | [] => some d
    | _ :: power => (power? power).map fun e => ⟨d.coefficient, d.exponent + e⟩

theorem readFloating?_of_not_mem {text : List Char} (h : 'e' ∉ text) : readFloating? text = read? text := by
  obtain ⟨ht, hd⟩ := @takeWhile_run (· != 'e') text [] (fun c hc => bne_iff_ne.2 fun he => h (he ▸ hc)) nofun
  rw [List.append_nil] at ht hd
  rw [readFloating?, ht, hd]
  exact Option.bind_fun_some _

theorem readFloating?_append {mantissa : List Char} (h : 'e' ∉ mantissa) (power : List Char) :
    readFloating? (mantissa ++ 'e' :: power) =
      (read? mantissa).bind fun d => (power? power).map fun e => ⟨d.coefficient, d.exponent + e⟩ := by
  obtain ⟨ht, hd⟩ := @takeWhile_run (· != 'e') mantissa ('e' :: power)
    (fun c hc => bne_iff_ne.2 fun he => h (he ▸ hc)) (by simp)
  rw [readFloating?, ht, hd]

/-- The first digit and the others are the digits of the coefficient. -/
theorem read?_mantissa (d : Decimal) : Word .number d.mantissa ∧
    read? d.mantissa = some ⟨d.coefficient, 1 - (d.digits.length : Int)⟩ := by
  obtain ⟨hne, hdigit⟩ := d.digits_digits
  have hvalue : Nat.ofDigitChars 10 d.digits 0 = d.coefficient := Nat.ofDigitChars_ten_toDigits
  have hlength : 0 < d.digits.length := List.length_pos_iff.2 hne
  have hfirst : Digits (d.digits.take 1) :=
    ⟨List.length_pos_iff.1 (by rw [List.length_take]; omega), fun c hc => hdigit c (List.mem_of_mem_take hc)⟩
  unfold mantissa
  by_cases h1 : d.digits.length = 1
  · have htake : d.digits.take 1 = d.digits := List.take_of_length_le (by omega)
    rw [if_pos h1, List.append_nil, htake, read?_whole d.digits_digits, ofDigits, List.append_nil, hvalue, h1]
    exact ⟨.whole (.inl rfl) d.digits_digits, rfl⟩
  · have hothers : Digits (d.digits.drop 1) :=
      ⟨List.length_pos_iff.1 (by rw [List.length_drop]; omega), fun c hc => hdigit c (List.mem_of_mem_drop hc)⟩
    have hexponent : -(((d.digits.length - 1 : Nat)) : Int) = 1 - d.digits.length := by omega
    rw [if_neg h1, read?_fractional hfirst hothers, ofDigits, List.take_append_drop, hvalue, List.length_drop,
      hexponent]
    exact ⟨.fractional (.inl rfl) hfirst hothers, rfl⟩

/-- **A text with an exponent is read as the decimal that it was written from.** -/
theorem readFloating?_scientific (d : Decimal) : readFloating? d.scientific = some d := by
  obtain ⟨hword, hread⟩ := d.read?_mantissa
  rw [scientific, readFloating?_append hword.no_exponent, hread, Option.bind_some, power?_powerText, Option.map_some]
  have hexponent : 1 - (d.digits.length : Int) + (d.wholeSize - 1) = d.exponent := by
    rw [wholeSize]
    omega
  simp only [hexponent]

/-! ## Texts with a final `.0` -/

theorem toDigits_mul_pow {n : Nat} (h : 0 < n) : ∀ k : Nat,
    Nat.toDigits 10 (n * 10 ^ k) = Nat.toDigits 10 n ++ List.replicate k '0'
  | 0 => by rw [Nat.pow_zero, Nat.mul_one, List.replicate_zero, List.append_nil]
  | k + 1 => by
    have hten : n * 10 ^ (k + 1) = 10 * (n * 10 ^ k) + 0 := by ring
    rw [hten, ← Nat.toDigits_append_toDigits (by decide) (Nat.mul_pos h (Nat.pow_pos (by decide))) (by decide),
      toDigits_mul_pow h k, List.append_assoc, List.replicate_succ']
    rfl

theorem positional_tenths {c : Nat} {ds : List Char} {z : Char} (h : Nat.toDigits 10 c = ds ++ [z]) (hne : ds ≠ []) :
    positional ⟨c, .negSucc 0⟩ = ds ++ ['.', z] := by
  have hlength : 0 < ds.length := List.length_pos_iff.2 hne
  have hzeros : 0 + 2 - (ds ++ [z]).length = 0 := by
    rw [List.length_append, List.length_singleton]
    omega
  rw [positional]
  simp only [digits, h, hzeros, List.replicate_zero, List.nil_append]
  simp

/-- A zero that was read behind a point is written behind it. -/
theorem positional_ofDigits_pointed {d : Decimal} {k : Nat} (h : d.exponent = .ofNat k) (ht : d.Trimmed) :
    (ofDigits d.positional ['0']).positional = d.positional ++ ['.', '0'] := by
  obtain rfl | hmod := ht
  · rfl
  have hpos : 0 < d.coefficient := Nat.pos_of_ne_zero fun h0 => hmod (by rw [h0])
  have hp : d.positional = Nat.toDigits 10 (d.coefficient * 10 ^ k) := by
    rw [positional, h, toDigits_mul_pow hpos]
    rfl
  have hten : Nat.ofDigitChars 10 (d.positional ++ ['0']) 0 = d.coefficient * 10 ^ (k + 1) := by
    rw [Nat.ofDigitChars_append, (positional_whole h).2]
    show 10 * (d.coefficient * 10 ^ k) + 0 = _
    ring
  refine positional_tenths ?_ (positional_whole h).1.1
  rw [hten, hp, toDigits_mul_pow hpos, toDigits_mul_pow hpos, List.append_assoc, List.replicate_succ']

/-! ## The three layouts -/

theorem Denotes.no_exponent {text : List Char} {v : ℚ} (h : Denotes text v) : 'e' ∉ text :=
  (h.word [] (.inl rfl)).no_exponent

/-- A literal is read the same where an exponent may follow. -/
theorem Denotes.readFloating {text : List Char} {v : ℚ} (h : Denotes text v) :
    ∃ d, readFloating? text = some d ∧ d.value = v := by
  rw [readFloating?_of_not_mem h.no_exponent]
  exact h.read

/-- **The usual text of a decimal is read as its value**, whatever its digits and its exponent. -/
theorem exists_readFloating (d : Decimal) : ∃ d', readFloating? d.floating = some d' ∧ d'.value = d.value := by
  unfold floating
  split
  · split
    · exact d.denotes_positional.readFloating
    · rename_i he
      exact (denotes_pointed (Int.not_lt.1 he)).readFloating
  · exact ⟨d, d.readFloating?_scientific, rfl⟩

example : [(⟨15, 14⟩ : Decimal), ⟨15, 15⟩, ⟨15, -5⟩, ⟨5, -6⟩].map floating =
    [['1', '5', '0', '0', '0', '0', '0', '0', '0', '0', '0', '0', '0', '0', '0', '0', '.', '0'],
      ['1', '.', '5', 'e', '+', '1', '6'], ['0', '.', '0', '0', '0', '1', '5'], ['5', 'e', '-', '0', '6']] := by decide

/-- **Written positionally, what the usual text is read as** has the digits of the decimal, and the final `.0` if the
usual text has one. -/
theorem positional_readFloating {d : Decimal} (h : d.Trimmed) : ∃ d', readFloating? d.floating = some d' ∧
    d'.positional = if 0 ≤ d.exponent ∧ d.wholeSize ≤ wholeDigits then d.positional ++ ['.', '0'] else d.positional := by
  unfold floating
  by_cases hfixed : -4 < d.wholeSize ∧ d.wholeSize ≤ wholeDigits
  · rw [if_pos hfixed]
    cases he : d.exponent with
    | ofNat k =>
      have hwhole : 0 ≤ Int.ofNat k := Int.natCast_nonneg k
      rw [if_neg (Int.not_lt.2 hwhole), if_pos ⟨hwhole, hfixed.2⟩]
      refine ⟨_, ?_, positional_ofDigits_pointed he h⟩
      rw [readFloating?_of_not_mem (denotes_pointed (he ▸ hwhole)).no_exponent]
      exact read?_fractional (positional_whole he).1 digits_zero
    | negSucc k =>
      obtain ⟨ds, fs, hp, hds, hfs, hd⟩ := positional_fractional he
      have hnegative : Int.negSucc k < 0 := Int.negSucc_lt_zero k
      rw [if_pos hnegative, if_neg fun hn => absurd hn.1 (Int.not_le.2 hnegative)]
      refine ⟨d, ?_, rfl⟩
      rw [readFloating?_of_not_mem d.denotes_positional.no_exponent, hp, read?_fractional hds hfs, hd]
  · rw [if_neg hfixed, if_neg fun hn => ?_]
    · exact ⟨d, d.readFloating?_scientific, rfl⟩
    · have hlength : 0 < d.digits.length := List.length_pos_iff.2 d.digits_digits.1
      have hsize : d.wholeSize = d.digits.length + d.exponent := rfl
      exact hfixed ⟨by omega, hn.2⟩

/-- **A positional text does not end in `.0`** unless the decimal has a zero to spare. -/
theorem not_pointed_positional {d : Decimal} (h : d.Trimmed) : ¬['.', '0'] <:+ d.positional := by
  intro hsuffix
  cases he : d.exponent with
  | ofNat k =>
    have hpoint : '.' ∈ d.positional := hsuffix.subset List.mem_cons_self
    exact absurd ((positional_whole he).1.2 _ hpoint) (by decide)
  | negSucc k =>
    obtain ⟨ds, fs, hp, -, hfs, hd⟩ := positional_fractional he
    rw [hp] at hsuffix
    obtain ⟨t, ht⟩ := hsuffix
    obtain rfl | ⟨fs', c, rfl⟩ := fs.eq_nil_or_concat
    · exact hfs.1 rfl
    have hlast : (t ++ ['.']) ++ ['0'] = (ds ++ '.' :: fs') ++ [c] := by simpa using ht
    obtain rfl : '0' = c := List.singleton_inj.1 (List.append_inj_right' hlast rfl)
    obtain rfl | hmod := h
    · cases he
    · rw [← hd, ofDigits, List.concat_eq_append, ← List.append_assoc, Nat.ofDigitChars_append] at hmod
      exact hmod (Nat.mul_mod_right 10 _)

end Decimal

/-! ## Signed texts -/

variable {x : Float}

/-- The usual text of a finite number. -/
def floating (x : Float) : List Char := withSign x (decimal x).floating

/-- A text as a sign and a decimal. -/
def signed? : List Char → Option (Bool × Decimal)
  | '-' :: text => (Decimal.readFloating? text).map fun d => (true, d)
  | text => (Decimal.readFloating? text).map fun d => (false, d)

/-- **What a text denotes**, exactly: whether there is a minus sign, and a magnitude. -/
def denoted? (text : List Char) : Option (Bool × ℚ) := (signed? text).map fun p => (p.1, p.2.value)

/-- The number next to what a text denotes. -/
def float? (text : List Char) : Option Float := (signed? text).map fun p => ofBits p.1 p.2.nearest

/-- **Texts that denote the same are read as the same number.** -/
theorem float?_congr {text text' : List Char} (h : denoted? text = denoted? text') : float? text = float? text' := by
  unfold denoted? at h
  unfold float?
  cases hs : signed? text with
  | none =>
    rw [hs, Option.map_none] at h
    rw [Option.map_eq_none_iff.1 h.symm]
  | some p =>
    obtain ⟨p', hs', hp⟩ := Option.map_eq_some_iff.1 (h.symm.trans (by rw [hs]; rfl))
    obtain ⟨hsign, hvalue⟩ := Prod.mk.inj hp
    rw [hs', Option.map_some, Option.map_some, hsign, Decimal.nearest_of_value hvalue]

theorem signed?_withSign {text : List Char} {d : Decimal} (h : Decimal.readFloating? text = some d) :
    signed? (withSign x text) = some (isNegative x, d) := by
  unfold withSign
  by_cases hn : isNegative x = true
  · rw [if_pos hn, signed?, h, hn]
    rfl
  · rw [if_neg hn]
    unfold signed?
    split
    · cases h
    · rw [h, Bool.not_eq_true _ |>.mp hn]
      rfl

/-- A number literal is read as the number next to what it denotes. -/
theorem read?_eq_float? {text : List Char} (h : 'e' ∉ text) : read? text = float? text := by
  unfold read?
  split
  · rw [float?, signed?, Decimal.readFloating?_of_not_mem fun he => h (List.mem_cons_of_mem _ he), Option.map_map]
    rfl
  · rename_i hsign
    rw [float?, signed?, Decimal.readFloating?_of_not_mem h, Option.map_map]
    · rfl
    · exact hsign

theorem trimmed_decimal (x : Float) : (decimal x).Trimmed := Decimal.trimmed_shortest _

theorem denoted?_withSign {text : List Char} {d : Decimal} {v : ℚ} (h : Decimal.readFloating? text = some d)
    (hv : d.value = v) : denoted? (withSign x text) = some (isNegative x, v) := by
  rw [denoted?, signed?_withSign h, Option.map_some, hv]

/-- The usual text denotes the decimal of the number. -/
theorem denoted?_floating (x : Float) : denoted? (floating x) = some (isNegative x, (decimal x).value) := by
  obtain ⟨d, hd, hv⟩ := (decimal x).exists_readFloating
  exact denoted?_withSign hd hv

/-- **The usual text of a finite number is read as the number.** -/
theorem float?_floating (h : isFinite x = true) : float? (floating x) = some x := by
  obtain ⟨d, hd, hv⟩ := (decimal x).exists_readFloating
  rw [float?, floating, signed?_withSign hd, Option.map_some, Decimal.nearest_of_value hv, nearest_decimal h,
    ofBits_magnitudeBits]

/-! ## The texts in code and of values -/

/-- **In code stands the positional text of the decimal that the usual text is read as.** -/
theorem exists_signed_floating (h : isFinite x = true) :
    ∃ d, signed? (floating x) = some (isNegative x, d) ∧ code x = withSign x d.positional := by
  obtain ⟨d, hread, hd⟩ := Decimal.positional_readFloating (trimmed_decimal x)
  refine ⟨d, signed?_withSign hread, ?_⟩
  have hpoint : hasPoint x = true ↔ 0 ≤ (decimal x).exponent ∧ (decimal x).wholeSize ≤ wholeDigits := by
    simp [hasPoint, h]
  rw [code, shown_of_isFinite h, hd]
  by_cases hp : hasPoint x = true
  · rw [if_pos hp, if_pos (hpoint.1 hp), withSign_append]
  · rw [if_neg hp, if_neg (mt hpoint.2 hp)]

/-- A text without its final `.0`. -/
def stripped (text : List Char) : List Char :=
  if ['.', '0'] <:+ text then text.take (text.length - 2) else text

theorem pointed_withSign {text : List Char} (h : ¬['.', '0'] <:+ text) : ¬['.', '0'] <:+ withSign x text := by
  unfold withSign
  split
  · rw [List.suffix_cons_iff]
    rintro (he | he)
    · exact absurd (List.cons.inj he).1 (by decide)
    · exact h he
  · exact h

theorem not_pointed_shown (x : Float) : ¬['.', '0'] <:+ shown x := by
  unfold shown
  split
  · decide
  · split
    · exact pointed_withSign (Decimal.not_pointed_positional (trimmed_decimal x))
    · exact pointed_withSign (by decide)

/-- **A number is shown as in code, without a final `.0`.** -/
theorem shown_eq_stripped (x : Float) : shown x = stripped (code x) := by
  unfold code stripped
  by_cases hp : hasPoint x = true
  · rw [if_pos hp, if_pos (List.suffix_append _ _)]
    simp
  · rw [if_neg hp, if_neg (not_pointed_shown x)]

example : code (ofBits true 0) = ['-', '0', '.', '0'] ∧ shown (ofBits true 0) = ['-', '0'] := by decide +kernel

/-- **The texts of a finite number are literals without an exponent, and denote what the usual text denotes.** -/
theorem literal_of_mem {text : List Char} (h : isFinite x = true) (ht : text ∈ [code x, shown x]) :
    Word .number text ∧ denoted? text = denoted? (floating x) := by
  obtain ⟨text', rfl, hd⟩ : ∃ text', text = withSign x text' ∧ Decimal.Denotes text' (decimal x).value := by
    obtain rfl | ht := List.mem_cons.1 ht
    · exact exists_text h
    · exact ⟨_, (List.mem_singleton.1 ht).trans (shown_of_isFinite h), (decimal x).denotes_positional⟩
  obtain ⟨d, hread, hv⟩ := hd.readFloating
  exact ⟨word_withSign hd, by rw [denoted?_withSign hread hv, denoted?_floating]⟩

end MiniLisp.Number
