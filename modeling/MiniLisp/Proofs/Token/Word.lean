import Mathlib.Data.List.Basic
import Mathlib.Data.List.TakeWhile
import MiniLisp.Token.Lexeme
/-!
# Word — identifiers, operators and numbers as sets of texts

A `Word` of a kind is a text that can be a token of that kind.  The characters of words are no boundaries
(`Word.not_boundary`), so a word in front of a boundary is the whole of what stands there up to the boundary
(`run_append`).  Its first character tells its kind (`Word.cons_cases`), and what follows the digits of a number
tells where it ends.
-/
namespace MiniLisp

/-! ## Classes of characters that are apart -/

def Text.blankCodes : List Nat :=
  [0x09, 0x0A, 0x0B, 0x0C, 0x0D, 0x1C, 0x1D, 0x1E, 0x1F, 0x20, 0x85, 0xA0, 0x1680, 0x2000, 0x2001, 0x2002, 0x2003,
   0x2004, 0x2005, 0x2006, 0x2007, 0x2008, 0x2009, 0x200A, 0x2028, 0x2029, 0x202F, 0x205F, 0x3000]

theorem Text.mem_blankCodes {c : Char} (h : Text.isBlank c = true) : c.toNat ∈ Text.blankCodes := by
  simp only [Text.isBlank, Bool.or_eq_true, Bool.and_eq_true, decide_eq_true_eq, beq_iff_eq] at h
  simp only [Text.blankCodes, List.mem_cons, List.not_mem_nil, or_false]
  omega

theorem mem_digits {c : Char} (h : c.isDigit = true) : c ∈ ['0', '1', '2', '3', '4', '5', '6', '7', '8', '9'] := by
  have hn : 48 ≤ c.toNat ∧ c.toNat ≤ 57 := by simpa [Char.isDigit, UInt32.le_iff_toNat_le] using h
  have hall : ∀ n ∈ List.range' 48 10, Char.ofNat n ∈ ['0', '1', '2', '3', '4', '5', '6', '7', '8', '9'] := by decide
  rw [← Char.ofNat_toNat c]
  exact hall _ (by simp; omega)

theorem mem_operatorChars {c : Char} (h : isOperatorChar c = true) :
    c ∈ ['-', '+', '/', '*', '&', '^', '%', '!', '|', '<', '>', '='] := by
  simpa [isOperatorChar] using h

theorem of_isDigit {p : Char → Bool} (hp : ['0', '1', '2', '3', '4', '5', '6', '7', '8', '9'].all p = true) {c : Char}
    (h : c.isDigit = true) : p c = true := List.all_eq_true.1 hp c (mem_digits h)

theorem of_isOperatorChar {p : Char → Bool}
    (hp : ['-', '+', '/', '*', '&', '^', '%', '!', '|', '<', '>', '='].all p = true) {c : Char}
    (h : isOperatorChar c = true) : p c = true := List.all_eq_true.1 hp c (mem_operatorChars h)

theorem isDigit_of_isOperatorChar {c : Char} (h : isOperatorChar c = true) : c.isDigit = false := by
  simpa using of_isOperatorChar (p := fun c => !c.isDigit) (by decide) h

theorem isLetter_of_isDigit {c : Char} (h : c.isDigit = true) : Text.isLetter c = false := by
  simpa using of_isDigit (p := fun c => !Text.isLetter c) (by decide) h

theorem isLetter_of_isOperatorChar {c : Char} (h : isOperatorChar c = true) : Text.isLetter c = false := by
  simpa using of_isOperatorChar (p := fun c => !Text.isLetter c) (by decide) h

theorem isIdentChar_of_isBoundary {c : Char} (h : isBoundary c = true) : isIdentChar c = false := by
  simp only [isBoundary, Bool.or_eq_true, decide_eq_true_eq] at h
  obtain (h | rfl) | rfl := h
  · have hall : ∀ n ∈ Text.blankCodes, isIdentChar (Char.ofNat n) = false := by decide +kernel
    simpa [Char.ofNat_toNat] using hall _ (Text.mem_blankCodes h)
  · decide
  · decide

theorem not_boundary_of_isIdentChar {c : Char} (h : isIdentChar c = true) : isBoundary c = false := by
  by_contra hb
  rw [isIdentChar_of_isBoundary (by simpa using hb)] at h
  cases h

theorem not_boundary_of_isOperatorChar {c : Char} (h : isOperatorChar c = true) : isBoundary c = false := by
  simpa using of_isOperatorChar (p := fun c => !isBoundary c) (by decide) h

theorem not_boundary_of_isDigit {c : Char} (h : c.isDigit = true) : isBoundary c = false := by
  simpa using of_isDigit (p := fun c => !isBoundary c) (by decide) h

/-! ## Runs up to a boundary -/

/-- **The characters in front of the next boundary**, all of them if there is none. -/
def run (cs : List Char) : List Char := cs.takeWhile fun c => !isBoundary c

/-- A text is empty or begins with a boundary. -/
def AtBoundary (cs : List Char) : Prop := ∀ c ∈ cs.head?, isBoundary c = true

@[simp] theorem atBoundary_nil : AtBoundary [] := by simp [AtBoundary]

@[simp] theorem atBoundary_cons {c : Char} {cs : List Char} : AtBoundary (c :: cs) ↔ isBoundary c = true := by
  simp [AtBoundary]

theorem takeWhile_run {p : Char → Bool} {w rest : List Char} (hw : ∀ c ∈ w, p c = true)
    (hr : ∀ c ∈ rest.head?, p c = false) :
    (w ++ rest).takeWhile p = w ∧ (w ++ rest).dropWhile p = rest := by
  rw [List.takeWhile_append_of_pos hw, List.dropWhile_append_of_pos hw]
  cases rest with
  | nil => simp
  | cons c rest =>
    have : p c = false := hr c rfl
    simp [this]

theorem run_append {w rest : List Char} (hw : ∀ c ∈ w, isBoundary c = false) (hr : AtBoundary rest) :
    run (w ++ rest) = w :=
  (takeWhile_run (fun c hc => by simp [hw c hc]) (fun c hc => by simp [hr c hc])).1

/-! ## Words -/

def Sign (s : List Char) : Prop := s = [] ∨ s = ['-']

/-- One or more ASCII digits. -/
def Digits (ds : List Char) : Prop := ds ≠ [] ∧ ∀ c ∈ ds, c.isDigit = true

/-- Nothing, or a point with digits behind it. -/
def Fraction (f : List Char) : Prop := f = [] ∨ ∃ ds, Digits ds ∧ f = '.' :: ds

/-- **The texts that a token of a kind can have**: a letter followed by letters and digits; operator characters; an
optional minus sign, digits, and an optional point that more digits follow. -/
inductive Word : Token.Kind → List Char → Prop
  | ident {c : Char} {cs : List Char} : Text.isLetter c = true → (∀ d ∈ cs, isIdentChar d = true) →
      Word .ident (c :: cs)
  | operator {w : List Char} : w ≠ [] → (∀ c ∈ w, isOperatorChar c = true) → Word .operator w
  | number {s ds f : List Char} : Sign s → Digits ds → Fraction f → Word .number (s ++ (ds ++ f))

theorem isIdentChar_of_isLetter {c : Char} (h : Text.isLetter c = true) : isIdentChar c = true := by
  simp [isIdentChar, h]

theorem Word.of_letters {c : Char} {cs : List Char} (h : (c :: cs).all Text.isLetter = true) : Word .ident (c :: cs) := by
  rw [List.all_eq_true] at h
  exact .ident (h c List.mem_cons_self) fun d hd => isIdentChar_of_isLetter (h d (List.mem_cons_of_mem _ hd))

theorem Digits.append {ds x : List Char} (h : Digits ds) : ∃ c cs, ds ++ x = c :: cs ∧ c.isDigit = true := by
  obtain ⟨hne, hds⟩ := h
  cases ds with
  | nil => exact absurd rfl hne
  | cons c ds => exact ⟨c, ds ++ x, rfl, hds c (by simp)⟩

theorem Fraction.head? {f : List Char} (h : Fraction f) : ∀ c ∈ f.head?, c.isDigit = false := by
  obtain rfl | ⟨ds, -, rfl⟩ := h <;> simp

theorem Word.ne_nil {kind : Token.Kind} {w : List Char} (h : Word kind w) : w ≠ [] := by
  cases h with
  | ident => simp
  | operator h => exact h
  | number _ h => simp [h.1]

/-- The characters of number texts. -/
theorem Word.number_char_cases {w : List Char} (h : Word .number w) {c : Char} (hc : c ∈ w) :
    c = '-' ∨ c.isDigit = true ∨ c = '.' := by
  cases h with
  | number hs hds hf =>
    obtain hc | hc := List.mem_append.1 hc
    · obtain rfl | rfl := hs
      · cases hc
      · exact .inl (List.mem_singleton.1 hc)
    obtain hc | hc := List.mem_append.1 hc
    · exact .inr (.inl (hds.2 c hc))
    · obtain rfl | ⟨fs, hfs, rfl⟩ := hf
      · cases hc
      obtain rfl | hc := List.mem_cons.1 hc
      · exact .inr (.inr rfl)
      · exact .inr (.inl (hfs.2 c hc))

theorem Word.no_exponent {w : List Char} (h : Word .number w) : 'e' ∉ w := by
  intro hc
  rcases h.number_char_cases hc with he | he | he <;> exact absurd he (by decide)

/-- The characters of words. -/
theorem Word.char_cases {kind : Token.Kind} {w : List Char} (h : Word kind w) {c : Char} (hc : c ∈ w) :
    isIdentChar c = true ∨ isOperatorChar c = true ∨ c.isDigit = true ∨ c = '.' := by
  cases h with
  | ident hl hs =>
    obtain rfl | hc := List.mem_cons.1 hc
    · exact .inl (isIdentChar_of_isLetter hl)
    · exact .inl (hs c hc)
  | operator _ hs => exact .inr (.inl (hs c hc))
  | number hs hds hf =>
    rcases (Word.number hs hds hf).number_char_cases hc with rfl | hd | rfl
    · exact .inr (.inl (by decide))
    · exact .inr (.inr (.inl hd))
    · exact .inr (.inr (.inr rfl))

theorem Word.not_boundary {kind : Token.Kind} {w : List Char} (h : Word kind w) : ∀ c ∈ w, isBoundary c = false := by
  intro c hc
  rcases h.char_cases hc with hi | ho | hd | rfl
  · exact not_boundary_of_isIdentChar hi
  · exact not_boundary_of_isOperatorChar ho
  · exact not_boundary_of_isDigit hd
  · decide

/-- A character of no word. -/
theorem Word.not_mem {kind : Token.Kind} {w : List Char} (h : Word kind w) {c : Char}
    (hc : (!isIdentChar c && !isOperatorChar c && !c.isDigit && c != '.') = true) : c ∉ w := by
  intro hm
  simp only [Bool.and_eq_true, Bool.not_eq_true', bne_iff_ne] at hc
  rcases h.char_cases hm with hi | ho | hd | hp
  · rw [hc.1.1.1] at hi
    cases hi
  · rw [hc.1.1.2] at ho
    cases ho
  · rw [hc.1.2] at hd
    cases hd
  · exact hc.2 hp

theorem sign_digits_inj {s s' ds ds' x x' : List Char} (hs : Sign s) (hs' : Sign s') (hds : Digits ds)
    (hds' : Digits ds') (hx : ∀ c ∈ x.head?, c.isDigit = false) (hx' : ∀ c ∈ x'.head?, c.isDigit = false)
    (h : s ++ (ds ++ x) = s' ++ (ds' ++ x')) : s = s' ∧ ds = ds' ∧ x = x' := by
  obtain ⟨c, cs, hc, hcd⟩ := hds.append (x := x)
  obtain ⟨d, es, hd, hdd⟩ := hds'.append (x := x')
  have hm : ('-' : Char).isDigit = false := by decide
  have hsign : s = s' := by
    obtain rfl | rfl := hs <;> obtain rfl | rfl := hs'
    · rfl
    · rw [hc] at h
      obtain ⟨rfl, -⟩ := List.cons.inj h
      rw [hm] at hcd
      cases hcd
    · rw [hd] at h
      obtain ⟨rfl, -⟩ := List.cons.inj h
      rw [hm] at hdd
      cases hdd
    · rfl
  subst hsign
  have h := List.append_cancel_left h
  obtain ⟨ht, hd⟩ := takeWhile_run hds.2 hx
  obtain ⟨ht', hd'⟩ := takeWhile_run hds'.2 hx'
  exact ⟨rfl, by rw [← ht, h, ht'], by rw [← hd, h, hd']⟩

/-- A word that begins with digits, signed or not, is a number. -/
theorem Word.fraction {kind : Token.Kind} {s ds x : List Char} (h : Word kind (s ++ (ds ++ x))) (hs : Sign s)
    (hds : Digits ds) (hx : ∀ c ∈ x.head?, c.isDigit = false) : kind = .number ∧ Fraction x := by
  obtain ⟨c, cs, hc, hcd⟩ := hds.append (x := x)
  generalize hw : s ++ (ds ++ x) = w at h
  cases h with
  | @ident d es hd hes =>
    obtain rfl | rfl := hs
    · rw [hc] at hw
      obtain ⟨rfl, -⟩ := List.cons.inj hw
      rw [isLetter_of_isDigit hcd] at hd
      cases hd
    · obtain ⟨rfl, -⟩ := List.cons.inj hw
      rw [isLetter_of_isOperatorChar (by decide)] at hd
      cases hd
  | operator _ hop =>
    have : isOperatorChar c = true := hop c (by rw [← hw, hc]; simp)
    rw [isDigit_of_isOperatorChar this] at hcd
    cases hcd
  | number hs' hds' hf =>
    obtain ⟨-, -, rfl⟩ := sign_digits_inj hs hs' hds hds' hx hf.head? hw
    exact ⟨rfl, hf⟩

/-! ## The first character of a word -/

theorem Lexeme.startsWithDigit_eq_true {cs : List Char} :
    startsWithDigit cs = true ↔ ∃ c ∈ cs.head?, c.isDigit = true := by
  cases cs <;> simp [startsWithDigit]

theorem Lexeme.startsWithDigit_append {ds : List Char} (h : Digits ds) (x : List Char) :
    startsWithDigit (ds ++ x) = true := by
  obtain ⟨c, cs, hc, hcd⟩ := h.append (x := x)
  rw [hc]
  exact hcd

/-- **The first character of a word tells its kind**, but for a minus sign, where the next one tells. -/
theorem Word.cons_cases {kind : Token.Kind} {c : Char} {cs : List Char} (h : Word kind (c :: cs)) :
    (kind = .ident ∧ Text.isLetter c = true ∧ ∀ d ∈ cs, isIdentChar d = true) ∨
    (kind = .operator ∧ isOperatorChar c = true ∧ ∀ d ∈ cs, isOperatorChar d = true) ∨
    (kind = .number ∧ (c.isDigit = true ∨ c = '-' ∧ Lexeme.startsWithDigit cs = true)) := by
  generalize hw : c :: cs = w at h
  cases h with
  | ident hc hcs =>
    obtain ⟨rfl, rfl⟩ := List.cons.inj hw
    exact .inl ⟨rfl, hc, hcs⟩
  | operator _ h =>
    subst hw
    exact .inr (.inl ⟨rfl, h c (by simp), fun d hd => h d (by simp [hd])⟩)
  | number hs hds _ =>
    refine .inr (.inr ⟨rfl, ?_⟩)
    rcases hs with rfl | rfl
    · obtain ⟨d, es, he, hd⟩ := hds.append
      rw [List.nil_append, he] at hw
      obtain ⟨rfl, -⟩ := List.cons.inj hw
      exact .inl hd
    · obtain ⟨rfl, rfl⟩ := List.cons.inj hw
      exact .inr ⟨rfl, Lexeme.startsWithDigit_append hds _⟩

theorem Word.kind_eq {kind : Token.Kind} {c : Char} {cs : List Char} (h : Word kind (c :: cs)) :
    kind = if Text.isLetter c then .ident
      else if isOperatorChar c && !Lexeme.startsWithDigit cs then .operator else .number := by
  rcases h.cons_cases with ⟨rfl, hl, -⟩ | ⟨rfl, ho, hs⟩ | ⟨rfl, hd | ⟨rfl, hd⟩⟩
  · simp [hl]
  · have hd : Lexeme.startsWithDigit cs = false := by
      cases cs with
      | nil => rfl
      | cons d ds => exact isDigit_of_isOperatorChar (hs d (by simp))
    simp [isLetter_of_isOperatorChar ho, ho, hd]
  · have ho : isOperatorChar c = false := by
      by_contra ho
      rw [isDigit_of_isOperatorChar (by simpa using ho)] at hd
      cases hd
    simp [isLetter_of_isDigit hd, ho]
  · have hl : Text.isLetter '-' = false := isLetter_of_isOperatorChar (by decide)
    simp [hl, hd]

theorem Word.kind_unique {kind kind' : Token.Kind} {w : List Char} (h : Word kind w) (h' : Word kind' w) :
    kind = kind' := by
  cases w with
  | nil => exact absurd rfl h.ne_nil
  | cons c cs => rw [h.kind_eq, h'.kind_eq]

/-! ## Where a number ends -/

section

variable {s ds fs v : List Char} {d : Char}

theorem Word.whole (hs : Sign s) (hds : Digits ds) : Word .number (s ++ ds) := by
  simpa using Word.number hs hds (.inl rfl)

theorem Word.fractional (hs : Sign s) (hds : Digits ds) (hfs : Digits fs) : Word .number (s ++ ds ++ '.' :: fs) := by
  simpa using Word.number hs hds (.inr ⟨fs, hfs, rfl⟩)

theorem not_word_whole_append (hs : Sign s) (hds : Digits ds) (hd : d.isDigit = false) (hp : d ≠ '.')
    (kind : Token.Kind) : ¬ Word kind (s ++ ds ++ d :: v) := by
  intro h
  rw [List.append_assoc] at h
  rcases (h.fraction hs hds (by simp [hd])).2 with h | ⟨gs, -, h⟩
  · cases h
  · exact hp (List.cons.inj h).1

theorem not_word_point_append (hs : Sign s) (hds : Digits ds) (hv : ∀ c ∈ v.head?, c.isDigit = false)
    (kind : Token.Kind) : ¬ Word kind (s ++ ds ++ '.' :: v) := by
  intro h
  rw [List.append_assoc] at h
  rcases (h.fraction hs hds (by simp)).2 with h | ⟨gs, hgs, h⟩
  · cases h
  · obtain ⟨-, rfl⟩ := List.cons.inj h
    obtain ⟨c, cs, hc, hcd⟩ := hgs.append (x := [])
    rw [List.append_nil] at hc
    rw [hv c (by simp [hc])] at hcd
    cases hcd

theorem not_word_fractional_append (hs : Sign s) (hds : Digits ds) (hd : d.isDigit = false) (kind : Token.Kind) :
    ¬ Word kind (s ++ ds ++ '.' :: fs ++ d :: v) := by
  intro h
  have h : Word kind (s ++ (ds ++ '.' :: (fs ++ d :: v))) := by simpa using h
  rcases (h.fraction hs hds (by simp)).2 with h | ⟨gs, hgs, h⟩
  · cases h
  · obtain ⟨-, rfl⟩ := List.cons.inj h
    have := hgs.2 d (by simp)
    rw [hd] at this
    cases this

end

end MiniLisp
