import MiniLisp.Proofs.Token.Word
/-!
# Start — the token that a text starts with

`Lexeme.Starts` says which token stands at the start of a text by looking at whole runs, where `Lexeme.read` goes by
the first character and counts.  The two agree: `starts_read` and `eq_read_of_starts`.
-/
namespace MiniLisp

/-- No word in front of a text is longer than this one, which is empty if there is none. -/
structure LongestWord (w cs : List Char) : Prop where
  word : w = [] ∨ ∃ kind, Word kind w
  length_le : ∀ kind v, Word kind v → v <+: cs → v.length ≤ w.length

theorem LongestWord.le {w w' x cs : List Char} (h : LongestWord w cs) (h' : LongestWord w' cs) (hx : w ++ x <+: cs) :
    w.length ≤ w'.length := by
  rcases h.word with rfl | ⟨kind, hw⟩
  · exact Nat.zero_le _
  · exact h'.length_le kind w hw ((List.prefix_append w x).trans hx)

theorem LongestWord.unique {w w' : List Char} {d d' : Char} {cs : List Char} (h : LongestWord w cs)
    (h' : LongestWord w' cs) (hd : w ++ [d] <+: cs) (hd' : w' ++ [d'] <+: cs) : w ++ [d] = w' ++ [d'] := by
  have hlen : (w ++ [d]).length = (w' ++ [d']).length := by
    simpa using Nat.le_antisymm (h.le h' hd) (h'.le h hd')
  exact (List.prefix_of_prefix_length_le hd hd' hlen.le).eq_of_length hlen

/-- Where a token starts that is neither a parenthesis nor a string. -/
def isPlain (c : Char) : Bool := !isBoundary c && c != '"' && c != ';'

namespace Lexeme

/-- **The token at the start of a text.**  A parenthesis stands alone.  A string ends with the next quote on its row,
and a boundary must follow.  Anything else takes in all characters up to the next boundary: together they are a word,
or the token is invalid and ends with the first character that no word in front of it takes in. -/
inductive Starts : List Char → Lexeme → Prop
  | openParen (cs : List Char) : Starts ('(' :: cs) ⟨.openParen, ['(']⟩
  | closeParen (cs : List Char) : Starts (')' :: cs) ⟨.closeParen, [')']⟩
  | string {body rest : List Char} : '"' ∉ body → '\n' ∉ body → AtBoundary rest →
      Starts ('"' :: (body ++ '"' :: rest)) ⟨.string, '"' :: body ++ ['"']⟩
  | gluedString {body : List Char} {c : Char} (rest : List Char) : '"' ∉ body → '\n' ∉ body → isBoundary c = false →
      Starts ('"' :: (body ++ '"' :: c :: rest)) ⟨.invalid, '"' :: body ++ ['"', c]⟩
  | openString {body rest : List Char} : '"' ∉ body → '\n' ∉ body → (∀ c ∈ rest.head?, c = '\n') →
      Starts ('"' :: (body ++ rest)) ⟨.invalid, '"' :: body⟩
  | word {kind : Token.Kind} {cs : List Char} : Word kind (run cs) → Starts cs ⟨kind, run cs⟩
  | noWord {c d : Char} {cs w : List Char} : isPlain c = true → (∀ kind, ¬ Word kind (run (c :: cs))) →
      LongestWord w (run (c :: cs)) → w ++ [d] <+: run (c :: cs) → Starts (c :: cs) ⟨.invalid, w ++ [d]⟩

theorem Starts.ident_word {cs : List Char} {l : Lexeme} (h : Starts cs l) (hk : l.kind = .ident) : Word .ident l.text := by
  cases h with
  | word hw =>
    obtain rfl := hk
    exact hw
  | _ => cases hk

theorem Starts.string_text {cs : List Char} {l : Lexeme} (h : Starts cs l) (hk : l.kind = .string) :
    ∃ body, l.text = '"' :: body ++ ['"'] ∧ '"' ∉ body ∧ '\n' ∉ body := by
  cases h with
  | string hq hn _ => exact ⟨_, rfl, hq, hn⟩
  | word hw =>
    obtain rfl := hk
    cases hw
  | _ => cases hk

/-! ## Reading a run -/

theorem exists_run (p : Char → Bool) (cs : List Char) :
    ∃ w rest, cs = w ++ rest ∧ (∀ c ∈ w, p c = true) ∧ ∀ c ∈ rest.head?, p c = false := by
  refine ⟨cs.takeWhile p, cs.dropWhile p, (List.takeWhile_append_dropWhile).symm,
    fun c hc => List.mem_takeWhile_imp hc, fun c hc => ?_⟩
  have := List.head?_dropWhile_not p cs
  rw [Option.mem_def] at hc
  rw [hc] at this
  simpa using this

theorem bounded_of_atBoundary {kind : Token.Kind} {w rest : List Char} (h : AtBoundary rest) :
    bounded kind w rest = ⟨kind, w⟩ := by
  cases rest with
  | nil => rfl
  | cons c rest =>
    rw [atBoundary_cons] at h
    simp [bounded, h]

theorem bounded_of_not_boundary {kind : Token.Kind} {w rest : List Char} {c : Char} (h : isBoundary c = false) :
    bounded kind w (c :: rest) = ⟨.invalid, w ++ [c]⟩ := by
  simp [bounded, h]

theorem takeWhile_string {body rest : List Char} (hq : '"' ∉ body) (hn : '\n' ∉ body)
    (hr : ∀ c ∈ rest.head?, c = '"' ∨ c = '\n') :
    (body ++ rest).takeWhile (fun c => c ≠ '"' && c ≠ '\n') = body ∧
      (body ++ rest).dropWhile (fun c => c ≠ '"' && c ≠ '\n') = rest := by
  refine takeWhile_run (fun c hc => ?_) fun c hc => ?_
  · have h1 : c ≠ '"' := fun e => hq (e ▸ hc)
    have h2 : c ≠ '\n' := fun e => hn (e ▸ hc)
    simp [h1, h2]
  · rcases hr c hc with rfl | rfl <;> simp

theorem quoted_closed {body : List Char} (hq : '"' ∉ body) (hn : '\n' ∉ body) (rest : List Char) :
    quoted (body ++ '"' :: rest) = bounded .string ('"' :: body ++ ['"']) rest := by
  obtain ⟨ht, hd⟩ := takeWhile_string hq hn (show ∀ c ∈ ('"' :: rest).head?, c = '"' ∨ c = '\n' by simp)
  simp only [quoted, ht, hd]

theorem quoted_open {body rest : List Char} (hq : '"' ∉ body) (hn : '\n' ∉ body) (hr : ∀ c ∈ rest.head?, c = '\n') :
    quoted (body ++ rest) = ⟨.invalid, '"' :: body⟩ := by
  obtain ⟨ht, hd⟩ := takeWhile_string hq hn fun c hc => .inr (hr c hc)
  simp only [quoted, ht, hd]
  split
  · exact absurd (hr '"' rfl) (by decide)
  · rfl

variable {sign ds fs rest : List Char}

theorem number_whole (hds : ∀ c ∈ ds, c.isDigit = true) (hr : ∀ c ∈ rest.head?, c.isDigit = false ∧ c ≠ '.') :
    number sign (ds ++ rest) = bounded .number (sign ++ ds) rest := by
  obtain ⟨ht, hd⟩ := takeWhile_run hds (fun c hc => (hr c hc).1)
  unfold number
  rw [ht, hd]
  cases rest with
  | nil => rfl
  | cons c rest =>
    have : c ≠ '.' := (hr c rfl).2
    split
    · rename_i after he
      exact absurd (List.cons.inj he).1 this
    · rfl

theorem number_point (hds : ∀ c ∈ ds, c.isDigit = true) (hr : ∀ c ∈ rest.head?, c.isDigit = false) :
    number sign (ds ++ '.' :: rest) = ⟨.invalid, sign ++ ds ++ ['.']⟩ := by
  obtain ⟨ht, hd⟩ := takeWhile_run hds (show ∀ c ∈ ('.' :: rest).head?, c.isDigit = false by simp)
  have hs : startsWithDigit rest = false := by
    rw [← Bool.not_eq_true, startsWithDigit_eq_true]
    rintro ⟨c, hc, hc'⟩
    rw [hr c hc] at hc'
    cases hc'
  simp [number, ht, hd, hs]

theorem number_fraction (hds : ∀ c ∈ ds, c.isDigit = true) (hfs : Digits fs)
    (hr : ∀ c ∈ rest.head?, c.isDigit = false ∧ c ≠ '.') :
    number sign (ds ++ '.' :: (fs ++ rest)) = bounded .number (sign ++ ds ++ '.' :: fs) rest := by
  obtain ⟨ht, hd⟩ := takeWhile_run hds (show ∀ c ∈ ('.' :: (fs ++ rest)).head?, c.isDigit = false by simp)
  obtain ⟨hft, hfd⟩ := takeWhile_run hfs.2 (fun c hc => (hr c hc).1)
  have hs : startsWithDigit (fs ++ rest) = true := startsWithDigit_append hfs rest
  simp only [number, ht, hd, hs, hft, hfd, if_true]
  cases rest with
  | nil => rfl
  | cons c rest =>
    have : c ≠ '.' := (hr c rfl).2
    split
    · rename_i after he
      exact absurd (List.cons.inj he).1 this
    · rfl

theorem number_fraction_point (hds : ∀ c ∈ ds, c.isDigit = true) (hfs : Digits fs) :
    number sign (ds ++ '.' :: (fs ++ '.' :: rest)) = ⟨.invalid, sign ++ ds ++ '.' :: fs ++ ['.']⟩ := by
  obtain ⟨ht, hd⟩ := takeWhile_run hds
    (show ∀ c ∈ ('.' :: (fs ++ '.' :: rest)).head?, c.isDigit = false by simp)
  obtain ⟨hft, hfd⟩ := takeWhile_run hfs.2 (show ∀ c ∈ ('.' :: rest).head?, c.isDigit = false by simp)
  have hs : startsWithDigit (fs ++ '.' :: rest) = true := startsWithDigit_append hfs _
  simp only [number, ht, hd, hs, hft, hfd, if_true]

/-! ## Words as tokens -/

theorem isPlain_of_word {kind : Token.Kind} {c : Char} {cs : List Char} (h : Word kind (c :: cs)) :
    isPlain c = true := by
  have hb : isBoundary c = false := h.not_boundary c List.mem_cons_self
  have hq : c ≠ '"' := by
    rintro rfl
    exact h.not_mem (by decide) List.mem_cons_self
  have hs : c ≠ ';' := by
    rintro rfl
    exact h.not_mem (by decide) List.mem_cons_self
  simp [isPlain, hb, hq, hs]

theorem longestWord_of_not_word {w cs : List Char} {d : Char} (hw : w = [] ∨ ∃ kind, Word kind w)
    (h : ∀ kind v, v <+: cs → ¬ Word kind (w ++ d :: v)) : LongestWord w (w ++ d :: cs) := by
  refine ⟨hw, fun kind v hv hp => ?_⟩
  by_contra hlt
  have hle : w.length ≤ v.length := by omega
  obtain ⟨u, rfl⟩ := List.prefix_of_prefix_length_le (List.prefix_append w _) hp hle
  have hu : u <+: d :: cs := (List.prefix_append_right_inj w).1 hp
  cases u with
  | nil => simp at hlt
  | cons e u =>
    obtain ⟨rfl, hu'⟩ := List.cons_prefix_cons.1 hu
    exact h kind u hu' hv

theorem run_append_cons {w : List Char} {d : Char} (hw : ∀ c ∈ w, isBoundary c = false) (hd : isBoundary d = false)
    (cs : List Char) : run (w ++ d :: cs) = w ++ d :: run cs := by
  unfold run
  rw [List.takeWhile_append_of_pos (fun c hc => by simp [hw c hc]), List.takeWhile_cons_of_pos (by simp [hd])]

/-- **A character that no word takes in, behind the longest word**: the two are an invalid token. -/
theorem starts_of_not_word {w cs : List Char} {d : Char} (hw : w = [] ∧ isPlain d = true ∨ ∃ kind, Word kind w)
    (hd : isBoundary d = false) (h : ∀ kind v, v <+: cs → ¬ Word kind (w ++ d :: v)) :
    Starts (w ++ d :: cs) ⟨.invalid, w ++ [d]⟩ := by
  have hb : ∀ c ∈ w, isBoundary c = false := by
    rcases hw with ⟨rfl, -⟩ | ⟨_, hw⟩
    · simp
    · exact hw.not_boundary
  have hrun := run_append_cons hb hd cs
  have hpre : run cs <+: cs := List.takeWhile_prefix _
  -- Only words within the run count, and these are in front of the text as well.
  have hlong : LongestWord w (run (w ++ d :: cs)) := by
    rw [hrun]
    exact longestWord_of_not_word (hw.imp_left And.left) fun kind v hv => h kind v (hv.trans hpre)
  have hno : ∀ kind, ¬ Word kind (run (w ++ d :: cs)) := fun kind hk => by
    rw [hrun] at hk
    exact h kind _ hpre hk
  have hnext : w ++ [d] <+: run (w ++ d :: cs) := by
    rw [hrun]
    exact ⟨run cs, by simp⟩
  cases w with
  | nil =>
    rcases hw with ⟨-, hp⟩ | ⟨_, hw⟩
    · exact .noWord hp hno hlong hnext
    · exact absurd rfl hw.ne_nil
  | cons c w =>
    rcases hw with ⟨hw, -⟩ | ⟨_, hw⟩
    · cases hw
    · exact .noWord (isPlain_of_word hw) hno hlong hnext

/-- A run that is a word, and that no word extends, is read up to a boundary or taken in with the character that is
none. -/
theorem starts_bounded {kind : Token.Kind} {w rest : List Char} (hw : Word kind w)
    (h : ∀ d cs, rest = d :: cs → ∀ kind v, v <+: cs → ¬ Word kind (w ++ d :: v)) :
    Starts (w ++ rest) (bounded kind w rest) := by
  by_cases hb : AtBoundary rest
  · rw [bounded_of_atBoundary hb]
    have hrun : run (w ++ rest) = w := run_append hw.not_boundary hb
    have : Starts (w ++ rest) ⟨kind, run (w ++ rest)⟩ := .word (hrun.symm ▸ hw)
    rwa [hrun] at this
  · cases rest with
    | nil => exact absurd atBoundary_nil hb
    | cons d cs =>
      have hd : isBoundary d = false := by simpa using hb
      rw [bounded_of_not_boundary hd]
      exact starts_of_not_word (.inr ⟨kind, hw⟩) hd (h d cs rfl)

/-! ## What is read is what starts there -/

theorem starts_quoted (cs : List Char) : Starts ('"' :: cs) (quoted cs) := by
  obtain ⟨body, rest, rfl, hb, hr⟩ := exists_run (fun c => c ≠ '"' && c ≠ '\n') cs
  have hq : '"' ∉ body := fun h => by simpa using hb _ h
  have hn : '\n' ∉ body := fun h => by simpa using hb _ h
  by_cases hclosed : ∃ rest', rest = '"' :: rest'
  · obtain ⟨rest, rfl⟩ := hclosed
    rw [quoted_closed hq hn]
    by_cases h : AtBoundary rest
    · rw [bounded_of_atBoundary h]
      exact .string hq hn h
    · cases rest with
      | nil => exact absurd atBoundary_nil h
      | cons c rest =>
        have hc : isBoundary c = false := by simpa using h
        rw [bounded_of_not_boundary hc]
        simpa using Starts.gluedString rest hq hn hc
  · have hopen : ∀ c ∈ rest.head?, c = '\n' := fun c hc => by
      have hne : c ≠ '"' := fun e => hclosed ⟨rest.tail, e ▸ List.eq_cons_of_mem_head? hc⟩
      simpa [hne] using hr c hc
    rw [quoted_open hq hn hopen]
    exact .openString hq hn hopen

theorem starts_number_point {s ds rest : List Char} (hs : Sign s) (hds : Digits ds) :
    Starts (s ++ ds ++ '.' :: rest) (number s (ds ++ '.' :: rest)) := by
  have hb : isBoundary '.' = false := by decide
  obtain ⟨fs, rest, rfl, hall, hr⟩ := exists_run Char.isDigit rest
  by_cases hfs : fs = []
  · subst hfs
    rw [List.nil_append, number_point hds.2 hr]
    refine starts_of_not_word (.inr ⟨_, .whole hs hds⟩) hb fun kind v hv => not_word_point_append hs hds ?_ kind
    obtain ⟨u, rfl⟩ := hv
    cases v with
    | nil => simp
    | cons c v => exact hr
  · have hfs : Digits fs := ⟨hfs, hall⟩
    have hw : Word .number (s ++ ds ++ '.' :: fs) := .fractional hs hds hfs
    rw [← List.cons_append, ← List.append_assoc]
    by_cases hp : ∃ cs, rest = '.' :: cs
    · obtain ⟨cs, rfl⟩ := hp
      rw [List.cons_append, number_fraction_point hds.2 hfs]
      exact starts_of_not_word (.inr ⟨_, hw⟩) hb fun kind v _ => not_word_fractional_append hs hds (by decide) kind
    · rw [List.cons_append, number_fraction hds.2 hfs fun c hc => ⟨hr c hc, ?_⟩]
      · refine starts_bounded hw fun d cs he kind v _ => ?_
        subst he
        exact not_word_fractional_append hs hds (hr d rfl) kind
      · rintro rfl
        exact hp ⟨rest.tail, List.eq_cons_of_mem_head? hc⟩

theorem starts_number {s cs : List Char} (hs : Sign s) (hcs : startsWithDigit cs = true) :
    Starts (s ++ cs) (number s cs) := by
  obtain ⟨ds, rest, rfl, hall, hr⟩ := exists_run Char.isDigit cs
  have hds : Digits ds := by
    refine ⟨fun h => ?_, hall⟩
    subst h
    obtain ⟨c, hc, hcd⟩ := startsWithDigit_eq_true.1 hcs
    rw [hr c hc] at hcd
    cases hcd
  rw [← List.append_assoc]
  by_cases hp : ∃ cs, rest = '.' :: cs
  · obtain ⟨cs, rfl⟩ := hp
    exact starts_number_point hs hds
  · have hne : ∀ c ∈ rest.head?, c ≠ '.' := by
      rintro c hc rfl
      exact hp ⟨rest.tail, List.eq_cons_of_mem_head? hc⟩
    rw [number_whole hall fun c hc => ⟨hr c hc, hne c hc⟩]
    refine starts_bounded (.whole hs hds) fun d cs he kind v _ => ?_
    subst he
    exact not_word_whole_append hs hds (hr d rfl) (hne d rfl) kind

theorem starts_operator {c : Char} {cs : List Char} (hc : isOperatorChar c = true)
    (hm : (c = '-' && startsWithDigit cs) = false) :
    Starts (c :: cs) (bounded .operator (c :: cs.takeWhile isOperatorChar) (cs.dropWhile isOperatorChar)) := by
  obtain ⟨w, rest, rfl, hw, hr⟩ := exists_run isOperatorChar cs
  obtain ⟨ht, hd⟩ := takeWhile_run hw hr
  rw [ht, hd, ← List.cons_append]
  have hall : ∀ d ∈ c :: w, isOperatorChar d = true := by simpa [hc] using hw
  refine starts_bounded (.operator (by simp) hall) fun d cs he kind v _ hk => ?_
  subst he
  have hd : isOperatorChar d = false := hr d rfl
  rcases hk.cons_cases with ⟨-, hl, -⟩ | ⟨-, -, ho⟩ | ⟨-, h | ⟨rfl, h⟩⟩
  · rw [isLetter_of_isOperatorChar hc] at hl
    cases hl
  · rw [ho d (by simp)] at hd
    cases hd
  · rw [isDigit_of_isOperatorChar hc] at h
    cases h
  -- The minus sign of a number is followed by a digit at once.
  · cases w with
    | nil => simp [startsWithDigit] at hm h; simp [h] at hm
    | cons o w =>
      have : o.isDigit = true := by simpa [startsWithDigit] using h
      rw [isDigit_of_isOperatorChar (hw o (by simp))] at this
      cases this

theorem starts_ident {c : Char} {cs : List Char} (hc : Text.isLetter c = true) :
    Starts (c :: cs) (bounded .ident (c :: cs.takeWhile isIdentChar) (cs.dropWhile isIdentChar)) := by
  obtain ⟨w, rest, rfl, hw, hr⟩ := exists_run isIdentChar cs
  obtain ⟨ht, hd⟩ := takeWhile_run hw hr
  rw [ht, hd, ← List.cons_append]
  refine starts_bounded (.ident hc hw) fun d cs he kind v _ hk => ?_
  subst he
  have hd : isIdentChar d = false := hr d rfl
  rcases hk.cons_cases with ⟨-, -, hi⟩ | ⟨-, ho, -⟩ | ⟨-, h | ⟨rfl, -⟩⟩
  · rw [hi d (by simp)] at hd
    cases hd
  · rw [isLetter_of_isOperatorChar ho] at hc
    cases hc
  · rw [isLetter_of_isDigit h] at hc
    cases hc
  · cases hc

/-- **What `read` reads is what the text starts with.** -/
theorem starts_read {c : Char} (cs : List Char) (hb : Text.isBlank c = false) (hs : c ≠ ';') :
    Starts (c :: cs) (read c cs) := by
  unfold read
  split
  · rename_i h
    subst h
    exact .openParen cs
  split
  · rename_i h
    subst h
    exact .closeParen cs
  split
  · rename_i h
    subst h
    exact starts_quoted cs
  split
  · rename_i h
    simp only [Bool.and_eq_true, decide_eq_true_eq] at h
    obtain ⟨rfl, h⟩ := h
    exact starts_number (.inr rfl) h
  split
  · rename_i hm ho
    exact starts_operator ho (by simpa using hm)
  split
  · rename_i hd
    exact starts_number (s := []) (.inl rfl) (by simpa [startsWithDigit] using hd)
  split
  · rename_i hl
    exact starts_ident hl
  rename_i ho hc hq hm hop hd hl
  have hbound : isBoundary c = false := by simp [isBoundary, hb, ho, hc]
  refine starts_of_not_word (w := []) (.inl ⟨rfl, by simp [isPlain, hbound, hq, hs]⟩) hbound fun kind v _ hk => ?_
  rcases hk.cons_cases with ⟨-, h, -⟩ | ⟨-, h, -⟩ | ⟨-, h | ⟨rfl, -⟩⟩
  · exact hl h
  · exact hop h
  · exact hd h
  · exact hop (by decide)

/-! ## What starts a text is read -/

theorem isPlain_of_word_run {c : Char} {cs : List Char} {kind : Token.Kind} (h : Word kind (run (c :: cs))) :
    isPlain c = true := by
  have hpre : run (c :: cs) <+: c :: cs := List.takeWhile_prefix _
  cases hrun : run (c :: cs) with
  | nil => exact absurd hrun h.ne_nil
  | cons d ds =>
    rw [hrun] at hpre h
    obtain ⟨rfl, -⟩ := List.cons_prefix_cons.1 hpre
    exact isPlain_of_word h

theorem Starts.plain_cases {c : Char} {cs : List Char} {l : Lexeme} (h : Starts (c :: cs) l) (hp : isPlain c = true) :
    (∃ kind, Word kind (run (c :: cs)) ∧ l = ⟨kind, run (c :: cs)⟩) ∨
    ((∀ kind, ¬ Word kind (run (c :: cs))) ∧ ∃ w d, LongestWord w (run (c :: cs)) ∧ w ++ [d] <+: run (c :: cs) ∧
      l = ⟨.invalid, w ++ [d]⟩) := by
  cases h with
  | openParen => exact absurd hp (by decide)
  | closeParen => exact absurd hp (by decide)
  | string => exact absurd hp (by decide)
  | gluedString => exact absurd hp (by decide)
  | openString => exact absurd hp (by decide)
  | word hw => exact .inl ⟨_, hw, rfl⟩
  | noWord _ hno hlong hd => exact .inr ⟨hno, _, _, hlong, hd, rfl⟩

theorem starts_read_of_plain {c : Char} (cs : List Char) (hp : isPlain c = true) : Starts (c :: cs) (read c cs) := by
  simp only [isPlain, isBoundary, Bool.and_eq_true, Bool.not_eq_true', Bool.or_eq_false_iff, bne_iff_ne] at hp
  exact starts_read cs hp.1.1.1.1 hp.2

/-- **What a text starts with is what `read` reads**, so a text starts with one token at most. -/
theorem eq_read_of_starts {c : Char} {cs : List Char} {l : Lexeme} (h : Starts (c :: cs) l) : l = read c cs := by
  have hread := starts_read_of_plain (c := c) cs
  cases h with
  | openParen => rfl
  | closeParen => rfl
  | string hq hn hb =>
    change _ = quoted _
    rw [quoted_closed hq hn, bounded_of_atBoundary hb]
  | gluedString rest hq hn hb =>
    change _ = quoted _
    rw [quoted_closed hq hn, bounded_of_not_boundary hb]
    simp
  | openString hq hn hr =>
    change _ = quoted _
    rw [quoted_open hq hn hr]
  | word hw =>
    rcases (hread (isPlain_of_word_run hw)).plain_cases (isPlain_of_word_run hw) with ⟨kind, hw', he⟩ | ⟨hno, -⟩
    · rw [he, Word.kind_unique hw hw']
    · exact absurd hw (hno _)
  | noWord hp hno hlong hd =>
    rcases (hread hp).plain_cases hp with ⟨kind, hw, -⟩ | ⟨-, w, d, hlong', hd', he⟩
    · exact absurd hw (hno kind)
    · rw [he, LongestWord.unique hlong hlong' hd hd']

end Lexeme

end MiniLisp
