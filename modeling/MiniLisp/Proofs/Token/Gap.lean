import MiniLisp.Proofs.Token.Start
/-!
# Gap — what may stand between tokens

A `Gap` is made of blanks and of comments with the line feed that ends them; behind the last token a comment may also
run to the end of the text (`LastGap`).  Every text is a gap in front of a token, or a last gap (`exists_gap`), and
`gapSize` counts that gap.
-/
namespace MiniLisp

inductive Gap : List Char → Prop
  | nil : Gap []
  | blank {c : Char} {gap : List Char} : Text.isBlank c = true → Gap gap → Gap (c :: gap)
  | comment {body gap : List Char} : '\n' ∉ body → Gap gap → Gap (';' :: (body ++ '\n' :: gap))

inductive LastGap : List Char → Prop
  | gap {gap : List Char} : Gap gap → LastGap gap
  | comment {gap body : List Char} : Gap gap → '\n' ∉ body → LastGap (gap ++ ';' :: body)

/-- A token may start with this character. -/
def isStart (c : Char) : Bool := !Text.isBlank c && c != ';'

theorem Gap.append {gap gap' : List Char} (h : Gap gap) (h' : Gap gap') : Gap (gap ++ gap') := by
  induction h with
  | nil => exact h'
  | blank hc _ ih => exact .blank hc ih
  | comment hb _ ih =>
    rw [List.cons_append, List.append_assoc, List.cons_append]
    exact .comment hb ih

theorem LastGap.prepend {gap rest : List Char} (h : Gap gap) (hr : LastGap rest) : LastGap (gap ++ rest) := by
  cases hr with
  | gap hr => exact .gap (h.append hr)
  | comment hg hb =>
    rw [← List.append_assoc]
    exact .comment (h.append hg) hb

/-! ## How long a gap is -/

theorem commentSize_append {body : List Char} (h : '\n' ∉ body) (cs : List Char) :
    commentSize (body ++ '\n' :: cs) = body.length + (gapSize cs + 1) := by
  induction body with
  | nil => simp [commentSize]
  | cons c body ih =>
    have hc : c ≠ '\n' := fun e => h (by simp [e])
    simp only [List.cons_append, commentSize, hc, if_false, List.length_cons]
    rw [ih (fun hm => h (by simp [hm]))]
    omega

theorem commentSize_eq_length {body : List Char} (h : '\n' ∉ body) : commentSize body = body.length := by
  induction body with
  | nil => simp [commentSize]
  | cons c body ih =>
    have hc : c ≠ '\n' := fun e => h (by simp [e])
    simp only [commentSize, hc, if_false, List.length_cons]
    rw [ih (fun hm => h (by simp [hm]))]

theorem not_blank_semicolon : Text.isBlank ';' = false := by decide

theorem gapSize_append {gap : List Char} (h : Gap gap) (cs : List Char) :
    gapSize (gap ++ cs) = gap.length + gapSize cs := by
  induction h with
  | nil => simp
  | blank hc _ ih =>
    simp only [List.cons_append, gapSize, hc, if_true, ih, List.length_cons]
    omega
  | comment hb _ ih =>
    rw [List.cons_append, List.append_assoc, List.cons_append, gapSize, if_neg (by simp [not_blank_semicolon]),
      if_pos rfl, commentSize_append hb, ih]
    simp
    omega

theorem gapSize_start {cs : List Char} (h : ∀ c ∈ cs.head?, isStart c = true) : gapSize cs = 0 := by
  cases cs with
  | nil => simp [gapSize]
  | cons c cs =>
    have hc := h c rfl
    simp only [isStart, Bool.and_eq_true, Bool.not_eq_true', bne_iff_ne] at hc
    simp [gapSize, hc.1, hc.2]

theorem gapSize_last {rest : List Char} (h : LastGap rest) : gapSize rest = rest.length := by
  cases h with
  | gap h => simpa [gapSize] using gapSize_append h []
  | comment h hb =>
    rw [gapSize_append h, gapSize, if_neg (by simp [not_blank_semicolon]), if_pos rfl, commentSize_eq_length hb]
    simp

/-! ## Every text has a gap in front -/

theorem exists_gap : ∀ cs : List Char,
    LastGap cs ∨ ∃ gap c rest, cs = gap ++ c :: rest ∧ Gap gap ∧ isStart c = true
  | [] => .inl (.gap .nil)
  | c :: cs => by
    by_cases hb : Text.isBlank c = true
    · rcases exists_gap cs with h | ⟨gap, d, rest, rfl, hg, hd⟩
      · exact .inl (h.prepend (.blank hb .nil))
      · exact .inr ⟨c :: gap, d, rest, rfl, .blank hb hg, hd⟩
    by_cases hs : c = ';'
    · subst hs
      by_cases hn : '\n' ∈ cs
      case neg => exact .inl (.comment .nil hn)
      obtain ⟨body, rest, rfl, hbody⟩ := List.eq_append_cons_of_mem hn
      have hc : Gap (';' :: (body ++ ['\n'])) := .comment hbody .nil
      have hcons : ';' :: (body ++ '\n' :: rest) = (';' :: (body ++ ['\n'])) ++ rest := by simp
      rcases exists_gap rest with h | ⟨gap, d, rest, rfl, hg, hd⟩
      · rw [hcons]
        exact .inl (h.prepend hc)
      · rw [hcons]
        exact .inr ⟨_, d, rest, (List.append_assoc _ _ _).symm, hc.append hg, hd⟩
    · exact .inr ⟨[], c, cs, rfl, .nil, by simp [isStart, hb, hs]⟩
  termination_by cs => cs.length

namespace Lexeme

/-! ## Where a token may start -/

theorem isStart_of_isPlain {c : Char} (h : isPlain c = true) : isStart c = true := by
  simp only [isPlain, isBoundary, Bool.and_eq_true, Bool.not_eq_true', Bool.or_eq_false_iff, bne_iff_ne] at h
  simp [isStart, h.1.1.1.1, h.2]

theorem Starts.exists_cons {cs : List Char} {l : Lexeme} (h : Starts cs l) :
    ∃ c rest, cs = c :: rest ∧ isStart c = true := by
  cases h with
  | openParen cs => exact ⟨_, _, rfl, by decide⟩
  | closeParen cs => exact ⟨_, _, rfl, by decide⟩
  | string => exact ⟨_, _, rfl, by decide⟩
  | gluedString => exact ⟨_, _, rfl, by decide⟩
  | openString => exact ⟨_, _, rfl, by decide⟩
  | word hw =>
    cases cs with
    | nil => exact absurd rfl hw.ne_nil
    | cons c cs => exact ⟨c, cs, rfl, isStart_of_isPlain (isPlain_of_word_run hw)⟩
  | noWord hp => exact ⟨_, _, rfl, isStart_of_isPlain hp⟩

theorem Starts.text {cs : List Char} {l : Lexeme} (h : Starts cs l) : l.text ≠ [] ∧ l.text <+: cs := by
  cases h with
  | openParen cs => exact ⟨by simp, by simp⟩
  | closeParen cs => exact ⟨by simp, by simp⟩
  | string => exact ⟨by simp, by simp⟩
  | gluedString => exact ⟨by simp, by simp⟩
  | openString => exact ⟨by simp, by simp⟩
  | word hw => exact ⟨hw.ne_nil, List.takeWhile_prefix _⟩
  | noWord _ _ _ hd => exact ⟨by simp, hd.trans (List.takeWhile_prefix _)⟩

theorem exists_starts {c : Char} (cs : List Char) (h : isStart c = true) :
    ∃ kind text rest, c :: cs = text ++ rest ∧ Starts (text ++ rest) ⟨kind, text⟩ := by
  simp only [isStart, Bool.and_eq_true, Bool.not_eq_true', bne_iff_ne] at h
  have hr := starts_read cs h.1 h.2
  obtain ⟨rest, hrest⟩ := hr.text.2
  exact ⟨_, _, rest, hrest.symm, by rw [hrest]; exact hr⟩

end Lexeme

end MiniLisp
