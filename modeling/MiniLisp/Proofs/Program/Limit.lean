import MiniLisp.Program.File
import MiniLisp.Proofs.Program.Levels
/-!
# Limit — how many forms may be open

Only a parenthesis that opens a form asks for the limit.  So a source is parsed alike under all limits, except those
under which it fails because its forms nest too deeply (`Program.parse_of_le`), and so is a file
(`Program.parseFile_of_le`).
-/
namespace MiniLisp

/-- The tokens of a source carry its name. -/
theorem TokenReader.source_of_mem_drain {source : String} {text : List Char} {t : Token}
    (h : t ∈ (ofText source text).drain.1) : t.pos.source = source := by
  obtain ⟨tokens, hl⟩ := exists_lexing source [] (Scanner.permitted text)
  obtain ⟨_, hpos⟩ := hl.pos_behind t ((drain_prefix_of_lexing hl (inFront_ofText source text)).mem h)
  rw [hpos]
  rfl

namespace Program

variable {limit limit' : Nat}

theorem openForm_of_le (hle : limit ≤ limit') (p : Program) (t : Token) :
    p.openForm limit t = p.openForm limit' t ∨ p.openForm limit t = .error (.nestedTooDeeply t.pos.source) := by
  unfold openForm
  by_cases hlimit : p.forms.length < limit
  · rw [if_pos hlimit, if_pos (Nat.lt_of_lt_of_le hlimit hle)]
    exact .inl rfl
  · rw [if_neg hlimit]
    exact .inr rfl

theorem item_of_le (hle : limit ≤ limit') (behind : Option Forbidden) (p : Program) (t : Token) :
    p.item limit behind t = p.item limit' behind t ∨
      p.item limit behind t = .error (.nestedTooDeeply t.pos.source) := by
  by_cases hkind : t.kind = .openParen
  · unfold item
    rw [hkind]
    exact openForm_of_le hle p t
  · refine .inl ?_
    unfold item
    split
    · contradiction
    all_goals rfl

theorem step_of_le (hle : limit ≤ limit') (behind : Option Forbidden) (p : Program) (t : Token) :
    p.step limit behind t = p.step limit' behind t ∨
      p.step limit behind t = .error (.nestedTooDeeply t.pos.source) := by
  have hitem := item_of_le hle behind p t
  obtain ⟨finished, forms⟩ := p
  cases forms with
  | nil => exact hitem
  | cons f fs =>
    obtain ⟨start, shape, parts⟩ := f
    cases shape with
    | fnHead | fnParams params => exact .inl rfl
    | undecided =>
      unfold step
      dsimp only
      split
      · exact .inl rfl
      · exact hitem
    | call | cond _ | define _ | fnBody _ => exact hitem

/-- **A pass over tokens goes alike under a larger limit**, unless one of them opens a form too many. -/
theorem steps_of_le (hle : limit ≤ limit') (ending : Ending) : ∀ (ts : List Token) (p : Program),
    steps limit ending p ts = steps limit' ending p ts ∨
      ∃ t ∈ ts, steps limit ending p ts = .error (.nestedTooDeeply t.pos.source)
  | [], p => .inl rfl
  | t :: ts, p => by
    rw [steps, steps]
    rcases step_of_le hle (if ts.isEmpty then ending.refusal? else none) p t with hsame | hdeep
    · rw [hsame]
      cases p.step limit' (if ts.isEmpty then ending.refusal? else none) t with
      | error e => exact .inl rfl
      | ok p' =>
        rcases steps_of_le hle ending ts p' with hrest | ⟨u, hu, hdeep⟩
        · exact .inl hrest
        · exact .inr ⟨u, List.mem_cons_of_mem t hu, hdeep⟩
    · rw [hdeep]
      exact .inr ⟨t, List.mem_cons_self, rfl⟩

/-- **A source is parsed alike under a larger limit**, unless its forms nest too deeply for the smaller one. -/
theorem parse_of_le (hle : limit ≤ limit') (source text : String) :
    parse limit source text = parse limit' source text ∨
      parse limit source text = .error (.nestedTooDeeply source) := by
  rcases steps_of_le hle (TokenReader.ofText source text.toList).drain.2
    (TokenReader.ofText source text.toList).drain.1 empty with hsame | ⟨t, ht, hdeep⟩
  · exact .inl hsame
  · rw [TokenReader.source_of_mem_drain ht] at hdeep
    exact .inr hdeep

/-- **So is a file**, whether it can be decoded to its end or not. -/
theorem parseFile_of_le (hle : limit ≤ limit') (path : String) (file : File) :
    parseFile limit path file = parseFile limit' path file ∨
      parseFile limit path file = .error (.program (.nestedTooDeeply path)) := by
  unfold parseFile
  split
  · exact .inl rfl
  · exact .inl rfl
  · split
    · exact .inl rfl
    · rename_i text _
      rcases parse_of_le hle path (String.ofList (Text.joinLineEnds text)) with hsame | hdeep
      · exact .inl (congrArg _ hsame)
      · exact .inr (by rw [hdeep]; rfl)
    · rename_i text cut _
      unfold parseCutOff
      rcases parse_of_le hle path (String.ofList (Text.joinLineEnds (beforeCut text) ++ ['\x00'])) with hsame | hdeep
      · exact .inl (by rw [hsame])
      · exact .inr (by rw [hdeep])

end Program

end MiniLisp
