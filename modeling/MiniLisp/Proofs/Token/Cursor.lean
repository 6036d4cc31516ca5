import MiniLisp.Proofs.Token.Lexing
/-!
# Cursor — a reader that is asked for one token after another

A reader is asked with `next` and with `advance`, in any order and any number of times.  Both read the next token, and
`advance` also moves the cursor to it.  The answers are the tokens of the source, each once and in order, then how the
tokens end, and nothing from then on (`TokenReader.serve_delivers`): a reader that is done answers that there is no
token, and stays as it is (`TokenReader.spent_of_done`).
-/
namespace MiniLisp

/-- What a reader is asked for. -/
inductive TokenReader.Request where
  | next
  | advance
  deriving DecidableEq, Repr

/-- What it answers: a token, none, or a forbidden character that it met. -/
abbrev TokenReader.Answer := Except Forbidden (Option Token)

/-- The answer of a reader that comes to the end of its tokens. -/
def Ending.answer : Ending → TokenReader.Answer
  | .ended _ => .ok none
  | .refused cause => .error cause

/-- The answers behind which no token follows. -/
inductive TokenReader.Final : TokenReader.Answer → Prop
  | none : Final (.ok none)
  | invalid {t : Token} : t.kind = .invalid → Final (.ok (some t))
  | refused (cause : Forbidden) : Final (.error cause)

theorem Scanner.done_of_refusal {s : Scanner} {cause : Forbidden} (h : s.refusal? = some cause) : s.done = true := by
  unfold refusal? at h
  split at h
  · rename_i hplace
    rw [done, hplace]
  · cases h

namespace TokenReader

def ask (r : TokenReader) : Request → Answer × TokenReader
  | .next => r.next
  | .advance => r.advance

/-- **A reader that is asked for one token after another**, with all that it answers. -/
def serve : List Request → TokenReader → List Answer × TokenReader
  | [], r => ([], r)
  | q :: qs, r => ((r.ask q).1 :: (serve qs (r.ask q).2).1, (serve qs (r.ask q).2).2)

/-- The token that a request leaves at the cursor, if it moves it there. -/
def moved? : Request × Answer → Option (Option Token)
  | (.advance, .ok token) => some token
  | (.advance, .error _) | (.next, _) => none

/-- The token at the cursor: the answer to the latest `advance` that did not fail. -/
def latest (log : List (Request × Answer)) : Option Token := (log.reverse.findSome? moved?).getD none

/-- No token follows: every later request is answered so, and moves nothing. -/
def Spent (r : TokenReader) : Prop :=
  ∀ requests : List Request, (serve requests r).1 = List.replicate requests.length (.ok none) ∧
    (serve requests r).2.scanner = r.scanner ∧ (serve requests r).2.done = true

variable {r : TokenReader} {q : Request}

/-! ## One request -/

theorem token_next (r : TokenReader) : r.next.2.token = r.token := by
  unfold next
  split
  · rfl
  · dsimp only
    split
    · split <;> rfl
    · split <;> rfl

/-- A request reads the next token, and differs from any other in what it leaves at the cursor. -/
theorem ask_eq (r : TokenReader) (q : Request) :
    r.ask q = (r.next.1, { r.next.2 with token := (moved? (q, r.next.1)).getD r.token }) := by
  have htoken := token_next r
  cases q with
  | next =>
    rw [ask, moved?, Option.getD_none, ← htoken]
  | advance =>
    rw [ask, advance]
    generalize r.next = answered at htoken ⊢
    obtain ⟨_ | _, r'⟩ := answered
    · rw [moved?, Option.getD_none, ← htoken]
    · rw [moved?, Option.getD_some]

/-- The cursor plays no part in reading. -/
theorem next_token (r : TokenReader) (token : Option Token) :
    { r with token := token }.next = (r.next.1, { r.next.2 with token := token }) := by
  have hdone : { r with token := token }.done = r.done := rfl
  have hat : { r with token := token }.atToken = r.atToken := rfl
  unfold next
  rw [hdone, hat]
  split
  · rfl
  · dsimp only
    split
    · split <;> rfl
    · split <;> rfl

theorem next_of_done (h : r.done = true) : r.next = (.ok none, { r with halted := true }) := by
  unfold next
  rw [if_pos h]

/-- **What one read can do**: it fails, or finds no token, or delivers one. -/
theorem next_cases (r : TokenReader) :
    (∃ cause, r.next.1 = .error cause ∧ r.next.2.done = true) ∨
    (r.next.1 = .ok none ∧ r.next.2.halted = true) ∨
    ∃ t, r.next.1 = .ok (some t) ∧ r.next.2.halted = (t.kind == .invalid) := by
  unfold next
  split
  · exact .inr (.inl ⟨rfl, rfl⟩)
  dsimp only
  split
  · split
    · rename_i cause hcause
      refine .inl ⟨cause, rfl, ?_⟩
      rw [TokenReader.done, Scanner.done_of_refusal hcause, Bool.or_true]
    · exact .inr (.inl ⟨rfl, rfl⟩)
  · split
    · rename_i cause hcause
      refine .inl ⟨cause, rfl, ?_⟩
      rw [TokenReader.done, Scanner.done_of_refusal hcause, Bool.or_true]
    · exact .inr (.inr ⟨_, rfl, rfl⟩)

/-- Behind a final answer the reader is done. -/
theorem done_of_final (h : Final r.next.1) : r.next.2.done = true := by
  rcases next_cases r with ⟨cause, -, hdone⟩ | ⟨-, hhalted⟩ | ⟨t, ht, hhalted⟩
  · exact hdone
  · rw [TokenReader.done, hhalted, Bool.true_or]
  · rw [ht] at h
    cases h with
    | invalid hkind => rw [TokenReader.done, hhalted, hkind, beq_self_eq_true, Bool.true_or]

/-! ## One request after another -/

theorem length_serve : ∀ (requests : List Request) (r : TokenReader),
    (serve requests r).1.length = requests.length
  | [], _ => rfl
  | q :: qs, r => by rw [serve, List.length_cons, List.length_cons, length_serve qs]

/-- **A reader that is done has no more tokens**, and stays as it is. -/
theorem spent_of_done (h : r.done = true) : Spent r := by
  intro requests
  induction requests generalizing r with
  | nil => exact ⟨rfl, rfl, h⟩
  | cons q qs ih =>
    have hask : r.ask q = (.ok none, { r with halted := true, token := (moved? (q, .ok none)).getD r.token }) := by
      rw [ask_eq, next_of_done h]
    have hdone : (r.ask q).2.done = true := by rw [hask, TokenReader.done, Bool.true_or]
    obtain ⟨hanswers, hscanner, hlater⟩ := ih hdone
    rw [serve]
    refine ⟨?_, hscanner.trans (by rw [hask]), hlater⟩
    rw [hanswers, hask, List.length_cons, List.replicate_succ]

theorem done_ask_of_final (h : Final (r.ask q).1) : (r.ask q).2.done = true := by
  rw [ask_eq] at h ⊢
  exact done_of_final h

/-- Behind a final answer there are no more tokens. -/
theorem spent_of_final {answer : Answer} {requests : List Request} (hmem : answer ∈ (serve requests r).1)
    (hfinal : Final answer) : Spent (serve requests r).2 := by
  induction requests generalizing r with
  | nil => cases hmem
  | cons q qs ih =>
    rw [serve] at hmem ⊢
    rcases List.mem_cons.1 hmem with rfl | hmem
    · exact spent_of_done (spent_of_done (done_ask_of_final hfinal) qs).2.2
    · exact ih hmem

/-! ## What is delivered -/

/-- Where no token is left, the first answer says how they end, and the others that there is none. -/
theorem serve_of_final (requests : List Request) (h : Final r.next.1) :
    (serve requests r).1 <+: r.next.1 :: List.replicate requests.length (.ok none) := by
  cases requests with
  | nil => exact List.nil_prefix
  | cons q qs =>
    have hanswer : (r.ask q).1 = r.next.1 := by rw [ask_eq]
    have hdone : (r.ask q).2.done = true := done_ask_of_final (hanswer ▸ h)
    rw [serve, (spent_of_done hdone qs).1, hanswer, List.length_cons, List.replicate_succ', List.prefix_cons_inj]
    exact List.prefix_append _ _

/-- The cursor plays no part in what is left. -/
theorem drain_token (r : TokenReader) (token : Option Token) : { r with token := token }.drain = r.drain := by
  have hnext := next_token r token
  cases hn : r.next with
  | mk answer r' =>
    rw [hn] at hnext
    match answer with
    | .error cause => rw [drain_error hnext, drain_error hn]
    | .ok none =>
      rw [drain_none hnext, drain_none hn]
      rfl
    | .ok (some t) =>
      have hlt := left_next_lt hn
      rw [drain_some hnext, drain_some hn, drain_token r' token]
  termination_by r.left

/-- **A reader answers with the tokens that are left**, with how they end, and then that there is none. -/
theorem serve_prefix : ∀ (requests : List Request) (r : TokenReader), (serve requests r).1 <+:
    r.drain.1.map (fun t => .ok (some t)) ++ r.drain.2.answer :: List.replicate requests.length (.ok none)
  | [], r => List.nil_prefix
  | q :: qs, r => by
    cases hn : r.next with
    | mk answer r' =>
      match answer with
      | .error cause =>
        have hspent := serve_of_final (q :: qs) (hn ▸ Final.refused cause : Final r.next.1)
        rw [hn] at hspent
        rwa [drain_error hn]
      | .ok none =>
        have hspent := serve_of_final (q :: qs) (hn ▸ Final.none : Final r.next.1)
        rw [hn] at hspent
        rwa [drain_none hn]
      | .ok (some t) =>
        have hrest := serve_prefix qs (r.ask q).2
        rw [ask_eq, hn, drain_token] at hrest
        rw [serve, ask_eq, hn, drain_some hn, List.map_cons, List.cons_append, List.prefix_cons_inj]
        refine hrest.trans ((List.prefix_append_right_inj _).2 ((List.prefix_cons_inj _).2 ?_))
        rw [List.length_cons, List.replicate_succ']
        exact List.prefix_append _ _

/-- The cursor holds the answer to the latest `advance` that did not fail, or else what it held. -/
theorem token_serve : ∀ (requests : List Request) (r : TokenReader), (serve requests r).2.token =
    ((requests.zip (serve requests r).1).reverse.findSome? moved?).getD r.token
  | [], r => rfl
  | q :: qs, r => by
    have hmoved : (r.ask q).2.token = (moved? (q, (r.ask q).1)).getD r.token := by rw [ask_eq]
    rw [serve, token_serve qs, hmoved, List.zip_cons_cons, List.reverse_cons, List.findSome?_append,
      List.findSome?_singleton, Option.getD_or]

/-- **A reader delivers every token once.**  Whatever it is asked for, its answers are the first tokens of the source,
in order; behind the last one stands how they end, and then that there is none.  After an answer that is no token, or an
invalid one, and as soon as the reader is done, no token follows and nothing moves.  The cursor holds the answer to the
latest `advance` that did not fail. -/
theorem serve_delivers (source : String) (text : List Char) (requests : List Request) :
    (serve requests (ofText source text)).1.length = requests.length ∧
    (serve requests (ofText source text)).1 <+: (ofText source text).drain.1.map (fun t => .ok (some t)) ++
      (ofText source text).drain.2.answer :: List.replicate requests.length (.ok none) ∧
    (∀ answer ∈ (serve requests (ofText source text)).1, Final answer →
      Spent (serve requests (ofText source text)).2) ∧
    ((serve requests (ofText source text)).2.done = true → Spent (serve requests (ofText source text)).2) ∧
    (serve requests (ofText source text)).2.token =
      latest (requests.zip (serve requests (ofText source text)).1) := by
  refine ⟨length_serve _ _, serve_prefix _ _, fun answer => spent_of_final, spent_of_done, ?_⟩
  exact token_serve requests (ofText source text)

/-- A NUL inside of a string is refused once, and the string is lost. -/
theorem serve_refused : Except.error ⟨'\x00', ⟨"a", 1, 5⟩⟩ ∈
      (serve [.advance, .next] (ofText "a" ['b', ' ', '"', 'c', '\x00', '"'])).1 ∧
    Final (.error ⟨'\x00', ⟨"a", 1, 5⟩⟩) ∧
    Spent (serve [.advance, .next] (ofText "a" ['b', ' ', '"', 'c', '\x00', '"'])).2 :=
  have h : Except.error ⟨'\x00', ⟨"a", 1, 5⟩⟩ ∈
      (serve [.advance, .next] (ofText "a" ['b', ' ', '"', 'c', '\x00', '"'])).1 :=
    List.mem_cons_of_mem _ List.mem_cons_self
  ⟨h, .refused _, (serve_delivers "a" _ _).2.2.1 _ h (.refused _)⟩

end TokenReader

end MiniLisp
