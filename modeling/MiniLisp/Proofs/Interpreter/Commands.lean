import MiniLisp.Proofs.Interpreter.Pieces
import MiniLisp.Proofs.Interpreter.Twice
/-!
# Commands — what an interpreter is asked for, and what it shows

An interpreter is asked to parse, to evaluate or to run sources.  What it shows of each command is the reply, what was
printed, and its script frame.  In machines that correspond it shows the same up to the numbers of frames and marks
(`serve_matches`), and a command changes no frame that was there but the script frame (`serve_advances`).
-/
namespace MiniLisp

inductive Command where
  | parse (source text : String)
  | evaluate (es : List Expr)
  | run (source text : String)

inductive Reply where
  | parsed (result : Except Error (List Expr))
  | evaluated (result : Except Error (List Value))

/-- What is to be seen of a command. -/
structure Answer where
  reply : Reply
  /-- What was printed meanwhile. -/
  printed : List String
  /-- The script frame afterwards. -/
  script : Option Frame

namespace Interpreter

/-- The answer of an evaluation that started in `m`. -/
def answer (i : Interpreter) (m : Machine) : EStateM.Result Error Machine (List Value) → Answer × Machine
  | .ok vs m' => (⟨.evaluated (.ok vs), m'.printed.toList.drop m.printed.size, m'.store.frame? i.frame⟩, m')
  | .error e m' => (⟨.evaluated (.error e), m'.printed.toList.drop m.printed.size, m'.store.frame? i.frame⟩, m')

def serve (i : Interpreter) (c : Command) (m : Machine) : Answer × Machine :=
  match c with
  | .parse source text => (⟨.parsed (i.parse source text), [], m.store.frame? i.frame⟩, m)
  | .evaluate es => i.answer m (i.evalExprs es m)
  | .run source text => i.answer m (i.evalAll source text m)

/-- Commands one after the other. -/
def session (i : Interpreter) : List Command → Machine → List Answer × Machine
  | [], m => ([], m)
  | c :: cs, m => ((i.serve c m).1 :: (i.session cs (i.serve c m).2).1, (i.session cs (i.serve c m).2).2)

theorem session_concat (i : Interpreter) (c : Command) : ∀ (cs : List Command) (m : Machine),
    i.session (cs ++ [c]) m =
      ((i.session cs m).1 ++ [(i.serve c (i.session cs m).2).1], (i.serve c (i.session cs m).2).2)
  | [], m => rfl
  | d :: cs, m => by
    rw [List.cons_append, session, session_concat i c cs]
    rfl

end Interpreter

/-! ## Answers that correspond -/

/-- Nothing but the numbers of frames and marks is different, and different ones stay different. -/
structure Correspondence.Renames (k : Correspondence Unit) : Prop where
  place : k.place = fun _ => Eq
  mark : k.mark.Injective

inductive Reply.Matches (k : Correspondence Unit) : Reply → Reply → Prop
  | parsed (result : Except Error (List Expr)) : Matches k (.parsed result) (.parsed result)
  | ok {vs ws : List Value} : List.Forall₂ k.Values vs ws → Matches k (.evaluated (.ok vs)) (.evaluated (.ok ws))
  | error (e : Error) : Matches k (.evaluated (.error e)) (.evaluated (.error e))

/-- **Answers that are the same up to the numbers of frames and marks.** -/
structure Answer.Matches (k : Correspondence Unit) (a b : Answer) : Prop where
  reply : a.reply.Matches k b.reply
  printed : a.printed = b.printed
  script : Option.Rel (Frame.Matches k.frame k.Values) a.script b.script

namespace Interpreter

variable {k : Correspondence Unit} {i j : Interpreter} {m n : Machine}

/-- What machines that correspond have printed since others that did is the same. -/
theorem printed_matches {m' n' : Machine} (hmn : k.Machines m n) (hmn' : k.Machines m' n') :
    m'.printed.toList.drop m.printed.size = n'.printed.toList.drop n.printed.size := by
  obtain ⟨texts, hm, hn⟩ := hmn.printed
  obtain ⟨texts', hm', hn'⟩ := hmn'.printed
  have hdrop : ∀ before : Array String, (before ++ texts').toList.drop (before ++ texts).size =
      texts'.toList.drop texts.size := by
    intro before
    rw [Array.toList_append, Array.size_append, ← Array.length_toList, List.drop_length_add_append]
  rw [hm, hn, hm', hn', hdrop, hdrop]

theorem script_matches (hi : k.frame i.frame = j.frame) (hmn : k.Machines m n) :
    Option.Rel (Frame.Matches k.frame k.Values) (m.store.frame? i.frame) (n.store.frame? j.frame) :=
  hi ▸ hmn.store.frame? i.frame

theorem answer_error_matches {m' n' : Machine} (hmn : k.Machines m n) (hi : k.frame i.frame = j.frame)
    (hmn' : k.Machines m' n') (e : Error) :
    (i.answer m (.error e m')).1.Matches k (j.answer n (.error e n')).1 ∧ k.Machines m' n' :=
  ⟨⟨.error e, printed_matches hmn hmn', script_matches hi hmn'⟩, hmn'⟩

theorem answer_matches (hk : k.Renames) (hmn : k.Machines m n) (hi : k.frame i.frame = j.frame)
    {r r' : EStateM.Result Error Machine (List Value)} (h : k.SessionEnds (List.Forall₂ k.Values) r r') :
    (i.answer m r).1.Matches k (j.answer n r').1 ∧ k.Machines (i.answer m r).2 (j.answer n r').2 := by
  cases h with
  | ok hmn' hvws => exact ⟨⟨.ok hvws, printed_matches hmn hmn', script_matches hi hmn'⟩, hmn'⟩
  | error hmn' he =>
    obtain ⟨_, he⟩ := he
    rw [hk.place] at he
    obtain rfl := he.eq
    exact answer_error_matches hmn hi hmn' _

/-- **A command is answered alike in machines that correspond.** -/
theorem serve_matches (hk : k.Renames) (hmn : k.Machines m n) (hi : k.frame i.frame = j.frame)
    (hlimit : i.limit = j.limit) (c : Command) :
    (i.serve c m).1.Matches k (j.serve c n).1 ∧ k.Machines (i.serve c m).2 (j.serve c n).2 := by
  have hparse : ∀ source text, i.parse source text = j.parse source text := fun source text => by
    rw [parse, parse, hlimit]
  have hevaluate : ∀ es : List Expr, (i.answer m (i.evalExprs es m)).1.Matches k (j.answer n (j.evalExprs es n)).1 ∧
      k.Machines (i.answer m (i.evalExprs es m)).2 (j.answer n (j.evalExprs es n)).2 := by
    intro es
    have hlike : List.Forall₂ (Expr.Like (k.place ())) es es := by
      rw [hk.place]
      exact Expr.forall₂_like_refl (fun _ => rfl) es
    exact answer_matches hk hmn hi (evalExprs_corresponds hi hlimit hmn hlike)
  cases c with
  | parse source text =>
    rw [serve, serve, hparse]
    exact ⟨⟨.parsed _, rfl, script_matches hi hmn⟩, hmn⟩
  | evaluate es => exact hevaluate es
  | run source text =>
    rw [serve, serve, evalAll, evalAll, hparse]
    cases j.parse source text with
    | ok es => exact hevaluate es
    | error e => exact answer_error_matches hmn hi hmn e

end Interpreter

/-! ## What a command does to a machine -/

/-- **What may happen to a machine in the script frame `F`**: nothing that was there changes but this frame. -/
structure Machine.Advances (F : FrameId) (m m' : Machine) : Prop where
  sound : m'.Sound
  grows : m.Grows m'
  size_le : m.store.frames.size ≤ m'.store.frames.size
  frame?_eq : ∀ G < m.store.frames.size, G ≠ F → m'.store.frame? G = m.store.frame? G

/-- What an answer shows belongs to the machine. -/
structure Answer.Held (m : Machine) (a : Answer) : Prop where
  reply : ∀ vs, a.reply = .evaluated (.ok vs) → ∀ v ∈ vs, m.Holds v
  bindings : ∀ f ∈ a.script, ∀ v ∈ f.bindings.values, m.Holds v
  outer : ∀ f ∈ a.script, ∀ G ∈ f.outer, G < m.store.frames.size

variable {F : FrameId} {m m' m'' : Machine}

theorem Machine.Advances.refl (h : m.Sound) : m.Advances F m := ⟨h, .refl, Nat.le_refl _, fun _ _ _ => rfl⟩

theorem Machine.Advances.trans (h : m.Advances F m') (h' : m'.Advances F m'') : m.Advances F m'' where
  sound := h'.sound
  grows := h.grows.trans h'.grows
  size_le := Nat.le_trans h.size_le h'.size_le
  frame?_eq := fun G hG hne => by
    rw [h'.frame?_eq G (Nat.lt_of_lt_of_le hG h.size_le) hne, h.frame?_eq G hG hne]

theorem Answer.Held.advance {a : Answer} (h : m.Advances F m') (ha : a.Held m) : a.Held m' where
  reply := fun vs hvs v hv => (ha.reply vs hvs v hv).grow h.grows
  bindings := fun f hf v hv => (ha.bindings f hf v hv).grow h.grows
  outer := fun f hf G hG => Nat.lt_of_lt_of_le (ha.outer f hf G hG) h.size_le

/-- What a sound machine has in a frame belongs to it. -/
theorem Machine.Sound.held (h : m.Sound) {f : Frame} (hf : m.store.frame? F = some f) :
    (∀ v ∈ f.bindings.values, m.Holds v) ∧ ∀ G ∈ f.outer, G < m.store.frames.size := by
  constructor
  · intro v hv
    refine h.bound F v ?_
    unfold Store.bindings
    rwa [hf]
  · intro G hG
    refine (h.rooted (Store.lt_of_frame? hf)).lt_of_mem_outer G ?_
    unfold Store.outer
    rwa [hf]

namespace Interpreter

variable {i : Interpreter}

theorem evalExpr_advances (hm : m.Sound) (hi : m.store.Scoped i.frame) (e : Expr) :
    match i.evalExpr e m with
    | .ok v m' => m.Advances i.frame m' ∧ m'.Holds v
    | .error _ m' => m.Advances i.frame m' := by
  have hsound := hm.evalExpr hi e
  have hframed := Store.framed_law.eval (maxDepth i.limit) i.frame e m
  have hothers : ∀ {s : Store}, m.store.Framed (some i.frame) e.lets s →
      ∀ G < m.store.frames.size, G ≠ i.frame → s.frame? G = m.store.frame? G := fun hs G hG hne =>
    hs.frame?_eq G hG fun he => hne (Option.some.inj he)
  unfold evalExpr at hsound ⊢
  unfold EvalM.after at hframed
  generalize eval (maxDepth i.limit) i.frame e m = r at hsound hframed
  match r, hsound, hframed with
  | .ok v m', ⟨hm', hgrows, hv⟩, hframed => exact ⟨⟨hm', hgrows, hframed.size_le, hothers hframed⟩, hv⟩
  | .error (.failed e) m', ⟨hm', hgrows, _⟩, hframed => exact ⟨hm', hgrows, hframed.size_le, hothers hframed⟩
  | .error .exhausted m', ⟨hm', hgrows, _⟩, hframed => exact ⟨hm', hgrows, hframed.size_le, hothers hframed⟩

theorem evalExprs_advances (hm : m.Sound) (hi : m.store.Scoped i.frame) (es : List Expr) :
    match i.evalExprs es m with
    | .ok vs m' => m.Advances i.frame m' ∧ ∀ v ∈ vs, m'.Holds v
    | .error _ m' => m.Advances i.frame m' := by
  have hone : ∀ e n, m.Advances i.frame n → match i.evalExpr e n with
      | .ok v n' => n.Advances i.frame n' ∧ n'.Holds v
      | .error _ n' => n.Advances i.frame n' := fun e n hn => evalExpr_advances hn.sound (hn.grows.inside _ hi) e
  have hall := @evalExprs_induction i (fun vs n => m.Advances i.frame n ∧ ∀ v ∈ vs, n.Holds v)
    (fun _ n => m.Advances i.frame n) es m ⟨.refl hm, nofun⟩ ?_ ?_
  · generalize i.evalExprs es m = r at hall
    match r, hall with
    | .error _ m', hall => exact hall
    | .ok vs m', ⟨hm', hvs⟩ => exact ⟨hm', fun v hv => hvs v (List.mem_reverse.2 hv)⟩
  · intro e _ vs n v n' hn heval
    have hends := hone e n hn.1
    rw [heval] at hends
    exact ⟨hn.1.trans hends.1, List.forall_mem_cons.2 ⟨hends.2, fun w hw => (hn.2 w hw).grow hends.1.grows⟩⟩
  · intro e _ vs n failure n' hn heval
    have hends := hone e n hn.1
    rw [heval] at hends
    exact hn.1.trans hends

theorem answer_advances {r : EStateM.Result Error Machine (List Value)}
    (h : match r with
      | .ok vs m' => m.Advances i.frame m' ∧ ∀ v ∈ vs, m'.Holds v
      | .error _ m' => m.Advances i.frame m') :
    m.Advances i.frame (i.answer m r).2 ∧ (i.answer m r).1.Held (i.answer m r).2 := by
  match r, h with
  | .ok vs m', ⟨hm', hvs⟩ =>
    refine ⟨hm', ?_, fun f hf => (hm'.sound.held hf).1, fun f hf => (hm'.sound.held hf).2⟩
    rintro _ ⟨⟩ v hv
    exact hvs v hv
  | .error e m', hm' =>
    exact ⟨hm', nofun, fun f hf => (hm'.sound.held hf).1, fun f hf => (hm'.sound.held hf).2⟩

/-- **A command changes no frame that was there but the script frame**, and what it shows belongs to the machine. -/
theorem serve_advances (hm : m.Sound) (hi : m.store.Scoped i.frame) (c : Command) :
    m.Advances i.frame (i.serve c m).2 ∧ (i.serve c m).1.Held (i.serve c m).2 := by
  cases c with
  | parse source text =>
    exact ⟨.refl hm, nofun, fun f hf => (hm.held hf).1, fun f hf => (hm.held hf).2⟩
  | evaluate es => exact answer_advances (evalExprs_advances hm hi es)
  | run source text =>
    rw [serve, evalAll]
    cases i.parse source text with
    | ok es => exact answer_advances (evalExprs_advances hm hi es)
    | error e => exact answer_advances (.refl hm)

end Interpreter

end MiniLisp
