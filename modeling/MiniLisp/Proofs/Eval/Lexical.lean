import MiniLisp.Proofs.Eval.Invariant
import MiniLisp.Proofs.Expr.Nesting
import MiniLisp.Proofs.Store.Bound
import MiniLisp.Proofs.Store.Rooted
/-!
# Lexical — an expression is evaluated as deep as it lies

An expression that lies inside the bodies of `fn` forms is only evaluated in the frames of calls, as many inside each
other as there are bodies around it, and a closure holds such a frame for its form (`Machine.Lexical.run`).  How deep
calls are nested, and where they are made from, plays no part.
-/
namespace MiniLisp

open Expr (Lies)

/-! ## Frames of calls -/

namespace Store

/-- **The frame `F` lies `level` calls inside the script frame `S`**, which lies inside the root. -/
structure Nested (s : Store) (level : Nat) (S F : FrameId) : Prop where
  within : s.Scoped F
  calls : ∃ calls : List FrameId, calls.length = level ∧ s.chain F = calls ++ [S, root]

/-- Scoped frames stay scoped, and stay where they are. -/
def Preserves (s s' : Store) : Prop := ∀ F, s.Scoped F → s'.Scoped F ∧ s'.outer F = s.outer F

variable {s s' s'' : Store} {level : Nat} {S F : FrameId} {es : Entries Value} {name : String} {v : Value}

namespace Nested

/-- **The root is `level + 1` links away.** -/
theorem length_outer (h : s.Nested level S F) : (s.outer F).length = level + 1 := by
  obtain ⟨calls, hlength, hchain⟩ := h.calls
  have hsize := congrArg List.length hchain
  rw [chain, List.length_cons, List.length_append, hlength, List.length_cons, List.length_singleton] at hsize
  omega

theorem eq_script (h : s.Nested 0 S F) : F = S := by
  obtain ⟨calls, hlength, hchain⟩ := h.calls
  obtain rfl := List.length_eq_zero_iff.1 hlength
  exact (List.cons.inj hchain).1

theorem preserved (h : s.Nested level S F) (hs : s.Preserves s') : s'.Nested level S F where
  within := (hs F h.within).1
  calls := by
    obtain ⟨calls, hlength, hchain⟩ := h.calls
    exact ⟨calls, hlength, by rw [chain, (hs F h.within).2]; exact hchain⟩

/-- A call of a closure is one call further inside. -/
theorem child (h : s.Nested level S F) : (s.child F es).2.Nested (level + 1) S s.frames.size where
  within := h.within.rooted.scoped_child
  calls := by
    obtain ⟨calls, hlength, hchain⟩ := h.calls
    refine ⟨s.frames.size :: calls, by rw [List.length_cons, hlength], ?_⟩
    unfold Store.chain Store.outer
    rw [frame?_child_self]
    exact congrArg _ hchain

end Nested

/-- A script frame lies in no call. -/
theorem nested_script (h : s.frame? root = some rootFrame) :
    (s.child root es).2.Nested 0 s.frames.size s.frames.size where
  within := (Rooted.top h).scoped_child
  calls := by
    refine ⟨[], rfl, ?_⟩
    unfold Store.chain Store.outer
    rw [frame?_child_self]
    unfold Store.chain Store.outer
    rw [h]
    rfl

namespace Preserves

theorem refl : s.Preserves s := fun _ hF => ⟨hF, rfl⟩

theorem trans (h : s.Preserves s') (h' : s'.Preserves s'') : s.Preserves s'' := fun F hF =>
  ⟨(h' F (h F hF).1).1, by rw [(h' F (h F hF).1).2, (h F hF).2]⟩

theorem bind (hF : F ≠ root) : s.Preserves (s.bind F name v) := fun _ hG => ⟨hG.bind hF, outer_bind⟩

theorem child : s.Preserves (s.child F es).2 := fun _ hG => ⟨hG.child, outer_congr (frame?_child hG.rooted.lt)⟩

end Preserves

end Store

/-! ## Code in its place -/

/-- **`e` lies in one of the expressions that are run in script frames, and `F` as deep inside the script frame as `e`
in the expression.** -/
def Store.Places (s : Store) (tops : List (FrameId × Expr)) (F : FrameId) (e : Expr) : Prop :=
  ∃ top ∈ tops, ∃ level, Lies level top.2 e ∧ s.Nested level top.1 F

/-- The frame of a closure is the place of its form. -/
def Function.Lexical (tops : List (FrameId × Expr)) (s : Store) : Function → Prop
  | .closure c => s.Places tops c.frame (.fn c.params c.body c.pos)
  | .builtin _ | .operator _ _ => True

/-- The frames of all closures in a value are the places of their forms. -/
def Value.Lexical (tops : List (FrameId × Expr)) (s : Store) (v : Value) : Prop := ∀ f ∈ v.functions, f.Lexical tops s

def Activation.Lexical (tops : List (FrameId × Expr)) (s : Store) : Activation → Prop
  | .expr F e => s.Places tops F e
  | .call _ f args => f.Lexical tops s ∧ ∀ v ∈ args, v.Lexical tops s

/-- **All closures that a machine binds have their places.** -/
def Machine.Lexical (tops : List (FrameId × Expr)) (m : Machine) : Prop :=
  m.store.Everywhere (Value.Lexical tops m.store)

variable {tops tops' : List (FrameId × Expr)} {s s' : Store}

theorem Function.Lexical.mono (hs : s.Preserves s') (htops : tops ⊆ tops') {f : Function} (h : f.Lexical tops s) :
    f.Lexical tops' s' := by
  cases f with
  | closure c =>
    obtain ⟨top, htop, level, hlies, hnested⟩ := h
    exact ⟨top, htops htop, level, hlies, hnested.preserved hs⟩
  | builtin | operator => trivial

theorem Value.Lexical.mono (hs : s.Preserves s') (htops : tops ⊆ tops') {v : Value} (h : v.Lexical tops s) :
    v.Lexical tops' s' := fun f hf => (h f hf).mono hs htops

/-! ## Evaluation -/

/-- The parts of an expression lie where it lies, and the body of an `fn` form one level deeper. -/
theorem Expr.keeps_lies {level : Nat} {S : FrameId} {e : Expr} (h : ∃ top ∈ tops, top.1 = S ∧ Lies level top.2 e) :
    e.Keeps (fun _ => True) (fun d => ∃ top ∈ tops, top.1 = S ∧ Lies level top.2 d)
      fun d => ∃ top ∈ tops, top.1 = S ∧ Lies (level + 1) top.2 d := by
  obtain ⟨top, htop, hS, hlies⟩ := h
  cases e with
  | call items pos => exact fun d hd => ⟨top, htop, hS, hlies.item hd⟩
  | cond test yes no pos => exact ⟨⟨top, htop, hS, hlies.test⟩, ⟨top, htop, hS, hlies.yes⟩, top, htop, hS, hlies.no⟩
  | fn params body pos => exact fun d hd => ⟨top, htop, hS, hlies.body hd⟩
  | define name namePos value pos => exact ⟨top, htop, hS, hlies.value⟩
  | ident | number | string | bool | nil | operator => trivial

namespace Invariant

/-- What holds of a machine whose closures have their places.  Code stands at a level of an expression that is run in a
script frame. -/
def lexical (tops : List (FrameId × Expr)) : Invariant (Nat × FrameId) where
  text := fun _ => True
  code := fun i e => ∃ top ∈ tops, top.1 = i.2 ∧ Lies i.1 top.2 e
  inner := fun i => (i.1 + 1, i.2)
  frame := fun i m F => m.store.Nested i.1 i.2 F
  function := fun m => Function.Lexical tops m.store
  error := fun _ => True
  machine := Machine.Lexical tops
  later := fun m m' => m.store.Preserves m'.store

theorem value_lexical {m : Machine} {v : Value} : (lexical tops).value m v ↔ v.Lexical tops m.store :=
  and_iff_right fun _ _ => trivial

theorem lexical_lawful : (lexical tops).Lawful where
  later_refl := fun _ => .refl
  later_trans := .trans
  frame_later := fun hlater hF => hF.preserved hlater
  function_later := fun hlater hf => hf.mono hlater fun _ htop => htop
  text_join := fun _ _ => trivial
  error := fun _ _ _ => trivial
  parts := Expr.keeps_lies
  body := by
    rintro m c ⟨top, htop, level, hlies, hnested⟩
    exact ⟨(level, top.1), hnested, fun e he => ⟨top, htop, rfl, hlies.body he⟩⟩
  lookup := fun {_ _ F name _} hm _ _ => value_lexical.2 (Store.Everywhere.lookup hm nofun F name)
  readOnly := fun _ _ _ _ => trivial
  bind := by
    intro _ m F name _ _ _ v hm hF _ _ hv
    have hlater : m.store.Preserves (m.store.bind F name v) := .bind hF.within.ne_root
    refine ⟨(Store.Everywhere.bind hm (value_lexical.1 hv)).imp fun _ hw => ?_, hlater⟩
    exact hw.mono hlater fun _ htop => htop
  enter := by
    intro _ m F es hm hF hes
    have hlater : m.store.Preserves (m.store.child F es).2 := .child
    refine ⟨⟨(Store.Everywhere.child hm fun v hv => value_lexical.1 (hes v hv)).imp fun _ hw => ?_, hlater⟩, hF.child⟩
    exact hw.mono hlater fun _ htop => htop
  operator := fun _ hm => ⟨⟨hm, .refl⟩, trivial⟩
  closure := by
    rintro i m F params body p hm hF ⟨top, htop, hS, hlies⟩ _
    exact ⟨⟨hm, .refl⟩, top, htop, i.1, hlies, hS ▸ hF⟩
  print := fun hm _ => ⟨hm, .refl⟩

end Invariant

/-- **Closures have their places wherever an evaluation comes**, and all of it happens in the places of what is
evaluated. -/
theorem Machine.Lexical.run {m : Machine} (h : m.Lexical tops) {a : Activation} (ha : a.Lexical tops m.store)
    (depth : Nat) :
    (match Activation.run depth a m with
      | .ok v m' => m'.Lexical tops ∧ m.store.Preserves m'.store ∧ v.Lexical tops m'.store
      | .error _ m' => m'.Lexical tops ∧ m.store.Preserves m'.store) ∧
    Activation.Throughout (fun b n => n.Lexical tops ∧ b.Lexical tops n.store) depth a m := by
  have hiff : ∀ {b : Activation} {n : Machine}, (Invariant.lexical tops).activation n b ↔ b.Lexical tops n.store := by
    intro b n
    cases b with
    | expr F e =>
      constructor
      · rintro ⟨i, hF, top, htop, hS, hlies⟩
        exact ⟨top, htop, i.1, hlies, hS ▸ hF⟩
      · rintro ⟨top, htop, level, hlies, hF⟩
        exact ⟨(level, top.1), hF, top, htop, rfl, hlies⟩
    | call caller f args => exact and_congr_right fun _ => forall₂_congr fun v _ => Invariant.value_lexical
  obtain ⟨hends, hthroughout⟩ := Invariant.lexical_lawful.run h (hiff.2 ha) depth
  refine ⟨?_, hthroughout.mono fun b n hb => ⟨hb.1, hiff.1 hb.2⟩⟩
  generalize Activation.run depth a m = r at hends
  match r, hends with
  | .ok v m', ⟨hg, hv⟩ => exact ⟨hg.machine, hg.later, Invariant.value_lexical.1 hv⟩
  | .error (.failed e) m', ⟨hg, _⟩ => exact ⟨hg.machine, hg.later⟩
  | .error .exhausted m', hg => exact ⟨hg.machine, hg.later⟩

end MiniLisp
