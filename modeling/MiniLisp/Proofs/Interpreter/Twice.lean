import MiniLisp.Proofs.Eval.Correspondence
import MiniLisp.Proofs.Eval.Depth
import MiniLisp.Proofs.Eval.FrameLaw
import MiniLisp.Proofs.Interpreter.Reached
/-!
# Twice — a function has no state of its own

A function that is applied twice to the same values answers the same: the call changed no frame that was there before,
so the machine after it corresponds to the machine before it, with the new frames and functions set aside
(`Machine.Sound.renewed`).  What frame the function is called from plays no part.
-/
namespace MiniLisp

/-- What was below a bound stays, and what was not makes room. -/
def shifted (bound gap n : Nat) : Nat := if n < bound then n else n + gap

theorem shifted_of_lt {bound gap n : Nat} (h : n < bound) : shifted bound gap n = n := if_pos h

theorem shifted_injective (bound gap : Nat) : (shifted bound gap).Injective := by
  intro a b h
  unfold shifted at h
  split at h <;> split at h <;> omega

theorem shifted_add {bound bound' : Nat} (h : bound ≤ bound') (j : Nat) :
    shifted bound (bound' - bound) (bound + j) = bound' + j := by
  unfold shifted
  rw [if_neg (by omega)]
  omega

/-- **A machine and a later one**: frames and functions of the first are the same in the second, and those that come
next in the first correspond to those that come next in the second. -/
def Correspondence.renewed (m m' : Machine) : Correspondence Unit where
  frame := shifted m.store.frames.size (m'.store.frames.size - m.store.frames.size)
  mark := shifted m.nextMark (m'.nextMark - m.nextMark)
  place := fun _ => Eq
  before := m.printed
  before' := m'.printed
  injective := shifted_injective _ _

namespace Correspondence

variable {m m' : Machine}

theorem renewed_frame {F : FrameId} (h : F < m.store.frames.size) : (renewed m m').frame F = F := shifted_of_lt h

theorem errors_renewed {e e' : Error} (h : (renewed m m').Errors e e') : e = e' := by
  obtain ⟨_, h⟩ := h
  exact h.eq

/-- Known functions stay the same. -/
theorem functions_renewed {f : Function} (h : m.Knows f) : (renewed m m').Functions f f := by
  cases f with
  | builtin b => exact .builtin b
  | operator op mark =>
    have hself : (renewed m m').Functions _ _ := .operator op mark
    rwa [show (renewed m m').mark mark = mark from shifted_of_lt h] at hself
  | closure c =>
    have hself : (renewed m m').Functions (.closure c)
        (.closure ⟨(renewed m m').mark c.mark, (renewed m m').frame c.frame, c.params, c.body, c.pos⟩) :=
      .closure () (Expr.forall₂_like_refl (fun _ => rfl) c.body) (Eq.refl c.pos)
    rwa [show (renewed m m').mark c.mark = c.mark from shifted_of_lt h.1, renewed_frame h.2.rooted.lt] at hself

theorem values_renewed {v : Value} (h : m.Holds v) : (renewed m m').Values v v :=
  Value.agree_self v fun f hf => functions_renewed (h f hf)

end Correspondence

theorem Store.Rooted.lt_of_mem_outer {s : Store} {F : FrameId} (h : s.Rooted F) :
    ∀ G ∈ s.outer F, G < s.frames.size := by
  induction h with
  | top hroot =>
    unfold Store.outer
    rw [hroot]
    exact nofun
  | @link F G houter hG ih =>
    rw [houter]
    exact List.forall_mem_cons.2 ⟨hG.lt, ih⟩

namespace Machine

variable {m m' : Machine}

theorem Sound.rooted (h : m.Sound) {F : FrameId} (hF : F < m.store.frames.size) : m.store.Rooted F := by
  by_cases hroot : F = Store.root
  · rw [hroot]
    exact .top h.root
  · exact (h.inside F hF hroot).rooted

/-- A frame that is there before and after corresponds to itself. -/
theorem Sound.frame_matches (h : m.Sound) {F : FrameId} {f : Frame} (hf : m.store.frame? F = some f) :
    f.Matches (Correspondence.renewed m m').frame (Correspondence.renewed m m').Values f where
  bindings := by
    have hbindings : m.store.bindings F = f.bindings := by
      unfold Store.bindings
      rw [hf]
    refine Value.agree_self_entries f.bindings fun g hg => Correspondence.functions_renewed ?_
    obtain ⟨v, hv, hg⟩ := Value.mem_functionsEntries.1 hg
    rw [← hbindings] at hv
    exact h.bound F v hv g hg
  outer := by
    have houter : m.store.outer F = f.outer := by
      unfold Store.outer
      rw [hf]
    have hlt := (h.rooted (Store.lt_of_frame? hf)).lt_of_mem_outer
    rw [houter] at hlt
    have hsame : f.outer.map (Correspondence.renewed m m').frame = f.outer.map id :=
      List.map_congr_left fun G hG => Correspondence.renewed_frame (hlt G hG)
    rw [hsame, List.map_id]
  readOnly := rfl

/-- **A sound machine corresponds to a later one in which its frames are unchanged.** -/
theorem Sound.renewed (h : m.Sound) (hsize : m.store.frames.size ≤ m'.store.frames.size)
    (hframes : ∀ F < m.store.frames.size, m'.store.frame? F = m.store.frame? F) (hmarks : m.nextMark ≤ m'.nextMark) :
    (Correspondence.renewed m m').Machines m m' where
  store := by
    refine .of_lt (fun F hF => ?_) fun j => shifted_add hsize j
    rw [Correspondence.renewed_frame hF, hframes F hF]
    cases hf : m.store.frame? F with
    | none => exact .none
    | some f => exact .some (h.frame_matches hf)
  marks := fun j => shifted_add hmarks j
  printed := ⟨#[], Array.append_empty.symm, Array.append_empty.symm⟩

/-- **A call leaves a machine that corresponds to the one before it.** -/
theorem Sound.renewed_apply (h : m.Sound) {f : Function} {args : List Value} (hf : m.Knows f)
    (hargs : ∀ v ∈ args, m.Holds v) (depth : Nat) (caller : FrameId) :
    (Correspondence.renewed m ((apply depth caller f args).after m)).Machines m
      ((apply depth caller f args).after m) := by
  have hframed := Store.framed_law.apply depth caller f args m
  refine h.renewed hframed.size_le (fun F hF => hframed.frame?_eq F hF nofun) ?_
  have hends : m.Ends (apply depth caller f args m) := (h.run (a := .call caller f args) ⟨hf, hargs⟩ depth).1
  unfold EvalM.after
  generalize apply depth caller f args m = r at hends
  match r, hends with
  | .ok v m', hends => exact hends.2.1.nextMark
  | .error (.failed e) m', hends => exact hends.2.1.nextMark
  | .error .exhausted m', hends => exact hends.2.nextMark

end Machine

/-- **Applying a function twice gives the same outcome twice**, whenever and from whatever frames: one error, or values
that are the same up to the frames and functions that the calls created; and the same is printed each time.  The machine
after the second call corresponds to the machine after the first. -/
theorem apply_twice {m m₁ m₂ : Machine} (h : Visited m) {f : Function} {args : List Value} (hf : m.Knows f)
    (hargs : ∀ v ∈ args, m.Holds v) (depth₁ depth₂ : Nat) (E₁ E₂ : FrameId)
    (hfirst : ∀ n, apply depth₁ E₁ f args m ≠ .error .exhausted n) (hm₁ : (apply depth₁ E₁ f args).after m = m₁)
    (hsecond : ∀ n, apply depth₂ E₂ f args m₁ ≠ .error .exhausted n) (hm₂ : (apply depth₂ E₂ f args).after m₁ = m₂) :
    (∃ text, m₁.printed = m.printed ++ text ∧ m₂.printed = m₁.printed ++ text) ∧
    ((∃ e, apply depth₁ E₁ f args m = .error (.failed e) m₁ ∧ apply depth₂ E₂ f args m₁ = .error (.failed e) m₂) ∨
      ∃ v w, apply depth₁ E₁ f args m = .ok v m₁ ∧ apply depth₂ E₂ f args m₁ = .ok w m₂ ∧
        (Correspondence.renewed m m₁).Values v w) ∧
    (Correspondence.renewed m m₁).Machines m₁ m₂ := by
  have hmachines := h.sound.renewed_apply hf hargs depth₁ E₁
  rw [hm₁] at hmachines
  have hvalues : List.Forall₂ (Correspondence.renewed m m₁).Values args args :=
    List.forall₂_same.2 fun v hv => Correspondence.values_renewed (hargs v hv)
  -- The depth that is left over makes no difference to either call.
  have hdeep₁ : apply (max depth₁ depth₂) E₁ f args m = apply depth₁ E₁ f args m :=
    Activation.run_of_le (a := .call E₁ f args) (Nat.le_max_left _ _) hfirst
  have hdeep₂ : apply (max depth₁ depth₂) E₂ f args m₁ = apply depth₂ E₂ f args m₁ :=
    Activation.run_of_le (a := .call E₂ f args) (Nat.le_max_right _ _) hsecond
  have hends := Correspondence.apply hmachines (Correspondence.functions_renewed hf) hvalues (max depth₁ depth₂) E₁ E₂
  rw [hdeep₁, hdeep₂] at hends
  unfold EvalM.after at hm₁ hm₂
  generalize apply depth₁ E₁ f args m = r₁ at hends hfirst hm₁ ⊢
  generalize apply depth₂ E₂ f args m₁ = r₂ at hends hm₂ ⊢
  cases hends with
  | ok hmn hvw =>
    obtain rfl := hm₁
    obtain rfl := hm₂
    exact ⟨hmn.printed, .inr ⟨_, _, rfl, rfl, hvw⟩, hmn⟩
  | failed hmn he =>
    obtain rfl := hm₁
    obtain rfl := hm₂
    obtain rfl := Correspondence.errors_renewed he
    exact ⟨hmn.printed, .inl ⟨_, rfl, rfl⟩, hmn⟩
  | exhausted _ => exact absurd rfl (hfirst _)

/-- A closure sees its own `x`, whatever the frames that it is called from take `x` to be; and it answers with a new
closure each time. -/
theorem apply_twice_shadowed : ∃ is vs m m₁ m₂ a b, Reached is vs m ∧
    m.store.lookup 1 "x" = .bool true ∧ m.store.lookup 2 "x" = .bool false ∧
    apply 4 2 (.closure ⟨0, 1, [], [.call [.ident "cons" {}, .ident "x" {}, .fn [] [] {}] {}], {}⟩) [] m =
      .ok (.pair (.bool true) a) m₁ ∧
    apply 5 1 (.closure ⟨0, 1, [], [.call [.ident "cons" {}, .ident "x" {}, .fn [] [] {}] {}], {}⟩) [] m₁ =
      .ok (.pair (.bool true) b) m₂ ∧
    (Correspondence.renewed m m₁).Values (.pair (.bool true) a) (.pair (.bool true) b) := by
  have h₁ := (Reached.initial.create 20).create 20
  have h₂ := h₁.ok (i := ⟨1, 20⟩) (e := .define "x" {} (.bool true {}) {}) (.tail _ (.head _)) rfl
  have h₃ := h₂.ok (i := ⟨2, 20⟩) (e := .define "x" {} (.bool false {}) {}) (.head _) rfl
  have h₄ := h₃.ok (i := ⟨1, 20⟩) (e := .fn [] [.call [.ident "cons" {}, .ident "x" {}, .fn [] [] {}] {}] {})
    (.tail _ (.head _)) rfl
  have hknown := h₄.sound.2.2 _ List.mem_cons_self _ List.mem_cons_self
  have htwice := apply_twice (.between h₄) hknown (List.forall_mem_nil _) 4 5 2 1 nofun rfl nofun rfl
  obtain ⟨-, ⟨e, he, -⟩ | ⟨v, w, hv, hw, hvw⟩, -⟩ := htwice
  · cases he
  · cases hv
    cases hw
    exact ⟨_, _, _, _, _, _, _, h₄, rfl, rfl, rfl, rfl, hvw⟩

end MiniLisp
