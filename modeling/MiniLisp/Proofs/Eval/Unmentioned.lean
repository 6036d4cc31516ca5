import MiniLisp.Proofs.Eval.Invariant
import MiniLisp.Proofs.Expr.Names
import MiniLisp.Proofs.Store.Added
import MiniLisp.Proofs.Store.Rooted
import MiniLisp.Proofs.Value.Functions
/-!
# Unmentioned — a binding of a name that no code mentions

An interpreter only comes to the root frame, its script frame, and frames that were created after that.  As long as no
closure in these mentions a name, and no expression that is evaluated does, a binding of that name in front of the
others of the script frame is not noticed, and stays in front (`Machine.Omits.run`).  Other frames may bind what they
like.
-/
namespace MiniLisp

variable {S F G : FrameId} {name other : String} {v w : Value} {m : Machine} {es : Entries Value}

/-- **The frames that are come to from the script frame** `S`, where it is the last one that was created. -/
def Store.From (S F : FrameId) : Prop := F = root ∨ S ≤ F

/-- A closure that was created in such frames, whose body does not mention a name. -/
def Function.Omits (S : FrameId) (name : String) : Function → Prop
  | .closure c => Store.From S c.frame ∧ ∀ e ∈ c.body, e.Omits name
  | .builtin _ | .operator _ _ => True

/-- No closure in a value mentions a name. -/
def Value.Omits (S : FrameId) (name : String) (v : Value) : Prop := ∀ f ∈ v.functions, f.Omits S name

def Activation.Omits (S : FrameId) (name : String) : Activation → Prop
  | .expr F e => Store.From S F ∧ e.Omits name
  | .call _ f args => f.Omits S name ∧ ∀ v ∈ args, v.Omits S name

namespace Machine

/-- A machine with one more binding, in front of the others of a frame. -/
def added (S : FrameId) (name : String) (v : Value) (m : Machine) : Machine :=
  { m with store := m.store.added S name v }

/-- **No closure that is come to from the script frame mentions a name.** -/
structure Omits (S : FrameId) (name : String) (m : Machine) : Prop where
  lt : S < m.store.frames.size
  chain : ∀ F, Store.From S F → ∀ G ∈ m.store.chain F, Store.From S G
  bound : ∀ F, Store.From S F → ∀ v ∈ (m.store.bindings F).values, v.Omits S name

namespace Omits

theorem lookup (h : m.Omits S name) (hF : Store.From S F) (other : String) :
    (m.store.lookup F other).Omits S name :=
  Store.lookup_of_chain (fun G hG => h.bound G (h.chain F hF G hG)) nofun other

theorem bind (h : m.Omits S name) (hv : v.Omits S name) : (m.bind F other v).Omits S name where
  lt := Nat.lt_of_lt_of_eq h.lt Store.size_bind.symm
  chain := fun G hG => by
    have hchain : (m.bind F other v).store.chain G = m.store.chain G := congrArg (G :: ·) Store.outer_bind
    rw [hchain]
    exact h.chain G hG
  bound := fun G hG => Store.forall_values_bind (h.bound G hG) fun _ => hv

theorem child (h : m.Omits S name) (hF : Store.From S F) (hes : ∀ v ∈ es.values, v.Omits S name) :
    (m.child F es).Omits S name where
  lt := Nat.lt_of_lt_of_eq (Nat.lt_succ_of_lt h.lt) Store.size_child.symm
  chain := fun G hG => by
    by_cases hnew : G = m.store.frames.size
    · subst hnew
      have hchain : (m.child F es).store.chain m.store.frames.size = m.store.frames.size :: m.store.chain F := by
        unfold Machine.child Store.chain Store.outer
        rw [Store.frame?_child_self]
        rfl
      rw [hchain]
      exact List.forall_mem_cons.2 ⟨hG, h.chain F hF⟩
    · have hchain : (m.child F es).store.chain G = m.store.chain G :=
        congrArg (G :: ·) (Store.outer_congr (Store.frame?_child_of_ne hnew))
      rw [hchain]
      exact h.chain G hG
  bound := fun G hG => Store.forall_values_child (h.bound G hG) fun _ => hes

theorem marked (h : m.Omits S name) : m.marked.Omits S name := ⟨h.lt, h.chain, h.bound⟩

theorem print (h : m.Omits S name) (text : String) : (m.print text).Omits S name := ⟨h.lt, h.chain, h.bound⟩

end Omits

/-- **A new script frame**: nothing but the root is around it, and built-ins mention no name. -/
theorem omits_child (h : m.store.frame? Store.root = some Store.rootFrame) (name : String) :
    (m.child Store.root []).Omits m.store.frames.size name := by
  have hframe : ∀ F, Store.From m.store.frames.size F → ∀ f, (m.child Store.root []).store.frame? F = some f →
      (∀ G ∈ f.outer, G = Store.root) ∧ ∀ v ∈ f.bindings.values, v.Omits m.store.frames.size name := by
    unfold Machine.child
    rintro F (rfl | hF) f hf
    · rw [Store.frame?_child (Store.lt_of_frame? h), h] at hf
      obtain rfl := Option.some.inj hf
      have hbuiltin : ∀ b, (Value.function (.builtin b)).Omits m.store.frames.size name := fun b =>
        List.forall_mem_singleton.2 trivial
      exact ⟨nofun, Store.everywhere_initial hbuiltin Store.root⟩
    · rcases Nat.eq_or_lt_of_le hF with rfl | hlt
      · have hchain : m.store.chain Store.root = [Store.root] := by
          unfold Store.chain Store.outer
          rw [h]
          rfl
        rw [Store.frame?_child_self, hchain] at hf
        obtain rfl := Option.some.inj hf
        exact ⟨fun G hG => List.mem_singleton.1 hG, nofun⟩
      · have hsize := Store.lt_of_frame? hf
        rw [Store.size_child] at hsize
        exact absurd (Nat.lt_of_lt_of_le hsize hlt) (Nat.lt_irrefl F)
  refine ⟨Nat.lt_of_lt_of_eq (Nat.lt_succ_self _) Store.size_child.symm, fun F hF => ?_, fun F hF => ?_⟩
  · refine List.forall_mem_cons.2 ⟨hF, ?_⟩
    unfold Store.outer
    cases hf : (m.child Store.root []).store.frame? F with
    | none => exact nofun
    | some f => exact fun G hG => .inl ((hframe F hF f hf).1 G hG)
  · unfold Store.bindings
    cases hf : (m.child Store.root []).store.frame? F with
    | none => exact nofun
    | some f => exact (hframe F hF f hf).2

end Machine

/-! ## Evaluation -/

/-- What an expression does not mention, its parts do not. -/
theorem Expr.Omits.keeps {e : Expr} (h : e.Omits name) : e.Keeps (fun _ => True) (Omits name) (Omits name) := by
  cases e with
  | call items pos => exact omits_all.1 h
  | cond test yes no pos =>
    unfold Omits names at h
    rwa [List.mem_append, List.mem_append, not_or, not_or] at h
  | fn params body pos => exact omits_all.1 fun hbody => h (List.mem_append_right _ hbody)
  | define other namePos value pos => exact fun hvalue => h (List.mem_cons_of_mem _ hvalue)
  | ident | number | string | bool | nil | operator => trivial

namespace Invariant

/-- What holds of a machine in which no closure mentions a name. -/
def omits (S : FrameId) (name : String) : Invariant Unit where
  text := fun _ => True
  code := fun _ => Expr.Omits name
  inner := id
  frame := fun _ _ => Store.From S
  function := fun _ => Function.Omits S name
  error := fun _ => True
  machine := Machine.Omits S name
  later := fun _ _ => True

theorem value_omits : (omits S name).value m v ↔ v.Omits S name := and_iff_right fun _ _ => trivial

theorem omits_lawful : (omits S name).Lawful where
  later_refl := fun _ => trivial
  later_trans := fun _ _ => trivial
  frame_later := fun _ hF => hF
  function_later := fun _ hf => hf
  text_join := fun _ _ => trivial
  error := fun _ _ _ => trivial
  parts := fun he => he.keeps
  body := fun hf => ⟨(), hf.1, hf.2⟩
  lookup := fun {_ _ _ other _} hm hF _ => value_omits.2 (hm.lookup hF other)
  readOnly := fun _ _ _ _ => trivial
  bind := fun hm _ _ _ hv => ⟨hm.bind (value_omits.1 hv), trivial⟩
  enter := fun {_ _ _ _} hm hF hes =>
    ⟨⟨hm.child hF fun v hv => value_omits.1 (hes v hv), trivial⟩, .inr (Nat.le_of_lt hm.lt)⟩
  operator := fun _ hm => ⟨⟨hm.marked, trivial⟩, trivial⟩
  closure := fun hm hF _ hbody => ⟨⟨hm.marked, trivial⟩, hF, hbody⟩
  print := fun hm _ => ⟨hm.print _, trivial⟩

/-- **A binding of the name is not noticed.** -/
theorem unnoticed_added : (omits S name).Unnoticed (Machine.added S name v) where
  size := fun _ => Store.size_added
  nextMark := fun _ => rfl
  find? := fun {_ _ F _ _} _ _ he => Store.find?_added he.ne_ident F
  lookup := fun {_ _ F _ _} _ _ he => Store.lookup_added he.ne_ident F
  readOnly := fun _ _ => Store.readOnly_added
  bind := fun {_ m _ _ _ _ _ _} _ _ he => congrArg (fun s => { m with store := s })
    (Store.added_bind he.ne_define)
  child := fun {m _ _} hm => congrArg (fun s => { m with store := s }) (Store.added_child hm.lt)
  marked := fun _ => rfl
  print := fun _ _ => rfl

end Invariant

/-- **A binding of a name that nothing mentions changes nothing in an evaluation**, and is still in front afterwards. -/
theorem Machine.Omits.run (h : m.Omits S name) {a : Activation} (ha : a.Omits S name) (v : Value) (depth : Nat) :
    Activation.run depth a (m.added S name v) = onEnd (added S name v) (Activation.run depth a m) ∧
      (atEnd (Activation.run depth a m)).Omits S name := by
  have hactivation : (Invariant.omits S name).activation m a := by
    cases a with
    | expr F e => exact ⟨(), ha⟩
    | call caller f args => exact ⟨ha.1, fun w hw => Invariant.value_omits.2 (ha.2 w hw)⟩
  obtain ⟨hsame, hends⟩ := Invariant.omits_lawful.run_changed (Invariant.unnoticed_added (v := v)) h hactivation depth
  refine ⟨hsame, ?_⟩
  generalize Activation.run depth a m = r at hends
  match r, hends with
  | .ok v m', hends => exact hends.1.machine
  | .error (.failed e) m', hends => exact hends.1.machine
  | .error .exhausted m', hends => exact hends.machine

end MiniLisp
