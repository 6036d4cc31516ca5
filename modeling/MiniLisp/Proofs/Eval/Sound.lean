import MiniLisp.Proofs.Eval.Invariant
import MiniLisp.Proofs.Store.Bound
import MiniLisp.Proofs.Store.Rooted
/-!
# Sound — the root stays as it is

A machine is `Sound` if its root frame holds the built-ins as they were, every other frame is scoped, and every function
that is bound anywhere, at whatever depth of a value, captured a scoped frame.  Evaluation in a scoped frame keeps a
machine sound, and all of it happens in scoped frames; so no binding is ever refused (`Machine.Sound.eval`).
-/
namespace MiniLisp

namespace Machine

/-- A function that this machine can have made: its mark was given out, and it captured a scoped frame. -/
def Knows (m : Machine) : Function → Prop
  | .builtin _ => True
  | .operator _ mark => mark < m.nextMark
  | .closure c => c.mark < m.nextMark ∧ m.store.Scoped c.frame

/-- A value whose functions are all known. -/
def Holds (m : Machine) (v : Value) : Prop := ∀ f ∈ v.functions, m.Knows f

/-- **The root is as it was, and everything else is inside it.** -/
structure Sound (m : Machine) : Prop where
  root : m.store.frame? Store.root = some Store.rootFrame
  inside : ∀ F < m.store.frames.size, F ≠ Store.root → m.store.Scoped F
  bound : ∀ F, ∀ v ∈ (m.store.bindings F).values, m.Holds v

/-- What is scoped stays scoped, and marks are not given out twice. -/
structure Grows (m m' : Machine) : Prop where
  inside : ∀ F, m.store.Scoped F → m'.store.Scoped F
  nextMark : m.nextMark ≤ m'.nextMark

variable {m m' m'' : Machine} {F : FrameId} {es : Entries Value} {name : String} {v : Value} {f : Function}

theorem Grows.refl : Grows m m := ⟨fun _ h => h, Nat.le_refl _⟩

theorem Grows.trans (h : Grows m m') (h' : Grows m' m'') : Grows m m'' :=
  ⟨fun F hF => h'.inside F (h.inside F hF), Nat.le_trans h.nextMark h'.nextMark⟩

theorem Knows.grow (h : Grows m m') (hf : m.Knows f) : m'.Knows f := by
  cases f with
  | builtin b => trivial
  | operator op mark => exact Nat.lt_of_lt_of_le hf h.nextMark
  | closure c => exact ⟨Nat.lt_of_lt_of_le hf.1 h.nextMark, h.inside _ hf.2⟩

theorem Holds.grow (h : Grows m m') (hv : m.Holds v) : m'.Holds v := fun f hf => (hv f hf).grow h

/-! ## What evaluation does -/

theorem grows_marked : Grows m m.marked := ⟨fun _ h => h, Nat.le_succ _⟩

theorem grows_bind (hF : F ≠ Store.root) : Grows m (m.bind F name v) := ⟨fun _ h => h.bind hF, Nat.le_refl _⟩

theorem grows_child : Grows m (m.child F es) := ⟨fun _ h => h.child, Nat.le_refl _⟩

theorem Sound.marked (h : m.Sound) : m.marked.Sound :=
  ⟨h.root, h.inside, fun F v hv => (h.bound F v hv).grow grows_marked⟩

theorem Sound.print (h : m.Sound) (text : String) : (m.print text).Sound := ⟨h.root, h.inside, h.bound⟩

theorem Sound.bind (h : m.Sound) (hF : m.store.Scoped F) (hv : m.Holds v) : (m.bind F name v).Sound where
  root := by
    show (m.store.bind F name v).frame? Store.root = _
    rw [Store.frame?_bind_of_ne hF.ne_root.symm, h.root]
  inside := fun G hG hne => by
    have hlt : G < m.store.frames.size := by rwa [Machine.bind, Store.size_bind] at hG
    exact (h.inside G hlt hne).bind hF.ne_root
  bound := (Store.Everywhere.bind h.bound hv).imp fun _ hw => hw.grow (grows_bind hF.ne_root)

theorem Sound.child (h : m.Sound) (hF : m.store.Rooted F) (hes : ∀ v ∈ es.values, m.Holds v) :
    (m.child F es).Sound where
  root := by
    show (m.store.child F es).2.frame? Store.root = _
    rw [Store.frame?_child (Store.lt_of_frame? h.root), h.root]
  inside := fun G hG hne => by
    by_cases hnew : G = m.store.frames.size
    · subst hnew
      exact hF.scoped_child
    · have hlt : G < m.store.frames.size + 1 := by rwa [Machine.child, Store.size_child] at hG
      exact (h.inside G (by omega) hne).child
  bound := (Store.Everywhere.child h.bound hes).imp fun _ hw => hw.grow grows_child

end Machine

/-! ## The law -/

namespace Invariant

/-- What holds of a sound machine. -/
def sound : Invariant Unit where
  text := fun _ => True
  code := fun _ _ => True
  inner := id
  frame := fun _ m F => m.store.Scoped F
  function := Machine.Knows
  error := fun e => ∀ name, e ≠ .readOnly name
  machine := Machine.Sound
  later := Machine.Grows

theorem value_sound {m : Machine} {v : Value} : sound.value m v ↔ m.Holds v := and_iff_right fun _ _ => trivial

theorem sound_lawful : sound.Lawful where
  later_refl := fun _ => .refl
  later_trans := .trans
  frame_later := fun hlater hF => hlater.inside _ hF
  function_later := fun hlater hf => hf.grow hlater
  text_join := fun _ _ => trivial
  error := fun _ hne _ => hne
  parts := by
    intro _ e _
    cases e <;> simp [Expr.Keeps, sound]
  body := fun hf => ⟨(), hf.2, fun _ _ => trivial⟩
  lookup := fun {_ _ F name _} hm _ _ => value_sound.2 (Store.Everywhere.lookup hm.bound nofun F name)
  readOnly := fun {_ _ _} _ _ hF hro => by
    rw [hF.writable] at hro
    cases hro
  bind := fun hm hF _ _ hv => ⟨hm.bind hF (value_sound.1 hv), Machine.grows_bind hF.ne_root⟩
  enter := fun hm hF hes =>
    ⟨⟨hm.child hF.rooted fun v hv => value_sound.1 (hes v hv), Machine.grows_child⟩, hF.rooted.scoped_child⟩
  operator := fun _ hm => ⟨⟨hm.marked, Machine.grows_marked⟩, Nat.lt_succ_self _⟩
  closure := fun hm hF _ _ => ⟨⟨hm.marked, Machine.grows_marked⟩, Nat.lt_succ_self _, hF⟩
  print := fun hm _ => ⟨hm.print _, fun _ h => h, Nat.le_refl _⟩

end Invariant

/-! ## Evaluation -/

/-- An activation in a scoped frame, or of a known function on known values. -/
def Activation.Known (m : Machine) : Activation → Prop
  | .expr F _ => m.store.Scoped F
  | .call _ f args => m.Knows f ∧ ∀ v ∈ args, m.Holds v

namespace Machine

/-- **How an evaluation ends in a sound machine**: no binding was refused, and the machine is sound. -/
def Ends (m : Machine) : EStateM.Result Halt Machine Value → Prop
  | .ok v m' => m'.Sound ∧ m.Grows m' ∧ m'.Holds v
  | .error (.failed e) m' => m'.Sound ∧ m.Grows m' ∧ ∀ name, e ≠ .readOnly name
  | .error .exhausted m' => m'.Sound ∧ m.Grows m'

theorem ends_of_sound {m : Machine} {r : EStateM.Result Halt Machine Value} (h : Invariant.sound.Ends m r) :
    m.Ends r := by
  match r, h with
  | .ok v m', ⟨hg, hv⟩ => exact ⟨hg.machine, hg.later, Invariant.value_sound.1 hv⟩
  | .error (.failed e) m', ⟨hg, he⟩ => exact ⟨hg.machine, hg.later, he⟩
  | .error .exhausted m', hg => exact ⟨hg.machine, hg.later⟩

theorem known_iff {m : Machine} {a : Activation} : Invariant.sound.activation m a ↔ a.Known m := by
  cases a with
  | expr F e => exact ⟨fun ⟨_, hF, _⟩ => hF, fun hF => ⟨(), hF, trivial⟩⟩
  | call caller f args => exact and_congr_right fun _ => forall₂_congr fun v _ => Invariant.value_sound

variable {m : Machine}

/-- **Evaluation keeps a machine sound**, and all of it is in scoped frames, of functions that are known. -/
theorem Sound.run (h : m.Sound) {a : Activation} (ha : a.Known m) (depth : Nat) :
    m.Ends (Activation.run depth a m) ∧ Activation.Throughout (fun b n => n.Sound ∧ b.Known n) depth a m := by
  obtain ⟨hends, hthroughout⟩ := Invariant.sound_lawful.run h (known_iff.2 ha) depth
  exact ⟨ends_of_sound hends, hthroughout.mono fun b n hb => ⟨hb.1, known_iff.1 hb.2⟩⟩

end Machine

end MiniLisp
