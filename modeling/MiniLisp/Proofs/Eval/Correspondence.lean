import MiniLisp.Proofs.Eval.Lockstep
import MiniLisp.Proofs.Expr.Like
import MiniLisp.Proofs.Store.Match
import MiniLisp.Proofs.Value.Functions
/-!
# Correspondence — machines that are the same but for names that nobody sees

The numbers of frames, the marks of functions and the positions of code play no part in evaluation.  A `Correspondence`
renumbers frames and marks and relates positions.  Evaluations in machines that correspond print the same, and end with
values, errors and machines that correspond (`Correspondence.eval`, `Correspondence.apply`).
-/
namespace MiniLisp

/-- **How one machine stands for another**: frames and marks under other numbers, and code in other places.  Each
machine has printed something of its own before. -/
structure Correspondence (ι : Type) where
  frame : FrameId → FrameId
  mark : Nat → Nat
  place : ι → Position → Position → Prop
  before : Array String
  before' : Array String
  injective : frame.Injective

namespace Correspondence

variable {ι : Type} (k : Correspondence ι)

/-- **Functions that correspond.** -/
inductive Functions : Function → Function → Prop
  | builtin (b : Builtin) : Functions (.builtin b) (.builtin b)
  | operator (op : Operator) (mark : Nat) : Functions (.operator op mark) (.operator op (k.mark mark))
  | closure {mark : Nat} {F : FrameId} {params : List String} {body body' : List Expr} {p q : Position} (i : ι) :
      List.Forall₂ (Expr.Like (k.place i)) body body' → k.place i p q →
      Functions (.closure ⟨mark, F, params, body, p⟩) (.closure ⟨k.mark mark, k.frame F, params, body', q⟩)

/-- **Values that correspond**: the same but for their functions. -/
def Values : Value → Value → Prop := Value.Agree (fun _ => True) k.Functions

/-- **Errors that correspond**: the same but for their positions. -/
def Errors (e e' : Error) : Prop := ∃ i, Error.Alike (k.place i) e e'

/-- **Machines that correspond.**  What is new in the one corresponds to what is new in the other, and both have printed
the same since. -/
structure Machines (m n : Machine) : Prop where
  store : m.store.Matches k.frame k.Values n.store
  marks : ∀ j, k.mark (m.nextMark + j) = n.nextMark + j
  printed : ∃ texts, m.printed = k.before ++ texts ∧ n.printed = k.before' ++ texts

def lockstep : Lockstep ι where
  text := fun _ => True
  place := k.place
  code := fun i => Expr.Like (k.place i)
  inner := id
  frame := fun _ _ F G => G = k.frame F
  function := fun _ => k.Functions
  error := k.Errors
  machine := k.Machines
  later := fun _ _ => True
  slack := 0

end Correspondence

theorem Expr.Like.layer {P : Position → Position → Prop} {e e' : Expr} (h : Like P e e') :
    e.Layer (fun _ => True) P (Like P) (Like P) e' := by
  cases h with
  | ident hp => exact .ident hp
  | number hp => exact .number hp
  | string hp => exact .string trivial hp
  | bool hp => exact .bool hp
  | nil hp => exact .nil hp
  | operator hp => exact .operator hp
  | call hitems hp => exact .call hitems hp
  | cond htest hyes hno hp => exact .cond htest hyes hno hp
  | fn hbody hp => exact .fn hbody hp
  | define _ hvalue hp => exact .define hvalue hp

namespace Correspondence

variable {ι : Type} {k : Correspondence ι} {m n : Machine}

/-! ## What evaluation does -/

theorem Machines.marked (h : k.Machines m n) : k.Machines m.marked n.marked where
  store := h.store
  marks := fun j => by
    show k.mark (m.nextMark + 1 + j) = n.nextMark + 1 + j
    rw [Nat.add_assoc, Nat.add_assoc]
    exact h.marks (1 + j)
  printed := h.printed

theorem Machines.mark_new (h : k.Machines m n) : n.nextMark = k.mark m.nextMark := (h.marks 0).symm

theorem Machines.print (h : k.Machines m n) (text : String) : k.Machines (m.print text) (n.print text) where
  store := h.store
  marks := h.marks
  printed := by
    obtain ⟨texts, hm, hn⟩ := h.printed
    refine ⟨texts.push text, ?_, ?_⟩
    · rw [Machine.print, hm, Array.push_append]
    · rw [Machine.print, hn, Array.push_append]

theorem Machines.child (h : k.Machines m n) {es fs : Entries Value}
    (hes : List.Forall₂ (EntryAgree (fun _ => True) k.Values) es fs) (F : FrameId) :
    k.Machines (m.child F es) (n.child (k.frame F) fs) where
  store := h.store.child k.injective hes F
  marks := h.marks
  printed := h.printed

theorem Machines.bind (h : k.Machines m n) {v w : Value} (hvw : k.Values v w) (F : FrameId) (name : String) :
    k.Machines (m.bind F name v) (n.bind (k.frame F) name w) where
  store := h.store.bind k.injective hvw F name
  marks := h.marks
  printed := h.printed

theorem lawful [Nonempty ι] : k.lockstep.Lawful where
  later_refl := fun _ => trivial
  later_trans := fun _ _ => trivial
  frame_later := fun _ hF => hF
  function_later := fun _ hf => hf
  text_join := fun _ _ => trivial
  error_alike := fun he _ _ => ⟨_, he⟩
  error_arguments := fun he => ⟨Classical.arbitrary ι, .ofArguments he⟩
  code_layer := fun he => he.layer
  function_layer := by
    rintro _ f g (b | ⟨op, mark⟩ | ⟨i, hbody, hpos⟩)
    · exact .builtin b
    · exact .operator op _ _
    · exact .closure i rfl rfl hbody hpos
  find? := by
    rintro _ m n F _ name p q hmn rfl _
    rw [hmn.store.find?, Option.isSome_map]
  lookup := by
    rintro _ m n F _ name p q hmn rfl _
    exact hmn.store.lookup .nil F name
  readOnly := by
    rintro i m n F _ hmn rfl
    exact ⟨hmn.store.readOnly F, fun name _ => ⟨i, .readOnly name⟩⟩
  bind := by
    rintro _ m n F _ name np nq e e' p q v w hmn rfl _ _ hvw
    exact ⟨hmn.bind hvw F name, trivial⟩
  enter := by
    rintro _ m n F _ es fs hmn rfl hes
    exact ⟨⟨hmn.child hes F, trivial⟩, (hmn.store.size 0).symm⟩
  operator := by
    intro m n op hmn
    refine ⟨⟨hmn.marked, trivial⟩, ?_⟩
    rw [hmn.mark_new]
    exact .operator op _
  closure := by
    rintro i m n F _ params body body' p q hmn rfl _ hbody hpos
    refine ⟨⟨hmn.marked, trivial⟩, ?_⟩
    rw [hmn.mark_new]
    exact .closure i hbody hpos
  print := fun hmn _ => ⟨hmn.print _, trivial⟩

/-! ## Nothing but positions -/

section

variable {place : ι → Position → Position → Prop}

/-- Nothing but positions is different. -/
def moved (place : ι → Position → Position → Prop) : Correspondence ι where
  frame := id
  mark := id
  place := place
  before := #[]
  before' := #[]
  injective := Function.injective_id

theorem functions_moved (i : ι) (h : ∀ p, place i p p) (f : Function) : (moved place).Functions f f := by
  cases f with
  | builtin b => exact .builtin b
  | operator op mark => exact .operator op mark
  | closure c => exact .closure i (Expr.forall₂_like_refl h c.body) (h c.pos)

theorem frame_matches_moved (i : ι) (h : ∀ p, place i p p) (f : Frame) :
    f.Matches (moved place).frame (moved place).Values f where
  bindings := Value.agree_self_entries f.bindings fun g _ => functions_moved i h g
  outer := (List.map_id f.outer).symm
  readOnly := rfl

/-- **Every machine corresponds to itself**, if nothing but positions may be different. -/
theorem machines_moved (i : ι) (h : ∀ p, place i p p) (m : Machine) : (moved place).Machines m m where
  store :=
    { frame? := fun F => by
        show Option.Rel _ (m.store.frame? F) (m.store.frame? F)
        cases m.store.frame? F with
        | none => exact .none
        | some f => exact .some (frame_matches_moved i h f)
      size := fun _ => rfl }
  marks := fun _ => rfl
  printed := ⟨m.printed, Array.empty_append.symm, Array.empty_append.symm⟩

theorem Machines.printed_eq {m m' : Machine} (h : (moved place).Machines m m') : m'.printed = m.printed := by
  obtain ⟨texts, hm, hm'⟩ := h.printed
  rw [hm', hm]
  rfl

end

/-! ## Evaluation -/

variable (k)

/-- **Runs that end alike**: with results that correspond, with errors that correspond, or both out of depth, and in
machines that correspond. -/
inductive Ends {α β : Type} (Q : α → β → Prop) : EStateM.Result Halt Machine α → EStateM.Result Halt Machine β → Prop
  | ok {a : α} {b : β} {m n : Machine} : k.Machines m n → Q a b → Ends Q (.ok a m) (.ok b n)
  | failed {e e' : Error} {m n : Machine} : k.Machines m n → k.Errors e e' →
      Ends Q (.error (.failed e) m) (.error (.failed e') n)
  | exhausted {m n : Machine} : k.Machines m n → Ends Q (.error .exhausted m) (.error .exhausted n)

variable {k}

theorem ends_of_outcome {α β : Type} {Q : α → β → Prop} {r : EStateM.Result Halt Machine α}
    {r' : EStateM.Result Halt Machine β} (h : k.lockstep.Outcome m (fun _ => Q) r r') : k.Ends Q r r' := by
  cases h with
  | ok hg hab => exact .ok hg.machine hab
  | failed hg he => exact .failed hg.machine he
  | exhausted hr =>
    obtain ⟨n', rfl, hg⟩ := hr rfl
    exact .exhausted hg.machine
  | excused he => exact False.elim he

variable [Nonempty ι]

/-- **Expressions that correspond are evaluated alike** in machines that correspond. -/
theorem eval {i : ι} {e e' : Expr} (hmn : k.Machines m n) (he : Expr.Like (k.place i) e e') (depth : Nat)
    (F : FrameId) : k.Ends k.Values (eval depth F e m) (MiniLisp.eval depth (k.frame F) e' n) :=
  ends_of_outcome (k.lawful.run_quiet depth hmn (.expr (i := i) rfl he))

/-- **Functions that correspond are applied alike** in machines that correspond, from whatever frames. -/
theorem apply {f g : Function} {args args' : List Value} (hmn : k.Machines m n) (hfg : k.Functions f g)
    (hargs : List.Forall₂ k.Values args args') (depth : Nat) (caller caller' : FrameId) :
    k.Ends k.Values (apply depth caller f args m) (MiniLisp.apply depth caller' g args' n) :=
  ends_of_outcome (k.lawful.run_quiet depth hmn (.call caller caller' hfg hargs))

end Correspondence

end MiniLisp
