import MiniLisp.Proofs.Eval.Starts
/-!
# Stack — activations inside one another

`Activation.traced` is evaluation with a watcher that is told of the whole stack, the activation that starts and the
ones that it is inside.  A watcher that objects ends the evaluation, as it likes: nothing that is going on notices
(`Activation.stacked_or_comes`).  Running out of depth is an objection, to a stack that is too much for the depth
(`Activation.run_eq_traced`).
-/
namespace MiniLisp.Activation

/-- Evaluation in which a watcher is told of every activation when it starts, and of those that it is inside, the
innermost first. -/
def traced (watch : List Activation → EvalM Unit) : Nat → List Activation → Activation → EvalM Value
  | 0, _, _ => throw .exhausted
  | depth + 1, outer, a =>
    if a.fits depth then do
      watch (a :: outer)
      a.step (traced watch depth (a :: outer))
    else throw .exhausted

theorem traced_succ (watch : List Activation → EvalM Unit) (depth : Nat) (outer : List Activation) (a : Activation) :
    traced watch (depth + 1) outer a =
      if a.fits depth then watch (a :: outer) >>= fun _ => a.step (traced watch depth (a :: outer))
      else throw .exhausted := rfl

/-- **A property of stacks, and of the machines that they come up in, holds in all of an evaluation**: a watcher that
keeps quiet wherever it holds goes unnoticed. -/
def Stacked (p : List Activation → Machine → Prop) (depth : Nat) (a : Activation) (m : Machine) : Prop :=
  ∀ watch : List Activation → EvalM Unit, (∀ stack n, p stack n → watch stack n = .ok () n) →
    traced watch depth [] a m = run depth a m

/-- **An evaluation comes to a stack** in a machine `n`: a watcher that only objects there is noticed. -/
def Comes (depth : Nat) (a : Activation) (m : Machine) (stack : List Activation) (n : Machine) : Prop :=
  ¬ Stacked (fun s k => ¬(s = stack ∧ k = n)) depth a m

variable {p q : List Activation → Machine → Prop} {depth : Nat} {a : Activation} {m n : Machine}
  {stack : List Activation}

theorem Stacked.mono (h : Stacked p depth a m) (hpq : ∀ s n, p s n → q s n) : Stacked q depth a m :=
  fun watch hquiet => h watch fun s n hs => hquiet s n (hpq s n hs)

/-- What holds of all stacks holds of those that the evaluation comes to. -/
theorem Stacked.of_comes (h : Stacked p depth a m) (hcomes : Comes depth a m stack n) : p stack n := by
  by_contra hnot
  refine hcomes (h.mono fun s k hs hsame => hnot ?_)
  obtain ⟨rfl, rfl⟩ := hsame
  exact hs

/-! ## Objections -/

section Objections

variable (p)

/-- A watcher that objects nowhere but where `p` holds. -/
def ObjectsAt (watch : List Activation → EvalM Unit) : Prop := ∀ s k, ¬ p s k → watch s k = .ok () k

/-- Of the versions of a computation, one for each watcher and a plain one: either no watcher that only objects at `p`
is noticed, or all of them that object at some stack end the computation there. -/
def Obeys {α : Type} (x : Option (List Activation → EvalM Unit) → EvalM α) : Prop :=
  ∀ m, (∀ watch, ObjectsAt p watch → x (some watch) m = x none m) ∨
    ∃ stack n, p stack n ∧ ∀ watch halt, ObjectsAt p watch → watch stack n = .error halt n →
      x (some watch) m = .error halt n

theorem obeys_versions : Versions (Obeys p) where
  uncut := fun _ _ => .inl fun _ _ => rfl
  bind := by
    intro α β x f hx hf m
    simp only [EvalM.bind_apply]
    rcases hx m with hquiet | ⟨stack, n, hp, hends⟩
    · cases hnone : x none m with
      | error halt m' =>
        refine .inl fun watch hwatch => ?_
        rw [hquiet watch hwatch, hnone]
      | ok a m' =>
        rcases hf a m' with hquiet' | ⟨stack, n, hp, hends⟩
        · refine .inl fun watch hwatch => ?_
          rw [hquiet watch hwatch, hnone]
          exact hquiet' watch hwatch
        · refine .inr ⟨stack, n, hp, fun watch halt hwatch hobjects => ?_⟩
          rw [hquiet watch hwatch, hnone]
          exact hends watch halt hwatch hobjects
    · refine .inr ⟨stack, n, hp, fun watch halt hwatch hobjects => ?_⟩
      rw [hends watch halt hwatch hobjects]

variable {p} in
/-- What a watched computation answers that ends wherever it should not come, the plain one answers. -/
theorem Obeys.eq_ok {α : Type} {x : Option (List Activation → EvalM Unit) → EvalM α} (hx : Obeys p x)
    {watch : List Activation → EvalM Unit} (hwatch : ObjectsAt p watch)
    (hends : ∀ s k, p s k → ∃ halt, watch s k = .error halt k) {v : α} {m' : Machine}
    (hok : x (some watch) m = .ok v m') : x none m = .ok v m' := by
  rcases hx m with hquiet | ⟨s, k, hp, hstop⟩
  · rw [← hquiet watch hwatch, hok]
  · obtain ⟨halt, hobjects⟩ := hends s k hp
    rw [hstop watch halt hwatch hobjects] at hok
    cases hok

/-- An evaluation, plain or watched. -/
def versions (depth : Nat) (outer : List Activation) (a : Activation) :
    Option (List Activation → EvalM Unit) → EvalM Value
  | none => run depth a
  | some watch => traced watch depth outer a

theorem obeys : ∀ (depth : Nat) (outer : List Activation) (a : Activation), Obeys p (versions depth outer a)
  | 0, _, a => fun m => .inl fun _ _ => by rw [versions, versions, traced, run_zero]
  | depth + 1, outer, a => by
    intro m
    simp only [versions, traced_succ, run_succ]
    by_cases hfits : a.fits depth = true
    swap
    · exact .inl fun _ _ => by rw [if_neg hfits, if_neg hfits]
    simp only [if_pos hfits, EvalM.bind_apply]
    by_cases hp : p (a :: outer) m
    · refine .inr ⟨a :: outer, m, hp, fun watch halt _ hobjects => ?_⟩
      rw [hobjects]
    · have hstep : Obeys p fun i => a.step fun b => versions depth (a :: outer) b i :=
        (obeys_versions p).step fun b _ => obeys depth (a :: outer) b
      rcases hstep m with hquiet | ⟨stack, n, hs, hends⟩
      · refine .inl fun watch hwatch => ?_
        rw [hwatch _ m hp]
        exact hquiet watch hwatch
      · refine .inr ⟨stack, n, hs, fun watch halt hwatch hobjects => ?_⟩
        rw [hwatch _ m hp]
        exact hends watch halt hwatch hobjects

/-- **An objection is final.**  Either an evaluation never comes to a stack with a property; or there is one that it
comes to first, and whatever a watcher does there that objects to such stacks only, the evaluation ends with it: no
built-in and no form that is going on sees it, or does anything afterwards. -/
theorem stacked_or_comes (depth : Nat) (a : Activation) (m : Machine) :
    Stacked (fun s n => ¬ p s n) depth a m ∨
    ∃ stack n, p stack n ∧ Comes depth a m stack n ∧ ∀ watch halt, ObjectsAt p watch →
      watch stack n = .error halt n → traced watch depth [] a m = .error halt n := by
  rcases obeys p depth [] a m with hquiet | ⟨stack, n, hp, hends⟩
  · exact .inl hquiet
  · refine .inr ⟨stack, n, hp, fun hstacked => not_forall_halt (r := run depth a m) fun halt => ⟨n, ?_⟩, hends⟩
    obtain ⟨watch, helsewhere, hobjects⟩ := exists_objector stack n halt
    rw [← hstacked watch helsewhere]
    refine hends watch halt (fun s k hs => helsewhere s k fun hsame => hs ?_) hobjects
    obtain ⟨rfl, rfl⟩ := hsame
    exact hp

end Objections

/-! ## Depth -/

/-- Whether a stack is too much for a depth: it has more activations, or the innermost does not fit in what is left. -/
def TooDeep (depth : Nat) : List Activation → Prop
  | [] => False
  | a :: outer => depth ≤ outer.length ∨ a.fits (depth - (outer.length + 1)) = false

instance (depth : Nat) : (stack : List Activation) → Decidable (TooDeep depth stack)
  | [] => inferInstanceAs (Decidable False)
  | a :: outer => inferInstanceAs (Decidable (depth ≤ outer.length ∨ a.fits (depth - (outer.length + 1)) = false))

/-- The watcher that cuts an evaluation off where it is too deep. -/
def cutOff (depth : Nat) (stack : List Activation) : EvalM Unit :=
  if TooDeep depth stack then throw .exhausted else pure ()

theorem cutOff_of_tooDeep (h : TooDeep depth stack) : cutOff depth stack = throw .exhausted := if_pos h

theorem cutOff_of_not_tooDeep (h : ¬ TooDeep depth stack) : cutOff depth stack = pure () := if_neg h

theorem run_eq_traced_inside : ∀ (depth' : Nat) (outer : List Activation) (a : Activation),
    depth ≤ depth' + outer.length → run (depth - outer.length) a = traced (cutOff depth) depth' outer a
  | 0, outer, a, hle => by
    rw [Nat.zero_add] at hle
    rw [Nat.sub_eq_zero_of_le hle, run_zero, traced]
  | depth' + 1, outer, a, hle => by
    rw [traced_succ]
    by_cases hlength : depth ≤ outer.length
    · have htoo : TooDeep depth (a :: outer) := .inl hlength
      rw [Nat.sub_eq_zero_of_le hlength, run_zero, cutOff_of_tooDeep htoo]
      split <;> rfl
    · obtain ⟨left, hleft⟩ : ∃ left, depth - outer.length = left + 1 := ⟨depth - outer.length - 1, by omega⟩
      have hinside : depth - (outer.length + 1) = left := by omega
      have hle' : left ≤ depth' := by omega
      rw [hleft, run_succ]
      by_cases hfits : a.fits left = true
      · have hnot : ¬ TooDeep depth (a :: outer) := by
          rintro (h | h)
          · exact hlength h
          · rw [hinside, hfits] at h
            cases h
        have hrest : run left = traced (cutOff depth) depth' (a :: outer) := by
          funext b
          rw [← hinside]
          exact run_eq_traced_inside depth' (a :: outer) b (by rw [List.length_cons]; omega)
        rw [if_pos hfits, if_pos (fits_of_le hle' hfits), cutOff_of_not_tooDeep hnot, hrest]
        rfl
      · have htoo : TooDeep depth (a :: outer) := .inr (by rw [hinside]; exact Bool.eq_false_iff.2 hfits)
        rw [if_neg hfits, cutOff_of_tooDeep htoo]
        split <;> rfl

/-- **A limit of depth only cuts off.**  Evaluation with less depth is evaluation with more, cut off at the stacks that
are too deep. -/
theorem run_eq_traced {depth' : Nat} (hle : depth ≤ depth') (a : Activation) :
    run depth a = traced (cutOff depth) depth' [] a :=
  run_eq_traced_inside depth' [] a hle

theorem cutOff_objectsAt (depth : Nat) : ObjectsAt (fun stack _ => TooDeep depth stack) (cutOff depth) := by
  intro s k hs
  rw [cutOff_of_not_tooDeep hs]
  rfl

/-- **Where less depth cuts an evaluation off**: with more, it comes to a stack in `n` that is too deep for the less. -/
def CutAt (depth depth' : Nat) (a : Activation) (m n : Machine) : Prop :=
  ∃ stack, TooDeep depth stack ∧ Comes depth' a m stack n

/-- **An evaluation never comes to a stack that is too deep, and less depth makes no difference; or it is cut off.** -/
theorem stacked_or_cut {depth' : Nat} (hle : depth ≤ depth') (a : Activation) (m : Machine) :
    Stacked (fun stack _ => ¬ TooDeep depth stack) depth' a m ∧ run depth a m = run depth' a m ∨
    ∃ n, CutAt depth depth' a m n ∧ run depth a m = .error .exhausted n := by
  rw [run_eq_traced hle]
  rcases stacked_or_comes (fun stack _ => TooDeep depth stack) depth' a m with hnever | ⟨stack, n, hdeep, hcomes, hends⟩
  · exact .inl ⟨hnever, hnever _ (cutOff_objectsAt depth)⟩
  · refine .inr ⟨n, ⟨stack, hdeep, hcomes⟩, hends _ _ (cutOff_objectsAt depth) ?_⟩
    rw [cutOff_of_tooDeep hdeep]
    rfl

theorem run_eq_or_cut {depth' : Nat} (hle : depth ≤ depth') (a : Activation) (m : Machine) :
    run depth a m = run depth' a m ∨ ∃ n, CutAt depth depth' a m n ∧ run depth a m = .error .exhausted n :=
  (stacked_or_cut hle a m).imp_left And.right

/-- **What is cut off ends there**, in the machine in which it is cut off first. -/
theorem CutAt.exhausted {depth' : Nat} (hle : depth ≤ depth') (h : CutAt depth depth' a m n) :
    ∃ k, CutAt depth depth' a m k ∧ run depth a m = .error .exhausted k := by
  obtain ⟨stack, hdeep, hcomes⟩ := h
  exact (stacked_or_cut hle a m).resolve_left fun hnever => hnever.1.of_comes hcomes hdeep

/-! ## How stacks grow -/

/-- **Stacks that grow from an activation**, of activations with a property: each started the next. -/
inductive Grown (q : Activation → Prop) (a : Activation) : List Activation → Prop
  | start : q a → Grown q a [a]
  | push {b c : Activation} {outer : List Activation} : Grown q a (b :: outer) → b.Starts c → q c →
      Grown q a (c :: b :: outer)

theorem Grown.mono {q q' : Activation → Prop} (h : Grown q a stack) (hq : ∀ b, q b → q' b) : Grown q' a stack := by
  induction h with
  | start ha => exact .start (hq _ ha)
  | push _ hstarts hc ih => exact .push ih hstarts (hq _ hc)

section Growing

variable (p : Activation → Machine → Prop)

open Classical in
/-- The watcher that ends an evaluation where a property fails. -/
noncomputable def insist (halt : Halt) (b : Activation) : EvalM Unit := fun n =>
  if p b n then .ok () n else .error halt n

/-- Either all versions that insist on a property end as they must, or they go like the plain one. -/
def Insists {α : Type} (x : Option Halt → EvalM α) : Prop :=
  ∀ m, (∀ halt, ∃ n, x (some halt) m = .error halt n) ∨ ∀ halt, x (some halt) m = x none m

theorem insists_versions : Versions Insists where
  uncut := fun _ _ => .inr fun _ => rfl
  bind := by
    intro α β x f hx hf m
    simp only [EvalM.bind_apply]
    rcases hx m with hends | hsame
    · refine .inl fun halt => ?_
      obtain ⟨n, hn⟩ := hends halt
      exact ⟨n, by rw [hn]⟩
    · simp only [hsame]
      cases x none m with
      | error halt m' => exact .inr fun _ => rfl
      | ok a m' => exact hf a m'

/-- An evaluation with a watcher of stacks, and ones that insist on a property. -/
noncomputable def insistent (watch : List Activation → EvalM Unit) (depth : Nat) (outer : List Activation)
    (a : Activation) : Option Halt → EvalM Value
  | none => traced watch depth outer a
  | some halt => watched (insist p halt) depth a

variable {p} {watch : List Activation → EvalM Unit}

theorem insists {start : Activation}
    (hwatch : ∀ s n, Grown (fun b => ∃ k, p b k) start s → watch s n = .ok () n) :
    ∀ (depth : Nat) (outer : List Activation) (a : Activation),
      (∀ n, p a n → Grown (fun b => ∃ k, p b k) start (a :: outer)) → Insists (insistent p watch depth outer a)
  | 0, _, _, _ => fun m => .inr fun _ => by rw [insistent, insistent, watched, traced]
  | depth + 1, outer, a, hgrown => by
    intro m
    simp only [insistent, watched_succ, traced_succ]
    by_cases hfits : a.fits depth = true
    swap
    · exact .inr fun _ => by rw [if_neg hfits, if_neg hfits]
    simp only [if_pos hfits, EvalM.bind_apply]
    by_cases hp : p a m
    · have hstack := hgrown m hp
      have hstep : Insists fun i => a.step fun b => insistent p watch depth (a :: outer) b i :=
        insists_versions.step fun b hb => insists hwatch depth (a :: outer) b fun n hn => .push hstack hb ⟨n, hn⟩
      have hinsist : ∀ halt, insist p halt a m = .ok () m := fun halt => if_pos hp
      simp only [hinsist, hwatch _ m hstack]
      exact hstep m
    · have hinsist : ∀ halt, insist p halt a m = .error halt m := fun halt => if_neg hp
      exact .inl fun halt => ⟨m, by rw [hinsist]⟩

/-- **Every stack has grown from where the evaluation started**, of activations of which holds what holds throughout. -/
theorem Throughout.stacked (h : Throughout p depth a m) :
    Stacked (fun stack _ => Grown (fun b => ∃ k, p b k) a stack) depth a m := by
  intro watch hwatch
  have hquiet : ∀ halt, watched (insist p halt) depth a m = run depth a m := fun halt =>
    h _ fun b n hb => if_pos hb
  rcases insists hwatch depth [] a (fun n hn => .start ⟨n, hn⟩) m with hends | hsame
  · refine (not_forall_halt (r := run depth a m) fun halt => ?_).elim
    obtain ⟨n, hn⟩ := hends halt
    exact ⟨n, (hquiet halt).symm.trans hn⟩
  · exact (hsame .exhausted).symm.trans (hquiet .exhausted)

end Growing

end MiniLisp.Activation
