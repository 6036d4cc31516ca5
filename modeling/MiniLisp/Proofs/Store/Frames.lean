import MiniLisp.Store.Basic
/-!
# Frames — how a store changes

A store changes by new frames and by new bindings in a frame.  `Framed` says that bindings were made in one frame at
most, and of some names only.  `Evolves` follows the frames that are running as well: only the innermost of them can
be bound in, so a frame that is not running stays as it is (`Evolves.frame?_eq`).
-/
namespace MiniLisp

/-! ## One change -/

namespace Entries

variable {α : Type}

theorem exists_keys_insert (es : Entries α) (key : String) (value : α) :
    ∃ new, (es.insert key value).keys = es.keys ++ new ∧ ∀ k ∈ new, k = key := by
  rw [keys_insert]
  by_cases h : key ∈ es.keys
  · exact ⟨[], by rw [if_pos h, List.append_nil], nofun⟩
  · exact ⟨[key], by rw [if_neg h], by simp⟩

end Entries

namespace Store

variable {s s' s'' : Store} {F G : FrameId} {name : String} {v : Value} {outer : FrameId} {bindings : Entries Value}

theorem size_bind : (s.bind F name v).frames.size = s.frames.size := Array.size_modify

theorem size_child : (s.child outer bindings).2.frames.size = s.frames.size + 1 := Array.size_push _

theorem frame?_bind_of_ne (h : G ≠ F) : (s.bind F name v).frame? G = s.frame? G := by
  unfold frame? bind
  rw [Array.getElem?_modify, if_neg fun e => h e.symm]

theorem frame?_bind_self : (s.bind F name v).frame? F =
    (s.frame? F).map fun f => { f with bindings := f.bindings.insert name v } := by
  unfold frame? bind
  rw [Array.getElem?_modify, if_pos rfl]

theorem frame?_child (h : G < s.frames.size) : (s.child outer bindings).2.frame? G = s.frame? G := by
  unfold frame? child push
  rw [Array.getElem?_push_lt h, Array.getElem?_eq_getElem h]

theorem frame?_child_of_ne (h : G ≠ s.frames.size) : (s.child outer bindings).2.frame? G = s.frame? G := by
  unfold frame? child push
  rw [Array.getElem?_push, if_neg h]

theorem frame?_child_self :
    (s.child outer bindings).2.frame? s.frames.size = some ⟨bindings, s.chain outer, false⟩ := by
  unfold frame? child push
  rw [Array.getElem?_push, if_pos rfl]

theorem outer_bind : (s.bind F name v).outer G = s.outer G := by
  unfold Store.outer
  by_cases h : G = F
  · subst h
    rw [frame?_bind_self]
    cases s.frame? G <;> rfl
  · rw [frame?_bind_of_ne h]

theorem bindings_bind_self (h : F < s.frames.size) :
    (s.bind F name v).bindings F = (s.bindings F).insert name v := by
  unfold Store.bindings
  rw [frame?_bind_self]
  have hf : s.frame? F = some s.frames[F] := Array.getElem?_eq_getElem h
  rw [hf]
  rfl

theorem outer_congr (h : s'.frame? G = s.frame? G) : s'.outer G = s.outer G := by
  unfold Store.outer
  rw [h]

theorem bindings_congr (h : s'.frame? G = s.frame? G) : s'.bindings G = s.bindings G := by
  unfold Store.bindings
  rw [h]

/-! ## Changes in one frame -/

/-- **Bindings were made in the frame `top` at most, and of `names` only.**  All frames stay, with their outer frames;
in the frame itself nothing is removed, and what was bound keeps its place. -/
structure Framed (top : Option FrameId) (names : List String) (s s' : Store) : Prop where
  size_le : s.frames.size ≤ s'.frames.size
  frame?_eq : ∀ G < s.frames.size, some G ≠ top → s'.frame? G = s.frame? G
  outer_eq : ∀ G < s.frames.size, s'.outer G = s.outer G
  get?_eq : ∀ F ∈ top, F < s.frames.size → ∀ name ∉ names, (s'.bindings F).get? name = (s.bindings F).get? name
  keys_eq : ∀ F ∈ top, F < s.frames.size →
    ∃ new, (s'.bindings F).keys = (s.bindings F).keys ++ new ∧ ∀ name ∈ new, name ∈ names

namespace Framed

variable {top : Option FrameId} {names : List String}

theorem of_frame?_eq (hle : s.frames.size ≤ s'.frames.size) (h : ∀ G < s.frames.size, s'.frame? G = s.frame? G) :
    Framed top names s s' where
  size_le := hle
  frame?_eq := fun G hG _ => h G hG
  outer_eq := fun G hG => outer_congr (h G hG)
  get?_eq := fun F _ hF name _ => by rw [bindings_congr (h F hF)]
  keys_eq := fun F _ hF => ⟨[], by rw [bindings_congr (h F hF), List.append_nil], nofun⟩

theorem refl : Framed top names s s := of_frame?_eq (Nat.le_refl _) fun _ _ => rfl

theorem trans (h : Framed top names s s') (h' : Framed top names s' s'') : Framed top names s s'' where
  size_le := Nat.le_trans h.size_le h'.size_le
  frame?_eq := fun G hG hne => by rw [h'.frame?_eq G (Nat.lt_of_lt_of_le hG h.size_le) hne, h.frame?_eq G hG hne]
  outer_eq := fun G hG => by rw [h'.outer_eq G (Nat.lt_of_lt_of_le hG h.size_le), h.outer_eq G hG]
  get?_eq := fun F hF hlt name hn => by
    rw [h'.get?_eq F hF (Nat.lt_of_lt_of_le hlt h.size_le) name hn, h.get?_eq F hF hlt name hn]
  keys_eq := fun F hF hlt => by
    obtain ⟨new, hkeys, hnew⟩ := h.keys_eq F hF hlt
    obtain ⟨new', hkeys', hnew'⟩ := h'.keys_eq F hF (Nat.lt_of_lt_of_le hlt h.size_le)
    exact ⟨new ++ new', by rw [hkeys', hkeys, List.append_assoc], List.forall_mem_append.2 ⟨hnew, hnew'⟩⟩

theorem bind (hn : name ∈ names) : Framed (some F) names s (s.bind F name v) where
  size_le := Nat.le_of_eq size_bind.symm
  frame?_eq := fun G _ hne => frame?_bind_of_ne fun e => hne (congrArg some e)
  outer_eq := fun G _ => outer_bind
  get?_eq := by
    rintro _ ⟨⟩ hF other ho
    have hne : name ≠ other := fun e => ho (e ▸ hn)
    rw [bindings_bind_self hF, Entries.get?_insert_of_ne v hne]
  keys_eq := by
    rintro _ ⟨⟩ hF
    rw [bindings_bind_self hF]
    obtain ⟨new, hkeys, hnew⟩ := Entries.exists_keys_insert (s.bindings F) name v
    exact ⟨new, hkeys, fun k hk => hnew k hk ▸ hn⟩

/-- What is bound in a frame of its own changes no frame that existed before. -/
theorem call {inner : List String} (h : Framed (some s.frames.size) inner (s.child outer bindings).2 s') :
    Framed top names s s' := by
  have hsize := h.size_le
  rw [size_child] at hsize
  refine of_frame?_eq (by omega) fun G hG => ?_
  have hlt : G < (s.child outer bindings).2.frames.size := by
    rw [size_child]
    omega
  rw [h.frame?_eq G hlt fun e => Nat.ne_of_lt hG (Option.some.inj e), frame?_child hG]

end Framed

/-! ## Running frames -/

/-- **A history of the store**, with the frames that are running, the innermost first.  A call enters a new frame,
names are bound in the innermost frame, and the frame of a call that returns is left. -/
inductive Evolves (st : List FrameId) (s : Store) : List FrameId → Store → Prop
  | refl : Evolves st s st s
  | enter {st' : List FrameId} {s' : Store} (outer : FrameId) (bindings : Entries Value) : Evolves st s st' s' →
      Evolves st s (s'.frames.size :: st') (s'.child outer bindings).2
  | bind {st' : List FrameId} {s' : Store} {F : FrameId} (name : String) (v : Value) : Evolves st s (F :: st') s' →
      Evolves st s (F :: st') (s'.bind F name v)
  | leave {st' : List FrameId} {s' : Store} {F : FrameId} : Evolves st s (F :: st') s' → Evolves st s st' s'

namespace Evolves

variable {st st' st'' : List FrameId}

theorem trans (h : Evolves st s st' s') (h' : Evolves st' s' st'' s'') : Evolves st s st'' s'' := by
  induction h' with
  | refl => exact h
  | enter outer bindings _ ih => exact .enter outer bindings ih
  | bind name v _ ih => exact .bind name v ih
  | leave _ ih => exact .leave ih

/-- **A frame that is not running will not run again, and stays as it is.** -/
theorem frame?_eq (h : Evolves st s st' s') (hG : G < s.frames.size) (hst : G ∉ st) :
    G < s'.frames.size ∧ G ∉ st' ∧ s'.frame? G = s.frame? G := by
  induction h with
  | refl => exact ⟨hG, hst, rfl⟩
  | enter outer bindings _ ih =>
    obtain ⟨hlt, hnot, heq⟩ := ih
    refine ⟨?_, ?_, by rw [frame?_child hlt, heq]⟩
    · rw [size_child]
      exact Nat.lt_succ_of_lt hlt
    · exact List.not_mem_cons_of_ne_of_not_mem (Nat.ne_of_lt hlt) hnot
  | bind name v _ ih =>
    obtain ⟨hlt, hnot, heq⟩ := ih
    refine ⟨by rwa [size_bind], hnot, ?_⟩
    rw [frame?_bind_of_ne (List.ne_of_not_mem_cons hnot), heq]
  | leave _ ih =>
    obtain ⟨hlt, hnot, heq⟩ := ih
    exact ⟨hlt, List.not_mem_of_not_mem_cons hnot, heq⟩

end Evolves

end Store

end MiniLisp
