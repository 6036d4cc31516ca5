import Mathlib.Logic.Relation
import MiniLisp.Machine
import MiniLisp.Proofs.Store.Rooted
import MiniLisp.Proofs.Value.Pairs
/-!
# History — what a frame binds, by what was done before

A history is what has been done to the frames, the latest first: frames were created, outermost or inside others, and
names were defined in them.  It says which frame is around which (`History.outer?`), and which values the names of a
frame were given (`History.given`).  The store after a history looks names up by that alone (`History.lookup_after`,
`History.find?_eq_some_iff`), and a definition is seen from the frames that reach it and from no others
(`History.lexical_lookup`).
-/
namespace MiniLisp.Store

/-! ## Histories -/

/-- A change of the frames. -/
inductive Change where
  /-- A new frame, inside another or outermost, with pairs that are inserted one after another. -/
  | create (outer? : Option FrameId) (pairs : List (String × Value)) (readOnly : Bool)
  /-- A definition, which a read-only frame refuses. -/
  | define (F : FrameId) (name : String) (v : Value)

def change (s : Store) : Change → Store
  | .create none pairs readOnly => (s.create (.ofPairs pairs) readOnly).2
  | .create (some F) pairs false => (s.child F (.ofPairs pairs)).2
  | .create (some F) pairs true => (s.push ⟨.ofPairs pairs, s.chain F, true⟩).2
  | .define F name v =>
    match s.define F name v with
    | .ok s' => s'
    | .error _ => s

/-- The frame next to a frame. -/
def link? (s : Store) (F : FrameId) : Option FrameId := (s.outer F).head?

/-- **What has been done to the frames**, the latest first. -/
abbrev History := List Change

namespace History

/-- The store after a history, which begins with no frames. -/
def after : History → Store
  | [] => ⟨#[]⟩
  | c :: h => (after h).change c

/-- How many frames have been created. -/
def size : History → Nat
  | [] => 0
  | .create _ _ _ :: h => size h + 1
  | .define _ _ _ :: h => size h

/-- The frame that a frame was created in. -/
def outer? : History → FrameId → Option FrameId
  | [], _ => none
  | .create outer? _ _ :: h, F => if F = size h then outer? else History.outer? h F
  | .define _ _ _ :: h, F => History.outer? h F

/-- Whether a frame was created read-only. -/
def locked : History → FrameId → Bool
  | [], _ => false
  | .create _ _ readOnly :: h, F => if F = size h then readOnly else locked h F
  | .define _ _ _ :: h, F => locked h F

/-- **What the names of a frame were given in that very frame**, the latest first: by successful definitions, and when
the frame was created. -/
def given : History → FrameId → List (String × Value)
  | [], _ => []
  | .create _ pairs _ :: h, F => if F = size h then pairs.reverse else given h F
  | .define G name v :: h, F => if F = G ∧ locked h G = false then (name, v) :: given h F else given h F

/-- Every change is about frames that exist. -/
def Valid : History → Prop
  | [] => True
  | .create outer? _ _ :: h => (∀ F ∈ outer?, F < size h) ∧ Valid h
  | .define F _ _ :: h => F < size h ∧ Valid h

/-- A name was bound at first, or has been defined. -/
def Binds (h : History) (name : String) (F : FrameId) : Prop := ∃ v, (name, v) ∈ h.given F

/-- **A frame is reached from another** before any other frame that binds the name. -/
inductive Reaches (h : History) (name : String) : FrameId → FrameId → Prop
  | refl (F : FrameId) : Reaches h name F F
  | outer {F G H : FrameId} : ¬ h.Binds name F → h.outer? F = some G → Reaches h name G H → Reaches h name F H

end History

variable {s : Store} {F G : FrameId} {f : Frame} {name other : String} {v : Value}

/-! ## One change -/

theorem frame?_push_self : (s.push f).2.frame? s.frames.size = some f := by
  unfold frame? push
  rw [Array.getElem?_push, if_pos rfl]

theorem frame?_push_of_ne (h : F ≠ s.frames.size) : (s.push f).2.frame? F = s.frame? F := by
  unfold frame? push
  rw [Array.getElem?_push, if_neg h]

theorem change_create (s : Store) (outer? : Option FrameId) (pairs : List (String × Value)) (readOnly : Bool) :
    s.change (.create outer? pairs readOnly) =
      (s.push ⟨.ofPairs pairs, outer?.elim [] s.chain, readOnly⟩).2 := by
  cases outer? with
  | none => rfl
  | some F => cases readOnly <;> rfl

theorem change_define (s : Store) (F : FrameId) (name : String) (v : Value) :
    s.change (.define F name v) = if s.readOnly F then s else s.bind F name v := by
  dsimp only [change, Store.define]
  cases s.readOnly F <;> rfl

namespace History

variable {h : History}

theorem lookup_given_eq_none_iff : (h.given F).lookup name = none ↔ ¬ h.Binds name F := by
  simp only [Binds, List.lookup_eq_none_iff, bne_iff_ne, ne_eq, not_exists]
  exact ⟨fun hall v hv => hall _ hv rfl, fun hnot ⟨k, v⟩ hv hk => hnot v (hk ▸ hv)⟩

/-- **The store after a history is as the history says.** -/
structure Recorded (h : History) (s : Store) : Prop where
  size_eq : s.frames.size = h.size
  outer_eq : ∀ F, s.outer F = (h.outer? F).elim [] s.chain
  readOnly_eq : ∀ F, s.readOnly F = h.locked F
  bindings_eq : ∀ F, s.bindings F = .ofPairs (h.given F).reverse

/-- Frames are created inside earlier ones. -/
theorem lt_of_outer? : ∀ {h : History}, h.Valid → h.outer? F = some G → G < F ∧ F < h.size
  | .create o _ _ :: h, ⟨ho, hvalid⟩, hG => by
    rw [outer?] at hG
    by_cases hF : F = size h
    · rw [if_pos hF] at hG
      exact ⟨hF ▸ ho G hG, hF ▸ Nat.lt_succ_self _⟩
    · rw [if_neg hF] at hG
      obtain ⟨hlt, hsize⟩ := lt_of_outer? hvalid hG
      exact ⟨hlt, Nat.lt_succ_of_lt hsize⟩
  | .define _ _ _ :: h, ⟨_, hvalid⟩, hG => lt_of_outer? (h := h) hvalid hG

theorem Recorded.create {o : Option FrameId} {pairs : List (String × Value)} {readOnly : Bool} (hr : h.Recorded s)
    (hvalid : Valid (.create o pairs readOnly :: h)) :
    Recorded (.create o pairs readOnly :: h) (s.change (.create o pairs readOnly)) := by
  rw [change_create]
  set f : Frame := ⟨.ofPairs pairs, o.elim [] s.chain, readOnly⟩
  have hself : (s.push f).2.frame? h.size = some f := by rw [← hr.size_eq, frame?_push_self]
  have hother : ∀ F, F ≠ h.size → (s.push f).2.frame? F = s.frame? F := fun F hF =>
    frame?_push_of_ne (hr.size_eq ▸ hF)
  refine ⟨?_, fun F => ?_, fun F => ?_, fun F => ?_⟩
  · rw [size, ← hr.size_eq]
    exact Array.size_push _
  · have helim : (outer? (.create o pairs readOnly :: h) F).elim [] (s.push f).2.chain =
        (outer? (.create o pairs readOnly :: h) F).elim [] s.chain := by
      cases hG : outer? (.create o pairs readOnly :: h) F with
      | none => rfl
      | some G =>
        obtain ⟨hlt, hsize⟩ := lt_of_outer? hvalid hG
        have hne : G ≠ h.size := Nat.ne_of_lt (Nat.lt_of_lt_of_le hlt (Nat.le_of_lt_succ hsize))
        rw [Option.elim_some, Option.elim_some, chain, chain, outer_congr (hother G hne)]
    rw [helim, outer?]
    by_cases hF : F = h.size
    · rw [if_pos hF, hF, Store.outer, hself]
    · rw [if_neg hF, outer_congr (hother F hF), hr.outer_eq]
  · rw [locked]
    by_cases hF : F = h.size
    · rw [if_pos hF, hF, Store.readOnly, hself]
    · rw [if_neg hF, readOnly_congr (hother F hF), hr.readOnly_eq]
  · rw [given]
    by_cases hF : F = h.size
    · rw [if_pos hF, hF, List.reverse_reverse, Store.bindings, hself]
    · rw [if_neg hF, bindings_congr (hother F hF), hr.bindings_eq]

theorem Recorded.define (hr : h.Recorded s) (hG : G < h.size) (name : String) (v : Value) :
    Recorded (.define G name v :: h) (s.change (.define G name v)) := by
  rw [change_define, hr.readOnly_eq]
  cases hlocked : h.locked G with
  | true =>
    rw [if_pos rfl]
    refine ⟨hr.size_eq, hr.outer_eq, hr.readOnly_eq, fun F => ?_⟩
    rw [given, hlocked, if_neg fun h => Bool.false_ne_true h.2.symm, hr.bindings_eq]
  | false =>
    rw [if_neg Bool.false_ne_true]
    have hchain : (s.bind G name v).chain = s.chain := funext fun F => by rw [chain, outer_bind, chain]
    refine ⟨by rw [size_bind, hr.size_eq, size], fun F => ?_, fun F => ?_, fun F => ?_⟩
    · rw [outer_bind, hr.outer_eq, hchain, outer?]
    · rw [readOnly_bind, hr.readOnly_eq, locked]
    · rw [given, hlocked]
      by_cases hF : F = G
      · rw [hF, bindings_bind_self (hr.size_eq ▸ hG), hr.bindings_eq, if_pos ⟨rfl, rfl⟩, List.reverse_cons,
          Entries.ofPairs_concat]
      · rw [bindings_congr (frame?_bind_of_ne hF), hr.bindings_eq, if_neg fun h => hF h.1]

theorem recorded_after : ∀ {h : History}, h.Valid → h.Recorded h.after
  | [], _ => ⟨rfl, fun _ => rfl, fun _ => rfl, fun _ => rfl⟩
  | .create _ _ _ :: _, hvalid => (recorded_after hvalid.2).create hvalid
  | .define _ _ _ :: _, hvalid => (recorded_after hvalid.2).define hvalid.1 _ _

/-! ## Looking names up -/

section

variable (hvalid : h.Valid)
include hvalid

theorem get?_after (F : FrameId) (name : String) : (h.after.bindings F).get? name = (h.given F).lookup name := by
  rw [(recorded_after hvalid).bindings_eq, Entries.get?_ofPairs, List.reverse_reverse]

/-- A name is found where it is bound, or else as it is found from the frame around. -/
theorem find?_after (F : FrameId) (name : String) : h.after.find? F name =
    if ((h.given F).lookup name).isSome then some F else (h.outer? F).bind fun G => h.after.find? G name := by
  rw [Store.find?, chain, (recorded_after hvalid).outer_eq, List.find?_cons, Entries.binds, get?_after hvalid]
  cases ((h.given F).lookup name).isSome with
  | true => rfl
  | false => cases h.outer? F <;> rfl

/-- **A name has the latest value that it was given in the frame**, or else its value in the frame around. -/
theorem lookup_after (F : FrameId) (name : String) : h.after.lookup F name =
    ((h.given F).lookup name).getD ((h.outer? F).elim .nil fun G => h.after.lookup G name) := by
  rw [Store.lookup, find?_after hvalid]
  cases hv : (h.given F).lookup name with
  | some v =>
    show ((h.after.bindings F).get? name).getD .nil = v
    rw [get?_after hvalid, hv, Option.getD_some]
  | none => cases h.outer? F <;> rfl

theorem reaches_of_find? : h.after.find? F name = some G → h.Reaches name F G ∧ h.Binds name G := by
  induction F using Nat.strongRecOn with
  | ind F ih =>
    intro hfind
    rw [find?_after hvalid] at hfind
    cases hv : (h.given F).lookup name with
    | some v =>
      rw [hv] at hfind
      cases hfind
      exact ⟨.refl _, not_not.1 fun hnot => by rw [lookup_given_eq_none_iff.2 hnot] at hv; cases hv⟩
    | none =>
      rw [hv] at hfind
      obtain ⟨H, hH, hfind⟩ := Option.bind_eq_some_iff.1 hfind
      obtain ⟨hreaches, hbinds⟩ := ih H (lt_of_outer? hvalid hH).1 hfind
      exact ⟨.outer (lookup_given_eq_none_iff.1 hv) hH hreaches, hbinds⟩

theorem Reaches.find?_eq (hreaches : h.Reaches name F G) (hbinds : h.Binds name G) :
    h.after.find? F name = some G := by
  induction hreaches with
  | refl F =>
    have hsome : ((h.given F).lookup name).isSome := by
      rw [Option.isSome_iff_ne_none]
      exact fun hnone => lookup_given_eq_none_iff.1 hnone hbinds
    rw [find?_after hvalid, if_pos hsome]
  | outer hnot hlink _ ih =>
    rw [find?_after hvalid, lookup_given_eq_none_iff.2 hnot, hlink]
    exact ih hbinds

end

/-! ## Defining names -/

theorem lookup_given_define (hlocked : h.locked G = false) (name : String) (v : Value) (F : FrameId) (other : String) :
    (given (.define G name v :: h) F).lookup other =
      if F = G ∧ other = name then some v else (h.given F).lookup other := by
  rw [given]
  by_cases hF : F = G
  · rw [if_pos ⟨hF, hlocked⟩, List.lookup_cons]
    by_cases ho : other = name
    · rw [ho, beq_self_eq_true, if_pos ⟨hF, rfl⟩]
    · rw [beq_false_of_ne ho, if_neg fun h => ho h.2]
  · rw [if_neg fun h => hF h.1, if_neg fun h => hF h.1]

section

variable (hvalid : h.Valid) (hG : G < h.size) (hlocked : h.locked G = false)
include hvalid hG hlocked

/-- A name that has just been defined has its new value there, and other values are found as before. -/
theorem lookup_after_define (name : String) (v : Value) (F : FrameId) (other : String) :
    (after (.define G name v :: h)).lookup F other = if F = G ∧ other = name then v else
      ((h.given F).lookup other).getD
        ((h.outer? F).elim .nil fun H => (after (.define G name v :: h)).lookup H other) := by
  rw [lookup_after (h := .define G name v :: h) ⟨hG, hvalid⟩, lookup_given_define hlocked, outer?]
  by_cases hself : F = G ∧ other = name
  · rw [if_pos hself, if_pos hself, Option.getD_some]
  · rw [if_neg hself, if_neg hself]

/-- **A definition is seen from every frame that reaches it.** -/
theorem Reaches.lookup_define (hreaches : h.Reaches name F G) :
    (after (.define G name v :: h)).lookup F name = v := by
  induction hreaches with
  | refl => rw [lookup_after_define hvalid hG hlocked, if_pos ⟨rfl, rfl⟩]
  | @outer F H K hnot hlink _ ih =>
    rw [lookup_after_define hvalid hG hlocked]
    by_cases hself : F = K ∧ name = name
    · rw [if_pos hself]
    · rw [if_neg hself, lookup_given_eq_none_iff.2 hnot, hlink]
      exact ih hG hlocked

/-- **A definition changes nothing that is seen otherwise.** -/
theorem lookup_define_of_not (hnot : ¬ (other = name ∧ h.Reaches name F G)) :
    (after (.define G name v :: h)).lookup F other = h.after.lookup F other := by
  induction F using Nat.strongRecOn with
  | ind F ih =>
    have hself : ¬ (F = G ∧ other = name) := by
      rintro ⟨rfl, rfl⟩
      exact hnot ⟨rfl, .refl F⟩
    rw [lookup_after_define hvalid hG hlocked, if_neg hself, lookup_after hvalid]
    cases hv : (h.given F).lookup other with
    | some w => rfl
    | none =>
      cases hlink : h.outer? F with
      | none => rfl
      | some H =>
        refine ih H (lt_of_outer? hvalid hlink).1 ?_
        rintro ⟨rfl, hreaches⟩
        exact hnot ⟨rfl, .outer (lookup_given_eq_none_iff.1 hv) hlink hreaches⟩

end

/-! ## Frames together -/

section

variable (hvalid : h.Valid)
include hvalid

/-- The links are those that the frames were created with. -/
theorem link?_after (F : FrameId) : h.after.link? F = h.outer? F := by
  rw [link?, (recorded_after hvalid).outer_eq]
  cases h.outer? F <;> rfl

theorem lt_of_transGen (hlinks : Relation.TransGen (fun F G => h.after.link? F = some G) F G) : G < F := by
  induction hlinks with
  | single hlink =>
    rw [link?_after hvalid] at hlink
    exact (lt_of_outer? hvalid hlink).1
  | tail _ hlink ih =>
    rw [link?_after hvalid] at hlink
    exact Nat.lt_trans (lt_of_outer? hvalid hlink).1 ih

theorem define_after_eq (G : FrameId) (name : String) (v : Value) : h.after.define G name v =
    if h.locked G then .error (.readOnly name) else .ok (after (.define G name v :: h)) := by
  rw [after, change_define, Store.define, (recorded_after hvalid).readOnly_eq]
  cases h.locked G <;> rfl

/-- **Frames are lexical scopes, whatever has been done to them.**  Links never lead back.  A name is found in the
nearest frame that it was bound in at first or has been defined in, and has the value that it was given there last; if
there is no such frame, it is nil.  The names of a frame stand in the order in which they first came up.
Defining a name in a frame is seen from every frame that reaches it before any other frame that binds the name, and in
no other lookup; a name that was bound keeps its place.  A read-only frame refuses it with an evaluation error, and the
machine stays as it was. -/
theorem lexical_lookup :
    (∀ F, ¬ Relation.TransGen (fun F G => h.after.link? F = some G) F F) ∧
    (∀ F, h.after.outer F = (h.after.link? F).elim [] h.after.chain ∧ h.after.link? F = h.outer? F) ∧
    (∀ F G name, h.Reaches name F G → h.Binds name G → h.after.find? F name = some G ∧
      ∃ v, (h.given G).lookup name = some v ∧ h.after.lookup F name = v) ∧
    (∀ F name, (∀ G, h.Reaches name F G → ¬ h.Binds name G) →
      h.after.find? F name = none ∧ h.after.lookup F name = .nil) ∧
    (∀ F, (h.after.bindings F).keys = ((h.given F).reverse.map Prod.fst).eraseDups) ∧
    (∀ G < h.size, h.locked G = false → ∀ name v, ∃ s, h.after.define G name v = .ok s ∧
      (∀ F, h.Reaches name F G → s.lookup F name = v) ∧
      (∀ F other, ¬ (other = name ∧ h.Reaches name F G) → s.lookup F other = h.after.lookup F other) ∧
      (h.Binds name G → (s.bindings G).keys = (h.after.bindings G).keys)) ∧
    ∀ G < h.size, h.locked G = true → ∀ name v,
      (∀ m : Machine, m.store = h.after → EvalM.define G name v m = .error (.failed (.readOnly name)) m) ∧
      ∃ message, (Error.readOnly name).diagnostic = .eval message none := by
  have hr := recorded_after hvalid
  refine ⟨fun F hcycle => Nat.lt_irrefl F (lt_of_transGen hvalid hcycle), fun F => ⟨?_, link?_after hvalid F⟩,
    fun F G name hreaches hbinds => ?_, fun F name hnone => ?_, fun F => ?_, fun G hG hlocked name v => ?_,
    fun G _ hlocked name v => ⟨fun m hm => ?_, _, rfl⟩⟩
  · rw [link?_after hvalid, hr.outer_eq]
  · have hfind := hreaches.find?_eq hvalid hbinds
    cases hv : (h.given G).lookup name with
    | none => exact absurd hbinds (lookup_given_eq_none_iff.1 hv)
    | some v =>
      refine ⟨hfind, v, rfl, ?_⟩
      rw [Store.lookup, hfind]
      show ((h.after.bindings G).get? name).getD .nil = v
      rw [get?_after hvalid, hv, Option.getD_some]
  · have hfind : h.after.find? F name = none := by
      cases hfind : h.after.find? F name with
      | none => rfl
      | some G =>
        obtain ⟨hreaches, hbinds⟩ := reaches_of_find? hvalid hfind
        exact absurd hbinds (hnone G hreaches)
    refine ⟨hfind, ?_⟩
    rw [Store.lookup, hfind]
  · rw [hr.bindings_eq, Entries.keys_ofPairs]
  · refine ⟨after (.define G name v :: h), ?_, fun F hreaches => hreaches.lookup_define hvalid hG hlocked,
      fun F other hnot => lookup_define_of_not hvalid hG hlocked hnot, fun hbinds => ?_⟩
    · rw [define_after_eq hvalid, hlocked, if_neg Bool.false_ne_true]
    · have hkey : name ∈ (h.after.bindings G).keys := by
        obtain ⟨v, hv⟩ := hbinds
        rw [hr.bindings_eq, Entries.keys_ofPairs]
        simpa using ⟨v, hv⟩
      rw [after, change_define, hr.readOnly_eq, hlocked, if_neg Bool.false_ne_true,
        bindings_bind_self (hr.size_eq ▸ hG), Entries.keys_insert, if_pos hkey]
  · rw [EvalM.define_eq, hm, define_after_eq hvalid, hlocked, if_pos rfl]

end

/-- A name that is shadowed in one of two frames inside a third, and then defined again in the third. -/
theorem lexical_lookup_siblings :
    let h : History := [.create (some 0) [] false, .create (some 0) [("x", .nil)] false,
      .create none [("x", .bool true), ("y", .nil)] false]
    h.Valid ∧ ∃ s, h.after.define 0 "x" (.bool false) = .ok s ∧
      s.lookup 2 "x" = .bool false ∧ s.lookup 1 "x" = .nil ∧ (s.bindings 0).keys = (h.after.bindings 0).keys := by
  intro h
  have hvalid : h.Valid := by simp [h, Valid, size]
  have hbinds : h.Binds "x" 1 := ⟨.nil, List.mem_singleton_self _⟩
  have hnot : ¬ h.Binds "x" 2 := nofun
  have hreaches : h.Reaches "x" 2 0 := .outer hnot rfl (.refl 0)
  have hshadowed : ¬ h.Reaches "x" 1 0 := by
    rintro (_ | ⟨hnot, -, -⟩)
    exact hnot hbinds
  have hspec := lexical_lookup hvalid
  obtain ⟨-, v, hv, hlookup⟩ := hspec.2.2.1 1 1 "x" (.refl 1) hbinds
  obtain rfl : v = .nil := by
    cases hv
    rfl
  obtain ⟨s, hs, hseen, hother, hkeys⟩ := hspec.2.2.2.2.2.1 0 (by decide) rfl "x" (.bool false)
  exact ⟨hvalid, s, hs, hseen 2 hreaches, (hother 1 "x" fun h => hshadowed h.2).trans hlookup,
    hkeys ⟨.bool true, List.mem_cons_of_mem _ List.mem_cons_self⟩⟩

end History

end MiniLisp.Store
