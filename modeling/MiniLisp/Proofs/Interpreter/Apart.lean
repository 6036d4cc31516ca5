import Mathlib.Data.List.Nodup
import MiniLisp.Proofs.Interpreter.Commands
/-!
# Apart — interpreters that share a machine do not interfere

Beside a machine that several interpreters share, each of them can be imagined alone in a machine of its own, with the
same commands.  The frames and marks of the machine of its own have counterparts in the shared one, and no other
interpreter touches these.  So the two machines correspond all the time, whatever the others do, and the interpreter
answers the same in both (`served_apart`).
-/
namespace MiniLisp

/-! ## Counterparts while the others go on -/

/-- What is below a bound stays where it is, and what is not comes behind another bound. -/
def regrown (f : Nat → Nat) (bound bound' n : Nat) : Nat := if n < bound then f n else bound' + (n - bound)

variable {f : Nat → Nat} {bound bound' n : Nat}

theorem regrown_of_lt (h : n < bound) : regrown f bound bound' n = f n := if_pos h

theorem regrown_add (f : Nat → Nat) (bound bound' j : Nat) : regrown f bound bound' (bound + j) = bound' + j := by
  unfold regrown
  rw [if_neg (by omega)]
  omega

theorem regrown_injective (hf : f.Injective) (hlt : ∀ n < bound, f n < bound') :
    (regrown f bound bound').Injective := by
  intro a b h
  unfold regrown at h
  by_cases ha : a < bound <;> by_cases hb : b < bound
  · rw [if_pos ha, if_pos hb] at h
    exact hf h
  · have hfa := hlt a ha
    rw [if_pos ha, if_neg hb] at h
    omega
  · have hfb := hlt b hb
    rw [if_neg ha, if_pos hb] at h
    omega
  · rw [if_neg ha, if_neg hb] at h
    omega

/-- What goes behind a bound is no counterpart of anything in front of it. -/
theorem lt_of_injective (hf : f.Injective) (hnew : ∀ j, f (bound + j) = bound' + j) (h : n < bound) : f n < bound' := by
  by_contra hle
  obtain ⟨j, hj⟩ := Nat.exists_eq_add_of_le (Nat.le_of_not_lt hle)
  have hsame := hf (hj.trans (hnew j).symm)
  omega

namespace Correspondence

variable {k k' : Correspondence Unit} {n m m' : Machine} {v w : Value}

/-- What is there in a machine has the same counterparts. -/
structure Extends (n : Machine) (k k' : Correspondence Unit) : Prop where
  frame : ∀ F < n.store.frames.size, k'.frame F = k.frame F
  mark : ∀ j < n.nextMark, k'.mark j = k.mark j

section

variable (hk : k.Renames) (hk' : k'.Renames) (h : Extends n k k')

include hk hk' h

theorem functions_extend {f g : Function} (hf : n.Knows f) (hfg : k.Functions f g) : k'.Functions f g := by
  cases hfg with
  | builtin b => exact .builtin b
  | operator op mark =>
    rw [← h.mark mark hf]
    exact .operator op mark
  | closure i hbody hpos =>
    rw [← h.mark _ hf.1, ← h.frame _ hf.2.rooted.lt]
    rw [hk.place] at hbody hpos
    refine .closure () ?_ ?_ <;> rwa [hk'.place]

theorem values_extend (hv : n.Holds v) (hvw : k.Values v w) : k'.Values v w :=
  hvw.of_functions fun f hf _ hfg => functions_extend hk hk' h (hv f hf) hfg

theorem forall₂_values_extend {vs ws : List Value} (hvs : ∀ v ∈ vs, n.Holds v)
    (hvws : List.Forall₂ k.Values vs ws) : List.Forall₂ k'.Values vs ws :=
  ((List.forall₂_and_left _ _).2 ⟨hvs, hvws⟩).imp fun _ _ hvw => values_extend hk hk' h hvw.1 hvw.2

theorem frame?_extends {f? g? : Option Frame} (hbindings : ∀ f ∈ f?, ∀ v ∈ f.bindings.values, n.Holds v)
    (houter : ∀ f ∈ f?, ∀ G ∈ f.outer, G < n.store.frames.size)
    (hfg : Option.Rel (Frame.Matches k.frame k.Values) f? g?) :
    Option.Rel (Frame.Matches k'.frame k'.Values) f? g? := by
  cases hfg with
  | none => exact .none
  | @some f g hfg =>
    obtain ⟨hkeys, hnames, hvalues⟩ := Entries.agree_iff.1 hfg.bindings
    refine .some ⟨?_, ?_, hfg.readOnly⟩
    · exact Entries.agree_iff.2 ⟨hkeys, hnames, forall₂_values_extend hk hk' h (hbindings f rfl) hvalues⟩
    · rw [hfg.outer]
      exact List.map_congr_left fun G hG => (h.frame G (houter f rfl G hG)).symm

theorem reply_extends {r s : Reply} (hr : ∀ vs, r = .evaluated (.ok vs) → ∀ v ∈ vs, n.Holds v) (hrs : r.Matches k s) :
    r.Matches k' s := by
  cases hrs with
  | parsed result => exact .parsed result
  | ok hvws => exact .ok (forall₂_values_extend hk hk' h (hr _ rfl) hvws)
  | error e => exact .error e

theorem answer_extends {a b : Answer} (ha : a.Held n) (hab : a.Matches k b) : a.Matches k' b where
  reply := reply_extends hk hk' h ha.reply hab.reply
  printed := hab.printed
  script := frame?_extends hk hk' h ha.bindings ha.outer hab.script

end

/-- **Counterparts while something else happens**: in a later machine in which the counterparts of all frames are as
they were, they are counterparts still, and what comes next has new ones. -/
theorem exists_regrown (hk : k.Renames) (hn : n.Sound) (hnm : k.Machines n m)
    (hsize : m.store.frames.size ≤ m'.store.frames.size) (hmarks : m.nextMark ≤ m'.nextMark)
    (hframes : ∀ F < n.store.frames.size, m'.store.frame? (k.frame F) = m.store.frame? (k.frame F)) :
    ∃ k' : Correspondence Unit, k'.Renames ∧ k'.Machines n m' ∧ Extends n k k' := by
  have hframe : ∀ F < n.store.frames.size, k.frame F < m'.store.frames.size := fun F hF =>
    Nat.lt_of_lt_of_le (lt_of_injective k.injective hnm.store.size hF) hsize
  have hmark : ∀ j < n.nextMark, k.mark j < m'.nextMark := fun j hj =>
    Nat.lt_of_lt_of_le (lt_of_injective hk.mark hnm.marks hj) hmarks
  let k' : Correspondence Unit :=
    { frame := regrown k.frame n.store.frames.size m'.store.frames.size
      mark := regrown k.mark n.nextMark m'.nextMark
      place := fun _ => Eq
      before := n.printed
      before' := m'.printed
      injective := regrown_injective k.injective hframe }
  have hk' : k'.Renames := ⟨rfl, regrown_injective hk.mark hmark⟩
  have hextends : Extends n k k' := ⟨fun F hF => regrown_of_lt hF, fun j hj => regrown_of_lt hj⟩
  have hstore : n.store.Matches k'.frame k'.Values m'.store := by
    refine .of_lt (fun F hF => ?_) fun j => regrown_add _ _ _ j
    rw [hextends.frame F hF, hframes F hF]
    refine frame?_extends hk hk' hextends ?_ ?_ (hnm.store.frame? F)
    · exact fun f hf => (hn.held hf).1
    · exact fun f hf => (hn.held hf).2
  refine ⟨k', hk', ⟨hstore, fun j => regrown_add _ _ _ j, #[], ?_, ?_⟩, hextends⟩
  · exact Array.append_empty.symm
  · exact Array.append_empty.symm

end Correspondence

/-! ## Clients -/

/-- An interpreter with the commands that it was given and what it answered, the first one first. -/
structure Client where
  interpreter : Interpreter
  commands : List Command
  answers : List Answer

namespace Client

/-- An interpreter of its own, in a machine of its own. -/
def fresh (c : Client) : Interpreter × Machine := Interpreter.create c.interpreter.limit .initial

/-- **The same commands for an interpreter that is alone**, from the start. -/
def alone (c : Client) : List Answer × Machine := c.fresh.1.session c.commands c.fresh.2

/-- A client after one more command. -/
def serve (c : Client) (command : Command) (m : Machine) : Client :=
  { c with commands := c.commands ++ [command], answers := c.answers ++ [(c.interpreter.serve command m).1] }

end Client

/-- **What interpreters that share a machine may do**: they are created and given commands in any order. -/
inductive Served : List Client → Machine → Prop
  | initial : Served [] .initial
  | create {cs : List Client} {m : Machine} (limit : Nat) : Served cs m →
      Served (⟨(Interpreter.create limit m).1, [], []⟩ :: cs) (Interpreter.create limit m).2
  | serve {before after : List Client} {c : Client} {m : Machine} (command : Command) :
      Served (before ++ c :: after) m →
      Served (before ++ c.serve command m :: after) (c.interpreter.serve command m).2

namespace Client

/-- **A client in the shared machine, and alone**: `k` gives the counterparts. -/
structure Mirrored (c : Client) (m : Machine) (k : Correspondence Unit) : Prop where
  renames : k.Renames
  machines : k.Machines c.alone.2 m
  sound : c.alone.2.Sound
  inside : c.alone.2.store.Scoped c.fresh.1.frame
  root : k.frame Store.root = Store.root
  script : k.frame c.fresh.1.frame = c.interpreter.frame
  answers : List.Forall₂ (Answer.Matches k) c.alone.1 c.answers
  held : ∀ a ∈ c.alone.1, a.Held c.alone.2

/-- A frame is no counterpart of any that the client has. -/
def Avoids (c : Client) (k : Correspondence Unit) (F : FrameId) : Prop :=
  ∀ G < c.alone.2.store.frames.size, k.frame G ≠ F

variable {c : Client} {m : Machine} {k : Correspondence Unit}

theorem alone_serve (c : Client) (command : Command) (m : Machine) : (c.serve command m).alone =
    (c.alone.1 ++ [(c.fresh.1.serve command c.alone.2).1], (c.fresh.1.serve command c.alone.2).2) :=
  Interpreter.session_concat c.fresh.1 command c.commands c.fresh.2

/-- **A command that the client is given** keeps the counterparts. -/
theorem Mirrored.serve (h : c.Mirrored m k) (command : Command) :
    (c.serve command m).Mirrored (c.interpreter.serve command m).2 k := by
  obtain ⟨hanswer, hmachines⟩ := Interpreter.serve_matches h.renames h.machines h.script rfl command
  obtain ⟨hadvances, hheld⟩ := Interpreter.serve_advances h.sound h.inside command
  have halone := c.alone_serve command m
  refine ⟨h.renames, ?_, ?_, ?_, h.root, h.script, ?_, ?_⟩ <;> rw [halone]
  · exact hmachines
  · exact hadvances.sound
  · exact hadvances.grows.inside _ h.inside
  · exact List.rel_append h.answers (.cons hanswer .nil)
  · refine List.forall_mem_append.2 ⟨fun a ha => (h.held a ha).advance hadvances, ?_⟩
    exact List.forall_mem_singleton.2 hheld

/-- What is new in the shared machine is no frame that was there. -/
theorem Mirrored.avoids_serve (h : c.Mirrored m k) (command : Command) {F : FrameId} (hF : F < m.store.frames.size)
    (havoids : c.Avoids k F) : (c.serve command m).Avoids k F := by
  intro G _
  by_cases hG : G < c.alone.2.store.frames.size
  · exact havoids G hG
  · obtain ⟨j, rfl⟩ := Nat.exists_eq_add_of_le (Nat.le_of_not_lt hG)
    rw [h.machines.store.size]
    exact (Nat.ne_of_lt (Nat.lt_of_lt_of_le hF (Nat.le_add_right _ _))).symm

/-- **What others do** changes the counterparts of what is still to come, and nothing else. -/
theorem Mirrored.others (h : c.Mirrored m k) (m' : Machine) (hsize : m.store.frames.size ≤ m'.store.frames.size)
    (hmarks : m.nextMark ≤ m'.nextMark)
    (hframes : ∀ F < c.alone.2.store.frames.size, m'.store.frame? (k.frame F) = m.store.frame? (k.frame F)) :
    ∃ k', c.Mirrored m' k' ∧ ∀ F, c.Avoids k F → c.Avoids k' F := by
  obtain ⟨k', hk', hmachines, hextends⟩ :=
    Correspondence.exists_regrown h.renames h.sound h.machines hsize hmarks hframes
  refine ⟨k', ⟨hk', hmachines, h.sound, h.inside, ?_, ?_, ?_, h.held⟩, fun F hF G hG => ?_⟩
  · rw [hextends.frame _ (Store.lt_of_frame? h.sound.root), h.root]
  · rw [hextends.frame _ h.inside.rooted.lt, h.script]
  · refine ((List.forall₂_and_left _ _).2 ⟨h.held, h.answers⟩).imp fun a b hab => ?_
    exact Correspondence.answer_extends h.renames hk' hextends hab.1 hab.2
  · rw [hextends.frame G hG]
    exact hF G hG

/-- **A client that was just created**, and which frames its own two frames stand for. -/
theorem exists_mirrored (hm : m.Sound) (limit : Nat) : ∃ k,
    (⟨(Interpreter.create limit m).1, [], []⟩ : Client).Mirrored (Interpreter.create limit m).2 k ∧
      ∀ F, F ≠ Store.root → F ≠ m.store.frames.size →
        (⟨(Interpreter.create limit m).1, [], []⟩ : Client).Avoids k F := by
  have hroot : ∀ F < Machine.initial.store.frames.size, m.store.frame? F = Machine.initial.store.frame? F := by
    intro F hF
    obtain rfl : F = Store.root := Nat.lt_one_iff.1 hF
    rw [hm.root]
    rfl
  have hinitial : (Correspondence.renewed .initial m).Machines .initial m :=
    Machine.sound_initial.renewed (Store.lt_of_frame? hm.root) hroot (Nat.zero_le _)
  have hcreated := Machine.sound_initial.create limit
  have hrenames : (Correspondence.renewed .initial m).Renames :=
    ⟨rfl, shifted_injective Machine.initial.nextMark (m.nextMark - Machine.initial.nextMark)⟩
  have hsame : (Correspondence.renewed .initial m).frame Store.root = Store.root :=
    Correspondence.renewed_frame Nat.zero_lt_one
  have hnew : (Correspondence.renewed .initial m).frame 1 = m.store.frames.size := hinitial.store.size 0
  have hmachines : (Correspondence.renewed .initial m).Machines (Interpreter.create limit .initial).2
      (Interpreter.create limit m).2 := by
    have hchild : (Correspondence.renewed .initial m).Machines (Machine.initial.child Store.root [])
        (m.child ((Correspondence.renewed .initial m).frame Store.root) []) := hinitial.child .nil Store.root
    rwa [hsame] at hchild
  refine ⟨.renewed .initial m, ?_, ?_⟩
  · exact { renames := hrenames
            machines := hmachines
            sound := hcreated.1
            inside := hcreated.2.2
            root := hsame
            script := hnew
            answers := .nil
            held := List.forall_mem_nil _ }
  · intro F hF hF' G hG
    have hcases : G = Store.root ∨ G = 1 := Nat.le_one_iff_eq_zero_or_eq_one.1 (Nat.lt_succ_iff.1 hG)
    rcases hcases with rfl | rfl
    · rw [hsame]
      exact hF.symm
    · rw [hnew]
      exact hF'.symm

end Client

namespace Served

variable {cs : List Client} {m : Machine}

/-- The script frames of clients. -/
def scripts (cs : List Client) : List FrameId := cs.map fun c => c.interpreter.frame

/-- **Clients are mirrored alone**, and each of them avoids the script frames of the others. -/
structure Mirrors (cs : List Client) (m : Machine) : Prop where
  sound : m.Sound
  inside : ∀ F ∈ scripts cs, m.store.Scoped F
  nodup : (scripts cs).Nodup
  mirrored : ∀ c ∈ cs, ∃ k, c.Mirrored m k ∧ ∀ F ∈ scripts cs, F ≠ c.interpreter.frame → c.Avoids k F

theorem Mirrors.create (h : Mirrors cs m) (limit : Nat) :
    Mirrors (⟨(Interpreter.create limit m).1, [], []⟩ :: cs) (Interpreter.create limit m).2 := by
  obtain ⟨hsound, hgrows, hnew⟩ := h.sound.create limit
  have hfresh : ∀ F ∈ scripts cs, F ≠ m.store.frames.size := fun F hF => Nat.ne_of_lt (h.inside F hF).rooted.lt
  refine ⟨hsound, ?_, ?_, List.forall_mem_cons.2 ⟨?_, fun c hc => ?_⟩⟩
  · exact List.forall_mem_cons.2 ⟨hnew, fun F hF => hgrows.inside F (h.inside F hF)⟩
  · exact List.nodup_cons.2 ⟨fun hmem => hfresh _ hmem rfl, h.nodup⟩
  · obtain ⟨k, hk, havoids⟩ := Client.exists_mirrored h.sound limit
    refine ⟨k, hk, List.forall_mem_cons.2 ⟨fun hne => absurd rfl hne, fun F hF _ => ?_⟩⟩
    exact havoids F (h.inside F hF).ne_root (hfresh F hF)
  · obtain ⟨k, hk, havoids⟩ := h.mirrored c hc
    have hlt : ∀ F < c.alone.2.store.frames.size, k.frame F < m.store.frames.size := fun F hF =>
      lt_of_injective k.injective hk.machines.store.size hF
    obtain ⟨k', hk', hkeeps⟩ := hk.others (Interpreter.create limit m).2
      (Nat.le_of_lt (Nat.lt_of_lt_of_eq (Nat.lt_succ_self _) Store.size_child.symm)) (Nat.le_refl _)
      fun F hF => Store.frame?_child (hlt F hF)
    refine ⟨k', hk', List.forall_mem_cons.2 ⟨fun _ => hkeeps _ fun F hF => Nat.ne_of_lt (hlt F hF), fun F hF hne => ?_⟩⟩
    exact hkeeps F (havoids F hF hne)

theorem Mirrors.serve {before after : List Client} {c : Client} (h : Mirrors (before ++ c :: after) m)
    (command : Command) : Mirrors (before ++ c.serve command m :: after) (c.interpreter.serve command m).2 := by
  have hscripts : scripts (before ++ c.serve command m :: after) = scripts (before ++ c :: after) := by
    simp only [scripts, List.map_append, List.map_cons, Client.serve]
  have hc : c ∈ before ++ c :: after := List.mem_append_right _ List.mem_cons_self
  have hinside := h.inside _ (List.mem_map_of_mem hc)
  obtain ⟨hadvances, -⟩ := Interpreter.serve_advances h.sound hinside command
  refine ⟨hadvances.sound, ?_, ?_, fun d hd => ?_⟩
  · rw [hscripts]
    exact fun F hF => hadvances.grows.inside F (h.inside F hF)
  · rw [hscripts]
    exact h.nodup
  · rw [hscripts]
    have hcases : d = c.serve command m ∨ d ∈ before ++ after := by
      rw [List.mem_append, List.mem_cons] at hd
      rw [List.mem_append]
      tauto
    rcases hcases with rfl | hd
    · obtain ⟨k, hk, havoids⟩ := h.mirrored c hc
      exact ⟨k, hk.serve command, fun F hF hne => hk.avoids_serve command (h.inside F hF).rooted.lt (havoids F hF hne)⟩
    · have hne : c.interpreter.frame ≠ d.interpreter.frame := by
        have hnodup := h.nodup
        unfold scripts at hnodup
        rw [List.map_append, List.map_cons, List.nodup_middle, ← List.map_append, List.nodup_cons] at hnodup
        exact fun he => hnodup.1 (he ▸ List.mem_map_of_mem hd)
      have hd' : d ∈ before ++ c :: after := by
        rw [List.mem_append] at hd
        rw [List.mem_append, List.mem_cons]
        tauto
      obtain ⟨k, hk, havoids⟩ := h.mirrored d hd'
      have hscript := havoids _ (List.mem_map_of_mem hc) hne
      obtain ⟨k', hk', hkeeps⟩ := hk.others _ hadvances.size_le hadvances.grows.nextMark fun F hF =>
        hadvances.frame?_eq _ (lt_of_injective k.injective hk.machines.store.size hF) (hscript F hF)
      exact ⟨k', hk', fun F hF hne => hkeeps F (havoids F hF hne)⟩

theorem mirrors (h : Served cs m) : Mirrors cs m := by
  induction h with
  | initial => exact ⟨Machine.sound_initial, nofun, List.nodup_nil, nofun⟩
  | create limit _ ih => exact ih.create limit
  | serve command _ ih => exact ih.serve command

end Served

/-- **Interpreters that share the root do not interfere.**  However many are created and given commands, in whatever
order, and whatever fails or gives the names of built-ins another meaning: each of them answers as an interpreter that
is alone from the start answers the same commands.  All its answers are the same up to one renaming of frames and
marks that keeps different ones different, the root where it is and the script frame the script frame: errors and what
is printed are equal, and values and the script frame after each command are equal but for the numbers. -/
theorem served_apart {cs : List Client} {m : Machine} (h : Served cs m) : ∀ c ∈ cs, ∃ k : Correspondence Unit,
    k.Renames ∧ k.frame Store.root = Store.root ∧ k.frame c.fresh.1.frame = c.interpreter.frame ∧
      List.Forall₂ (Answer.Matches k) c.alone.1 c.answers := by
  intro c hc
  obtain ⟨k, hk, -⟩ := h.mirrors.mirrored c hc
  exact ⟨k, hk.renames, hk.root, hk.script, hk.answers⟩

/-- An interpreter for which `car` is the empty list leaves another one the `car` that it would have alone. -/
theorem served_apart_car_rebound : ∃ (c d : Client) (m : Machine), Served [d, c] m ∧
    c.commands = [.evaluate [.define "car" {} (.nil {}) {}]] ∧ m.store.lookup c.interpreter.frame "car" = .nil ∧
    d.commands = [.evaluate [.ident "car" {}]] ∧
    ∃ k : Correspondence Unit, k.Renames ∧ List.Forall₂ (Answer.Matches k) d.alone.1 d.answers :=
  have hcreated := (Served.initial.create 10).create 10
  have hrebound := @Served.serve [⟨⟨2, 10⟩, [], []⟩] [] ⟨⟨1, 10⟩, [], []⟩ _
    (.evaluate [.define "car" {} (.nil {}) {}]) hcreated
  have hserved := @Served.serve [] _ ⟨⟨2, 10⟩, [], []⟩ _ (.evaluate [.ident "car" {}]) hrebound
  have ⟨k, hk, _, _, hanswers⟩ := served_apart hserved _ List.mem_cons_self
  ⟨_, _, _, hserved, rfl, rfl, rfl, k, hk, hanswers⟩

end MiniLisp
