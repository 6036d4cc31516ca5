import MiniLisp.Proofs.Eval.Identity
import MiniLisp.Proofs.Interpreter.Reached
/-!
# Equality — equality of the values that there are

In every state that interpreters reach, functions are told apart by their identity, and all maps have distinct keys
(`Reached.exists_tells`).  So equality is what it should be: an equivalence on values without NaN, which looks at how
values are built, and at nothing of a function but whether it is the same one (`Value.same_structural`).
-/
namespace MiniLisp

namespace Machine

/-- **A value that a state holds**: it is bound in a frame, or was answered. -/
def Has (m : Machine) (vs : List Value) (v : Value) : Prop := v ∈ vs ∨ ∃ F, v ∈ (m.store.bindings F).values

/-- **A function that a state holds**, anywhere in its values. -/
def HasFunction (m : Machine) (vs : List Value) (f : Function) : Prop :=
  ∃ v path, m.Has vs v ∧ v.at? path = some (.function f)

/-! ## States that are reached -/

variable {m : Machine} {K : Function → Prop}

/-- **Evaluating an expression keeps functions apart.** -/
theorem Tells.evalExpr (h : m.Tells K) (i : Interpreter) (e : Expr) : ∃ K', (∀ f, K f → K' f) ∧
    match i.evalExpr e m with
    | .ok v m' => m'.Tells K' ∧ v.Among K'
    | .error _ m' => m'.Tells K' := by
  obtain ⟨K', hK, hend⟩ := Activation.apart_run (Interpreter.maxDepth i.limit) K (.expr i.frame e) trivial m h
  refine ⟨K', hK, ?_⟩
  rw [Activation.run] at hend
  unfold Interpreter.evalExpr
  generalize eval (Interpreter.maxDepth i.limit) i.frame e m = r at hend
  cases r with
  | ok v m' => exact hend
  | error halt m' => cases halt <;> exact hend

end Machine

namespace Reached

variable {is : List Interpreter} {vs : List Value} {m : Machine} {f g : Function} {v w : Value}

/-- **In every state that is reached functions are told apart.** -/
theorem exists_tells (h : Reached is vs m) : ∃ K, m.Tells K ∧ ∀ v ∈ vs, v.Among K := by
  induction h with
  | initial => exact ⟨_, Machine.tells_initial, nofun⟩
  | create limit _ ih =>
    obtain ⟨K, hm, hvs⟩ := ih
    exact ⟨K, hm.child nofun, hvs⟩
  | @ok is vs m m' i e v _ _ heval ih =>
    obtain ⟨K, hm, hvs⟩ := ih
    obtain ⟨K', hK, hend⟩ := hm.evalExpr i e
    rw [heval] at hend
    exact ⟨K', hend.1, List.forall_mem_cons.2 ⟨hend.2, fun w hw => (hvs w hw).mono hK⟩⟩
  | @error is vs m m' i e error _ _ heval ih =>
    obtain ⟨K, hm, hvs⟩ := ih
    obtain ⟨K', hK, hend⟩ := hm.evalExpr i e
    rw [heval] at hend
    exact ⟨K', hend, fun w hw => (hvs w hw).mono hK⟩

theorem exists_tells_has (h : Reached is vs m) : ∃ K, m.Tells K ∧ ∀ v, m.Has vs v → v.Among K := by
  obtain ⟨K, hm, hvs⟩ := h.exists_tells
  exact ⟨K, hm, fun v hv => hv.elim (hvs v) fun ⟨F, hF⟩ => hm.bound F v hF⟩

/-- The values that a state holds have distinct keys, and functions that it holds. -/
theorem among (h : Reached is vs m) (hv : m.Has vs v) : v.Among (m.HasFunction vs) := by
  obtain ⟨K, -, hK⟩ := h.exists_tells_has
  exact (hK v hv).of_functions fun path f hf => ⟨v, path, hv, hf⟩

/-- **No two functions that a state holds have one identity.** -/
theorem eq_of_identity (h : Reached is vs m) (hf : m.HasFunction vs f) (hg : m.HasFunction vs g)
    (heq : f.identity = g.identity) : f = g := by
  obtain ⟨K, hm, hK⟩ := h.exists_tells_has
  have hknown : ∀ f, m.HasFunction vs f → K f := by
    rintro f ⟨v, path, hv, hat⟩
    cases (hK v hv).of_at? hat with
    | function hf => exact hf
  exact hm.apart f g (hknown f hf) (hknown g hg) heq

theorem same_function_iff (h : Reached is vs m) (hf : m.HasFunction vs f) (hg : m.HasFunction vs g) :
    (Value.function f).same (.function g) = true ↔ f = g :=
  Function.same_iff.trans ⟨h.eq_of_identity hf hg, congrArg Function.identity⟩

/-- Where one of two equal values has a function, the other has it too. -/
theorem at?_of_equal (h : Reached is vs m) (hv : v.Among (m.HasFunction vs)) (hw : w.Among (m.HasFunction vs))
    (hvw : v.Equal w) {path : List Value.Step} (hf : v.at? path = some (.function f)) :
    w.at? path = some (.function f) := by
  have hparts : Option.Rel Value.Equal (v.at? path) (w.at? path) := hvw.at?
  rw [hf] at hparts
  generalize hg : w.at? path = w? at hparts ⊢
  cases hparts with
  | some hfg =>
    cases hfg with
    | function heq =>
      cases hv.of_at? hf with
      | function hkept =>
        cases hw.of_at? hg with
        | function hkept' => rw [h.eq_of_identity hkept hkept' heq]

end Reached

/-! ## Equality -/

namespace Value

/-- **Equality is a structural equivalence.**  On values without NaN it is reflexive, symmetric and transitive.  Values
of different kinds are never equal; numbers are compared as numbers, strings and booleans for what they are; pairs are
equal if their slots are; lists if they are as long and equal in each place; and maps, with distinct keys, if they have
the same keys and equal values under each, in whatever order.
Whatever state interpreters reach, the maps in all that is bound or was answered have distinct keys, and a function in
there is equal to no other; and of values that are built of such functions, equal ones have at every path the same
function, or both have none. -/
theorem same_structural :
    (Equivalence fun v w : {v : Value // v.WithoutNaN} => v.val.same w.val = true) ∧
    (∀ v w : Value, v.kind ≠ w.kind → v.same w = false) ∧
    ((∀ x y, (number x).same (number y) = (x == y)) ∧ (∀ a b, (string a).same (string b) = true ↔ a = b) ∧
      ∀ a b, (bool a).same (bool b) = true ↔ a = b) ∧
    (∀ a b c d : Value, (pair a b).same (pair c d) = true ↔ a.same c = true ∧ b.same d = true) ∧
    (∀ vs ws : List Value, (list vs).same (list ws) = true ↔
      vs.length = ws.length ∧ ∀ (i : Nat) v w, vs[i]? = some v → ws[i]? = some w → v.same w = true) ∧
    (∀ es fs : Entries Value, es.keys.Nodup → fs.keys.Nodup →
      ((map es).same (map fs) = true ↔ (∀ key, key ∈ es.keys ↔ key ∈ fs.keys) ∧
        ∀ key v w, es.get? key = some v → fs.get? key = some w → v.same w = true) ∧
      ∀ es' fs' : Entries Value, es.Perm es' → fs.Perm fs' → (map es').same (map fs') = (map es).same (map fs)) ∧
    ∀ (is : List Interpreter) (vs : List Value) (m : Machine), Reached is vs m →
      (∀ v, m.Has vs v → v.Among (m.HasFunction vs)) ∧
      (∀ f g, m.HasFunction vs f → m.HasFunction vs g → ((function f).same (function g) = true ↔ f = g)) ∧
      ∀ v w : Value, v.Among (m.HasFunction vs) → w.Among (m.HasFunction vs) → v.same w = true →
        ∀ path f, v.at? path = some (.function f) ↔ w.at? path = some (.function f) := by
  refine ⟨same_equivalence, fun v w hkind => Bool.eq_false_iff.2 fun hsame => hkind (kind_eq_of_same hsame),
    ⟨fun x y => rfl, fun a b => beq_iff_eq, fun a b => beq_iff_eq⟩, fun a b c d => same_pair_iff,
    fun vs ws => same_list_iff, fun es fs hes hfs => ⟨same_map_iff hes hfs, fun es' fs' => same_map_perm hes hfs⟩,
    fun is vs m h => ⟨fun v => h.among, fun f g => h.same_function_iff, ?_⟩⟩
  intro v w hv hw hsame path f
  have hvw : v.Equal w := (same_iff_equal hv hw).1 hsame
  exact ⟨h.at?_of_equal hv hw hvw, h.at?_of_equal hw hv hvw.symm⟩

/-- Of two functions that one expression evaluates to, a list in a map holds the first: the order of the entries makes
no difference, but the other function does. -/
theorem same_structural_twice : ∃ (f g : Function) (m : Machine), Reached [⟨1, 10⟩] [function g, function f] m ∧
    (map [("a", list [function f]), ("b", nil)]).same (map [("b", nil), ("a", list [function f])]) = true ∧
    (map [("a", list [function f]), ("b", nil)]).same (map [("b", nil), ("a", list [function g])]) = false := by
  have hfirst := (Reached.initial.create 10).ok (e := .fn [] [] {}) List.mem_cons_self rfl
  have hboth := hfirst.ok (e := .fn [] [] {}) List.mem_cons_self rfl
  have hkeys : ["a", "b"].Nodup ∧ ["b", "a"].Nodup := by decide
  have hlist : ∀ {N K f}, K f → (list [function f]).Proper N K := fun hf =>
    .list (List.forall_mem_singleton.2 (.function hf))
  have hmap : ∀ {N K f}, K f → (map [("a", list [function f]), ("b", nil)]).Proper N K := fun hf =>
    .map hkeys.1 (List.forall_mem_cons.2 ⟨hlist hf, List.forall_mem_singleton.2 .nil⟩)
  have hmap' : ∀ {N K f}, K f → (map [("b", nil), ("a", list [function f])]).Proper N K := fun hf =>
    .map hkeys.2 (List.forall_mem_cons.2 ⟨.nil, List.forall_mem_singleton.2 (hlist hf)⟩)
  obtain ⟨hequivalence, -, -, -, -, hmaps, hfunctions⟩ := same_structural
  obtain ⟨-, -, hplaces⟩ := hfunctions _ _ _ hboth
  refine ⟨_, _, _, hboth, ?_, Bool.eq_false_iff.2 fun hsame => ?_⟩
  · rw [(hmaps [("a", _), ("b", _)] [("a", _), ("b", _)] hkeys.1 hkeys.1).2 _ _ (.refl _) (.swap _ _ [])]
    exact hequivalence.refl ⟨_, hmap trivial⟩
  · have hsecond := (hplaces _ _ (hmap ⟨_, [], .inl (List.mem_cons_of_mem _ List.mem_cons_self), rfl⟩)
      (hmap' ⟨_, [], .inl List.mem_cons_self, rfl⟩) hsame [.key "a", .item 0] _).1 rfl
    cases hsecond

end Value

end MiniLisp
