import MiniLisp.Proofs.Number.Shown
import MiniLisp.Proofs.Value.Proper
/-!
# Same — equality of values

Values are equal if they are built alike of equal parts (`same_pair_iff`, `same_list_iff`), where maps have the same
keys in any order (`same_map_iff`) and functions have the same identity.  So equality is an equivalence on values
without NaN (`same_equivalence`).  Equal values have equal parts at every path (`Equal.at?`).
-/
namespace MiniLisp

/-! ## Numbers and functions -/

namespace Number

variable {x y z : Float}

theorem beq_self_of_not_isNaN (h : isNaN x = false) : (x == x) = true := by
  rw [Float.beq_self_iff]
  rintro rfl
  exact absurd h (by decide)

theorem beq_symm (h : (x == y) = true) : (y == x) = true := by
  rw [Float.beq_iff_ne_nan_and_eq] at h ⊢
  obtain ⟨hx, hy, rfl | ⟨rfl, rfl⟩ | ⟨rfl, rfl⟩⟩ := h
  · exact ⟨hy, hx, .inl rfl⟩
  · exact ⟨hy, hx, .inr (.inr ⟨rfl, rfl⟩)⟩
  · exact ⟨hy, hx, .inr (.inl ⟨rfl, rfl⟩)⟩

theorem beq_trans (h : (x == y) = true) (h' : (y == z) = true) : (x == z) = true := by
  rw [Float.beq_iff_ne_nan_and_eq] at h h' ⊢
  have hzero : (0 : Float) ≠ -0 := by decide
  obtain ⟨hx, -, h⟩ := h
  obtain ⟨-, hz, h'⟩ := h'
  refine ⟨hx, hz, ?_⟩
  grind

end Number

/-- What tells functions apart. -/
inductive Function.Identity where
  | builtin (b : Builtin)
  | operator (mark : Nat)
  | closure (mark : Nat)

namespace Function

def identity : Function → Identity
  | .builtin b => .builtin b
  | .operator _ mark => .operator mark
  | .closure c => .closure c.mark

/-- **Functions are compared by identity.** -/
theorem same_iff {f g : Function} : f.same g = true ↔ f.identity = g.identity := by
  cases f <;> cases g <;> simp [same, identity]

end Function

namespace Value

variable {N N' : Float → Prop} {K K' : Function → Prop} {v w u a b c d : Value} {vs ws : List Value}
  {es fs : Entries Value}

/-! ## Parts -/

theorem kind_eq_of_same (h : v.same w = true) : v.kind = w.kind := by
  cases v <;> cases w <;> first | rfl | cases h

theorem same_pair_iff : (pair a b).same (pair c d) = true ↔ a.same c = true ∧ b.same d = true := by
  rw [same, Bool.and_eq_true]

theorem sameAll_iff : ∀ {vs ws : List Value}, sameAll vs ws = true ↔
    vs.length = ws.length ∧ ∀ (i : Nat) v w, vs[i]? = some v → ws[i]? = some w → v.same w = true
  | [], [] => by simp [sameAll]
  | [], _ :: _ => by simp [sameAll]
  | _ :: _, [] => by simp [sameAll]
  | a :: vs, b :: ws => by
    rw [sameAll, Bool.and_eq_true, sameAll_iff, List.length_cons, List.length_cons, Nat.add_right_cancel_iff]
    refine ⟨fun ⟨hab, hlength, h⟩ => ⟨hlength, fun i v w hv hw => ?_⟩, fun ⟨hlength, h⟩ => ⟨?_, hlength, ?_⟩⟩
    · cases i with
      | zero => exact Option.some.inj hv ▸ Option.some.inj hw ▸ hab
      | succ i => exact h i v w hv hw
    · exact h 0 a b rfl rfl
    · exact fun i => h (i + 1)

/-- **Lists are equal if they are as long, and equal in each place.** -/
theorem same_list_iff : (list vs).same (list ws) = true ↔
    vs.length = ws.length ∧ ∀ (i : Nat) v w, vs[i]? = some v → ws[i]? = some w → v.same w = true := by
  rw [same, sameAll_iff]

theorem sameEntries_iff : ∀ {es : List (String × Value)},
    sameEntries es fs = true ↔ ∀ e ∈ es, ∃ w, fs.get? e.1 = some w ∧ e.2.same w = true
  | [] => by simp [sameEntries]
  | (key, v) :: es => by
    rw [sameEntries, Bool.and_eq_true, sameEntries_iff, List.forall_mem_cons]
    refine and_congr_left fun _ => ?_
    cases fs.get? key <;> simp

/-- Distinct keys are all found in another map just if they are its keys, and there are as many of each. -/
theorem keys_iff_of_subset (hes : es.keys.Nodup) (hfs : fs.keys.Nodup) :
    (es.length = fs.length ∧ ∀ key ∈ es.keys, key ∈ fs.keys) ↔ ∀ key, key ∈ es.keys ↔ key ∈ fs.keys := by
  have hlengths : es.keys.length = es.length ∧ fs.keys.length = fs.length := ⟨List.length_map _, List.length_map _⟩
  constructor
  · rintro ⟨hlength, hsub⟩ key
    have hperm : es.keys.Perm fs.keys := (List.subperm_of_subset hes hsub).perm_of_length_le (by omega)
    exact hperm.mem_iff
  · intro h
    have hperm : es.keys.Perm fs.keys := (List.perm_ext_iff_of_nodup hes hfs).2 h
    exact ⟨by have := hperm.length_eq; omega, fun key => (h key).1⟩

/-- **Maps are equal if they have the same keys, and equal values under each.** -/
theorem same_map_iff (hes : es.keys.Nodup) (hfs : fs.keys.Nodup) : (map es).same (map fs) = true ↔
    (∀ key, key ∈ es.keys ↔ key ∈ fs.keys) ∧
    ∀ key v w, es.get? key = some v → fs.get? key = some w → v.same w = true := by
  rw [same, Bool.and_eq_true, beq_iff_eq, sameEntries_iff, ← keys_iff_of_subset hes hfs, and_assoc]
  refine and_congr_right fun _ => ⟨fun h => ⟨fun key hkey => ?_, fun key v w hv hw => ?_⟩, fun ⟨hsub, h⟩ e he => ?_⟩
  · obtain ⟨e, he, rfl⟩ := List.mem_map.1 hkey
    obtain ⟨w, hw, -⟩ := h e he
    exact Entries.mem_keys_iff.2 ⟨w, hw⟩
  · obtain ⟨w', hw', hsame⟩ := h (key, v) (Entries.mem_of_get? hv)
    rw [hw] at hw'
    exact Option.some.inj hw' ▸ hsame
  · obtain ⟨w, hw⟩ := Entries.mem_keys_iff.1 (hsub e.1 (List.mem_map.2 ⟨e, he, rfl⟩))
    exact ⟨w, hw, h e.1 e.2 w (Entries.get?_of_mem hes he) hw⟩

/-- The order of entries plays no part. -/
theorem same_map_perm {es' fs' : Entries Value} (hes : es.keys.Nodup) (hfs : fs.keys.Nodup) (h : es.Perm es')
    (h' : fs.Perm fs') : (map es').same (map fs') = (map es).same (map fs) := by
  have hkeys : es.keys.Perm es'.keys := h.map Prod.fst
  have hkeys' : fs.keys.Perm fs'.keys := h'.map Prod.fst
  rw [Bool.eq_iff_iff, same_map_iff (hkeys.nodup_iff.1 hes) (hkeys'.nodup_iff.1 hfs), same_map_iff hes hfs]
  simp only [Entries.get?_perm hes h, Entries.get?_perm hfs h', hkeys.mem_iff, hkeys'.mem_iff]

/-! ## Equality as a relation -/

/-- **Values that are built alike.**  Numbers are the same or both zero, and not NaN; functions have one identity; and
the parts of pairs, of lists and of maps are built alike, wherever the entries of maps stand. -/
inductive Equal : Value → Value → Prop
  | number {x y : Float} : (x == y) = true → Equal (.number x) (.number y)
  | string (text : String) : Equal (.string text) (.string text)
  | bool (b : Bool) : Equal (.bool b) (.bool b)
  | nil : Equal .nil .nil
  | pair {a b c d : Value} : Equal a c → Equal b d → Equal (.pair a b) (.pair c d)
  | list {vs ws : List Value} : vs.length = ws.length →
      (∀ (i : Nat) v w, vs[i]? = some v → ws[i]? = some w → Equal v w) → Equal (.list vs) (.list ws)
  | map {es fs : Entries Value} : (∀ key, key ∈ es.keys ↔ key ∈ fs.keys) →
      (∀ key v w, es.get? key = some v → fs.get? key = some w → Equal v w) → Equal (.map es) (.map fs)
  | function {f g : Function} : f.identity = g.identity → Equal (.function f) (.function g)

/-- **Equality is being built alike**, of values whose maps have distinct keys. -/
theorem same_iff_equal (hv : v.Proper N K) (hw : w.Proper N' K') : v.same w = true ↔ v.Equal w := by
  induction hv generalizing w with
  | number _ =>
    cases hw with
    | number _ => exact ⟨.number, fun | .number h => h⟩
    | _ => exact ⟨nofun, nofun⟩
  | string _ =>
    cases hw with
    | string _ => exact ⟨fun h => beq_iff_eq.1 h ▸ .string _, fun | .string text => beq_self_eq_true text⟩
    | _ => exact ⟨nofun, nofun⟩
  | bool _ =>
    cases hw with
    | bool _ => exact ⟨fun h => beq_iff_eq.1 h ▸ .bool _, fun | .bool b => beq_self_eq_true b⟩
    | _ => exact ⟨nofun, nofun⟩
  | nil =>
    cases hw with
    | nil => exact ⟨fun _ => .nil, fun _ => rfl⟩
    | _ => exact ⟨nofun, nofun⟩
  | pair _ _ ih ih' =>
    cases hw with
    | pair hleft hright =>
      rw [same_pair_iff, ih hleft, ih' hright]
      exact ⟨fun ⟨h, h'⟩ => .pair h h', fun | .pair h h' => ⟨h, h'⟩⟩
    | _ => exact ⟨nofun, nofun⟩
  | @list vs _ ih =>
    cases hw with
    | @list ws hitems =>
      have hparts : ∀ (i : Nat) v w, vs[i]? = some v → ws[i]? = some w → (v.same w = true ↔ v.Equal w) :=
        fun i v w hv hw => ih v (List.mem_of_getElem? hv) (hitems w (List.mem_of_getElem? hw))
      rw [same_list_iff]
      refine ⟨fun ⟨hlength, h⟩ => .list hlength fun i v w hv hw => ?_, fun | .list hlength h => ⟨hlength, ?_⟩⟩
      · exact (hparts i v w hv hw).1 (h i v w hv hw)
      · exact fun i v w hv hw => (hparts i v w hv hw).2 (h i v w hv hw)
    | _ => exact ⟨nofun, nofun⟩
  | @map es hes _ ih =>
    cases hw with
    | @map fs hfs hvalues =>
      have hparts : ∀ key v w, es.get? key = some v → fs.get? key = some w → (v.same w = true ↔ v.Equal w) :=
        fun key v w hv hw => ih v (Entries.mem_values_of_get? hv) (hvalues w (Entries.mem_values_of_get? hw))
      rw [same_map_iff hes hfs]
      refine ⟨fun ⟨hkeys, h⟩ => .map hkeys fun key v w hv hw => ?_, fun | .map hkeys h => ⟨hkeys, ?_⟩⟩
      · exact (hparts key v w hv hw).1 (h key v w hv hw)
      · exact fun key v w hv hw => (hparts key v w hv hw).2 (h key v w hv hw)
    | _ => exact ⟨nofun, nofun⟩
  | function _ =>
    cases hw with
    | function _ => exact ⟨fun h => .function (Function.same_iff.1 h), fun | .function h => Function.same_iff.2 h⟩
    | _ => exact ⟨nofun, nofun⟩

/-- A value without NaN, whose maps have distinct keys. -/
abbrev WithoutNaN : Value → Prop := Proper (fun x => Number.isNaN x = false) fun _ => True

theorem WithoutNaN.equal_self (h : v.WithoutNaN) : v.Equal v := by
  induction h with
  | number hx => exact .number (Number.beq_self_of_not_isNaN hx)
  | string text => exact .string text
  | bool b => exact .bool b
  | nil => exact .nil
  | pair _ _ ih ih' => exact .pair ih ih'
  | list _ ih =>
    refine .list rfl fun i v w hv hw => ?_
    rw [hv] at hw
    exact Option.some.inj hw ▸ ih v (List.mem_of_getElem? hv)
  | map _ _ ih =>
    refine .map (fun _ => .rfl) fun key v w hv hw => ?_
    rw [hv] at hw
    exact Option.some.inj hw ▸ ih v (Entries.mem_values_of_get? hv)
  | function _ => exact .function rfl

theorem Equal.symm (h : v.Equal w) : w.Equal v := by
  induction h with
  | number h => exact .number (Number.beq_symm h)
  | string text => exact .string text
  | bool b => exact .bool b
  | nil => exact .nil
  | pair _ _ ih ih' => exact .pair ih ih'
  | list hlength _ ih => exact .list hlength.symm fun i v w hv hw => ih i w v hw hv
  | map hkeys _ ih => exact .map (fun key => (hkeys key).symm) fun key v w hv hw => ih key w v hw hv
  | function h => exact .function h.symm

theorem Equal.trans (h : v.Equal w) (h' : w.Equal u) : v.Equal u := by
  induction h generalizing u with
  | number h =>
    cases h' with
    | number h' => exact .number (Number.beq_trans h h')
  | string text => exact h'
  | bool b => exact h'
  | nil => exact h'
  | pair _ _ ih ih' =>
    cases h' with
    | pair h h' => exact .pair (ih h) (ih' h')
  | @list vs ws hlength _ ih =>
    cases h' with
    | list hlength' h' =>
      refine .list (hlength.trans hlength') fun i v u hv hu => ?_
      have hi : i < ws.length := hlength ▸ (List.getElem?_eq_some_iff.1 hv).1
      exact ih i v ws[i] hv (List.getElem?_eq_getElem hi) (h' i ws[i] u (List.getElem?_eq_getElem hi) hu)
  | map hkeys _ ih =>
    cases h' with
    | map hkeys' h' =>
      refine .map (fun key => (hkeys key).trans (hkeys' key)) fun key v u hv hu => ?_
      obtain ⟨w, hw⟩ := Entries.mem_keys_iff.1 ((hkeys key).1 (Entries.mem_keys_iff.2 ⟨v, hv⟩))
      exact ih key v w hv hw (h' key w u hw hu)
  | function h =>
    cases h' with
    | function h' => exact .function (h.trans h')

/-- **On values without NaN equality is an equivalence.** -/
theorem same_equivalence : Equivalence fun v w : {v : Value // v.WithoutNaN} => v.val.same w.val = true where
  refl v := (same_iff_equal v.2 v.2).2 v.2.equal_self
  symm {v w} hvw := (same_iff_equal w.2 v.2).2 ((same_iff_equal v.2 w.2).1 hvw).symm
  trans {v w u} hvw hwu :=
    (same_iff_equal v.2 u.2).2 (((same_iff_equal v.2 w.2).1 hvw).trans ((same_iff_equal w.2 u.2).1 hwu))

/-! ## Parts at every depth -/

/-- Where one of two equal values has a part, so has the other. -/
theorem Equal.part? (h : v.Equal w) (step : Step) : Option.Rel Equal (v.part? step) (w.part? step) := by
  cases h with
  | pair h h' =>
    cases step with
    | left => exact .some h
    | right => exact .some h'
    | _ => exact .none
  | @list vs ws hlength h =>
    cases step with
    | item i =>
      show Option.Rel Equal vs[i]? ws[i]?
      by_cases hi : i < vs.length
      · have hi' : i < ws.length := hlength ▸ hi
        have hget := h i vs[i] ws[i] (List.getElem?_eq_getElem hi) (List.getElem?_eq_getElem hi')
        rw [List.getElem?_eq_getElem hi, List.getElem?_eq_getElem hi']
        exact .some hget
      · have hle : vs.length ≤ i := Nat.le_of_not_lt hi
        rw [List.getElem?_eq_none hle, List.getElem?_eq_none (hlength ▸ hle)]
        exact .none
    | _ => exact .none
  | @map es fs hkeys h =>
    cases step with
    | key key =>
      show Option.Rel Equal (es.get? key) (fs.get? key)
      by_cases hkey : key ∈ es.keys
      · obtain ⟨v, hv⟩ := Entries.mem_keys_iff.1 hkey
        obtain ⟨w, hw⟩ := Entries.mem_keys_iff.1 ((hkeys key).1 hkey)
        rw [hv, hw]
        exact .some (h key v w hv hw)
      · rw [Entries.get?_of_not_mem hkey, Entries.get?_of_not_mem fun hmem => hkey ((hkeys key).2 hmem)]
        exact .none
    | _ => exact .none
  | _ => exact .none

/-- **Equal values have equal parts, at every depth.** -/
theorem Equal.at? : ∀ {path : List Step} {v w : Value}, v.Equal w → Option.Rel Equal (v.at? path) (w.at? path)
  | [], _, _, h => .some h
  | step :: path, v, w, h => by
    have hpart := h.part? step
    rw [at?_cons, at?_cons]
    generalize v.part? step = v? at hpart ⊢
    generalize w.part? step = w? at hpart ⊢
    cases hpart with
    | none => exact .none
    | some h => exact h.at?

end Value

end MiniLisp
