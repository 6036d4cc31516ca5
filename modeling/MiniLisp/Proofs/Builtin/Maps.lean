import MiniLisp.Proofs.Builtin.Pass
import MiniLisp.Proofs.Number.Whole
import MiniLisp.Proofs.Value.Pairs
/-!
# Maps — what is built by `map` and read by the other built-ins

`map` takes keys and values in turn, and refuses what is not that at the first fault (`MapFault`).  Every map that it
makes, and every map that is made of such a map by `mapMap` and `mapFilter` (`MadeMap`), has distinct keys; so all that
reads a map sees the same entries in the same order (`Builtin.apply_maps`).
-/
namespace MiniLisp

namespace Builtin

variable {args : List Value} {depth : Nat} {caller : FrameId} {m : Machine}

/-! ## Keys and values in turn -/

/-- Keys and values in turn, as `map` takes them. -/
def alternating (pairs : List (String × Value)) : List Value := pairs.flatMap ofEntry

theorem alternating_cons (key : String) (v : Value) (pairs : List (String × Value)) :
    alternating ((key, v) :: pairs) = .string key :: v :: alternating pairs := rfl

theorem length_alternating : ∀ pairs : List (String × Value), (alternating pairs).length = 2 * pairs.length
  | [] => rfl
  | (key, v) :: pairs => by
    rw [alternating_cons, List.length_cons, List.length_cons, length_alternating pairs, List.length_cons]
    omega

/-- **What is wrong with the arguments of `map`.**  Their number is odd, which is reported at the last one; or else some
key is no string, which is reported at the first such key. -/
inductive MapFault (args : List Value) : Nat → ArgumentProblem → Prop
  | oddCount : args.length % 2 = 1 → MapFault args (args.length - 1) (.oddCount args.length)
  | key {i : Nat} {v : Value} : args.length % 2 = 0 → args[2 * i]? = some v → v.kind ≠ .string →
      (∀ j < i, ∃ key, args[2 * j]? = some (.string key)) → MapFault args (2 * i) (.keyNotString v.kind)

/-- Keys and values are inserted one after another. -/
theorem entriesOf_alternating : ∀ (pairs : List (String × Value)) (index : Nat) (es : Entries Value),
    entriesOf index es (alternating pairs) = .ok (pairs.foldl (fun es (key, value) => es.insert key value) es)
  | [], _, _ => rfl
  | (key, v) :: pairs, index, es => by
    rw [alternating_cons, entriesOf, entriesOf_alternating pairs, List.foldl_cons]

theorem entriesOf_of_kind_ne {key : Value} (h : key.kind ≠ .string) (index : Nat) (es : Entries Value) (v : Value)
    (rest : List Value) :
    entriesOf index es (key :: v :: rest) = .error (.argument map.name index (.keyNotString key.kind)) := by
  cases key with
  | string text => exact absurd rfl h
  | _ => rfl

/-- The first key that is no string is reported. -/
theorem entriesOf_key {v : Value} (hv : v.kind ≠ .string) : ∀ (i index : Nat) (es : Entries Value) (args : List Value),
    args.length % 2 = 0 → args[2 * i]? = some v → (∀ j < i, ∃ key, args[2 * j]? = some (.string key)) →
    entriesOf index es args = .error (.argument map.name (index + 2 * i) (.keyNotString v.kind))
  | 0, index, es, key :: w :: rest, _, hkey, _ => by
    obtain rfl : key = v := Option.some.inj hkey
    exact entriesOf_of_kind_ne hv index es w rest
  | i + 1, index, es, key :: w :: rest, heven, hkey, hbefore => by
    obtain ⟨text, htext⟩ := hbefore 0 (Nat.succ_pos i)
    obtain rfl : key = .string text := Option.some.inj htext
    rw [List.length_cons, List.length_cons] at heven
    have hrest := entriesOf_key hv i (index + 2) (es.insert text w) rest (by omega) hkey
      fun j hj => hbefore (j + 1) (Nat.succ_lt_succ hj)
    rw [entriesOf, hrest, Nat.mul_succ, Nat.add_right_comm, Nat.add_assoc]
  | i, _, _, [], _, hkey, _ => by simp at hkey
  | i, _, _, [_], heven, _, _ => by simp at heven

/-- **Arguments are keys and values in turn, or there is a fault.** -/
theorem alternating_or_fault : ∀ args : List Value, args.length % 2 = 0 →
    (∃ pairs, args = alternating pairs) ∨ ∃ index problem, MapFault args index problem
  | [], _ => .inl ⟨[], rfl⟩
  | [_], heven => by simp at heven
  | key :: v :: rest, heven => by
    have hrest : rest.length % 2 = 0 := by
      rw [List.length_cons, List.length_cons] at heven
      omega
    by_cases hkey : key.kind = .string
    · obtain ⟨text, rfl⟩ : ∃ text, key = .string text := by
        cases key <;> first | exact ⟨_, rfl⟩ | cases hkey
      rcases alternating_or_fault rest hrest with ⟨pairs, rfl⟩ | ⟨_, _, hfault⟩
      · exact .inl ⟨(text, v) :: pairs, rfl⟩
      · cases hfault with
        | oddCount hodd => omega
        | @key i w _ hw hkind hbefore =>
          refine .inr ⟨2 * (i + 1), _, .key heven hw hkind fun j hj => ?_⟩
          cases j with
          | zero => exact ⟨text, rfl⟩
          | succ j => exact hbefore j (Nat.lt_of_succ_lt_succ hj)
    · exact .inr ⟨2 * 0, _, .key heven rfl hkey nofun⟩

theorem mapOf_alternating (pairs : List (String × Value)) :
    mapOf (alternating pairs) = .ok (.map (Entries.ofPairs pairs)) := by
  have heven : (alternating pairs).length % 2 = 0 := by
    rw [length_alternating, Nat.mul_mod_right]
  rw [mapOf, if_pos heven, entriesOf_alternating]
  rfl

theorem MapFault.mapOf_eq {index : Nat} {problem : ArgumentProblem} (h : MapFault args index problem) :
    mapOf args = .error (.argument map.name index problem) := by
  cases h with
  | oddCount hodd => rw [mapOf, if_neg (by omega)]
  | @key i v heven hv hkind hbefore =>
    rw [mapOf, if_pos heven, entriesOf_key hkind i 0 [] args heven hv hbefore, Nat.zero_add]
    rfl

/-- **`map` takes keys and values in turn, and nothing else.** -/
theorem mapOf_cases (args : List Value) :
    (∃ pairs, args = alternating pairs ∧ mapOf args = .ok (.map (Entries.ofPairs pairs))) ∨
    ∃ index problem, MapFault args index problem ∧ mapOf args = .error (.argument map.name index problem) := by
  have hcases : (∃ pairs, args = alternating pairs) ∨ ∃ index problem, MapFault args index problem := by
    by_cases heven : args.length % 2 = 0
    · exact alternating_or_fault args heven
    · exact .inr ⟨_, _, .oddCount (by omega)⟩
  rcases hcases with ⟨pairs, rfl⟩ | ⟨index, problem, hfault⟩
  · exact .inl ⟨pairs, rfl, mapOf_alternating pairs⟩
  · exact .inr ⟨index, problem, hfault, hfault.mapOf_eq⟩

/-! ## Applying -/

variable {b : Builtin} {call : Function → List Value → EvalM Value} {v : Value} {m' : Machine}

/-- But for `print`, no built-in does anything that a depth could be too small for. -/
theorem apply_builtin (hb : b ≠ .print) (depth : Nat) (caller : FrameId) (args : List Value) :
    apply (depth + 1) caller (.builtin b) args = b.run (apply depth caller) args := by
  have hfits : b.fits depth args = true := by
    cases b with
    | print => exact absurd rfl hb
    | _ => rfl
  rw [apply, if_pos hfits]

theorem apply_map (depth : Nat) (caller : FrameId) (args : List Value) :
    apply (depth + 1) caller (.builtin .map) args = EvalM.ofExcept (mapOf args) :=
  apply_builtin (b := .map) (by simp) depth caller args

/-- An application that answers had some depth. -/
theorem exists_depth {f : Function} (h : apply depth caller f args m = .ok v m') : ∃ left, depth = left + 1 := by
  cases depth with
  | zero =>
    rw [apply] at h
    cases h
  | succ left => exact ⟨left, rfl⟩

/-- What a higher-order built-in answers is made of the answers of its function. -/
theorem exists_answers (hb : b ∈ higherOrder) (h : b.run call args m = .ok v m') : ∃ f p answers,
    b.pass? args = some (f, p) ∧ v = p.result answers ∧ answers.length = p.elements.length := by
  cases hpass : b.pass? args with
  | none =>
    obtain ⟨index, problem, hfails⟩ := run_of_none hb hpass
    rw [hfails] at h
    cases h
  | some fp =>
    obtain ⟨f, p⟩ := fp
    rw [run_pass hpass] at h
    cases Pass.run_eq_iff.1 h with
    | value happlied => exact ⟨f, p, _, rfl, rfl, happlied.length_eq⟩

theorem kept_sublist {α : Type} : ∀ (items : List α) (answers : List Value), List.Sublist (kept items answers) items
  | [], _ => List.Sublist.refl []
  | _ :: _, [] => List.nil_sublist _
  | item :: items, v :: answers => by
    unfold kept
    split
    · cases ‹item :: items = _›
      exact (kept_sublist _ _).cons_cons _
    · cases ‹item :: items = _›
      exact (kept_sublist _ _).cons _
    · exact List.nil_sublist _

end Builtin

open Builtin (alternating ofEntry MapFault)

/-! ## Maps that are made -/

/-- **What `map` makes**, and what `mapMap` and `mapFilter` make of such a map, one after another. -/
inductive MadeMap : Value → Prop
  | map {depth : Nat} {caller : FrameId} {args : List Value} {m m' : Machine} {v : Value} :
      apply depth caller (.builtin .map) args m = .ok v m' → MadeMap v
  | mapMap {depth : Nat} {caller : FrameId} {f v w : Value} {m m' : Machine} : MadeMap v →
      apply depth caller (.builtin .mapMap) [v, f] m = .ok w m' → MadeMap w
  | mapFilter {depth : Nat} {caller : FrameId} {f v w : Value} {m m' : Machine} : MadeMap v →
      apply depth caller (.builtin .mapFilter) [v, f] m = .ok w m' → MadeMap w

/-- **A map that is made has distinct keys.** -/
theorem MadeMap.exists_entries {v : Value} (h : MadeMap v) : ∃ es : Entries Value, v = .map es ∧ es.keys.Nodup := by
  induction h with
  | map happly =>
    obtain ⟨left, rfl⟩ := Builtin.exists_depth happly
    rw [Builtin.apply_map] at happly
    rcases Builtin.mapOf_cases _ with ⟨pairs, -, hmap⟩ | ⟨_, _, -, hmap⟩
    · rw [hmap] at happly
      cases happly
      exact ⟨_, rfl, Entries.nodup_keys_ofPairs pairs⟩
    · rw [hmap] at happly
      cases happly
  | @mapMap _ _ f _ _ _ _ _ happly ih =>
    obtain ⟨es, rfl, hes⟩ := ih
    obtain ⟨left, rfl⟩ := Builtin.exists_depth happly
    rw [Builtin.apply_builtin (b := .mapMap) (by simp)] at happly
    obtain ⟨g, p, answers, hpass, rfl, hlength⟩ := Builtin.exists_answers (by decide) happly
    cases f with
    | function f =>
      cases hpass
      rw [Pass.mapping, List.length_map] at hlength
      refine ⟨_, rfl, ?_⟩
      have hkeys : Entries.keys (es.keys.zip answers) = es.keys :=
        List.map_fst_zip (Nat.le_of_eq (by rw [Entries.keys, List.length_map, hlength]))
      rwa [hkeys]
    | _ => cases hpass
  | @mapFilter _ _ f _ _ _ _ _ happly ih =>
    obtain ⟨es, rfl, hes⟩ := ih
    obtain ⟨left, rfl⟩ := Builtin.exists_depth happly
    rw [Builtin.apply_builtin (b := .mapFilter) (by simp)] at happly
    obtain ⟨g, p, answers, hpass, rfl, -⟩ := Builtin.exists_answers (by decide) happly
    cases f with
    | function f =>
      cases hpass
      exact ⟨_, rfl, hes.sublist ((Builtin.kept_sublist es answers).map Prod.fst)⟩
    | _ => cases hpass

/-- **What the built-ins see of a map** that has these entries: keys, values, values under a key, the length of the map
and of the lists of its keys and values, which is how many entries there are, and the applications of a reduction; and
what `map` makes of the entries again. -/
structure Seen (depth : Nat) (caller : FrameId) (m : Machine) (v : Value) (es : Entries Value) : Prop where
  keys : apply depth caller (.builtin .mapKeys) [v] m = .ok (.list ((es.map Prod.fst).map .string)) m
  values : apply depth caller (.builtin .mapValues) [v] m = .ok (.list (es.map Prod.snd)) m
  get : ∀ entry ∈ es, apply depth caller (.builtin .mapGet) [v, .string entry.1] m = .ok entry.2 m
  get_nil : ∀ key, key ∉ es.map Prod.fst → apply depth caller (.builtin .mapGet) [v, .string key] m = .ok .nil m
  len : ∀ w ∈ [v, .list ((es.map Prod.fst).map .string), .list (es.map Prod.snd)],
    apply depth caller (.builtin .len) [w] m = .ok (.number (Number.ofNat es.length)) m
  count : Number.Counts (Number.ofNat es.length) es.length
  reduce : ∀ start f r, apply depth caller (.builtin .mapReduce) [start, v, .function f] m = r ↔
    (Pass.folding start (es.map ofEntry)).Ends (apply (depth - 1) caller f) m r
  again : apply depth caller (.builtin .map) (alternating es) m = .ok v m

section

variable (depth : Nat) (caller : FrameId) (m : Machine)

theorem apply_mapGet (es : Entries Value) (key : String) :
    apply (depth + 1) caller (.builtin .mapGet) [.map es, .string key] m = .ok ((es.get? key).getD .nil) m := by
  rw [Builtin.apply_builtin (b := .mapGet) (by simp)]
  rfl

theorem apply_len_map (es : Entries Value) :
    apply (depth + 1) caller (.builtin .len) [.map es] m = .ok (.number (Number.ofNat es.length)) m := by
  rw [Builtin.apply_builtin (b := .len) (by simp)]
  rfl

theorem apply_len_list (items : List Value) :
    apply (depth + 1) caller (.builtin .len) [.list items] m = .ok (.number (Number.ofNat items.length)) m := by
  rw [Builtin.apply_builtin (b := .len) (by simp)]
  rfl

/-- Entries with distinct keys are seen alike by all. -/
theorem seen_of_nodup {es : Entries Value} (h : es.keys.Nodup) : Seen (depth + 1) caller m (.map es) es where
  keys := by
    rw [Builtin.apply_builtin (b := .mapKeys) (by simp)]
    rfl
  values := by
    rw [Builtin.apply_builtin (b := .mapValues) (by simp)]
    rfl
  get entry hentry := by rw [apply_mapGet, Entries.get?_of_mem h hentry, Option.getD_some]
  get_nil key hkey := by rw [apply_mapGet, Entries.get?_of_not_mem hkey, Option.getD_none]
  len := by
    have hkeys := apply_len_list depth caller m ((es.map Prod.fst).map .string)
    have hvalues := apply_len_list depth caller m (es.map Prod.snd)
    rw [List.length_map, List.length_map] at hkeys
    rw [List.length_map] at hvalues
    exact List.forall_mem_cons.2
      ⟨apply_len_map depth caller m es, List.forall_mem_cons.2 ⟨hkeys, List.forall_mem_singleton.2 hvalues⟩⟩
  count := Number.counts_ofNat es.length
  reduce start f r := by
    rw [Builtin.apply_builtin (b := .mapReduce) (by simp), Builtin.run_pass (f := f) rfl]
    exact Pass.run_eq_iff
  again := by
    rw [Builtin.apply_map, Builtin.mapOf_alternating, Entries.ofPairs_of_nodup h]
    rfl

/-- **Maps are dictionaries in insertion order.**  `map` takes keys and values in turn; it lists every key once, where
it first came up, and finds the last value that was given with it.  It fails exactly where there is a fault in its
arguments, and names this.
Whatever `map` makes, and `mapMap` and `mapFilter` of it, has distinct keys, and all that reads it sees the same entries
in the same order. -/
theorem apply_maps :
    (∀ pairs, ∃ v, apply (depth + 1) caller (.builtin .map) (alternating pairs) m = .ok v m ∧
      apply (depth + 1) caller (.builtin .mapKeys) [v] m =
        .ok (.list ((pairs.map Prod.fst).eraseDups.map .string)) m ∧
      ∀ key, apply (depth + 1) caller (.builtin .mapGet) [v, .string key] m =
        .ok ((pairs.reverse.lookup key).getD .nil) m) ∧
    (∀ args v m', apply (depth + 1) caller (.builtin .map) args m = .ok v m' →
      m' = m ∧ ∃ pairs, args = alternating pairs) ∧
    (∀ args halt m', apply (depth + 1) caller (.builtin .map) args m = .error halt m' ↔ m' = m ∧
      ∃ index problem, MapFault args index problem ∧ halt = .failed (.argument Builtin.map.name index problem)) ∧
    ∀ v, MadeMap v → ∃ es : Entries Value, (es.map Prod.fst).Nodup ∧ Seen (depth + 1) caller m v es := by
  refine ⟨fun pairs => ?_, fun args v m' hok => ?_, fun args halt m' => ⟨fun hfails => ?_, ?_⟩, fun v hmade => ?_⟩
  · refine ⟨.map (Entries.ofPairs pairs), ?_, ?_, fun key => ?_⟩
    · rw [Builtin.apply_map, Builtin.mapOf_alternating]
      rfl
    · rw [← Entries.keys_ofPairs]
      exact (seen_of_nodup depth caller m (Entries.nodup_keys_ofPairs pairs)).keys
    · rw [apply_mapGet, Entries.get?_ofPairs]
  · rw [Builtin.apply_map] at hok
    rcases Builtin.mapOf_cases args with ⟨pairs, hpairs, hmap⟩ | ⟨_, _, -, hmap⟩ <;> rw [hmap] at hok <;> cases hok
    exact ⟨rfl, pairs, hpairs⟩
  · rw [Builtin.apply_map] at hfails
    rcases Builtin.mapOf_cases args with ⟨_, -, hmap⟩ | ⟨index, problem, hfault, hmap⟩ <;> rw [hmap] at hfails <;>
      cases hfails
    exact ⟨rfl, index, problem, hfault, rfl⟩
  · rintro ⟨rfl, index, problem, hfault, rfl⟩
    rw [Builtin.apply_map, hfault.mapOf_eq]
    rfl
  · obtain ⟨es, rfl, hes⟩ := hmade.exists_entries
    exact ⟨es, hes, seen_of_nodup depth caller m hes⟩

end

/-- Of three keys, one of them given twice, those are kept that are their own value, and then each is put in front of
its value. -/
theorem apply_maps_kept : ∃ v, MadeMap v ∧
    ∃ es : Entries Value, es.map Prod.fst = ["b", "a"] ∧ (es.map Prod.fst).Nodup ∧ Seen 1 0 .initial v es := by
  let given : List (String × Value) :=
    [("b", .string "x"), ("a", .string "a"), ("c", .string "d"), ("b", .string "b")]
  have hgiven : Entries.ofPairs given = [("b", .string "b"), ("a", .string "a"), ("c", .string "d")] := by
    simp [given, Entries.ofPairs, Entries.insert]
  have hmap : apply 1 0 (.builtin .map) (alternating given) .initial = .ok (.map (Entries.ofPairs given)) .initial := by
    rw [Builtin.apply_map, Builtin.mapOf_alternating]
    rfl
  have hfilter : apply 2 0 (.builtin .mapFilter) [.map (Entries.ofPairs given), .function (.builtin .strEq)] .initial =
      .ok (.map [("b", .string "b"), ("a", .string "a")]) .initial := by
    rw [hgiven]
    rfl
  have hmade : MadeMap (.map [("b", .string "bb"), ("a", .string "aa")]) :=
    ((MadeMap.map hmap).mapFilter hfilter).mapMap
      (show apply 2 0 (.builtin .mapMap) [_, .function (.builtin .concat)] .initial = .ok _ .initial from rfl)
  obtain ⟨es, hes, hseen⟩ := (apply_maps 0 0 .initial).2.2.2 _ hmade
  refine ⟨_, hmade, es, ?_, hes, hseen⟩
  have hkeys : EStateM.Result.ok (Value.list (["b", "a"].map .string)) Machine.initial =
      .ok (.list ((es.map Prod.fst).map .string)) Machine.initial := hseen.keys
  injection hkeys with hlist
  injection hlist with hnames
  exact List.map_injective_iff.2 (fun _ _ h => Value.string.inj h) hnames.symm

end MiniLisp
