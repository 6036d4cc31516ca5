import Mathlib.Data.List.Induction
import Mathlib.Data.List.Nodup
import MiniLisp.Value.Entries
/-!
# Pairs — what pairs come to that are inserted one after another

A key that is inserted again keeps its place and takes the new value.  So of pairs that are inserted in order, the last
one with a key is found (`get?_ofPairs`), and the keys stand in the order in which they first came up (`keys_ofPairs`).
Entries with distinct keys are what they come to themselves (`ofPairs_of_nodup`), and each is found under its key
(`get?_of_mem`).
-/
namespace MiniLisp.Entries

variable {α : Type} {P : α → Prop} {es : Entries α} {key : String} {value : α}

/-! ## Values -/

theorem forall_values_insert : ∀ {es : Entries α}, (∀ v ∈ es.values, P v) → P value →
    ∀ v ∈ (es.insert key value).values, P v
  | [], _, hvalue => List.forall_mem_cons.2 ⟨hvalue, nofun⟩
  | (k, v) :: es, h, hvalue => by
    obtain ⟨hv, hes⟩ := List.forall_mem_cons.1 h
    unfold insert
    by_cases hk : k = key
    · rw [if_pos hk]
      exact List.forall_mem_cons.2 ⟨hvalue, hes⟩
    · rw [if_neg hk]
      exact List.forall_mem_cons.2 ⟨hv, forall_values_insert hes hvalue⟩

theorem mem_of_get? : ∀ {es : Entries α}, es.get? key = some value → (key, value) ∈ es
  | (k, w) :: es, h => by
    unfold get? at h
    by_cases hk : k = key
    · rw [if_pos hk] at h
      cases h
      rw [hk]
      exact List.mem_cons_self
    · rw [if_neg hk] at h
      exact List.mem_cons_of_mem _ (mem_of_get? h)

theorem mem_values_of_get? (h : es.get? key = some value) : value ∈ es.values :=
  List.mem_map.2 ⟨_, mem_of_get? h, rfl⟩

/-! ## Pairs in order -/

theorem ofPairs_concat (pairs : List (String × α)) (key : String) (value : α) :
    ofPairs (pairs ++ [(key, value)]) = (ofPairs pairs).insert key value := by
  unfold ofPairs
  rw [List.foldl_append]
  rfl

/-- **The last pair with a key is found.** -/
theorem get?_ofPairs (key : String) (pairs : List (String × α)) :
    (ofPairs pairs).get? key = pairs.reverse.lookup key := by
  induction pairs using List.reverseRecOn with
  | nil => rfl
  | append_singleton pairs last ih =>
    obtain ⟨k, v⟩ := last
    rw [ofPairs_concat, List.reverse_concat, List.lookup_cons]
    by_cases hk : key = k
    · rw [hk, get?_insert_self, beq_self_eq_true]
    · rw [get?_insert_of_ne v (Ne.symm hk), ih, beq_false_of_ne hk]

theorem forall_values_ofPairs {pairs : List (String × α)} (h : ∀ v ∈ pairs.map Prod.snd, P v) :
    ∀ v ∈ (ofPairs pairs).values, P v := by
  induction pairs using List.reverseRecOn with
  | nil => exact nofun
  | append_singleton pairs last ih =>
    rw [List.map_append, List.forall_mem_append] at h
    rw [ofPairs_concat]
    exact forall_values_insert (ih h.1) (h.2 _ List.mem_cons_self)

/-- **Keys stand in the order in which they first come up**, each once. -/
theorem keys_ofPairs (pairs : List (String × α)) : (ofPairs pairs).keys = (pairs.map Prod.fst).eraseDups := by
  induction pairs using List.reverseRecOn with
  | nil => rfl
  | append_singleton pairs last ih =>
    obtain ⟨k, v⟩ := last
    rw [ofPairs_concat, keys_insert, ih, List.map_append, List.eraseDups_append]
    by_cases hk : k ∈ pairs.map Prod.fst
    · simp [hk, List.removeAll]
    · simp [hk, List.removeAll, List.eraseDups_cons]

/-! ## Distinct keys -/

theorem nodup_keys_insert (h : es.keys.Nodup) (key : String) (value : α) : (es.insert key value).keys.Nodup := by
  rw [keys_insert]
  by_cases hk : key ∈ es.keys
  · rwa [if_pos hk]
  · rw [if_neg hk]
    refine List.nodup_append.2 ⟨h, List.nodup_singleton key, fun k hmem other hother => ?_⟩
    rw [List.mem_singleton.1 hother]
    exact fun heq => hk (heq ▸ hmem)

theorem nodup_keys_ofPairs (pairs : List (String × α)) : (ofPairs pairs).keys.Nodup := by
  induction pairs using List.reverseRecOn with
  | nil => exact List.nodup_nil
  | append_singleton pairs last ih =>
    rw [ofPairs_concat]
    exact nodup_keys_insert ih _ _

theorem nodup_keys_zip {names : List String} (h : names.Nodup) (values : List α) :
    (keys (names.zip values)).Nodup := by
  rw [keys, List.zip_eq_zip_take_min, List.map_fst_zip (by simp)]
  exact h.sublist (List.take_sublist _ _)

/-- A new key comes last. -/
theorem insert_of_not_mem (value : α) : ∀ {es : Entries α}, key ∉ es.keys → es.insert key value = es ++ [(key, value)]
  | [], _ => rfl
  | (k, v) :: es, h => by
    have hk : key ≠ k := List.ne_of_not_mem_cons h
    rw [insert, if_neg (Ne.symm hk), insert_of_not_mem value (List.not_mem_of_not_mem_cons h)]
    rfl

/-- **Entries with distinct keys are what they come to** if they are inserted again, one after another. -/
theorem ofPairs_of_nodup (h : es.keys.Nodup) : ofPairs es = es := by
  induction es using List.reverseRecOn with
  | nil => rfl
  | append_singleton es last ih =>
    obtain ⟨k, v⟩ := last
    rw [keys, List.map_append, List.nodup_append] at h
    obtain ⟨hes, -, hne⟩ := h
    rw [ofPairs_concat, ih hes]
    exact insert_of_not_mem v fun hk => hne k hk k List.mem_cons_self rfl

/-- Nothing is found under another key. -/
theorem get?_of_not_mem : ∀ {es : Entries α}, key ∉ es.keys → es.get? key = none
  | [], _ => rfl
  | (k, v) :: es, h => by
    have hk : key ≠ k := List.ne_of_not_mem_cons h
    rw [get?, if_neg (Ne.symm hk), get?_of_not_mem (List.not_mem_of_not_mem_cons h)]

/-- A value is found under a key that is there. -/
theorem mem_keys_iff : ∀ {es : Entries α}, key ∈ es.keys ↔ ∃ value, es.get? key = some value
  | [] => by simp [keys, get?]
  | (k, v) :: es => by
    have ih : key ∈ keys es ↔ ∃ value, get? es key = some value := mem_keys_iff
    rw [get?, keys, List.map_cons, List.mem_cons]
    by_cases hk : k = key
    · simp [hk]
    · rw [if_neg hk, ← ih]
      exact or_iff_right (Ne.symm hk)

/-- Under distinct keys, every entry is found. -/
theorem get?_of_mem : ∀ {es : Entries α}, es.keys.Nodup → (key, value) ∈ es → es.get? key = some value
  | (k, v) :: es, h, hmem => by
    obtain ⟨hk, hes⟩ := List.nodup_cons.1 h
    rw [get?]
    rcases List.mem_cons.1 hmem with heq | hmem
    · obtain ⟨rfl, rfl⟩ := Prod.mk.inj heq
      rw [if_pos rfl]
    · have hkey : key ∈ keys es := List.mem_map.2 ⟨_, hmem, rfl⟩
      have hne : k ≠ key := fun heq => hk (heq ▸ hkey)
      rw [if_neg hne, get?_of_mem hes hmem]

/-- Under distinct keys the order of the entries plays no part. -/
theorem get?_perm {es' : Entries α} (h : es.keys.Nodup) (hperm : es.Perm es') (key : String) :
    es'.get? key = es.get? key := by
  have h' : es'.keys.Nodup := (hperm.map Prod.fst).nodup_iff.1 h
  refine Option.ext fun v => ⟨fun hv => ?_, fun hv => ?_⟩
  · exact get?_of_mem h (hperm.mem_iff.2 (mem_of_get? hv))
  · exact get?_of_mem h' (hperm.mem_iff.1 (mem_of_get? hv))

end MiniLisp.Entries
