import MiniLisp.Proofs.Value.Pairs
import MiniLisp.Value.Basic
/-!
# Proper — values whose maps have distinct keys, and their parts

A value is `Proper` if all its maps, at every depth, have distinct keys, and its numbers and functions have some
property.  What stands at a path in a value (`Value.at?`) is as proper as the value.
-/
namespace MiniLisp.Value

/-- **A value whose maps have distinct keys**, whose numbers are among `N` and whose functions are among `K`, at every
depth. -/
inductive Proper (N : Float → Prop) (K : Function → Prop) : Value → Prop
  | number {x : Float} : N x → Proper N K (.number x)
  | string (text : String) : Proper N K (.string text)
  | bool (b : Bool) : Proper N K (.bool b)
  | nil : Proper N K .nil
  | pair {left right : Value} : Proper N K left → Proper N K right → Proper N K (.pair left right)
  | list {items : List Value} : (∀ v ∈ items, Proper N K v) → Proper N K (.list items)
  | map {entries : Entries Value} : entries.keys.Nodup → (∀ v ∈ entries.values, Proper N K v) →
      Proper N K (.map entries)
  | function {f : Function} : K f → Proper N K (.function f)

variable {N N' : Float → Prop} {K K' : Function → Prop} {v w : Value}

theorem Proper.mono (hN : ∀ x, N x → N' x) (hK : ∀ f, K f → K' f) (h : v.Proper N K) : v.Proper N' K' := by
  induction h with
  | number hx => exact .number (hN _ hx)
  | string text => exact .string text
  | bool b => exact .bool b
  | nil => exact .nil
  | pair _ _ ih ih' => exact .pair ih ih'
  | list _ ih => exact .list ih
  | map hkeys _ ih => exact .map hkeys ih
  | function hf => exact .function (hK _ hf)

/-! ## Paths -/

/-- One way into a value. -/
inductive Step where
  | left
  | right
  | item (index : Nat)
  | key (key : String)

def part? : Value → Step → Option Value
  | .pair left _, .left => some left
  | .pair _ right, .right => some right
  | .list items, .item i => items[i]?
  | .map entries, .key key => Entries.get? entries key
  | _, _ => none

/-- What stands at a path in a value. -/
def at? : Value → List Step → Option Value
  | v, [] => some v
  | v, step :: path => (v.part? step).bind fun w => w.at? path

theorem at?_cons (v : Value) (step : Step) (path : List Step) :
    v.at? (step :: path) = (v.part? step).bind fun w => w.at? path := rfl

theorem Proper.of_part? {step : Step} (h : v.Proper N K) (hw : v.part? step = some w) : w.Proper N K := by
  cases h with
  | pair hleft hright =>
    cases step with
    | left => exact Option.some.inj hw ▸ hleft
    | right => exact Option.some.inj hw ▸ hright
    | _ => cases hw
  | list hitems =>
    cases step with
    | item i => exact hitems w (List.mem_of_getElem? hw)
    | _ => cases hw
  | map _ hvalues =>
    cases step with
    | key key => exact hvalues w (Entries.mem_values_of_get? hw)
    | _ => cases hw
  | _ => cases step <;> cases hw

theorem Proper.of_at? : ∀ {path : List Step} {v : Value}, v.Proper N K → v.at? path = some w → w.Proper N K
  | [], _, h, hw => Option.some.inj hw ▸ h
  | step :: path, _, h, hw => by
    obtain ⟨u, hu, hw⟩ := Option.bind_eq_some_iff.1 hw
    exact (h.of_part? hu).of_at? hw

/-- What the functions of a value are among is told by those that stand at its paths. -/
theorem Proper.of_functions (h : v.Proper N K) :
    (∀ path f, v.at? path = some (.function f) → K' f) → v.Proper N K' := by
  induction h with
  | number hx => exact fun _ => .number hx
  | string text => exact fun _ => .string text
  | bool b => exact fun _ => .bool b
  | nil => exact fun _ => .nil
  | pair _ _ ih ih' =>
    exact fun hK => .pair (ih fun path => hK (.left :: path)) (ih' fun path => hK (.right :: path))
  | list _ ih =>
    refine fun hK => .list fun v hv => ih v hv fun path f hf => ?_
    obtain ⟨i, hi⟩ := List.mem_iff_getElem?.1 hv
    refine hK (.item i :: path) f ?_
    rw [at?_cons, part?, hi]
    exact hf
  | map hkeys _ ih =>
    refine fun hK => .map hkeys fun v hv => ih v hv fun path f hf => ?_
    obtain ⟨entry, hentry, rfl⟩ := List.mem_map.1 hv
    refine hK (.key entry.1 :: path) f ?_
    rw [at?_cons, part?, Entries.get?_of_mem hkeys hentry]
    exact hf
  | function _ => exact fun hK => .function (hK [] _ rfl)

end MiniLisp.Value
