import Mathlib.Data.List.Basic
import MiniLisp.Proofs.Arguments.Agree
import MiniLisp.Proofs.Arguments.Steps
/-!
# Leftmost — a mapper reports the first argument that does not fit

The reads of a mapper make a shape.  Each read stands behind the ones before it, and so it is settled which arguments
it takes, and at which positions a list of arguments does not fit (`Shape.Misfit`).  However its reads and completes
are mixed, a mapper takes the arguments in order, answers with one result a read if they fit, and with the error of the
smallest position where they do not (`complete_leftmost`).
-/
namespace MiniLisp

open ValueReading (fetch)

/-! ## One read -/

namespace Read

/-- Where the next read stands, behind one that stands at `place` among `n` arguments: a read takes the argument there,
if there is one, or all that are left. -/
def next (n place : Nat) : Read → Nat
  | .one _ | .optional => min (place + 1) n
  | .rest _ => n

/-- What a read at `place` results in: the argument there, if there is one, or all from there on. -/
def result (vs : List Value) (place : Nat) : Read → ReadResult
  | .one _ | .optional => .one vs[place]?
  | .rest _ => .all (vs.drop place)

/-- Arguments that fit a read which stands at `place`. -/
def Fits (vs : List Value) (place : Nat) : Read → Prop
  | .one kind => ∃ v, vs[place]? = some v ∧ ∀ k ∈ kind, v.kind = k
  | .optional => True
  | .rest kind => ∀ p v, place ≤ p → vs[p]? = some v → ∀ k ∈ kind, v.kind = k

/-- **A position where the arguments do not fit a read** that stands at `place`, and why. -/
inductive Misfit (vs : List Value) (place : Nat) : Read → Nat → ArgumentProblem → Prop
  | missing {kind : Option Kind} : vs.length ≤ place →
      Misfit vs place (.one kind) vs.length (.missing (Mapper.expected kind).label)
  | mismatch {kind : Kind} {v : Value} : vs[place]? = some v → v.kind ≠ kind →
      Misfit vs place (.one (some kind)) place (.mismatch kind.name v.kind)
  | mismatchAmong {kind : Kind} {v : Value} {p : Nat} : place ≤ p → vs[p]? = some v → v.kind ≠ kind →
      Misfit vs place (.rest (some kind)) p (.mismatch kind.name v.kind)

variable {vs : List Value} {place p : Nat} {r : Read} {problem problem' : ArgumentProblem}

theorem next_le (n : Nat) : r.next n place ≤ n := by
  cases r with
  | one _ => exact Nat.min_le_right _ _
  | optional => exact Nat.min_le_right _ _
  | rest _ => exact Nat.le_refl n

theorem le_next {n : Nat} (h : place ≤ n) : place ≤ r.next n place := by
  cases r with
  | one _ => exact Nat.le_min.2 ⟨Nat.le_succ place, h⟩
  | optional => exact Nat.le_min.2 ⟨Nat.le_succ place, h⟩
  | rest _ => exact h

theorem Misfit.ge (h : r.Misfit vs place p problem) (hplace : place ≤ vs.length) : place ≤ p := by
  cases h with
  | missing _ => exact hplace
  | mismatch _ _ => exact Nat.le_refl _
  | mismatchAmong hp _ _ => exact hp

/-- Where the next read stands is behind all misfits of this one. -/
theorem Misfit.le_next (h : r.Misfit vs place p problem) : p ≤ r.next vs.length place := by
  cases h with
  | missing hplace => exact Nat.le_min.2 ⟨Nat.le_succ_of_le hplace, Nat.le_refl _⟩
  | mismatch hv _ => exact Nat.le_min.2 ⟨Nat.le_succ _, Nat.le_of_lt (List.getElem?_eq_some_iff.1 hv).1⟩
  | mismatchAmong _ hv _ => exact Nat.le_of_lt (List.getElem?_eq_some_iff.1 hv).1

theorem Misfit.unique (h : r.Misfit vs place p problem) (h' : r.Misfit vs place p problem') : problem = problem' := by
  cases h with
  | missing hplace =>
    cases h' with
    | missing _ => rfl
    | mismatch hv _ =>
      have := (List.getElem?_eq_some_iff.1 hv).1
      omega
  | mismatch hv _ =>
    cases h' with
    | missing hplace =>
      have := (List.getElem?_eq_some_iff.1 hv).1
      omega
    | mismatch hv' _ => rw [Option.some.inj (hv.symm.trans hv')]
  | mismatchAmong _ hv _ =>
    cases h' with
    | mismatchAmong _ hv' _ => rw [Option.some.inj (hv.symm.trans hv')]

/-- **Arguments fit a read where there is no misfit.** -/
theorem fits_iff : r.Fits vs place ↔ ∀ p problem, ¬r.Misfit vs place p problem := by
  constructor
  · intro hfits p problem hmisfit
    cases hmisfit with
    | missing hplace =>
      obtain ⟨v, hv, _⟩ := hfits
      have := (List.getElem?_eq_some_iff.1 hv).1
      omega
    | mismatch hv hkind =>
      obtain ⟨w, hw, hkinds⟩ := hfits
      rw [Option.some.inj (hv.symm.trans hw)] at hkind
      exact hkind (hkinds _ rfl)
    | mismatchAmong hp hv hkind => exact hkind (hfits _ _ hp hv _ rfl)
  · intro hnone
    cases r with
    | one kind =>
      cases hv : vs[place]? with
      | none => exact absurd (.missing (List.getElem?_eq_none_iff.1 hv)) (hnone _ _)
      | some v =>
        refine ⟨v, hv, fun k hk => by_contra fun hkind => ?_⟩
        obtain rfl : kind = some k := hk
        exact hnone _ _ (.mismatch hv hkind)
    | optional => exact trivial
    | rest kind =>
      intro p v hp hv k hk
      obtain rfl : kind = some k := hk
      exact by_contra fun hkind => hnone _ _ (.mismatchAmong hp hv hkind)

/-! ## What a read comes to -/

/-- What a read that stands at `place` comes to: its result, with the arguments behind it left, or its first misfit. -/
inductive Outcome (fn : String) (vs : List Value) (place : Nat) (r : Read) :
    Except Error ReadResult × Arguments Value → Prop
  | ok : r.Fits vs place →
      Outcome fn vs place r (.ok (r.result vs place), ⟨fn, r.next vs.length place, vs.drop (r.next vs.length place)⟩)
  | error {p : Nat} {problem : ArgumentProblem} {args : Arguments Value} : r.Misfit vs place p problem →
      (∀ q problem', r.Misfit vs place q problem' → p ≤ q) →
      Outcome fn vs place r (.error (.argument fn p problem), args)

end Read

theorem Mapper.expected_view {kind : Option Kind} {v : Value} (h : ∀ k ∈ kind, v.kind = k) :
    (expected kind).view v = some v := by
  cases kind with
  | none => rfl
  | some k => exact if_pos (h k rfl)

theorem Mapper.expected_view_none {k : Kind} {v : Value} (h : v.kind ≠ k) : (expected (some k)).view v = none :=
  if_neg h

namespace ValueReading

variable {α β : Type} {expected : Expected α} {fn : String} {index : Nat} {v : Value} {ts : List Value}

/-- What is made of the result of a reading. -/
theorem return_apply (r : ValueReading α) (f : α → β) (s : Arguments Value) :
    (do return f (← r) : ValueReading β) s = ((r s).1.map f, (r s).2) := by
  rw [bind_apply]
  obtain ⟨x, s'⟩ := r s
  cases x <;> rfl

theorem one_nil :
    one expected ⟨fn, index, []⟩ = (.error (.argument fn index (.missing expected.label)), ⟨fn, index, []⟩) := rfl

theorem one_cons : one expected ⟨fn, index, v :: ts⟩ = (match expected.view v with
      | some a => .ok a
      | none => .error (.argument fn index (.mismatch expected.label v.kind)), ⟨fn, index + 1, ts⟩) := by
  show (match expected.view v with | some a => pure a | none => _ : ValueReading α) _ = _
  cases expected.view v <;> rfl

end ValueReading

namespace Mapper

variable (args : Arguments Value) (kind : Option Kind)

theorem reading_one : reading fetch (.one kind) args =
    ((ValueReading.one (expected kind) args).1.map fun v => .one (some v),
      (ValueReading.one (expected kind) args).2) := ValueReading.return_apply _ _ _

theorem reading_optional : reading fetch .optional args = ((ValueReading.optional args).1.map .one,
    (ValueReading.optional args).2) := ValueReading.return_apply _ _ _

theorem reading_rest : reading fetch (.rest kind) args =
    ((Arguments.restFrom fetch (expected kind) args.fn args.index args.pending).1.map .all,
      (Arguments.restFrom fetch (expected kind) args.fn args.index args.pending).2) := ValueReading.return_apply _ _ _

end Mapper

namespace Read

variable {fn : String} {vs : List Value} {place : Nat}

/-! ## What a read comes to -/

theorem outcome_one (kind : Option Kind) (hplace : place ≤ vs.length) :
    Outcome fn vs place (.one kind) (Mapper.reading fetch (.one kind) ⟨fn, place, vs.drop place⟩) := by
  rw [Mapper.reading_one]
  rcases Nat.lt_or_ge place vs.length with hlt | hge
  · have hv : vs[place]? = some vs[place] := List.getElem?_eq_getElem hlt
    rw [List.drop_eq_getElem_cons hlt, ValueReading.one_cons]
    by_cases hkinds : ∀ k ∈ kind, vs[place].kind = k
    · have hnext : place + 1 = (Read.one kind).next vs.length place := (Nat.min_eq_left hlt).symm
      rw [Mapper.expected_view hkinds, hnext]
      dsimp only [Except.map]
      rw [← hv]
      exact .ok ⟨_, hv, hkinds⟩
    · obtain ⟨k, hk, hkind⟩ : ∃ k ∈ kind, vs[place].kind ≠ k := by simpa using hkinds
      obtain rfl : kind = some k := hk
      rw [Mapper.expected_view_none hkind]
      exact .error (.mismatch hv hkind) fun q _ hq => hq.ge hplace
  · obtain rfl : place = vs.length := Nat.le_antisymm hplace hge
    rw [List.drop_length, ValueReading.one_nil]
    exact .error (.missing hge) fun q _ hq => hq.ge hplace

theorem outcome_optional (hplace : place ≤ vs.length) :
    Outcome fn vs place .optional (Mapper.reading fetch .optional ⟨fn, place, vs.drop place⟩) := by
  rw [Mapper.reading_optional]
  have hok : Outcome fn vs place .optional (.ok (.one vs[place]?),
      ⟨fn, min (place + 1) vs.length, vs.drop (min (place + 1) vs.length)⟩) := .ok trivial
  rcases Nat.lt_or_ge place vs.length with hlt | hge
  · rw [List.getElem?_eq_getElem hlt, Nat.min_eq_left hlt] at hok
    rw [List.drop_eq_getElem_cons hlt]
    exact hok
  · obtain rfl : place = vs.length := Nat.le_antisymm hplace hge
    rw [List.getElem?_eq_none hge, Nat.min_eq_right (Nat.le_succ _), List.drop_length] at hok
    rw [List.drop_length]
    exact hok

/-- An argument of the kind takes no part in the misfits of a read of all. -/
theorem misfit_rest_succ {kind : Option Kind} {v : Value} (hv : vs[place]? = some v) (hkinds : ∀ k ∈ kind, v.kind = k)
    (q : Nat) (problem : ArgumentProblem) :
    Misfit vs place (.rest kind) q problem ↔ Misfit vs (place + 1) (.rest kind) q problem := by
  constructor
  · rintro (_ | _ | @⟨k, w, _, hq, hw, hkind⟩)
    rcases Nat.eq_or_lt_of_le hq with rfl | hlt
    · rw [← Option.some.inj (hv.symm.trans hw)] at hkind
      exact absurd (hkinds k rfl) hkind
    · exact .mismatchAmong hlt hw hkind
  · rintro (_ | _ | ⟨hq, hw, hkind⟩)
    exact .mismatchAmong (Nat.le_of_succ_le hq) hw hkind

/-- The arguments from `place` on are all as expected, or the first that is not is refused. -/
theorem restFrom_fits (fn : String) (kind : Option Kind) : ∀ (ts : List Value) (place : Nat), vs.drop place = ts →
    place ≤ vs.length →
    (Fits vs place (.rest kind) ∧
        Arguments.restFrom fetch (Mapper.expected kind) fn place ts = (.ok ts, ⟨fn, vs.length, []⟩)) ∨
      ∃ p problem args,
        Arguments.restFrom fetch (Mapper.expected kind) fn place ts = (.error (.argument fn p problem), args) ∧
          Misfit vs place (.rest kind) p problem ∧ ∀ q problem', Misfit vs place (.rest kind) q problem' → p ≤ q
  | [], place, hts, hplace => by
    obtain rfl : place = vs.length := Nat.le_antisymm hplace (List.drop_eq_nil_iff.1 hts)
    refine .inl ⟨fun p v hp hv => ?_, rfl⟩
    have := (List.getElem?_eq_some_iff.1 hv).1
    omega
  | v :: ts, place, hts, hplace => by
    have hlt : place < vs.length := by
      by_contra hge
      rw [List.drop_of_length_le (Nat.le_of_not_lt hge)] at hts
      cases hts
    rw [List.drop_eq_getElem_cons hlt] at hts
    injection hts with hv hts
    replace hv : vs[place]? = some v := List.getElem?_eq_some_iff.2 ⟨hlt, hv⟩
    rw [ValueReading.restFrom_cons]
    by_cases hkinds : ∀ k ∈ kind, v.kind = k
    · have hsame := misfit_rest_succ hv hkinds
      rw [Mapper.expected_view hkinds]
      obtain ⟨hfits, hrest⟩ | ⟨p, problem, args, hrest, hmisfit, hle⟩ := restFrom_fits fn kind ts (place + 1) hts hlt
      · rw [hrest]
        exact .inl ⟨fits_iff.2 fun q problem hq => fits_iff.1 hfits q problem ((hsame _ _).1 hq), rfl⟩
      · rw [hrest]
        refine .inr ⟨p, problem, args, rfl, (hsame _ _).2 hmisfit, fun q problem' hq => ?_⟩
        exact hle q problem' ((hsame _ _).1 hq)
    · obtain ⟨k, hk, hkind⟩ : ∃ k ∈ kind, v.kind ≠ k := by simpa using hkinds
      obtain rfl : kind = some k := hk
      rw [Mapper.expected_view_none hkind]
      exact .inr ⟨_, _, _, rfl, .mismatchAmong (Nat.le_refl _) hv hkind, fun q _ hq => hq.ge hplace⟩

theorem outcome_rest (kind : Option Kind) (hplace : place ≤ vs.length) :
    Outcome fn vs place (.rest kind) (Mapper.reading fetch (.rest kind) ⟨fn, place, vs.drop place⟩) := by
  rw [Mapper.reading_rest]
  obtain ⟨hfits, hrest⟩ | ⟨p, problem, args, hrest, hmisfit, hle⟩ := restFrom_fits fn kind _ place rfl hplace
  · rw [hrest, ← List.drop_length]
    exact .ok hfits
  · rw [hrest]
    exact .error hmisfit hle

/-- **A read takes what it is placed before, or fails with its first misfit.** -/
theorem outcome (r : Read) (hplace : place ≤ vs.length) :
    Outcome fn vs place r (Mapper.reading fetch r ⟨fn, place, vs.drop place⟩) := by
  cases r with
  | one kind => exact outcome_one kind hplace
  | optional => exact outcome_optional hplace
  | rest kind => exact outcome_rest kind hplace

end Read

/-! ## The shape of all reads -/

/-- The reads of a mapper, in order. -/
abbrev Shape := List Read

namespace Shape

/-- Where the read number `j` stands, among `n` arguments. -/
def place (rs : Shape) (n j : Nat) : Nat := (rs.take j).foldl (fun p r => r.next n p) 0

/-- How many arguments are taken. -/
def taken (rs : Shape) (n : Nat) : Nat := place rs n rs.length

/-- What the reads result in. -/
def results (rs : Shape) (vs : List Value) : List ReadResult := rs.mapIdx fun j r => r.result vs (place rs vs.length j)

/-- Arguments that fit: each read the ones it takes, and no more than are taken. -/
structure Fits (rs : Shape) (vs : List Value) : Prop where
  read : ∀ (j : Nat) (r : Read), rs[j]? = some r → r.Fits vs (place rs vs.length j)
  all_taken : taken rs vs.length = vs.length

/-- **A position where the arguments do not fit the shape**: one that does not fit the read number `j`, or, behind all
reads, one of an argument that no read takes. -/
inductive Misfit (rs : Shape) (vs : List Value) : Nat → Nat → ArgumentProblem → Prop
  | read {j p : Nat} {r : Read} {problem : ArgumentProblem} : rs[j]? = some r →
      r.Misfit vs (place rs vs.length j) p problem → Misfit rs vs j p problem
  | surplus {p : Nat} : taken rs vs.length ≤ p → p < vs.length → Misfit rs vs rs.length p .surplus

/-- The first misfit, both by its read and by its position. -/
def Leftmost (rs : Shape) (vs : List Value) (p : Nat) (problem : ArgumentProblem) : Prop :=
  ∃ j, Misfit rs vs j p problem ∧ ∀ j' q problem', Misfit rs vs j' q problem' → j ≤ j' ∧ p ≤ q

variable {rs : Shape} {r : Read} {vs : List Value} {n j k p q : Nat} {problem problem' : ArgumentProblem}

theorem place_succ (h : rs[j]? = some r) : place rs n (j + 1) = r.next n (place rs n j) := by
  rw [place, List.take_add_one, h, List.foldl_append]
  rfl

theorem place_succ_of_none (h : rs[j]? = none) : place rs n (j + 1) = place rs n j := by
  rw [place, List.take_add_one, h, Option.toList_none, List.append_nil, place]

theorem place_le : ∀ j, place rs n j ≤ n
  | 0 => Nat.zero_le n
  | j + 1 => by
    cases h : rs[j]? with
    | some r =>
      rw [place_succ h]
      exact r.next_le n
    | none =>
      rw [place_succ_of_none h]
      exact place_le j

theorem place_mono (h : j ≤ k) : place rs n j ≤ place rs n k := by
  induction h with
  | refl => exact Nat.le_refl _
  | @step k _ ih =>
    cases h : rs[k]? with
    | some r =>
      rw [place_succ h]
      exact Nat.le_trans ih (r.le_next (place_le k))
    | none =>
      rw [place_succ_of_none h]
      exact ih

theorem place_concat (h : j ≤ rs.length) : place (rs ++ [r]) n j = place rs n j := by
  rw [place, place, List.take_append_of_le_length h]

theorem taken_concat : taken (rs ++ [r]) n = r.next n (taken rs n) := by
  have hlast : (rs ++ [r])[rs.length]? = some r := List.getElem?_concat_length
  rw [taken, List.length_append, List.length_singleton, place_succ hlast, place_concat (Nat.le_refl _), taken]

theorem results_concat : results (rs ++ [r]) vs = results rs vs ++ [r.result vs (taken rs vs.length)] := by
  rw [results, List.mapIdx_append, List.mapIdx_singleton, Nat.zero_add, place_concat (Nat.le_refl _), results, taken]
  congr 1
  refine List.mapIdx_eq_mapIdx_iff.2 fun i hi => ?_
  rw [place_concat (Nat.le_of_lt hi)]

/-! ### Misfits -/

theorem Misfit.ge (h : Misfit rs vs j p problem) : place rs vs.length j ≤ p := by
  cases h with
  | read _ hmisfit => exact hmisfit.ge (place_le _)
  | surplus htaken _ => exact htaken

/-- **Arguments fit where there is no misfit.** -/
theorem fits_iff : Fits rs vs ↔ ∀ j p problem, ¬Misfit rs vs j p problem := by
  constructor
  · rintro ⟨hread, hall⟩ j p problem (⟨hr, hmisfit⟩ | ⟨htaken, hlt⟩)
    · exact Read.fits_iff.1 (hread j _ hr) p problem hmisfit
    · omega
  · intro hnone
    refine ⟨fun j r hr => Read.fits_iff.2 fun p problem hmisfit => hnone j p problem (.read hr hmisfit), ?_⟩
    by_contra hne
    have hlt : taken rs vs.length < vs.length := Nat.lt_of_le_of_ne (place_le _) hne
    exact hnone _ _ _ (.surplus (Nat.le_refl _) hlt)

/-- A read that does not fit, and none before it. -/
structure FailsAt (rs : Shape) (vs : List Value) (j p : Nat) (problem : ArgumentProblem) : Prop where
  misfit : ∃ r, rs[j]? = some r ∧ r.Misfit vs (place rs vs.length j) p problem ∧
    ∀ q problem', r.Misfit vs (place rs vs.length j) q problem' → p ≤ q
  before : ∀ i r, i < j → rs[i]? = some r → r.Fits vs (place rs vs.length i)

theorem FailsAt.concat (h : FailsAt rs vs j p problem) : FailsAt (rs ++ [r]) vs j p problem := by
  obtain ⟨⟨r, hr, hmisfit, hle⟩, hbefore⟩ := h
  have hj : j < rs.length := (List.getElem?_eq_some_iff.1 hr).1
  constructor
  · rw [place_concat (Nat.le_of_lt hj), List.getElem?_append_left hj]
    exact ⟨r, hr, hmisfit, hle⟩
  · intro i r' hij hr'
    have hi : i < rs.length := Nat.lt_trans hij hj
    rw [List.getElem?_append_left hi] at hr'
    rw [place_concat (Nat.le_of_lt hi)]
    exact hbefore i r' hij hr'

/-- **The misfit of the first read that does not fit is behind no other.** -/
theorem FailsAt.leftmost (h : FailsAt rs vs j p problem) : Leftmost rs vs p problem := by
  obtain ⟨⟨r, hr, hmisfit, hle⟩, hbefore⟩ := h
  refine ⟨j, .read hr hmisfit, fun j' q problem' hq => ?_⟩
  rcases Nat.lt_trichotomy j' j with hlt | rfl | hgt
  · cases hq with
    | read hr' hq => exact absurd hq (Read.fits_iff.1 (hbefore j' _ hlt hr') q problem')
    | surplus _ _ =>
      rw [List.getElem?_eq_none (Nat.le_of_lt hlt)] at hr
      cases hr
  · cases hq with
    | read hr' hq =>
      rw [Option.some.inj (hr.symm.trans hr')] at hle
      exact ⟨Nat.le_refl _, hle q problem' hq⟩
    | surplus _ _ =>
      rw [List.getElem?_eq_none (Nat.le_refl _)] at hr
      cases hr
  · refine ⟨Nat.le_of_lt hgt, ?_⟩
    calc p ≤ r.next vs.length (place rs vs.length j) := hmisfit.le_next
      _ = place rs vs.length (j + 1) := (place_succ hr).symm
      _ ≤ place rs vs.length j' := place_mono hgt
      _ ≤ q := hq.ge

theorem Misfit.unique (h : Misfit rs vs j p problem) (h' : Misfit rs vs j p problem') : problem = problem' := by
  cases h with
  | read hr hmisfit =>
    cases h' with
    | read hr' hmisfit' =>
      rw [Option.some.inj (hr.symm.trans hr')] at hmisfit
      exact hmisfit.unique hmisfit'
    | surplus _ _ =>
      rw [List.getElem?_eq_none (Nat.le_refl _)] at hr
      cases hr
  | surplus _ _ =>
    cases h' with
    | read hr _ =>
      rw [List.getElem?_eq_none (Nat.le_refl _)] at hr
      cases hr
    | surplus _ _ => rfl

/-- **There is one first misfit at most.** -/
theorem Leftmost.unique (h : Leftmost rs vs p problem) (h' : Leftmost rs vs q problem') :
    p = q ∧ problem = problem' := by
  obtain ⟨j, hmisfit, hfirst⟩ := h
  obtain ⟨k, hmisfit', hfirst'⟩ := h'
  obtain ⟨hjk, hpq⟩ := hfirst k q problem' hmisfit'
  obtain ⟨hkj, hqp⟩ := hfirst' j p problem hmisfit
  obtain rfl : j = k := Nat.le_antisymm hjk hkj
  obtain rfl : p = q := Nat.le_antisymm hpq hqp
  exact ⟨rfl, hmisfit.unique hmisfit'⟩

theorem Leftmost.not_fits (h : Leftmost rs vs p problem) : ¬Fits rs vs := by
  obtain ⟨j, hmisfit, _⟩ := h
  exact fun hfits => fits_iff.1 hfits j p problem hmisfit

end Shape

/-! ## A mapper's run -/

namespace Mapper

open Shape (Fits Leftmost FailsAt taken)

/-- A mapper that was asked for the reads `rs` and has not failed to complete. -/
inductive Follows (fn : String) (vs : List Value) (rs : Shape) : Mapper Value → Prop
  | fits : (∀ (j : Nat) (r : Read), rs[j]? = some r → r.Fits vs (rs.place vs.length j)) →
      Follows fn vs rs ⟨⟨fn, taken rs vs.length, vs.drop (taken rs vs.length)⟩, none, Shape.results rs vs⟩
  | fails {s : Mapper Value} {j p : Nat} {problem : ArgumentProblem} : s.err = some (.argument fn p problem) →
      FailsAt rs vs j p problem → Follows fn vs rs s

variable {fn : String} {vs : List Value} {rs : Shape} {r : Read} {s : Mapper Value}

theorem read_of_none (args : Arguments Value) (results : List ReadResult) (r : Read) :
    Mapper.read fetch ⟨args, none, results⟩ r = (match reading fetch r args with
      | (.ok result, args) => ⟨args, none, results ++ [result]⟩
      | (.error e, args) => ⟨args, some e, results⟩ : Mapper Value) := by
  rcases hx : reading fetch r args with ⟨_ | _, _⟩ <;> simp only [Mapper.read, attempt, hx] <;> rfl

theorem follows_start : Follows fn vs [] (ofArguments fn vs) := .fits fun _ _ hr => nomatch hr

/-- **A read is one more read of the shape.** -/
theorem Follows.read (h : Follows fn vs rs s) (r : Read) : Follows fn vs (rs ++ [r]) (s.read fetch r) := by
  cases h with
  | fails herr hfails =>
    rw [show s.read fetch r = s from read_of_err fetch herr r]
    exact .fails herr hfails.concat
  | fits hfits =>
    have hlast : (rs ++ [r])[rs.length]? = some r := List.getElem?_concat_length
    have hplace : Shape.place (rs ++ [r]) vs.length rs.length = taken rs vs.length := Shape.place_concat (Nat.le_refl _)
    have hbefore : ∀ (i : Nat) (r' : Read), i < rs.length → (rs ++ [r])[i]? = some r' →
        r'.Fits vs (Shape.place (rs ++ [r]) vs.length i) := by
      intro i r' hi hr'
      rw [List.getElem?_append_left hi] at hr'
      rw [Shape.place_concat (Nat.le_of_lt hi)]
      exact hfits i r' hr'
    have houtcome : r.Outcome fn vs (taken rs vs.length) _ := r.outcome (Shape.place_le rs.length)
    rw [read_of_none]
    generalize Mapper.reading fetch r ⟨fn, taken rs vs.length, vs.drop (taken rs vs.length)⟩ = x at houtcome
    cases houtcome with
    | ok hr =>
      dsimp only
      rw [← Shape.taken_concat, ← Shape.results_concat]
      refine .fits fun j r' hr' => ?_
      rcases Nat.lt_or_ge j rs.length with hlt | hge
      · exact hbefore j r' hlt hr'
      · obtain ⟨hlength, _⟩ := List.getElem?_eq_some_iff.1 hr'
        rw [List.length_append, List.length_singleton] at hlength
        obtain rfl : j = rs.length := Nat.le_antisymm (Nat.le_of_lt_succ hlength) hge
        rw [hplace, ← Option.some.inj (hlast.symm.trans hr')]
        exact hr
    | error hmisfit hle =>
      refine .fails rfl ⟨⟨r, hlast, ?_⟩, hbefore⟩
      rw [hplace]
      exact ⟨hmisfit, hle⟩

theorem Follows.complete (h : Follows fn vs rs s) :
    (s.complete fetch = (.ok (Shape.results rs vs), s) ∧ Fits rs vs) ∨
      ∃ p problem t, s.complete fetch = (.error (.argument fn p problem), t) ∧ Leftmost rs vs p problem ∧
        t.err = some (.argument fn p problem) := by
  cases h with
  | fails herr hfails =>
    exact .inr ⟨_, _, s, complete_of_err fetch herr, hfails.leftmost, herr⟩
  | fits hfits =>
    rcases Nat.lt_or_ge (taken rs vs.length) vs.length with hlt | hge
    · rw [List.drop_eq_getElem_cons hlt]
      refine .inr ⟨_, _, _, rfl, ⟨rs.length, .surplus (Nat.le_refl _) hlt, ?_⟩, rfl⟩
      rintro j q problem (⟨hr, hmisfit⟩ | ⟨htaken, _⟩)
      · exact absurd hmisfit (Read.fits_iff.1 (hfits j _ hr) q problem)
      · exact ⟨Nat.le_refl _, htaken⟩
    · rw [List.drop_of_length_le hge]
      exact .inl ⟨rfl, hfits, Nat.le_antisymm (Shape.place_le _) hge⟩

theorem Follows.of_none (h : Follows fn vs rs s) (hnone : s.err = none) :
    s.args = ⟨fn, taken rs vs.length, vs.drop (taken rs vs.length)⟩ ∧ s.results = Shape.results rs vs := by
  cases h with
  | fits _ => exact ⟨rfl, rfl⟩
  | fails herr _ =>
    rw [herr] at hnone
    cases hnone

/-- **A run keeps to the shape of its reads**, unless it has failed to complete. -/
theorem Follows.run : ∀ (steps : List Step) {rs : Shape} {s : Mapper Value}, Follows fn vs rs s →
    Follows fn vs (rs ++ reads steps) (Mapper.run fetch steps s).2 ∨
      ∃ e, (Mapper.run fetch steps s).2.err = some e ∧ .error e ∈ (Mapper.run fetch steps s).1
  | [], rs, s, h => by
    rw [reads, List.append_nil]
    exact .inl h
  | .read r :: steps, rs, s, h => by
    have hrun := (h.read r).run steps
    rw [List.append_assoc] at hrun
    exact hrun
  | .complete :: steps, rs, s, h => by
    obtain ⟨hok, _⟩ | ⟨p, problem, t, herror, _, herr⟩ := h.complete
    · obtain hfollows | ⟨e, herr, he⟩ := h.run steps
      · left
        show Follows fn vs _ (Mapper.run fetch steps (s.complete fetch).2).2
        rw [hok]
        exact hfollows
      · right
        show ∃ e, (Mapper.run fetch steps (s.complete fetch).2).2.err = some e ∧
          .error e ∈ (s.complete fetch).1 :: (Mapper.run fetch steps (s.complete fetch).2).1
        rw [hok]
        exact ⟨e, herr, .tail _ he⟩
    · right
      show ∃ e, (Mapper.run fetch steps (s.complete fetch).2).2.err = some e ∧
        .error e ∈ (s.complete fetch).1 :: (Mapper.run fetch steps (s.complete fetch).2).1
      rw [herror, run_of_err fetch herr]
      exact ⟨_, herr, .head _⟩

/-- **A mapper reports the leftmost error and nothing else.**  While no failure is recorded, its reads have taken the
arguments in order.  Unless it has failed to complete before, `complete` answers with one result a read if the
arguments fit the reads so far, and if they do not, with the first position where they do not.  A recorded failure stays
what it is, nothing is taken any more, and every later `complete` answers with it. -/
theorem complete_leftmost (fn : String) (vs : List Value) (steps : List Step) :
    ∃ answers s, run fetch steps (ofArguments fn vs) = (answers, s) ∧
      (s.err = none → s.args = ⟨fn, taken (reads steps) vs.length, vs.drop (taken (reads steps) vs.length)⟩ ∧
        s.results = Shape.results (reads steps) vs) ∧
      ((∀ answer ∈ answers, ∃ results, answer = .ok results) →
        (Fits (reads steps) vs ∧ s.complete fetch = (.ok (Shape.results (reads steps) vs), s)) ∨
          (¬Fits (reads steps) vs ∧ ∃ p problem t, Leftmost (reads steps) vs p problem ∧
            s.complete fetch = (.error (.argument fn p problem), t) ∧ t.err = some (.argument fn p problem))) ∧
      ∀ e, s.err = some e → ∀ later, run fetch later s = (List.replicate (later.count .complete) (.error e), s) := by
  have hstart : Follows fn vs [] (ofArguments fn vs) := follows_start
  have hrun := hstart.run steps
  rw [List.nil_append] at hrun
  refine ⟨_, _, rfl, fun hnone => ?_, fun hok => ?_, fun e herr later => run_of_err fetch herr later⟩
  · obtain hfollows | ⟨e, herr, _⟩ := hrun
    · exact hfollows.of_none hnone
    · rw [herr] at hnone
      cases hnone
  · obtain hfollows | ⟨e, _, he⟩ := hrun
    · obtain ⟨hcomplete, hfits⟩ | ⟨p, problem, t, hcomplete, hleftmost, herr⟩ := hfollows.complete
      · exact .inl ⟨hfits, hcomplete⟩
      · exact .inr ⟨hleftmost.not_fits, p, problem, t, hleftmost, hcomplete, herr⟩
    · obtain ⟨results, hresults⟩ := hok _ he
      cases hresults

/-- An optional argument and booleans: the third argument is the first that is none, and a read behind it changes
nothing about that. -/
theorem complete_leftmost_nil :
    ∃ t, Leftmost [.optional, .rest (some .bool), .one none] [.string "s", .bool true, .nil] 2 (.mismatch "bool" .nil) ∧
      (run fetch [.read .optional, .read (.rest (some .bool)), .read (.one none)]
        (ofArguments "f" [.string "s", .bool true, .nil])).2.complete fetch =
          (.error (.argument "f" 2 (.mismatch "bool" .nil)), t) ∧
      t.err = some (.argument "f" 2 (.mismatch "bool" .nil)) := by
  obtain ⟨_, _, hrun, _, hcomplete, _⟩ := complete_leftmost "f" [.string "s", .bool true, .nil]
    [.read .optional, .read (.rest (some .bool)), .read (.one none)]
  cases hrun
  obtain ⟨_, hok⟩ | ⟨_, p, problem, t, hleftmost, herror, herr⟩ := hcomplete fun _ h => nomatch h
  · cases hok
  · cases herror
    exact ⟨_, hleftmost, rfl, herr⟩

end Mapper

end MiniLisp
