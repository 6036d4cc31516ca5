import Mathlib.Data.List.GetD
import MiniLisp.Proofs.Expr.WellFormed
import MiniLisp.Proofs.Program.Readable
import MiniLisp.Proofs.Token.Below
/-!
# Lower — a program under another one

A phrase with all its positions moved spells the moved tokens, stands for the moved expression, and is a phrase of the
language if it was one.  So a program that is put below another one is parsed to the expressions of the one above and
then its own, in lower rows (`Program.parse_stacked`).
-/
namespace MiniLisp

/-! ## Moved phrases -/

namespace Phrase

variable (f : Position → Position)

mutual

/-- A phrase somewhere else. -/
def mapPos : Phrase → Phrase
  | .atom t e => .atom (t.mapPos f) (e.mapPos f)
  | .call opening items closing => .call (opening.mapPos f) (mapPosAll items) (closing.mapPos f)
  | .cond opening word parts closing => .cond (opening.mapPos f) (word.mapPos f) (mapPosAll parts) (closing.mapPos f)
  | .fn opening word paramsOpening params paramsClosing body closing =>
    .fn (opening.mapPos f) (word.mapPos f) (paramsOpening.mapPos f) (params.map (Token.mapPos f))
      (paramsClosing.mapPos f) (mapPosAll body) (closing.mapPos f)
  | .define opening word name value closing =>
    .define (opening.mapPos f) (word.mapPos f) (name.mapPos f) (mapPos value) (closing.mapPos f)

def mapPosAll : List Phrase → List Phrase
  | [] => []
  | p :: ps => mapPos p :: mapPosAll ps

end

theorem mapPosAll_eq : ∀ ps : List Phrase, mapPosAll f ps = ps.map (mapPos f)
  | [] => rfl
  | p :: ps => by rw [mapPosAll, mapPosAll_eq ps, List.map_cons]

mutual

theorem tokens_mapPos : ∀ p : Phrase, (p.mapPos f).tokens = p.tokens.map (Token.mapPos f)
  | .atom _ _ => rfl
  | .call _ items _ => by simp [mapPos, tokens, tokensAll_mapPosAll items]
  | .cond _ _ parts _ => by simp [mapPos, tokens, tokensAll_mapPosAll parts]
  | .fn _ _ _ _ _ body _ => by simp [mapPos, tokens, tokensAll_mapPosAll body]
  | .define _ _ _ value _ => by simp [mapPos, tokens, tokens_mapPos value]

theorem tokensAll_mapPosAll : ∀ ps : List Phrase, tokensAll (mapPosAll f ps) = (tokensAll ps).map (Token.mapPos f)
  | [] => rfl
  | p :: ps => by rw [mapPosAll, tokensAll, tokensAll, tokens_mapPos p, tokensAll_mapPosAll ps, List.map_append]

end

mutual

theorem depth_mapPos : ∀ p : Phrase, (p.mapPos f).depth = p.depth
  | .atom _ _ => rfl
  | .call _ items _ => by rw [mapPos, depth, depth, depthAll_mapPosAll items]
  | .cond _ _ parts _ => by rw [mapPos, depth, depth, depthAll_mapPosAll parts]
  | .fn _ _ _ _ _ body _ => by rw [mapPos, depth, depth, depthAll_mapPosAll body]
  | .define _ _ _ value _ => by rw [mapPos, depth, depth, depth_mapPos value]

theorem depthAll_mapPosAll : ∀ ps : List Phrase, depthAll (mapPosAll f ps) = depthAll ps
  | [] => rfl
  | p :: ps => by rw [mapPosAll, depthAll, depthAll, depth_mapPos p, depthAll_mapPosAll ps]

end

theorem branches_mapPos (start : Position) (es : List Expr) :
    branches (f start) (Expr.mapPosAll f es) = (branches start es).mapPos f := by
  have hget : ∀ i : Nat, (Expr.mapPosAll f es).getD i (.nil (f start)) = (es.getD i (.nil start)).mapPos f := by
    intro i
    rw [Expr.mapPosAll_eq]
    exact List.getD_map es (Expr.nil start) (Expr.mapPos f)
  unfold branches
  rw [hget, hget, hget, Expr.mapPos]

mutual

theorem expr_mapPos : ∀ p : Phrase, (p.mapPos f).expr = p.expr.mapPos f
  | .atom _ _ => rfl
  | .call opening items _ => by
    rw [mapPos, expr, expr, exprs_mapPosAll items, Expr.mapPos]
    rfl
  | .cond opening _ parts _ => by
    rw [mapPos, expr, expr, exprs_mapPosAll parts]
    exact branches_mapPos f opening.pos (exprs parts)
  | .fn opening _ _ params _ body _ => by
    rw [mapPos, expr, expr, exprs_mapPosAll body, Expr.mapPos, List.map_map]
    rfl
  | .define opening _ name value _ => by
    rw [mapPos, expr, expr, expr_mapPos value, Expr.mapPos]
    rfl

theorem exprs_mapPosAll : ∀ ps : List Phrase, exprs (mapPosAll f ps) = Expr.mapPosAll f (exprs ps)
  | [] => rfl
  | p :: ps => by rw [mapPosAll, exprs, exprs, expr_mapPos p, exprs_mapPosAll ps, Expr.mapPosAll]

end

end Phrase

theorem Atom.mapPos (f : Position → Position) {t : Token} {e : Expr} (h : Atom t e) :
    Atom (t.mapPos f) (e.mapPos f) := by
  cases h with
  | nil => exact .nil
  | true => exact .true
  | false => exact .false
  | ident hn => exact .ident hn
  | operator => exact .operator
  | number hx hf => exact .number hx hf
  | string htext => exact .string htext

namespace Phrase

variable (f : Position → Position)

/-- **A moved phrase belongs to the language** if the phrase does. -/
theorem Grammatical.mapPos {p : Phrase} (h : Grammatical p) : Grammatical (p.mapPos f) := by
  induction h with
  | atom ha => exact .atom (ha.mapPos f)
  | call ho hc hfirst _ ih =>
    refine .call ho hc ?_ ?_
    · rw [tokensAll_mapPosAll, List.head?_map]
      intro u hu
      obtain ⟨t, ht, rfl⟩ := Option.map_eq_some_iff.1 hu
      exact hfirst t ht
    · rw [mapPosAll_eq]
      exact List.forall_mem_map.2 ih
  | cond ho hw hc hone hthree _ ih =>
    rw [Phrase.mapPos, mapPosAll_eq]
    exact .cond ho hw hc (by simpa using hone) (by simpa using hthree) (List.forall_mem_map.2 ih)
  | fn ho hw hpo hparams hpc hc _ ih =>
    rw [Phrase.mapPos, mapPosAll_eq]
    exact .fn ho hw hpo (List.forall_mem_map.2 hparams) hpc hc (List.forall_mem_map.2 ih)
  | define ho hw hn hc _ ih => exact .define ho hw hn hc ih

theorem fits_mapPosAll {n : Nat} {ps : List Phrase} (h : ∀ p ∈ ps, p.Fits n) : ∀ p ∈ mapPosAll f ps, p.Fits n := by
  rw [mapPosAll_eq]
  refine List.forall_mem_map.2 fun p hp => ⟨(h p hp).grammatical.mapPos f, ?_⟩
  rw [depth_mapPos]
  exact (h p hp).depth_le

end Phrase

/-! ## Parsing -/

namespace Program

open Phrase (tokensAll exprs mapPosAll)

/-- **A program below another one is parsed to the expressions of both**, its own in rows that are lower by the rows
above. -/
theorem parse_stacked {limit : Nat} {source s t : String} {es es' : List Expr} (hs : parse limit source s = .ok es)
    (ht : parse limit source t = .ok es') : parse limit source (s ++ "\n" ++ t) =
      .ok (es ++ Expr.mapPosAll (Position.lower (1 + s.toList.count '\n')) es') := by
  obtain ⟨ts, hls, hvalid, pos, hds⟩ := lexing_of_parse hs
  obtain ⟨us, hlt, -, pos', hdt⟩ := lexing_of_parse ht
  obtain ⟨qs, hqs, hts, rfl⟩ := exists_phrases_of_parse hs
  obtain ⟨qs', hqs', hus, rfl⟩ := exists_phrases_of_parse ht
  rw [hds] at hts
  rw [hdt] at hus
  have hnul : '\x00' ∉ (s ++ "\n" ++ t).toList := by
    rw [toList_stacked, List.mem_append, List.mem_cons]
    rintro (h | h | h)
    · exact nul_notMem_of_parse hs h
    · cases h
    · exact nul_notMem_of_parse ht h
  have hbelow := hlt.lower s.toList
  have hlexing := hls.stack hvalid (by simpa using hbelow)
  rw [← toList_stacked] at hlexing
  obtain ⟨pos'', hd, -⟩ := TokenReader.drain_ofText hnul hlexing
  have hfits := List.forall_mem_append.2 ⟨hqs, Phrase.fits_mapPosAll (Position.lower (1 + s.toList.count '\n')) hqs'⟩
  rw [← Phrase.exprs_mapPosAll, ← Phrase.exprs_append]
  refine parse_of_phrases hnul hfits ?_
  rw [Phrase.tokensAll_append, Phrase.tokensAll_mapPosAll, hts, hus, hd]

end Program

end MiniLisp
