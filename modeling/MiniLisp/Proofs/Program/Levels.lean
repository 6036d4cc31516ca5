import Mathlib.Data.List.GetD
import Mathlib.Data.List.Nodup
import MiniLisp.Proofs.Expr.Nesting
import MiniLisp.Proofs.Program.Readable
/-!
# Levels — an expression of a source lies at one level

The tokens of a source stand at different positions, and every expression that is read from it stands where one of its
tokens does.  So equal expressions that are read from one source are the same part of it, or the branches that an `if`
lacks, and lie inside the bodies of as many `fn` forms (`level_unique`).
-/
namespace MiniLisp

/-! ## Positions of tokens -/

/-- Whatever a text is, it moves the position behind it. -/
theorem Position.behind_append_ne (source : String) (before : List Char) {text : List Char} (h : text ≠ []) :
    Position.behind source (before ++ text) ≠ Position.behind source before := by
  intro he
  rw [Position.behind, Position.behind, Position.mk.injEq] at he
  obtain ⟨-, hrow, hcol⟩ := he
  have hline : ∀ c ∈ text.reverse, decide (c ≠ '\n') = true := by
    intro c hc
    rw [List.count_append] at hrow
    have hnone : text.count '\n' = 0 := by omega
    rw [decide_eq_true_eq]
    rintro rfl
    exact List.count_eq_zero.1 hnone (List.mem_reverse.1 hc)
  rw [List.reverse_append, List.takeWhile_append_of_pos hline, List.length_append, List.length_reverse] at hcol
  have hpos : 0 < text.length := List.length_pos_iff.2 h
  omega

namespace Lexing

variable {source : String} {before rest : List Char} {tokens : List Token}

theorem pos_behind (h : Lexing source before rest tokens) :
    ∀ t ∈ tokens, ∃ text, t.pos = Position.behind source (before ++ text) := by
  induction h with
  | last _ => exact nofun
  | @invalid before gap text rest _ _ => exact List.forall_mem_singleton.2 ⟨gap, rfl⟩
  | @token before gap text rest kind tokens _ _ _ _ ih =>
    refine List.forall_mem_cons.2 ⟨⟨gap, rfl⟩, fun t ht => ?_⟩
    obtain ⟨text', hpos⟩ := ih t ht
    exact ⟨gap ++ (text ++ text'), by rw [hpos, List.append_assoc, List.append_assoc]⟩

/-- **No two tokens stand at one position.** -/
theorem nodup_positions (h : Lexing source before rest tokens) : (tokens.map Token.pos).Nodup := by
  induction h with
  | last _ => exact List.nodup_nil
  | invalid _ _ => exact List.nodup_singleton _
  | @token before gap text rest kind tokens _ hs _ hrest ih =>
    rw [List.map_cons, List.nodup_cons]
    refine ⟨fun hmem => ?_, ih⟩
    obtain ⟨t, ht, hpos⟩ := List.mem_map.1 hmem
    obtain ⟨text', hbehind⟩ := hrest.pos_behind t ht
    have hne : text ++ text' ≠ [] := List.append_ne_nil_of_left_ne_nil hs.text.1 _
    refine Position.behind_append_ne source (before ++ gap) hne ?_
    rw [← List.append_assoc, ← hbehind, hpos]

end Lexing

/-! ## Levels of phrases -/

namespace Phrase

mutual

/-- Where the expressions of a phrase stand, each with the number of `fn` bodies that it is inside of. -/
def nodes (level : Nat) : Phrase → List (Position × Nat)
  | .atom t _ => [(t.pos, level)]
  | .call opening items _ => (opening.pos, level) :: nodesAll level items
  | .cond opening _ parts _ => (opening.pos, level) :: nodesAll level parts
  | .fn opening _ _ _ _ body _ => (opening.pos, level) :: nodesAll (level + 1) body
  | .define opening _ _ value _ => (opening.pos, level) :: nodes level value

def nodesAll (level : Nat) : List Phrase → List (Position × Nat)
  | [] => []
  | p :: ps => nodes level p ++ nodesAll level ps

end

mutual

/-- Expressions stand where tokens do. -/
theorem nodes_sublist : ∀ (level : Nat) (p : Phrase),
    ((nodes level p).map Prod.fst).Sublist (p.tokens.map Token.pos)
  | level, .atom t e => .refl _
  | level, .call opening items closing => by
    simp only [nodes, tokens, List.map_cons, List.map_append]
    exact ((nodesAll_sublist level items).trans (List.sublist_append_left _ _)).cons_cons _
  | level, .cond opening word parts closing => by
    simp only [nodes, tokens, List.map_cons, List.map_append]
    exact (((nodesAll_sublist level parts).trans (List.sublist_append_left _ _)).cons _).cons_cons _
  | level, .fn opening word paramsOpening params paramsClosing body closing => by
    simp only [nodes, tokens, List.map_cons, List.map_append]
    have hbody := (nodesAll_sublist (level + 1) body).trans (List.sublist_append_left _ ([closing].map Token.pos))
    exact ((((hbody.cons _).trans (List.sublist_append_right _ _)).cons _).cons _).cons_cons _
  | level, .define opening word name value closing => by
    simp only [nodes, tokens, List.map_cons, List.map_append]
    exact ((((nodes_sublist level value).trans (List.sublist_append_left _ _)).cons _).cons _).cons_cons _

theorem nodesAll_sublist : ∀ (level : Nat) (ps : List Phrase),
    ((nodesAll level ps).map Prod.fst).Sublist ((tokensAll ps).map Token.pos)
  | level, [] => .slnil
  | level, p :: ps => by
    rw [nodesAll, tokensAll, List.map_append, List.map_append]
    exact (nodes_sublist level p).append (nodesAll_sublist level ps)

end

theorem mem_nodesAll {level : Nat} {node : Position × Nat} {p : Phrase} : ∀ {ps : List Phrase}, p ∈ ps →
    node ∈ p.nodes level → node ∈ nodesAll level ps
  | q :: ps, hp, hnode => by
    rw [nodesAll, List.mem_append]
    rcases List.mem_cons.1 hp with rfl | hp
    · exact .inl hnode
    · exact .inr (mem_nodesAll hp hnode)

theorem Grammatical.mem_nodes {p : Phrase} (h : Grammatical p) (level : Nat) : (p.expr.pos, level) ∈ p.nodes level := by
  cases h with
  | atom ha => exact List.mem_singleton.2 (by rw [expr, ha.pos_eq])
  | call | cond | fn | define => exact List.mem_cons_self

open Expr (Slot)

theorem Grammatical.mem_nodes_of_eq {p : Phrase} (h : Grammatical p) {e : Expr} {level : Nat}
    (he : e.inside [] = p.expr) : (e.pos, level + (([] : List Slot).map Slot.bodies).sum) ∈ p.nodes level := by
  obtain rfl : e = p.expr := he
  exact h.mem_nodes level

theorem not_atom_fill {t : Token} {e : Expr} {s : Slot} : ¬Atom t (s.fill e) := by
  intro h
  cases s <;> cases h

theorem nil_of_inside_nil {e : Expr} {pos : Position} {slots : List Slot} (h : e.inside slots = .nil pos) :
    slots = [] ∧ e = .nil pos := by
  cases slots with
  | nil => exact ⟨rfl, h⟩
  | cons s slots => cases s <;> cases h

/-- **What lies in the expression of a phrase** is one of its nodes. -/
theorem Grammatical.mem_nodes_of_inside {p : Phrase} (h : Grammatical p) :
    ∀ (level : Nat) {slots : List Slot} {e : Expr}, e.inside slots = p.expr →
      (e.pos, level + (slots.map Slot.bodies).sum) ∈ p.nodes level := by
  -- By induction on the phrase; the outermost slot tells which of its parts the expression lies in.
  induction h with
  | @atom t e' ha =>
    intro level slots e he
    cases slots with
    | nil => exact (Grammatical.atom ha).mem_nodes_of_eq he
    | cons s slots =>
      rw [expr] at he
      exact absurd (he ▸ ha) not_atom_fill
  | @call opening closing items ho hc hhead hitems ih =>
    intro level slots e he
    cases slots with
    | nil => exact (Grammatical.call ho hc hhead hitems).mem_nodes_of_eq he
    | cons s slots =>
      cases s with
      | item before after pos =>
        obtain ⟨hexprs, -⟩ := Expr.call.inj he
        obtain ⟨p, hp, hpe⟩ := mem_exprs (hexprs ▸ List.mem_append_right before List.mem_cons_self)
        refine List.mem_cons_of_mem _ (mem_nodesAll hp ?_)
        simpa [Slot.bodies] using ih p hp level hpe.symm
      | _ => cases he
  | @cond opening word closing parts ho hword hc hlow hhigh hparts ih =>
    intro level slots e he
    have hpart : ∀ {slots : List Slot} (i : Nat), e.inside slots = (exprs parts).getD i (.nil opening.pos) →
        (e.pos, level + (slots.map Slot.bodies).sum) ∈ (Phrase.cond opening word parts closing).nodes level := by
      intro slots i hi
      by_cases hlt : i < (exprs parts).length
      · rw [List.getD_eq_getElem _ _ hlt] at hi
        obtain ⟨p, hp, hpe⟩ := mem_exprs (hi ▸ List.getElem_mem hlt)
        exact List.mem_cons_of_mem _ (mem_nodesAll hp (ih p hp level hpe.symm))
      · rw [List.getD_eq_default _ _ (Nat.le_of_not_lt hlt)] at hi
        obtain ⟨rfl, rfl⟩ := nil_of_inside_nil hi
        exact List.mem_cons_self
    cases slots with
    | nil => exact (Grammatical.cond ho hword hc hlow hhigh hparts).mem_nodes_of_eq he
    | cons s slots =>
      rw [List.map_cons, List.sum_cons]
      cases s with
      | condTest yes no pos => exact (Nat.zero_add _).symm ▸ hpart 0 (Expr.cond.inj he).1
      | condYes test no pos => exact (Nat.zero_add _).symm ▸ hpart 1 (Expr.cond.inj he).2.1
      | condNo test yes pos => exact (Nat.zero_add _).symm ▸ hpart 2 (Expr.cond.inj he).2.2.1
      | _ => cases he
  | @fn opening word paramsOpening paramsClosing closing params body ho hword hpo hparams hpc hc hbody ih =>
    intro level slots e he
    cases slots with
    | nil => exact (Grammatical.fn ho hword hpo hparams hpc hc hbody).mem_nodes_of_eq he
    | cons s slots =>
      cases s with
      | body params before after pos =>
        obtain ⟨-, hexprs, -⟩ := Expr.fn.inj he
        obtain ⟨p, hp, hpe⟩ := mem_exprs (hexprs ▸ List.mem_append_right before List.mem_cons_self)
        refine List.mem_cons_of_mem _ (mem_nodesAll hp ?_)
        simpa [Slot.bodies, Nat.add_assoc] using ih p hp (level + 1) hpe.symm
      | _ => cases he
  | @define opening word name closing value ho hword hn hc hv ih =>
    intro level slots e he
    cases slots with
    | nil => exact (Grammatical.define ho hword hn hc hv).mem_nodes_of_eq he
    | cons s slots =>
      cases s with
      | value name namePos pos =>
        obtain ⟨-, -, hvalue, -⟩ := Expr.define.inj he
        refine List.mem_cons_of_mem _ ?_
        simpa [Slot.bodies] using ih level hvalue
      | _ => cases he

end Phrase

/-! ## Levels in a source -/

namespace Program

open Expr (Lies)

variable {limit limit' level level' : Nat} {source text : String} {es es' : List Expr} {e₀ e₁ e : Expr}

/-- A source that is parsed under two limits is parsed to the same. -/
theorem parse_unique (h : parse limit source text = .ok es) (h' : parse limit' source text = .ok es') : es = es' := by
  obtain ⟨qs, hqs, hts, rfl⟩ := exists_phrases_of_parse h
  obtain ⟨qs', hqs', hts', rfl⟩ := exists_phrases_of_parse h'
  rw [Phrase.tokensAll_inj (fun q hq => (hqs q hq).grammatical) (fun q hq => (hqs' q hq).grammatical)
    (hts.trans hts'.symm)]

/-- **The expressions in a source have positions and levels**, one level at each position. -/
theorem exists_nodes_of_parse (h : parse limit source text = .ok es) : ∃ nodes : List (Position × Nat),
    (nodes.map Prod.fst).Nodup ∧ (∀ node ∈ nodes, node.1.source = source) ∧
      ∀ e₀ ∈ es, ∀ level e, Lies level e₀ e → (e.pos, level) ∈ nodes := by
  obtain ⟨tokens, hl, -, pos, hd⟩ := lexing_of_parse h
  obtain ⟨qs, hqs, hts, rfl⟩ := exists_phrases_of_parse h
  obtain rfl : Phrase.tokensAll qs = tokens := by rw [hts, hd]
  have hsub := Phrase.nodesAll_sublist 0 qs
  refine ⟨Phrase.nodesAll 0 qs, hl.nodup_positions.sublist hsub, fun node hnode => ?_, ?_⟩
  · obtain ⟨t, ht, hpos⟩ := List.mem_map.1 (hsub.subset (List.mem_map_of_mem hnode))
    obtain ⟨text', hbehind⟩ := hl.pos_behind t ht
    rw [← hpos, hbehind]
    rfl
  · rintro _ he₀ level e ⟨slots, rfl, rfl⟩
    obtain ⟨q, hq, hqe⟩ := Phrase.mem_exprs he₀
    have hnode := (hqs q hq).grammatical.mem_nodes_of_inside 0 hqe.symm
    rw [Nat.zero_add] at hnode
    exact Phrase.mem_nodesAll hq hnode

/-- An expression in a source carries the name of the source. -/
theorem source_of_lies (h : parse limit source text = .ok es) (he₀ : e₀ ∈ es) (hlies : Lies level e₀ e) :
    e.pos.source = source := by
  obtain ⟨nodes, -, hsource, hnodes⟩ := exists_nodes_of_parse h
  exact hsource _ (hnodes e₀ he₀ level e hlies)

/-- **An expression lies at one level of a source.** -/
theorem level_unique (h : parse limit source text = .ok es) (h' : parse limit' source text = .ok es') (he₀ : e₀ ∈ es)
    (he₁ : e₁ ∈ es') (hlies : Lies level e₀ e) (hlies' : Lies level' e₁ e) : level = level' := by
  obtain rfl := parse_unique h h'
  obtain ⟨nodes, hnodup, -, hnodes⟩ := exists_nodes_of_parse h
  have hnode := hnodes e₀ he₀ level e hlies
  have hnode' := hnodes e₁ he₁ level' e hlies'
  exact congrArg Prod.snd (List.inj_on_of_nodup_map hnodup hnode hnode' rfl)

end Program

end MiniLisp
