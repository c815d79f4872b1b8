import TypstFormat.Proofs.Grammar.Placement

/-!
# Operators are grouped by precedence

An operand that is itself an operator with its operands binds as tightly as its place asks for: what
stands in front of an operator that groups to the left may bind equally tightly, what stands behind
it has to bind more tightly, and for assignments, which group to the right, it is the other way
round. The grammar sees to that while it climbs (`Draft.IsBinary`, `Draft.IsUnary`), and the trivia
that is put in between changes neither operators nor operands.

## Key results

- `Grown.map_precedence?`: trees have the precedences of the drafts they have grown out of
- `parse_operators_grouped`: without diagnostics all operands bind as tightly as they have to
-/

namespace TypstFormat

namespace Tree

/-- The precedence of the operator of a tree that has two operands. -/
def precedence? : Tree → Option Nat
  | node .binary children => operatorPrecedence? (children.map kind)
  | _ => none

/-- Two operands of an operator bind as tightly as its precedence asks for. -/
structure OperandsBind (precedence : Nat) (children : List Tree) : Prop where
  operator : operatorPrecedence? (children.map kind) = some precedence
  first : ∀ left ∈ children.head?, ∀ own ∈ left.precedence?,
    (1 < precedence → precedence ≤ own) ∧ (precedence = 1 → precedence < own)
  last : ∀ right ∈ children.getLast?, ∀ own ∈ right.precedence?,
    (1 < precedence → precedence < own) ∧ (precedence = 1 → precedence ≤ own)

/-- The operand behind an operator binds at least as tightly as the operator. -/
structure OperandBinds (precedence : Nat) (children : List Tree) : Prop where
  operator : prefixPrecedence? (children.map kind) = some precedence
  operand : ∃ operator operand, children.filter (!·.kind.isTrivia) = [operator, operand] ∧
    children.getLast? = some operand ∧ ∀ own ∈ operand.precedence?, precedence ≤ own

end Tree

/-- Operators are ranked from 1 on. -/
theorem wordsPrecedence?_pos {words : List Kind} {precedence : Nat}
    (h : wordsPrecedence? words = some precedence) : 1 ≤ precedence := by
  unfold wordsPrecedence? at h
  split at h
  · cases h
    decide
  · unfold Grammar.binaryPrecedence? at h
    split at h <;> cases h <;> decide
  · cases h

/-- Trees that start and end with what counts do so without trivia as well. -/
theorem SameEnds.ends_filter {drafts : List Draft} {trees : List Tree} (h : SameEnds drafts trees)
    (htrimmed : Kind.Trimmed (Draft.kinds drafts)) :
    (trees.filter (!·.kind.isTrivia)).head? = trees.head? ∧
      (trees.filter (!·.kind.isTrivia)).getLast? = trees.getLast? := by
  obtain ⟨hhead, hlast⟩ := h.trimmed htrimmed
  constructor
  · cases trees with
    | nil => rfl
    | cons tree trees => rw [List.filter_cons_of_pos (by simp [hhead tree.kind rfl])]; rfl
  · rcases List.eq_nil_or_concat trees with rfl | ⟨before, tree, rfl⟩
    · rfl
    · have hkind := hlast tree.kind (by simp)
      rw [List.concat_eq_append, List.filter_append, List.filter_cons_of_pos (by simp [hkind]),
        List.filter_nil, List.getLast?_concat, List.getLast?_concat]

namespace Grown

variable {source : List Char} {drafts : List Draft} {trees : List Tree}

/-- Trivia does not count. -/
theorem filter_isTrivia_eq (h : Grown source drafts trees) :
    (trees.map Tree.kind).filter (!·.isTrivia) = (Draft.kinds drafts).filter (!·.isTrivia) :=
  h.filter_kinds_eq fun _ _ htrivia => by simp [htrivia]

theorem operatorPrecedence?_eq (h : Grown source drafts trees) :
    operatorPrecedence? (trees.map Tree.kind) = operatorPrecedence? (Draft.kinds drafts) := by
  rw [operatorPrecedence?, h.filter_isTrivia_eq]
  rfl

theorem prefixPrecedence?_eq (h : Grown source drafts trees) :
    prefixPrecedence? (trees.map Tree.kind) = prefixPrecedence? (Draft.kinds drafts) := by
  rw [prefixPrecedence?, h.filter_isTrivia_eq]
  rfl

/-- Trivia aside, trees have the precedences of the drafts they have grown out of. -/
theorem map_precedence? (h : Grown source drafts trees)
    (hplain : ∀ kind ∈ Draft.kinds drafts, kind.isTrivia = false) :
    (trees.filter (!·.kind.isTrivia)).map Tree.precedence? =
      (Draft.present drafts).map Draft.precedence? := by
  induction h with
  | nil => rfl
  | trivia _ _ htrivia _ ih =>
    rw [List.filter_cons_of_neg (by simp [Tree.kind, htrivia])]
    exact ih hplain
  | @token _ _ look asText _ _ ih =>
    rw [Draft.kinds_token] at hplain
    obtain ⟨hkind, hplain⟩ := List.forall_mem_cons.1 hplain
    rw [List.filter_cons_of_pos (by simp [Tree.kind, hkind])]
    exact congrArg (none :: ·) (ih hplain)
  | void _ ih => exact ih hplain
  | @node _ inner _ children kind _ _ hinner _ _ ih =>
    rw [Draft.kinds_node] at hplain
    obtain ⟨hkind, hplain⟩ := List.forall_mem_cons.1 hplain
    rw [List.filter_cons_of_pos (by simp [Tree.kind, hkind])]
    refine congrArg₂ List.cons ?_ (ih hplain)
    by_cases hbinary : kind = .binary
    · rw [hbinary]
      exact hinner.operatorPrecedence?_eq
    · simp [Tree.precedence?, Draft.precedence?, hbinary]

/-- The children of a node that groups two operands around an operator. -/
theorem operandsBind (h : Grown source drafts trees) (hends : SameEnds drafts trees)
    (hbinary : Draft.IsBinary drafts) : ∃ precedence, Tree.OperandsBind precedence trees := by
  obtain ⟨left, operator, right, precedence, hpresent, hoperator, hleft, hright⟩ := hbinary.parts
  have hpos := wordsPrecedence?_pos hoperator
  have hmap := h.map_precedence? hbinary.plain
  rw [hpresent, List.map_cons, List.map_append] at hmap
  obtain ⟨hhead, hlast⟩ := hends.ends_filter (.of_all hbinary.plain)
  refine ⟨precedence, h.operatorPrecedence?_eq.trans hoperator, fun tree htree own hown => ?_,
    fun tree htree own hown => ?_⟩
  · have heq := congrArg List.head? hmap
    rw [List.head?_map, hhead, htree] at heq
    have hbound := hleft own ((Option.some.inj heq).symm.trans hown)
    rw [Grammar.rightPrecedence] at hbound
    split at hbound <;> omega
  · have heq := congrArg List.getLast? hmap
    rw [List.getLast?_map, hlast, htree, ← List.cons_append, List.map_singleton,
      List.getLast?_concat] at heq
    have hbound := hright own ((Option.some.inj heq).symm.trans hown)
    rw [Grammar.rightPrecedence] at hbound
    split at hbound <;> omega

/-- The children of a node with an operator in front of its operand. -/
theorem operandBinds (h : Grown source drafts trees) (hends : SameEnds drafts trees)
    (hunary : Draft.IsUnary drafts) : ∃ precedence, Tree.OperandBinds precedence trees := by
  obtain ⟨operator, operand, precedence, hpresent, hoperator, hbound⟩ := hunary.parts
  have hmap := h.map_precedence? hunary.plain
  rw [hpresent] at hmap
  obtain ⟨-, hlast⟩ := hends.ends_filter (.of_all hunary.plain)
  refine ⟨precedence, h.prefixPrecedence?_eq.trans hoperator, ?_⟩
  -- What is left of the trees is an operator and an operand as well.
  obtain ⟨first, second, hfilter⟩ := List.length_eq_two.1 (by simpa using congrArg List.length hmap)
  rw [hfilter] at hmap hlast
  refine ⟨first, second, hfilter, hlast.symm, fun own hown => hbound own ?_⟩
  have heq : second.precedence? = operand.precedence? := (List.cons.inj (List.cons.inj hmap).2).1
  exact heq.symm.trans hown

end Grown

/-- Without diagnostics, operators with two operands and operators in front of one are grouped by
their precedences. -/
theorem parse_operators_grouped (source : List Char) (mode : Mode) :
    ∃ parsed, parse source mode = .ok parsed ∧ (parsed.diagnostics = [] →
      ∀ node ∈ parsed.tree.nodes,
        (node.1 = .binary → ∃ precedence, Tree.OperandsBind precedence node.2) ∧
        (node.1 = .unary → ∃ precedence, Tree.OperandBinds precedence node.2)) := by
  obtain ⟨parsed, drafts, hparse, _, _, hbuilt⟩ := parse_eq_ok source mode
  refine ⟨parsed, hparse, fun hclean => ?_⟩
  obtain ⟨trees, htree, hgrown, _⟩ := hbuilt.tree_eq
  rw [htree]
  intro node hnode
  rcases List.mem_cons.1 hnode with rfl | hnode
  · -- The root is neither.
    constructor <;> intro hkind <;> cases hmode : parsed.mode <;> rw [hmode] at hkind <;>
      cases hkind
  · obtain ⟨inner, hmem, hends, hgrown⟩ := hgrown.exists_draft node hnode
    have hformed := Draft.formed_of_mem_nodesAll drafts (hbuilt.sound hclean).2 hmem
    constructor <;> intro hkind <;> rw [hkind] at hformed
    · exact hgrown.operandsBind hends hformed.shape
    · exact hgrown.operandBinds hends hformed.shape

end TypstFormat
