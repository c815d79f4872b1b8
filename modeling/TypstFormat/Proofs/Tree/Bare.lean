import TypstFormat.Proofs.Tree.Gaps

/-!
# Trees without trivia

What is left of a tree without the white space and the comments that stand outside of markup. In
markup they are text, which is kept. Nothing is left of the gaps of a tree.

## Key results

- `Tree.bare`: a tree without trivia outside of markup
- `IsGap.bareAll_eq_nil`: nothing is left of a gap
-/

namespace TypstFormat

namespace Tree

mutual

/-- A tree without the white space and the comments that stand outside of markup. -/
def bare : Tree → List Tree
  | .token kind text =>
    if kind ∈ [Kind.space, .lineComment, .blockComment] then [] else [.token kind text]
  | .node kind children => [.node kind (if kind = .markup then children else bareAll children)]

/-- Trees without the white space and the comments that stand outside of markup. -/
def bareAll : List Tree → List Tree
  | [] => []
  | tree :: trees => bare tree ++ bareAll trees

end

@[simp] theorem bareAll_append (trees more : List Tree) :
    bareAll (trees ++ more) = bareAll trees ++ bareAll more := by
  induction trees with
  | nil => rfl
  | cons tree trees ih => rw [List.cons_append, bareAll, bareAll, ih, List.append_assoc]

theorem bare_node {kind : Kind} (h : kind ≠ .markup) (children : List Tree) :
    bare (.node kind children) = [.node kind (bareAll children)] := by
  rw [bare, if_neg h]

/-- White space is dropped in code and kept in markup. -/
example : bare (.node .code [.token .space [' '], .node .markup [.token .space [' ']]]) =
    [.node .code [.node .markup [.token .space [' ']]]] := by
  rfl

end Tree

/-- Nothing is left of a gap. -/
theorem IsGap.bareAll_eq_nil {source : List Char} {next : Look} {toCome : Bool} {gap : List Tree}
    (h : IsGap source next toCome gap) : Tree.bareAll gap = [] := by
  have hkinds := h.kind_mem
  have hnodes := h.isNode_eq_false
  clear h
  induction gap with
  | nil => rfl
  | cons tree gap ih =>
    obtain ⟨hkind, hkinds⟩ := List.forall_mem_cons.1 hkinds
    obtain ⟨hnode, hnodes⟩ := List.forall_mem_cons.1 hnodes
    rw [Tree.bareAll, ih hkinds hnodes, List.append_nil]
    cases tree with
    | token => exact if_pos hkind
    | node => cases hnode

end TypstFormat
