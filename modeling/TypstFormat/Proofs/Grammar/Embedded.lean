import TypstFormat.Proofs.Grammar.Origin

/-!
# Embedded code in trees

Code in markup or in math that does not stand between delimiters ends with the line. The drafts that
it was built of are laid out that way (`Draft.LinedAll`), whatever was complained about, and the gaps
between them are those that the drafts allow.

## Key results

- `Parsed.BuiltOf.exists_embedded`: in embedded code, lines may end nowhere
- `parse_embedded_in_line`: no white space of embedded code contains a line break
-/

namespace TypstFormat

open Draft

/-- Nodes of code between which and the markup or math around them there is no node that stands between
delimiters. -/
inductive Tree.Embedded (root : Tree) : Kind → List Tree → Prop where
  | top {parent kind : Kind} {siblings children : List Tree} :
    (parent, siblings) ∈ root.nodes → parent = .markup ∨ parent = .math →
    .node kind children ∈ siblings → kind.isOpen = true → Embedded root kind children
  | inside {parent kind : Kind} {siblings children : List Tree} :
    Embedded root parent siblings → .node kind children ∈ siblings → kind.isOpen = true →
    Embedded root kind children

namespace Breaks

/-- In markup and in math, no line ends in the code that is embedded there. -/
theorem inside_ne_anywhere {breaks : Breaks} {kind : Kind} (hkind : kind = .markup ∨ kind = .math) :
    breaks.inside kind ≠ .anywhere := by
  rcases hkind with rfl | rfl <;> simp [inside]

theorem inside_of_isOpen {breaks : Breaks} {kind : Kind} (hbreaks : breaks ≠ .anywhere)
    (hopen : kind.isOpen = true) : breaks.inside kind = .nowhere := by
  have hkind : kind ≠ .markup ∧ kind ≠ .math := by
    constructor <;> rintro rfl <;> cases hopen
  rw [inside, if_neg hkind.1, if_neg hkind.2, if_pos ⟨hbreaks, hopen⟩]

end Breaks

namespace Parsed

variable {parsed : Parsed} {breaks : Breaks} {offset : Nat} {kind : Kind} {inner : List Draft}
  {children : List Tree}

/-- In a node of code in which lines may end nowhere, they do not. -/
theorem NodeOf.endsLine_eq_false (h : parsed.NodeOf breaks offset kind inner children)
    (hbreaks : breaks ≠ .anywhere) (hopen : kind.isOpen = true) :
    ∀ tree ∈ children, tree.endsLine = false := by
  obtain ⟨_, _, _, _, _, hspaced, hlined, _⟩ := h.spaced
  have hlined := (lined_node.1 hlined).1
  rw [Breaks.inside_of_isOpen hbreaks hopen] at hlined
  exact hspaced.endsLine_eq_false hlined (h.neat.1.solid (.inl hopen))

/-- In the code that is embedded, lines may end nowhere: not where it starts, and not in a node that
stands in such a node. -/
theorem BuiltOf.exists_embedded {drafts : List Draft} (h : parsed.BuiltOf drafts)
    (hembedded : parsed.tree.Embedded kind children) :
    ∃ breaks offset inner, breaks ≠ .anywhere ∧ kind.isOpen = true ∧
      parsed.NodeOf breaks offset kind inner children := by
  induction hembedded with
  | @top parent kind siblings children hnode hparent hmem hopen =>
    obtain ⟨trees, gap, breaks, offset, inner, hsiblings, hgap, hown⟩ := h.exists_nodeOf hnode
    have hmem : .node kind children ∈ trees ++ gap := hsiblings ▸ hmem
    rcases List.mem_append.1 hmem with hmem | hmem
    · obtain ⟨left, right, htrees⟩ := List.append_of_mem hmem
      obtain ⟨_, own, -, hchild⟩ := hown.child htrees
      exact ⟨_, _, own, Breaks.inside_ne_anywhere hparent, hopen, hchild⟩
    · cases hgap.isNode _ hmem
  | inside _ hmem hopen ih =>
    obtain ⟨breaks, offset, inner, hbreaks, hparent, hown⟩ := ih
    obtain ⟨left, right, hsiblings⟩ := List.append_of_mem hmem
    obtain ⟨_, own, -, hchild⟩ := hown.child hsiblings
    refine ⟨_, _, own, ?_, hopen, hchild⟩
    rw [Breaks.inside_of_isOpen hbreaks hparent]
    exact nofun

end Parsed

/-- Embedded code ends with the line: no space right below a node of code that stands in markup or
math without delimiters around it contains a line break, whatever was complained about. -/
theorem parse_embedded_in_line (source : List Char) (mode : Mode) :
    ∃ parsed, parse source mode = .ok parsed ∧
      ∀ kind children, parsed.tree.Embedded kind children →
        ∀ text, .token .space text ∈ children → text.any Text.isLineBreak = false := by
  obtain ⟨parsed, drafts, hparse, _, _, hbuilt⟩ := parse_eq_ok source mode
  refine ⟨parsed, hparse, fun kind children hembedded text hmem => ?_⟩
  obtain ⟨breaks, offset, inner, hbreaks, hopen, hown⟩ := hbuilt.exists_embedded hembedded
  exact hown.endsLine_eq_false hbreaks hopen _ hmem

end TypstFormat
