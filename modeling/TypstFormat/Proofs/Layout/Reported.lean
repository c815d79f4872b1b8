import TypstFormat.Proofs.Grammar.Delimiters
import TypstFormat.Proofs.Layout.Document
import Mathlib.Data.Prod.Lex
import Mathlib.Data.String.Basic

/-!
# Errors are reported

A tree may hold errors: a token that is none of the language, or a node around what the grammar has
skipped. Neither is ever silent, since a diagnostic belongs to each such token, and to skip something
is to complain about it. So a tree without diagnostics holds no errors, and a source whose tree does
is given back as it is.

Diagnostics are about places in the source, and are shown in the order of these places.

## Key results

- `Diagnostic.pairwise_collect`: collected diagnostics are in order
- `Parsed.BuiltOf.diagnostics_ne_nil`: errors in the tree are reported
- `parse_errors_reported`: where diagnostics stand, their order, and what they say of the tree
-/

namespace TypstFormat

namespace Diagnostic

/-- What diagnostics are ordered by: start, end, code and message, one after the other. -/
def key (d : Diagnostic) : Nat ×ₗ Nat ×ₗ String ×ₗ String :=
  toLex (d.range.start, toLex (d.range.stop, toLex (d.code, d.message)))

theorem precedes_iff {a b : Diagnostic} : precedes a b = true ↔ a.key ≤ b.key := by
  have hrange : a.range = b.range ↔
      a.range.start = b.range.start ∧ a.range.stop = b.range.stop := by
    cases a.range
    cases b.range
    simp
  have hlt : a.range < b.range ↔ a.range.start < b.range.start ∨
      (a.range.start = b.range.start ∧ a.range.stop < b.range.stop) := Iff.rfl
  simp only [precedes, key, Prod.Lex.toLex_le_toLex, Bool.or_eq_true, Bool.and_eq_true,
    decide_eq_true_iff, hrange, hlt]
  tauto

/-- Collected diagnostics are in order. -/
theorem pairwise_collect (groups : List (List Diagnostic)) :
    (collect groups).Pairwise fun a b => a.key ≤ b.key := by
  have htrans (a b c : Diagnostic) (hab : precedes a b = true) (hbc : precedes b c = true) :
      precedes a c = true :=
    precedes_iff.2 ((precedes_iff.1 hab).trans (precedes_iff.1 hbc))
  have htotal (a b : Diagnostic) : (precedes a b || precedes b a) = true := by
    rw [Bool.or_eq_true, precedes_iff, precedes_iff]
    exact le_total a.key b.key
  exact (List.pairwise_mergeSort htrans htotal groups.flatten).imp precedes_iff.1

end Diagnostic

/-- Somewhere in a tree is a token that is none of the language, or a node around what was skipped. -/
def Tree.HoldsError (tree : Tree) : Prop :=
  (∃ text, (.error, text) ∈ tree.tokens) ∨ ∃ children, (.errorNode, children) ∈ tree.nodes

namespace Parsed.BuiltOf

variable {parsed : Parsed} {drafts : List Draft}

/-- Every token that is none of the language has a diagnostic. -/
theorem diagnostics_ne_nil_of_token (h : parsed.BuiltOf drafts) {text : List Char}
    (htoken : (.error, text) ∈ parsed.tree.tokens) : parsed.diagnostics ≠ [] := by
  obtain ⟨pieces, hspells, hperm⟩ := h.flaws
  have htokens : (.error, text) ∈ Tree.tokensAll [parsed.tree] :=
    List.mem_append_left _ htoken
  -- The token stands at a piece of the source, which is flawed because of its kind.
  rw [hspells.tokens_eq] at htokens
  obtain ⟨piece, hpiece, heq⟩ := List.mem_map.1 htokens
  have hflawed : piece.isFlawed parsed.source = true := by
    simp [Trivia.isFlawed, (Prod.mk.inj heq).1]
  have hrange := hperm.mem_iff.2 (List.mem_map_of_mem (List.mem_filter.2 ⟨hpiece, hflawed⟩))
  obtain ⟨d, hd, _⟩ := List.mem_map.1 hrange
  exact List.ne_nil_of_mem (List.mem_of_mem_filter hd)

/-- Without diagnostics nothing is skipped. -/
theorem diagnostics_ne_nil_of_node (h : parsed.BuiltOf drafts) {children : List Tree}
    (hnode : (.errorNode, children) ∈ parsed.tree.nodes) : parsed.diagnostics ≠ [] := by
  intro hclean
  obtain ⟨trees, htree, hgrown, _⟩ := h.tree_eq
  rw [htree] at hnode
  rcases List.mem_cons.1 hnode with hroot | hnode
  · have hkind := (Prod.mk.inj hroot).1
    cases hmode : parsed.mode <;> rw [hmode] at hkind <;> cases hkind
  · -- Where nothing was found, no draft has the shape of such a node.
    obtain ⟨inner, hmem, _⟩ := hgrown.exists_draft _ hnode
    exact (Draft.formed_of_mem_nodesAll drafts (h.sound hclean).2 hmem).shape

/-- Errors in the tree are reported. -/
theorem diagnostics_ne_nil (h : parsed.BuiltOf drafts) (herror : parsed.tree.HoldsError) :
    parsed.diagnostics ≠ [] := by
  rcases herror with ⟨text, htoken⟩ | ⟨children, hnode⟩
  · exact h.diagnostics_ne_nil_of_token htoken
  · exact h.diagnostics_ne_nil_of_node hnode

/-- A source with diagnostics is given back as it is. -/
theorem format_eq (h : parsed.BuiltOf drafts) (hne : parsed.diagnostics ≠ []) (options : Options) :
    ∃ formatted, parsed.format options = .ok formatted ∧ formatted.text = parsed.source := by
  unfold Parsed.format
  rw [if_pos (h.hasErrors_iff.2 hne)]
  exact ⟨_, rfl, rfl⟩

end Parsed.BuiltOf

/-- The diagnostics of a source lie in it and are ordered by start, end, code and message. If its
tree holds an error anywhere then there is one, and formatting gives the source back. -/
theorem parse_errors_reported (source : List Char) (mode : Mode) :
    ∃ parsed, parse source mode = .ok parsed ∧
      (∀ d ∈ parsed.diagnostics, d.range.start ≤ d.range.stop ∧ d.range.stop ≤ source.length) ∧
      parsed.diagnostics.Pairwise (fun a b => a.key ≤ b.key) ∧
      (parsed.tree.HoldsError → parsed.diagnostics ≠ [] ∧ ∀ options, ∃ formatted,
        format source options mode = .ok formatted ∧ formatted.text = source) := by
  obtain ⟨parsed, drafts, hparse, hsource, _, hbuilt⟩ := parse_eq_ok source mode
  obtain ⟨_, _, _, p', hread⟩ := parse_readBy hparse
  refine ⟨parsed, hparse, fun d hd => ⟨d.range.start_le_stop, ?_⟩, ?_, fun herror => ?_⟩
  · rw [← hsource]
    exact (hbuilt.fits d hd).stop_le
  · rw [hread.diagnostics_eq]
    exact Diagnostic.pairwise_collect _
  · have hne := hbuilt.diagnostics_ne_nil herror
    refine ⟨hne, fun options => ?_⟩
    obtain ⟨formatted, hformat, htext⟩ := hbuilt.format_eq hne options
    refine ⟨formatted, ?_, htext.trans hsource⟩
    unfold format
    rw [hparse]
    exact congrArg (Except.mapError FormatError.layout) hformat

/-- Trees do hold errors: a question mark is no token of code, and a statement does not start there. -/
example : (parse ['{', '?', ')', '}'] .code).toOption.map (fun parsed =>
    parsed.tree.tokens.any (·.1 = .error) && parsed.tree.nodes.any (·.1 = .errorNode)) =
      some true := by
  decide +kernel

end TypstFormat
