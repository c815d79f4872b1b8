import TypstFormat.Proofs.Grammar.Document
import TypstFormat.Proofs.Layout.Arguments

/-!
# Formatting loses nothing

The layout of a sound tree holds the marks of the tree, by induction on the tree. A source without
diagnostics has a sound tree, so all that formatting changes in it are white space and the commas
behind last arguments. A source with diagnostics is left alone.

The one way for formatting to fail is an indentation that is wider than any text can be.

## Key results

- `Layout.tree_writes`: a tree is written with all its marks
- `format_eq_run`, `format_eq_source`: what formatting a source comes down to
- `format_relaid_or_wide`: formatting returns, and the result is a layout of the source
- `format_wide_indent`: an indentation can be too wide
- `format_twice_ne`: formatting is not idempotent
-/

namespace TypstFormat

open Render

namespace Layout

/-! ## Trees -/

theorem joined_writes {trees : List Tree} {fragments : List (List Char)}
    (h : List.Forall₂ (fun tree fragment => Laid tree.marks fragment) trees fragments) :
    Writes (joined fragments) (Laid (Tree.marksAll trees)) := by
  induction h with
  | nil => exact .pure .nil
  | cons hfirst _ ih =>
    apply Writes.bind reset_writes
    intro _ _
    apply Writes.bind ih
    intro rest hrest
    exact .pure (hfirst.append hrest)

mutual

theorem tree_writes (source : List Char) (start : Nat) :
    (t : Tree) → t.Sound → Writes (tree source start t) (Laid t.marks)
  | .token kind text, h => by
    unfold tree Tree.marks
    split
    · exact (space_writes (h.1 rfl)).mono fun _ hblank => .of_blanks hblank
    · exact (parbreak_writes text).mono fun _ hblank => .of_blanks hblank
    · rename_i hspace hparbreak
      -- All other tokens count, and are written as they are.
      have hsolid : ¬kind.isSpace = true := by
        intro hkind
        unfold Kind.isSpace at hkind
        split at hkind
        · exact hspace rfl
        · exact hparbreak rfl
        · cases hkind
      rw [if_neg hsolid]
      exact .pure (.singleton text)
  | .node kind children, ⟨hnode, hargs, hchildren⟩ => by
    unfold tree Tree.marks
    apply Writes.bind (trees_writes source start children hchildren)
    intro fragments hlaid
    split
    · -- The children of a sound list close it, which both layouts rely on.
      rw [if_pos rfl]
      exact arguments_writes hchildren.mem (hargs rfl).closes hlaid start
    · cases hnode
    · rename_i hkind _
      rw [if_neg hkind]
      exact joined_writes hlaid

theorem trees_writes (source : List Char) (start : Nat) :
    (ts : List Tree) → Tree.SoundAll ts → Writes (trees source start ts)
      (List.Forall₂ (fun t fragment => Laid t.marks fragment) ts)
  | [], _ => .pure .nil
  | child :: children, ⟨hchild, hchildren⟩ => by
    apply Writes.bind (tree_writes source start child hchild)
    intro fragment hfragment
    apply Writes.bind reset_writes
    intro _ _
    apply Writes.bind (trees_writes source (start + child.length) children hchildren)
    intro fragments hfragments
    exact .pure (.cons hfragment hfragments)

end

end Layout

/-! ## Sources -/

/-- Without diagnostics, a tree is sound. -/
theorem Parsed.BuiltOf.sound_tree {parsed : Parsed} {drafts : List Draft}
    (h : parsed.BuiltOf drafts) (hclean : parsed.diagnostics = []) : parsed.tree.Sound := by
  obtain ⟨trees, htree, hgrown, _⟩ := h.tree_eq
  rw [htree]
  have hroot : parsed.mode.rootKind.isNode = true ∧ parsed.mode.rootKind ≠ .args := by
    cases parsed.mode <;> decide
  have hsound := (h.sound hclean).2
  exact ⟨hroot.1, fun hargs => absurd hargs hroot.2, hgrown.soundAll h.proper hsound⟩

/-- Diagnostics of a source are errors. -/
theorem Parsed.BuiltOf.hasErrors_iff {parsed : Parsed} {drafts : List Draft}
    (h : parsed.BuiltOf drafts) : parsed.hasErrors = true ↔ parsed.diagnostics ≠ [] := by
  unfold Parsed.hasErrors Diagnostic.hasErrors
  rw [List.any_eq_true]
  constructor
  · rintro ⟨d, hd, _⟩ hnil
    rw [hnil] at hd
    cases hd
  · intro hne
    obtain ⟨d, hd⟩ := List.exists_mem_of_ne_nil _ hne
    exact ⟨d, hd, by simpa using (h.fits d hd).severity⟩

section Format

variable {source : List Char} {mode : Mode} {parsed : Parsed} {drafts : List Draft}

theorem format_of_parse (hparse : parse source mode = .ok parsed) (options : Options) :
    format source options mode = (parsed.format options).mapError .layout := by
  unfold format
  rw [hparse]
  rfl

/-- A source with diagnostics is left alone. -/
theorem format_eq_source (hparse : parse source mode = .ok parsed) (h : parsed.BuiltOf drafts)
    (hne : parsed.diagnostics ≠ []) (options : Options) : format source options mode =
      .ok { parsed, text := parsed.source, notices := [.skipped parsed.diagnostics.length] } := by
  rw [format_of_parse hparse]
  unfold Parsed.format
  rw [if_pos (h.hasErrors_iff.2 hne)]
  rfl

/-- A source without diagnostics is formatted as its tree is written. -/
theorem format_eq_run (hparse : parse source mode = .ok parsed) (h : parsed.BuiltOf drafts)
    (hclean : parsed.diagnostics = []) (options : Options) : format source options mode =
      match (Layout.tree parsed.source 0 parsed.tree).run { options } with
      | .ok (text, context) => .ok { parsed, text, notices := context.notices }
      | .error error => .error (.layout error) := by
  rw [format_of_parse hparse]
  unfold Parsed.format Layout.document
  rw [if_neg fun herrors => h.hasErrors_iff.1 herrors hclean]
  cases (Layout.tree parsed.source 0 parsed.tree).run { options } <;> rfl

end Format

/-- Formatting returns. A source with diagnostics is left alone; otherwise the result holds the same
tokens in the same order, with nothing but white space in between and at most one comma, which
stands between arguments, and only the comma behind the last argument may come or go. The one
exception are indentations so wide that no text can hold them. -/
theorem format_relaid_or_wide (source : List Char) (options : Options) (mode : Mode) :
    ∃ parsed, parse source mode = .ok parsed ∧
      ((∃ formatted, format source options mode = .ok formatted ∧
          (parsed.diagnostics ≠ [] → formatted.text = source) ∧
          (parsed.diagnostics = [] → parsed.tree.Relaid source formatted.text)) ∨
        (maxTextLength < options.indentWidth ∧ parsed.diagnostics = [] ∧
          format source options mode = .error (.layout .wideIndent))) := by
  obtain ⟨parsed, drafts, hparse, hsource, hmode, hbuilt⟩ := parse_eq_ok source mode
  refine ⟨parsed, hparse, ?_⟩
  have hformat : format source options mode = (parsed.format options).mapError .layout := by
    unfold format
    rw [hparse]
    rfl
  rw [hformat]
  unfold Parsed.format
  by_cases hclean : parsed.diagnostics = []
  · have herrors : ¬parsed.hasErrors = true := fun herrors => hbuilt.hasErrors_iff.1 herrors hclean
    have hsound := hbuilt.sound_tree hclean
    rw [if_neg herrors]
    rcases Layout.tree_writes parsed.source 0 parsed.tree hsound { options } with
      ⟨text, context, hrun, _, hlaid⟩ | ⟨hwide, hrun⟩
    · left
      have hdocument : Layout.document parsed.source parsed.tree options =
          .ok (text, context.notices) := by
        unfold Layout.document
        rw [hrun]
        rfl
      rw [hdocument]
      refine ⟨_, rfl, fun hne => absurd hclean hne, fun _ => ⟨?_, hlaid, ?_⟩⟩
      · -- The source is the text of its tree, and so a layout of it.
        obtain ⟨trees, htree, _, htext⟩ := hbuilt.tree_eq
        have hroot : parsed.tree.text = source := by
          rw [htree, ← hsource]
          exact htext
        rw [← hroot]
        exact Tree.laid_text parsed.tree hsound
      · exact Tree.sparse_marks hsound
    · right
      have hdocument : Layout.document parsed.source parsed.tree options = .error .wideIndent := by
        unfold Layout.document
        rw [hrun]
        rfl
      rw [hdocument]
      exact ⟨hwide, hclean, rfl⟩
  · -- A diagnostic is an error, and a source with errors is given back.
    left
    rw [if_pos (hbuilt.hasErrors_iff.2 hclean)]
    exact ⟨_, rfl, fun _ => hsource, fun hnil => absurd hnil hclean⟩

/-! ## What can go wrong -/

/-- The error of a result, if it is one. -/
def error? {ε α : Type} : Except ε α → Option ε
  | .error error => some error
  | .ok _ => none

theorem eq_error {ε α : Type} {result : Except ε α} {error : ε}
    (h : error? result = some error) : result = .error error := by
  cases result with
  | error => exact congrArg Except.error (Option.some.inj h)
  | ok => cases h

/-- A list with a line comment is always broken, and then needs its indentation. -/
theorem format_wide_indent :
    format ['#', 'f', '(', '/', '/', ' ', 'c', '\n', ')'] { indentWidth := 9223372036854775808 }
        .markup =
      .error (.layout .wideIndent) := by
  apply eq_error
  decide +kernel

/-- Formatting twice may change more than formatting once. A comma that is left out takes the reason
away for which the space in front of it was kept. -/
theorem format_twice_ne :
    (format ['#', 'f', '(', 'a', ' ', '/', '*', ' ', 'c', ' ', '*', '/', ' ', ',', ')']
        ).toOption.map (·.text) =
      some ['#', 'f', '(', 'a', ' ', '/', '*', ' ', 'c', ' ', '*', '/', ' ', ')'] ∧
    (format ['#', 'f', '(', 'a', ' ', '/', '*', ' ', 'c', ' ', '*', '/', ' ', ')']
        ).toOption.map (·.text) =
      some ['#', 'f', '(', 'a', ' ', '/', '*', ' ', 'c', ' ', '*', '/', ')'] := by
  decide +kernel

end TypstFormat
