import TypstFormat.Proofs.Grammar.Document
import TypstFormat.Proofs.Tree.Position
import Mathlib.Data.List.Nodup

/-!
# Diagnostics and the tokens of the tree

The scanner reads the same characters many times, and what it finds on the way may be given up
again. In the end its diagnostics are those of the tokens of the tree: each flawed token has one,
with the range of the token, and there are no others.

## Key results

- `parse_lexical_diagnostics`: the diagnostics of characters and the flawed tokens belong together,
  one to one
-/

namespace TypstFormat

/-- Something is wrong with the characters of a token of a source: it is no token of its language,
or it has to have an end, stands at the end of the source, and is not closed when it is read by
itself. -/
def Element.IsFlawed (source : List Char) (t : Element) : Prop :=
  t.kind = .error ∨
    (t.kind = .str ∨ t.kind = .raw ∨ t.kind = .blockComment) ∧ t.stop = source.length ∧
      isUnterminated (t.textIn source) = true

/-- A token is flawed if the piece of the source is that it stands at. -/
private theorem isFlawed_iff {source : List Char} {t : Element} {piece : Trivia}
    (h : piece.sight source = t.sight source) :
    piece.isFlawed source = true ↔ t.IsFlawed source := by
  obtain ⟨hkind, hrest⟩ := Prod.mk.inj h
  obtain ⟨hrange, htext⟩ := Prod.mk.inj hrest
  have hstop : piece.range.stop = t.stop := by
    rw [hrange]
    rfl
  simp [Trivia.isFlawed, Element.IsFlawed, hkind, hstop, htext, and_assoc]

/-- The diagnostics of characters, and the flawed tokens of the tree, belong together one to one:
the range of each diagnostic is that of one token, no two diagnostics have the same range, and a
token has one if and only if it is flawed. -/
theorem parse_lexical_diagnostics (source : List Char) (mode : Mode) :
    ∃ parsed, parse source mode = .ok parsed ∧
      let tokens := (Element.root parsed.tree).tokens
      let lexical := parsed.diagnostics.filter (·.isLexical)
      (∀ d ∈ lexical, ∃! t, t ∈ tokens ∧ t.range = d.range) ∧
      (lexical.map (·.range)).Nodup ∧
      ∀ t ∈ tokens, (∃ d ∈ lexical, d.range = t.range) ↔ t.IsFlawed source := by
  obtain ⟨parsed, drafts, hparse, hsource, _, hbuilt⟩ := parse_eq_ok source mode
  obtain ⟨trees, htree, _⟩ := hbuilt.tree_eq
  obtain ⟨pieces, hspells, hperm⟩ := hbuilt.flaws
  rw [hsource, htree] at hspells
  rw [hsource] at hperm
  -- The tokens are seen where the pieces are, and so no two of them at the same place.
  have htokens := hspells.map_tokens
  rw [← htree] at htokens
  have hnodup := hspells.tile.nodup_ranges
  have hranges : (Element.root parsed.tree).tokens.map (·.range) = pieces.map (·.range) := by
    have := congrArg (List.map (·.2.1)) htokens
    rw [List.map_map, List.map_map] at this
    exact this
  have hflawed (range : Text.Range) :
      (∃ d ∈ parsed.diagnostics.filter (·.isLexical), d.range = range) ↔
        ∃ piece ∈ pieces, piece.isFlawed source = true ∧ piece.range = range := by
    have := hperm.mem_iff (a := range)
    simpa only [List.mem_map, List.mem_filter, and_assoc] using this
  refine ⟨parsed, hparse, ?_, ?_, ?_⟩
  · intro d hd
    obtain ⟨piece, hpiece, _, hrange⟩ := (hflawed d.range).1 ⟨d, hd, rfl⟩
    have hmem : d.range ∈ (Element.root parsed.tree).tokens.map (·.range) := by
      rw [hranges, ← hrange]
      exact List.mem_map_of_mem hpiece
    obtain ⟨t, ht, htrange⟩ := List.mem_map.1 hmem
    refine ⟨t, ⟨ht, htrange⟩, fun other ⟨hother, heq⟩ => ?_⟩
    exact List.inj_on_of_nodup_map (hranges ▸ hnodup) hother ht (heq.trans htrange.symm)
  · exact hperm.nodup_iff.2 ((List.filter_sublist.map _).nodup hnodup)
  · intro t ht
    have hmem : t.sight source ∈ pieces.map (Trivia.sight source) := by
      rw [← htokens]
      exact List.mem_map_of_mem ht
    obtain ⟨own, hown, hsight⟩ := List.mem_map.1 hmem
    have hrange : own.range = t.range := congrArg (·.2.1) hsight
    rw [hflawed, ← isFlawed_iff hsight]
    refine ⟨fun ⟨piece, hpiece, hbad, heq⟩ => ?_, fun hbad => ⟨own, hown, hbad, hrange⟩⟩
    -- The piece with that range is the one that the token stands at.
    obtain rfl := List.inj_on_of_nodup_map hnodup hpiece hown (heq.trans hrange.symm)
    exact hbad

end TypstFormat
