import TypstFormat.Proofs.Twin.Respelled

/-!
# Line ends in two forms

A source whose lines end in line feeds has the same tree if they end in a carriage return and a line
feed, up to the line ends in the texts of its tokens, and the same is complained about.

## Key results

- `parse_crlf`: the tree of a source with other line ends
-/

namespace TypstFormat

open Text

/-- A text with a carriage return in front of every line feed. -/
def Text.crlf (text : List Char) : List Char :=
  text.flatMap fun c => if c = '\n' then ['\r', '\n'] else [c]

namespace Patch

/-- A line feed that becomes a carriage return and a line feed, or any character that stays but a
carriage return. -/
def IsLineEnd : Patch → Prop
  | keep c => c ≠ '\r'
  | space old new => old = ['\n'] ∧ new = ['\r', '\n']

theorem IsLineEnd.isTidy {patch : Patch} (h : patch.IsLineEnd) : patch.IsTidy := by
  cases patch with
  | keep c => exact h
  | space old new =>
    obtain ⟨rfl, rfl⟩ := h
    have hspacing : Spacing Mode.markup.isBlank ['\n'] ['\r', '\n'] :=
      ⟨by decide, by decide, List.all_eq_true.1 rfl, List.all_eq_true.1 rfl, by decide⟩
    exact ⟨hspacing, by decide, by decide, by decide, by decide, by decide⟩

theorem IsLineEnd.isLevel {patch : Patch} (h : patch.IsLineEnd) : patch.IsLevel := by
  cases patch with
  | keep c => trivial
  | space old new =>
    obtain ⟨rfl, rfl⟩ := h
    exact ⟨by decide, by decide⟩

/-- Every token ends at corresponding places: there are no spaces that could be part of a text, and
nothing ends inside of a single character. -/
theorem not_cut_of_isLineEnd {patches : List Patch} (h : ∀ patch ∈ patches, patch.IsLineEnd)
    {kind : Kind} {n : Nat} : ¬Cut patches kind n := by
  have hspace {own behind : List Patch} {old new : List Char}
      (heq : patches = own ++ space old new :: behind) : old = ['\n'] :=
    (h (space old new) (by rw [heq]; exact List.mem_append_right _ List.mem_cons_self)).1
  intro hcut
  cases hcut with
  | word heq _ _ _ hplain _ =>
    rw [hspace heq] at hplain
    exact absurd hplain (by decide)
  | inside heq _ hfront hback =>
    rcases List.append_eq_singleton_iff.1 (hspace heq) with ⟨hnil, -⟩ | ⟨-, hnil⟩
    · exact hfront hnil
    · exact hback hnil

/-- What becomes of a character. -/
def lineEnd (c : Char) : Patch :=
  if c = '\n' then space ['\n'] ['\r', '\n'] else keep c

theorem olds_lineEnds (text : List Char) : olds (text.map lineEnd) = text := by
  induction text with
  | nil => rfl
  | cons c text ih =>
    rw [List.map_cons, lineEnd]
    split
    · rw [olds_space, ih]
      simp_all
    · rw [olds_keep, ih]

theorem news_lineEnds (text : List Char) : news (text.map lineEnd) = crlf text := by
  induction text with
  | nil => rfl
  | cons c text ih =>
    rw [List.map_cons, lineEnd, crlf, List.flatMap_cons]
    split
    · rw [news_space, ih]
      rfl
    · rw [news_keep, ih]
      rfl

theorem isLineEnd_lineEnd {c : Char} (h : c ≠ '\r') : (lineEnd c).IsLineEnd := by
  unfold lineEnd
  split
  · exact ⟨rfl, rfl⟩
  · exact h

/-- The patches of the tokens of a source. -/
def lineEnds (tokens : List (Kind × List Char)) : List (Kind × List Patch) :=
  tokens.map fun token => (token.1, token.2.map lineEnd)

theorem oldTokens_lineEnds (tokens : List (Kind × List Char)) :
    oldTokens (lineEnds tokens) = tokens := by
  unfold oldTokens lineEnds
  rw [List.map_map]
  refine List.map_id'' (fun token => ?_) tokens
  exact Prod.ext rfl (olds_lineEnds token.2)

theorem newTokens_lineEnds (tokens : List (Kind × List Char)) :
    newTokens (lineEnds tokens) = tokens.map fun token => (token.1, crlf token.2) := by
  unfold newTokens lineEnds
  rw [List.map_map]
  exact List.map_congr_left fun token _ => Prod.ext rfl (news_lineEnds token.2)

theorem patchesOf_lineEnds (tokens : List (Kind × List Char)) :
    patchesOf (lineEnds tokens) = (tokens.flatMap (·.2)).map lineEnd := by
  unfold patchesOf lineEnds
  rw [List.flatMap_map, List.map_flatMap]

end Patch

open Patch in
/-- A source without carriage returns, and the source with a carriage return in front of every line
feed, have the same tree, up to the line ends in the texts of its tokens, and the same is complained
about. -/
theorem parse_crlf (source : List Char) (mode : Mode) (h : '\r' ∉ source) :
    ∃ parsed parsed', parse source mode = .ok parsed ∧ parse (crlf source) mode = .ok parsed' ∧
      parsed'.tree = parsed.tree.mapTexts crlf ∧
      parsed'.diagnostics.map (·.code) = parsed.diagnostics.map (·.code) := by
  obtain ⟨parsed, drafts, hparse, rfl, -, hbuilt⟩ := parse_eq_ok source mode
  obtain ⟨trees, htree, -, htext⟩ := hbuilt.tree_eq
  have htokens : parsed.tree.tokens.flatMap (·.2) = parsed.source := by
    rw [← Tree.text_eq_flatMap_tokens, htree, ← htext]
    rfl
  have hpatches : patchesOf (lineEnds parsed.tree.tokens) = parsed.source.map lineEnd := by
    rw [patchesOf_lineEnds, htokens]
  have hends : ∀ patch ∈ patchesOf (lineEnds parsed.tree.tokens), patch.IsLineEnd := by
    rw [hpatches, List.forall_mem_map]
    exact fun c hc => isLineEnd_lineEnd fun heq => h (heq ▸ hc)
  have hsuits : Suits (patchesOf (lineEnds parsed.tree.tokens)) parsed := by
    refine ⟨fun patch hpatch => ?_, fun _ patch hpatch => (hends patch hpatch).isTidy,
      fun _ kind n hcut => absurd hcut (not_cut_of_isLineEnd hends),
      fun _ _ patch hpatch => (hends patch hpatch).isLevel⟩
    exact (hends patch hpatch).isTidy.fits_isSpace
  have hne : ∀ token ∈ lineEnds parsed.tree.tokens, token.2 ≠ [] := by
    unfold lineEnds
    rw [List.forall_mem_map]
    exact fun token htoken hnil => (hbuilt.tokens_filled token htoken).1 (List.map_eq_nil_iff.1 hnil)
  have hkept : Kept (lineEnds parsed.tree.tokens) := by
    intro before token behind heq _ old new more hmore
    have hmem : space old new ∈ patchesOf (lineEnds parsed.tree.tokens) := by
      rw [heq, patchesOf_append, patchesOf_cons, hmore]
      exact List.mem_append_right _ (List.mem_append_right _ List.mem_cons_self)
    obtain ⟨-, rfl⟩ := hends _ hmem
    rfl
  have htext : (parsed.tree.mapTexts crlf).text = crlf parsed.source := by
    rw [Tree.text_eq_flatMap_tokens, Tree.tokens_mapTexts, ← newTokens_lineEnds, flatMap_newTokens,
      hpatches, news_lineEnds]
  obtain ⟨parsed', hparse', hsame, hcodes⟩ := parse_respelled hparse (oldTokens_lineEnds _).symm hsuits
    hne hkept (Tree.shape_mapTexts crlf parsed.tree)
    ((Tree.tokens_mapTexts crlf parsed.tree).trans (newTokens_lineEnds _).symm)
  rw [htext] at hparse'
  refine ⟨parsed, parsed', hparse, hparse', hsame, ?_⟩
  have hcodes := congrArg (List.map Prod.fst) hcodes
  rwa [List.map_map, List.map_map] at hcodes

/-- The two forms of an item that goes on in a second line. -/
theorem parse_crlf_item : '\r' ∉ ['-', ' ', 'a', '\n', ' ', 'b'] ∧
    ∃ parsed parsed', parse ['-', ' ', 'a', '\n', ' ', 'b'] .markup = .ok parsed ∧
      parse ['-', ' ', 'a', '\r', '\n', ' ', 'b'] .markup = .ok parsed' ∧
      parsed'.tree = parsed.tree.mapTexts crlf ∧
      parsed'.diagnostics.map (·.code) = parsed.diagnostics.map (·.code) :=
  ⟨by decide, parse_crlf ['-', ' ', 'a', '\n', ' ', 'b'] .markup (by decide)⟩

end TypstFormat
