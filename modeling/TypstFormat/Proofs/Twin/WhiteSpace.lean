import TypstFormat.Proofs.Twin.Respelled

/-!
# Other white space in code

Code and math do not depend on how much white space stands between two tokens, only on whether there
is some and whether a line ends in it. A tree without markup whose white space is replaced is the
tree of its own text.

## Key results

- `Respaced.exists_patches`: the patches of tokens with other white space
- `Respaced.parse_text`, `parse_respaced`: the tree of a text with other white space
-/

namespace TypstFormat

open Text

/-- Tokens that differ in white space: there is some on both sides, and a line ends in it on both
sides or on none. Behind a line comment it begins with a line break. -/
inductive Respaced : (afterComment : Bool) → List (Kind × List Char) → List (Kind × List Char) →
    Prop where
  | nil {afterComment : Bool} : Respaced afterComment [] []
  | keep {afterComment : Bool} {kind : Kind} {text : List Char}
    {tokens tokens' : List (Kind × List Char)} :
    kind ≠ .space → Respaced (kind = .lineComment) tokens tokens' →
    Respaced afterComment ((kind, text) :: tokens) ((kind, text) :: tokens')
  | space {afterComment : Bool} {old new : List Char} {tokens tokens' : List (Kind × List Char)} :
    new ≠ [] → (∀ c ∈ new, isSpace c = true) → new.any isLineBreak = old.any isLineBreak →
    (afterComment = true → new.head?.any isLineBreak = true) → Respaced false tokens tokens' →
    Respaced afterComment ((.space, old) :: tokens) ((.space, new) :: tokens')

namespace Respaced

open Patch

/-- Tokens that differ in white space are given by patches. -/
theorem exists_patches {afterComment : Bool} {tokens tokens' : List (Kind × List Char)}
    (h : Respaced afterComment tokens tokens')
    (hfilled : ∀ token ∈ tokens,
      token.2 ≠ [] ∧ (token.1.isSpace = true → ∀ c ∈ token.2, isSpace c = true)) :
    ∃ patched, tokens = oldTokens patched ∧ tokens' = newTokens patched ∧
      (∀ patch ∈ patchesOf patched, patch.Fits isSpace) ∧ (∀ token ∈ patched, token.2 ≠ []) ∧
      Kept patched ∧ (afterComment = true → ∀ old new more,
        patchesOf patched = .space old new :: more → new.head?.any isLineBreak = true) := by
  induction h with
  | nil =>
    refine ⟨[], rfl, rfl, by simp [patchesOf], by simp, fun before token behind heq => ?_,
      fun _ old new more heq => ?_⟩
    · simp at heq
    · cases heq
  | @keep _ kind text tokens tokens' hkind _ ih =>
    obtain ⟨⟨htext, -⟩, hfilled⟩ := List.forall_mem_cons.1 hfilled
    obtain ⟨patched, rfl, rfl, hfits, hne, hkept, hfirst⟩ := ih hfilled
    refine ⟨(kind, text.map Patch.keep) :: patched, ?_, ?_, ?_, ?_, ?_, ?_⟩
    · rw [oldTokens_cons, olds_map_keep]
    · rw [newTokens_cons, news_map_keep]
    · rw [patchesOf_cons, List.forall_mem_append, List.forall_mem_map]
      exact ⟨fun _ _ => trivial, hfits⟩
    · exact List.forall_mem_cons.2 ⟨mt List.map_eq_nil_iff.1 htext, hne⟩
    · rintro (_ | ⟨first, before⟩) token behind heq hcomment
      · obtain ⟨rfl, rfl⟩ := List.cons.inj heq
        exact hfirst (decide_eq_true hcomment)
      · exact hkept before token behind (List.cons.inj heq).2 hcomment
    · obtain ⟨c, text, rfl⟩ := List.exists_cons_of_ne_nil htext
      intro _ old new more heq
      cases heq
  | @space afterComment old new tokens tokens' hnew hspaces hbreaks hhead _ ih =>
    obtain ⟨⟨hold, hblank⟩, hfilled⟩ := List.forall_mem_cons.1 hfilled
    obtain ⟨patched, rfl, rfl, hfits, hne, hkept, -⟩ := ih hfilled
    refine ⟨(.space, [.space old new]) :: patched, ?_, ?_, ?_, ?_, ?_, ?_⟩
    · rw [oldTokens_cons, olds_space, olds_nil, List.append_nil]
    · rw [newTokens_cons, news_space, news_nil, List.append_nil]
    · rw [patchesOf_cons, List.forall_mem_append, List.forall_mem_singleton]
      exact ⟨⟨hold, hnew, hblank rfl, hspaces, hbreaks⟩, hfits⟩
    · exact List.forall_mem_cons.2 ⟨List.cons_ne_nil _ _, hne⟩
    · rintro (_ | ⟨first, before⟩) token behind heq hcomment
      · obtain ⟨rfl, rfl⟩ := List.cons.inj heq
        cases hcomment
      · exact hkept before token behind (List.cons.inj heq).2 hcomment
    · intro hafter old' new' more heq
      obtain ⟨heq, -⟩ := List.cons.inj heq
      cases heq
      exact hhead hafter

end Respaced

/-- A source that was read as code or math without markup. A tree of the same shape with other white
space is the tree of its text, and the same is complained about. -/
theorem Respaced.parse_text {source : List Char} {mode : Mode} {parsed : Parsed}
    (h : parse source mode = .ok parsed) (hplain : ∀ node ∈ parsed.tree.nodes, node.1 ≠ .markup)
    {tree' : Tree} (hshape : tree'.shape = parsed.tree.shape)
    (htokens : Respaced false parsed.tree.tokens tree'.tokens) :
    ∃ parsed', parse tree'.text mode = .ok parsed' ∧ parsed'.tree = tree' ∧
      (parsed'.diagnostics.map fun d => (d.code, d.message)) =
        parsed.diagnostics.map fun d => (d.code, d.message) := by
  obtain ⟨_, drafts, hparse, -, -, hbuilt⟩ := parse_eq_ok source mode
  obtain rfl := Except.ok.inj (h.symm.trans hparse)
  obtain ⟨patched, hold, hnew, hfits, hne, hkept, -⟩ := htokens.exists_patches hbuilt.tokens_filled
  have hnone : Kind.markup ∉ parsed.tree.nodes.map (·.1) := by
    intro hmem
    obtain ⟨node, hnode, hkind⟩ := List.mem_map.1 hmem
    exact hplain node hnode hkind
  have hsuits : Patch.Suits (Patch.patchesOf patched) parsed :=
    ⟨hfits, fun hmarkup => absurd hmarkup hnone, fun hmarkup => absurd hmarkup hnone,
      fun hmarkup => absurd hmarkup hnone⟩
  exact Patch.parse_respelled h hold hsuits hne hkept hshape hnew

/-- In code and math without markup, only whether there is white space and whether a line ends in it
counts: a tree of the same shape with other white space is the tree of its text, and the same is
complained about. -/
theorem parse_respaced (source : List Char) (mode : Mode) :
    ∃ parsed, parse source mode = .ok parsed ∧
      ((∀ node ∈ parsed.tree.nodes, node.1 ≠ .markup) →
        ∀ tree' : Tree, tree'.shape = parsed.tree.shape →
          Respaced false parsed.tree.tokens tree'.tokens →
          ∃ parsed', parse tree'.text mode = .ok parsed' ∧ parsed'.tree = tree' ∧
            (parsed'.diagnostics.map fun d => (d.code, d.message)) =
              parsed.diagnostics.map fun d => (d.code, d.message)) := by
  obtain ⟨parsed, _, hparse, _⟩ := parse_eq_ok source mode
  exact ⟨parsed, hparse, fun hplain _ hshape htokens => htokens.parse_text hparse hplain hshape⟩

end TypstFormat
