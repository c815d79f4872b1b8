import TypstFormat.Proofs.Layout.Endings
import TypstFormat.Proofs.Twin.Respelled

/-!
# White space of markup that is tidied up

White space of markup may be tidied up, too: paragraphs stay, and so do the lines. But a word goes on
past a single space, so there must be no other white space between two words of a line (`spacesWords`),
and an item reaches as far as the columns of its lines say, so where there are items nothing may be
moved in its line.

## Key results

- `parse_tidied`: the tree of a text whose white space is tidied up
-/

namespace TypstFormat

open Text
open TypstFormat.Tree (Follows BreaksLine)

/-- Between two words of a line is a single space. -/
def spacesWords : List (Kind × List Char) → Bool
  | word :: space :: next :: rest =>
    (!(word.1 = .text && space.1.isSpace && next.2.head?.any isAlphanumeric) ||
      space.2.any isLineBreak || space.2 = [' ']) && spacesWords (space :: next :: rest)
  | _ => true

theorem spacesWords_append {before rest : List (Kind × List Char)}
    (h : spacesWords (before ++ rest) = true) : spacesWords rest = true := by
  induction before with
  | nil => exact h
  | cons word before ih =>
    refine ih ?_
    rw [List.cons_append] at h
    match hrest : before ++ rest with
    | [] => rfl
    | [_] => rfl
    | space :: next :: more =>
      rw [hrest, spacesWords] at h
      exact (Bool.and_eq_true_iff.1 h).2

/-- A token, and the token with its white space tidied up. Any other token holds no carriage returns,
which could go on with a line feed behind it. If there are items, then nothing is moved in its
line. -/
structure Tidies (listed : Prop) (token token' : Kind × List Char) : Prop where
  kind_eq : token'.1 = token.1
  tidied : token.1.isSpace = true → Tidied token.2 token'.2
  level : token.1.isSpace = true → listed → Patch.Level token.2 token'.2
  text_eq : token.1.isSpace = false → token'.2 = token.2
  noReturn : token.1.isSpace = false → '\r' ∉ token.2

namespace Patch

/-- The patches of a token whose white space is tidied up. -/
structure IsTidied (listed : Prop) (token : Kind × List Patch) : Prop where
  space : token.1.isSpace = true → ∃ old new, token.2 = [space old new] ∧ Tidied old new ∧
    (listed → Level old new)
  plain : token.1.isSpace = false → ∃ c text, token.2 = (c :: text).map keep ∧ '\r' ∉ c :: text

namespace IsTidied

variable {listed : Prop} {token : Kind × List Patch} {tokens : List (Kind × List Patch)}

theorem ne_nil (h : IsTidied listed token) : token.2 ≠ [] := by
  cases hspace : token.1.isSpace with
  | true =>
    obtain ⟨old, new, heq, -⟩ := h.space hspace
    rw [heq]
    exact List.cons_ne_nil _ _
  | false =>
    obtain ⟨c, text, heq, -⟩ := h.plain hspace
    rw [heq]
    exact List.cons_ne_nil _ _

/-- A patch of the tokens is white space that is tidied up, or a character of another token. -/
theorem mem_cases (h : ∀ token ∈ tokens, IsTidied listed token) {patch : Patch}
    (hpatch : patch ∈ patchesOf tokens) :
    (∃ old new, patch = .space old new ∧ Tidied old new ∧ (listed → Level old new)) ∨
      ∃ c, patch = .keep c ∧ c ≠ '\r' := by
  obtain ⟨token, htoken, hpatch⟩ := List.mem_flatMap.1 hpatch
  cases hspace : token.1.isSpace with
  | true =>
    obtain ⟨old, new, heq, htidied, hlevel⟩ := (h token htoken).space hspace
    rw [heq] at hpatch
    exact .inl ⟨old, new, List.mem_singleton.1 hpatch, htidied, hlevel⟩
  | false =>
    obtain ⟨c, text, heq, hreturn⟩ := (h token htoken).plain hspace
    rw [heq] at hpatch
    obtain ⟨d, hd, rfl⟩ := List.mem_map.1 hpatch
    refine .inr ⟨d, rfl, ?_⟩
    rintro rfl
    exact hreturn hd

theorem isTidy (h : ∀ token ∈ tokens, IsTidied listed token) :
    ∀ patch ∈ patchesOf tokens, patch.IsTidy := by
  intro patch hpatch
  rcases mem_cases h hpatch with ⟨old, new, rfl, htidied, -⟩ | ⟨c, rfl, hc⟩
  · exact htidied
  · exact hc

theorem isLevel (h : ∀ token ∈ tokens, IsTidied listed token) (hlisted : listed) :
    ∀ patch ∈ patchesOf tokens, patch.IsLevel := by
  intro patch hpatch
  rcases mem_cases h hpatch with ⟨old, new, rfl, -, hlevel⟩ | ⟨c, rfl, -⟩
  · exact hlevel hlisted
  · trivial

/-- White space that comes first is the first token. -/
theorem of_space (h : ∀ token ∈ tokens, IsTidied listed token) {old new : List Char}
    {more : List Patch} (heq : patchesOf tokens = Patch.space old new :: more) :
    ∃ kind rest, tokens = (kind, [Patch.space old new]) :: rest ∧ kind.isSpace = true ∧
      Tidied old new ∧ more = patchesOf rest := by
  cases tokens with
  | nil => cases heq
  | cons token rest =>
    obtain ⟨kind, patches⟩ := token
    obtain ⟨hspace, hplain⟩ := h _ List.mem_cons_self
    rw [patchesOf_cons] at heq
    cases hkind : kind.isSpace with
    | true =>
      obtain ⟨old', new', rfl, htidied, -⟩ := hspace hkind
      obtain ⟨hsame, rfl⟩ := List.cons.inj heq
      cases hsame
      exact ⟨kind, rest, rfl, hkind, htidied, rfl⟩
    | false =>
      obtain ⟨c, text, rfl, -⟩ := hplain hkind
      cases heq

/-- Behind a line comment, the line breaks come first. -/
theorem kept (h : ∀ token ∈ tokens, IsTidied listed token)
    (hchain : (oldTokens tokens).IsChain Follows) : Kept tokens := by
  rintro before token behind rfl hcomment old new more hmore
  obtain ⟨kind, rest, rfl, -, htidied, -⟩ := of_space (fun other hother =>
    h other (List.mem_append_right _ (List.mem_cons_of_mem _ hother))) hmore
  rw [oldTokens_append, oldTokens_cons] at hchain
  obtain ⟨-, hbehind, -⟩ := List.isChain_append.1 hchain
  have hbreak : (olds [Patch.space old new]).head?.any isLineBreak = true :=
    ((List.isChain_cons.1 hbehind).1 _ rfl hcomment).2
  rw [olds_space, olds_nil, List.append_nil] at hbreak
  refine htidied.new_head? ?_
  obtain ⟨c, hc, hbreak⟩ := (Option.any_eq_true _ _).1 hbreak
  exact List.any_eq_true.2 ⟨c, List.mem_of_mem_head? hc, hbreak⟩

/-- No token ends where one need not end on both sides. -/
theorem not_cut (h : ∀ token ∈ tokens, IsTidied listed token)
    (hwords : spacesWords (oldTokens tokens) = true) {before behind : List (Kind × List Patch)}
    {kind : Kind} {patches : List Patch} (htokens : tokens = before ++ (kind, patches) :: behind) :
    ¬Cut (patchesOf tokens) kind (olds (patchesOf (before ++ [(kind, patches)]))).length := by
  have hsplit : patchesOf tokens = patchesOf (before ++ [(kind, patches)]) ++ patchesOf behind := by
    rw [htokens, ← patchesOf_append, List.append_assoc]
    rfl
  have hfits : ∀ patch ∈ patchesOf (before ++ [(kind, patches)]) ++ patchesOf behind,
      patch.Fits isSpace := by
    rw [← hsplit]
    exact fun patch hpatch => (isTidy h patch hpatch).fits_isSpace
  intro hcut
  cases hcut with
  | inside heq hn hfront hback =>
    exact hfront (split_at_stop hfits hback (hsplit.symm.trans heq) hn).1
  | @word own more old new heq hn hkind hold hplain hnext =>
    have hspace : Tidied old new :=
      isTidy h (.space old new) (by rw [heq]; exact List.mem_append_right _ List.mem_cons_self)
    have hstop : (olds (patchesOf (before ++ [(kind, patches)]))).length = (olds own ++ []).length := by
      rw [List.append_nil]
      exact hn
    have hbehind := (split_at_stop hfits hspace.old_ne_nil (hsplit.symm.trans heq) hstop).2
    obtain ⟨kind', rest, rfl, hkind', -, rfl⟩ := of_space (fun other hother => h other (by
      rw [htokens]
      exact List.mem_append_right _ (List.mem_cons_of_mem _ hother))) hbehind
    -- So the patch is the white space between two words.
    cases rest with
    | nil => cases hnext
    | cons next rest =>
      have hfitsNext : ∀ patch ∈ next.2, patch.Fits isSpace := fun patch hpatch =>
        hfits patch (List.mem_append_right _ (by simp [hpatch]))
      have hne : olds next.2 ≠ [] :=
        List.ne_nil_of_length_pos (length_pos hfitsNext (h next (by simp [htokens])).ne_nil).1
      rw [patchesOf_cons, olds_append, List.head?_append_of_ne_nil _ hne] at hnext
      rw [htokens, oldTokens_append] at hwords
      have hone := (Bool.and_eq_true_iff.1 (spacesWords_append hwords)).1
      simp [hkind, hkind', hnext, hplain, hold] at hone

end IsTidied

end Patch

open Patch

/-- Tokens whose white space is tidied up are given by patches. -/
theorem Tidies.exists_patches {listed : Prop} {tokens tokens' : List (Kind × List Char)}
    (h : List.Forall₂ (Tidies listed) tokens tokens') (hne : ∀ token ∈ tokens, token.2 ≠ []) :
    ∃ patched, tokens = oldTokens patched ∧ tokens' = newTokens patched ∧
      ∀ token ∈ patched, IsTidied listed token := by
  induction h with
  | nil => exact ⟨[], rfl, rfl, by simp⟩
  | @cons token token' tokens tokens' hfirst _ ih =>
    obtain ⟨kind, own⟩ := token
    obtain ⟨kind', own'⟩ := token'
    obtain ⟨hkind, htidied, hlevel, htext, hreturn⟩ := hfirst
    obtain rfl : kind' = kind := hkind
    obtain ⟨hfilled, hbehind⟩ := List.forall_mem_cons.1 hne
    obtain ⟨patched, rfl, rfl, hpatched⟩ := ih hbehind
    cases hspace : kind'.isSpace with
    | true =>
      refine ⟨(kind', [.space own own']) :: patched, ?_, ?_, List.forall_mem_cons.2 ⟨?_, hpatched⟩⟩
      · rw [oldTokens_cons, olds_space, olds_nil, List.append_nil]
      · rw [newTokens_cons, news_space, news_nil, List.append_nil]
      · exact ⟨fun _ => ⟨own, own', rfl, htidied hspace, hlevel hspace⟩,
          fun hplain => absurd hspace (by rw [hplain]; decide)⟩
    | false =>
      obtain rfl : own' = own := htext hspace
      obtain ⟨c, text, rfl⟩ := List.exists_cons_of_ne_nil hfilled
      refine ⟨(kind', (c :: text).map .keep) :: patched, ?_, ?_,
        List.forall_mem_cons.2 ⟨?_, hpatched⟩⟩
      · rw [oldTokens_cons, olds_map_keep]
      · rw [newTokens_cons, news_map_keep]
      · exact ⟨fun htrue => absurd hspace (by rw [htrue]; decide),
          fun _ => ⟨c, text, rfl, hreturn hspace⟩⟩

/-- A tree of the same shape whose white space is tidied up is the tree of its text, and nothing is
complained about. -/
theorem parse_tidied {source : List Char} {mode : Mode} {parsed : Parsed}
    (h : parse source mode = .ok parsed) (hclean : parsed.diagnostics = [])
    (hwords : spacesWords parsed.tree.tokens = true) {tree' : Tree}
    (hshape : tree'.shape = parsed.tree.shape)
    (htokens : List.Forall₂ (Tidies (∃ token ∈ parsed.tree.tokens, token.1 ∈ Sides.itemMarkers))
      parsed.tree.tokens tree'.tokens) :
    ∃ parsed', parse tree'.text mode = .ok parsed' ∧ parsed'.tree = tree' ∧
      parsed'.diagnostics = [] := by
  obtain ⟨_, drafts, hparse, -, -, hbuilt⟩ := parse_eq_ok source mode
  obtain rfl := Except.ok.inj (h.symm.trans hparse)
  obtain ⟨patched, hold, hnew, hpatched⟩ :=
    Tidies.exists_patches htokens fun token htoken => (hbuilt.tokens_filled token htoken).1
  have hchain := hbuilt.isChain_tokens
  rw [hold] at hchain hwords
  have hlacks (kind : Kind) (n : Nat) (hcut : Cut (patchesOf patched) kind n) :
      parsed.tree.Lacks (.token kind n) := by
    intro before text behind heq hlength
    obtain ⟨front, back, rfl, rfl, hback⟩ := List.map_eq_append_iff.1 (hold.symm.trans heq)
    obtain ⟨token, back, rfl, htoken, rfl⟩ := List.map_eq_cons_iff.1 hback
    obtain ⟨rfl, rfl⟩ := Prod.mk.inj htoken
    refine IsTidied.not_cut hpatched hwords rfl ?_
    have hstop : olds (patchesOf (front ++ [token])) =
        (oldTokens front).flatMap (·.2) ++ olds token.2 := by
      rw [patchesOf_append, olds_append, flatMap_oldTokens, patchesOf_cons]
      simp [patchesOf]
    rw [hstop]
    exact hlength ▸ hcut
  have hsuits : Suits (patchesOf patched) parsed := by
    have htidy := IsTidied.isTidy hpatched
    exact ⟨fun patch hpatch => (htidy patch hpatch).fits_isSpace, fun _ => htidy,
      fun _ kind n hcut => ⟨hclean, hlacks kind n hcut⟩,
      fun _ hlisted => IsTidied.isLevel hpatched hlisted⟩
  obtain ⟨parsed', hparse', htree, hsame⟩ := parse_respelled h hold hsuits
    (fun token htoken => (hpatched token htoken).ne_nil) (IsTidied.kept hpatched hchain) hshape hnew
  rw [hclean, List.map_nil, List.map_eq_nil_iff] at hsame
  exact ⟨parsed', hparse', htree, hsame⟩

end TypstFormat
