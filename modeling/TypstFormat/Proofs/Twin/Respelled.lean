import TypstFormat.Proofs.Tree.Texts
import TypstFormat.Proofs.Twin.Patched

/-!
# Trees of sources that differ in white space

The patches of a source are those of its tokens, one token after another. If the sources are read to
corresponding ends, then the other tree has the same shape, and its tokens have the texts that the
patches say. So a tree with other white space is the tree of its own text.

## Key results

- `Patch.parse_respelled`: the tree and the diagnostics of a source with other white space
-/

namespace TypstFormat

open Text

namespace Patch

/-- The patches of several tokens. -/
def patchesOf (tokens : List (Kind × List Patch)) : List Patch :=
  tokens.flatMap (·.2)

@[simp] theorem patchesOf_append (tokens more : List (Kind × List Patch)) :
    patchesOf (tokens ++ more) = patchesOf tokens ++ patchesOf more :=
  List.flatMap_append

@[simp] theorem patchesOf_cons (token : Kind × List Patch) (tokens : List (Kind × List Patch)) :
    patchesOf (token :: tokens) = token.2 ++ patchesOf tokens :=
  List.flatMap_cons

/-- The tokens before. -/
def oldTokens (tokens : List (Kind × List Patch)) : List (Kind × List Char) :=
  tokens.map fun token => (token.1, olds token.2)

/-- The tokens after. -/
def newTokens (tokens : List (Kind × List Patch)) : List (Kind × List Char) :=
  tokens.map fun token => (token.1, news token.2)

@[simp] theorem oldTokens_cons (kind : Kind) (patches : List Patch)
    (tokens : List (Kind × List Patch)) :
    oldTokens ((kind, patches) :: tokens) = (kind, olds patches) :: oldTokens tokens := rfl

@[simp] theorem oldTokens_append (tokens more : List (Kind × List Patch)) :
    oldTokens (tokens ++ more) = oldTokens tokens ++ oldTokens more :=
  List.map_append

@[simp] theorem newTokens_cons (kind : Kind) (patches : List Patch)
    (tokens : List (Kind × List Patch)) :
    newTokens ((kind, patches) :: tokens) = (kind, news patches) :: newTokens tokens := rfl

theorem flatMap_oldTokens (tokens : List (Kind × List Patch)) :
    (oldTokens tokens).flatMap (·.2) = olds (patchesOf tokens) := by
  induction tokens with
  | nil => rfl
  | cons token tokens ih =>
    rw [patchesOf_cons, olds_append, ← ih]
    rfl

theorem flatMap_newTokens (tokens : List (Kind × List Patch)) :
    (newTokens tokens).flatMap (·.2) = news (patchesOf tokens) := by
  induction tokens with
  | nil => rfl
  | cons token tokens ih =>
    rw [patchesOf_cons, news_append, ← ih]
    rfl

/-- The text up to corresponding offsets, behind other ones. -/
private theorem between_append_left (own inner behind : List Char) :
    between (own ++ (inner ++ behind)) own.length (own ++ inner).length = inner := by
  unfold between
  rw [List.drop_left, List.length_append, Nat.add_sub_cancel_left, List.take_left]

/-- The corresponding trees have the same shape, and tokens with the texts that the patches say. -/
theorem respelled {patches own behind : List Patch} {tokens : List (Kind × List Patch)}
    {parsed : Parsed} {trees trees' : List Tree} {a a' c c' : Nat} (hfits : ∀ patch ∈ patches, patch.Fits isSpace)
    (h : (sides patches parsed).Trees a a' trees trees' c c')
    (htokens : Tree.tokensAll trees = oldTokens tokens) (hne : ∀ token ∈ tokens, token.2 ≠ [])
    (hpatches : patches = own ++ (patchesOf tokens ++ behind)) (ha : a = (olds own).length)
    (ha' : a' = (news own).length) :
    Tree.shapeAll trees' = Tree.shapeAll trees ∧ Tree.tokensAll trees' = newTokens tokens ∧
      c = (olds (own ++ patchesOf tokens)).length ∧
      c' = (news (own ++ patchesOf tokens)).length := by
  induction h generalizing own behind tokens with
  | nil =>
    obtain rfl : tokens = [] := List.map_eq_nil_iff.1 htokens.symm
    refine ⟨rfl, rfl, ?_, ?_⟩
    · rw [ha]
      simp [patchesOf]
    · rw [ha']
      simp [patchesOf]
  | @token a a' b b' c c' trees trees' kind hplace _ ih =>
    cases tokens with
    | nil => cases htokens
    | cons token tokens =>
      obtain ⟨hfirst, hrest⟩ := List.cons.inj htokens
      obtain ⟨rfl, htext⟩ := Prod.mk.inj hfirst
      have hpatches' : patches = (own ++ token.2) ++ (patchesOf tokens ++ behind) := by
        rw [hpatches, patchesOf_cons, List.append_assoc, List.append_assoc]
      have hpos := length_pos (fun patch hpatch => hfits patch (by
        rw [hpatches']
        exact List.mem_append_left _ (List.mem_append_right _ hpatch)))
        (hne token List.mem_cons_self)
      -- The token is not empty, so that it ends where its patches do.
      have hb : b = (olds (own ++ token.2)).length := by
        have hlength := congrArg List.length htext
        have hle := hplace.le
        rw [between, List.length_take, List.length_drop] at hlength
        rw [olds_append, List.length_append]
        change min (b - a) ((olds patches).length - a) = _ at hlength
        omega
      have hb' : b' = (news (own ++ token.2)).length := by
        subst hb
        exact hplace.right_unique hfits ⟨own ++ token.2, _, hpatches', rfl, rfl⟩
      have htext' : between (news patches) a' b' = news token.2 := by
        rw [hpatches', ha', hb']
        simp only [news_append, List.append_assoc]
        exact between_append_left _ _ _
      obtain ⟨hshape, hnew, hc, hc'⟩ := ih hrest
        (fun other hother => hne other (List.mem_cons_of_mem _ hother)) hpatches' hb hb'
      rw [List.append_assoc] at hc hc'
      refine ⟨?_, ?_, hc, hc'⟩
      · show _ :: Tree.shapeAll trees' = _ :: Tree.shapeAll trees
        rw [hshape]
        rfl
      · show (token.1, between (news patches) a' b') :: Tree.tokensAll trees' = _ :: newTokens tokens
        rw [hnew, htext']
  | @node a a' b b' c c' children children' trees trees' kind _ _ ihchildren ih =>
    obtain ⟨inner, rest, rfl, hinner, hrest⟩ := List.map_eq_append_iff.1 htokens.symm
    rw [patchesOf_append, List.append_assoc] at hpatches
    obtain ⟨hshape, hnew, hb, hb'⟩ := ihchildren hinner.symm
      (fun other hother => hne other (List.mem_append_left _ hother)) hpatches ha ha'
    rw [← List.append_assoc] at hpatches
    obtain ⟨hshapes, hnews, hc, hc'⟩ := ih hrest.symm
      (fun other hother => hne other (List.mem_append_right _ hother)) hpatches hb hb'
    rw [List.append_assoc, ← patchesOf_append] at hc hc'
    refine ⟨?_, ?_, hc, hc'⟩
    · show Tree.node kind (Tree.shapeAll children') :: Tree.shapeAll trees' =
        .node kind (Tree.shapeAll children) :: Tree.shapeAll trees
      rw [hshape, hshapes]
    · show Tree.tokensAll children' ++ Tree.tokensAll trees' = newTokens (inner ++ rest)
      rw [hnew, hnews]
      exact (List.map_append ..).symm

/-! ## Line comments -/

/-- Behind a line comment, white space is replaced by white space that begins with a line break. -/
def Kept (tokens : List (Kind × List Patch)) : Prop :=
  ∀ before token behind, tokens = before ++ token :: behind → token.1 = .lineComment →
    ∀ old new more, patchesOf behind = space old new :: more → new.head?.any isLineBreak = true

/-- A piece whose text is that of a token ends where the patches of the token do. -/
private theorem stop_eq {source : List Char} {before rest : List Trivia} {piece : Trivia}
    (htile : Trivia.Tile 0 (before ++ piece :: rest) source.length)
    {tokens : List (Kind × List Patch)}
    (htokens : (before ++ [piece]).map (fun piece => (piece.kind, piece.range.slice source)) =
      oldTokens tokens) : piece.range.stop = (olds (patchesOf tokens)).length := by
  obtain ⟨htile, hle⟩ := htile.up_to
  have htext : ((before ++ [piece]).flatMap fun piece => piece.range.slice source) =
      between source 0 piece.range.stop := htile.flatMap_slice
  rw [← flatMap_oldTokens, ← htokens, List.flatMap_map, htext, between, List.length_take,
    List.length_drop]
  omega

/-- White space that starts at an offset where a token ends, or around it, is the white space behind
the token. -/
theorem split_at_stop {own before rest behind : List Patch} {front back new : List Char}
    (hfits : ∀ patch ∈ before ++ rest, patch.Fits isSpace) (hback : back ≠ [])
    (hpatches : before ++ rest = own ++ space (front ++ back) new :: behind)
    (hstop : (olds before).length = (olds own ++ front).length) :
    front = [] ∧ rest = space (front ++ back) new :: behind := by
  have hpos := List.length_pos_iff.2 hback
  rw [List.length_append] at hstop
  rcases List.append_eq_append_iff.1 hpatches with ⟨between, rfl, hrest⟩ | ⟨between, rfl, hrest⟩
  · rw [olds_append, List.length_append] at hstop
    have hnil : between = [] := by
      by_contra hne
      have hlonger := length_pos (fun patch hpatch => hfits patch (by
        rw [hrest]
        exact List.mem_append_right _ (List.mem_append_left _ hpatch))) hne
      omega
    subst hnil
    rw [olds_nil, List.length_nil] at hstop
    exact ⟨List.eq_nil_of_length_eq_zero (by omega), hrest⟩
  · rw [olds_append, List.length_append] at hstop
    cases between with
    | nil =>
      rw [olds_nil, List.length_nil] at hstop
      exact ⟨List.eq_nil_of_length_eq_zero (by omega), hrest.symm⟩
    | cons patch between =>
      obtain ⟨rfl, -⟩ := List.cons.inj hrest
      rw [olds_space, List.length_append, List.length_append] at hstop
      omega

/-- Pieces of the source whose texts are those of tokens stay if the tokens do. -/
theorem stays {tokens : List (Kind × List Patch)} (hkept : Kept tokens)
    (hfits : ∀ patch ∈ patchesOf tokens, patch.Fits isSpace) {pieces : List Trivia}
    {trees : List Tree} (hspells : Spells (olds (patchesOf tokens)) 0 trees pieces
      (olds (patchesOf tokens)).length) (htokens : Tree.tokensAll trees = oldTokens tokens) :
    ∀ piece ∈ pieces, Stays (patchesOf tokens) piece := by
  intro piece hpiece own front back new behind hpatches hback hkind hstop
  obtain ⟨before, rest, rfl⟩ := List.append_of_mem hpiece
  have hall := htokens.symm.trans hspells.tokens_eq
  rw [List.append_cons, List.map_append] at hall
  obtain ⟨first, more, rfl, hfirst, hmore⟩ := List.map_eq_append_iff.1 hall
  have hend := stop_eq hspells.tile hfirst.symm
  rw [patchesOf_append] at hpatches hfits
  obtain ⟨rfl, hspace⟩ := split_at_stop hfits hback hpatches (hend.symm.trans hstop)
  rw [List.map_append] at hfirst
  obtain ⟨init, last, rfl, hinit, hlast⟩ := List.map_eq_append_iff.1 hfirst
  obtain ⟨token, rfl⟩ : ∃ token, last = [token] := by
    cases last with
    | nil => cases hlast
    | cons token last =>
      obtain ⟨-, hnil⟩ := List.cons.inj hlast
      exact ⟨token, by rw [List.map_eq_nil_iff.1 hnil]⟩
  have htoken : token.1 = .lineComment := by
    obtain ⟨hfirst, -⟩ := List.cons.inj hlast
    exact (Prod.mk.inj hfirst).1.trans hkind
  exact ⟨rfl, hkept init token more (by simp) htoken _ _ _ hspace⟩

end Patch

/-- The tokens of a tree are not empty, and white space is made of it. -/
theorem Parsed.BuiltOf.tokens_filled {parsed : Parsed} {drafts : List Draft}
    (h : parsed.BuiltOf drafts) : ∀ token ∈ parsed.tree.tokens,
      token.2 ≠ [] ∧ (token.1.isSpace = true → ∀ c ∈ token.2, Text.isSpace c = true) := by
  obtain ⟨pieces, hspells, hcut⟩ := h.cut
  have htokens := hspells.tokens_eq
  rw [Tree.tokensAll, Tree.tokensAll, List.append_nil] at htokens
  rw [htokens]
  intro token htoken
  obtain ⟨piece, hpiece, rfl⟩ := List.mem_map.1 htoken
  obtain ⟨mode, token, htoken, hrange, hkind⟩ := hcut piece hpiece
  rw [hrange]
  refine ⟨fun hnil => ?_, fun hspace c hc => ?_⟩
  · have hnil : token.range.slice parsed.source = [] := hnil
    have hlength := htoken.start_add_length
    have hlt := htoken.range_lt
    rw [hnil, List.length_nil] at hlength
    omega
  · have hspace : token.kind.isSpace = true := by
      rcases hkind with hkind | ⟨hkind, -⟩
      · rw [← hkind]
        exact hspace
      · rw [hkind] at hspace
        cases hspace
    exact Mode.isSpace_of_isBlank (htoken.isBlank hspace c hc)

namespace Patch

/-! ## Sources with other white space -/

/-- A tree of the same shape, whose tokens have the texts that the patches say, is the tree of its text,
and the same is complained about. -/
theorem parse_respelled {source : List Char} {mode : Mode} {parsed : Parsed}
    (h : parse source mode = .ok parsed) {tokens : List (Kind × List Patch)}
    (hold : parsed.tree.tokens = oldTokens tokens) (hsuits : Suits (patchesOf tokens) parsed)
    (hne : ∀ token ∈ tokens, token.2 ≠ []) (hkept : Kept tokens) {tree' : Tree}
    (hshape : tree'.shape = parsed.tree.shape) (hnew : tree'.tokens = newTokens tokens) :
    ∃ parsed', parse tree'.text mode = .ok parsed' ∧ parsed'.tree = tree' ∧
      (parsed'.diagnostics.map fun d => (d.code, d.message)) =
        parsed.diagnostics.map fun d => (d.code, d.message) := by
  obtain ⟨_, _, hparse, rfl, rfl, hbuilt⟩ := parse_eq_ok source mode
  obtain rfl := Except.ok.inj (h.symm.trans hparse)
  obtain ⟨trees, htree, -, htext⟩ := hbuilt.tree_eq
  have holds : olds (patchesOf tokens) = parsed.source := by
    rw [← flatMap_oldTokens, ← hold, ← Tree.text_eq_flatMap_tokens, htree, ← htext]
    rfl
  have hnews : news (patchesOf tokens) = tree'.text := by
    rw [← flatMap_newTokens, ← hnew, ← Tree.text_eq_flatMap_tokens]
  obtain ⟨parsed', _, h', -⟩ := parse_eq_ok tree'.text parsed.mode
  have hbarred : (sides (patchesOf tokens) parsed).barred → parsed.mode ≠ .markup := by
    intro hbarred hmode
    have hnone := (hbarred none).2
    rw [htree, hmode] at hnone
    exact hnone List.mem_cons_self
  have holdAll : Tree.tokensAll [parsed.tree] = oldTokens tokens := by
    rw [Tree.tokensAll, Tree.tokensAll, List.append_nil, hold]
  have hleft : parse (olds (patchesOf tokens)) parsed.mode = .ok parsed := by rw [holds, h]
  have hright : parse (news (patchesOf tokens)) parsed.mode = .ok parsed' := by rw [hnews, h']
  have hlaw := sides_lawful hsuits
  obtain ⟨htrees, hfindings⟩ := (sides_apart (patchesOf tokens) parsed).parsed hbarred hleft hright
    id (fun _ => id) fun pieces hspells => stays hkept hsuits.fits hspells holdAll
  have hpatches : patchesOf tokens = [] ++ (patchesOf tokens ++ []) := (List.append_nil _).symm
  obtain ⟨hshape', hnew', -, -⟩ := respelled hsuits.fits htrees holdAll hne hpatches rfl rfl
  rw [Tree.tokensAll, Tree.tokensAll, List.append_nil] at hnew'
  refine ⟨parsed', h', Tree.eq_of_tokens _ _ ((List.cons.inj hshape').1.trans hshape.symm)
    (hnew'.trans hnew.symm), ?_⟩
  have hsame : List.Forall₂ Eq (parsed.diagnostics.map fun d => (d.code, d.message))
      (parsed'.diagnostics.map fun d => (d.code, d.message)) := by
    rw [List.forall₂_map_left_iff, List.forall₂_map_right_iff]
    exact hfindings.imp fun _ _ h => Prod.ext h.code.symm h.message.symm
  rw [List.forall₂_eq_eq_eq] at hsame
  exact hsame.symm

end Patch

end TypstFormat
