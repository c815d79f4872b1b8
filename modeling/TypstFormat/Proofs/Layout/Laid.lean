import TypstFormat.Proofs.Layout.Spacing
import TypstFormat.Proofs.Twin.Tidied
import TypstFormat.Proofs.Twin.WhiteSpace

/-!
# Trees as they are laid out

White space is written in its normal form: a space, or one or two line breaks and the indentation of
the next line. Only in a list of arguments the layout decides anew what the white space is. A tree as
it is laid out (`Tree.laid`) holds the white space that is written for it. It has the shape and the
skeleton of the tree that it is made from. Between the tokens of code its white space does the same as
what was there before; in markup it does if it neither joins words nor moves items (`Tidy`).

## Key results

- `Layout.fill?_spec`: the children of a list with the white space that is written for it
- `Tree.skeleton_laid`: the skeleton of a tree does not tell its white space
- `respaced_laid`: the white space does the same between tokens of code
- `tidies_laid`: white space of markup is tidied up
-/

namespace TypstFormat

open Layout Render

/-! ## White space -/

/-- White space in its normal form that takes the place of other white space: a line ends in it where
one did, and no characters are new but spaces and line feeds. -/
structure Layout.Normalizes (own new : List Char) : Prop where
  normal : normalSpace new = new
  breaks_eq : new.any Text.isLineBreak = own.any Text.isLineBreak
  mem : ∀ c ∈ new, c = ' ' ∨ c = '\n' ∨ c ∈ own ∧ Text.isLineBreak c = false

namespace Layout.Normalizes

variable {own new : List Char}

theorem of_normalSpace (own : List Char) : Normalizes own (normalSpace own) :=
  ⟨normalSpace_idem own, any_isLineBreak_normalSpace own, fun _ => mem_normalSpace⟩

theorem ne_nil (h : Normalizes own new) : new ≠ [] := by
  rw [← h.normal]
  exact normalSpace_ne_nil new

theorem blank (h : Normalizes own new) (hown : Blank own) : Blank new := by
  intro c hc
  rcases h.mem c hc with rfl | rfl | ⟨hc, -⟩
  · decide
  · decide
  · exact hown c hc

/-- Line breaks come first. -/
theorem head? (h : Normalizes own new) (hbreak : own.any Text.isLineBreak = true) :
    new.head?.any Text.isLineBreak = true := by
  have hhead := head?_normalSpace (h.breaks_eq.trans hbreak)
  rw [h.normal] at hhead
  exact (Option.any_eq_true _ _).2 ⟨'\n', hhead, by decide⟩

/-- Where no line ends, a single space is left. -/
theorem eq_space (h : Normalizes own new) (hbreak : own.any Text.isLineBreak = false) :
    new = [' '] := by
  rw [← h.normal]
  exact normalSpace_eq_space (h.breaks_eq.trans hbreak)

theorem trans (h : Normalizes own new) {written : List Char} (hwritten : Normalizes new written) :
    Normalizes own written where
  normal := hwritten.normal
  breaks_eq := hwritten.breaks_eq.trans h.breaks_eq
  mem c hc := by
    rcases hwritten.mem c hc with hc | hc | ⟨hc, -⟩
    · exact .inl hc
    · exact .inr (.inl hc)
    · exact h.mem c hc

/-- No line break at its end goes on behind it. -/
theorem getLast? (h : Normalizes own new) : new.getLast? ≠ some '\r' := by
  intro hlast
  -- Its only line breaks are line feeds.
  rcases h.mem _ (List.mem_of_getLast? hlast) with hc | hc | ⟨-, hc⟩
  · exact absurd hc (by decide)
  · exact absurd hc (by decide)
  · exact absurd hc (by decide)

end Layout.Normalizes

/-! ## Tokens -/

/-- The text of a token as it is written. Between two paragraphs, one line is left empty. -/
def normalText (kind : Kind) (own : List Char) : List Char :=
  match kind with
  | .space => normalSpace own
  | .parbreak => ['\n', '\n']
  | _ => own

theorem normalText_eq {kind : Kind} (h : kind.isSpace = false) (own : List Char) :
    normalText kind own = own := by
  unfold normalText
  split
  · cases h
  · cases h
  · rfl

/-- A token, and what becomes of it in the tree that is laid out. -/
structure Layout.Lays (token token' : Kind × List Char) : Prop where
  kind_eq : token'.1 = token.1
  space : token.1 = .space → Normalizes token.2 token'.2
  parbreak : token.1 = .parbreak → token'.2 = ['\n', '\n']
  text_eq : token.1.isSpace = false → token'.2 = token.2

theorem Layout.lays_normalText (kind : Kind) (own : List Char) :
    Lays (kind, own) (kind, normalText kind own) where
  kind_eq := rfl
  space hkind := by
    obtain rfl : kind = .space := hkind
    exact .of_normalSpace own
  parbreak hkind := by
    obtain rfl : kind = .parbreak := hkind
    rfl
  text_eq hkind := normalText_eq hkind own

/-! ## Lists of arguments -/

namespace Layout

/-- The characters that are written in a list besides those of its children. -/
def isFilling (c : Char) : Bool :=
  c = ' ' || c = '\n'

/-- The white space in front of a text, if it may take the place of other white space: in its normal
form, with a line that ends where one did. -/
def filling? (own text : List Char) : Option (List Char) :=
  Option.guard
    (fun new => normalSpace new = new ∧ new.any Text.isLineBreak = own.any Text.isLineBreak)
    (text.takeWhile isFilling)

/-- The children of a list with the white space of a text that was written for it. There is none if
the text differs in more than the white space that was there before. -/
def fill? : List Tree → List Char → Option (List Tree)
  | [], text => if text = [] then some [] else none
  | .token .space own :: children, text => do
    let new ← filling? own text
    let filled ← fill? children (text.dropWhile isFilling)
    return .token .space new :: filled
  | child :: children, text => do
    let behind ← child.text.isPrefixOf? text
    let filled ← fill? children behind
    return child :: filled

/-- A child of a list, and the same child with other white space: a token of white space is all that
may change. -/
inductive Filled : Tree → Tree → Prop where
  | keep {t : Tree} : Filled t t
  | space {own new : List Char} : Normalizes own new → Filled (.token .space own) (.token .space new)

theorem Filled.kind_eq {t t' : Tree} (h : Filled t t') : t'.kind = t.kind := by
  cases h <;> rfl

theorem filling?_spec {own text new : List Char} (h : filling? own text = some new) :
    new ++ text.dropWhile isFilling = text ∧ Normalizes own new := by
  obtain ⟨rfl, hnew⟩ := Option.guard_eq_some_iff.1 h
  obtain ⟨hnormal, hbreaks⟩ := of_decide_eq_true hnew
  refine ⟨List.takeWhile_append_dropWhile, hnormal, hbreaks, fun c hc => ?_⟩
  have hfilling : isFilling c = true := List.mem_takeWhile_imp hc
  rcases Bool.or_eq_true_iff.1 hfilling with hc | hc
  · exact .inl (of_decide_eq_true hc)
  · exact .inr (.inl (of_decide_eq_true hc))

/-- The children with the white space of a text stand for that text. -/
theorem fill?_spec {children filled : List Tree} {text : List Char}
    (h : fill? children text = some filled) :
    Tree.textAll filled = text ∧ List.Forall₂ Filled children filled := by
  fun_induction fill? children text generalizing filled with
  | case1 =>
    cases h
    exact ⟨rfl, .nil⟩
  | case2 => cases h
  | case3 own children text ih =>
    -- White space takes what is in front of the text.
    obtain ⟨new, hnew, h⟩ := Option.bind_eq_some_iff.1 h
    obtain ⟨rest, hrest, h⟩ := Option.bind_eq_some_iff.1 h
    cases h
    obtain ⟨hfront, hspace⟩ := filling?_spec hnew
    obtain ⟨htext, hchildren⟩ := ih hrest
    refine ⟨?_, .cons (.space hspace) hchildren⟩
    rw [Tree.textAll, Tree.text, htext, hfront]
  | case4 child children text _ ih =>
    -- Any other child stands in front of the text itself.
    obtain ⟨behind, hbehind, h⟩ := Option.bind_eq_some_iff.1 h
    obtain ⟨rest, hrest, h⟩ := Option.bind_eq_some_iff.1 h
    cases h
    obtain ⟨htext, hchildren⟩ := ih behind hrest
    refine ⟨?_, .cons .keep hchildren⟩
    rw [Tree.textAll, htext]
    exact List.append_eq_of_isPrefixOf?_eq_some hbehind

/-- The children of a list with the white space that is written for it. `inner` is what becomes of each
child by itself. -/
def laidList? (options : Options) (children inner : List Tree) : Option (List Tree) :=
  (alone options (.node .args children)).toOption.bind (fill? inner)

/-- What becomes of the children of a node, if `inner` is what becomes of each of them by itself. Only a
list decides anew about the white space among them. -/
def laidChildren (options : Options) (kind : Kind) (children inner : List Tree) : List Tree :=
  if kind = .args then (laidList? options children inner).getD inner else inner

theorem filled_laidChildren (options : Options) (kind : Kind) (children inner : List Tree) :
    List.Forall₂ Filled inner (laidChildren options kind children inner) := by
  have hself : List.Forall₂ Filled inner inner := List.forall₂_same.2 fun _ _ => .keep
  unfold laidChildren
  split
  · cases hlist : laidList? options children inner with
    | none => exact hself
    | some filled =>
      obtain ⟨text, -, hfill⟩ := Option.bind_eq_some_iff.1 hlist
      exact (fill?_spec hfill).2
  · exact hself

end Layout

/-! ## Trees -/

namespace Tree

mutual

/-- The tree as it is laid out. -/
def laid (options : Options) : Tree → Tree
  | .token kind own => .token kind (normalText kind own)
  | .node kind children => .node kind (laidChildren options kind children (laidAll options children))

/-- Several trees as they are laid out. -/
def laidAll (options : Options) : List Tree → List Tree
  | [] => []
  | tree :: trees => laid options tree :: laidAll options trees

end

/-- What becomes of the tokens of a tree. -/
def Lays (t t' : Tree) : Prop :=
  List.Forall₂ Layout.Lays t.tokens t'.tokens

theorem tokensAll_lays {ts ts' : List Tree} (h : List.Forall₂ Lays ts ts') :
    List.Forall₂ Layout.Lays (tokensAll ts) (tokensAll ts') := by
  induction h with
  | nil => exact .nil
  | cons htree _ ih => exact List.rel_append htree ih

theorem Lays.filled {t t' t'' : Tree} (h : Lays t t') (hfilled : Filled t' t'') : Lays t t'' := by
  cases hfilled with
  | keep => exact h
  | @space own new hnew =>
    -- The tree was a token of white space before, and that is all there is to it.
    obtain ⟨token, tokens, hfirst, hrest, htokens⟩ := List.forall₂_cons_right_iff.1 h
    have hkind : token.1 = .space := hfirst.kind_eq.symm
    have hlays : Layout.Lays token (.space, new) := by
      refine ⟨hfirst.kind_eq, fun _ => (hfirst.space hkind).trans hnew, fun hparbreak => ?_,
        fun hplain => ?_⟩
      · rw [hkind] at hparbreak
        cases hparbreak
      · rw [hkind] at hplain
        cases hplain
    unfold Lays
    rw [htokens]
    exact .cons hlays hrest

theorem lays_filled {ts ts' ts'' : List Tree} (h : List.Forall₂ Lays ts ts')
    (hfilled : List.Forall₂ Filled ts' ts'') : List.Forall₂ Lays ts ts'' := by
  induction h generalizing ts'' with
  | nil =>
    cases hfilled
    exact .nil
  | cons htree _ ih =>
    cases hfilled with
    | cons hfirst hrest => exact .cons (htree.filled hfirst) (ih hrest)

mutual

theorem lays_laid (options : Options) : (t : Tree) → t.Lays (t.laid options)
  | .token kind own => .cons (lays_normalText kind own) .nil
  | .node kind children => by
    have hfilled := filled_laidChildren options kind children (laidAll options children)
    have hchildren := lays_filled (lays_laidAll options children) hfilled
    rw [laid, Lays, tokens, tokens]
    exact tokensAll_lays hchildren

theorem lays_laidAll (options : Options) : (ts : List Tree) →
    List.Forall₂ Lays ts (laidAll options ts)
  | [] => .nil
  | t :: ts => .cons (lays_laid options t) (lays_laidAll options ts)

end

theorem shapeAll_filled {ts ts' : List Tree} (h : List.Forall₂ Filled ts ts') :
    shapeAll ts' = shapeAll ts := by
  induction h with
  | nil => rfl
  | cons htree _ ih =>
    refine congrArg₂ List.cons ?_ ih
    cases htree <;> rfl

mutual

/-- The shape of a tree does not tell its white space. -/
theorem shape_laid (options : Options) : (t : Tree) → (t.laid options).shape = t.shape
  | .token _ _ => rfl
  | .node kind children => by
    have hfilled := filled_laidChildren options kind children (laidAll options children)
    have hchildren := (shapeAll_filled hfilled).trans (shapeAll_laidAll options children)
    exact congrArg (Tree.node kind) hchildren

theorem shapeAll_laidAll (options : Options) : (ts : List Tree) →
    shapeAll (laidAll options ts) = shapeAll ts
  | [] => rfl
  | t :: ts =>
    congrArg₂ List.cons (shape_laid options t) (shapeAll_laidAll options ts)

end

theorem kind_laid (options : Options) (t : Tree) : (t.laid options).kind = t.kind := by
  cases t <;> rfl

theorem textAll_eq_flatten (trees : List Tree) : textAll trees = (trees.map text).flatten := by
  induction trees with
  | nil => rfl
  | cons tree trees ih => rw [textAll, ih, List.map_cons, List.flatten_cons]

end Tree

/-! ## What is left of a tree without white space -/

namespace Tree

/-- Puts texts that stand next to each other together. -/
def mergeTexts : List Tree → List Tree
  | [] => []
  | .token .text text :: trees =>
    match mergeTexts trees with
    | .token .text more :: rest => .token .text (text ++ more) :: rest
    | rest => .token .text text :: rest
  | tree :: trees => tree :: mergeTexts trees

mutual

/-- A tree without white space, also in its texts, and without the commas of lists of arguments. -/
def skeleton : Tree → Tree
  | .token kind text =>
    .token kind (if kind = .text then text.filter (!Text.isSpace ·) else text)
  | .node kind children => .node kind (mergeTexts (skeletonAll (kind = .args) children))

/-- What is left of the children of a node. -/
def skeletonAll (isArgs : Bool) : List Tree → List Tree
  | [] => []
  | tree :: trees =>
    if tree.kind.isSpace || (isArgs && tree.kind = .comma) then skeletonAll isArgs trees
    else skeleton tree :: skeletonAll isArgs trees

end

theorem skeletonAll_filled (isArgs : Bool) {ts ts' : List Tree} (h : List.Forall₂ Filled ts ts') :
    skeletonAll isArgs ts' = skeletonAll isArgs ts := by
  induction h with
  | nil => rfl
  | cons htree _ ih =>
    rw [skeletonAll, skeletonAll, ih, htree.kind_eq]
    cases htree <;> rfl

mutual

/-- What is left of a tree does not tell its white space. -/
theorem skeleton_laid (options : Options) : (t : Tree) → t.kind.isSpace = false →
    (t.laid options).skeleton = t.skeleton
  | .token kind text, hkind => by
    have hkind : kind.isSpace = false := hkind
    rw [laid, normalText_eq hkind]
  | .node kind children, _ => by
    have hfilled := filled_laidChildren options kind children (laidAll options children)
    rw [laid, skeleton, skeleton, skeletonAll_filled _ hfilled,
      skeletonAll_laidAll _ options children]

theorem skeletonAll_laidAll (isArgs : Bool) (options : Options) : (ts : List Tree) →
    skeletonAll isArgs (laidAll options ts) = skeletonAll isArgs ts
  | [] => rfl
  | t :: ts => by
    rw [laidAll, skeletonAll, skeletonAll, kind_laid, skeletonAll_laidAll isArgs options ts]
    split
    · rfl
    · rename_i hkept
      have hkind : t.kind.isSpace = false := by
        cases hspace : t.kind.isSpace with
        | false => rfl
        | true => exact absurd (by rw [hspace, Bool.true_or]) hkept
      rw [skeleton_laid options t hkind]

end

end Tree

/-! ## Code -/

open TypstFormat.Tree in
/-- White space that is laid out stands where there was white space before, and a line ends in it where
one did. -/
theorem respaced_laid {tokens tokens' : List (Kind × List Char)}
    (h : List.Forall₂ Layout.Lays tokens tokens')
    (hblank : ∀ token ∈ tokens, token.1.isSpace = true → Blank token.2)
    (hparbreak : ∀ token ∈ tokens, token.1 ≠ .parbreak)
    (hchain : tokens.IsChain Follows) {afterComment : Bool}
    (hfirst : afterComment = true → ∀ token ∈ tokens.head?, BreaksLine token) :
    Respaced afterComment tokens tokens' := by
  induction h generalizing afterComment with
  | nil => exact .nil
  | @cons token token' tokens tokens' hlays _ ih =>
    obtain ⟨kind, own⟩ := token
    obtain ⟨kind', own'⟩ := token'
    obtain ⟨rfl, hspaces, -, htext⟩ := hlays
    obtain ⟨hown, hbehind⟩ := List.forall_mem_cons.1 hblank
    obtain ⟨hplain, hplains⟩ := List.forall_mem_cons.1 hparbreak
    obtain ⟨hnext, hrest⟩ := List.isChain_cons.1 hchain
    by_cases hkind : kind' = .space
    · -- A line comment in front needs a line break first, and in the normal form line breaks come
      -- first.
      subst hkind
      have hnew : Normalizes own own' := hspaces rfl
      refine .space hnew.ne_nil (hnew.blank (hown rfl)) hnew.breaks_eq (fun hafter => ?_)
        (ih hbehind hplains hrest nofun)
      exact hnew.head? (Text.any_isLineBreak_of_head? (hfirst hafter _ rfl).2)
    · obtain rfl : own' = own := htext (isSpace_eq_false hkind hplain)
      exact .keep hkind (ih hbehind hplains hrest fun hcomment token htoken =>
        hnext token htoken (of_decide_eq_true hcomment))

/-! ## Markup -/

/-- Tokens whose white space may be laid out in markup. Words are set off by a single space, no carriage
return goes on behind its token, and no empty lines are left out. Where there are items, nothing is
moved in its line. -/
structure Tidy (tokens tokens' : List (Kind × List Char)) : Prop where
  words : spacesWords tokens = true
  blank : ∀ token ∈ tokens, token.1.isSpace = true →
    token.2.all Mode.markup.isBlank = true ∧ token.2.getLast? ≠ some '\r'
  noReturn : ∀ token ∈ tokens, token.1.isSpace = false → '\r' ∉ token.2
  lines : ∀ pair ∈ tokens.zip tokens', pair.1.1.isSpace = true →
    min (Lexeme.lineBreaks pair.2.2) 2 = min (Lexeme.lineBreaks pair.1.2) 2
  level : (∃ token ∈ tokens, token.1 ∈ Sides.itemMarkers) →
    ∀ pair ∈ tokens.zip tokens', pair.1.1.isSpace = true → Patch.Level pair.1.2 pair.2.2

instance (tokens tokens' : List (Kind × List Char)) : Decidable (Tidy tokens tokens') :=
  decidable_of_iff (spacesWords tokens = true ∧
      (∀ token ∈ tokens, token.1.isSpace = true →
        token.2.all Mode.markup.isBlank = true ∧ token.2.getLast? ≠ some '\r') ∧
      (∀ token ∈ tokens, token.1.isSpace = false → '\r' ∉ token.2) ∧
      (∀ pair ∈ tokens.zip tokens', pair.1.1.isSpace = true →
        min (Lexeme.lineBreaks pair.2.2) 2 = min (Lexeme.lineBreaks pair.1.2) 2) ∧
      ((∃ token ∈ tokens, token.1 ∈ Sides.itemMarkers) →
        ∀ pair ∈ tokens.zip tokens', pair.1.1.isSpace = true → Patch.Level pair.1.2 pair.2.2))
    ⟨fun h => ⟨h.1, h.2.1, h.2.2.1, h.2.2.2.1, h.2.2.2.2⟩,
      fun h => ⟨h.words, h.blank, h.noReturn, h.lines, h.level⟩⟩

/-- White space is tidied up by its normal form. -/
theorem Layout.Normalizes.tidied {own new : List Char} (h : Normalizes own new) (hne : own ≠ [])
    (hblank : ∀ c ∈ own, Mode.markup.isBlank c = true) (hlast : own.getLast? ≠ some '\r')
    (hlines : min (Lexeme.lineBreaks new) 2 = min (Lexeme.lineBreaks own) 2) : Tidied own new where
  old_ne_nil := hne
  new_ne_nil := h.ne_nil
  old_ends := hblank
  new_ends c hc := by
    rcases h.mem c hc with rfl | rfl | ⟨hc, -⟩
    · rfl
    · rfl
    · exact hblank c hc
  breaks_eq := h.breaks_eq
  old_last := hlast
  new_last := h.getLast?
  lineBreaks_eq := hlines
  new_eq := h.eq_space
  new_head? := h.head?

theorem Layout.tidied_parbreak {own : List Char} (hblank : ∀ c ∈ own, Mode.markup.isBlank c = true)
    (hlast : own.getLast? ≠ some '\r') (hbreaks : 2 ≤ Lexeme.lineBreaks own) :
    Tidied own ['\n', '\n'] := by
  have hbreak : own.any Text.isLineBreak = true :=
    List.any_eq_true.2 (Lexeme.lineBreaks_pos_iff.1 (Nat.lt_of_lt_of_le Nat.zero_lt_two hbreaks))
  have hne : own ≠ [] := by
    rintro rfl
    cases hbreak
  have hfeeds : ∀ c ∈ ['\n', '\n'], Mode.markup.isBlank c = true := List.all_eq_true.1 rfl
  have hspacing : Spacing Mode.markup.isBlank own ['\n', '\n'] :=
    ⟨hne, by decide, hblank, hfeeds, hbreak.symm⟩
  refine ⟨hspacing, hlast, by decide, ?_, fun hplain => ?_, fun _ => by decide⟩
  · exact (Nat.min_eq_right hbreaks).symm
  · rw [hbreak] at hplain
    cases hplain

/-- White space that is laid out is tidied up. -/
theorem tidies_laid {tokens tokens' : List (Kind × List Char)}
    (hlays : List.Forall₂ Layout.Lays tokens tokens') (h : Tidy tokens tokens')
    (hne : ∀ token ∈ tokens, token.2 ≠ [])
    (hbreaks : ∀ token ∈ tokens, token.1 = .parbreak → 2 ≤ Lexeme.lineBreaks token.2) :
    List.Forall₂ (Tidies (∃ token ∈ tokens, token.1 ∈ Sides.itemMarkers)) tokens tokens' := by
  obtain ⟨hlength, hpairs⟩ := List.forall₂_iff_zip.1 hlays
  refine List.forall₂_iff_zip.2 ⟨hlength, fun {token token'} hpair => ?_⟩
  have htoken : token ∈ tokens := (List.of_mem_zip hpair).1
  obtain ⟨hkind, hspaces, hparbreak, htext⟩ := hpairs hpair
  refine ⟨hkind, fun hspace => ?_, fun hspace hlisted => h.level hlisted _ hpair hspace, htext,
    h.noReturn token htoken⟩
  obtain ⟨hall, hlast⟩ := h.blank token htoken hspace
  have hblank := List.all_eq_true.1 hall
  by_cases hkind : token.1 = .parbreak
  · rw [hparbreak hkind]
    exact tidied_parbreak hblank hlast (hbreaks _ htoken hkind)
  · have hnormal : Normalizes token.2 token'.2 := by
      refine hspaces ?_
      by_contra hother
      rw [isSpace_eq_false hother hkind] at hspace
      cases hspace
    exact hnormal.tidied (hne _ htoken) hblank hlast (h.lines _ hpair hspace)

end TypstFormat
