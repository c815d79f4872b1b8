import TypstFormat.Proofs.Layout.Source
import TypstFormat.Proofs.Layout.Writes

/-!
# What the layouts of argument lists write

Both layouts go through the children of a list with the fragments that were written for them, and
each child adds its own marks. The two differ in white space and in the last comma: on one line it
is left out, and with an argument on each line it is written.

## Key results

- `oneLine_writes`, `broken_writes`: both layouts write the marks of the list
- `arguments_writes`: so does the one that is chosen
-/

namespace TypstFormat.Layout

open Render TypstFormat.Tree

/-! ## One child -/

/-- What is no comma may be written as it is, for the last comma may be left out. -/
theorem laid_marksAmong {kind : Kind} (hkind : kind ≠ .comma) {own : List Mark} {text : List Char}
    (h : Laid own text) (following : List Kind) : Laid (marksAmong kind following own) text := by
  unfold marksAmong
  rw [if_neg hkind]
  split
  · simpa using h.append (Laid.dropped .nil)
  · exact h

/-- White space may become any other. -/
theorem laid_marksAmong_space {child : Tree} (h : child.Sound) (hkind : child.kind = .space)
    {text : List Char} (hblank : Blank text) (following : List Kind) :
    Laid (marksAmong child.kind following child.marks) text := by
  obtain ⟨own, rfl⟩ := h.eq_token hkind rfl
  exact .of_blanks hblank

/-- Every comma may be written. -/
theorem laid_marksAmong_comma (following : List Kind) (own : List Mark) :
    Laid (marksAmong .comma following own) [','] := by
  unfold marksAmong
  rw [if_pos rfl]
  split
  · exact .kept .nil
  · exact .comma .nil

theorem lineEnd_blank {indent : List Char} (h : Blank indent) (following : List Kind) :
    Blank (lineEnd following indent) := by
  have hline : Blank ('\n' :: indent) := .cons rfl h
  unfold lineEnd
  split
  · split
    · exact .nil
    · exact hline
  · split
    · exact .cons rfl .nil
    · exact hline
  · exact hline

theorem spaceBesideComment_blank {indent : List Char} (h : Blank indent) (previous : Option Kind)
    (following : List Kind) (space : List Char) :
    Blank (spaceBesideComment previous following space indent) := by
  unfold spaceBesideComment
  split
  · split
    · exact .cons rfl .nil
    · split
      · exact .cons rfl h
      · exact .cons rfl .nil
  · exact .nil

/-- The comma that is left out on one line is the one behind the last argument. -/
theorem endsArguments_of_isTrailingComma {children : List Tree} (hcloses : Closes children)
    (h : Siblings.isTrailingComma (children.map kind) = true) :
    endsArguments (children.map kind) = true := by
  cases children with
  | nil => cases h
  | cons first children =>
    obtain ⟨_, hfirst, hcloses⟩ := hcloses
    unfold Siblings.isTrailingComma at h
    split at h
    · -- One space stands between the comma and the parenthesis.
      rename_i second _ heq
      cases children with
      | nil => simp at heq
      | cons child children =>
        obtain ⟨hspace, hsecond, _⟩ : first.kind = .space ∧ child.kind = second ∧ _ := by
          simpa using heq
        have hparen : child.kind = .rightParen := hcloses.2.1 (hsecond ▸ h)
        simp [endsArguments, Siblings.nextIs, hspace, hparen, Kind.isFiller, Kind.isComment]
    · rename_i kind _ _ heq
      have hkind : first.kind = kind := by simpa using (List.cons.inj heq).1
      have hparen : first.kind = .rightParen := hfirst (hkind ▸ h)
      simp [endsArguments, Siblings.nextIs, hparen, Kind.isFiller, Kind.isComment]
    · cases h

/-! ## A list that is broken -/

/-- There is an answer to whether a comma is the last one, as a parenthesis follows. -/
theorem exists_isLastComma {following : List Kind} (h : .rightParen ∈ following) :
    ∃ isLast, Siblings.isLastComma? following = some isLast := by
  induction following with
  | nil => cases h
  | cons kind following ih =>
    unfold Siblings.isLastComma?
    split
    · exact ⟨false, rfl⟩
    · split
      · exact ⟨true, rfl⟩
      · rename_i hterminator
        rcases List.mem_cons.1 h with rfl | h
        · exact absurd rfl hterminator
        · exact ih h

theorem endsList_writes {following : List Kind} (h : .rightParen ∈ following) (offset : Nat) :
    Writes (endsList offset following) fun _ => True := by
  obtain ⟨isLast, hlast⟩ := exists_isLastComma h
  unfold endsList
  rw [hlast]
  exact .pure trivial

theorem brokenPart_writes {child : Tree} (hsound : child.Sound) {following : List Kind}
    (hcomma : child.kind = .comma → .rightParen ∈ following) {fragment : List Char}
    (hlaid : Laid child.marks fragment) (start : Nat) (previous : Option Kind) :
    Writes (brokenPart start previous child following fragment)
      (Laid (marksAmong child.kind following child.marks)) := by
  unfold brokenPart
  split
  · -- Behind the opening parenthesis the line ends.
    rename_i hkind
    apply Writes.bind indent_writes
    intro margin hmargin
    obtain ⟨text, rfl⟩ := hsound.eq_token hkind rfl
    have hparen : Laid [.token text] text := .singleton text
    exact .pure (hparen.append_blanks (lineEnd_blank hmargin following))
  · rename_i hkind
    apply Writes.bind indent_writes
    intro margin hmargin
    apply Writes.pure
    exact laid_marksAmong_space hsound hkind (spaceBesideComment_blank hmargin _ _ _) following
  · rename_i hkind
    rw [hkind, hsound.eq_comma hkind]
    extract_lets next
    -- The line behind a comma is indented or not, as the list goes on or ends.
    have hnext : ∀ margin, Blank margin →
        Writes (next margin) (Laid (marksAmong .comma following child.marks)) := by
      intro margin hmargin
      apply Writes.bind reset_writes
      intro _ _
      apply Writes.pure
      exact (laid_marksAmong_comma following _).append_blanks (lineEnd_blank hmargin following)
    apply Writes.bind (endsList_writes (hcomma hkind) start)
    intro ends _
    split
    · exact hnext [] .nil
    · exact .bind indent_writes hnext
  · rename_i hparen hspace hcomma
    apply Writes.bind reset_writes
    intro _ _
    have hplain := laid_marksAmong hcomma hlaid following
    split
    · apply Writes.pure
      split
      · exact hplain.append_blanks (Blank.cons rfl .nil)
      · exact hplain
    · rename_i hcomment
      split
      · -- The comma behind the last argument is written where its place is.
        rename_i hends
        have hlast : isLastArgument child.kind following = true := by
          have hends : endsArguments following = true := hends
          simp only [isLastArgument, Kind.isFiller, hcomment, hends, Bool.false_or, Bool.and_true]
          simpa using ⟨hspace, hparen⟩
        apply Writes.pure
        rw [marksAmong, if_neg hcomma, if_pos hlast]
        apply hlaid.append
        exact Laid.kept (.of_blanks (lineEnd_blank .nil following))
      · exact .pure hplain

/-! ## All children -/

theorem oneLine_writes {children : List Tree} {fragments : List (List Char)}
    (hsound : ∀ child ∈ children, child.Sound) (hcloses : Closes children)
    (hlaid : List.Forall₂ (fun child fragment => Laid child.marks fragment) children fragments)
    (previous : Option Kind) :
    Writes (oneLine previous children fragments) (Laid (argumentMarks children)) := by
  induction hlaid generalizing previous with
  | nil => exact .pure .nil
  | @cons child fragment children fragments hchild _ ih =>
    obtain ⟨hsound, hsounds⟩ := List.forall_mem_cons.1 hsound
    obtain ⟨hcomma, _, hcloses⟩ := hcloses
    unfold oneLine
    extract_lets following next
    have hnext : ∀ part, Laid (marksAmong child.kind following child.marks) part →
        Writes (next part) (Laid (argumentMarks (child :: children))) := by
      intro part hpart
      apply Writes.bind (ih hsounds hcloses (some child.kind))
      intro rest hrest
      exact .pure (hpart.append hrest)
    split
    · rename_i hkind
      apply hnext
      apply laid_marksAmong_space hsound hkind
      split
      · exact .cons rfl .nil
      · exact .nil
    · rename_i hkind
      rw [hkind] at hnext
      split
      · -- The trailing comma is left out, and its place is here.
        rename_i htrailing
        apply hnext
        rw [marksAmong, if_pos rfl, if_pos (endsArguments_of_isTrailingComma hcloses htrailing)]
        exact .dropped .nil
      · apply Writes.bind reset_writes
        intro _ _
        apply hnext
        rw [hsound.eq_comma hkind]
        exact (laid_marksAmong_comma following _).append_blanks (Blank.cons rfl .nil)
    · rename_i hkind
      apply Writes.bind reset_writes
      intro _ _
      exact hnext fragment (laid_marksAmong hkind hchild following)

theorem broken_writes {children : List Tree} {fragments : List (List Char)}
    (hsound : ∀ child ∈ children, child.Sound) (hcloses : Closes children)
    (hlaid : List.Forall₂ (fun child fragment => Laid child.marks fragment) children fragments)
    (start : Nat) (previous : Option Kind) :
    Writes (broken start previous children fragments) (Laid (argumentMarks children)) := by
  induction hlaid generalizing start previous with
  | nil => exact .pure .nil
  | @cons child fragment children fragments hchild _ ih =>
    obtain ⟨hsound, hsounds⟩ := List.forall_mem_cons.1 hsound
    obtain ⟨hcomma, _, hcloses⟩ := hcloses
    apply Writes.bind (brokenPart_writes hsound hcomma hchild start previous)
    intro part hpart
    apply Writes.bind (ih hsounds hcloses (start + child.length) (some child.kind))
    intro rest hrest
    exact .pure (hpart.append hrest)

/-- Whichever layout is chosen, a list of arguments keeps its marks. -/
theorem arguments_writes {children : List Tree} {fragments : List (List Char)}
    (hsound : ∀ child ∈ children, child.Sound) (hcloses : Closes children)
    (hlaid : List.Forall₂ (fun child fragment => Laid child.marks fragment) children fragments)
    (start : Nat) :
    Writes (arguments start children fragments) (Laid (argumentMarks children)) := by
  apply Writes.bind (oneLine_writes hsound hcloses hlaid none)
  intro line hline
  extract_lets length hasLineComment
  apply Writes.get
  intro context
  split
  · apply Writes.bind (note_writes _)
    intro _ _
    apply Writes.bind reset_writes
    intro _ _
    exact broken_writes hsound hcloses hlaid start none
  · apply Writes.bind (note_writes _)
    intro _ _
    exact .pure hline

end TypstFormat.Layout
