import TypstFormat.Proofs.Layout.Comments
import TypstFormat.Proofs.Layout.Pieces

/-!
# Gaps in lists of arguments

Both layouts of a list decide anew where white space is. A space is kept only beside a comment, and
a gap is put in behind a parenthesis, a comma or an argument only if no such space comes next. So
gaps do not meet.

`Listed` follows the children of a list from left to right and remembers whether a gap came last.
What is written for one child is followed by `Leads`: it leads from the place in front of the child
to the one behind it. At each place, a gap came last only if the layout writes none for a space that
comes next (`Settled`).

## Key results

- `Listed.isChain`: no two gaps meet
- `oneLine_lists`, `broken_lists`: both layouts of a list are `Listed`
- `arguments_sets`: the pieces of a list
-/

namespace TypstFormat.Layout

open Render TypstFormat.Tree

/-- The pieces of the children of a list of arguments. `gapped` tells whether a gap stands in front
of them, so that none may come first. -/
inductive Listed (source : List Char) : (gapped : Bool) → List Tree → List Piece → Prop where
  | nil {gapped : Bool} : Listed source gapped [] []
  | kept {gapped : Bool} {child : Tree} {fragment : List Char} {children : List Tree}
    {own pieces : List Piece} :
    Sets source child fragment own → (∃ token ∈ child.tokens.head?, token.1.isSpace = false) →
    Listed source (own.getLast?.any Piece.isGap) children pieces →
    Listed source gapped (child :: children) (own ++ pieces)
  | dropped {gapped : Bool} {kind : Kind} {text : List Char} {children : List Tree}
    {pieces : List Piece} :
    kind = .space ∨ kind = .comma → tokensAll children ≠ [] →
    Listed source gapped children pieces →
    Listed source gapped (.token kind text :: children) pieces
  | gap {gap : List Char} {children : List Tree} {pieces : List Piece} :
    NormalGap gap → tokensAll children ≠ [] → Listed source true children pieces →
    Listed source false children (.gap gap :: pieces)
  | comma {gapped : Bool} {children : List Tree} {pieces : List Piece} :
    tokensAll children ≠ [] → Listed source false children pieces →
    Listed source gapped children (.token [','] :: pieces)

namespace Listed

variable {source : List Char} {gapped : Bool} {children : List Tree} {pieces : List Piece}

theorem written (h : Listed source gapped children pieces) :
    WrittenAll source true children pieces := by
  induction h with
  | nil => exact .nil
  | kept hsets _ _ ih => exact .cons hsets.written ih
  | dropped hkind _ _ ih => exact .dropped hkind ih
  | gap _ _ _ ih => exact .added (.inl rfl) ih
  | comma _ _ ih => exact .added (.inr rfl) ih

theorem gaps (h : Listed source gapped children pieces) :
    ∀ gap, .gap gap ∈ pieces → NormalGap gap := by
  induction h with
  | nil => simp
  | kept hsets _ _ ih =>
    intro gap hgap
    exact (List.mem_append.1 hgap).elim (hsets.gaps gap) (ih gap)
  | dropped _ _ _ ih => exact ih
  | gap hnormal _ _ ih => simpa using ⟨hnormal, ih⟩
  | comma _ _ ih => simpa using ih

/-- No two gaps meet, and none meets the one in front. -/
theorem isChain (h : Listed source gapped children pieces) :
    pieces.IsChain Piece.Apart ∧
      (gapped = true → ∀ piece ∈ pieces.head?, piece.isGap = false) := by
  induction h with
  | nil => exact ⟨.nil, by simp⟩
  | @kept gapped child fragment children own pieces hsets hbegins _ ih =>
    obtain ⟨hchain, hhead⟩ := ih
    refine ⟨List.isChain_append.2 ⟨hsets.paced.isChain, hchain, ?_⟩, fun _ piece hpiece => ?_⟩
    · rintro piece hpiece next hnext ⟨hgap, hgap'⟩
      have hlast : own.getLast?.any Piece.isGap = true := by
        rw [Option.mem_def.1 hpiece]
        exact hgap
      rw [hhead hlast next hnext] at hgap'
      cases hgap'
    · obtain ⟨first, hfirst, hplain⟩ := hsets.paced.head_plain hbegins
      rw [List.head?_append, Option.mem_def.1 hfirst] at hpiece
      obtain rfl := Option.some.inj hpiece
      exact hplain
  | dropped _ _ _ ih => exact ih
  | gap _ _ _ ih =>
    obtain ⟨hchain, hhead⟩ := ih
    refine ⟨List.isChain_cons.2 ⟨fun next hnext hgaps => ?_, hchain⟩, by simp⟩
    rw [hhead rfl next hnext] at hgaps
    cases hgaps.2
  | comma _ _ ih =>
    exact ⟨List.isChain_cons.2 ⟨fun _ _ hgaps => (nomatch hgaps.1), ih.1⟩, by simp [Piece.isGap]⟩

/-- A gap comes last where white space does. -/
theorem last_eq (h : Listed source gapped children pieces) :
    pieces.getLast?.map Piece.isGap =
      (tokensAll children).getLast?.map fun token => token.1.isSpace := by
  have hmore {tokens : List (Kind × List Char)} {pieces : List Piece}
      (heq : pieces.getLast?.map Piece.isGap = tokens.getLast?.map fun token => token.1.isSpace)
      (hne : tokens ≠ []) : pieces ≠ [] := by
    rintro rfl
    rw [List.getLast?_nil, Option.map_none, eq_comm, Option.map_eq_none_iff,
      List.getLast?_eq_none_iff] at heq
    exact hne heq
  induction h with
  | nil => rfl
  | kept hsets _ _ ih =>
    rw [tokensAll, List.getLast?_append, List.getLast?_append, Option.map_or, Option.map_or, ih,
      hsets.paced.last_eq]
  | dropped _ hne _ ih =>
    rw [tokensAll, List.getLast?_append_of_ne_nil _ hne, ih]
  | gap _ hne _ ih => rw [List.getLast?_cons_of_ne_nil (hmore ih hne), ih]
  | comma hne _ ih => rw [List.getLast?_cons_of_ne_nil (hmore ih hne), ih]

end Listed

/-- A text leads from one place in a list to another one: it is made of pieces that may stand in
front of all that the rest of the list is written as. -/
def Leads (source : List Char) (gapped : Bool) (children : List Tree) (text : List Char)
    (gapped' : Bool) (children' : List Tree) : Prop :=
  ∀ pieces, Listed source gapped' children' pieces →
    ∃ all, Listed source gapped children all ∧
      Piece.textAll all = text ++ Piece.textAll pieces

namespace Leads

variable {source text more : List Char} {gapped gapped' gapped'' : Bool}
  {children children' children'' : List Tree} {child : Tree}

theorem trans (h : Leads source gapped children text gapped' children')
    (hmore : Leads source gapped' children' more gapped'' children'') :
    Leads source gapped children (text ++ more) gapped'' children'' := by
  intro pieces hpieces
  obtain ⟨behind, hbehind, htext⟩ := hmore pieces hpieces
  obtain ⟨all, hall, htexts⟩ := h behind hbehind
  exact ⟨all, hall, by rw [htexts, htext, List.append_assoc]⟩

theorem kept {fragment : List Char} {own : List Piece} (hsets : Sets source child fragment own)
    (hbegins : ∃ token ∈ child.tokens.head?, token.1.isSpace = false) :
    Leads source gapped (child :: children) fragment (own.getLast?.any Piece.isGap) children := by
  intro pieces hpieces
  exact ⟨own ++ pieces, .kept hsets hbegins hpieces, by
    rw [Piece.textAll_append, ← hsets.text_eq]⟩

theorem dropped (hsound : child.Sound) (hkind : child.kind = .space ∨ child.kind = .comma)
    (hne : tokensAll children ≠ []) :
    Leads source gapped (child :: children) [] gapped children := by
  have htoken : child.kind.isNode = false := by
    rcases hkind with hkind | hkind <;> rw [hkind] <;> rfl
  obtain ⟨own, heq⟩ := hsound.eq_token rfl htoken
  rw [heq]
  exact fun pieces hpieces => ⟨pieces, .dropped hkind hne hpieces, rfl⟩

/-- A gap may be put in, or none. -/
theorem gap {gap : List Char} (hnormal : gap ≠ [] → NormalGap gap)
    (hne : tokensAll children ≠ []) :
    Leads source false children gap (gap ≠ []) children := by
  intro pieces hpieces
  by_cases hgap : gap = []
  · subst hgap
    exact ⟨pieces, hpieces, rfl⟩
  · rw [decide_eq_true hgap] at hpieces
    exact ⟨.gap gap :: pieces, .gap (hnormal hgap) hne hpieces, rfl⟩

theorem comma (hne : tokensAll children ≠ []) :
    Leads source gapped children [','] false children :=
  fun pieces hpieces => ⟨.token [','] :: pieces, .comma hne hpieces, rfl⟩

end Leads

/-- If a gap came last, then no gap is written for a space that comes next. -/
def Settled (gapped : Bool) (following : List Kind) (silent : List Kind → Prop) : Prop :=
  gapped = true → ∀ rest, following = .space :: rest → silent rest

/-- Where a gap is written for a space, none came last. -/
theorem Settled.eq_false {gapped : Bool} {rest : List Kind} {silent : List Kind → Prop}
    (h : Settled gapped (.space :: rest) silent) (hloud : ¬silent rest) : gapped = false := by
  rw [Bool.eq_false_iff]
  exact fun hgapped => hloud (h hgapped rest rfl)

/-- The list does not end with a child behind which more has to come. -/
def EndsFirmly (children : List Tree) : Prop :=
  ∀ child ∈ children.getLast?, child.kind ∉ [.leftParen, .space, .comma]

namespace EndsFirmly

variable {child : Tree} {children : List Tree}

theorem tail (h : EndsFirmly (child :: children)) : EndsFirmly children := by
  intro last hlast
  refine h last ?_
  rw [List.getLast?_cons, Option.mem_def.1 hlast]
  rfl

theorem ne_nil (h : EndsFirmly (child :: children))
    (hkind : child.kind ∈ [.leftParen, .space, .comma]) : children ≠ [] := by
  rintro rfl
  exact h child rfl hkind

end EndsFirmly

/-- A child of a list of arguments, and what was written for it. If it is no space, it begins with a
token. -/
structure Member (source : List Char) (child : Tree) (fragment : List Char) : Prop where
  sound : child.Sound
  begins : child.kind ≠ .space → ∃ token ∈ child.tokens.head?, token.1.isSpace = false
  sets : ∃ pieces, Sets source child fragment pieces

namespace Member

variable {source fragment : List Char} {fragments : List (List Char)} {child : Tree}
  {children : List Tree}

theorem tokens_ne_nil (h : Member source child fragment) : child.tokens ≠ [] := by
  by_cases hspace : child.kind = .space
  · obtain ⟨own, rfl⟩ := h.sound.eq_token hspace rfl
    exact List.cons_ne_nil _ _
  · obtain ⟨token, htoken, -⟩ := h.begins hspace
    rintro hnil
    rw [hnil] at htoken
    cases htoken

theorem tokensAll_ne_nil (h : List.Forall₂ (Member source) children fragments)
    (hne : children ≠ []) : tokensAll children ≠ [] := by
  cases h with
  | nil => exact absurd rfl hne
  | cons hfirst _ => exact fun hnil => hfirst.tokens_ne_nil (List.append_eq_nil_iff.1 hnil).1

/-- What was written for a child is kept. A gap comes last only where the source has white space. -/
theorem leads (h : Member source child fragment) (hkind : child.kind ≠ .space) (gapped : Bool)
    (children : List Tree) :
    ∃ ends, Leads source gapped (child :: children) fragment ends children ∧
      (ends = true → ∃ token ∈ child.tokens.getLast?, token.1.isSpace = true) := by
  obtain ⟨own, hsets⟩ := h.sets
  refine ⟨_, .kept hsets (h.begins hkind), fun hends => ?_⟩
  cases hlast : own.getLast? with
  | none =>
    rw [hlast] at hends
    cases hends
  | some piece =>
    rw [hlast] at hends
    exact hsets.paced.last_isSpace hlast hends

/-- A comment is not white space. -/
theorem not_white_of_isComment (h : Member source child fragment)
    (hcomment : child.kind.isComment = true) :
    ¬∃ token ∈ child.tokens.getLast?, token.1.isSpace = true := by
  rintro ⟨token, htoken, hspace⟩
  have hplain : child.kind.isNode = false ∧ child.kind.isSpace = false := by
    revert hcomment
    cases child.kind <;> decide
  obtain ⟨own, heq⟩ := h.sound.eq_token rfl hplain.1
  rw [heq] at htoken
  obtain rfl := Option.some.inj htoken
  exact Bool.eq_false_iff.1 hplain.2 hspace

/-- Behind white space no space comes next, so a gap may come last there. -/
theorem settled (h : List.Forall₂ (Member source) children fragments)
    (hchain : (tokensAll (child :: children)).IsChain Tree.Apart) {gapped : Bool}
    (hwhite : gapped = true → ∃ token ∈ child.tokens.getLast?, token.1.isSpace = true)
    (silent : List Kind → Prop) : Settled gapped (children.map kind) silent := by
  intro hgapped rest heq
  obtain ⟨token, htoken, hspace⟩ := hwhite hgapped
  cases h with
  | nil => cases heq
  | cons hnext _ =>
    obtain ⟨own, rfl⟩ := hnext.sound.eq_token (List.cons.inj heq).1 rfl
    exact absurd ⟨hspace, rfl⟩ ((List.isChain_append.1 hchain).2.2 token htoken _ rfl)

/-- For a space, a gap is written where none came last, or nothing. -/
theorem space_leads (h : Member source child fragment)
    (hmembers : List.Forall₂ (Member source) children fragments)
    (hchain : (tokensAll (child :: children)).IsChain Tree.Apart)
    (hends : EndsFirmly (child :: children)) (hspace : child.kind = .space) {gapped : Bool}
    {silent : List Kind → Prop} (hsettled : Settled gapped ((child :: children).map kind) silent)
    {gap : List Char} (hloud : gap ≠ [] → NormalGap gap ∧ ¬silent (children.map kind)) :
    ∃ gapped', Leads source gapped (child :: children) gap gapped' children ∧
      ∀ silent', Settled gapped' (children.map kind) silent' := by
  have hne := tokensAll_ne_nil hmembers (hends.ne_nil (by simp [hspace]))
  have hdropped {gapped : Bool} : Leads source gapped (child :: children) [] gapped children :=
    .dropped h.sound (.inl hspace) hne
  have hbehind (gapped' : Bool) (silent' : List Kind → Prop) :
      Settled gapped' (children.map kind) silent' := by
    obtain ⟨own, rfl⟩ := h.sound.eq_token hspace rfl
    exact settled hmembers hchain (fun _ => ⟨_, rfl, rfl⟩) silent'
  by_cases hgap : gap = []
  · rw [hgap]
    exact ⟨gapped, hdropped, hbehind gapped⟩
  · obtain ⟨hnormal, hsilent⟩ := hloud hgap
    rw [List.map_cons, hspace] at hsettled
    obtain rfl := hsettled.eq_false hsilent
    exact ⟨_, hdropped.trans (.gap (fun _ => hnormal) hne), hbehind _⟩

/-- A comma is written as one. -/
theorem comma_leads (h : Member source child fragment) (hcomma : child.kind = .comma)
    (hne : tokensAll children ≠ []) (gapped : Bool) :
    Leads source gapped (child :: children) child.ownText false children := by
  have hown : child.ownText = [','] := by
    rw [h.sound.eq_comma hcomma]
    rfl
  rw [hown]
  exact (Leads.dropped h.sound (.inr hcomma) hne).trans (.comma hne)

end Member

section

variable {source : List Char} {children : List Tree} {fragments : List (List Char)}

/-- On one line, only a space is written for a space. -/
theorem gap_of_spacesComment (previous : Option Kind) (following : List Kind)
    (hne : (if spacesComment previous following then [' '] else []) ≠ []) :
    NormalGap (if spacesComment previous following then [' '] else []) ∧
      ¬spacesComment previous following = false := by
  cases hspaces : spacesComment previous following with
  | false => simp [hspaces] at hne
  | true => exact ⟨.space, by simp⟩

/-- On one line, gaps do not meet. -/
theorem oneLine_lists (h : List.Forall₂ (Member source) children fragments)
    (hchain : (tokensAll children).IsChain Tree.Apart)
    (hends : EndsFirmly children) (previous : Option Kind) (gapped : Bool)
    (hsettled : Settled gapped (children.map kind) fun rest =>
      spacesComment previous rest = false) :
    Yields (oneLine previous children fragments) fun text =>
      ∃ pieces, Listed source gapped children pieces ∧ Piece.textAll pieces = text := by
  induction h generalizing previous gapped with
  | nil => exact .pure ⟨[], .nil, rfl⟩
  | @cons child fragment children fragments hchild hmembers ih =>
    have hrest := (List.isChain_append.1 hchain).2.1
    unfold oneLine
    extract_lets following next
    -- What leads to the rest of the list goes in front of it.
    have hnext {part : List Char} {gapped' : Bool}
        (hleads : Leads source gapped (child :: children) part gapped' children)
        (hsettled' : Settled gapped' (children.map kind) fun rest =>
          spacesComment (some child.kind) rest = false) :
        Yields (next part) fun text =>
          ∃ pieces, Listed source gapped (child :: children) pieces ∧
            Piece.textAll pieces = text := by
      refine .bind (ih hrest hends.tail (some child.kind) gapped' hsettled') ?_
      rintro _ ⟨pieces, hpieces, rfl⟩
      exact .pure (hleads pieces hpieces)
    split
    · rename_i hspace
      obtain ⟨gapped', hleads, hsettled'⟩ := hchild.space_leads hmembers hchain hends hspace
        hsettled (gap_of_spacesComment previous following)
      exact hnext hleads (hsettled' _)
    · rename_i hcomma
      have hne := Member.tokensAll_ne_nil hmembers (hends.ne_nil (by simp [hcomma]))
      -- Behind a comma no space is needed.
      have hsettled' (gapped' : Bool) : Settled gapped' (children.map kind) fun rest =>
          spacesComment (some child.kind) rest = false := by
        intro _ rest _
        rw [hcomma]
        cases rest <;> rfl
      split
      · exact hnext (.dropped hchild.sound (.inr hcomma) hne) (hsettled' _)
      · have hleads := (hchild.comma_leads hcomma hne gapped).trans (.gap (fun _ => .space) hne)
        exact .next fun _ => hnext hleads (hsettled' _)
    · rename_i hspace hcomma
      obtain ⟨ends, hleads, hwhite⟩ := hchild.leads hspace gapped children
      exact .next fun _ => hnext hleads (Member.settled hmembers hchain hwhite _)

/-! ### Lists that are broken -/

/-- Nothing but spaces. -/
def Margin (margin : List Char) : Prop :=
  ∀ c ∈ margin, c = ' '

theorem Margin.nil : Margin [] := by
  simp [Margin]

theorem indent_yields : Yields indent Margin := by
  refine .next fun context => ?_
  dsimp only
  split
  · exact .pure fun c hc => List.eq_of_mem_replicate hc
  · exact .throw _

/-- A line feed and a margin. -/
theorem NormalGap.line {margin : List Char} (h : Margin margin) : NormalGap ('\n' :: margin) := by
  have hnormal : NormalGap (List.replicate 1 '\n' ++ margin) := by
    refine .newlines (Nat.le_refl 1) (by decide) fun c hc => ?_
    rw [h c hc]
    decide
  exact hnormal

/-- Whether a comment stands next to a space. -/
def besideComment (previous : Option Kind) (following : List Kind) : Bool :=
  previous.any Kind.isComment || following.head?.any Kind.isComment

theorem gap_of_spaceBesideComment {margin : List Char} (h : Margin margin)
    {previous : Option Kind} {following : List Kind} {own : List Char}
    (hne : spaceBesideComment previous following own margin ≠ []) :
    NormalGap (spaceBesideComment previous following own margin) ∧
      ¬besideComment previous following = false := by
  have hbeside : (previous.any Kind.isComment || following.head?.any Kind.isComment) = true := by
    by_contra hbeside
    exact hne (if_neg hbeside)
  refine ⟨?_, by rw [besideComment, hbeside]; simp⟩
  rw [spaceBesideComment, if_pos hbeside]
  split
  · exact .line .nil
  · split
    · exact .line h
    · exact .space

/-- Where a line ends with white space, no space before a comment comes next. -/
theorem lineEnd_normal {margin : List Char} (h : Margin margin) {following : List Kind}
    (hne : lineEnd following margin ≠ []) :
    NormalGap (lineEnd following margin) ∧
      ∀ rest, following = .space :: rest → rest.head?.any Kind.isComment = false := by
  unfold lineEnd at hne ⊢
  split at hne
  · rename_i next behind
    cases hcomment : next.isComment with
    | true => simp [hcomment] at hne
    | false =>
      refine ⟨?_, ?_⟩
      · simpa [hcomment] using NormalGap.line h
      · rintro _ ⟨⟩
        exact hcomment
  · rename_i next behind hlonely
    refine ⟨?_, ?_⟩
    · split
      · exact .space
      · exact .line h
    · rintro _ ⟨⟩
      cases behind with
      | nil => rfl
      | cons second behind => exact (hlonely second behind rfl rfl).elim
  · exact ⟨.line h, by simp⟩

/-- The line may end behind a child that is no comment. -/
theorem lineEnd_leads {previous : Kind} (hcomment : previous.isComment = false)
    (hne : tokensAll children ≠ []) {margin : List Char} (h : Margin margin) :
    ∃ gapped', Leads source false children (lineEnd (children.map kind) margin) gapped' children ∧
      Settled gapped' (children.map kind) fun rest =>
        besideComment (some previous) rest = false := by
  refine ⟨_, .gap (fun hgap => (lineEnd_normal h hgap).1) hne, fun hgapped rest heq => ?_⟩
  have hnext := (lineEnd_normal h (of_decide_eq_true hgapped)).2 rest heq
  simp [besideComment, hcomment, hnext]

/-- What is written for one child leads to the next one. -/
theorem brokenPart_leads {child : Tree} {fragment : List Char}
    (hchild : Member source child fragment)
    (hmembers : List.Forall₂ (Member source) children fragments)
    (hchain : (tokensAll (child :: children)).IsChain Tree.Apart)
    (hends : EndsFirmly (child :: children)) (start : Nat) (previous : Option Kind) (gapped : Bool)
    (hsettled : Settled gapped ((child :: children).map kind) fun rest =>
      besideComment previous rest = false) :
    Yields (brokenPart start previous child (children.map kind) fragment) fun part =>
      ∃ gapped', Leads source gapped (child :: children) part gapped' children ∧
        Settled gapped' (children.map kind) fun rest =>
          besideComment (some child.kind) rest = false := by
  unfold brokenPart
  split
  · rename_i hkind
    obtain ⟨own, rfl⟩ := hchild.sound.eq_token hkind rfl
    have hne := Member.tokensAll_ne_nil hmembers (hends.ne_nil (by simp [hkind]))
    have hparen : Leads source gapped (.token .leftParen own :: children) own false children :=
      .kept (.token rfl own) ⟨_, rfl, rfl⟩
    have hcomment : Kind.leftParen.isComment = false := rfl
    refine .bind indent_yields fun margin hmargin => .pure ?_
    obtain ⟨gapped', hleads, hsettled'⟩ := lineEnd_leads hcomment hne hmargin
    exact ⟨gapped', hparen.trans hleads, hsettled'⟩
  · rename_i hkind
    refine .bind indent_yields fun margin hmargin => .pure ?_
    obtain ⟨gapped', hleads, hsettled'⟩ := hchild.space_leads hmembers hchain hends hkind hsettled
      (gap_of_spaceBesideComment hmargin)
    exact ⟨gapped', hleads, hsettled' _⟩
  · rename_i hkind
    have hne := Member.tokensAll_ne_nil hmembers (hends.ne_nil (by simp [hkind]))
    extract_lets next
    have hnext {margin : List Char} (hmargin : Margin margin) : Yields (next margin) fun part =>
        ∃ gapped', Leads source gapped (child :: children) part gapped' children ∧
          Settled gapped' (children.map kind) fun rest =>
            besideComment (some child.kind) rest = false := by
      have hcomment : child.kind.isComment = false := by
        rw [hkind]
        rfl
      refine .next fun _ => .pure ?_
      obtain ⟨gapped', hleads, hsettled'⟩ := lineEnd_leads hcomment hne hmargin
      exact ⟨gapped', (hchild.comma_leads hkind hne gapped).trans hleads, hsettled'⟩
    refine .next fun ends => ?_
    split
    · exact hnext .nil
    · exact .bind indent_yields fun margin hmargin => hnext hmargin
  · rename_i hspace _
    obtain ⟨ends, hleads, hwhite⟩ := hchild.leads hspace gapped children
    have hsettled' := Member.settled hmembers hchain hwhite
    refine .next fun _ => ?_
    split
    · rename_i hcomment
      split
      · -- The parenthesis comes on the next line, as a comment could reach over it.
        rename_i hclose
        obtain rfl : ends = false := by
          rw [Bool.eq_false_iff]
          exact fun hgap => hchild.not_white_of_isComment hcomment (hwhite hgap)
        have hnil : children ≠ [] := by
          rintro rfl
          cases hclose
        have hne := Member.tokensAll_ne_nil hmembers hnil
        refine .pure ⟨_, hleads.trans (.gap (fun _ => .line .nil) hne), fun _ rest heq => ?_⟩
        rw [heq] at hclose
        cases hclose
      · exact .pure ⟨_, hleads, hsettled' _⟩
    · rename_i hcomment
      split
      · -- The last argument gets its comma.
        rename_i hlast
        have hnil : children ≠ [] := by
          rintro rfl
          cases hlast
        have hne := Member.tokensAll_ne_nil hmembers hnil
        obtain ⟨gapped', hend, hsettled'⟩ := lineEnd_leads (Bool.eq_false_iff.2 hcomment) hne
          .nil
        exact .pure ⟨_, hleads.trans ((Leads.comma hne).trans hend), hsettled'⟩
      · exact .pure ⟨_, hleads, hsettled' _⟩

/-- With an argument on each line, gaps do not meet. -/
theorem broken_lists (h : List.Forall₂ (Member source) children fragments)
    (hchain : (tokensAll children).IsChain Tree.Apart) (hends : EndsFirmly children) (start : Nat)
    (previous : Option Kind) (gapped : Bool)
    (hsettled : Settled gapped (children.map kind) fun rest =>
      besideComment previous rest = false) :
    Yields (broken start previous children fragments) fun text =>
      ∃ pieces, Listed source gapped children pieces ∧ Piece.textAll pieces = text := by
  induction h generalizing start previous gapped with
  | nil => exact .pure ⟨[], .nil, rfl⟩
  | cons hchild hmembers ih =>
    refine .bind (brokenPart_leads hchild hmembers hchain hends start previous gapped hsettled) ?_
    rintro part ⟨gapped', hleads, hsettled'⟩
    refine .bind (ih (List.isChain_append.1 hchain).2.1 hends.tail _ _ gapped' hsettled') ?_
    rintro _ ⟨pieces, hpieces, rfl⟩
    exact .pure (hleads pieces hpieces)

theorem Listed.setsAll {pieces : List Piece} (h : Listed source true children pieces)
    (hopens : ∃ token ∈ (tokensAll children).head?, token.1.isSpace = false) :
    SetsAll source true children (Piece.textAll pieces) pieces := by
  obtain ⟨hchain, hhead⟩ := h.isChain
  refine ⟨rfl, h.written, ⟨?_, h.last_eq, hchain⟩, h.gaps⟩
  obtain ⟨token, htoken, hspace⟩ := hopens
  rw [Option.mem_def.1 htoken, Option.map_some, hspace]
  cases pieces with
  | nil =>
    -- The last token would have no piece.
    have hlast := h.last_eq
    rw [List.getLast?_nil, Option.map_none, eq_comm, Option.map_eq_none_iff,
      List.getLast?_eq_none_iff] at hlast
    rw [hlast] at htoken
    cases htoken
  | cons piece pieces => exact congrArg some (hhead rfl piece rfl)

/-- Whichever layout is chosen, the gaps of a list of arguments do not meet. -/
theorem arguments_sets (h : List.Forall₂ (Member source) children fragments)
    (hchain : (tokensAll children).IsChain Tree.Apart) (hends : EndsFirmly children)
    (hopens : ∃ token ∈ (tokensAll children).head?, token.1.isSpace = false) (start : Nat) :
    Yields (arguments start children fragments) fun text =>
      ∃ pieces, SetsAll source true children text pieces := by
  -- No space comes first, so it does not matter what stands in front.
  have hfirst (silent : List Kind → Prop) : Settled true (children.map kind) silent := by
    intro _ rest heq
    obtain ⟨token, htoken, hspace⟩ := hopens
    cases h with
    | nil => cases heq
    | cons hchild _ =>
      obtain ⟨own, rfl⟩ := hchild.sound.eq_token (List.cons.inj heq).1 rfl
      obtain rfl := Option.some.inj htoken
      cases hspace
  have hbroken := broken_lists h hchain hends start none true (hfirst _)
  have hlines : Yields (broken start none children fragments) fun text =>
      ∃ pieces, SetsAll source true children text pieces := by
    intro context text after hrun
    obtain ⟨pieces, hpieces, rfl⟩ := hbroken context text after hrun
    exact ⟨pieces, hpieces.setsAll hopens⟩
  unfold arguments
  refine .bind (oneLine_lists h hchain hends none true (hfirst _)) ?_
  rintro _ ⟨pieces, hpieces, rfl⟩
  extract_lets length hasLineComment
  refine .next fun context => ?_
  split
  · exact .next fun _ => .next fun _ => hlines
  · exact .next fun _ => .pure ⟨pieces, hpieces.setsAll hopens⟩

end

end TypstFormat.Layout
