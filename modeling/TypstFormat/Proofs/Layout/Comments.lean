import TypstFormat.Proofs.Layout.Endings
import TypstFormat.Proofs.Layout.Lists
import TypstFormat.Proofs.Layout.Newlines

/-!
# Line comments keep their lines

In a text that is written, nothing stands behind a line comment on its line. This is so in the
source, where white space that starts with a line break follows a line comment, and all that can be
lost is that white space. Outside of lists of arguments it is written with its line breaks. A list
with a line comment is broken into lines, and there the white space behind the comment becomes a
line feed.

`Spread` goes through the tokens and the text from left to right. It remembers whether a line
comment came last, so that a line feed is due.

## Key results

- `Spread.append`: texts one behind the other
- `broken_spreads`: a list that is broken into lines
- `alone_spreads`: what a tree is written as
- `format_comments_end`: a line comment ends its line
-/

namespace TypstFormat

/-- A text that holds tokens in their order, with a line feed or nothing more behind each line
comment. White space and commas may be left out, and others may be put in. -/
inductive Commented : List (Kind × List Char) → List Char → Prop where
  | nil : Commented [] []
  | comment (own : List Char) {tokens : List (Kind × List Char)} {text : List Char} :
    (∀ c ∈ text.head?, c = '\n') → Commented tokens text →
    Commented ((.lineComment, own) :: tokens) (own ++ text)
  | token {kind : Kind} (own : List Char) {tokens : List (Kind × List Char)} {text : List Char} :
    kind ≠ .lineComment → Commented tokens text → Commented ((kind, own) :: tokens) (own ++ text)
  | dropped {kind : Kind} (own : List Char) {tokens : List (Kind × List Char)}
    {text : List Char} :
    kind.isGlue = true → Commented tokens text → Commented ((kind, own) :: tokens) text
  | added {c : Char} {tokens : List (Kind × List Char)} {text : List Char} :
    Text.isSpace c = true ∨ c = ',' → Commented tokens text → Commented tokens (c :: text)

/-- A part of such a text. `due` tells whether a line comment stands in front of it, so that a line
feed has to come next, and `due'` whether one stands at its end. -/
inductive Spread : (due : Bool) → List (Kind × List Char) → List Char → (due' : Bool) → Prop where
  | nil {due : Bool} : Spread due [] [] due
  | comment (own : List Char) {tokens : List (Kind × List Char)} {text : List Char}
    {due' : Bool} :
    Spread true tokens text due' → Spread false ((.lineComment, own) :: tokens) (own ++ text) due'
  | token {kind : Kind} (own : List Char) {tokens : List (Kind × List Char)} {text : List Char}
    {due' : Bool} :
    kind ≠ .lineComment → Spread false tokens text due' →
    Spread false ((kind, own) :: tokens) (own ++ text) due'
  | dropped {kind : Kind} (own : List Char) {tokens : List (Kind × List Char)}
    {text : List Char} {due due' : Bool} :
    kind.isGlue = true → Spread due tokens text due' → Spread due ((kind, own) :: tokens) text due'
  | added {c : Char} {tokens : List (Kind × List Char)} {text : List Char} {due due' : Bool} :
    Text.isSpace c = true ∨ c = ',' → (due = true → c = '\n') → Spread false tokens text due' →
    Spread due tokens (c :: text) due'

open TypstFormat.Tree (Follows BreaksLine NodesEnd tokensAll)

namespace Spread

variable {due due' due'' : Bool} {tokens more : List (Kind × List Char)} {text rest : List Char}

theorem append (h : Spread due tokens text due') (hrest : Spread due' more rest due'') :
    Spread due (tokens ++ more) (text ++ rest) due'' := by
  induction h with
  | nil => exact hrest
  | comment own _ ih =>
    rw [List.append_assoc]
    exact .comment own (ih hrest)
  | token own hkind _ ih =>
    rw [List.append_assoc]
    exact .token own hkind (ih hrest)
  | dropped own hkind _ ih => exact .dropped own hkind (ih hrest)
  | added hc hdue _ ih => exact .added hc hdue (ih hrest)

theorem of_blank (h : Blank text) : Spread false [] text false := by
  induction text with
  | nil => exact .nil
  | cons c text ih =>
    obtain ⟨hc, h⟩ := List.forall_mem_cons.1 h
    exact .added (.inl hc) (by simp) (ih h)

/-- White space may become any other, but it has to start with a line feed if one is due. -/
theorem of_space {kind : Kind} (hkind : kind.isGlue = true) (own : List Char) (h : Blank text)
    (hdue : due = true → text.head? = some '\n') : Spread due [(kind, own)] text false := by
  refine .dropped own hkind ?_
  cases text with
  | nil =>
    cases due with
    | true => cases hdue rfl
    | false => exact .nil
  | cons c text =>
    obtain ⟨hc, h⟩ := List.forall_mem_cons.1 h
    exact .added (.inl hc) (fun hdue' => Option.some.inj (hdue hdue')) (of_blank h)

/-- The line feed that is due comes first. -/
theorem head?_eq (h : Spread due tokens text due') (hdue : due = true) :
    ∀ c ∈ text.head?, c = '\n' := by
  induction h with
  | nil => simp
  | comment => cases hdue
  | token => cases hdue
  | dropped _ _ _ ih => exact ih hdue
  | added _ hc _ _ => simpa using hc hdue

theorem commented (h : Spread due tokens text due') : Commented tokens text := by
  induction h with
  | nil => exact .nil
  | comment own hrest ih => exact .comment own (hrest.head?_eq rfl) ih
  | token own hkind _ ih => exact .token own hkind ih
  | dropped own hkind _ ih => exact .dropped own hkind ih
  | added hc _ _ ih => exact .added hc ih

end Spread

/-! ## From one token to the next -/

/-- Tokens of a source that may come where a line feed is due or not. -/
def Fits (due : Bool) (tokens : List (Kind × List Char)) : Prop :=
  (due = true → ∀ token ∈ tokens.head?, BreaksLine token) ∧ tokens.IsChain Follows

/-- If a line feed is due behind the tokens, then a line comment comes last. -/
def EndsDue (due : Bool) (tokens : List (Kind × List Char)) (due' : Bool) : Prop :=
  due' = true → (tokens = [] ∧ due = true) ∨ ∃ token ∈ tokens.getLast?, token.1 = .lineComment

/-- Wherever the tokens fit, the text is made of them. -/
def Spreads (tokens : List (Kind × List Char)) (text : List Char) : Prop :=
  ∀ due, Fits due tokens → ∃ due', Spread due tokens text due' ∧ EndsDue due tokens due'

section

variable {due due' due'' : Bool} {tokens more : List (Kind × List Char)} {text rest : List Char}

theorem Fits.left (h : Fits due (tokens ++ more)) : Fits due tokens := by
  refine ⟨fun hdue token htoken => h.1 hdue token ?_, (List.isChain_append.1 h.2).1⟩
  rw [List.head?_append, Option.mem_def.1 htoken]
  rfl

theorem Fits.right (h : Fits due (tokens ++ more)) (hends : EndsDue due tokens due') :
    Fits due' more := by
  obtain ⟨hhead, hchain⟩ := h
  obtain ⟨-, hmore, hmeet⟩ := List.isChain_append.1 hchain
  refine ⟨fun hdue' next hnext => ?_, hmore⟩
  rcases hends hdue' with ⟨rfl, hdue⟩ | ⟨token, htoken, hcomment⟩
  · exact hhead hdue next hnext
  · exact hmeet token htoken next hnext hcomment

/-- A token other than white space does not come where a line feed is due. -/
theorem Fits.due_eq_false {token : Kind × List Char} (h : Fits due (token :: tokens))
    (hspace : token.1.isSpace = false) : due = false := by
  cases due with
  | false => rfl
  | true =>
    rw [(h.1 rfl token rfl).1] at hspace
    cases hspace

theorem EndsDue.append (h : EndsDue due tokens due') (hmore : EndsDue due' more due'') :
    EndsDue due (tokens ++ more) due'' := by
  intro hdue''
  rcases hmore hdue'' with ⟨rfl, hdue'⟩ | ⟨token, htoken, hcomment⟩
  · simpa using h hdue'
  · refine .inr ⟨token, ?_, hcomment⟩
    rw [List.getLast?_append, Option.mem_def.1 htoken]
    rfl

theorem EndsDue.of_false : EndsDue due tokens false := by
  rintro ⟨⟩

namespace Spreads

theorem nil : Spreads [] [] :=
  fun due _ => ⟨due, .nil, fun hdue => .inl ⟨rfl, hdue⟩⟩

theorem append (h : Spreads tokens text) (hmore : Spreads more rest) :
    Spreads (tokens ++ more) (text ++ rest) := by
  intro due hfits
  obtain ⟨due', hspread, hends⟩ := h due hfits.left
  obtain ⟨due'', hspread', hends'⟩ := hmore due' (hfits.right hends)
  exact ⟨due'', hspread.append hspread', hends.append hends'⟩

/-- A token other than white space is written as it is. -/
theorem token {kind : Kind} (hkind : kind.isSpace = false) (own : List Char) :
    Spreads [(kind, own)] own := by
  intro due hfits
  obtain rfl := hfits.due_eq_false hkind
  by_cases hcomment : kind = .lineComment
  · subst hcomment
    refine ⟨true, ?_, fun _ => .inr ⟨_, rfl, rfl⟩⟩
    simpa using Spread.comment own .nil
  · refine ⟨false, ?_, .of_false⟩
    simpa using Spread.token own hcomment .nil

/-- White space is written as white space, with its first line break. -/
theorem space {kind : Kind} (hkind : kind.isSpace = true) {own : List Char} (h : Blank text)
    (hbreak : own.head?.any Text.isLineBreak = true → text.head? = some '\n') :
    Spreads [(kind, own)] text := by
  intro due hfits
  have hglue : kind.isGlue = true := by simp [Kind.isGlue, hkind]
  exact ⟨false, .of_space hglue own h fun hdue => hbreak (hfits.1 hdue _ rfl).2, .of_false⟩

theorem flatten {trees : List Tree} {fragments : List (List Char)}
    (h : List.Forall₂ (fun t fragment => Spreads t.tokens fragment) trees fragments) :
    Spreads (tokensAll trees) fragments.flatten := by
  induction h with
  | nil => exact nil
  | cons hfirst _ ih => exact hfirst.append ih

end Spreads

end

/-! ## Actions -/

namespace Render

/-- All that is known of what an action gives, if it gives anything. -/
def Yields (x : Render α) (Q : α → Prop) : Prop :=
  ∀ context a after, x.run context = .ok (a, after) → Q a

namespace Yields

variable {x : Render α} {f : α → Render β} {P : α → Prop} {Q : β → Prop}

theorem pure {b : β} (h : Q b) : Yields (Pure.pure b) Q := by
  intro context a after hrun
  obtain ⟨rfl, -⟩ := Prod.mk.inj (Except.ok.inj hrun)
  exact h

theorem throw (error : LayoutError) : Yields (throw error : Render β) Q := by
  intro context b after hrun
  cases hrun

theorem bind (hx : Yields x P) (hf : ∀ a, P a → Yields (f a) Q) : Yields (x >>= f) Q := by
  intro context b after hrun
  obtain ⟨a, behind, hrun, hrun'⟩ := run_of_bind hrun
  exact hf a (hx context a behind hrun) behind b after hrun'

/-- Whatever the first action gives. -/
theorem next (hf : ∀ a, Yields (f a) Q) : Yields (x >>= f) Q :=
  bind (P := fun _ => True) (fun _ _ _ _ => trivial) fun a _ => hf a

theorem of_writes (h : Writes x P) : Yields x P := by
  intro context a after hrun
  rcases h context with ⟨a', after', hrun', -, ha⟩ | ⟨-, hrun'⟩
  · obtain ⟨rfl, -⟩ := Prod.mk.inj (Except.ok.inj (hrun.symm.trans hrun'))
    exact ha
  · cases hrun.symm.trans hrun'

end Yields

end Render

namespace Layout

open Render

/-! ## White space -/

theorem head?_space {text written : List Char} {context after : Context}
    (hbreak : text.head?.any Text.isLineBreak = true) (hnewlines : context.newlines = 0)
    (hrun : (space text).run context = .ok (written, after)) : written.head? = some '\n' := by
  obtain ⟨_, heq, -⟩ := space_run text hnewlines
  obtain ⟨rfl, -⟩ := Prod.mk.inj (Except.ok.inj (hrun.symm.trans heq))
  exact head?_normalSpace (Text.any_isLineBreak_of_head? hbreak)

theorem head?_parbreak {text written : List Char} {context after : Context}
    (hbreak : text.head?.any Text.isLineBreak = true) (hnewlines : context.newlines = 0)
    (hrun : (parbreak text).run context = .ok (written, after)) : written.head? = some '\n' := by
  have hlines : Text.splitLines text ≠ [] := by
    intro hnil
    rw [← Text.flatten_splitLines text, hnil] at hbreak
    cases hbreak
  obtain ⟨line, lines, hlines⟩ := List.exists_cons_of_ne_nil hlines
  have hmin : min (Text.splitLines text).length (maxNewlines - context.newlines) =
      min lines.length 1 + 1 := by
    rw [hlines, hnewlines]
    exact Nat.add_min_add_right lines.length 1 1
  rw [emitNewlines_eq hrun, hmin]
  rfl

/-! ## Lists of arguments -/

/-- A child of a list of arguments, and what was written for it. -/
structure Child (child : Tree) (fragment : List Char) : Prop where
  sound : child.Sound
  solid : child.isNode = true → child.Solid
  ends : child.isNode = true → ∀ token ∈ child.tokens.getLast?, token.1 ≠ .lineComment
  spreads : Spreads child.tokens fragment

namespace Child

variable {child : Tree} {fragment part : List Char} {due due' : Bool}

theorem tokens_ne_nil (h : Child child fragment) : child.tokens ≠ [] := by
  cases child with
  | token => simp [Tree.tokens]
  | node kind children =>
    intro hnil
    obtain ⟨token, htoken, -⟩ := h.solid rfl
    rw [hnil] at htoken
    cases htoken

/-- Only behind a child that is a line comment a line feed is due. -/
theorem kind_eq (h : Child child fragment) (hends : EndsDue due child.tokens due')
    (hdue : due' = true) : child.kind = .lineComment := by
  rcases hends hdue with ⟨hnil, -⟩ | ⟨token, htoken, hcomment⟩
  · exact absurd hnil h.tokens_ne_nil
  · cases child with
    | token kind own =>
      obtain rfl := Option.some.inj htoken
      exact hcomment
    | node kind children => exact absurd hcomment (h.ends rfl token htoken)

theorem endsDue (h : Child child fragment) (hdue : due' = true → child.kind = .lineComment)
    (due : Bool) : EndsDue due child.tokens due' := by
  intro hdue'
  obtain ⟨own, rfl⟩ := h.sound.eq_token (hdue hdue') rfl
  exact .inr ⟨_, rfl, rfl⟩

/-- What was written for the child spreads, and a line feed is due only behind a line comment. -/
theorem exists_spread (h : Child child fragment) (hfits : Fits due child.tokens) :
    ∃ due', Spread due child.tokens fragment due' ∧ (due' = true → child.kind = .lineComment) := by
  obtain ⟨due', hspread, hends⟩ := h.spreads due hfits
  exact ⟨due', hspread, h.kind_eq hends⟩

/-- White space among the children may become any other. -/
theorem spread_space (h : Child child fragment) (hkind : child.kind = .space)
    (hpart : Blank part) (hdue : due = true → part.head? = some '\n') :
    Spread due child.tokens part false := by
  obtain ⟨own, rfl⟩ := h.sound.eq_token hkind rfl
  exact .of_space rfl own hpart hdue

/-- A comma is written, with white space behind it. -/
theorem spread_comma (h : Child child fragment) (hkind : child.kind = .comma)
    (hpart : Blank part) : Spread false child.tokens (child.ownText ++ part) false := by
  rw [h.sound.eq_comma hkind]
  exact (Spread.token [','] (by simp) .nil).append (.of_blank hpart)

end Child

/-- No child of the list is a line comment, as far as the siblings tell. -/
theorem oneLine_spreads {children : List Tree} {fragments : List (List Char)}
    (h : List.Forall₂ Child children fragments)
    (hcomment : ∀ child ∈ children, child.kind ≠ .lineComment)
    (hchain : (tokensAll children).IsChain Follows) (previous : Option Kind) :
    Yields (oneLine previous children fragments) fun text =>
      Spread false (tokensAll children) text false := by
  induction h generalizing previous with
  | nil => exact .pure .nil
  | @cons child fragment children fragments hchild _ ih =>
    obtain ⟨hkind, hcomment⟩ := List.forall_mem_cons.1 hcomment
    obtain ⟨hown, hrest, -⟩ := List.isChain_append.1 hchain
    unfold oneLine
    extract_lets following next
    have hnext (part : List Char) (hpart : Spread false child.tokens part false) :
        Yields (next part) fun text =>
          Spread false (tokensAll (child :: children)) text false := by
      refine .bind (ih hcomment hrest (some child.kind)) fun rest hspread => .pure ?_
      exact hpart.append hspread
    split
    · rename_i hspace
      refine hnext _ (hchild.spread_space hspace ?_ (by simp))
      split
      · exact .cons rfl .nil
      · exact .nil
    · rename_i hcomma
      split
      · refine hnext _ ?_
        rw [hchild.sound.eq_comma hcomma]
        exact .dropped _ rfl .nil
      · exact .next fun _ => hnext _ (hchild.spread_comma hcomma (.cons rfl .nil))
    · refine .next fun _ => hnext _ ?_
      -- No line feed is due behind the child, as it is no line comment.
      have hfits : Fits false child.tokens := ⟨by simp, hown⟩
      obtain ⟨due', hspread, hdue⟩ := hchild.exists_spread hfits
      cases due' with
      | false => exact hspread
      | true => exact absurd (hdue rfl) hkind

/-- White space behind a line comment becomes a line feed. -/
theorem head?_spaceBesideComment {following : List Kind} {own indent : List Char}
    (hbreak : own.head?.any Text.isLineBreak = true) :
    (spaceBesideComment (some .lineComment) following own indent).head? = some '\n' := by
  have hany : own.any Text.isLineBreak = true := by
    cases own with
    | nil => cases hbreak
    | cons c own =>
      have hc : Text.isLineBreak c = true := hbreak
      simp [hc]
  unfold spaceBesideComment
  rw [if_pos (by simp [Kind.isComment]), hany, if_pos rfl]
  split <;> rfl

theorem brokenPart_spreads {child : Tree} {fragment : List Char} (h : Child child fragment)
    {due : Bool} (hfits : Fits due child.tokens) {previous : Option Kind}
    (hprevious : due = true → previous = some .lineComment) (start : Nat)
    (following : List Kind) :
    Yields (brokenPart start previous child following fragment) fun part =>
      ∃ due', Spread due child.tokens part due' ∧ (due' = true → child.kind = .lineComment) := by
  unfold brokenPart
  split
  · rename_i hkind
    refine .bind (.of_writes indent_writes) fun margin hmargin => .pure ⟨false, ?_, by simp⟩
    obtain ⟨own, rfl⟩ := h.sound.eq_token hkind rfl
    obtain rfl := hfits.due_eq_false rfl
    have hparen : Spread false [(.leftParen, own)] (own ++ []) false := .token own (by simp) .nil
    rw [List.append_nil] at hparen
    exact hparen.append (.of_blank (lineEnd_blank hmargin following))
  · rename_i hkind
    refine .bind (.of_writes indent_writes) fun margin hmargin => .pure ⟨false, ?_, by simp⟩
    refine h.spread_space hkind (spaceBesideComment_blank hmargin _ _ _) fun hdue => ?_
    obtain ⟨own, rfl⟩ := h.sound.eq_token hkind rfl
    rw [hprevious hdue]
    exact head?_spaceBesideComment (hfits.1 hdue _ rfl).2
  · rename_i hkind
    have hdue : due = false := by
      rw [h.sound.eq_comma hkind] at hfits
      exact hfits.due_eq_false rfl
    subst hdue
    extract_lets next
    have hnext (margin : List Char) (hmargin : Blank margin) :
        Yields (next margin) fun part => ∃ due', Spread false child.tokens part due' ∧
          (due' = true → child.kind = .lineComment) :=
      .next fun _ => .pure
        ⟨false, h.spread_comma hkind (lineEnd_blank hmargin following), by simp⟩
    refine .next fun ends => ?_
    split
    · exact hnext [] .nil
    · exact .bind (.of_writes indent_writes) hnext
  · obtain ⟨due', hspread, hdue⟩ := h.exists_spread hfits
    refine .next fun _ => ?_
    split
    · apply Yields.pure
      split
      · refine ⟨false, ?_, by simp⟩
        simpa using hspread.append (Spread.added (.inl rfl) (by simp) .nil)
      · exact ⟨due', hspread, hdue⟩
    · rename_i hcomment
      split
      · -- A comma comes behind the last argument, which does not end with a line comment.
        obtain rfl : due' = false := by
          rw [Bool.eq_false_iff]
          intro hdue'
          exact hcomment (by rw [hdue hdue']; rfl)
        refine .pure ⟨false, ?_, by simp⟩
        have hcomma : Spread false [] (',' :: lineEnd following []) false :=
          .added (.inr rfl) (by simp) (.of_blank (lineEnd_blank .nil following))
        simpa using hspread.append hcomma
      · exact .pure ⟨due', hspread, hdue⟩

/-- A list that is broken into lines. A line feed is due only if a line comment is in front. -/
theorem broken_spreads {children : List Tree} {fragments : List (List Char)}
    (h : List.Forall₂ Child children fragments) {due : Bool}
    (hfits : Fits due (tokensAll children)) (previous : Option Kind)
    (hprevious : due = true → previous = some .lineComment) (start : Nat) :
    Yields (broken start previous children fragments) fun text =>
      ∃ due', Spread due (tokensAll children) text due' ∧
        EndsDue due (tokensAll children) due' := by
  induction h generalizing due previous start with
  | nil => exact .pure ⟨due, .nil, fun hdue => .inl ⟨rfl, hdue⟩⟩
  | @cons child fragment children fragments hchild _ ih =>
    refine .bind (brokenPart_spreads hchild hfits.left hprevious start _) ?_
    rintro part ⟨due', hpart, hkind⟩
    have hends := hchild.endsDue hkind due
    refine .bind (ih (hfits.right hends) _ (fun hdue' => congrArg some (hkind hdue')) _) ?_
    rintro rest ⟨due'', hrest, hends'⟩
    exact .pure ⟨due'', hpart.append hrest, hends.append hends'⟩

/-- A list with line comments is broken into lines. -/
theorem arguments_spreads {children : List Tree} {fragments : List (List Char)}
    (h : List.Forall₂ Child children fragments) (hfits : Fits false (tokensAll children))
    (start : Nat) :
    Yields (arguments start children fragments) fun text =>
      ∃ due', Spread false (tokensAll children) text due' ∧
        EndsDue false (tokensAll children) due' := by
  have hbroken := broken_spreads h hfits none (by simp) start
  unfold arguments
  by_cases hcomment : ∀ child ∈ children, child.kind ≠ .lineComment
  · refine .bind (oneLine_spreads h hcomment hfits.2 none) fun line hline => ?_
    extract_lets length hasLineComment
    refine .next fun context => ?_
    split
    · exact .next fun _ => .next fun _ => hbroken
    · exact .next fun _ => .pure ⟨false, hline, .of_false⟩
  · have hany : (children.any fun child => child.kind = .lineComment) = true := by
      simpa using hcomment
    refine .next fun line => ?_
    rw [hany]
    extract_lets length
    refine .next fun context => ?_
    rw [Bool.true_or, if_pos rfl]
    exact .next fun _ => .next fun _ => hbroken

/-! ## Trees -/

theorem joined_gives (options : Options) (fragments : List (List Char)) :
    Gives options (joined fragments) fragments.flatten := by
  induction fragments with
  | nil => exact .pure []
  | cons fragment fragments ih => exact .bind .reset (.bind ih (.pure _))

theorem joined_yields (fragments : List (List Char)) :
    Yields (joined fragments) fun text => text = fragments.flatten := by
  intro context text after hrun
  obtain ⟨_, heq, -⟩ := joined_gives context.options fragments context rfl
  exact (Prod.mk.inj (Except.ok.inj (hrun.symm.trans heq))).1

/-- The first token of trees that do not begin with white space. -/
theorem Opens.head?_tokens {ts : List Tree} (h : Opens ts) :
    ∃ token rest, tokensAll ts = token :: rest ∧ token.1.isSpace = false := by
  induction h with
  | token hkind => exact ⟨_, _, rfl, hkind⟩
  | node _ ih =>
    obtain ⟨token, rest, htokens, hspace⟩ := ih
    exact ⟨token, _, by rw [tokensAll, Tree.tokens, htokens]; rfl, hspace⟩

theorem arguments_nil_yields (start : Nat) :
    Yields (arguments start [] []) fun text => text = [] := by
  unfold arguments
  refine .bind (P := fun line => line = []) (.pure rfl) ?_
  rintro _ rfl
  refine .next fun context => ?_
  split
  · exact .next fun _ => .next fun _ => .pure rfl
  · exact .next fun _ => .pure rfl

/-- What is known of the children of a list of arguments. -/
structure ArgsOpen (children : List Tree) : Prop where
  opens : children ≠ [] → Opens children
  ends : NodesEnd children

/-- A list of arguments, from what was written for its children. -/
theorem arguments_of_spreads {children : List Tree} {fragments : List (List Char)}
    (hopen : ArgsOpen children) (hsound : ∀ child ∈ children, child.Sound)
    (hsolid : ∀ child ∈ children, child.isNode = true → child.Solid)
    (h : List.Forall₂ (fun t fragment => Spreads t.tokens fragment) children fragments)
    (start : Nat) :
    Yields (arguments start children fragments) (Spreads (tokensAll children)) := by
  intro context text after hrun due hfits
  have hchildren : List.Forall₂ Child children fragments := by
    refine List.forall₂_iff_get.2 ⟨h.length_eq, fun i hi hi' => ?_⟩
    have hmem := List.getElem_mem hi
    exact ⟨hsound _ hmem, hsolid _ hmem, hopen.ends _ hmem, h.get hi hi'⟩
  cases children with
  | nil =>
    cases h
    rw [arguments_nil_yields start context text after hrun]
    exact ⟨due, .nil, fun hdue => .inl ⟨rfl, hdue⟩⟩
  | cons first rest =>
    obtain ⟨token, behind, htokens, hspace⟩ := (hopen.opens (List.cons_ne_nil _ _)).head?_tokens
    have hdue : due = false := by
      rw [htokens] at hfits
      exact hfits.due_eq_false hspace
    subst hdue
    exact arguments_spreads hchildren hfits start context text after hrun

mutual

/-- Line breaks behind line comments are written. -/
theorem alone_spreads (options : Options) : (t : Tree) → t.Sound →
    (∀ children, (Kind.args, children) ∈ t.nodes → ArgsOpen children) → {text : List Char} →
    alone options t = .ok text → Spreads t.tokens text
  | .token kind own, hsound, _, text, h => by
    obtain ⟨after, hrun⟩ := run_of_alone h
    unfold tree at hrun
    split at hrun
    · have hblank := Yields.of_writes (space_writes (hsound.1 rfl)) _ _ _ hrun
      exact .space rfl hblank fun hbreak => head?_space hbreak rfl hrun
    · have hblank := Yields.of_writes (parbreak_writes own) _ _ _ hrun
      exact .space rfl hblank fun hbreak => head?_parbreak hbreak rfl hrun
    · rename_i hspace hparbreak
      obtain ⟨rfl, -⟩ := Prod.mk.inj (Except.ok.inj hrun)
      refine .token ?_ own
      unfold Kind.isSpace
      split <;> first | rfl | contradiction
  | .node kind children, ⟨hnode, hargs, hchildren⟩, hopen, text, h => by
    obtain ⟨after, hrun⟩ := run_of_alone h
    unfold tree at hrun
    obtain ⟨fragments, behind, hfragments, hrun⟩ := run_of_bind hrun
    have halone := trees_alone hchildren (fun _ => .inl rfl) hfragments
    have hspreads := all_spreads options children hchildren
      (fun inner hinner => hopen inner (.tail _ hinner)) halone
    split at hrun
    · exact arguments_of_spreads (hopen children (.head _)) hchildren.mem (hargs rfl).solid
        hspreads 0 _ _ _ hrun
    · cases hnode
    · rw [joined_yields _ _ _ _ hrun]
      exact .flatten hspreads

theorem all_spreads (options : Options) : (ts : List Tree) → Tree.SoundAll ts →
    (∀ children, (Kind.args, children) ∈ Tree.nodesAll ts → ArgsOpen children) →
    {fragments : List (List Char)} →
    List.Forall₂ (fun t fragment => alone options t = .ok fragment) ts fragments →
    List.Forall₂ (fun t fragment => Spreads t.tokens fragment) ts fragments
  | [], _, _, _, .nil => .nil
  | t :: ts, ⟨ht, hts⟩, hopen, _, .cons hfirst hrest => by
    refine .cons (alone_spreads options t ht (fun inner hinner => ?_) hfirst)
      (all_spreads options ts hts (fun inner hinner => ?_) hrest)
    · exact hopen inner (List.mem_append_left _ hinner)
    · exact hopen inner (List.mem_append_right _ hinner)

end

end Layout

/-! ## Sources -/

open Layout

/-- Without diagnostics, lists of arguments begin with tokens, and none of their children ends with
a line comment. -/
theorem Parsed.BuiltOf.argsOpen {parsed : Parsed} {drafts : List Draft} (h : parsed.BuiltOf drafts)
    (hclean : parsed.diagnostics = []) {children : List Tree}
    (hnode : (Kind.args, children) ∈ parsed.tree.nodes) : ArgsOpen children := by
  refine ⟨fun hne => ?_, h.nodesEnd hclean hnode⟩
  obtain ⟨-, -, hsound⟩ := Tree.Sound.of_mem_nodes _ (h.sound_tree hclean) hnode
  refine opens_of_isArgs ((h.shaped hclean _ hnode).args rfl) hsound hne fun inner hinner => ?_
  refine h.head?_contentBlock hclean ?_
  exact Tree.nodesAll_subset_nodes _ hnode (Tree.mem_nodesAll_of_mem hinner)

/-- A source without diagnostics is formatted without taking anything into a line comment: behind
each of them comes a line feed, or nothing more. The one exception are indentations so wide that no
text can hold them. -/
theorem format_comments_end (source : List Char) (options : Options) (mode : Mode) :
    ∃ parsed, parse source mode = .ok parsed ∧ (parsed.diagnostics = [] →
      (∃ formatted, format source options mode = .ok formatted ∧
        Commented parsed.tree.tokens formatted.text) ∨
      (Render.maxTextLength < options.indentWidth ∧
        format source options mode = .error (.layout .wideIndent))) := by
  obtain ⟨parsed, drafts, hparse, hsource, hmode, hbuilt⟩ := parse_eq_ok source mode
  refine ⟨parsed, hparse, fun hclean => ?_⟩
  have hsound := hbuilt.sound_tree hclean
  have hformat : format source options mode = (parsed.format options).mapError .layout := by
    unfold format
    rw [hparse]
    rfl
  rw [hformat]
  unfold Parsed.format
  rw [if_neg fun herrors => hbuilt.hasErrors_iff.1 herrors hclean]
  rcases tree_writes parsed.source 0 parsed.tree hsound { options } with
    ⟨text, context, hrun, -⟩ | ⟨hwide, hrun⟩
  · left
    have hdocument : document parsed.source parsed.tree options = .ok (text, context.notices) := by
      unfold document
      rw [hrun]
      rfl
    rw [hdocument]
    refine ⟨_, rfl, ?_⟩
    have halone : alone options parsed.tree = .ok text := alone_of_tree hsound rfl hrun
    have hspreads := alone_spreads options parsed.tree hsound
      (fun children hnode => hbuilt.argsOpen hclean hnode) halone
    -- In front of the first token no line feed is due.
    obtain ⟨_, hspread, -⟩ := hspreads false ⟨by simp, hbuilt.isChain_tokens⟩
    exact hspread.commented
  · right
    have hdocument : document parsed.source parsed.tree options = .error .wideIndent := by
      unfold document
      rw [hrun]
      rfl
    rw [hdocument]
    exact ⟨hwide, rfl⟩

/-- A list with a line comment can need an indentation that is too wide. -/
theorem format_wide_comment :
    ((parse ['f', '(', '/', '/', '\n', ')'] .code).toOption.map fun parsed =>
        (parsed.diagnostics.isEmpty, parsed.tree.tokens.map Prod.fst)) =
      some (true, [.ident, .leftParen, .lineComment, .space, .rightParen]) ∧
    format ['f', '(', '/', '/', '\n', ')'] { indentWidth := 9223372036854775808 } .code =
      .error (.layout .wideIndent) := by
  refine ⟨by decide +kernel, eq_error ?_⟩
  decide +kernel

end TypstFormat
