import TypstFormat.Proofs.Layout.Sound

/-!
# Sources as layouts

A source is a layout of its own tree, and the marks of its tree are sparse: what stands between two
commas is an argument, which holds a token.

`Mark.Leads` reads marks from left to right and remembers whether a comma may come next. It does so
in step with `ArgsRest`.

## Key results

- `Tree.laid_text`: the text of a sound tree holds the marks of the tree
- `Tree.sparse_marks`: the marks of a sound tree are never two commas in a row
-/

namespace TypstFormat

/-! ## Commas with tokens in between -/

namespace Mark

/-- Marks with a token in front of each comma. `free` tells whether a comma may come first, and
`free'` whether one may come behind the last mark. -/
inductive Leads : (free : Bool) → List Mark → (free' : Bool) → Prop where
  | nil {free : Bool} : Leads free [] free
  | token {free free' : Bool} (own : List Char) {marks : List Mark} :
    Leads true marks free' → Leads free (.token own :: marks) free'
  | comma {free' : Bool} {mark : Mark} {marks : List Mark} :
    mark.isComma = true → Leads false marks free' → Leads true (mark :: marks) free'

namespace Leads

variable {free free' free'' : Bool} {marks more : List Mark}

theorem append (h₁ : Leads free marks free') (h₂ : Leads free' more free'') :
    Leads free (marks ++ more) free'' := by
  induction h₁ with
  | nil => exact h₂
  | token own _ ih => exact .token own (ih h₂)
  | comma hcomma _ ih => exact .comma hcomma (ih h₂)

/-- A comma may also come where it need not be expected. -/
theorem relax (h : Leads free marks true) : Leads true marks true := by
  cases free with
  | true => exact h
  | false =>
    cases h with
    | token own h => exact .token own h

theorem sparse (h : Leads free marks free') :
    Sparse marks ∧ (free = false → ∀ mark ∈ marks.head?, mark.isComma = false) := by
  induction h with
  | nil => exact ⟨.nil, by simp⟩
  | token own _ ih =>
    refine ⟨List.isChain_cons.2 ⟨?_, ih.1⟩, ?_⟩
    · rintro mark _ ⟨hcomma, _⟩
      cases hcomma
    · rintro _ mark ⟨⟩
      rfl
  | comma _ _ ih =>
    refine ⟨List.isChain_cons.2 ⟨?_, ih.1⟩, by simp⟩
    rintro mark hmark ⟨_, hcomma⟩
    rw [ih.2 rfl mark hmark] at hcomma
    cases hcomma

end Leads

/-- There are no marks, or they begin and end with tokens. -/
def Enclosed (marks : List Mark) : Prop :=
  marks = [] ∨ Leads false marks true

theorem Enclosed.leads {marks : List Mark} (h : Enclosed marks) : Leads true marks true := by
  rcases h with rfl | h
  · exact .nil
  · exact h.relax

theorem Enclosed.append {marks more : List Mark} (h₁ : Enclosed marks) (h₂ : Enclosed more) :
    Enclosed (marks ++ more) := by
  rcases h₁ with rfl | h₁
  · exact h₂
  · exact .inr (h₁.append h₂.leads)

end Mark

namespace Tree

open Mark

/-! ## Tokens and marks -/

mutual

/-- A tree with a token that counts has marks. -/
theorem marks_ne_nil : (tree : Tree) → tree.Solid → tree.marks ≠ []
  | .token kind text, h => by
    obtain ⟨_, htoken, hglue⟩ := h
    obtain rfl := List.mem_singleton.1 htoken
    have hspace : kind.isSpace = false := (Bool.or_eq_false_iff.1 hglue).1
    simp [marks, hspace]
  | .node kind children, h => by
    unfold marks
    split
    · exact argumentMarks_ne_nil children h
    · exact marksAll_ne_nil children h

theorem marksAll_ne_nil : (trees : List Tree) →
    (∃ token ∈ tokensAll trees, token.1.isGlue = false) → marksAll trees ≠ []
  | [], h => by
    obtain ⟨_, htoken, _⟩ := h
    cases htoken
  | tree :: trees, h => by
    obtain ⟨token, htoken, hglue⟩ := h
    intro hnil
    obtain ⟨hfirst, hrest⟩ := List.append_eq_nil_iff.1 hnil
    rcases List.mem_append.1 htoken with htoken | htoken
    · exact marks_ne_nil tree ⟨token, htoken, hglue⟩ hfirst
    · exact marksAll_ne_nil trees ⟨token, htoken, hglue⟩ hrest

theorem argumentMarks_ne_nil : (children : List Tree) →
    (∃ token ∈ tokensAll children, token.1.isGlue = false) → argumentMarks children ≠ []
  | [], h => by
    obtain ⟨_, htoken, _⟩ := h
    cases htoken
  | child :: children, h => by
    obtain ⟨token, htoken, hglue⟩ := h
    intro hnil
    obtain ⟨hfirst, hrest⟩ := List.append_eq_nil_iff.1 hnil
    rcases List.mem_append.1 htoken with htoken | htoken
    · -- A child adds at least its own marks, unless it is a comma, which is a mark by itself.
      have hown := marks_ne_nil child ⟨token, htoken, hglue⟩
      unfold marksAmong at hfirst
      split at hfirst
      · cases hfirst
      · split at hfirst
        · exact hown (List.append_eq_nil_iff.1 hfirst).1
        · exact hown hfirst
    · exact argumentMarks_ne_nil children ⟨token, htoken, hglue⟩ hrest

end

/-! ## Lists of arguments -/

theorem argumentMarks_comma {child : Tree} (h : child.kind = .comma) (children : List Tree) :
    ∃ mark : Mark, mark.isComma = true ∧
      argumentMarks (child :: children) = mark :: argumentMarks children := by
  rw [argumentMarks, marksAmong, if_pos h]
  split
  · exact ⟨.lastComma, rfl, rfl⟩
  · exact ⟨.comma, rfl, rfl⟩

theorem argumentMarks_plain {child : Tree} {children : List Tree} (hcomma : child.kind ≠ .comma)
    (hlast : isLastArgument child.kind (children.map kind) = false) :
    argumentMarks (child :: children) = child.marks ++ argumentMarks children := by
  rw [argumentMarks, marksAmong, if_neg hcomma, hlast]
  rfl

theorem argumentMarks_last {child : Tree} {children : List Tree} (hcomma : child.kind ≠ .comma)
    (hlast : isLastArgument child.kind (children.map kind) = true) :
    argumentMarks (child :: children) =
      child.marks ++ .lastComma :: argumentMarks children := by
  rw [argumentMarks, marksAmong, if_neg hcomma, hlast, if_pos rfl, List.append_assoc]
  rfl

/-- The list ends where a closing parenthesis is the first to count. -/
theorem endsArguments_iff {kinds : List Kind} :
    endsArguments kinds = true ↔ (withoutFillers kinds).head? = some .rightParen := by
  unfold endsArguments Siblings.nextIs withoutFillers
  rw [decide_eq_true_eq]
  induction kinds with
  | nil => rfl
  | cons kind kinds ih =>
    by_cases h : kind.isFiller = true
    · simpa [h] using ih
    · simp [h]

/-- No parenthesis closes a list where only content blocks follow. -/
theorem isLastArgument_of_blocks {kinds : List Kind}
    (hblocks : ∀ block ∈ withoutFillers kinds, block = .contentBlock) (kind : Kind) :
    isLastArgument kind kinds = false := by
  have hends : endsArguments kinds = false := by
    rw [Bool.eq_false_iff]
    intro hends
    cases hblocks _ (List.mem_of_mem_head? (endsArguments_iff.1 hends))
  rw [isLastArgument, hends, Bool.and_false]

/-- White space and comments only add the marks they have. -/
theorem argumentMarks_filler {child : Tree} (h : child.kind.isFiller = true)
    (children : List Tree) :
    argumentMarks (child :: children) = child.marks ++ argumentMarks children := by
  apply argumentMarks_plain
  · intro hcomma
    rw [hcomma] at h
    cases h
  · simp [isLastArgument, h]

/-- What follows is enclosed if only content blocks count in it. -/
theorem enclosed_blocks {children : List Tree} (hmarks : ∀ child ∈ children, Enclosed child.marks)
    (hblocks : ∀ block ∈ withoutFillers (children.map kind), block = .contentBlock) :
    Enclosed (argumentMarks children) := by
  induction children with
  | nil => exact .inl rfl
  | cons child children ih =>
    have hchild := hmarks child List.mem_cons_self
    have ih := ih fun child' h => hmarks child' (List.mem_cons_of_mem _ h)
    by_cases hfiller : child.kind.isFiller = true
    · rw [withoutFillers_filler hfiller] at hblocks
      rw [argumentMarks_filler hfiller]
      exact hchild.append (ih hblocks)
    · rw [withoutFillers_plain hfiller] at hblocks
      obtain ⟨hkind, hblocks⟩ := List.forall_mem_cons.1 hblocks
      rw [argumentMarks_plain (by simp [hkind]) (isLastArgument_of_blocks hblocks _)]
      exact hchild.append (ih hblocks)

/-- What counts in a list of arguments and is no comma begins and ends with a token. -/
theorem leads_marks {child : Tree} (hmarks : Enclosed child.marks)
    (hsolid : child.isNode = true → child.Solid) (hspace : child.kind.isSpace = false) :
    Leads false child.marks true := by
  apply hmarks.resolve_left
  cases child with
  | node kind children => exact marks_ne_nil _ (hsolid rfl)
  | token kind text =>
    have hspace : kind.isSpace = false := hspace
    simp [marks, hspace]

/-- An argument may have a comma behind it, which has its place there if it is the last one. -/
theorem leads_argument {child : Tree} {children : List Tree} (hcomma : child.kind ≠ .comma)
    (hleads : Leads false child.marks true)
    (hrest : ArgsRest true (withoutFillers (children.map kind)))
    (ih : ∀ free, ArgsRest free (withoutFillers (children.map kind)) →
      Leads free (argumentMarks children) true) :
    Leads false (argumentMarks (child :: children)) true := by
  by_cases hlast : isLastArgument child.kind (children.map kind) = true
  · rw [argumentMarks_last hcomma hlast]
    have hends : endsArguments (children.map kind) = true := (Bool.and_eq_true_iff.1 hlast).2
    have hhead := endsArguments_iff.1 hends
    refine hleads.append (.comma rfl (ih false ?_))
    -- The list is closed next, so no further comma can follow.
    generalize withoutFillers (children.map kind) = rest at hrest hhead
    cases hrest with
    | comma _ => cases hhead
    | close hblocks => exact .close hblocks
  · rw [argumentMarks_plain hcomma (Bool.eq_false_iff.2 hlast)]
    exact hleads.append (ih true hrest)

/-- In a list of arguments, the marks follow the kinds of the children. -/
theorem leads_argumentMarks {children : List Tree} {free : Bool}
    (hmarks : ∀ child ∈ children, Enclosed child.marks)
    (hsolid : ∀ child ∈ children, child.isNode = true → child.Solid)
    (hrest : ArgsRest free (withoutFillers (children.map kind))) :
    Leads free (argumentMarks children) true := by
  induction children generalizing free with
  | nil => cases hrest
  | cons child children ih =>
    have ih {free : Bool} := @ih free (fun child' h => hmarks child' (List.mem_cons_of_mem _ h))
      (fun child' h => hsolid child' (List.mem_cons_of_mem _ h))
    have hmarks' := hmarks child List.mem_cons_self
    have hsolid' := hsolid child List.mem_cons_self
    by_cases hfiller : child.kind.isFiller = true
    · -- White space has no marks, and a comment is a token.
      rw [withoutFillers_filler hfiller] at hrest
      rw [argumentMarks_filler hfiller]
      rcases hmarks' with hnil | hleads
      · rw [hnil]
        exact ih hrest
      · cases free with
        | true => exact hleads.relax.append (ih hrest)
        | false => exact hleads.append (ih hrest).relax
    · rw [withoutFillers_plain hfiller] at hrest
      -- All that counts begins and ends with a token, except for the comma itself.
      have hleads (hspace : child.kind.isSpace = false) := leads_marks hmarks' hsolid' hspace
      generalize hkind : child.kind = first at hrest hleads
      cases hrest with
      | opening hrest =>
        rw [argumentMarks_plain (by simp [hkind]) (by simp [hkind, isLastArgument])]
        exact (hleads rfl).append (ih hrest).relax
      | item hitem hrest =>
        have hcomma : first ≠ .comma := by
          rintro rfl
          cases hitem
        have hspace : first.isSpace = false := by
          revert hitem
          cases first <;> decide
        exact leads_argument (hkind ▸ hcomma) (hleads hspace) hrest fun _ => ih
      | comma hrest =>
        obtain ⟨mark, hmark, heq⟩ := argumentMarks_comma hkind children
        rw [heq]
        exact .comma hmark (ih hrest)
      | close hblocks =>
        -- Behind the parenthesis the blocks are no arguments, so none of them is the last one.
        have hlast := isLastArgument_of_blocks hblocks child.kind
        have hbehind := enclosed_blocks (fun child' h => hmarks child' (List.mem_cons_of_mem _ h))
          hblocks
        have hboth := (hleads rfl).append hbehind.leads
        rw [argumentMarks_plain (by simp [hkind]) hlast]
        cases free with
        | true => exact hboth.relax
        | false => exact hboth

theorem enclosed_marksAll {trees : List Tree} (h : ∀ tree ∈ trees, Enclosed tree.marks) :
    Enclosed (marksAll trees) := by
  induction trees with
  | nil => exact .inl rfl
  | cons tree trees ih =>
    have ih := ih fun tree' h' => h tree' (List.mem_cons_of_mem _ h')
    exact (h tree List.mem_cons_self).append ih

mutual

theorem enclosed_marks : (tree : Tree) → tree.Sound → Enclosed tree.marks
  | .token kind text, _ => by
    unfold marks
    split
    · exact .inl rfl
    · exact .inr (.token text .nil)
  | .node kind children, ⟨_, hargs, hchildren⟩ => by
    have hmarks := enclosed_each children hchildren
    unfold marks
    split
    · rename_i hkind
      obtain ⟨hblocks | hrest, hsolid⟩ := hargs hkind
      · exact enclosed_blocks hmarks hblocks
      · exact .inr (leads_argumentMarks hmarks hsolid hrest)
    · exact enclosed_marksAll hmarks

theorem enclosed_each : (trees : List Tree) → SoundAll trees → ∀ tree ∈ trees, Enclosed tree.marks
  | [], _ => by simp
  | tree :: trees, ⟨hfirst, hrest⟩ =>
    List.forall_mem_cons.2 ⟨enclosed_marks tree hfirst, enclosed_each trees hrest⟩

end

/-- Between two commas stands a token. -/
theorem sparse_marks {tree : Tree} (h : tree.Sound) : Mark.Sparse tree.marks :=
  (enclosed_marks tree h).leads.sparse.1

/-! ## The source -/

/-- The kind of a sound tree tells a token from a node. -/
theorem Sound.eq_token {tree : Tree} (h : tree.Sound) {kind : Kind} (hkind : tree.kind = kind)
    (htoken : kind.isNode = false) : ∃ text, tree = .token kind text := by
  cases tree with
  | token own text =>
    obtain rfl : own = kind := hkind
    exact ⟨text, rfl⟩
  | node own children =>
    obtain rfl : own = kind := hkind
    rw [h.1] at htoken
    cases htoken

/-- Commas and parentheses are tokens with one character. -/
theorem Sound.eq_char {tree : Tree} (h : tree.Sound) {kind : Kind} (hkind : tree.kind = kind)
    {c : Char} (hchar : kind.char? = some c) : tree = .token kind [c] := by
  have htoken : kind.isNode = false := by
    rcases Kind.eq_of_char? hchar with rfl | rfl | rfl <;> rfl
  obtain ⟨text, rfl⟩ := h.eq_token hkind htoken
  rw [h.2 c hchar]

theorem Sound.eq_comma {tree : Tree} (h : tree.Sound) (hkind : tree.kind = .comma) :
    tree = .token .comma [','] :=
  h.eq_char hkind rfl

theorem laid_textAll {trees : List Tree} (h : ∀ tree ∈ trees, Laid tree.marks tree.text) :
    Laid (marksAll trees) (textAll trees) := by
  induction trees with
  | nil => exact .nil
  | cons tree trees ih =>
    have ih := ih fun tree' h' => h tree' (List.mem_cons_of_mem _ h')
    exact (h tree List.mem_cons_self).append ih

/-- A list of arguments holds its commas, and none where the last one is left out. -/
theorem laid_argumentText {children : List Tree} (hsound : ∀ child ∈ children, child.Sound)
    (h : ∀ child ∈ children, Laid child.marks child.text) :
    Laid (argumentMarks children) (textAll children) := by
  induction children with
  | nil => exact .nil
  | cons child children ih =>
    have ih := ih (fun child' h' => hsound child' (List.mem_cons_of_mem _ h'))
      (fun child' h' => h child' (List.mem_cons_of_mem _ h'))
    have hchild := h child List.mem_cons_self
    refine Laid.append ?_ ih
    unfold marksAmong
    split
    · -- The source holds each comma that is a child, the last one too.
      rename_i hcomma
      rw [(hsound child List.mem_cons_self).eq_comma hcomma]
      split
      · exact .kept .nil
      · exact .comma .nil
    · split
      · simpa using hchild.append (Laid.dropped .nil)
      · exact hchild

mutual

/-- The text of a sound tree is a layout of it. -/
theorem laid_text : (tree : Tree) → tree.Sound → Laid tree.marks tree.text
  | .token kind text, h => by
    unfold marks
    split
    · rename_i hspace
      exact .of_blanks (h.1 hspace)
    · exact .singleton text
  | .node kind children, ⟨_, _, hchildren⟩ => by
    have hlaid := laid_each children hchildren
    unfold marks
    split
    · exact laid_argumentText hchildren.mem hlaid
    · exact laid_textAll hlaid

theorem laid_each : (trees : List Tree) → SoundAll trees →
    ∀ tree ∈ trees, Laid tree.marks tree.text
  | [], _ => by simp
  | tree :: trees, ⟨hfirst, hrest⟩ =>
    List.forall_mem_cons.2 ⟨laid_text tree hfirst, laid_each trees hrest⟩

end

end Tree

end TypstFormat
