import TypstFormat.Proofs.Layout.Document

/-!
# What the layout of a tree depends on

While a document is written, the context says how the text so far ends. All that a tree learns from
it is how many line feeds it may begin with. Only white space begins with line feeds, and no line
feeds are remembered behind the end of a tree. So what trees are written as does not depend on where
they stand: `alone` is what a tree is written as by itself.

## Key results

- `Agree.bind`: actions that do the same, one after the other
- `tree_agree`: a tree is written in the same way wherever it stands
- `trees_alone`: trees that begin with a token are written as each of them is by itself
-/

namespace TypstFormat

namespace Render

/-- If one action after the other has a result, then both have one. -/
theorem run_of_bind {x : Render α} {f : α → Render β} {context : Context} {result : β × Context}
    (h : (x >>= f).run context = .ok result) :
    ∃ a after, x.run context = .ok (a, after) ∧ (f a).run after = .ok result := by
  cases hx : x.run context with
  | error error =>
    rw [run_bind_of_error hx] at h
    cases h
  | ok first =>
    rw [run_bind_of_ok hx] at h
    exact ⟨first.1, first.2, rfl, h⟩

/-- The actions do the same where the text so far ends with the same number of line feeds, and they
leave the options as they are. -/
def Agree (x y : Render α) : Prop :=
  ∀ context context' : Context, context.options = context'.options →
    context.newlines = context'.newlines →
    (∃ a after after', x.run context = .ok (a, after) ∧ y.run context' = .ok (a, after') ∧
      after.options = context.options ∧ after'.options = context'.options ∧
      after.newlines = after'.newlines) ∨
    ∃ error error', x.run context = .error error ∧ y.run context' = .error error'

namespace Agree

variable {x y : Render α} {f g : α → Render β}

theorem pure (a : α) : Agree (Pure.pure a : Render α) (Pure.pure a) :=
  fun context context' _ hnewlines =>
    .inl ⟨a, context, context', rfl, rfl, rfl, rfl, hnewlines⟩

theorem throw (error error' : LayoutError) : Agree (throw error : Render α) (throw error') :=
  fun _ _ _ _ => .inr ⟨error, error', rfl, rfl⟩

theorem bind (hx : Agree x y) (hf : ∀ a, Agree (f a) (g a)) : Agree (x >>= f) (y >>= g) := by
  intro context context' hoptions hnewlines
  rcases hx context context' hoptions hnewlines with
    ⟨a, after, after', hrun, hrun', hafter, hafter', hnewlines'⟩ | ⟨error, error', hrun, hrun'⟩
  · rw [run_bind_of_ok hrun, run_bind_of_ok hrun', ← hafter, ← hafter']
    exact hf a after after' (by rw [hafter, hafter', hoptions]) hnewlines'
  · exact .inr ⟨error, error', run_bind_of_error hrun, run_bind_of_error hrun'⟩

/-- The actions may look at the options. -/
theorem get {f g : Context → Render β}
    (h : ∀ context context' : Context, context.options = context'.options →
      Agree (f context) (g context')) :
    Agree (MonadState.get >>= f) (MonadState.get >>= g) :=
  fun context context' hoptions hnewlines =>
    h context context' hoptions context context' hoptions hnewlines

/-- Where the one action has a result, so has the other one. -/
theorem run_eq_ok (h : Agree x y) {context after : Context} {a : α}
    (hrun : x.run context = .ok (a, after)) (context' : Context)
    (hoptions : context.options = context'.options)
    (hnewlines : context.newlines = context'.newlines) :
    after.options = context.options ∧
      ∃ after', y.run context' = .ok (a, after') ∧ after'.options = context'.options := by
  rcases h context context' hoptions hnewlines with
    ⟨_, _, after', hrun', hother, hafter, hafter', -⟩ | ⟨_, _, hrun', -⟩
  · obtain ⟨rfl, rfl⟩ := Prod.mk.inj (Except.ok.inj (hrun.symm.trans hrun'))
    exact ⟨hafter, after', hother, hafter'⟩
  · rw [hrun] at hrun'
    cases hrun'

end Agree

theorem reset_agree : Agree reset reset :=
  fun context context' _ _ =>
    .inl ⟨(), context.reset, context'.reset, rfl, rfl, rfl, rfl, rfl⟩

theorem note_agree (notice notice' : Notice) : Agree (note notice) (note notice') :=
  fun context context' _ hnewlines =>
    .inl ⟨(), context.note notice, context'.note notice', rfl, rfl, rfl, rfl, hnewlines⟩

theorem emit_newline_agree : Agree (emit ['\n']) (emit ['\n']) := by
  intro context context' _ hnewlines
  have hrun (context : Context) : (emit ['\n']).run context =
      .ok (if context.newlines < maxNewlines then
          (['\n'], { context with newlines := context.newlines + 1 })
        else ([], context.note .suppressedNewline)) := rfl
  rw [hrun, hrun, hnewlines]
  split
  · exact .inl ⟨_, _, _, rfl, rfl, rfl, rfl, rfl⟩
  · exact .inl ⟨_, _, _, rfl, rfl, rfl, rfl, hnewlines⟩

theorem emitNewlines_agree (n : Nat) : Agree (emitNewlines n) (emitNewlines n) := by
  induction n with
  | zero => exact .pure []
  | succ n ih => exact .bind emit_newline_agree fun first => .bind ih fun rest => .pure _

theorem indent_agree : Agree indent indent := by
  refine .get fun context context' hoptions => ?_
  rw [hoptions]
  dsimp only
  split
  · exact .pure _
  · exact .throw _ _

end Render

namespace Layout

open Render

theorem space_agree (text : List Char) : Agree (space text) (space text) := by
  unfold space
  extract_lets lines breaks indentation
  split
  · exact .pure _
  · exact .bind (emitNewlines_agree _) fun newlines => .pure _

theorem joined_agree (fragments : List (List Char)) :
    Agree (joined fragments) (joined fragments) := by
  induction fragments with
  | nil => exact .pure []
  | cons fragment fragments ih =>
    exact .bind reset_agree fun _ => .bind ih fun rest => .pure _

/-! ## Lists of arguments -/

/-- Children of which the layout of a list sees the same. -/
structure Resembles (t t' : Tree) : Prop where
  kind_eq : t'.kind = t.kind
  ownText_eq : t.kind.isSpace = false → t'.ownText = t.ownText
  breaks_eq : t.kind = .space →
    t'.ownText.any Text.isLineBreak = t.ownText.any Text.isLineBreak

theorem Resembles.refl (t : Tree) : Resembles t t :=
  ⟨rfl, fun _ => rfl, fun _ => rfl⟩

theorem Resembles.trans {t t' t'' : Tree} (h : Resembles t t') (h' : Resembles t' t'') :
    Resembles t t'' where
  kind_eq := h'.kind_eq.trans h.kind_eq
  ownText_eq hkind := (h'.ownText_eq (h.kind_eq ▸ hkind)).trans (h.ownText_eq hkind)
  breaks_eq hkind := (h'.breaks_eq (h.kind_eq.trans hkind)).trans (h.breaks_eq hkind)

theorem resembles_self (children : List Tree) : List.Forall₂ Resembles children children :=
  List.forall₂_same.2 fun child _ => .refl child

theorem map_kind_of_resembles {children children' : List Tree}
    (h : List.Forall₂ Resembles children children') :
    children'.map Tree.kind = children.map Tree.kind := by
  induction h with
  | nil => rfl
  | cons hchild _ ih => rw [List.map_cons, List.map_cons, hchild.kind_eq, ih]

theorem oneLine_agree {children children' : List Tree}
    (h : List.Forall₂ Resembles children children') (previous : Option Kind)
    (fragments : List (List Char)) :
    Agree (oneLine previous children fragments) (oneLine previous children' fragments) := by
  induction h generalizing previous fragments with
  | nil =>
    cases fragments with
    | nil => exact .pure []
    | cons => exact .throw _ _
  | @cons child child' children children' hchild hchildren ih =>
    cases fragments with
    | nil => exact .throw _ _
    | cons fragment fragments =>
      unfold oneLine
      rw [map_kind_of_resembles hchildren, hchild.kind_eq]
      extract_lets following next next'
      have hnext (part : List Char) : Agree (next part) (next' part) :=
        .bind (ih _ _) fun rest => .pure _
      split
      · exact hnext _
      · rename_i hcomma
        rw [hchild.ownText_eq (by rw [hcomma]; rfl)]
        split
        · exact hnext _
        · exact .bind reset_agree fun _ => hnext _
      · exact .bind reset_agree fun _ => hnext _

theorem endsList_agree (start start' : Nat) (following : List Kind) :
    Agree (endsList start following) (endsList start' following) := by
  unfold endsList
  split
  · exact .throw _ _
  · exact .pure _

theorem brokenPart_agree {child child' : Tree} (h : Resembles child child') (start start' : Nat)
    (previous : Option Kind) (following : List Kind) (fragment : List Char) :
    Agree (brokenPart start previous child following fragment)
      (brokenPart start' previous child' following fragment) := by
  unfold brokenPart
  rw [h.kind_eq]
  split
  · rename_i hparen
    rw [h.ownText_eq (by rw [hparen]; rfl)]
    exact .bind indent_agree fun margin => .pure _
  · rename_i hspace
    unfold spaceBesideComment
    rw [h.breaks_eq hspace]
    exact .bind indent_agree fun margin => .pure _
  · rename_i hcomma
    rw [h.ownText_eq (by rw [hcomma]; rfl)]
    extract_lets next
    have hnext (margin : List Char) : Agree (next margin) (next margin) :=
      .bind reset_agree fun _ => .pure _
    refine .bind (endsList_agree start start' following) fun ends => ?_
    split
    · exact hnext _
    · exact .bind indent_agree hnext
  · refine .bind reset_agree fun _ => ?_
    split
    · exact .pure _
    · split <;> exact .pure _

theorem broken_agree {children children' : List Tree}
    (h : List.Forall₂ Resembles children children') (start start' : Nat)
    (previous : Option Kind) (fragments : List (List Char)) :
    Agree (broken start previous children fragments)
      (broken start' previous children' fragments) := by
  induction h generalizing start start' previous fragments with
  | nil =>
    cases fragments with
    | nil => exact .pure []
    | cons => exact .throw _ _
  | cons hchild hchildren ih =>
    cases fragments with
    | nil => exact .throw _ _
    | cons fragment fragments =>
      unfold broken
      rw [map_kind_of_resembles hchildren, hchild.kind_eq]
      exact .bind (brokenPart_agree hchild _ _ _ _ _) fun part =>
        .bind (ih _ _ _ _) fun rest => .pure _

/-- A list is written in the same way wherever it stands, and no matter how much white space there
is in it. -/
theorem arguments_agree {children children' : List Tree}
    (h : List.Forall₂ Resembles children children') (start start' : Nat)
    (fragments : List (List Char)) :
    Agree (arguments start children fragments) (arguments start' children' fragments) := by
  refine .bind (oneLine_agree h none fragments) fun line => ?_
  have hcomments : (children'.any fun child => child.kind = .lineComment) =
      children.any fun child => child.kind = .lineComment := by
    have hkinds := congrArg (List.any · (· = .lineComment)) (map_kind_of_resembles h)
    rw [List.any_map, List.any_map] at hkinds
    exact hkinds
  rw [hcomments]
  extract_lets length hasLineComment
  refine .get fun context context' hoptions => ?_
  rw [hoptions]
  split
  · exact .bind (note_agree _ _) fun _ => .bind reset_agree fun _ => broken_agree h _ _ _ _
  · exact .bind (note_agree _ _) fun _ => .pure _

/-- Fragments of the same children, which are the same but for white space. -/
inductive SameParts : List Tree → List (List Char) → List (List Char) → Prop where
  | nil : SameParts [] [] []
  | cons {child : Tree} {fragment fragment' : List Char} {children : List Tree}
    {fragments fragments' : List (List Char)} :
    (child.kind ≠ .space → fragment' = fragment) → SameParts children fragments fragments' →
    SameParts (child :: children) (fragment :: fragments) (fragment' :: fragments')

section SameParts

variable {children : List Tree} {fragments fragments' : List (List Char)}

theorem oneLine_congr (h : SameParts children fragments fragments') (previous : Option Kind) :
    oneLine previous children fragments' = oneLine previous children fragments := by
  induction h generalizing previous with
  | nil => rfl
  | @cons child _ _ _ _ _ hfragment _ ih =>
    unfold oneLine
    rw [ih]
    by_cases hspace : child.kind = .space
    · rw [hspace]
    · rw [hfragment hspace]

theorem broken_congr (h : SameParts children fragments fragments') (start : Nat)
    (previous : Option Kind) :
    broken start previous children fragments' = broken start previous children fragments := by
  induction h generalizing start previous with
  | nil => rfl
  | @cons child _ _ _ _ _ hfragment _ ih =>
    unfold broken
    rw [ih]
    by_cases hspace : child.kind = .space
    · unfold brokenPart
      rw [hspace]
    · rw [hfragment hspace]

/-- A list decides by itself what its white space is, and takes no fragments for it. -/
theorem arguments_congr (h : SameParts children fragments fragments') (start : Nat) :
    arguments start children fragments' = arguments start children fragments := by
  unfold arguments
  simp only [oneLine_congr h, broken_congr h]

end SameParts

/-! ## Trees -/

mutual

/-- A tree is written in the same way wherever it stands. -/
theorem tree_agree (source source' : List Char) (start start' : Nat) :
    (t : Tree) → t.Sound → Agree (tree source start t) (tree source' start' t)
  | .token kind text, _ => by
    unfold tree
    split
    · exact space_agree text
    · exact emitNewlines_agree _
    · exact .pure text
  | .node kind children, ⟨hnode, _, hchildren⟩ => by
    unfold tree
    refine .bind (trees_agree source source' start start' children hchildren) fun fragments => ?_
    split
    · exact arguments_agree (resembles_self children) start start' fragments
    · cases hnode
    · exact joined_agree fragments

theorem trees_agree (source source' : List Char) (start start' : Nat) :
    (ts : List Tree) → Tree.SoundAll ts → Agree (trees source start ts) (trees source' start' ts)
  | [], _ => .pure []
  | child :: children, ⟨hchild, hchildren⟩ =>
    .bind (tree_agree source source' start start' child hchild) fun _ =>
      .bind reset_agree fun _ =>
        .bind (trees_agree source source' _ _ children hchildren) fun _ => .pure _

end

/-- What a tree is written as by itself. -/
def alone (options : Options) (t : Tree) : Except LayoutError (List Char) :=
  ((tree [] 0 t).run { options }).map Prod.fst

theorem run_of_alone {options : Options} {t : Tree} {text : List Char}
    (h : alone options t = .ok text) :
    ∃ after, (tree [] 0 t).run { options } = .ok (text, after) := by
  unfold alone at h
  cases hrun : (tree [] 0 t).run { options } with
  | error error =>
    rw [hrun] at h
    cases h
  | ok result =>
    rw [hrun] at h
    obtain rfl : result.1 = text := Except.ok.inj h
    exact ⟨result.2, rfl⟩

/-- Behind text that does not end with a line feed, a tree is written as it is by itself. -/
theorem alone_of_tree {source : List Char} {start : Nat} {t : Tree} (h : t.Sound)
    {context after : Context} {text : List Char} (hnewlines : context.newlines = 0)
    (hrun : (tree source start t).run context = .ok (text, after)) :
    alone context.options t = .ok text := by
  obtain ⟨-, after', halone, -⟩ := (tree_agree source [] start 0 t h).run_eq_ok
    hrun { options := context.options } rfl hnewlines
  rw [alone, halone]
  rfl

/-- The first of the trees is a token other than white space, or has such a token in front. -/
inductive Opens : List Tree → Prop where
  | token {kind : Kind} {text : List Char} {trees : List Tree} :
    kind.isSpace = false → Opens (.token kind text :: trees)
  | node {kind : Kind} {inner trees : List Tree} : Opens inner → Opens (.node kind inner :: trees)

/-- How the text so far ends does not matter for trees that begin with a token. -/
theorem Opens.run_trees {ts : List Tree} (h : Opens ts) (source : List Char) (start : Nat)
    (context : Context) :
    (trees source start ts).run context = (trees source start ts).run context.reset := by
  induction h with
  | token hkind =>
    rename_i kind _ _
    cases kind <;> first | rfl | cases hkind
  | @node kind inner ts _ ih =>
    -- All that is done first is to write what is in the node.
    have hnode : (tree source start (.node kind inner)).run context =
        (tree source start (.node kind inner)).run context.reset := by
      unfold tree
      rw [StateT.run_bind, StateT.run_bind, ih]
    unfold trees
    rw [StateT.run_bind, StateT.run_bind, hnode]

/-- Trees that begin with a token are written as each of them is by itself. -/
theorem trees_alone {source : List Char} {start : Nat} {ts : List Tree} (h : Tree.SoundAll ts)
    {context after : Context} {fragments : List (List Char)}
    (hbegin : ts ≠ [] → context.newlines = 0 ∨ Opens ts)
    (hrun : (trees source start ts).run context = .ok (fragments, after)) :
    List.Forall₂ (fun t fragment => alone context.options t = .ok fragment) ts fragments := by
  induction ts generalizing start context after fragments with
  | nil =>
    obtain ⟨rfl, -⟩ := Prod.mk.inj (Except.ok.inj hrun)
    exact .nil
  | cons t ts ih =>
    obtain ⟨ht, hts⟩ := h
    wlog hnewlines : context.newlines = 0 generalizing context
    · rw [((hbegin (List.cons_ne_nil _ _)).resolve_left hnewlines).run_trees] at hrun
      exact @this context.reset (fun _ => .inl rfl) hrun rfl
    obtain ⟨fragment, behind, hfragment, hrun⟩ := run_of_bind hrun
    obtain ⟨_, _, hreset, hrun⟩ := run_of_bind hrun
    obtain ⟨-, rfl⟩ := Prod.mk.inj (Except.ok.inj hreset)
    obtain ⟨rest, _, hrest, hrun⟩ := run_of_bind hrun
    obtain ⟨rfl, -⟩ := Prod.mk.inj (Except.ok.inj hrun)
    have hrest := ih hts (fun _ => .inl rfl) hrest
    have hoptions := ((tree_agree source source start start t ht).run_eq_ok
      hfragment context rfl rfl).1
    rw [show behind.reset.options = context.options from hoptions] at hrest
    exact .cons (alone_of_tree ht hnewlines hfragment) hrest

end Layout

end TypstFormat
