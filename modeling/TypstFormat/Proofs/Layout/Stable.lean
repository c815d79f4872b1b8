import TypstFormat.Proofs.Layout.Laid

/-!
# What is formatted is read as the same

Where the layout of the lists of arguments puts in no space or comma and leaves none out, all that
formatting does is to change white space that is there. The tree stays the same but for that white
space: in code and math only whether there is some and whether a line ends in it counts, and in markup
it may be tidied up. And a tree that is laid out stays as it is, so formatting again changes nothing.

## Key results

- `Layout.written_laid`: a tree is written as the tree that is laid out, and so is that tree again
- `Layout.LaidOut.exists_format`: what is written is read as the same tree
- `format_keeps_skeleton`, `format_twice_eq`: formatting keeps the structure, and is idempotent
- `format_moves_paragraph`: an item can lose the paragraph that belongs to it
-/

namespace TypstFormat

open Layout Render

/-! ## Trees -/

namespace Layout

theorem Filled.resembles {t t' : Tree} (h : Filled t t') : Resembles t t' := by
  cases h with
  | keep => exact .refl t
  | space hnew =>
    refine ⟨rfl, fun hkind => ?_, fun _ => hnew.breaks_eq⟩
    cases hkind

theorem resembles_laid (options : Options) (t : Tree) : Resembles t (t.laid options) := by
  cases t with
  | node kind children => exact ⟨rfl, fun _ => rfl, fun _ => rfl⟩
  | token kind own =>
    refine ⟨rfl, fun hkind => normalText_eq hkind own, fun hkind => ?_⟩
    obtain rfl : kind = .space := hkind
    exact any_isLineBreak_normalSpace own

theorem resembles_filled (options : Options) {ts filled : List Tree}
    (h : List.Forall₂ Filled (Tree.laidAll options ts) filled) :
    List.Forall₂ Resembles ts filled := by
  induction ts generalizing filled with
  | nil =>
    cases h
    exact .nil
  | cons t ts ih =>
    cases h with
    | cons hfirst hrest =>
      have hlike := (resembles_laid options t).trans hfirst.resembles
      exact .cons hlike (ih hrest)

/-- Behind text that does not end with a line feed, the tree is written as a text. -/
def WrittenAs (options : Options) (t : Tree) (text : List Char) : Prop :=
  ∀ (source : List Char) (start : Nat) (context : Context), context.options = options →
    context.newlines = 0 →
    ∃ after, (tree source start t).run context = .ok (text, after) ∧ after.options = options

section WrittenAs

variable {options : Options} {children children' : List Tree} {fragments : List (List Char)}

/-- Trees that are written as texts are written as these one after the other. -/
theorem trees_written (h : List.Forall₂ (WrittenAs options) children fragments)
    (source : List Char) (start : Nat) (context : Context) (hoptions : context.options = options)
    (hnewlines : context.newlines = 0) :
    ∃ after, (trees source start children).run context = .ok (fragments, after) ∧
      after.options = options ∧ after.newlines = 0 := by
  induction h generalizing start context with
  | nil => exact ⟨context, rfl, hoptions, hnewlines⟩
  | @cons child fragment children fragments hchild _ ih =>
    obtain ⟨behind, hrun, hbehind⟩ := hchild source start context hoptions hnewlines
    obtain ⟨after, hrest, hafter⟩ := ih (start + child.length) behind.reset hbehind rfl
    refine ⟨after, ?_, hafter⟩
    -- Behind each tree no line feeds are counted any more, so the next one stands behind none.
    unfold trees
    rw [run_bind_of_ok hrun]
    exact (run_bind_of_ok rfl).trans ((run_bind_of_ok hrest).trans rfl)

theorem WrittenAs.joined {kind : Kind} (hargs : kind ≠ .args) (hparbreak : kind ≠ .parbreak)
    (h : List.Forall₂ (WrittenAs options) children fragments) :
    WrittenAs options (.node kind children) fragments.flatten := by
  intro source start context hoptions hnewlines
  obtain ⟨behind, hrun, hbehind, -⟩ := trees_written h source start context hoptions hnewlines
  unfold tree
  rw [run_bind_of_ok hrun]
  split
  · exact absurd rfl hargs
  · exact absurd rfl hparbreak
  · exact joined_gives options fragments behind hbehind

/-- A list with other white space is written as the list is, if its children are. -/
theorem WrittenAs.arguments {fragments' : List (List Char)} {text : List Char}
    (hlike : List.Forall₂ Resembles children children')
    (h : List.Forall₂ (WrittenAs options) children fragments)
    (h' : List.Forall₂ (WrittenAs options) children' fragments')
    (hsame : ∀ start, arguments start children' fragments' = arguments start children' fragments)
    (halone : alone options (.node .args children) = .ok text) :
    WrittenAs options (.node .args children') text := by
  obtain ⟨last, hlist⟩ := run_of_alone halone
  obtain ⟨behind, hrun, hbehind, hzero⟩ := trees_written h [] 0 { options } rfl rfl
  unfold tree at hlist
  rw [run_bind_of_ok hrun] at hlist
  intro source start context hoptions hnewlines
  obtain ⟨behind', hrun', hbehind', hzero'⟩ := trees_written h' source start context hoptions hnewlines
  obtain ⟨-, after, hagree, hafter⟩ := (arguments_agree hlike 0 start fragments).run_eq_ok hlist
    behind' (hbehind.trans hbehind'.symm) (hzero.trans hzero'.symm)
  rw [← hsame] at hagree
  unfold tree
  rw [run_bind_of_ok hrun']
  exact ⟨after, hagree, hafter.trans hbehind'⟩

theorem written_space (own : List Char) :
    WrittenAs options (.token .space own) (normalSpace own) := by
  intro _ _ context hoptions hnewlines
  obtain ⟨after, hrun, hafter⟩ := space_run own hnewlines
  exact ⟨after, hrun, hafter.trans hoptions⟩

/-- The break between two paragraphs is written as two line feeds. -/
theorem written_parbreak {own : List Char} (hbreaks : 2 ≤ Lexeme.lineBreaks own) :
    WrittenAs options (.token .parbreak own) ['\n', '\n'] := by
  intro _ _ context hoptions hnewlines
  obtain ⟨after, hrun, hafter⟩ := emitNewlines_run (Text.splitLines own).length context
  have heq := parbreak_eq hnewlines hbreaks hrun
  exact ⟨after, by rw [← heq]; exact hrun, hafter.trans hoptions⟩

theorem written_token {kind : Kind} (h : kind.isSpace = false) (own : List Char) :
    WrittenAs options (.token kind own) own := by
  intro _ _ context hoptions _
  refine ⟨context, ?_, hoptions⟩
  unfold tree
  split
  · cases h
  · cases h
  · rfl

/-- Children of a list with the white space of its text are written as they are. -/
theorem written_filled {ts filled : List Tree} (hfilled : List.Forall₂ Filled ts filled)
    (h : List.Forall₂ (WrittenAs options) ts (ts.map Tree.text)) :
    List.Forall₂ (WrittenAs options) filled (filled.map Tree.text) ∧
      SameParts filled (ts.map Tree.text) (filled.map Tree.text) := by
  induction hfilled with
  | nil => exact ⟨.nil, .nil⟩
  | cons hfirst _ ih =>
    obtain ⟨hwritten, hrest⟩ := List.forall₂_cons.1 h
    obtain ⟨hall, hsame⟩ := ih hrest
    cases hfirst with
    | keep => exact ⟨.cons hwritten hall, .cons (fun _ => rfl) hsame⟩
    | @space own new hnew =>
      have hspace : WrittenAs options (.token .space new) _ := written_space new
      rw [hnew.normal] at hspace
      exact ⟨.cons hspace hall, .cons (absurd rfl) hsame⟩

end WrittenAs

/-- The layout of a list changes nothing but the white space that is there: it puts in no space or
comma and leaves none out, and a line ends where one did. -/
def ListLaidOut (options : Options) (children : List Tree) : Prop :=
  (laidList? options children (Tree.laidAll options children)).isSome = true

instance (options : Options) (children : List Tree) : Decidable (ListLaidOut options children) :=
  inferInstanceAs (Decidable (_ = _))

/-- Such a list is written as the list that is laid out. -/
theorem ListLaidOut.alone_eq {options : Options} {children : List Tree}
    (h : ListLaidOut options children) :
    alone options (.node .args children) =
      .ok (Tree.textAll (laidChildren options .args children (Tree.laidAll options children))) := by
  obtain ⟨filled, hlist⟩ := Option.isSome_iff_exists.1 h
  obtain ⟨text, htext, hfill⟩ := Option.bind_eq_some_iff.1 hlist
  rw [laidChildren, if_pos rfl, hlist, Option.getD_some, (fill?_spec hfill).1]
  cases halone : alone options (.node .args children) with
  | ok text' =>
    rw [halone] at htext
    rw [Option.some.inj htext]
  | error error =>
    rw [halone] at htext
    cases htext

/-- A tree without markup and without breaks between paragraphs. -/
def Unmarked (t : Tree) : Prop :=
  (∀ node ∈ t.nodes, node.1 ≠ .markup) ∧ ∀ token ∈ t.tokens, token.1 ≠ .parbreak

instance (t : Tree) : Decidable (Unmarked t) :=
  inferInstanceAs (Decidable (_ ∧ _))

/-- A tree of which formatting changes nothing but the white space that is there: any white space if
there is no markup, and otherwise white space that may be tidied up. -/
structure LaidOut (options : Options) (t : Tree) : Prop where
  lists : ∀ node ∈ t.nodes, node.1 = .args → ListLaidOut options node.2
  spaces : Unmarked t ∨ Tidy t.tokens (t.laid options).tokens

instance (options : Options) (t : Tree) : Decidable (LaidOut options t) :=
  decidable_of_iff ((∀ node ∈ t.nodes, node.1 = .args → ListLaidOut options node.2) ∧
      (Unmarked t ∨ Tidy t.tokens (t.laid options).tokens))
    ⟨fun h => ⟨h.1, h.2⟩, fun h => ⟨h.lists, h.spaces⟩⟩

mutual

/-- A tree is written as the tree that is laid out, and so is that tree again. -/
theorem written_laid {options : Options} : (t : Tree) → t.Sound →
    (∀ token ∈ t.tokens, token.1 = .parbreak → 2 ≤ Lexeme.lineBreaks token.2) →
    (∀ node ∈ t.nodes, node.1 = .args → ListLaidOut options node.2) →
    WrittenAs options t (t.laid options).text ∧
      WrittenAs options (t.laid options) (t.laid options).text
  | .token kind own, _, hbreaks, _ => by
    have hbreaks := hbreaks _ List.mem_cons_self
    rw [Tree.laid, Tree.text]
    by_cases hspace : kind = .space
    · subst hspace
      have hagain : WrittenAs options (.token .space (normalSpace own)) _ := written_space _
      rw [normalSpace_idem] at hagain
      exact ⟨written_space own, hagain⟩
    · by_cases hparbreak : kind = .parbreak
      · subst hparbreak
        have htwo : 2 ≤ Lexeme.lineBreaks ['\n', '\n'] := by decide
        exact ⟨written_parbreak (hbreaks rfl), written_parbreak htwo⟩
      · have hkind := isSpace_eq_false hspace hparbreak
        rw [normalText_eq hkind]
        exact ⟨written_token hkind own, written_token hkind own⟩
  | .node kind children, ⟨hnode, _, hchildren⟩, hbreaks, hlists => by
    obtain ⟨hall, hall'⟩ := all_written_laid children hchildren hbreaks
      fun node hnode => hlists node (.tail _ hnode)
    rw [Tree.laid, Tree.text]
    by_cases hargs : kind = .args
    · -- How a list is written does not depend on the white space in it, so what is known of the list
      -- is true of the list that is laid out as well.
      subst hargs
      have halone := (hlists _ (.head _) rfl).alone_eq
      have hfilled := filled_laidChildren options .args children (Tree.laidAll options children)
      obtain ⟨hagain, hsame⟩ := written_filled hfilled hall'
      exact ⟨.arguments (resembles_self children) hall hall (fun _ => rfl) halone,
        .arguments (resembles_filled options hfilled) hall hagain (arguments_congr hsame) halone⟩
    · have hplain : kind ≠ .parbreak := fun hkind => by rw [hkind] at hnode; cases hnode
      rw [laidChildren, if_neg hargs, Tree.textAll_eq_flatten]
      exact ⟨.joined hargs hplain hall, .joined hargs hplain hall'⟩

theorem all_written_laid {options : Options} : (ts : List Tree) → Tree.SoundAll ts →
    (∀ token ∈ Tree.tokensAll ts, token.1 = .parbreak → 2 ≤ Lexeme.lineBreaks token.2) →
    (∀ node ∈ Tree.nodesAll ts, node.1 = .args → ListLaidOut options node.2) →
    List.Forall₂ (WrittenAs options) ts ((Tree.laidAll options ts).map Tree.text) ∧
      List.Forall₂ (WrittenAs options) (Tree.laidAll options ts)
        ((Tree.laidAll options ts).map Tree.text)
  | [], _, _, _ => ⟨.nil, .nil⟩
  | t :: ts, ⟨ht, hts⟩, hbreaks, hlists => by
    obtain ⟨hfirst, hfirst'⟩ := written_laid t ht
      (fun token htoken => hbreaks token (List.mem_append_left _ htoken))
      fun node hnode => hlists node (List.mem_append_left _ hnode)
    obtain ⟨hrest, hrest'⟩ := all_written_laid ts hts
      (fun token htoken => hbreaks token (List.mem_append_right _ htoken))
      fun node hnode => hlists node (List.mem_append_right _ hnode)
    exact ⟨.cons hfirst hrest, .cons hfirst' hrest'⟩

end

end Layout

/-! ## Sources -/

section Format

variable {source : List Char} {mode : Mode} {options : Options} {parsed : Parsed}

theorem format_of_written (hparse : parse source mode = .ok parsed)
    (hclean : parsed.diagnostics = []) {text : List Char}
    (hwritten : WrittenAs options parsed.tree text) :
    ∃ formatted, format source options mode = .ok formatted ∧ formatted.text = text := by
  obtain ⟨_, drafts, hparse', -, -, hbuilt⟩ := parse_eq_ok source mode
  obtain rfl := Except.ok.inj (hparse.symm.trans hparse')
  obtain ⟨after, hrun, -⟩ := hwritten parsed.source 0 { options } rfl rfl
  rw [format_eq_run hparse hbuilt hclean, hrun]
  exact ⟨_, rfl, rfl⟩

/-- The tree that is laid out is the tree of its text. -/
theorem parse_laid (hparse : parse source mode = .ok parsed) (hclean : parsed.diagnostics = [])
    (hspaces : Unmarked parsed.tree ∨ Tidy parsed.tree.tokens (parsed.tree.laid options).tokens) :
    ∃ parsed', parse (parsed.tree.laid options).text mode = .ok parsed' ∧
      parsed'.tree = parsed.tree.laid options ∧ parsed'.diagnostics = [] := by
  obtain ⟨_, drafts, hparse', -, -, hbuilt⟩ := parse_eq_ok source mode
  obtain rfl := Except.ok.inj (hparse.symm.trans hparse')
  have hlays := parsed.tree.lays_laid options
  have hshape := parsed.tree.shape_laid options
  rcases hspaces with ⟨hplain, hparbreak⟩ | htidy
  · -- No line comment is in front of the first token.
    have hrespaced : Respaced false parsed.tree.tokens (parsed.tree.laid options).tokens :=
      respaced_laid hlays (fun token htoken => (hbuilt.tokens_filled token htoken).2) hparbreak
        hbuilt.isChain_tokens nofun
    obtain ⟨parsed', hparse', htree, hsame⟩ := hrespaced.parse_text hparse hplain hshape
    rw [hclean, List.map_nil, List.map_eq_nil_iff] at hsame
    exact ⟨parsed', hparse', htree, hsame⟩
  · have htidies := tidies_laid hlays htidy
      (fun token htoken => (hbuilt.tokens_filled token htoken).1) hbuilt.two_le_lineBreaks
    exact parse_tidied hparse hclean htidy.words hshape htidies

/-- What is written is read as the tree that is laid out. -/
theorem Layout.LaidOut.exists_format (hlaid : LaidOut options parsed.tree)
    (hparse : parse source mode = .ok parsed) (hclean : parsed.diagnostics = []) :
    ∃ formatted parsed', format source options mode = .ok formatted ∧
      parse formatted.text mode = .ok parsed' ∧ parsed'.diagnostics = [] ∧
      parsed'.tree = parsed.tree.laid options ∧
      WrittenAs options parsed'.tree formatted.text := by
  obtain ⟨_, drafts, hparse', -, -, hbuilt⟩ := parse_eq_ok source mode
  obtain rfl := Except.ok.inj (hparse.symm.trans hparse')
  obtain ⟨hwritten, hagain⟩ := written_laid parsed.tree (hbuilt.sound_tree hclean)
    hbuilt.two_le_lineBreaks hlaid.lists
  obtain ⟨formatted, hformat, htext⟩ := format_of_written hparse hclean hwritten
  obtain ⟨parsed', hparse', htree, hsame⟩ := parse_laid hparse hclean hlaid.spaces
  rw [← htext] at hparse' hagain
  exact ⟨formatted, parsed', hformat, hparse', hsame, htree, by rwa [htree]⟩

/-- Where formatting changes nothing but the white space that is there, and white space of markup may
be tidied up, it keeps the structure. -/
theorem format_keeps_skeleton (hparse : parse source mode = .ok parsed)
    (hclean : parsed.diagnostics = []) (hlaid : LaidOut options parsed.tree) :
    ∃ formatted parsed', format source options mode = .ok formatted ∧
      parse formatted.text mode = .ok parsed' ∧ parsed'.diagnostics = [] ∧
      parsed'.tree.skeleton = parsed.tree.skeleton := by
  obtain ⟨formatted, parsed', hformat, hparse', hclean', htree, -⟩ :=
    hlaid.exists_format hparse hclean
  obtain ⟨_, drafts, hbuiltOf, -, -, hbuilt⟩ := parse_eq_ok source mode
  obtain rfl := Except.ok.inj (hparse.symm.trans hbuiltOf)
  obtain ⟨trees, hroot, -⟩ := hbuilt.tree_eq
  refine ⟨formatted, parsed', hformat, hparse', hclean', ?_⟩
  rw [htree, Tree.skeleton_laid]
  rw [hroot]
  show parsed.mode.rootKind.isSpace = false
  cases parsed.mode <;> rfl

/-- Two items and a paragraph of which only the white space is to be changed. -/
theorem laidOut_items :
    ∃ parsed, parse ['-', ' ', 'a', ' ', ' ', '\n', '-', ' ', 'b', '\n', '\n', '\n', '*', 'c', '*'] =
      .ok parsed ∧ parsed.diagnostics = [] ∧ LaidOut {} parsed.tree := by
  obtain ⟨parsed, _, hparse, -⟩ := parse_eq_ok
    ['-', ' ', 'a', ' ', ' ', '\n', '-', ' ', 'b', '\n', '\n', '\n', '*', 'c', '*'] .markup
  have hlaid : ((parse ['-', ' ', 'a', ' ', ' ', '\n', '-', ' ', 'b', '\n', '\n', '\n', '*', 'c',
      '*']).toOption.map fun parsed =>
        decide (parsed.diagnostics.isEmpty ∧ LaidOut {} parsed.tree)) = some true := by
    decide +kernel
  rw [hparse] at hlaid
  obtain ⟨hclean, hlaid⟩ := of_decide_eq_true (Option.some.inj hlaid)
  exact ⟨parsed, hparse, List.isEmpty_iff.1 hclean, hlaid⟩

theorem format_keeps_skeleton_items :
    ∃ parsed, parse ['-', ' ', 'a', ' ', ' ', '\n', '-', ' ', 'b', '\n', '\n', '\n', '*', 'c', '*'] =
        .ok parsed ∧ parsed.diagnostics = [] ∧ LaidOut {} parsed.tree ∧
      ∃ formatted parsed',
        format ['-', ' ', 'a', ' ', ' ', '\n', '-', ' ', 'b', '\n', '\n', '\n', '*', 'c', '*'] =
          .ok formatted ∧
        parse formatted.text = .ok parsed' ∧ parsed'.diagnostics = [] ∧
        parsed'.tree.skeleton = parsed.tree.skeleton := by
  obtain ⟨parsed, hparse, hclean, hlaid⟩ := laidOut_items
  exact ⟨parsed, hparse, hclean, hlaid, format_keeps_skeleton hparse hclean hlaid⟩

/-- Formatting can change the structure: the indentation behind an empty line is left out, and so a
paragraph is moved out of the item it belongs to. -/
theorem format_moves_paragraph :
    ((parse ['-', ' ', 'a', '\n', '\n', ' ', ' ', 'b']).toOption.map fun parsed =>
        (parsed.diagnostics.isEmpty, parsed.tree.skeleton.children.map Tree.kind)) =
      some (true, [.listItem]) ∧
    (format ['-', ' ', 'a', '\n', '\n', ' ', ' ', 'b']).toOption.map (·.text) =
      some ['-', ' ', 'a', '\n', '\n', 'b'] ∧
    ((parse ['-', ' ', 'a', '\n', '\n', 'b']).toOption.map fun parsed =>
        (parsed.diagnostics.isEmpty, parsed.tree.skeleton.children.map Tree.kind)) =
      some (true, [.listItem, .text]) := by
  decide +kernel

/-- Where formatting changes nothing but the white space that is there, and white space of markup may
be tidied up, formatting again changes nothing. -/
theorem format_twice_eq (hparse : parse source mode = .ok parsed)
    (hclean : parsed.diagnostics = []) (hlaid : LaidOut options parsed.tree) :
    ∃ formatted formatted', format source options mode = .ok formatted ∧
      format formatted.text options mode = .ok formatted' ∧ formatted'.text = formatted.text := by
  obtain ⟨formatted, parsed', hformat, hparse', hclean', -, hwritten⟩ :=
    hlaid.exists_format hparse hclean
  obtain ⟨formatted', hformat', htext⟩ := format_of_written hparse' hclean' hwritten
  exact ⟨formatted, formatted', hformat, hformat', htext⟩

/-- Two statements of which only the white space is to be changed. The first is a list that is indented
anew. -/
theorem laidOut_statements :
    ∃ parsed, parse ['f', '(', '\n', ' ', ' ', ' ', 'a', ',', ' ', '/', '/', '\n', ')', '\n', '\n',
        '\n', 'x'] .code = .ok parsed ∧ parsed.diagnostics = [] ∧ LaidOut {} parsed.tree := by
  obtain ⟨parsed, _, hparse, -⟩ := parse_eq_ok ['f', '(', '\n', ' ', ' ', ' ', 'a', ',', ' ', '/', '/',
    '\n', ')', '\n', '\n', '\n', 'x'] .code
  have hlaid : ((parse ['f', '(', '\n', ' ', ' ', ' ', 'a', ',', ' ', '/', '/', '\n', ')', '\n', '\n',
      '\n', 'x'] .code).toOption.map fun parsed =>
        decide (parsed.diagnostics.isEmpty ∧ LaidOut {} parsed.tree)) = some true := by
    decide +kernel
  rw [hparse] at hlaid
  obtain ⟨hclean, hlaid⟩ := of_decide_eq_true (Option.some.inj hlaid)
  exact ⟨parsed, hparse, List.isEmpty_iff.1 hclean, hlaid⟩

theorem format_twice_eq_statements :
    ∃ parsed, parse ['f', '(', '\n', ' ', ' ', ' ', 'a', ',', ' ', '/', '/', '\n', ')', '\n', '\n',
        '\n', 'x'] .code = .ok parsed ∧ parsed.diagnostics = [] ∧ LaidOut {} parsed.tree ∧
      ∃ formatted formatted',
        format ['f', '(', '\n', ' ', ' ', ' ', 'a', ',', ' ', '/', '/', '\n', ')', '\n', '\n', '\n',
          'x'] {} .code = .ok formatted ∧
        format formatted.text {} .code = .ok formatted' ∧ formatted'.text = formatted.text := by
  obtain ⟨parsed, hparse, hclean, hlaid⟩ := laidOut_statements
  exact ⟨parsed, hparse, hclean, hlaid, format_twice_eq hparse hclean hlaid⟩

end Format

end TypstFormat
