import TypstFormat.Proofs.Grammar.LineStart

/-!
# List items in trees

The body of a list item takes no line that is not set in further than the marker of the item. The
grammar sees to that for drafts (`Draft.Indented`), and the elements of a tree stand where the drafts
of their trees do. A column counts the characters behind the last line feed.

To the scanner other characters end a line as well, and behind such a line break an item goes on
without an indentation.

## Key results

- `Parsed.BuiltOf.nodeOf_below`: the elements of a tree stand where their drafts do
- `parse_items_indented`: the lines of an item are set in, if line feeds end them
- `parse_item_not_indented`: an item that goes on behind a carriage return
-/

namespace TypstFormat

open Draft

namespace Parsed

variable {parsed : Parsed} {breaks : Breaks} {offset : Nat} {kind : Kind} {inner : List Draft}
  {children : List Tree}

/-- Every node of a tree stands where its draft does. -/
theorem BuiltOf.nodeOf_below {drafts : List Draft} (h : parsed.BuiltOf drafts) {e : Element}
    (hbelow : Element.Below (.root parsed.tree) e) (htree : e.tree = .node kind children) :
    ∃ trees gap breaks inner, children = trees ++ gap ∧ parsed.IsEnd kind gap ∧
      parsed.NodeOf breaks e.start kind inner trees := by
  induction hbelow generalizing kind children with
  | self =>
    obtain ⟨trees, gap, hroot, hgap, hnode⟩ := h.exists_root
    rw [show parsed.tree = .node kind children from htree] at hroot
    obtain ⟨rfl, rfl⟩ := Tree.node.inj hroot
    exact ⟨trees, gap, _, _, rfl, hgap, hnode⟩
  | @child e e' _ hmem ih =>
    obtain ⟨before, behind, hchildren, hstart⟩ := Element.mem_children hmem
    cases hparent : e.tree with
    | token =>
      rw [hparent] at hchildren
      simp [Tree.children] at hchildren
    | node parent siblings =>
      obtain ⟨trees, gap, breaks, inner, rfl, hgap, hnode⟩ := ih hparent
      rw [hparent, htree] at hchildren
      obtain ⟨rest, rfl, -⟩ := hgap.split hchildren (.inr rfl)
      obtain ⟨_, drafts, -, hchild⟩ := hnode.child rfl
      rw [← hstart] at hchild
      exact ⟨children, [], _, drafts, (List.append_nil _).symm,
        ⟨by simp, by simp, fun hne => absurd rfl hne⟩, hchild⟩

/-- Items have markers. -/
theorem isSome_marker?_of_item (hkind : kind = .listItem ∨ kind = .enumItem) :
    kind.marker?.isSome = true := by
  rcases hkind with rfl | rfl <;> rfl

namespace NodeOf

/-- An item starts where its marker does. -/
theorem offset_eq (h : parsed.NodeOf breaks offset kind inner children)
    (hkind : kind ≠ parsed.mode.rootKind) {marker : Look} {asText : Bool} {rest : List Draft}
    (hinner : inner = .token marker asText :: rest) : offset = marker.token.range.start := by
  obtain ⟨next, before, after, start, stop, -, -, -, rfl, hroot⟩ := h.spaced
  obtain rfl : before = false := Bool.eq_false_iff.2 fun hbefore => hkind (hroot hbefore)
  subst hinner
  rfl

/-- White space of markup in which a line ends was a token, and stands where the token does. -/
theorem exists_token (h : parsed.NodeOf breaks offset .markup inner children)
    {left right : List Tree} {tree : Tree} (hchildren : children = left ++ tree :: right)
    (hends : tree.endsLine = true) :
    ∃ look, .token look false ∈ inner ∧ look.token.kind.isSpace = true ∧
      look.token.containsNewline = true ∧
      offset + Tree.lengthAll left + tree.length = look.token.range.stop := by
  have hinside : breaks.inside .markup = .nowhere := if_pos rfl
  obtain ⟨draft, hmem, next, within, start, stop, htree, -, hruns, hoffset⟩ :=
    h.exists_draft hchildren (.inr ⟨hinside, hends⟩)
  cases tree with
  | node => cases hends
  | token kind text =>
    obtain ⟨look, asText, rfl, hcut, rfl, rfl⟩ := htree.of_token
    cases asText with
    | true => cases hends
    | false =>
      rw [show (Tree.token (Draft.token look false).kind (look.token.range.slice parsed.source)) =
        .token look.token.kind (look.token.range.slice parsed.source) from rfl, hcut.endsLine,
        Bool.and_eq_true_iff] at hends
      refine ⟨look, hmem, hends.1, hends.2, ?_⟩
      rw [hoffset, Tree.length]
      exact hcut.start_add_length

/-- The markup in an item is the one that holds its lines. -/
theorem body (h : parsed.NodeOf breaks offset kind inner children) {marker : Look}
    {blanks lines : List Draft}
    (hinner : inner = .token marker false :: (blanks ++ [.node .markup false lines]))
    (hblanks : ∀ draft ∈ blanks, draft.isNode = false) {left right trees : List Tree}
    (hchildren : children = left ++ .node .markup trees :: right) :
    parsed.NodeOf (breaks.inside kind) (offset + Tree.lengthAll left) .markup lines trees := by
  obtain ⟨wraps, drafts, hmem, hbody⟩ := h.child hchildren
  subst hinner
  rcases List.mem_cons.1 hmem with heq | hmem
  · cases heq
  · rcases List.mem_append.1 hmem with hmem | hmem
    · cases hblanks _ hmem
    · cases List.mem_singleton.1 hmem
      exact hbody

/-- A line in the body of an item leads to a column behind that of the item. -/
theorem column_lt (h : parsed.NodeOf breaks offset kind inner children)
    (hkind : kind = .listItem ∨ kind = .enumItem) {left right trees before behind : List Tree}
    {space : Tree} (hchildren : children = left ++ .node .markup trees :: right)
    (htrees : trees = before ++ space :: behind) (hends : space.endsLine = true) :
    Text.column parsed.source offset < Text.column parsed.source
      (offset + Tree.lengthAll left + Tree.lengthAll before + space.length) := by
  have hroot := Kind.ne_rootKind (isSome_marker?_of_item hkind) parsed.mode
  obtain ⟨_, _, _, _, _, -, hlined, -⟩ := h.spaced
  obtain ⟨marker, blanks, lines, hinner, hblanks, hlines⟩ := (lined_node.1 hlined).2 hkind
  obtain ⟨look, hmem, hspace, hbreak, hstop⟩ :=
    (h.body hinner hblanks hchildren).exists_token htrees hends
  rw [h.offset_eq hroot hinner] at hstop ⊢
  rw [hstop]
  exact hlines look hmem hspace hbreak

/-- The marker of an item is its first child. -/
theorem eq_nil_of_marker (h : parsed.NodeOf breaks offset kind inner children)
    {left right : List Tree} {marker : Tree} (hchildren : children = left ++ marker :: right)
    (hmarker : marker.kind.isMarker = true) : left = [] := by
  have hmarked := h.marked
  rw [hchildren, List.map_append, List.map_cons] at hmarked
  exact List.map_eq_nil_iff.1 (hmarked.eq_of_mem hmarker).1

end NodeOf

end Parsed

/-- The lines of an item are set in: all white space of its body in which a line ends leads to a column
behind that of the marker, where columns count the characters behind the last line feed. -/
theorem parse_items_indented (source : List Char) (mode : Mode) :
    ∃ parsed, parse source mode = .ok parsed ∧
      ∀ item, Element.Below (.root parsed.tree) item →
        item.kind = .listItem ∨ item.kind = .enumItem →
        ∀ marker ∈ item.children, marker.kind = .listMarker ∨ marker.kind = .enumMarker →
        ∀ body ∈ item.children, body.kind = .markup →
        ∀ space ∈ body.children, space.tree.endsLine = true →
          Text.column source marker.start < Text.column source space.stop := by
  obtain ⟨parsed, drafts, hparse, rfl, _, hbuilt⟩ := parse_eq_ok source mode
  refine ⟨parsed, hparse, fun item hitem hkind marker hmarker hmarkers body hbody hmarkup space
    hspace hends => ?_⟩
  obtain ⟨front, rest, hfront, hstart⟩ := Element.mem_children hmarker
  obtain ⟨left, right, hleft, hbegin⟩ := Element.mem_children hbody
  obtain ⟨before, behind, hbefore, hplace⟩ := Element.mem_children hspace
  cases htree : item.tree with
  | token => simp [htree, Tree.children] at hfront
  | node kind children =>
    cases hlines : body.tree with
    | token => simp [hlines, Tree.children] at hbefore
    | node own trees =>
      have hkind : kind = .listItem ∨ kind = .enumItem := by
        simpa [Element.kind, htree, Tree.kind] using hkind
      obtain rfl : own = .markup := by
        simpa [Element.kind, hlines, Tree.kind] using hmarkup
      rw [htree] at hfront hleft
      rw [hlines] at hleft hbefore
      obtain ⟨own, gap, breaks, inner, rfl, hgap, hnode⟩ := hbuilt.nodeOf_below hitem htree
      obtain rfl : gap = [] := by
        by_contra hne
        exact Kind.ne_rootKind (Parsed.isSome_marker?_of_item hkind) parsed.mode (hgap.root hne)
      rw [List.append_nil] at hfront hleft
      have hmark : marker.kind.isMarker = true := by
        rcases hmarkers with hmark | hmark <;> rw [hmark] <;> rfl
      obtain rfl : front = [] := hnode.eq_nil_of_marker hfront hmark
      have hcolumn := hnode.column_lt hkind hleft hbefore hends
      rw [← hbegin, ← hplace] at hcolumn
      rw [hstart]
      exact hcolumn

/-- How many characters stand behind the last line break in front of an offset, whatever character the
line break is. -/
def Text.lineBreakColumn (text : List Char) (offset : Nat) : Nat :=
  ((text.take offset).reverse.takeWhile (!isLineBreak ·)).length

/-- Behind a carriage return an item goes on at the first column, where its marker stands. -/
theorem parse_item_not_indented :
    ∃ parsed ∈ (parse ['-', ' ', 'a', '\r', 'b']).toOption,
      ∃ item ∈ (Element.root parsed.tree).children, item.kind = .listItem ∧
        ∃ marker ∈ item.children, marker.kind = .listMarker ∧
        ∃ body ∈ item.children, body.kind = .markup ∧
        ∃ space ∈ body.children, space.tree.endsLine = true ∧
          ¬Text.lineBreakColumn parsed.source marker.start <
            Text.lineBreakColumn parsed.source space.stop := by
  decide +kernel

end TypstFormat
