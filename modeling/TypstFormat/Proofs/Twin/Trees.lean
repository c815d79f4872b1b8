import TypstFormat.Proofs.Tree.Whole
import TypstFormat.Proofs.Twin.Document

/-!
# Trees side by side

The events of two parsers that have come to corresponding places lead to the same steps, but for the
offsets of tokens, since what is written of a node does not depend on offsets. The assemblies that
take these steps stay at corresponding places, and so do their trees: they have the same shape, and
their tokens lie between corresponding offsets (`Sides.Trees`).

## Key results

- `exists_drafts`: events that match those of drafts are the events of drafts of the same shape
- `Abreast.run`: assemblies that take corresponding steps stay at corresponding places
- `buildTree_trees`: corresponding events and trivia make corresponding trees
-/

namespace TypstFormat

open Draft

namespace Sides

variable (S : Sides)

/-! ## Drafts -/

/-- Steps that say the same about corresponding offsets. -/
inductive StepsAlike : Step → Step → Prop where
  | enter (kind : Kind) : StepsAlike (.enter kind) (.enter kind)
  | token (kind : Kind) {stop stop' : Nat} : S.place stop stop' →
    StepsAlike (.token kind stop) (.token kind stop')
  | leave : StepsAlike .leave .leave

/-- Drafts of the same shape that lead to corresponding steps. -/
structure Drafts (drafts drafts' : List Draft) : Prop where
  linked : LinkedAll drafts'
  size_eq : sizeAll drafts' = sizeAll drafts
  map_isNode : drafts'.map isNode = drafts.map isNode
  steps : List.Forall₂ S.StepsAlike (stepsAll drafts) (stepsAll drafts')

variable {S}

namespace Drafts

theorem nil : S.Drafts [] [] :=
  ⟨trivial, rfl, rfl, .nil⟩

theorem cons {draft draft' : Draft} {drafts drafts' : List Draft} (h : S.Drafts [draft] [draft'])
    (hrest : S.Drafts drafts drafts') : S.Drafts (draft :: drafts) (draft' :: drafts') where
  linked := ⟨h.linked.1, hrest.linked⟩
  size_eq := by
    have hsize := h.size_eq
    simp only [sizeAll, Nat.add_zero] at hsize ⊢
    rw [hsize, hrest.size_eq]
  map_isNode := by
    have hnode := h.map_isNode
    simp only [List.map_cons, List.map_nil] at hnode ⊢
    rw [List.singleton_inj.1 hnode, hrest.map_isNode]
  steps := by
    have hsteps := h.steps
    simp only [stepsAll, List.append_nil] at hsteps ⊢
    exact List.rel_append hsteps hrest.steps

theorem node {drafts drafts' : List Draft} {kind : Kind} (h : S.Drafts drafts drafts')
    (hkind : kind ≠ .tombstone) {wraps : Bool} (hwraps : WrapsNode wraps drafts) :
    S.Drafts [.node kind wraps drafts] [.node kind wraps drafts'] where
  linked := by
    refine ⟨⟨hkind, fun hw => ?_, h.linked⟩, trivial⟩
    obtain ⟨inner, rest, rfl, hnode⟩ := hwraps hw
    have hmap := h.map_isNode
    cases drafts' with
    | nil => cases hmap
    | cons inner' rest' => exact ⟨inner', rest', rfl, (List.cons_eq_cons.1 hmap).1.trans hnode⟩
  size_eq := by simp only [sizeAll, size, h.size_eq]
  map_isNode := rfl
  steps := by
    simp only [stepsAll, List.append_nil]
    exact .cons (.enter kind) (List.rel_append h.steps (.cons .leave .nil))

/-- What the start of a node around a node leads back over. -/
theorem span_eq {draft draft' : Draft} (h : S.Drafts [draft] [draft'])
    (hhead : draft'.head = draft.head) : draft'.span = draft.span := by
  have hsize := h.size_eq
  simp only [sizeAll, Nat.add_zero] at hsize
  unfold span
  rw [hsize, hhead]

end Drafts

/-- What matches the events of several drafts is split like these. -/
private theorem split_matches {events more : List Event} {events' : List Event}
    (h : List.Forall₂ S.Matches (events ++ more) events') :
    ∃ own own', events' = own ++ own' ∧ List.Forall₂ S.Matches events own ∧
      List.Forall₂ S.Matches more own' :=
  ⟨_, _, (List.take_append_drop events.length events').symm, by
    simpa using List.forall₂_take events.length h, by
    simpa using List.forall₂_drop events.length h⟩

private theorem split_finish {events : List Event} {events' : List Event}
    (h : List.Forall₂ S.Matches (events ++ [.finish]) events') :
    ∃ own, events' = own ++ [.finish] ∧ List.Forall₂ S.Matches events own := by
  obtain ⟨own, last, rfl, hown, hlast⟩ := split_matches h
  cases hlast with
  | cons hfinish hnil =>
    cases hfinish
    cases hnil
    exact ⟨own, rfl, hown⟩

mutual

/-- What matches the events of a draft is the events of a draft of the same shape. -/
theorem exists_draft : (draft : Draft) → Linked draft → ∀ {link : Option Int} {events' : List Event},
    List.Forall₂ S.Matches (events link draft) events' →
    ∃ draft', events' = events link draft' ∧ S.Drafts [draft] [draft'] ∧
      draft'.head = draft.head
  | .token look asText, _, link, events', h => by
    cases h with
    | cons h hnil =>
      cases hnil
      cases h with
      | token kind hplace =>
        rename_i stop'
        let token : Token := { look.token with range := .empty stop' }
        refine ⟨.token { look with token } asText, rfl, ⟨⟨trivial, trivial⟩, rfl, rfl, ?_⟩, rfl⟩
        exact .cons (.token _ hplace) .nil
  | .void, _, link, events', h => by
    cases h with
    | cons h hnil =>
      cases hnil
      cases h
      exact ⟨.void, rfl, ⟨⟨trivial, trivial⟩, rfl, rfl, .nil⟩, rfl⟩
  | .node kind false children, ⟨hkind, hwraps, hall⟩, link, events', h => by
    cases h with
    | cons h hrest =>
      cases h
      obtain ⟨own, rfl, hown⟩ := split_finish hrest
      obtain ⟨children', rfl, hchildren⟩ := exists_drafts children hall hown
      exact ⟨.node kind false children', rfl, hchildren.node hkind hwraps, rfl⟩
  | .node kind true [], ⟨_, hwraps, _⟩, _, _, _ => by
    obtain ⟨_, _, hnil, _⟩ := hwraps rfl
    cases hnil
  | .node kind true (inner :: children), ⟨hkind, hwraps, hinner, hall⟩, link, events', h => by
    have h : List.Forall₂ S.Matches (events (some (inner.span : Nat)) inner ++
        .start kind link :: (eventsAll children ++ [.finish])) events' := h
    obtain ⟨front, own, rfl, hfront, hown⟩ := split_matches h
    obtain ⟨inner', rfl, hinner', hhead⟩ := exists_draft inner hinner hfront
    cases hown with
    | cons hstart hrest =>
      cases hstart
      obtain ⟨own, rfl, hown⟩ := split_finish hrest
      obtain ⟨children', rfl, hchildren⟩ := exists_drafts children hall hown
      refine ⟨.node kind true (inner' :: children'), ?_, (hinner'.cons hchildren).node hkind hwraps,
        ?_⟩
      · rw [events, hinner'.span_eq hhead]
      · have hsize := hinner'.size_eq
        simpa only [head, sizeAll, Nat.add_zero] using hsize

/-- What matches the events of drafts is the events of drafts of the same shape. -/
theorem exists_drafts : (drafts : List Draft) → LinkedAll drafts → ∀ {events' : List Event},
    List.Forall₂ S.Matches (eventsAll drafts) events' →
    ∃ drafts', events' = eventsAll drafts' ∧ S.Drafts drafts drafts'
  | [], _, events', h => by
    cases h
    exact ⟨[], rfl, .nil⟩
  | draft :: drafts, ⟨hdraft, hdrafts⟩, events', h => by
    obtain ⟨own, own', rfl, hown, hown'⟩ := split_matches h
    obtain ⟨draft', rfl, hdraft', _⟩ := exists_draft draft hdraft hown
    obtain ⟨drafts', rfl, hdrafts'⟩ := exists_drafts drafts hdrafts hown'
    exact ⟨draft' :: drafts', rfl, hdraft'.cons hdrafts'⟩

end

/-! ## Trees -/

variable (S) in
/-- Trees of the same shape that lie between corresponding offsets, and so do all of their tokens. -/
inductive Trees : Nat → Nat → List Tree → List Tree → Nat → Nat → Prop where
  | nil {a a' : Nat} : Trees a a' [] [] a a'
  | token {a a' b b' c c' : Nat} {trees trees' : List Tree} (kind : Kind) : S.place b b' →
    Trees b b' trees trees' c c' →
    Trees a a' (.token kind (between S.left a b) :: trees)
      (.token kind (between S.right a' b') :: trees') c c'
  | node {a a' b b' c c' : Nat} {children children' trees trees' : List Tree} (kind : Kind) :
    Trees a a' children children' b b' → Trees b b' trees trees' c c' →
    Trees a a' (.node kind children :: trees) (.node kind children' :: trees') c c'

theorem Trees.append {a a' b b' c c' : Nat} {trees trees' more more' : List Tree}
    (h : S.Trees a a' trees trees' b b') (hmore : S.Trees b b' more more' c c') :
    S.Trees a a' (trees ++ more) (trees' ++ more') c c' := by
  induction h with
  | nil => exact hmore
  | token kind hplace _ ih => exact .token kind hplace (ih hmore)
  | node kind hchildren _ _ ih => exact .node kind hchildren (ih hmore)

/-- Only one node corresponds to one node. -/
theorem Trees.eq_node {a a' b b' : Nat} {kind : Kind} {children trees' : List Tree}
    (h : S.Trees a a' [.node kind children] trees' b b') :
    ∃ children', trees' = [.node kind children'] := by
  cases h with
  | node _ _ hnil =>
    cases hnil
    exact ⟨_, rfl⟩

theorem Trees.eq_node' {a a' b b' : Nat} {kind : Kind} {children' trees : List Tree}
    (h : S.Trees a a' trees [.node kind children'] b b') :
    ∃ children, trees = [.node kind children] := by
  cases h with
  | node _ _ hnil =>
    cases hnil
    exact ⟨_, rfl⟩

variable (S) in
/-- Builders that have come to corresponding offsets with trees of the same shape. -/
inductive Builders : TreeBuilder → TreeBuilder → Nat → Nat → Prop where
  | roots {roots roots' : List Tree} {a a' : Nat} :
    S.Trees 0 0 roots.reverse roots'.reverse a a' → Builders ⟨[], roots⟩ ⟨[], roots'⟩ a a'
  | node {stack stack' : List OpenNode} {roots roots' children children' : List Tree}
    {a a' b b' : Nat} (kind : Kind) : Builders ⟨stack, roots⟩ ⟨stack', roots'⟩ a a' →
    S.Trees a a' children.reverse children'.reverse b b' →
    Builders ⟨⟨kind, children⟩ :: stack, roots⟩ ⟨⟨kind, children'⟩ :: stack', roots'⟩ b b'

namespace Builders

variable {builder builder' : TreeBuilder} {a a' b b' : Nat}

theorem push (h : S.Builders builder builder' a a') {tree tree' : Tree}
    (htree : S.Trees a a' [tree] [tree'] b b') :
    S.Builders (builder.push tree) (builder'.push tree') b b' := by
  cases h with
  | roots hroots =>
    refine .roots ?_
    rw [List.reverse_cons, List.reverse_cons]
    exact hroots.append htree
  | node kind houter hchildren =>
    refine .node kind houter ?_
    rw [List.reverse_cons, List.reverse_cons]
    exact hchildren.append htree

theorem leave (h : S.Builders builder builder' a a') {left left' : TreeBuilder}
    (hleave : builder.leave = .ok left) (hleave' : builder'.leave = .ok left') :
    S.Builders left left' a a' := by
  cases h with
  | roots => cases hleave
  | node kind houter hchildren =>
    cases hleave
    cases hleave'
    exact houter.push (.node kind hchildren .nil)

theorem length_stack (h : S.Builders builder builder' a a') :
    builder'.stack.length = builder.stack.length := by
  induction h with
  | roots => rfl
  | node kind _ _ ih => exact congrArg (· + 1) ih

private theorem finish_single (kind : Kind) (children : List Tree) :
    TreeBuilder.finish ⟨[], [.node kind children]⟩ = .ok (.node kind children) := rfl

private theorem finish_other {roots : List Tree}
    (h : ∀ kind children, roots ≠ [.node kind children]) :
    TreeBuilder.finish ⟨[], roots⟩ = .ok (.node .markup roots.reverse) := by
  unfold TreeBuilder.finish
  split
  · rename_i heq
    cases heq
  · rename_i kind children _ hsingle
    exact absurd hsingle (h kind children)
  · rfl

/-- One node is the tree itself, and all else is put into a node of markup. -/
theorem finish (h : S.Builders builder builder' a a') {tree tree' : Tree}
    (hfinish : builder.finish = .ok tree) (hfinish' : builder'.finish = .ok tree') :
    S.Trees 0 0 [tree] [tree'] a a' := by
  cases h with
  | node => cases hfinish
  | @roots roots roots' _ _ hroots =>
    by_cases hsingle : ∃ kind children, roots = [.node kind children]
    · obtain ⟨kind, children, rfl⟩ := hsingle
      obtain ⟨children', hroots'⟩ := Trees.eq_node (hroots : S.Trees 0 0 [.node kind children] _ a a')
      obtain rfl : roots' = [.node kind children'] := List.reverse_eq_iff.1 hroots'
      rw [finish_single] at hfinish hfinish'
      cases hfinish
      cases hfinish'
      exact hroots
    · have hsingle' : ∀ kind children, roots' ≠ [.node kind children] := by
        rintro kind children' rfl
        obtain ⟨children, hroots⟩ := Trees.eq_node' (hroots : S.Trees 0 0 _ [.node kind children'] a a')
        obtain rfl : roots = [.node kind children] := List.reverse_eq_iff.1 hroots
        exact hsingle ⟨kind, children, rfl⟩
      rw [finish_other fun kind children heq => hsingle ⟨kind, children, heq⟩] at hfinish
      rw [finish_other hsingle'] at hfinish'
      cases hfinish
      cases hfinish'
      exact .node .markup hroots .nil

end Builders

/-! ## Assemblies -/

variable (S) in
/-- Assemblies at corresponding offsets, with corresponding trivia ahead. -/
structure Abreast (a a' : Assembly) : Prop where
  source_eq : a.source = S.left
  source_eq' : a'.source = S.right
  position : S.place a.position a'.position
  pending : List.Forall₂ S.Piece a.pending a'.pending
  builder : S.Builders a.builder a'.builder a.position a'.position

namespace Abreast

variable {a a' : Assembly}

theorem addToken (h : S.Abreast a a') (kind : Kind) {stop stop' : Nat}
    (hplace : S.place stop stop') :
    S.Abreast (a.addToken kind stop) (a'.addToken kind stop') where
  source_eq := h.source_eq
  source_eq' := h.source_eq'
  position := hplace
  pending := h.pending
  builder := by
    refine h.builder.push ?_
    rw [h.source_eq, h.source_eq']
    exact .token kind hplace .nil

theorem addPieces (hS : S.Lawful) (h : S.Abreast a a') {pieces pieces' : List Trivia}
    (hpieces : List.Forall₂ S.Piece pieces pieces') :
    S.Abreast (a.addPieces pieces) (a'.addPieces pieces') := by
  induction hpieces generalizing a a' with
  | nil => exact { h with pending := .nil }
  | @cons piece piece' pieces pieces' hpiece hpieces ih =>
    have hiff := hS.place_iff hpiece.start h.position
    unfold Assembly.addPieces
    by_cases hstart : piece.range.start = a.position
    · rw [if_pos hstart, if_pos (hiff.1 hstart), hpiece.kind]
      exact ih (h.addToken piece.kind hpiece.stop)
    · rw [if_neg hstart, if_neg (mt hiff.2 hstart)]
      exact { h with pending := .cons hpiece hpieces }

theorem addTrivia (hS : S.Lawful) (h : S.Abreast a a') : S.Abreast a.addTrivia a'.addTrivia :=
  h.addPieces hS h.pending

/-- Leaving a node is one of the builder, and nothing else changes but for the trivia at the end. -/
private theorem of_leave {b b' : Assembly} (h : S.Abreast a a')
    (hleave : (a.builder.leave.map fun builder => { a with builder }).mapError TreeError.build = .ok b)
    (hleave' : (a'.builder.leave.map fun builder => { a' with builder }).mapError TreeError.build =
      .ok b') : S.Abreast b b' := by
  cases hbuilder : a.builder.leave with
  | error => rw [hbuilder] at hleave; cases hleave
  | ok left =>
    cases hbuilder' : a'.builder.leave with
    | error => rw [hbuilder'] at hleave'; cases hleave'
    | ok left' =>
      rw [hbuilder] at hleave
      rw [hbuilder'] at hleave'
      cases hleave
      cases hleave'
      exact { h with builder := h.builder.leave hbuilder hbuilder' }

theorem leave (hS : S.Lawful) (h : S.Abreast a a') {b b' : Assembly} (hleave : a.leave = .ok b)
    (hleave' : a'.leave = .ok b') : S.Abreast b b' := by
  have hlength := h.builder.length_stack
  unfold Assembly.leave at hleave hleave'
  cases hstack : a.builder.stack with
  | nil => rw [hstack] at hleave; cases hleave
  | cons node stack =>
    cases hstack' : a'.builder.stack with
    | nil => rw [hstack'] at hleave'; cases hleave'
    | cons node' stack' =>
      rw [hstack, hstack'] at hlength
      rw [hstack] at hleave
      rw [hstack'] at hleave'
      cases stack with
      | nil =>
        obtain rfl : stack' = [] := List.eq_nil_of_length_eq_zero (Nat.succ.inj hlength)
        simp only at hleave hleave'
        split at hleave
        · split at hleave'
          · exact of_leave (h.addTrivia hS) hleave hleave'
          · cases hleave'
        · cases hleave
      | cons =>
        cases stack' with
        | nil => cases hlength
        | cons => exact of_leave h hleave hleave'

theorem step (hS : S.Lawful) (h : S.Abreast a a') {step step' : Step}
    (hstep : S.StepsAlike step step') {b b' : Assembly} (hb : a.step step = .ok b)
    (hb' : a'.step step' = .ok b') : S.Abreast b b' := by
  cases hstep with
  | enter kind =>
    have hempty : a'.builder.stack.isEmpty = a.builder.stack.isEmpty := by
      rw [Bool.eq_iff_iff, List.isEmpty_iff_length_eq_zero, List.isEmpty_iff_length_eq_zero,
        h.builder.length_stack]
    have hflushed : S.Abreast (if a.builder.stack.isEmpty then a else a.addTrivia)
        (if a'.builder.stack.isEmpty then a' else a'.addTrivia) := by
      rw [hempty]
      split
      · exact h
      · exact h.addTrivia hS
    cases hb
    cases hb'
    exact { hflushed with builder := .node kind hflushed.builder .nil }
  | token kind hplace =>
    cases hb
    cases hb'
    exact (h.addTrivia hS).addToken kind hplace
  | leave => exact h.leave hS hb hb'

/-- Assemblies that take corresponding steps stay at corresponding places. -/
theorem run (hS : S.Lawful) (h : S.Abreast a a') {steps steps' : List Step}
    (hsteps : List.Forall₂ S.StepsAlike steps steps') {b b' : Assembly} (hb : a.run steps = .ok b)
    (hb' : a'.run steps' = .ok b') : S.Abreast b b' := by
  induction hsteps generalizing a a' with
  | nil =>
    cases hb
    cases hb'
    exact h
  | @cons step step' steps steps' hstep hsteps ih =>
    obtain ⟨next, hfirst, hb⟩ := Assembly.run_eq_ok hb
    obtain ⟨next', hfirst', hb'⟩ := Assembly.run_eq_ok hb'
    exact ih (h.step hS hstep hfirst hfirst') hb hb'

end Abreast

/-! ## The whole source -/

/-- An assembly that leaves the last open node has come to the end of the source. -/
private theorem position_of_leave {a b : Assembly} (hleave : a.leave = .ok b)
    (hstack : b.builder.stack = []) : b.position = b.source.length := by
  obtain ⟨c, builder, hleft, rfl, hcases⟩ := Assembly.leave_cases hleave
  rcases hcases with ⟨_, _, hposition⟩ | ⟨hlength, rfl⟩
  · exact hposition
  · -- There were two open nodes at least, of which one is left.
    have hlast := TreeBuilder.length_stack_leave hleft
    rw [show builder.stack = [] from hstack] at hlast
    exact absurd hlast.symm hlength

private theorem position_of_run {a b : Assembly} {steps : List Step}
    (hrun : a.run (steps ++ [.leave]) = .ok b) {tree : Tree} (hfinish : b.builder.finish = .ok tree) :
    b.position = b.source.length := by
  have hstack : b.builder.stack = [] := by
    cases hstack : b.builder.stack with
    | nil => rfl
    | cons => simp [TreeBuilder.finish, hstack] at hfinish
  unfold Assembly.run at hrun
  rw [List.foldlM_append] at hrun
  cases hfront : List.foldlM Assembly.step a steps with
  | error => rw [hfront] at hrun; cases hrun
  | ok c =>
    rw [hfront] at hrun
    have hleave : (Assembly.step c .leave >>= pure) = .ok b := hrun
    rw [bind_pure] at hleave
    exact position_of_leave hleave hstack

/-- What a tree is built by. -/
private theorem buildTree_eq_ok {source : List Char} {trivia : List Trivia} {drafts : List Draft}
    (hlinked : LinkedAll drafts) {tree : Tree} {events : Array Event}
    (h : buildTree source trivia (eventsAll drafts).toArray = .ok (tree, events)) :
    ∃ b, ({ source, pending := trivia } : Assembly).run (stepsAll drafts) = .ok b ∧
      b.builder.finish = .ok tree := by
  obtain ⟨rest, hreplay⟩ := replay_eventsAll hlinked
  have hbuilt := buildTree_eq_ok_run h
  rw [hreplay] at hbuilt
  exact hbuilt

/-- Corresponding events and trivia make corresponding trees. -/
theorem buildTree_trees (hS : S.Lawful) (hzero : S.place 0 0) {kind : Kind} {wraps : Bool}
    {children : List Draft} (hlinked : LinkedAll [.node kind wraps children]) {events' : List Event}
    (hevents : List.Forall₂ S.Matches (eventsAll [.node kind wraps children]) events')
    {trivia trivia' : List Trivia} (htrivia : List.Forall₂ S.Piece trivia trivia')
    {tree tree' : Tree} {rest rest' : Array Event}
    (h : buildTree S.left trivia (eventsAll [.node kind wraps children]).toArray = .ok (tree, rest))
    (h' : buildTree S.right trivia' events'.toArray = .ok (tree', rest')) :
    S.Trees 0 0 [tree] [tree'] S.left.length S.right.length := by
  obtain ⟨drafts', rfl, hdrafts⟩ := exists_drafts _ hlinked hevents
  obtain ⟨b, hrun, hfinish⟩ := buildTree_eq_ok hlinked h
  obtain ⟨b', hrun', hfinish'⟩ := buildTree_eq_ok hdrafts.linked h'
  have hstart : S.Abreast { source := S.left, pending := trivia }
      { source := S.right, pending := trivia' } :=
    ⟨rfl, rfl, hzero, htrivia, .roots .nil⟩
  have hend := hstart.run hS hdrafts.steps hrun hrun'
  -- The last step leaves the node around all others, on both sides.
  have hsteps : stepsAll [.node kind wraps children] =
      (.enter kind :: stepsAll children) ++ [.leave] := by
    simp [stepsAll, steps]
  have hsteps' : ∃ steps', stepsAll drafts' = steps' ++ [.leave] := by
    have hall := hdrafts.steps
    rw [hsteps] at hall
    generalize stepsAll drafts' = all at hall
    have hlast := List.forall₂_drop (.enter kind :: stepsAll children).length hall
    rw [List.drop_left] at hlast
    cases hlast' : all.drop (.enter kind :: stepsAll children).length with
    | nil => rw [hlast'] at hlast; cases hlast
    | cons step more =>
      rw [hlast'] at hlast
      cases hlast with
      | cons hleave hnil =>
        cases hleave
        cases hnil
        exact ⟨_, by rw [← hlast', List.take_append_drop]⟩
  obtain ⟨steps', hsteps'⟩ := hsteps'
  rw [hsteps] at hrun
  rw [hsteps'] at hrun'
  have hposition := position_of_run hrun hfinish
  have hposition' := position_of_run hrun' hfinish'
  rw [hend.source_eq] at hposition
  rw [hend.source_eq'] at hposition'
  rw [← hposition, ← hposition']
  exact hend.builder.finish hfinish hfinish'

end Sides

end TypstFormat
