import TypstFormat.Tree.Assembly

/-!
# Trees of the whole source

An assembly writes the source into a tree piece by piece. As long as no token ends in front of what
is written already, what it has written is the source up to its position, whatever the trivia is and
wherever the links of the events lead. When the outermost node is left, the position has to be the
end of the source. So a tree that is built at all has the text of the source, if one such node was
left.

## Key results

- `TreeBuilder.text_push`, `TreeBuilder.text_leave`: what the builder does to the text in it
- `Assembly.Onward.step`: one step writes on, from where the assembly stands
- `buildTree_text`: the text of a tree is the source
-/

namespace TypstFormat

/-! ## The text in a builder -/

namespace TreeBuilder

/-- The texts of open nodes, put together, the outermost first. -/
def openText : List OpenNode → List Char
  | [] => []
  | node :: stack => openText stack ++ Tree.textAll node.children.reverse

/-- All text that is in a builder. -/
def text (builder : TreeBuilder) : List Char :=
  Tree.textAll builder.roots.reverse ++ openText builder.stack

variable {builder left : TreeBuilder}

theorem text_push (builder : TreeBuilder) (tree : Tree) :
    (builder.push tree).text = builder.text ++ tree.text := by
  obtain ⟨stack, roots⟩ := builder
  cases stack with
  | nil => simp [push, text, openText, Tree.textAll]
  | cons node stack => simp [push, text, openText, OpenNode.push, Tree.textAll]

theorem text_enter (builder : TreeBuilder) (kind : Kind) :
    (builder.enter kind).text = builder.text := by
  simp [enter, text, openText, Tree.textAll]

theorem length_stack_leave (h : builder.leave = .ok left) :
    left.stack.length + 1 = builder.stack.length := by
  obtain ⟨stack, roots⟩ := builder
  cases stack with
  | nil => cases h
  | cons node stack =>
    cases h
    cases stack <;> rfl

/-- The text of a node that is left moves into the node around it. -/
theorem text_leave (h : builder.leave = .ok left) : left.text = builder.text := by
  obtain ⟨stack, roots⟩ := builder
  cases stack with
  | nil => cases h
  | cons node stack =>
    cases h
    rw [text_push]
    simp [text, openText, OpenNode.toTree, Tree.text]

/-- The tree that is built has all the text. -/
theorem text_finish {tree : Tree} {root : Kind} (h : builder.finish root = .ok tree) :
    tree.text = builder.text := by
  unfold finish at h
  split at h
  · cases h
  · rename_i kind children hstack hroots
    cases h
    simp [text, hstack, hroots, openText, Tree.textAll]
  · rename_i hstack _
    cases h
    simp [text, hstack, openText, Tree.text]

end TreeBuilder

namespace Assembly

/-! ## Forward steps -/

/-- A token that is added does not end in front of what is written already, and that includes the
trivia in front of the token. -/
def Admits (a : Assembly) : Step → Prop
  | .token _ stop => a.addTrivia.position ≤ stop
  | _ => True

/-- All tokens that are added in a run do so. -/
def Forward : Assembly → List Step → Prop
  | _, [] => True
  | a, step :: steps =>
    a.Admits step ∧
      match a.step step with
      | .ok b => Forward b steps
      | .error _ => True

/-- In a run, a node is left that stands in no other one. -/
def ClosesRoot : Assembly → List Step → Prop
  | _, [] => False
  | a, step :: steps =>
    (step = .leave ∧ a.builder.stack.length = 1) ∨
      match a.step step with
      | .ok b => ClosesRoot b steps
      | .error _ => False

instance (a : Assembly) : (step : Step) → Decidable (a.Admits step)
  | .token _ _ => inferInstanceAs (Decidable (_ ≤ _))
  | .enter _ | .leave => inferInstanceAs (Decidable True)

instance decidableForward : (a : Assembly) → (steps : List Step) → Decidable (a.Forward steps)
  | _, [] => inferInstanceAs (Decidable True)
  | a, step :: steps =>
    have : Decidable (match a.step step with
        | .ok b => Forward b steps
        | .error _ => True) :=
      match a.step step with
      | .ok b => decidableForward b steps
      | .error _ => inferInstanceAs (Decidable True)
    inferInstanceAs (Decidable (_ ∧ _))

instance decidableClosesRoot :
    (a : Assembly) → (steps : List Step) → Decidable (a.ClosesRoot steps)
  | _, [] => inferInstanceAs (Decidable False)
  | a, step :: steps =>
    have : Decidable (match a.step step with
        | .ok b => ClosesRoot b steps
        | .error _ => False) :=
      match a.step step with
      | .ok b => decidableClosesRoot b steps
      | .error _ => inferInstanceAs (Decidable False)
    inferInstanceAs (Decidable (_ ∨ _))

/-! ## Writing on -/

/-- What is written is the source up to the position. -/
def Written (a : Assembly) : Prop :=
  a.builder.text = a.source.take a.position

/-- An assembly becomes another one by writing the source on from where it stands. -/
structure Onward (a b : Assembly) : Prop where
  source_eq : b.source = a.source
  position_le : a.position ≤ b.position
  written : a.Written → b.Written

namespace Onward

variable {a b c : Assembly}

theorem refl (a : Assembly) : Onward a a :=
  ⟨rfl, Nat.le_refl _, id⟩

theorem trans (h₁ : Onward a b) (h₂ : Onward b c) : Onward a c :=
  ⟨h₂.source_eq.trans h₁.source_eq, Nat.le_trans h₁.position_le h₂.position_le,
    fun h => h₂.written (h₁.written h)⟩

/-- Nothing is written by what only moves text within the builder. -/
theorem of_text {builder : TreeBuilder} (h : builder.text = a.builder.text) :
    Onward a { a with builder } :=
  ⟨rfl, Nat.le_refl _, fun hwritten => h.trans hwritten⟩

theorem addToken (a : Assembly) (kind : Kind) {stop : Nat} (h : a.position ≤ stop) :
    Onward a (a.addToken kind stop) := by
  refine ⟨rfl, h, fun hwritten => ?_⟩
  show (a.builder.token kind ((a.source.drop a.position).take (stop - a.position))).text =
    a.source.take stop
  have hstop : stop = a.position + (stop - a.position) := by omega
  unfold TreeBuilder.token
  rw [TreeBuilder.text_push, hwritten]
  conv => rhs; rw [hstop, List.take_add]
  rfl

/-- A piece of trivia starts where the assembly stands, and does not end before. -/
theorem addPieces (a : Assembly) (pieces : List Trivia) : Onward a (a.addPieces pieces) := by
  induction pieces generalizing a with
  | nil => exact ⟨rfl, Nat.le_refl _, id⟩
  | cons piece rest ih =>
    unfold Assembly.addPieces
    split
    · rename_i hstart
      have hle : a.position ≤ piece.range.stop := hstart ▸ piece.range.start_le_stop
      exact (addToken a piece.kind hle).trans (ih _)
    · exact ⟨rfl, Nat.le_refl _, id⟩

theorem addTrivia (a : Assembly) : Onward a a.addTrivia :=
  addPieces a a.pending

end Onward

/-- A node that is left is the outermost one, and the source ends there, or it stands in another
one. -/
theorem leave_cases {a b : Assembly} (h : a.leave = .ok b) :
    ∃ c builder, c.builder.leave = .ok builder ∧ b = { c with builder } ∧
      ((a.builder.stack.length = 1 ∧ c = a.addTrivia ∧ c.position = c.source.length) ∨
        (a.builder.stack.length ≠ 1 ∧ c = a)) := by
  have hleft {c : Assembly}
      (h : (c.builder.leave.map fun builder => { c with builder }).mapError TreeError.build =
        .ok b) : ∃ builder, c.builder.leave = .ok builder ∧ b = { c with builder } := by
    cases hleave : c.builder.leave with
    | error => rw [hleave] at h; cases h
    | ok builder =>
      rw [hleave] at h
      cases h
      exact ⟨builder, rfl, rfl⟩
  unfold leave at h
  split at h
  · cases h
  · rename_i node hstack
    dsimp only at h
    split at h
    · rename_i hposition
      obtain ⟨builder, hleave, rfl⟩ := hleft h
      exact ⟨a.addTrivia, builder, hleave, rfl, .inl ⟨by rw [hstack]; rfl, rfl, hposition⟩⟩
    · cases h
  · rename_i hnil hsingle
    obtain ⟨builder, hleave, rfl⟩ := hleft h
    refine ⟨a, builder, hleave, rfl, .inr ⟨fun hlength => ?_, rfl⟩⟩
    obtain ⟨node, hstack⟩ := List.length_eq_one_iff.1 hlength
    exact hsingle node hstack

theorem Onward.leave {a b : Assembly} (h : a.leave = .ok b) : Onward a b := by
  obtain ⟨c, builder, hleave, rfl, hcases⟩ := leave_cases h
  have hmoved : Onward c { c with builder } := .of_text (TreeBuilder.text_leave hleave)
  rcases hcases with ⟨_, rfl, _⟩ | ⟨_, rfl⟩
  · exact (addTrivia a).trans hmoved
  · exact hmoved

/-- One step writes on, from where the assembly stands. -/
theorem Onward.step {a b : Assembly} {step : Step} (hadmits : a.Admits step)
    (h : a.step step = .ok b) : Onward a b := by
  cases step with
  | enter kind =>
    have hflushed : Onward a (if a.builder.stack.isEmpty then a else a.addTrivia) := by
      split
      · exact .refl a
      · exact .addTrivia a
    cases h
    exact hflushed.trans (.of_text (TreeBuilder.text_enter _ kind))
  | token kind stop =>
    cases h
    exact (addTrivia a).trans (addToken _ kind hadmits)
  | leave => exact .leave h

/-! ## Runs -/

theorem run_eq_ok {a b : Assembly} {step : Step} {steps : List Step}
    (h : a.run (step :: steps) = .ok b) : ∃ c, a.step step = .ok c ∧ c.run steps = .ok b := by
  unfold run at h
  rw [List.foldlM_cons] at h
  cases hstep : a.step step with
  | error => rw [hstep] at h; cases h
  | ok c =>
    rw [hstep] at h
    exact ⟨c, rfl, h⟩

theorem Forward.cons {a c : Assembly} {step : Step} {steps : List Step}
    (h : a.Forward (step :: steps)) (hstep : a.step step = .ok c) :
    a.Admits step ∧ c.Forward steps := by
  obtain ⟨hadmits, hrest⟩ := h
  rw [hstep] at hrest
  exact ⟨hadmits, hrest⟩

theorem Onward.run {a b : Assembly} {steps : List Step} (hforward : a.Forward steps)
    (h : a.run steps = .ok b) : Onward a b := by
  induction steps generalizing a with
  | nil =>
    cases h
    exact .refl _
  | cons step steps ih =>
    obtain ⟨c, hstep, hrun⟩ := run_eq_ok h
    obtain ⟨hadmits, hforward⟩ := hforward.cons hstep
    exact (Onward.step hadmits hstep).trans (ih hforward hrun)

/-- Behind an outermost node the source is written as a whole. -/
theorem ClosesRoot.length_le {a b : Assembly} {steps : List Step} (h : a.ClosesRoot steps)
    (hforward : a.Forward steps) (hrun : a.run steps = .ok b) : b.source.length ≤ b.position := by
  induction steps generalizing a with
  | nil => cases h
  | cons step steps ih =>
    obtain ⟨c, hstep, hrun⟩ := run_eq_ok hrun
    obtain ⟨_, hforward⟩ := hforward.cons hstep
    rcases h with ⟨rfl, hlength⟩ | hrest
    · -- This is the outermost node, and what comes behind it does not go back.
      obtain ⟨d, builder, _, rfl, hcases⟩ := leave_cases (show a.leave = .ok c from hstep)
      obtain ⟨-, -, hposition⟩ := hcases.resolve_right fun hother => hother.1 hlength
      have honward := Onward.run hforward hrun
      rw [honward.source_eq]
      exact hposition ▸ honward.position_le
    · rw [hstep] at hrest
      exact ih hrest hforward hrun

end Assembly

/-! ## Trees -/

/-- A tree is built by a run through all steps. -/
theorem buildTree_eq_ok_run {source : List Char} {trivia : List Trivia} {events rest : Array Event}
    {tree : Tree} (h : buildTree source trivia events = .ok (tree, rest)) :
    ∃ b, ({ source, pending := trivia } : Assembly).run (Event.replay events).steps = .ok b ∧
      b.builder.finish = .ok tree := by
  unfold buildTree at h
  cases hrun : ({ source, pending := trivia } : Assembly).run (Event.replay events).steps with
  | error => simp only [hrun] at h; cases h
  | ok b =>
    simp only [hrun, bind, Except.bind] at h
    split at h
    · cases h
    · split at h
      · cases h
      · rename_i hfinish
        cases h
        refine ⟨b, rfl, ?_⟩
        cases hb : b.builder.finish with
        | error => rw [hb] at hfinish; cases hfinish
        | ok => rw [hb] at hfinish; cases hfinish; rfl

/-- Whatever the trivia is, and wherever the links lead: if a tree is built, no token ends in front
of what is in the tree already, and an outermost node was left, then the text of the tree is the
source. -/
theorem buildTree_text {source : List Char} {trivia : List Trivia} {events rest : Array Event}
    {tree : Tree} (h : buildTree source trivia events = .ok (tree, rest))
    (hforward : ({ source, pending := trivia } : Assembly).Forward (Event.replay events).steps)
    (hcloses : ({ source, pending := trivia } : Assembly).ClosesRoot (Event.replay events).steps) :
    tree.text = source := by
  obtain ⟨b, hrun, hfinish⟩ := buildTree_eq_ok_run h
  obtain ⟨hsource, _, hwritten⟩ := Assembly.Onward.run hforward hrun
  have hlength := hcloses.length_le hforward hrun
  have htext : b.builder.text = b.source.take b.position := hwritten rfl
  rw [TreeBuilder.text_finish hfinish, htext, List.take_of_length_le hlength, hsource]

/-- A node is wrapped by a link that leads to a later event. One piece of trivia is never added, and
a token stands behind the root. -/
theorem buildTree_text_wrapped :
    let source := ['a', ' ', 'b']
    let trivia : List Trivia := [⟨.space, .ofLength 1 1, false⟩, ⟨.space, .ofLength 7 2, false⟩]
    let events : Array Event := #[.start .strong (some 3), .token .text 1, .finish,
      .start .markup none, .token .text 3, .finish, .token .text 5]
    ∃ tree rest, buildTree source trivia events = .ok (tree, rest) ∧
      ({ source, pending := trivia } : Assembly).Forward (Event.replay events).steps ∧
      ({ source, pending := trivia } : Assembly).ClosesRoot (Event.replay events).steps ∧
      tree.text = source := by
  intro source trivia events
  have hforward :
      ({ source, pending := trivia } : Assembly).Forward (Event.replay events).steps := by
    decide +kernel
  have hcloses :
      ({ source, pending := trivia } : Assembly).ClosesRoot (Event.replay events).steps := by
    decide +kernel
  have hok : (buildTree source trivia events).toOption.isSome = true := by
    decide +kernel
  cases hbuild : buildTree source trivia events with
  | error => rw [hbuild] at hok; cases hok
  | ok built =>
    exact ⟨built.1, built.2, rfl, hforward, hcloses, buildTree_text hbuild hforward hcloses⟩

end TypstFormat
