import TypstFormat.Proofs.Twin.Bare
import TypstFormat.Proofs.Twin.InBlock
import TypstFormat.Proofs.Twin.Parsed

/-!
# The tree of a text in a block

A text of code that is read without complaint is read as the same code in a block that is embedded
in markup. The parsers on both sides have written drafts of the same shape, with the same trivia but
for that in front of the first token and behind the last one. The parser of the block goes on behind
the closing brace, so that its drafts are those of the code within the block, the hash and the
markup.

## Key results

- `Sides.Read.aligned`: the drafts of a text and of its block
- `Sides.Read.finish_outer`: the tree of the block
- `parse_enclosed`: the code of the block is that of the text
-/

namespace TypstFormat

open Draft Parse TypstFormat.Parser Text Enclosed

namespace Sides.Read

variable {text : List Char} {children children' : List Draft} {q q' : Parser}

/-- The drafts of a text and of the block that holds it have the same shape. -/
theorem shaped (h : Read text children children' q q') :
    ∃ last, Shaped (fun _ => (Sides.enclosed text).Stop) true children children' last := by
  obtain ⟨own, hevents', hmatches⟩ := h.near.events.exists_own
  have hown : own = eventsAll [.node .code false children'] :=
    List.append_cancel_left (hevents'.symm.trans h.reads'.events_eq)
  have hevents : q.events.toList = eventsAll [.node .code false children] := h.reads.events_eq
  rw [hown, hevents] at hmatches
  have hsteps := forall₂_stepsAll (linkedAll_of_properAll _ h.reads.proper)
    (linkedAll_of_properAll _ h.reads'.proper) hmatches
  simp only [stepsAll, Draft.steps, List.append_nil] at hsteps
  exact (Shaped.of_steps true children children' (List.forall₂_cons.1 hsteps).2).1

theorem path (h : Read text children children' q q') :
    Look.Path text 0 (leavesAll children) q.stream.consumed := by
  obtain ⟨hconsumed, hsource, -⟩ := Stream.ofSource_fields text .code
  have hpath := h.reads.path
  rw [leavesAll_singleton] at hpath
  rw [← hconsumed]
  rw [← hsource]
  exact hpath

theorem path' (h : Read text children children' q q') :
    Look.Path (TypstFormat.enclosed text) 2 (leavesAll children') q'.stream.consumed := by
  have hopened := Enclosed.streams_opened text
  have hpath := h.reads'.path
  rw [leavesAll_singleton, show (Enclosed.opened text).source = _ from hopened.source,
    hopened.consumed] at hpath
  exact hpath

theorem settled_eq (h : Read text children children' q q') :
    q.stream.settled = ((leavesAll children).flatMap (·.trivia)).reverse := by
  obtain ⟨-, -, -, hsettled, -⟩ := Stream.ofSource_fields text .code
  have heq := h.reads.settled_eq
  rw [leavesAll_singleton] at heq
  rw [heq]
  exact (congrArg (_ ++ ·) hsettled).trans (List.append_nil _)

theorem settled_eq' (h : Read text children children' q q') :
    q'.stream.settled = ((leavesAll children').flatMap (·.trivia)).reverse := by
  have heq := h.reads'.settled_eq
  rw [leavesAll_singleton, (Enclosed.streams_opened text).settled, List.append_nil] at heq
  exact heq

/-- The tokens of a text and of the block that holds it correspond to each other, and so does the
trivia in front of all but the first ones. -/
theorem leaves (h : Read text children children' q q') :
    (Sides.enclosed text).Leaves true (leavesAll children) (leavesAll children') := by
  obtain ⟨_, hshaped⟩ := h.shaped
  have hstops := hshaped.leaves
  have hpath := h.path
  have hpath' := h.path'
  have hlaw := Sides.enclosed_lawful text
  by_cases hne : leavesAll children = []
  · rw [hne, List.forall₂_nil_left_iff] at hstops
    rw [hne, hstops]
    exact .nil
  · have hlt := hpath.lt hne (Nat.zero_le _)
    have hplace := h.near.consumed.resolve_right fun hfirst => hlt.ne' hfirst.1
    obtain ⟨own, own', old, old', heq, heq', hown, rfl, rfl⟩ :=
      h.near.settled hplace fun _ _ => trivial
    rw [h.settled_eq, List.reverse_eq_iff, List.reverse_append, List.reverse_reverse] at heq
    rw [h.settled_eq', List.reverse_eq_iff, List.reverse_append, List.reverse_reverse] at heq'
    have hle' : 2 ≤ (TypstFormat.enclosed text).length := by simp [TypstFormat.enclosed]
    have hcovers := covers_look (Nat.zero_le text.length) .code
    have hcovers' := covers_look hle' .code
    have hstart := lt_of_path hpath hne (Nat.zero_le _) hcovers.tile heq
    have hmiddle : (Sides.enclosed text).place (look text .code 0).token.range.start
        (look (TypstFormat.enclosed text) .code 2).token.range.start := by
      cases Enclosed.sight_first text with
      | agree halike => exact halike.start
      | ending _ halike => exact halike.start
      | foreign _ halike => exact halike.start
      | gap _ _ heof => exact absurd (hcovers.range_of_eof heof).1 hstart.ne
      | lost _ _ heof => exact absurd (hcovers.range_of_eof heof).1 hstart.ne
      | spent _ hmode => exact absurd rfl hmode
    exact .of_old hlaw hstops hpath hpath' (Nat.zero_le _) hle' heq heq' hcovers.tile hcovers'.tile
      hmiddle (List.forall₂_reverse_iff.2 hown)

/-- The drafts of a text and of the block that holds it are made of the same tokens, with the same
trivia in front of all but the first one. -/
theorem aligned (h : Read text children children' q q') :
    ∃ last, Shaped (Sides.enclosed text).Leaf true children children' last := by
  obtain ⟨_, hshaped⟩ := h.shaped
  have hleaves := h.leaves
  rw [← List.append_nil (leavesAll children), ← List.append_nil (leavesAll children')] at hleaves
  obtain ⟨last, haligned, -⟩ := hshaped.leaf hleaves
  exact ⟨last, haligned⟩

/-! ## The block and the markup around it -/

/-- What is read of the block and of the markup around it. -/
private def drafts (children : List Draft) (closing : Look) : List Draft :=
  [.token hashLook false, .void,
    .node .codeBlock false
      [.token braceLook false, .node .code false children, .token closing false]]

private theorem leavesAll_drafts (children : List Draft) (closing : Look) :
    leavesAll (drafts children closing) =
      hashLook :: braceLook :: (leavesAll children ++ [closing]) := by
  simp [drafts, leavesAll, Draft.leaves]

/-- The trees of what is read are the tokens around the code, and trivia within the braces. -/
private theorem trees_of_spaced {closing last : Look} {trees : List Tree} {toCome : Bool}
    (hkind : closing.token = brace text)
    (h : Spaced (TypstFormat.enclosed text) last true (drafts children closing) trees toCome) :
    toCome = true ∧ ∃ before code behind within,
      trees = [.token .hash ['#'], .node .codeBlock (.token .leftBrace ['{'] ::
        (before ++ .node .code code :: (behind ++ [.token .rightBrace ['}']])))] ∧
      IsGap (TypstFormat.enclosed text) (Draft.front children closing) true before ∧
      Spaced (TypstFormat.enclosed text) closing false children code within ∧
      IsGap (TypstFormat.enclosed text) closing within behind := by
  have hbrace : closing.token.range.slice (TypstFormat.enclosed text) = ['}'] := by
    rw [hkind]
    have hsource : TypstFormat.enclosed text =
        ('#' :: '{' :: '\n' :: (text ++ ['\n'])) ++ ['}'] := by simp [TypstFormat.enclosed]
    have hlength : text.length + 4 = ('#' :: '{' :: '\n' :: (text ++ ['\n'])).length := by simp
    show ((TypstFormat.enclosed text).drop (text.length + 4)).take
      (text.length + 4 + 1 - (text.length + 4)) = _
    rw [hsource, hlength, List.drop_left, Nat.add_sub_cancel_left]
    rfl
  have hclosing : (Draft.token closing false).kind = .rightBrace := congrArg Token.kind hkind
  -- The hash and the opening brace have no trivia in front, so that no gap stands there.
  cases h with
  | token hgap _ h =>
    obtain rfl := hgap.eq_nil_of_trivia rfl
    cases h with
    | void h =>
      cases h with
      | node hgap _ hinner h =>
        obtain rfl := hgap.eq_nil_of_trivia rfl
        cases h
        cases hinner with
        | token hgap' _ hinner =>
          obtain rfl := hgap'.eq_nil_of_trivia rfl
          cases hinner with
          | node hbefore _ hcode hinner =>
            cases hinner with
            | token hbehind _ hinner =>
              cases hinner
              refine ⟨rfl, _, _, _, _, ?_, hbefore, hcode, hbehind⟩
              rw [hclosing, hbrace]
              rfl

/-- The events of the block and of the markup around it. -/
private theorem events_outer (h : Read text children children' q q') :
    (outer q').events.toList = eventsAll [.node .markup false (drafts children' q'.look)] := by
  have hown : q'.events.toList =
      (Sides.enclosed text).front ++ eventsAll [.node .code false children'] := h.reads'.events_eq
  have hkind : q'.look.token.kind = .rightBrace := congrArg Token.kind h.closing.token
  have hstop : q'.look.token.range.stop = text.length + 5 :=
    congrArg (·.range.stop) h.closing.token
  show ((((q'.bump.events.setIfInBounds 3 (.start .codeBlock none)).push .finish).setIfInBounds
    0 (.start .markup none)).push .finish).toList = _
  rw [h.closing.events_bump]
  simp [hown, drafts, Sides.enclosed, eventsAll, Draft.events, hkind, hstop, hashLook, braceLook,
    Event.tombstone]

/-- The tokens of the block and of the markup around it lie one behind the other. -/
private theorem path_outer (h : Read text children children' q q') :
    Look.Path (TypstFormat.enclosed text) 0 (leavesAll (drafts children' q'.look))
      (TypstFormat.enclosed text).length := by
  have hlook : q'.look = look (TypstFormat.enclosed text) q'.look.mode q'.stream.consumed := by
    rw [← h.closing.source]
    rfl
  have hkind : q'.look.token.kind = .rightBrace := congrArg Token.kind h.closing.token
  have hstop : q'.look.token.range.stop = (TypstFormat.enclosed text).length := by
    rw [Closing.length_eq]
    exact congrArg (·.range.stop) h.closing.token
  rw [leavesAll_drafts]
  refine ⟨(look_hash text).symm, Kind.noConfusion, (look_opening text).symm, Kind.noConfusion, ?_⟩
  exact h.path'.append ⟨hlook, by rw [hkind]; exact Kind.noConfusion, hstop⟩

/-- The stream behind the block. -/
private theorem stream_outer (h : Read text children children' q q') :
    Stream.Relexed q'.stream.bump .markup (outer q').stream := by
  show Stream.Relexed _ _ (q'.bump.stream.relex .markup)
  rw [h.closing.bump_eq]
  exact h.closing.bumped.steady.relex .markup

/-- Nothing is left behind the block. -/
private theorem look_outer (h : Read text children children' q q') :
    (outer q').stream.look = { mode := .markup, trivia := []
                               token := Token.eof (TypstFormat.enclosed text).length
                               findings := [] } := by
  have hstream := h.stream_outer
  unfold Stream.look
  rw [hstream.source, hstream.mode, hstream.consumed, h.closing.bumped.source]
  rw [← h.closing.look_bump]
  exact congrArg (look · _ _) h.closing.source

/-- All trivia of the block was recorded. -/
private theorem trivia_outer (h : Read text children children' q q') :
    (outer q').stream.trivia = (leavesAll (drafts children' q'.look)).flatMap (·.trivia) := by
  have hstream := h.stream_outer
  unfold Stream.trivia
  rw [hstream.steady.recorded, h.look_outer, hstream.settled, h.closing.bumped.settled,
    h.settled_eq', leavesAll_drafts]
  simp [hashLook, braceLook, Parser.look]

/-- Nothing was complained about in the block. -/
theorem allDiagnostics_outer (h : Read text children children' q q') :
    (outer q').allDiagnostics = [] := by
  have hstream := h.stream_outer
  have hfound := h.found
  rw [h.closing.steady.findings] at hfound
  refine Parser.allDiagnostics_eq_nil.2 ⟨?_, ?_⟩
  · rw [hstream.steady.findings, h.look_outer, hstream.found, h.closing.bumped.found, hfound]
    rfl
  · show q'.bump.findings = []
    rw [h.closing.bump_eq]
    exact h.findings

/-- The tree of the block and of the markup around it. -/
theorem finish_outer (h : Read text children children' q q') :
    ∃ before code behind within events,
      (outer q').finish = .ok (.node .markup [.token .hash ['#'],
        .node .codeBlock (.token .leftBrace ['{'] ::
          (before ++ .node .code code :: (behind ++ [.token .rightBrace ['}']])))], events) ∧
      IsGap (TypstFormat.enclosed text) (Draft.front children' q'.look) true before ∧
      Spaced (TypstFormat.enclosed text) q'.look false children' code within ∧
      IsGap (TypstFormat.enclosed text) q'.look within behind := by
  -- The drafts are linked and their tokens tile the block, so that the sink builds their trees.
  have hown := linkedAll_of_properAll _ h.reads'.proper
  have hplain (children : List Draft) : WrapsNode false children := fun hwraps => nomatch hwraps
  have hlinked : LinkedAll [.node .markup false (drafts children' q'.look)] :=
    ⟨⟨Kind.noConfusion, hplain _, trivial, trivial,
      ⟨Kind.noConfusion, hplain _, trivial, hown.1, trivial, trivial⟩, trivial⟩, trivial⟩
  have hlast : (outer q').stream.look = look (TypstFormat.enclosed text)
      (outer q').stream.look.mode (TypstFormat.enclosed text).length := by
    rw [h.look_outer, look_length]
  obtain ⟨trees, gap, toCome, _, events, hbuild, hspaced, hgap, -⟩ :=
    buildTree_eventsAll hlinked h.path_outer hlast (by rw [h.look_outer]; rfl)
  obtain ⟨rfl, before, code, behind, within, rfl, hbefore, hcode, hbehind⟩ :=
    trees_of_spaced h.closing.token hspaced
  obtain rfl := hgap.eq_nil_of_trivia (by rw [h.look_outer])
  refine ⟨before, code, behind, within, events, ?_, hbefore, hcode, hbehind⟩
  have hevents : (outer q').events =
      (eventsAll [.node .markup false (drafts children' q'.look)]).toArray := by
    rw [← h.events_outer]
  have hsource : (outer q').source = TypstFormat.enclosed text := by
    have hbumped := h.closing.bumped.source
    exact h.stream_outer.source.trans (hbumped.trans h.closing.source)
  unfold Parser.finish
  rw [h.look_outer, List.append_nil, List.append_nil] at hbuild
  rw [hevents, hsource, h.trivia_outer, hbuild]

/-- The code of the block is that of the text, but for trivia outside of markup. -/
theorem bareAll_eq (h : Read text children children' q q') {next next' : Look}
    {trees trees' : List Tree} {before before' after after' : Bool}
    (hleft : Spaced text next before children trees after)
    (hright : Spaced (TypstFormat.enclosed text) next' before' children' trees' after') :
    Tree.bareAll trees' = Tree.bareAll trees := by
  obtain ⟨_, haligned⟩ := h.aligned
  have hmode : (ofSource text .code).stream.mode = .code :=
    (Stream.ofSource_fields text .code).2.2.1
  have hneat := (h.reads.bare (by rw [hmode]; exact Mode.noConfusion)).neat.1
  have htidy := h.reads.tidy h.clean
  exact haligned.bareAll_eq hleft hright h.reads.proper.1.2.2 hneat.2 htidy.sound.1.2
    (hneat.1.plain rfl)

end Sides.Read

/-- A text that is read as code without complaint is read as the same code in a block: the markup
around it is a hash and the block, and in the block nothing but white space and comments stands around
the code. The code of both is the same, but for white space and comments outside of markup. -/
theorem parse_enclosed (text : List Char) :
    ∃ parsed, parse text .code = .ok parsed ∧ (parsed.diagnostics = [] →
      ∃ parsed', parse (enclosed text) .markup = .ok parsed' ∧ parsed'.diagnostics = [] ∧
        ∃ before code behind, parsed'.tree = .node .markup [.token .hash ['#'],
            .node .codeBlock (.token .leftBrace ['{'] ::
              (before ++ .node .code code :: (behind ++ [.token .rightBrace ['}']])))] ∧
          Tree.bareAll before = [] ∧ Tree.bareAll behind = [] ∧
          Tree.bare (.node .code code) = Tree.bare parsed.tree) := by
  obtain ⟨parsed, _, hparse, _⟩ := parse_eq_ok text .code
  refine ⟨parsed, hparse, fun hclean => ?_⟩
  obtain ⟨children, children', q, q', hread, hboth⟩ := Sides.read_enclosed hparse hclean
  obtain ⟨before, code, behind, within, events', hfinish', hbefore, hcode, hbehind⟩ :=
    hboth.finish_outer
  obtain ⟨trees, gap, toCome, _, events, hfinish, hspaced, hgap, -⟩ :=
    finish_of_spans hboth.reads hread.eof
  obtain ⟨_, hown⟩ := hread.finish
  rw [hfinish] at hown
  obtain ⟨htree, -⟩ := Prod.mk.inj (Except.ok.inj hown)
  refine ⟨_, parse_of_run hboth.document hfinish', hboth.allDiagnostics_outer, before, code, behind,
    rfl, hbefore.bareAll_eq_nil, hbehind.bareAll_eq_nil, ?_⟩
  rw [← htree, Tree.bare_node Kind.noConfusion, Tree.bare_node Kind.noConfusion,
    Tree.bareAll_append, hgap.bareAll_eq_nil, List.append_nil, hboth.bareAll_eq hspaced hcode]

end TypstFormat
