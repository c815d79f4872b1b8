import Mathlib.Data.List.Forall2
import TypstFormat.Proofs.Grammar.Delimiters
import TypstFormat.Proofs.Twin.Trees

/-!
# What is said of two parsed sources

Two sources that are read to corresponding ends have corresponding trees and diagnostics: what the
parsers have written, recorded and found is built and sorted in the same way on both sides. They are
read so if only what the left tree lacks is absent from the comparison.

## Key results

- `Parsed.ReadBy.not_lacks`: nothing is written for a tree that it lacks
- `Apart.parsed`: two sources have corresponding trees and diagnostics
-/

namespace TypstFormat

open TypstFormat.Parser

/-! ## What is written for a tree -/

namespace Draft

mutual

/-- The kinds of the nodes of a draft. -/
def nodeKinds : Draft → List Kind
  | token .. => []
  | void => []
  | node kind _ children => kind :: nodeKindsAll children

/-- The kinds of the nodes of several drafts. -/
def nodeKindsAll : List Draft → List Kind
  | [] => []
  | draft :: drafts => nodeKinds draft ++ nodeKindsAll drafts

end

mutual

/-- Only nodes are started. -/
theorem mem_nodeKinds_of_start {kind : Kind} : (draft : Draft) → kind ≠ .tombstone →
    ∀ {link link' : Option Int}, Event.start kind link' ∈ events link draft →
    kind ∈ nodeKinds draft
  | .token .., _, _, _, h => by simp [events] at h
  | .void, hkind, _, _, h => by
    simp only [events, List.mem_singleton, Event.tombstone, Event.start.injEq] at h
    exact absurd h.1 hkind
  | .node _ false children, hkind, _, _, h => by
    simp only [events, List.mem_cons, Event.start.injEq, List.mem_append, List.not_mem_nil,
      or_false, reduceCtorEq] at h
    rcases h with ⟨rfl, _⟩ | h
    · exact List.mem_cons_self
    · exact List.mem_cons_of_mem _ (mem_nodeKindsAll_of_start children hkind h)
  | .node _ true [], _, _, _, h => by
    simp only [events, List.mem_cons, Event.start.injEq, List.not_mem_nil, or_false,
      reduceCtorEq] at h
    rw [h.1]
    exact List.mem_cons_self
  | .node _ true (inner :: children), hkind, _, _, h => by
    simp only [events, List.mem_cons, Event.start.injEq, List.mem_append, List.not_mem_nil,
      or_false, reduceCtorEq] at h
    rcases h with h | ⟨rfl, _⟩ | h
    · exact List.mem_cons_of_mem _
        (List.mem_append_left _ (mem_nodeKinds_of_start inner hkind h))
    · exact List.mem_cons_self
    · exact List.mem_cons_of_mem _
        (List.mem_append_right _ (mem_nodeKindsAll_of_start children hkind h))

theorem mem_nodeKindsAll_of_start {kind : Kind} : (drafts : List Draft) → kind ≠ .tombstone →
    ∀ {link : Option Int}, Event.start kind link ∈ eventsAll drafts →
    kind ∈ nodeKindsAll drafts
  | [], _, _, h => by cases h
  | draft :: drafts, hkind, _, h => by
    rcases List.mem_append.1 h with h | h
    · exact List.mem_append_left _ (mem_nodeKinds_of_start draft hkind h)
    · exact List.mem_append_right _ (mem_nodeKindsAll_of_start drafts hkind h)

end

mutual

/-- A token of a draft is a piece of it. -/
theorem exists_piece_of_token {kind : Kind} {stop : Nat} : (draft : Draft) →
    ∀ {link : Option Int}, Event.token kind stop ∈ events link draft →
    ∃ piece ∈ pieces draft, piece.kind = kind ∧ piece.range.stop = stop
  | .token look asText, _, h => by
    obtain ⟨rfl, rfl⟩ := Event.token.inj (List.mem_singleton.1 h)
    exact ⟨_, List.mem_cons_self, rfl, rfl⟩
  | .void, _, h => by simp [events, Event.tombstone] at h
  | .node _ false children, _, h => by
    simp only [events, List.mem_cons, reduceCtorEq, List.mem_append, List.not_mem_nil, or_false,
      false_or] at h
    exact exists_piece_of_tokenAll children h
  | .node _ true [], _, h => by simp [events] at h
  | .node _ true (inner :: children), _, h => by
    simp only [events, List.mem_cons, List.mem_append, List.not_mem_nil, reduceCtorEq, or_false,
      false_or] at h
    rcases h with h | h
    · obtain ⟨piece, hpiece, hsame⟩ := exists_piece_of_token inner h
      exact ⟨piece, List.mem_append_left _ hpiece, hsame⟩
    · obtain ⟨piece, hpiece, hsame⟩ := exists_piece_of_tokenAll children h
      exact ⟨piece, List.mem_append_right _ hpiece, hsame⟩

theorem exists_piece_of_tokenAll {kind : Kind} {stop : Nat} : (drafts : List Draft) →
    Event.token kind stop ∈ eventsAll drafts →
    ∃ piece ∈ piecesAll drafts, piece.kind = kind ∧ piece.range.stop = stop
  | [], h => by cases h
  | draft :: drafts, h => by
    rcases List.mem_append.1 h with h | h
    · obtain ⟨piece, hpiece, hsame⟩ := exists_piece_of_token draft h
      exact ⟨piece, List.mem_append_left _ hpiece, hsame⟩
    · obtain ⟨piece, hpiece, hsame⟩ := exists_piece_of_tokenAll drafts h
      exact ⟨piece, List.mem_append_right _ hpiece, hsame⟩

end

end Draft

/-- The nodes of drafts are those of their trees. -/
theorem Grown.map_nodesAll {source : List Char} {drafts : List Draft} {trees : List Tree}
    (h : Grown source drafts trees) :
    (Tree.nodesAll trees).map (·.1) = Draft.nodeKindsAll drafts := by
  induction h with
  | nil => rfl
  | trivia _ _ _ _ ih => exact ih
  | token _ _ ih => exact ih
  | void _ ih => exact ih
  | node _ _ _ ihinner ih =>
    simp only [Tree.nodesAll, Tree.nodes, List.cons_append, List.map_cons, List.map_append, ihinner,
      ih, Draft.nodeKindsAll, Draft.nodeKinds]

/-- The pieces up to the end of one of them. -/
theorem Trivia.Tile.up_to {start stop : Nat} {before rest : List Trivia} {piece : Trivia}
    (h : Tile start (before ++ piece :: rest) stop) :
    Tile start (before ++ [piece]) piece.range.stop ∧ piece.range.stop ≤ stop := by
  induction before generalizing start with
  | nil =>
    obtain ⟨hstart, hlt, hrest⟩ := h
    exact ⟨⟨hstart, hlt, rfl⟩, hrest.le⟩
  | cons first before ih =>
    obtain ⟨hstart, hlt, hrest⟩ := h
    obtain ⟨htile, hle⟩ := ih hrest
    exact ⟨⟨hstart, hlt, htile⟩, hle⟩

/-- A piece that a tree spells is one of its tokens. -/
theorem Spells.exists_token {source : List Char} {tree : Tree} {pieces : List Trivia}
    (h : Spells source 0 [tree] pieces source.length) {piece : Trivia} (hpiece : piece ∈ pieces) :
    ∃ before text behind, tree.tokens = before ++ (piece.kind, text) :: behind ∧
      (before.flatMap (·.2) ++ text).length = piece.range.stop := by
  obtain ⟨before, rest, rfl⟩ := List.append_of_mem hpiece
  obtain ⟨htile, hle⟩ := h.tile.up_to
  have htokens := h.tokens_eq
  rw [Tree.tokensAll, Tree.tokensAll, List.append_nil, List.map_append, List.map_cons] at htokens
  refine ⟨_, _, _, htokens, ?_⟩
  have htext : (before ++ [piece]).flatMap (·.range.slice source) =
      between source 0 piece.range.stop := htile.flatMap_slice
  rw [List.flatMap_append, List.flatMap_singleton] at htext
  rw [List.flatMap_map, htext, between, List.length_take, List.length_drop]
  omega

/-- An event that is not written where a tree is read: it starts a node of a kind that the tree does
not hold, or stands for a token that the tree does not hold. -/
def Tree.Lacks (tree : Tree) : Event → Prop
  | .start kind _ => kind ≠ .tombstone ∧ kind ∉ tree.nodes.map (·.1)
  | .token kind stop => ∀ before text behind, tree.tokens = before ++ (kind, text) :: behind →
    (before.flatMap (·.2) ++ text).length ≠ stop
  | .finish => False

/-- Nothing is written for a tree that it lacks. -/
theorem Parsed.ReadBy.not_lacks {parsed : Parsed} {children : List Draft} {q : Parser}
    (h : parsed.ReadBy children q) {event : Event} (hevent : event ∈ q.events.toList) :
    ¬parsed.tree.Lacks event := by
  have hevents : q.events.toList = Draft.eventsAll [.node parsed.mode.rootKind false children] :=
    h.reads.events_eq
  rw [hevents] at hevent
  cases event with
  | finish => exact id
  | start kind link =>
    rintro ⟨hkind, hnone⟩
    obtain ⟨trees, htree, hgrown⟩ := h.grown
    have hkinds := Draft.mem_nodeKindsAll_of_start _ hkind hevent
    simp only [Draft.nodeKindsAll, Draft.nodeKinds, List.append_nil] at hkinds
    refine hnone ?_
    rwa [htree, Tree.nodes, List.map_cons, hgrown.map_nodesAll]
  | token kind stop =>
    intro hlacks
    obtain ⟨pieces, hspells, hmem⟩ := h.pieces
    obtain ⟨piece, hpiece, rfl, rfl⟩ := Draft.exists_piece_of_tokenAll _ hevent
    have hchild : piece ∈ Draft.piecesAll children := by
      simpa [Draft.piecesAll, Draft.pieces] using hpiece
    obtain ⟨before, text, behind, htokens, hstop⟩ :=
      hspells.exists_token (hmem piece (List.mem_append_left _ hchild))
    exact hlacks before text behind htokens hstop

namespace Sides

variable {S : Sides}

/-! ## Diagnostics in order -/

/-- Lists that correspond to each other are sorted in the same way. -/
theorem forall₂_mergeSort {α β : Type} {R : α → β → Prop} {le : α → α → Bool} {le' : β → β → Bool}
    {l : List α} {l' : List β} (h : List.Forall₂ R l l')
    (hle : ∀ {a a' b b'}, R a a' → R b b' → le a b = le' a' b') :
    List.Forall₂ R (l.mergeSort le) (l'.mergeSort le') := by
  -- Both are the sides of the same list of pairs.
  obtain ⟨hlength, hzip⟩ := List.forall₂_iff_zip.1 h
  have hleft : (l.zip l').map Prod.fst = l := List.map_fst_zip (Nat.le_of_eq hlength)
  have hright : (l.zip l').map Prod.snd = l' := List.map_snd_zip (Nat.le_of_eq hlength.symm)
  have hsort := List.map_mergeSort (l := l.zip l') (r := fun a b => le a.1 b.1) (s := le)
    (f := Prod.fst) (fun _ _ _ _ => rfl)
  have hsort' := List.map_mergeSort (l := l.zip l') (r := fun a b => le a.1 b.1) (s := le')
    (f := Prod.snd) fun _ ha _ hb => hle (hzip ha) (hzip hb)
  rw [hleft] at hsort
  rw [hright] at hsort'
  rw [← hsort, ← hsort', List.forall₂_map_left_iff, List.forall₂_map_right_iff, List.forall₂_same]
  rintro ⟨a, a'⟩ hmem
  exact hzip (List.mem_mergeSort.1 hmem)

/-- Findings that say the same come in the same order. -/
theorem Finding.precedes_eq (hS : S.Lawful) {d d' e e' : Diagnostic} (hd : S.Finding d d')
    (he : S.Finding e e') : d.precedes e = d'.precedes e' := by
  have hstart := hS.place_lt hd.start he.start
  have hstart' := hS.place_iff hd.start he.start
  have hstop := hS.place_lt hd.stop he.stop
  have hstop' := hS.place_iff hd.stop he.stop
  have hlt : d.range < e.range ↔ d'.range < e'.range :=
    or_congr hstart (and_congr hstart' hstop)
  have hsame (r s : Text.Range) : r = s ↔ r.start = s.start ∧ r.stop = s.stop := by
    cases r
    cases s
    simp
  have heq : d.range = e.range ↔ d'.range = e'.range := by
    rw [hsame, hsame]
    exact and_congr hstart' hstop'
  unfold Diagnostic.precedes
  rw [hd.code, hd.message, he.code, he.message, decide_eq_decide.2 hlt, decide_eq_decide.2 heq]

/-! ## What two parsers have written -/

/-- Behind what it had written before, the right parser has written what matches. -/
theorem Written.exists_own {events events' : Array Event} (h : S.Written events events') :
    ∃ own, events'.toList = S.front ++ own ∧ List.Forall₂ S.Matches events.toList own := by
  refine ⟨events'.toList.drop S.shift, ?_, List.forall₂_iff_get.2 ⟨?_, fun k hk hk' => ?_⟩⟩
  · refine List.ext_getElem? fun k => ?_
    by_cases hk : k < S.shift
    · rw [List.getElem?_append_left hk, Array.getElem?_toList, h.front k hk]
    · rw [List.getElem?_append_right (Nat.le_of_not_lt hk), List.getElem?_drop]
      show _ = events'.toList[S.shift + (k - S.shift)]?
      rw [Nat.add_sub_cancel' (Nat.le_of_not_lt hk)]
  · simp [h.size_eq]
  · obtain ⟨event', hevent', hmatch⟩ := h.own k (events.toList.get ⟨k, hk⟩) (by simp)
    have hget : (events'.toList.drop S.shift).get ⟨k, hk'⟩ = event' := by
      rw [List.get_eq_getElem, List.getElem_drop, Array.getElem_toList]
      exact Option.some.inj ((Array.getElem?_eq_getElem _).symm.trans hevent')
    rwa [hget]

namespace Apart

variable {p p' : Parser} {scope : Scope}

/-- Nothing is different in front of the first tokens. -/
theorem place_consumed [hlaw : S.Lawful] (hS : S.Apart) (h : S.Beside p p') :
    S.place p.stream.consumed p'.stream.consumed :=
  h.consumed.resolve_right fun hfirst => hS.not_strict (hlaw.strict_of_first hfirst)

/-- At the end of the left source, two parsers at corresponding places see the same trivia and
flaws. -/
theorem agree [hlaw : S.Lawful] (hS : S.Apart) (h : S.Beside p p')
    (hbarred : S.barred → p.stream.mode ≠ .markup) (heof : p.stream.kind = .eof) :
    ((∀ piece ∈ p.look.trivia, S.stays piece) →
      List.Forall₂ S.Piece p.look.trivia p'.look.trivia) ∧
    List.Forall₂ S.Finding p.look.findings p'.look.findings := by
  cases h.sight hlaw hbarred with
  | agree halike hstop htrivia hfindings _ =>
    exact ⟨htrivia (hS.place_consumed h), hfindings⟩
  | ending hstrict => exact absurd hstrict hS.not_strict
  | foreign _ _ hforeign =>
    rw [show p.look.token.kind = .eof from h.steady.kind_eq.symm.trans heof] at hforeign
    exact absurd hforeign (by decide)
  | gap hstrict => exact absurd hstrict hS.not_strict
  | lost hstrict => exact absurd hstrict hS.not_strict
  | spent hstrict => exact absurd hstrict hS.not_strict

/-- Two parsers at corresponding places have recorded corresponding trivia. -/
theorem trivia [S.Lawful] (hS : S.Apart) (h : S.Beside p p')
    (hbarred : S.barred → p.stream.mode ≠ .markup) (heof : p.stream.kind = .eof)
    (hstays : ∀ piece ∈ p.stream.trivia, S.stays piece) :
    List.Forall₂ S.Piece p.stream.trivia p'.stream.trivia := by
  unfold Stream.trivia at hstays ⊢
  rw [h.steady.recorded] at hstays ⊢
  rw [h.steady'.recorded]
  simp only [List.mem_reverse, List.mem_append] at hstays
  have hlook := (hS.agree h hbarred heof).1 fun piece hpiece => hstays piece (.inl hpiece)
  obtain ⟨own, own', old, old', heq, heq', hown, hold⟩ :=
    h.settled (hS.place_consumed h) fun piece hpiece => hstays piece (.inr hpiece)
  obtain ⟨rfl, rfl⟩ := hS.old.1 hold
  rw [heq, heq', List.append_nil, List.append_nil, List.forall₂_reverse_iff]
  exact List.rel_append (List.rel_reverse hlook) hown

/-- Two parsers at corresponding places have the same complaints. -/
theorem allDiagnostics [hlaw : S.Lawful] (hS : S.Apart) (h : S.Beside p p')
    (hbarred : S.barred → p.stream.mode ≠ .markup) (heof : p.stream.kind = .eof) :
    List.Forall₂ S.Finding p.allDiagnostics p'.allDiagnostics := by
  refine forall₂_mergeSort ?_ (Finding.precedes_eq hlaw)
  simp only [List.flatten_cons, List.flatten_nil, List.append_nil, Scanner.diagnostics,
    Parser.diagnostics]
  rw [h.steady.findings, h.steady'.findings]
  exact List.rel_append (List.rel_reverse (List.rel_append (hS.agree h hbarred heof).2 h.found))
    (List.rel_reverse h.findings)

/-- Two sources have corresponding trees and diagnostics, if the left tree lacks what is absent, and
nothing is complained about on the left in a clean comparison. -/
theorem parsed [hlaw : S.Lawful] (hS : S.Apart) {mode : Mode} (hbarred : S.barred → mode ≠ .markup)
    {parsed parsed' : Parsed} (h : parse S.left mode = .ok parsed)
    (h' : parse S.right mode = .ok parsed') (hclean : S.clean → parsed.diagnostics = [])
    (habsent : ∀ event, S.absent event → parsed.tree.Lacks event)
    (hstays : ∀ pieces, Spells S.left 0 [parsed.tree] pieces S.left.length →
      ∀ piece ∈ pieces, S.stays piece) :
    S.Trees 0 0 [parsed.tree] [parsed'.tree] S.left.length S.right.length ∧
      List.Forall₂ S.Finding parsed.diagnostics parsed'.diagnostics := by
  obtain ⟨hsource, hmode, children, q, hread⟩ := parse_readBy h
  obtain ⟨hsource', hmode', children', q', hread'⟩ := parse_readBy h'
  obtain ⟨closed, hrun⟩ := hread.run
  obtain ⟨closed', hrun'⟩ := hread'.run
  rw [hsource, hmode] at hrun
  rw [hsource', hmode'] at hrun'
  have hat : S.At .past 0 0 (.whole mode) q q' := by
    rcases hS.document_at hbarred hrun hrun' with hat | ⟨hcomplains, hfound⟩ | ⟨event, hevent, hgone⟩
    · exact hat
    · have hnone := hclean hcomplains
      rw [hread.diagnostics_eq, allDiagnostics_eq_nil, hread.reads.ok.steady.findings,
        List.append_eq_nil_iff] at hnone
      exact absurd hfound (by simp [hnone.1.2, hnone.2])
    · exact absurd (habsent event hgone) (hread.not_lacks hevent)
  have hbarred : S.barred → q.stream.mode ≠ .markup := by
    rw [hat.mode_eq_scope]
    exact hbarred
  refine ⟨?_, ?_⟩
  · obtain ⟨events, hfinish⟩ := hread.finish
    obtain ⟨events', hfinish'⟩ := hread'.finish
    obtain ⟨pieces, hspells, hmem⟩ := hread.pieces
    have hevents : q.events.toList = Draft.eventsAll [.node parsed.mode.rootKind false children] :=
      hread.reads.events_eq
    rw [hsource] at hspells
    unfold Parser.finish at hfinish hfinish'
    rw [hat.source_eq, ← q.events.toArray_toList, hevents] at hfinish
    rw [hat.source_eq', ← q'.events.toArray_toList] at hfinish'
    obtain ⟨own', hown', hmatches⟩ := hat.events.exists_own
    rw [hS.front, List.nil_append] at hown'
    rw [← hown', hevents] at hmatches
    have hlinked := Draft.linkedAll_of_properAll _ hread.reads.proper
    refine buildTree_trees hlaw hS.place_zero hlinked hmatches ?_ hfinish hfinish'
    exact hS.trivia hat.toBeside hbarred hread.eof fun piece hpiece =>
      hstays pieces hspells piece (hmem piece (List.mem_append_right _ hpiece))
  · rw [hread.diagnostics_eq, hread'.diagnostics_eq]
    exact hS.allDiagnostics hat.toBeside hbarred hread.eof

end Apart

end Sides

end TypstFormat
