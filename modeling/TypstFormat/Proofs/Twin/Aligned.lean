import TypstFormat.Proofs.Twin.Trees

/-!
# Drafts side by side

Two parsers at corresponding places have written drafts of the same shape, whose tokens end at
corresponding offsets. All of the trivia that they have recorded corresponds to each other as well,
so that it does in front of each token: what stands in front of a token is told by where it stands.
Only in front of the first tokens there may be other trivia.

## Key results

- `Sides.Leaves.of_old`: tokens that end at corresponding offsets start at corresponding offsets,
  with corresponding trivia in front of all but the first ones
- `Sides.Shaped.of_steps`: drafts that lead to corresponding steps have the same shape
- `Sides.Shaped.leaf`: what is known of all tokens is known of those of drafts of the same shape
-/

namespace TypstFormat

open Draft

namespace Sides

variable (S : Sides)

/-! ## Tokens -/

/-- Tokens that end at corresponding offsets. -/
def Stop (l l' : Look) : Prop :=
  S.place l.token.range.stop l'.token.range.stop

/-- Tokens that were consumed at corresponding offsets, with corresponding trivia in front, but for
the first ones. -/
structure Leaf (first : Bool) (l l' : Look) : Prop where
  start : S.place l.token.range.start l'.token.range.start
  stop : S.Stop l l'
  trivia : first = false → List.Forall₂ S.Piece l.trivia l'.trivia

/-- Tokens that were consumed one behind the other. -/
inductive Leaves : Bool → List Look → List Look → Prop where
  | nil {first : Bool} : Leaves first [] []
  | cons {first : Bool} {l l' : Look} {ls ls' : List Look} : S.Leaf first l l' →
    Leaves false ls ls' → Leaves first (l :: ls) (l' :: ls')

variable {S} {pieces pieces' more more' : List Trivia}

/-- Pieces in front of corresponding offsets correspond to each other, and so do those behind. -/
theorem split_pieces (hS : S.Lawful) (h : List.Forall₂ S.Piece (pieces ++ more) (pieces' ++ more'))
    {a a' : Nat} (ha : S.place a a') (hpieces : ∀ piece ∈ pieces, piece.range.start < a)
    (hpieces' : ∀ piece ∈ pieces', piece.range.start < a')
    (hmore : ∀ piece ∈ more, a ≤ piece.range.start)
    (hmore' : ∀ piece ∈ more', a' ≤ piece.range.start) :
    List.Forall₂ S.Piece pieces pieces' ∧ List.Forall₂ S.Piece more more' := by
  induction pieces generalizing pieces' with
  | nil =>
    cases pieces' with
    | nil => exact ⟨.nil, h⟩
    | cons piece' rest' =>
      obtain ⟨piece, rest, hpiece, _, rfl⟩ := List.forall₂_cons_right_iff.1 h
      have hlt := (hS.place_lt hpiece.start ha).2 (hpieces' piece' List.mem_cons_self)
      have hle := hmore piece List.mem_cons_self
      omega
  | cons piece rest ih =>
    cases pieces' with
    | nil =>
      obtain ⟨piece', rest', hpiece, _, rfl⟩ := List.forall₂_cons_left_iff.1 h
      have hlt := (hS.place_lt hpiece.start ha).1 (hpieces piece List.mem_cons_self)
      have hle := hmore' piece' List.mem_cons_self
      omega
    | cons piece' rest' =>
      obtain ⟨hpiece, h⟩ := List.forall₂_cons.1 h
      obtain ⟨hfront, hbehind⟩ := ih h (fun p hp => hpieces p (List.mem_cons_of_mem _ hp))
        (fun p hp => hpieces' p (List.mem_cons_of_mem _ hp))
      exact ⟨.cons hpiece hfront, hbehind⟩

/-- Corresponding pieces from corresponding offsets on end at corresponding offsets. -/
theorem place_of_tile {start start' stop stop' : Nat} (h : List.Forall₂ S.Piece pieces pieces')
    (htile : Trivia.Tile start pieces stop) (htile' : Trivia.Tile start' pieces' stop')
    (hstart : S.place start start') : S.place stop stop' := by
  induction h generalizing start start' with
  | nil =>
    obtain rfl : start = stop := htile
    obtain rfl : start' = stop' := htile'
    exact hstart
  | cons hpiece _ ih => exact ih htile.2.2 htile'.2.2 hpiece.stop

/-- The pieces of the first look of a path are in front of the end of its token, and those of the
others behind it. -/
theorem pieces_of_path {source : List Char} {start stop : Nat} {l : Look} {ls : List Look}
    (h : Look.Path source start (l :: ls) stop) (hle : start ≤ source.length) :
    (∀ piece ∈ l.trivia, piece.range.start < l.token.range.stop) ∧
      ∀ piece ∈ ls.flatMap (·.trivia), l.token.range.stop ≤ piece.range.start := by
  have hcovers := h.covers hle
  refine ⟨fun piece hpiece => ?_, h.2.2.start_le hcovers.stop_le⟩
  have hpiece := hcovers.tile.range_le piece hpiece
  have hlt := hcovers.start_lt_stop h.2.1
  omega

/-- Tokens that end at corresponding offsets, with corresponding trivia in front of all of them. -/
theorem Leaves.of_paths (hS : S.Lawful) {ls ls' : List Look}
    (hstops : List.Forall₂ S.Stop ls ls')
    {start start' stop stop' : Nat} (hstart : S.place start start')
    (hpath : Look.Path S.left start ls stop) (hpath' : Look.Path S.right start' ls' stop')
    (hle : start ≤ S.left.length) (hle' : start' ≤ S.right.length)
    (htrivia : List.Forall₂ S.Piece (ls.flatMap (·.trivia)) (ls'.flatMap (·.trivia))) :
    S.Leaves false ls ls' := by
  induction hstops generalizing start start' with
  | nil => exact .nil
  | @cons l l' ls ls' hstop _ ih =>
    rw [List.flatMap_cons, List.flatMap_cons] at htrivia
    obtain ⟨hfront, hmore⟩ := pieces_of_path hpath hle
    obtain ⟨hfront', hmore'⟩ := pieces_of_path hpath' hle'
    obtain ⟨hown, hrest⟩ := split_pieces hS htrivia hstop hfront hfront' hmore hmore'
    have hcovers := hpath.covers hle
    have hcovers' := hpath'.covers hle'
    exact .cons ⟨place_of_tile hown hcovers.tile hcovers'.tile hstart, hstop, fun _ => hown⟩
      (ih hstop hpath.2.2 hpath'.2.2 hcovers.stop_le hcovers'.stop_le hrest)

/-- Pieces from the start of a path on are in front of its first token. -/
private theorem append_of_path {source : List Char} {start middle stop : Nat} {l : Look}
    {ls : List Look} {old own : List Trivia} (h : Look.Path source start (l :: ls) stop)
    (hle : start ≤ source.length) (hold : Trivia.Tile start old middle)
    (heq : (l :: ls).flatMap (·.trivia) = old ++ own) :
    ∃ front, l.trivia = old ++ front ∧ own = front ++ ls.flatMap (·.trivia) := by
  rw [List.flatMap_cons] at heq
  rcases List.append_eq_append_iff.1 heq with ⟨more, rfl, hrest⟩ | ⟨front, hfront, hown⟩
  · -- The first piece behind those of the look would start in front of the end of its token.
    have hcovers := h.covers hle
    have hmore := hold.of_append hcovers.tile
    cases more with
    | nil => exact ⟨[], by rw [List.append_nil, List.append_nil], hrest.symm⟩
    | cons piece more =>
      have hbehind := (pieces_of_path h hle).2 piece (by rw [hrest]; exact List.mem_cons_self)
      have hlt := hcovers.start_lt_stop h.2.1
      have hstart : piece.range.start = l.token.range.start := hmore.1
      omega
  · exact ⟨front, hfront, hown⟩

/-- Trivia in front of the first token of a path does not go on up to the end of the source. -/
theorem lt_of_path {source : List Char} {start middle stop : Nat} {ls : List Look}
    {old own : List Trivia} (h : Look.Path source start ls stop) (hls : ls ≠ [])
    (hle : start ≤ source.length) (hold : Trivia.Tile start old middle)
    (heq : ls.flatMap (·.trivia) = old ++ own) : middle < source.length := by
  cases ls with
  | nil => exact absurd rfl hls
  | cons l ls =>
    obtain ⟨front, htrivia, -⟩ := append_of_path h hle hold heq
    have hcovers := h.covers hle
    have htile := hcovers.tile
    rw [htrivia] at htile
    have hmiddle := (htile.of_append hold).le
    have hlt := hcovers.start_lt_stop h.2.1
    have hstop := hcovers.stop_le
    omega

/-- Tokens that end at corresponding offsets, with different trivia in front of the first ones, up to
corresponding offsets. -/
theorem Leaves.of_old (hS : S.Lawful) {ls ls' : List Look}
    (hstops : List.Forall₂ S.Stop ls ls')
    {start start' middle middle' stop stop' : Nat} {old old' own own' : List Trivia}
    (hpath : Look.Path S.left start ls stop) (hpath' : Look.Path S.right start' ls' stop')
    (hle : start ≤ S.left.length) (hle' : start' ≤ S.right.length)
    (heq : ls.flatMap (·.trivia) = old ++ own) (heq' : ls'.flatMap (·.trivia) = old' ++ own')
    (hold : Trivia.Tile start old middle) (hold' : Trivia.Tile start' old' middle')
    (hmiddle : S.place middle middle') (hown : List.Forall₂ S.Piece own own') :
    S.Leaves true ls ls' := by
  cases hstops with
  | nil => exact .nil
  | @cons l l' ls ls' hstop hstops =>
    obtain ⟨front, htrivia, rfl⟩ := append_of_path hpath hle hold heq
    obtain ⟨front', htrivia', rfl⟩ := append_of_path hpath' hle' hold' heq'
    obtain ⟨hfront, hmore⟩ := pieces_of_path hpath hle
    obtain ⟨hfront', hmore'⟩ := pieces_of_path hpath' hle'
    rw [htrivia, List.forall_mem_append] at hfront
    rw [htrivia', List.forall_mem_append] at hfront'
    obtain ⟨hpieces, hrest⟩ := split_pieces hS hown hstop hfront.2 hfront'.2 hmore hmore'
    have hcovers := hpath.covers hle
    have hcovers' := hpath'.covers hle'
    have htile := hcovers.tile
    have htile' := hcovers'.tile
    rw [htrivia] at htile
    rw [htrivia'] at htile'
    exact .cons ⟨place_of_tile hpieces (htile.of_append hold) (htile'.of_append hold') hmiddle, hstop,
        fun hfalse => nomatch hfalse⟩
      (.of_paths hS hstops hstop hpath.2.2 hpath'.2.2 hcovers.stop_le hcovers'.stop_le hrest)

/-! ## Shapes -/

/-- Drafts of the same shape, but for starts that were given up. Their tokens are of the same kinds,
and related to each other; it is told, before and after, whether the next ones are the first. -/
inductive Shaped (R : Bool → Look → Look → Prop) :
    Bool → List Draft → List Draft → Bool → Prop where
  | nil {first : Bool} : Shaped R first [] [] first
  | token {first last asText asText' : Bool} {l l' : Look} {drafts drafts' : List Draft} :
    (Draft.token l' asText').kind = (Draft.token l asText).kind → R first l l' →
    Shaped R false drafts drafts' last →
    Shaped R first (.token l asText :: drafts) (.token l' asText' :: drafts') last
  | void {first last : Bool} {drafts drafts' : List Draft} :
    Shaped R first drafts drafts' last → Shaped R first (.void :: drafts) drafts' last
  | void' {first last : Bool} {drafts drafts' : List Draft} :
    Shaped R first drafts drafts' last → Shaped R first drafts (.void :: drafts') last
  | node {first middle last wraps wraps' : Bool} {children children' drafts drafts' : List Draft}
    (kind : Kind) : Shaped R first children children' middle →
    Shaped R middle drafts drafts' last →
    Shaped R first (.node kind wraps children :: drafts)
      (.node kind wraps' children' :: drafts') last

namespace Shaped

/-- Drafts that lead to corresponding steps have the same shape. -/
theorem of_steps (first : Bool) : (drafts drafts' : List Draft) → ∀ {steps steps' : List Step},
    List.Forall₂ S.StepsAlike (stepsAll drafts ++ .leave :: steps)
      (stepsAll drafts' ++ .leave :: steps') →
    (∃ last, Shaped (fun _ => S.Stop) first drafts drafts' last) ∧
      List.Forall₂ S.StepsAlike steps steps'
  | .void :: drafts, drafts', _, _, h => by
    obtain ⟨⟨last, hshaped⟩, hsteps⟩ := of_steps first drafts drafts' h
    exact ⟨⟨last, .void hshaped⟩, hsteps⟩
  | drafts, .void :: drafts', _, _, h => by
    obtain ⟨⟨last, hshaped⟩, hsteps⟩ := of_steps first drafts drafts' h
    exact ⟨⟨last, .void' hshaped⟩, hsteps⟩
  | [], [], _, _, h => ⟨⟨first, .nil⟩, (List.forall₂_cons.1 h).2⟩
  | [], .token .. :: _, _, _, h => nomatch (List.forall₂_cons.1 h).1
  | [], .node .. :: _, _, _, h => nomatch (List.forall₂_cons.1 h).1
  | .token .. :: _, [], _, _, h => nomatch (List.forall₂_cons.1 h).1
  | .node .. :: _, [], _, _, h => nomatch (List.forall₂_cons.1 h).1
  | .token .. :: _, .node .. :: _, _, _, h => nomatch (List.forall₂_cons.1 h).1
  | .node .. :: _, .token .. :: _, _, _, h => nomatch (List.forall₂_cons.1 h).1
  | .token l asText :: drafts, .token l' asText' :: drafts', _, _, h => by
    obtain ⟨hstep, h⟩ := List.forall₂_cons.1 h
    obtain ⟨⟨last, hshaped⟩, hsteps⟩ := of_steps false drafts drafts' h
    generalize hkind : (if asText then Kind.text else l.token.kind) = kind at hstep
    generalize hkind' : (if asText' then Kind.text else l'.token.kind) = kind' at hstep
    cases hstep with
    | token _ hplace => exact ⟨⟨last, .token (hkind'.trans hkind.symm) hplace hshaped⟩, hsteps⟩
  | .node kind _ children :: drafts, .node kind' _ children' :: drafts', _, _, h => by
    simp only [stepsAll, Draft.steps, List.cons_append, List.append_assoc, List.nil_append] at h
    obtain ⟨hstep, h⟩ := List.forall₂_cons.1 h
    obtain ⟨⟨middle, hchildren⟩, h⟩ := of_steps first children children' h
    obtain ⟨⟨last, hshaped⟩, hsteps⟩ := of_steps middle drafts drafts' h
    cases hstep
    exact ⟨⟨last, .node kind hchildren hshaped⟩, hsteps⟩
termination_by drafts drafts' => sizeAll drafts + sizeAll drafts'
decreasing_by all_goals simp only [sizeAll, size]; omega

variable {R : Look → Look → Prop} {first last : Bool} {drafts drafts' : List Draft}

/-- What is related of the tokens. -/
theorem leaves (h : Shaped (fun _ => R) first drafts drafts' last) :
    List.Forall₂ R (leavesAll drafts) (leavesAll drafts') := by
  induction h with
  | nil => exact .nil
  | token _ hrel _ ih => exact .cons hrel ih
  | void _ ih => exact ih
  | void' _ ih => exact ih
  | node _ _ _ ihchildren ih => exact List.rel_append ihchildren ih

/-- More may be known of the tokens. -/
theorem leaf (h : Shaped (fun _ => R) first drafts drafts' last) {first : Bool} {ls ls' : List Look}
    (hleaves : S.Leaves first (leavesAll drafts ++ ls) (leavesAll drafts' ++ ls')) :
    ∃ last, Shaped S.Leaf first drafts drafts' last ∧ S.Leaves last ls ls' := by
  induction h generalizing first ls ls' with
  | nil => exact ⟨first, .nil, hleaves⟩
  | token hkind _ _ ih =>
    cases hleaves with
    | cons hleaf hleaves =>
      obtain ⟨last, hshaped, hrest⟩ := ih hleaves
      exact ⟨last, .token hkind hleaf hshaped, hrest⟩
  | void _ ih =>
    obtain ⟨last, hshaped, hrest⟩ := ih hleaves
    exact ⟨last, .void hshaped, hrest⟩
  | void' _ ih =>
    obtain ⟨last, hshaped, hrest⟩ := ih hleaves
    exact ⟨last, .void' hshaped, hrest⟩
  | node kind _ _ ihchildren ih =>
    rw [leavesAll, leavesAll, List.append_assoc, List.append_assoc] at hleaves
    obtain ⟨middle, hchildren, hrest⟩ := ihchildren hleaves
    obtain ⟨last, hshaped, hrest⟩ := ih hrest
    exact ⟨last, .node kind hchildren hshaped, hrest⟩

end Shaped

/-- What is written of drafts leads to corresponding steps where it matches. -/
theorem forall₂_stepsAll {drafts drafts' : List Draft} (hlinked : LinkedAll drafts)
    (hlinked' : LinkedAll drafts')
    (h : List.Forall₂ S.Matches (eventsAll drafts) (eventsAll drafts')) :
    List.Forall₂ S.StepsAlike (stepsAll drafts) (stepsAll drafts') := by
  obtain ⟨more, hevents, hmore⟩ := exists_drafts _ hlinked h
  obtain ⟨events, hreplay⟩ := replay_eventsAll hlinked'
  obtain ⟨events', hreplay'⟩ := replay_eventsAll hmore.linked
  rw [← hevents, hreplay] at hreplay'
  have hsteps : stepsAll drafts' = stepsAll more := congrArg Event.Replay.steps hreplay'
  rw [hsteps]
  exact hmore.steps

end Sides

end TypstFormat
