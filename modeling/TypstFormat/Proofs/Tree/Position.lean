import TypstFormat.Proofs.Tree.Gaps
import TypstFormat.Proofs.Tree.Navigation

/-!
# Where tokens stand

An element counts the characters in front of it, and a tree that spells a source has the characters
of the source in front of each token. So the tokens of such a tree stand where their pieces of the
source do. In the same way, a tree starts where the first token of its draft does.

## Key results

- `Element.map_tokens`: the places of the tokens below an element, from their texts
- `Spells.map_tokens`: the tokens of a tree stand at their pieces of the source
- `Spaced.lengthAll_eq`: trees take the place that their drafts have in the source
-/

namespace TypstFormat

open Text (Range)

/-- Texts one behind the other, with the ranges that they take from an offset on. -/
def placesFrom (start : Nat) : List (Kind × List Char) → List (Kind × Range × List Char)
  | [] => []
  | (kind, text) :: rest =>
    (kind, Range.ofLength start text.length, text) :: placesFrom (start + text.length) rest

theorem placesFrom_append (start : Nat) (tokens more : List (Kind × List Char)) :
    placesFrom start (tokens ++ more) =
      placesFrom start tokens ++ placesFrom (start + (tokens.flatMap (·.2)).length) more := by
  induction tokens generalizing start with
  | nil => simp [placesFrom]
  | cons token tokens ih =>
    obtain ⟨kind, text⟩ := token
    simp [placesFrom, ih, Nat.add_assoc]

namespace Element

/-- The kind of an element, its range and what it reads in a source. -/
def sight (source : List Char) (e : Element) : Kind × Range × List Char :=
  (e.kind, e.range, e.textIn source)

variable (source : List Char)

mutual

theorem map_tokensBelow : (tree : Tree) → (e : Element) → e.tree = tree →
    (tokensBelow e tree).map (sight source) = placesFrom e.start tree.tokens
  | .token kind text, e, h => by
    simp [tokensBelow, Tree.tokens, placesFrom, sight, Element.kind, range, textIn, h, Tree.kind,
      Tree.length]
  | .node kind children, e, h => by
    rw [tokensBelow, Tree.tokens]
    exact map_tokensAmong children e 0 e.start

theorem map_tokensAmong : (trees : List Tree) → (parent : Element) → (index start : Nat) →
    (tokensAmong parent index start trees).map (sight source) =
      placesFrom start (Tree.tokensAll trees)
  | [], _, _, _ => rfl
  | tree :: trees, parent, index, start => by
    have hbelow := map_tokensBelow tree (child parent index start tree) rfl
    have hbehind := map_tokensAmong trees parent (index + 1) (start + tree.length)
    rw [tokensAmong, List.map_append, hbelow, hbehind, Tree.tokensAll, placesFrom_append,
      ← Tree.text_eq_flatMap_tokens, Tree.length_text]
    rfl

end

/-- The tokens below an element stand one behind the other. -/
theorem map_tokens (e : Element) :
    e.tokens.map (sight source) = placesFrom e.start (Tree.tokensAll e.tree.children) :=
  map_tokensAmong source e.tree.children e 0 e.start

end Element

namespace Trivia

variable {source : List Char} {start stop : Nat} {pieces : List Trivia}

/-- The kind of a piece, its range and its text in a source. -/
def sight (source : List Char) (piece : Trivia) : Kind × Range × List Char :=
  (piece.kind, piece.range, piece.range.slice source)

/-- Texts that are pieces of a source take the ranges of the pieces. -/
theorem Tile.placesFrom_eq (h : Tile start pieces stop) (hstop : stop ≤ source.length) :
    placesFrom start (pieces.map fun piece => (piece.kind, piece.range.slice source)) =
      pieces.map (sight source) := by
  induction pieces generalizing start with
  | nil => rfl
  | cons piece rest ih =>
    obtain ⟨hstart, hlt, hrest⟩ := h
    have hle := hrest.le
    have hlength : (piece.range.slice source).length = piece.range.length := by
      unfold Range.slice Range.length
      rw [List.length_take, List.length_drop]
      omega
    have hend : start + piece.range.length = piece.range.stop := by
      unfold Range.length
      omega
    have hrange : Range.ofLength start piece.range.length = piece.range := by
      subst hstart
      unfold Range.ofLength
      congr
    simp only [List.map_cons, placesFrom, hlength, hend, hrange, ih hrest]
    rfl

/-- No two pieces have the same range. -/
theorem Tile.nodup_ranges (h : Tile start pieces stop) : (pieces.map (·.range)).Nodup := by
  induction pieces generalizing start with
  | nil => exact List.nodup_nil
  | cons piece rest ih =>
    obtain ⟨hstart, hlt, hrest⟩ := h
    rw [List.map_cons, List.nodup_cons]
    refine ⟨fun hmem => ?_, ih hrest⟩
    -- All others start behind this one.
    obtain ⟨other, hother, heq⟩ := List.mem_map.1 hmem
    have := (hrest.range_le other hother).1
    rw [heq] at this
    omega

end Trivia

/-- The tokens of a tree that spells a source stand at their pieces of the source. -/
theorem Spells.map_tokens {source : List Char} {kind : Kind} {trees : List Tree}
    {pieces : List Trivia} (h : Spells source 0 [.node kind trees] pieces source.length) :
    (Element.root (.node kind trees)).tokens.map (Element.sight source) =
      pieces.map (Trivia.sight source) := by
  have htokens : Tree.tokensAll trees = Tree.tokensAll [.node kind trees] :=
    (List.append_nil _).symm
  rw [Element.map_tokens, ← h.tile.placesFrom_eq (Nat.le_refl _), ← h.tokens_eq, ← htokens]
  rfl

/-! ## Drafts and their trees -/

/-- A path through looks is one through the first of them and one through the others. -/
theorem Look.Path.of_append {source : List Char} {start stop : Nat} {ls more : List Look}
    (h : Path source start (ls ++ more) stop) :
    ∃ middle, Path source start ls middle ∧ Path source middle more stop := by
  induction ls generalizing start with
  | nil => exact ⟨start, rfl, h⟩
  | cons l ls ih =>
    obtain ⟨hlook, hkind, hrest⟩ := h
    obtain ⟨middle, hls, hmore⟩ := ih hrest
    exact ⟨middle, ⟨hlook, hkind, hls⟩, hmore⟩

namespace Draft

/-- The looks of drafts are taken one behind the other, and `next` comes behind them. -/
structure Runs (source : List Char) (start : Nat) (drafts : List Draft) (next : Look) (stop : Nat) :
    Prop where
  le : start ≤ source.length
  path : Look.Path source start (leavesAll drafts) stop
  covers_next : next.Covers source stop

namespace Runs

variable {source : List Char} {start stop : Nat} {drafts more : List Draft} {next : Look}

theorem covers (h : Runs source start drafts next stop) : (front drafts next).Covers source start := by
  obtain ⟨hle, hpath, hnext⟩ := h
  unfold front
  cases hleaves : leavesAll drafts with
  | nil =>
    rw [hleaves] at hpath
    obtain rfl : start = stop := hpath
    exact hnext
  | cons l ls =>
    rw [hleaves] at hpath
    exact hpath.covers hle

theorem of_append (h : Runs source start (drafts ++ more) next stop) :
    ∃ middle, Runs source start drafts (front more next) middle ∧
      Runs source middle more next stop := by
  obtain ⟨hle, hpath, hnext⟩ := h
  rw [leavesAll_append] at hpath
  obtain ⟨middle, hdrafts, hmore⟩ := hpath.of_append
  have hbehind : Runs source middle more next stop := ⟨(hdrafts.le hle).2, hmore, hnext⟩
  exact ⟨middle, ⟨hle, hdrafts, hbehind.covers⟩, hbehind⟩

end Runs

end Draft

open Draft (Runs front)

/-- Where a tree starts that stands in front of a look: behind all trivia, if that is there already. -/
def Look.entry (l : Look) (toCome : Bool) (offset : Nat) : Nat :=
  if toCome then offset else l.token.range.start

theorem IsGap.lengthAll_eq {source : List Char} {next : Look} {toCome : Bool} {gap : List Tree}
    {offset : Nat} (h : IsGap source next toCome gap) (hcovers : next.Covers source offset) :
    next.entry toCome offset + Tree.lengthAll gap = next.token.range.start := by
  cases h with
  | none => rfl
  | all =>
    have htile := hcovers.tile
    have hspells : Spells source offset (next.trivia.map (Trivia.toTree source)) next.trivia
        next.token.range.start := .of_tile htile
    have hlength := congrArg List.length hspells.textAll
    rw [Tree.length_textAll, between, List.length_take, List.length_drop] at hlength
    have hle := htile.le
    have hstop := Nat.le_trans next.token.range.start_le_stop hcovers.stop_le
    show offset + _ = _
    omega

namespace Spaced

variable {source : List Char} {next : Look} {drafts : List Draft} {trees : List Tree}
  {before after : Bool} {start stop : Nat}

/-- Trees are as long as the place that their drafts have in the source. -/
theorem lengthAll_eq (h : Spaced source next before drafts trees after)
    (hruns : Runs source start drafts next stop) :
    (front drafts next).entry before start + Tree.lengthAll trees = next.entry after stop := by
  induction h generalizing start stop with
  | nil =>
    obtain rfl : start = stop := hruns.path
    rfl
  | @token next look drafts gap trees asText before after hgap hcut _ ih =>
    have hcovers : look.Covers source start := hruns.covers
    have hgap := hgap.lengthAll_eq hcovers
    have hrest := ih ⟨hcovers.stop_le, hruns.path.2.2, hruns.covers_next⟩
    have hentry : (front drafts next).entry true look.token.range.stop = look.token.range.stop := rfl
    rw [hentry] at hrest
    rw [Tree.lengthAll_append, Tree.lengthAll, Tree.length, ← hrest, ← hcut.start_add_length, ← hgap]
    simp only [Nat.add_assoc]
    rfl
  | void _ ih => exact ih ⟨hruns.le, hruns.path, hruns.covers_next⟩
  | @node next drafts inner gap trees children kind wraps before within after hgap _ _ _ ihinner ih =>
    have hruns : Runs source start (inner ++ drafts) next stop :=
      ⟨hruns.le, by simpa [Draft.leavesAll, Draft.leaves] using hruns.path, hruns.covers_next⟩
    obtain ⟨middle, hinner, hrest⟩ := hruns.of_append
    have hgap := hgap.lengthAll_eq hinner.covers
    have hinner := ihinner hinner
    have hrest := ih hrest
    rw [Draft.front_cons, Draft.front_node, Tree.lengthAll_append, Tree.lengthAll, Tree.length,
      ← hrest, ← hinner, ← Nat.add_assoc, hgap, Nat.add_assoc]
    rfl

end Spaced

end TypstFormat
