import TypstFormat.Proofs.Grammar.Apart
import TypstFormat.Proofs.Layout.Newlines

/-!
# Tokens and gaps

A text that is written is made of pieces: tokens, and gaps of white space between them. `Written`
says which pieces a tree is written as. Outside of lists of arguments each piece of white space
becomes one gap. In a list of arguments it is decided anew where gaps are.

No two pieces of white space meet in a source, and no two gaps meet in what is written, as gaps come
first and last only where white space does (`Paced`).

## Key results

- `Paced.append`: pieces one behind the other
- `SetsAll.flatten`: trees that are written one behind the other
-/

namespace TypstFormat

/-- A part of a text that is written. -/
inductive Piece where
  | token (text : List Char)
  /-- White space. -/
  | gap (text : List Char)
  deriving DecidableEq, Repr

namespace Piece

def text : Piece → List Char
  | token text | gap text => text

def isGap : Piece → Bool
  | token _ => false
  | gap _ => true

/-- Not both of two pieces are gaps. -/
def Apart (piece next : Piece) : Prop :=
  ¬(piece.isGap = true ∧ next.isGap = true)

/-- The text of pieces. -/
def textAll (pieces : List Piece) : List Char :=
  pieces.flatMap text

theorem textAll_append (pieces rest : List Piece) :
    textAll (pieces ++ rest) = textAll pieces ++ textAll rest :=
  List.flatMap_append

end Piece

namespace Layout

open Render TypstFormat.Tree

/-- What a gap is written as: a space, or one or two line feeds and the indentation of the next
line. -/
inductive NormalGap : List Char → Prop where
  | space : NormalGap [' ']
  | newlines {n : Nat} {indentation : List Char} : 1 ≤ n → n ≤ 2 →
    (∀ c ∈ indentation, Text.isSpace c = true ∧ Text.isLineBreak c = false) →
    NormalGap (List.replicate n '\n' ++ indentation)

/-- One line is left empty. -/
theorem NormalGap.emptyLine : NormalGap ['\n', '\n'] := by
  have h : NormalGap (List.replicate 2 '\n' ++ []) := .newlines (by decide) (by decide) (by simp)
  exact h

mutual

/-- The pieces that a tree is written as. White space becomes a gap, and all other tokens are
written as they are. -/
inductive Written (source : List Char) : Tree → List Piece → Prop where
  | token {kind : Kind} {text : List Char} :
    kind.isSpace = false → Written source (.token kind text) [.token text]
  | space {mode : Mode} {token : Token} {written : List Char} :
    token.IsCut source mode → token.kind = .space →
    NormalSpace token.containsNewline (token.range.slice source) written →
    Written source (.token .space (token.range.slice source)) [.gap written]
  | parbreak {text : List Char} : Written source (.token .parbreak text) [.gap ['\n', '\n']]
  | node {kind : Kind} {children : List Tree} {pieces : List Piece} :
    WrittenAll source (kind = .args) children pieces → Written source (.node kind children) pieces

/-- The pieces of trees. Between the children of a list of arguments, spaces and commas may be left
out, and gaps and commas may be put in. -/
inductive WrittenAll (source : List Char) : (inArgs : Bool) → List Tree → List Piece → Prop where
  | nil {inArgs : Bool} : WrittenAll source inArgs [] []
  | cons {inArgs : Bool} {t : Tree} {ts : List Tree} {pieces rest : List Piece} :
    Written source t pieces → WrittenAll source inArgs ts rest →
    WrittenAll source inArgs (t :: ts) (pieces ++ rest)
  | dropped {kind : Kind} {text : List Char} {ts : List Tree} {pieces : List Piece} :
    kind = .space ∨ kind = .comma → WrittenAll source true ts pieces →
    WrittenAll source true (.token kind text :: ts) pieces
  | added {ts : List Tree} {piece : Piece} {pieces : List Piece} :
    piece.isGap = true ∨ piece = .token [','] → WrittenAll source true ts pieces →
    WrittenAll source true ts (piece :: pieces)

end

/-- The pieces that tokens became: gaps come first and last where white space did, and they do not
meet. -/
structure Paced (tokens : List (Kind × List Char)) (pieces : List Piece) : Prop where
  head_eq : pieces.head?.map Piece.isGap = tokens.head?.map fun token => token.1.isSpace
  last_eq : pieces.getLast?.map Piece.isGap = tokens.getLast?.map fun token => token.1.isSpace
  isChain : pieces.IsChain Piece.Apart

namespace Paced

variable {tokens more : List (Kind × List Char)} {pieces rest : List Piece}

theorem nil : Paced [] [] :=
  ⟨rfl, rfl, .nil⟩

theorem singleton {token : Kind × List Char} {piece : Piece}
    (h : piece.isGap = token.1.isSpace) : Paced [token] [piece] :=
  ⟨congrArg some h, congrArg some h, .singleton piece⟩

theorem head_isSpace (h : Paced tokens pieces) {piece : Piece} (hhead : pieces.head? = some piece)
    (hgap : piece.isGap = true) : ∃ token ∈ tokens.head?, token.1.isSpace = true := by
  have heq := h.head_eq
  rw [hhead, Option.map_some, hgap, eq_comm, Option.map_eq_some_iff] at heq
  exact heq

theorem last_isSpace (h : Paced tokens pieces) {piece : Piece}
    (hlast : pieces.getLast? = some piece) (hgap : piece.isGap = true) :
    ∃ token ∈ tokens.getLast?, token.1.isSpace = true := by
  have heq := h.last_eq
  rw [hlast, Option.map_some, hgap, eq_comm, Option.map_eq_some_iff] at heq
  exact heq

/-- Where a token comes first, so does it in the pieces. -/
theorem head_plain (h : Paced tokens pieces)
    (hbegins : ∃ token ∈ tokens.head?, token.1.isSpace = false) :
    ∃ piece ∈ pieces.head?, piece.isGap = false := by
  obtain ⟨token, htoken, hspace⟩ := hbegins
  have heq := h.head_eq
  rw [Option.mem_def.1 htoken, Option.map_some, hspace, Option.map_eq_some_iff] at heq
  exact heq

theorem append (h : Paced tokens pieces) (hmore : Paced more rest)
    (hchain : (tokens ++ more).IsChain Tree.Apart) : Paced (tokens ++ more) (pieces ++ rest) := by
  refine ⟨?_, ?_, ?_⟩
  · rw [List.head?_append, List.head?_append, Option.map_or, Option.map_or, h.head_eq,
      hmore.head_eq]
  · rw [List.getLast?_append, List.getLast?_append, Option.map_or, Option.map_or, h.last_eq,
      hmore.last_eq]
  · refine List.isChain_append.2 ⟨h.isChain, hmore.isChain, ?_⟩
    -- Where gaps would meet, white space would have met.
    rintro piece hpiece next hnext ⟨hgap, hgap'⟩
    obtain ⟨token, htoken, hspace⟩ := h.last_isSpace hpiece hgap
    obtain ⟨token', htoken', hspace'⟩ := hmore.head_isSpace hnext hgap'
    exact (List.isChain_append.1 hchain).2.2 token htoken token' htoken' ⟨hspace, hspace'⟩

end Paced

/-- What trees that stand next to each other are written as. -/
structure SetsAll (source : List Char) (inArgs : Bool) (ts : List Tree) (text : List Char)
    (pieces : List Piece) : Prop where
  text_eq : text = Piece.textAll pieces
  written : WrittenAll source inArgs ts pieces
  paced : Paced (tokensAll ts) pieces
  gaps : ∀ gap, .gap gap ∈ pieces → NormalGap gap

/-- What a tree is written as. -/
structure Sets (source : List Char) (t : Tree) (text : List Char) (pieces : List Piece) :
    Prop where
  text_eq : text = Piece.textAll pieces
  written : Written source t pieces
  paced : Paced t.tokens pieces
  gaps : ∀ gap, .gap gap ∈ pieces → NormalGap gap

/-- A token that counts is written as it is. -/
theorem Sets.token {source : List Char} {kind : Kind} (hkind : kind.isSpace = false)
    (own : List Char) : Sets source (.token kind own) own [.token own] := by
  refine ⟨?_, .token hkind, .singleton hkind.symm, by simp⟩
  simp [Piece.textAll, Piece.text]

/-- Outside of lists of arguments, trees are written one behind the other. -/
theorem SetsAll.flatten {source : List Char} {ts : List Tree} {fragments : List (List Char)}
    (h : List.Forall₂ (fun t fragment => ∃ pieces, Sets source t fragment pieces) ts fragments)
    (hchain : (tokensAll ts).IsChain Tree.Apart) :
    ∃ pieces, SetsAll source false ts fragments.flatten pieces := by
  induction h with
  | nil => exact ⟨[], rfl, .nil, .nil, by simp⟩
  | @cons t fragment ts fragments hfirst _ ih =>
    obtain ⟨own, htext, hwritten, hpaced, hgaps⟩ := hfirst
    obtain ⟨rest, htexts, hwrittens, hpaceds, hgapss⟩ := ih (List.isChain_append.1 hchain).2.1
    refine ⟨own ++ rest, ?_, .cons hwritten hwrittens, hpaced.append hpaceds hchain, ?_⟩
    · rw [List.flatten_cons, htext, htexts, Piece.textAll_append]
    · intro gap hgap
      exact (List.mem_append.1 hgap).elim (hgaps gap) (hgapss gap)

end Layout

end TypstFormat
