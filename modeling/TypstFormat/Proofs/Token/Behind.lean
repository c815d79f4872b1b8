import TypstFormat.Proofs.Token.Look

/-!
# The token behind an offset

What is seen behind an offset of a source starts with the token that stands there, which depends on
the source from the offset on and on the character in front. If it is trivia, then what is seen
behind it comes next.

## Key results

- `tokenBehind_append`, `flawsAt_append`: the token behind an offset, and what is wrong with it
- `look_trivia`: what is seen in front of a piece of trivia
- `look_blanks`, `look_length`: what is seen in front of white space, and at the end of a source
-/

namespace TypstFormat

/-- The token that stands at an offset of a source. -/
def tokenBehind (source : List Char) (mode : Mode) (offset : Nat) : Token :=
  (({ source, mode, position := offset } : Scanner).next).1

private theorem before_append (own rest : List Char) (mode : Mode) :
    ({ source := own ++ rest, mode, position := own.length } : Scanner).before = own.getLast? := by
  unfold Scanner.before
  cases hown : own.getLast? with
  | none =>
    rw [List.getLast?_eq_none_iff] at hown
    subst hown
    rfl
  | some c =>
    have hne : own.length ≠ 0 := by
      rintro hzero
      rw [List.length_eq_zero_iff] at hzero
      subst hzero
      cases hown
    dsimp only
    rw [if_neg hne, List.getElem?_append_left (by omega), ← List.getLast?_eq_getElem?, hown]

private theorem rest_append (own rest : List Char) (mode : Mode) :
    ({ source := own ++ rest, mode, position := own.length } : Scanner).rest = rest :=
  List.drop_left

theorem tokenBehind_append (own : List Char) (mode : Mode) (c : Char) (rest : List Char) :
    tokenBehind (own ++ c :: rest) mode own.length =
      Scanner.tokenAt own.length (Lexeme.scan mode own.getLast? c rest) := by
  unfold tokenBehind
  rw [Scanner.next_of_rest_cons (rest_append own (c :: rest) mode), before_append]

theorem flawsAt_append (own : List Char) (mode : Mode) (c : Char) (rest : List Char) :
    flawsAt (own ++ c :: rest) mode own.length =
      Scanner.findingsAt own.length (Lexeme.scan mode own.getLast? c rest) := by
  unfold flawsAt
  rw [Scanner.next_of_rest_cons (rest_append own (c :: rest) mode), before_append]
  exact List.append_nil _

theorem next_length (source : List Char) (mode : Mode) :
    ({ source, mode, position := source.length } : Scanner).next =
      (Token.eof source.length, { source, mode, position := source.length }) :=
  Scanner.next_of_rest_nil List.drop_length

theorem start_tokenBehind (source : List Char) (mode : Mode) (offset : Nat) :
    (tokenBehind source mode offset).range.start = offset :=
  Scanner.start_next _

/-- In front of the end of a source stands a token that takes a character of it. -/
theorem range_tokenBehind {source : List Char} {offset : Nat} (h : offset < source.length)
    (mode : Mode) : (tokenBehind source mode offset).kind ≠ .eof ∧
      offset < (tokenBehind source mode offset).range.stop ∧
      (tokenBehind source mode offset).range.stop ≤ source.length := by
  obtain ⟨c, rest, hrest⟩ : ∃ c rest, source.drop offset = c :: rest :=
    List.exists_cons_of_length_pos (by rw [List.length_drop]; omega)
  have hne := Scanner.kind_ne_eof_of_rest_cons (s := { source, mode, position := offset }) hrest
  exact ⟨hne, (Scanner.range_next hne).2⟩

/-- Behind a piece of trivia, as much is seen as from its end on. -/
theorem look_trivia {source : List Char} {mode : Mode} {offset : Nat} (hmode : mode ≠ .markup)
    (htrivia : (tokenBehind source mode offset).kind.isTrivia = true) :
    look source mode offset = {
      mode
      trivia := (tokenBehind source mode offset).toTrivia ::
        (look source mode (tokenBehind source mode offset).range.stop).trivia
      token := (look source mode (tokenBehind source mode offset).range.stop).token
      findings := (look source mode (tokenBehind source mode offset).range.stop).findings ++
        flawsAt source mode offset } :=
  look_of_trivia hmode rfl htrivia

/-- White space in front of something else is one token of code. -/
private theorem tokenBehind_blanks (own : List Char) {blanks rest : List Char} (hne : blanks ≠ [])
    (h : ∀ c ∈ blanks, Text.isSpace c = true) (hrest : rest.head?.any Text.isSpace = false) :
    tokenBehind (own ++ (blanks ++ rest)) .code own.length = {
        kind := .space
        range := Text.Range.ofLength own.length blanks.length
        containsNewline := 0 < Lexeme.lineBreaks blanks } ∧
      flawsAt (own ++ (blanks ++ rest)) .code own.length = [] := by
  obtain ⟨c, blanks, rfl⟩ := List.exists_cons_of_ne_nil hne
  have hrun : (blanks ++ rest).takeWhile Text.isSpace = blanks := by
    rw [List.takeWhile_append_of_pos fun d hd => h d (List.mem_cons_of_mem _ hd)]
    cases rest with
    | nil => exact List.append_nil _
    | cons d rest =>
      have hd : Text.isSpace d = false := hrest
      rw [List.takeWhile_cons_of_neg (by rw [hd]; decide), List.append_nil]
  have hscan : Lexeme.scan .code own.getLast? c (blanks ++ rest) = {
      kind := .space, tail := blanks.length
      containsNewline := 0 < Lexeme.lineBreaks (c :: blanks) } := by
    have hblank : Mode.isBlank .code c = true := h c List.mem_cons_self
    have hisBlank : Mode.isBlank .code = Text.isSpace := rfl
    unfold Lexeme.scan Lexeme.whitespace
    rw [if_pos hblank, hisBlank, hrun]
    rfl
  rw [List.cons_append, tokenBehind_append, flawsAt_append, hscan]
  exact ⟨rfl, rfl⟩

/-- Behind the white space in front of a text stands none. -/
theorem head?_dropWhile_isSpace (text : List Char) :
    (text.dropWhile Text.isSpace).head?.any Text.isSpace = false := by
  have hhead := List.head?_dropWhile_not Text.isSpace text
  cases hdrop : (text.dropWhile Text.isSpace).head? with
  | none => rfl
  | some d =>
    rw [hdrop] at hhead
    simpa using hhead

/-- White space in front of something else is one piece of trivia of code. -/
theorem look_blanks {source : List Char} {offset : Nat} (own blanks rest : List Char)
    (hsource : source = own ++ (blanks ++ rest)) (hoffset : offset = own.length)
    (hne : blanks ≠ []) (h : ∀ c ∈ blanks, Text.isSpace c = true)
    (hrest : rest.head?.any Text.isSpace = false) :
    look source .code offset = {
      mode := .code
      trivia := { kind := .space, range := Text.Range.ofLength offset blanks.length
                  containsNewline := 0 < Lexeme.lineBreaks blanks } ::
        (look source .code (offset + blanks.length)).trivia
      token := (look source .code (offset + blanks.length)).token
      findings := (look source .code (offset + blanks.length)).findings } := by
  subst hsource hoffset
  obtain ⟨htoken, hflaws⟩ := tokenBehind_blanks own hne h hrest
  rw [look_trivia (by decide) (by rw [htoken]; rfl), htoken, hflaws, List.append_nil]
  rfl

/-- At the end of a source, that is all that is seen. -/
theorem look_length (source : List Char) (mode : Mode) :
    look source mode source.length =
      { mode, trivia := [], token := Token.eof source.length, findings := [] } := by
  rw [look_of_token fun _ => by rw [next_length]; rfl]
  unfold flawsAt
  rw [next_length]

end TypstFormat
