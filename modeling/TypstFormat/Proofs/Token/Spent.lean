import TypstFormat.Proofs.Token.Behind
import TypstFormat.Proofs.Token.Boundary

/-!
# Where nothing but trivia is left

A source is `Spent` behind an offset if code finds nothing but trivia there. Math finds the same
trivia then. Markup may cut the white space in another way, and take some of it for text, but
nothing that it finds closes anything.

## Key results

- `Spent.look_math`: math comes to the end of the source
- `Spent.step`, `Spent.closing`: what is behind a token of markup, and what it is not
-/

namespace TypstFormat

open Text

namespace Lexeme

variable {mode : Mode} {before : Option Char} {c : Char} {rest : List Char}

theorem scan_blank (h : mode.isBlank c = true) :
    scan mode before c rest = whitespace mode c rest :=
  if_pos h

theorem scan_lineComment (h : rest.head? = some '/') :
    scan mode before '/' rest = lineComment rest := by
  unfold scan
  rw [if_neg (by rw [Mode.isBlank_slash]; decide), if_pos ⟨rfl, h⟩]

theorem scan_blockComment (h : rest.head? = some '*') :
    scan mode before '/' rest = blockComment rest := by
  unfold scan
  rw [if_neg (by rw [Mode.isBlank_slash]; decide), if_neg (by simp [h]), if_pos ⟨rfl, h⟩]

/-- White space starts with a blank, and a comment with two characters of its own. -/
theorem start_of_isTrivia (h : (scan mode before c rest).kind.isTrivia = true) :
    mode.isBlank c = true ∨ c = '/' ∧ (rest.head? = some '/' ∨ rest.head? = some '*') := by
  have hfound := found_scan mode before c rest
  generalize scan mode before c rest = lexeme at h hfound
  cases hfound with
  | whitespace hblank => exact .inl hblank
  | lineComment hc hrest => exact .inr ⟨hc, .inl hrest⟩
  | delimited hdelimited =>
    cases hdelimited with
    | string => cases h
    | raw =>
      unfold Lexeme.raw at h
      dsimp only at h
      split at h <;> cases h
    | comment hc hrest => exact .inr ⟨hc, .inr hrest⟩
  | sign _ hchar => rcases Kind.eq_of_char? hchar with rfl | rfl | rfl <;> cases h
  | invalid => cases h
  | plain hplain =>
    unfold isPlain at hplain
    revert h hplain
    cases lexeme.kind <;> simp [Kind.isTrivia, Kind.isSpace, Kind.mayBeFlawed]

/-- Math has the trivia of code. -/
theorem scan_math_of_isTrivia (h : (scan .code before c rest).kind.isTrivia = true) :
    scan .math before c rest = scan .code before c rest := by
  rcases start_of_isTrivia h with hblank | ⟨rfl, hrest | hrest⟩
  · have hmath : Mode.isBlank .math c = true := hblank
    rw [scan_blank hblank, scan_blank hmath]
    simp [whitespace, show Mode.isBlank .math = Mode.isBlank .code from rfl]
  · rw [scan_lineComment hrest, scan_lineComment hrest]
  · rw [scan_blockComment hrest, scan_blockComment hrest]

end Lexeme

/-- Nothing but trivia of code is left behind an offset. -/
def Spent (source : List Char) (offset : Nat) : Prop :=
  (look source .code offset).token.kind = .eof

namespace Spent

variable {source own rest : List Char} {offset : Nat}

theorem length (source : List Char) : Spent source source.length := by
  unfold Spent
  rw [look_length]
  rfl

/-- A piece of trivia makes no difference. -/
theorem iff_stop (h : (tokenBehind source .code offset).kind.isTrivia = true) :
    Spent source offset ↔ Spent source (tokenBehind source .code offset).range.stop := by
  unfold Spent
  rw [look_trivia (by decide) h]

theorem isTrivia (h : Spent source offset) (hlt : offset < source.length) :
    (tokenBehind source .code offset).kind.isTrivia = true := by
  by_contra hnot
  unfold Spent at h
  rw [look_of_token fun _ => Bool.eq_false_iff.2 hnot] at h
  exact (range_tokenBehind hlt .code).1 h

/-- An offset in front of a character splits the source there. -/
theorem exists_split (hlt : offset < source.length) :
    ∃ own c rest, source = own ++ c :: rest ∧ offset = own.length := by
  refine ⟨source.take offset, source[offset], source.drop (offset + 1), ?_, ?_⟩
  · rw [← List.drop_eq_getElem_cons hlt, List.take_append_drop]
  · rw [List.length_take]
    omega

/-- Where white space stands, what counts is its end. -/
private theorem iff_blanks (own rest : List Char) : Spent (own ++ rest) own.length ↔
    Spent (own ++ rest) (own.length + (rest.takeWhile isSpace).length) := by
  cases rest with
  | nil => rfl
  | cons c rest =>
    by_cases hc : isSpace c = true
    · have htoken := tokenBehind_append own .code c rest
      rw [Lexeme.scan_blank (show Mode.isBlank .code c = true from hc)] at htoken
      rw [iff_stop (by rw [htoken]; rfl), htoken, List.takeWhile_cons_of_pos hc]
      rfl
    · rw [List.takeWhile_cons_of_neg hc]
      rfl

/-- White space in front makes no difference. -/
theorem iff_append (own rest : List Char) {blanks : List Char}
    (h : ∀ c ∈ blanks, isSpace c = true) :
    Spent (own ++ (blanks ++ rest)) own.length ↔
      Spent (own ++ (blanks ++ rest)) (own.length + blanks.length) := by
  have hbehind := iff_blanks (own ++ blanks) rest
  rw [List.append_assoc, List.length_append] at hbehind
  rw [hbehind, iff_blanks own (blanks ++ rest), List.takeWhile_append_of_pos h,
    List.length_append, Nat.add_assoc]

/-- White space at the end makes no difference. -/
theorem of_blanks (own : List Char) {blanks : List Char} (h : ∀ c ∈ blanks, isSpace c = true) :
    Spent (own ++ blanks) own.length := by
  have hiff := iff_append own [] h
  rw [List.append_nil, ← List.length_append] at hiff
  exact hiff.2 (.length _)

/-- Math comes to the end of the source as well. -/
theorem look_math (h : Spent source offset) (hle : offset ≤ source.length) :
    (look source .math offset).token.kind = .eof := by
  induction hn : source.length - offset using Nat.strong_induction_on generalizing offset with
  | _ n ih =>
    rcases Nat.eq_or_lt_of_le hle with rfl | hlt
    · rw [look_length]
      rfl
    · have htrivia := h.isTrivia hlt
      obtain ⟨-, hlonger, hstop⟩ := range_tokenBehind hlt .code
      have hmath : tokenBehind source .math offset = tokenBehind source .code offset := by
        obtain ⟨own, c, rest, rfl, rfl⟩ := exists_split hlt
        rw [tokenBehind_append] at htrivia
        rw [tokenBehind_append, tokenBehind_append, Lexeme.scan_math_of_isTrivia htrivia]
      rw [look_trivia (by decide) (by rw [hmath]; exact htrivia), hmath]
      exact ih _ (by omega) ((iff_stop htrivia).1 h) hstop rfl

end Spent

/-! ## Markup -/

namespace Lexeme

/-- White space that is no blank of markup is text, and so is what goes on with it. -/
private theorem markup_of_isSpace {before : Option Char} {c : Char} {rest : List Char}
    (h : isSpace c = true) : markup before c rest = text 0 rest := by
  have hne {d : Char} (hd : isSpace d = false) : c ≠ d := by
    rintro rfl
    rw [hd] at h
    cases h
  have hnone : shorthand? c rest = none := by
    simp [shorthand?, hne (d := '.') (by decide), hne (d := '-') (by decide),
      hne (d := '~') (by decide)]
  have hpunctuation : markupPunctuation? c = none := by
    unfold markupPunctuation?
    split <;> first | rfl | exact absurd h (by decide)
  have hdigit : isDigit c = false := isDigit_of_isSpace h
  simp [markup, markupMarker, hnone, hpunctuation, hdigit, hne (d := '\\') (by decide),
    hne (d := '\x60') (by decide), hne (d := 'h') (by decide), hne (d := '@') (by decide),
    hne (d := '<') (by decide), hne (d := '*') (by decide), hne (d := '_') (by decide),
    hne (d := '=') (by decide), hne (d := '-') (by decide), hne (d := '+') (by decide),
    hne (d := '/') (by decide)]

private theorem scan_of_isSpace {before : Option Char} {c : Char} {rest : List Char}
    (h : isSpace c = true) (hblank : Mode.isBlank .markup c = false) :
    scan .markup before c rest = text 0 rest := by
  have hne : c ≠ '/' := by
    rintro rfl
    exact absurd h (by decide)
  unfold scan
  rw [if_neg (Bool.eq_false_iff.1 hblank), if_neg fun h => hne h.1, if_neg fun h => hne h.1]
  exact markup_of_isSpace h

/-- Text takes no more than the white space in front of what it does not go on with. -/
private theorem textSpan_append_le {blanks rest : List Char} (h : textSpan rest = 0) :
    textSpan (blanks ++ rest) ≤ blanks.length := by
  induction blanks with
  | nil => exact Nat.le_of_eq h
  | cons c blanks ih =>
    rw [List.cons_append, textSpan]
    split
    · exact Nat.add_le_add_right ih 1
    · exact Nat.zero_le _

end Lexeme

namespace Spent

variable {source : List Char} {offset : Nat}

/-- Text does not go on where trivia starts that is no white space. -/
private theorem textSpan_eq_zero {own rest : List Char} (h : Spent (own ++ rest) own.length)
    (hrest : rest.head?.any isSpace = false) : Lexeme.textSpan rest = 0 := by
  cases rest with
  | nil => rfl
  | cons c rest =>
    have htrivia := h.isTrivia (by simp)
    rw [tokenBehind_append] at htrivia
    have hcontinues : Lexeme.continuesText c rest = false := by
      rcases Lexeme.start_of_isTrivia htrivia with hblank | ⟨rfl, hnext | hnext⟩
      · have hspace : isSpace c = true := hblank
        simp [hspace] at hrest
      · simp [Lexeme.continuesText, Lexeme.isMarkupSpecial, hnext]
      · simp [Lexeme.continuesText, Lexeme.isMarkupSpecial, hnext]
    rw [Lexeme.textSpan, hcontinues]
    rfl

private theorem length_takeWhile_mono {p q : Char → Bool} (h : ∀ c, p c = true → q c = true)
    (text : List Char) : (text.takeWhile p).length ≤ (text.takeWhile q).length := by
  induction text with
  | nil => exact Nat.le_refl _
  | cons c text ih =>
    by_cases hc : p c = true
    · rw [List.takeWhile_cons_of_pos hc, List.takeWhile_cons_of_pos (h c hc)]
      exact Nat.succ_le_succ ih
    · rw [List.takeWhile_cons_of_neg hc]
      exact Nat.zero_le _

/-- A part of the white space may be taken as well. -/
private theorem part {own rest : List Char} {c : Char} (h : Spent (own ++ c :: rest) own.length)
    (hspace : isSpace c = true) {n : Nat} (hn : n ≤ (rest.takeWhile isSpace).length) :
    Spent (own ++ c :: rest) (own.length + (n + 1)) := by
  have hblanks : ∀ d ∈ c :: (rest.takeWhile isSpace).take n, isSpace d = true := by
    refine List.forall_mem_cons.2 ⟨hspace, fun d hd => ?_⟩
    exact List.mem_takeWhile_imp (List.mem_of_mem_take hd)
  have hsplit : (c :: (rest.takeWhile isSpace).take n) ++
      ((rest.takeWhile isSpace).drop n ++ rest.dropWhile isSpace) = c :: rest := by
    rw [List.cons_append, ← List.append_assoc, List.take_append_drop,
      List.takeWhile_append_dropWhile]
  have hiff := iff_append own ((rest.takeWhile isSpace).drop n ++ rest.dropWhile isSpace) hblanks
  rw [hsplit, List.length_cons, List.length_take, Nat.min_eq_left hn] at hiff
  exact hiff.1 h

/-- Text that starts with white space ends where the white space does at the latest. -/
private theorem textSpan_le {own rest : List Char} {c : Char}
    (h : Spent (own ++ c :: rest) own.length) (hspace : isSpace c = true) :
    Lexeme.textSpan rest ≤ (rest.takeWhile isSpace).length := by
  have hend : Spent ((own ++ c :: rest.takeWhile isSpace) ++ rest.dropWhile isSpace)
      (own ++ c :: rest.takeWhile isSpace).length := by
    have hend := h.part hspace (Nat.le_refl _)
    rw [List.append_assoc, List.cons_append, List.takeWhile_append_dropWhile,
      List.length_append, List.length_cons]
    exact hend
  have hzero := textSpan_eq_zero hend (head?_dropWhile_isSpace rest)
  calc Lexeme.textSpan rest
      = Lexeme.textSpan (rest.takeWhile isSpace ++ rest.dropWhile isSpace) := by
        rw [List.takeWhile_append_dropWhile]
    _ ≤ (rest.takeWhile isSpace).length := Lexeme.textSpan_append_le hzero

/-- What markup finds where nothing but trivia is left, and that this is so behind it as well. -/
private theorem markup_cases (h : Spent source offset) (hlt : offset < source.length) :
    Spent source (tokenBehind source .markup offset).range.stop ∧
      ((tokenBehind source .markup offset).kind.isTrivia = true ∨
        (tokenBehind source .markup offset).kind = .text) := by
  have htrivia := h.isTrivia hlt
  have hbehind := (iff_stop htrivia).1 h
  obtain ⟨own, c, rest, rfl, rfl⟩ := exists_split hlt
  rw [tokenBehind_append] at htrivia hbehind
  rw [tokenBehind_append]
  rcases Lexeme.start_of_isTrivia htrivia with hblank | ⟨rfl, hrest | hrest⟩
  · have hspace : isSpace c = true := hblank
    by_cases hmarkup : Mode.isBlank .markup c = true
    · -- The blanks of markup are a part of the white space of code.
      rw [Lexeme.scan_blank hmarkup]
      refine ⟨h.part hspace ?_, .inl ?_⟩
      · exact length_takeWhile_mono (fun _ => Mode.isSpace_of_isBlank) rest
      · simp only [Scanner.tokenAt, Lexeme.whitespace]
        split <;> rfl
    · -- Other white space is text, which may stop in front of the end of the white space.
      rw [Lexeme.scan_of_isSpace hspace (Bool.eq_false_iff.2 hmarkup)]
      refine ⟨h.part hspace ?_, .inr rfl⟩
      show 0 + Lexeme.textSpan rest ≤ _
      rw [Nat.zero_add]
      exact h.textSpan_le hspace
  · rw [Lexeme.scan_lineComment hrest] at hbehind ⊢
    exact ⟨hbehind, .inl rfl⟩
  · rw [Lexeme.scan_blockComment hrest] at hbehind ⊢
    exact ⟨hbehind, .inl rfl⟩

/-- A token leaves nothing but trivia behind it. -/
theorem step (h : Spent source offset) (hle : offset ≤ source.length) {mode : Mode}
    (hne : (look source mode offset).token.kind ≠ .eof) :
    Spent source (look source mode offset).token.range.stop := by
  cases mode with
  | code => exact absurd h hne
  | math => exact absurd (h.look_math hle) hne
  | markup =>
    rcases Nat.eq_or_lt_of_le hle with rfl | hlt
    · rw [look_length] at hne
      exact absurd rfl hne
    · rw [look_of_token fun hmode => absurd rfl hmode]
      exact (h.markup_cases hlt).1

/-- Nothing is closed any more. -/
theorem closing (h : Spent source offset) (hle : offset ≤ source.length) (mode : Mode) :
    (look source mode offset).token.kind ∉ [Kind.dollar, .rightBracket] := by
  cases mode with
  | code => rw [show (look source .code offset).token.kind = .eof from h]; decide
  | math => rw [h.look_math hle]; decide
  | markup =>
    rcases Nat.eq_or_lt_of_le hle with rfl | hlt
    · rw [look_length]
      simp [Token.eof]
    · rw [look_of_token fun hmode => absurd rfl hmode]
      have hcases := (h.markup_cases hlt).2
      show (tokenBehind source .markup offset).kind ∉ _
      generalize (tokenBehind source .markup offset).kind = kind at hcases
      rcases hcases with htrivia | rfl
      · revert htrivia
        cases kind <;> decide
      · decide

end Spent

end TypstFormat
