import TypstFormat.Token.Scanner

/-!
# How far a lexeme sees

Most rules of the scanner look no farther than the next white space, whatever stands behind it. Two
texts that agree up to there (`SameUpTo`) start with the same lexeme by these rules, even if one of
them ends there and the other one goes on. In markup a run of text may hold spaces; with it, the same
is true of the next line break. The rules for white space, comments, strings, raw text and code points
in braces are the exceptions.

## Key results

- `Lexeme.code_congr`, `Lexeme.math_congr`: the rules of code and of math, up to the next white space
- `Lexeme.markup_cases`: the rules of markup, up to the next blank or where a run of text goes on
- `Lexeme.markup_congr`: the rules of markup, up to the next line break
-/

namespace TypstFormat

open Text

/-! ## White space is no part of a word -/

namespace Text

/-- The code points of white space. -/
private def spaceCodes : List Nat :=
  [9, 10, 11, 12, 13, 28, 29, 30, 31, 32, 0x85, 0xA0, 0x1680, 0x2000, 0x2001, 0x2002, 0x2003, 0x2004,
    0x2005, 0x2006, 0x2007, 0x2008, 0x2009, 0x200A, 0x2028, 0x2029, 0x202F, 0x205F, 0x3000]

private theorem mem_spaceCodes {c : Char} (h : isSpace c = true) : c.toNat ∈ spaceCodes := by
  simp only [isSpace, Bool.or_eq_true, Bool.and_eq_true, decide_eq_true_eq] at h
  simp only [spaceCodes, List.mem_cons, List.not_mem_nil, or_false]
  omega

private theorem spaceCodes_outside : ∀ n ∈ spaceCodes, inRanges letterRanges n = false ∧
    inRanges numberRanges n = false ∧ inRanges digitRanges n = false := by
  decide +kernel

private theorem low_spaceCodes_outside : ∀ n ∈ spaceCodes, n < 0x80 →
    (Char.ofNat n).isAlpha = false ∧ (Char.ofNat n).isDigit = false := by
  decide

private theorem isAlphanum_of_isSpace {c : Char} (h : isSpace c = true) (hc : c.toNat < 0x80) :
    c.isAlpha = false ∧ c.isDigit = false := by
  have hlow := low_spaceCodes_outside c.toNat (mem_spaceCodes h) hc
  rwa [Char.ofNat_toNat] at hlow

theorem isLetter_of_isSpace {c : Char} (h : isSpace c = true) : isLetter c = false := by
  unfold isLetter
  split
  · exact (isAlphanum_of_isSpace h ‹_›).1
  · exact (spaceCodes_outside _ (mem_spaceCodes h)).1

theorem isNumber_of_isSpace {c : Char} (h : isSpace c = true) : isNumber c = false := by
  unfold isNumber
  split
  · exact (isAlphanum_of_isSpace h ‹_›).2
  · exact (spaceCodes_outside _ (mem_spaceCodes h)).2.1

theorem isDigit_of_isSpace {c : Char} (h : isSpace c = true) : isDigit c = false := by
  unfold isDigit
  split
  · exact (isAlphanum_of_isSpace h ‹_›).2
  · exact (spaceCodes_outside _ (mem_spaceCodes h)).2.2

theorem isAlphanumeric_of_isSpace {c : Char} (h : isSpace c = true) :
    isAlphanumeric c = false := by
  unfold isAlphanumeric
  rw [isLetter_of_isSpace h, isNumber_of_isSpace h]
  rfl

end Text

/-- Two texts agree up to a character that ends both, or up to the end of one of them. -/
inductive SameUpTo (ends : Char → Bool) : List Char → List Char → Prop where
  | cons {c : Char} {rest rest' : List Char} : ends c = false → SameUpTo ends rest rest' →
    SameUpTo ends (c :: rest) (c :: rest')
  | stop {rest rest' : List Char} : rest.head?.all ends = true → rest'.head?.all ends = true →
    SameUpTo ends rest rest'

namespace SameUpTo

variable {ends : Char → Bool} {rest rest' : List Char}

/-- A text is nothing, or starts with a character that ends it. -/
private theorem head_cases (h : rest.head?.all ends = true) :
    rest = [] ∨ ∃ c rest₁, rest = c :: rest₁ ∧ ends c = true := by
  cases rest with
  | nil => exact .inl rfl
  | cons c rest => exact .inr ⟨c, rest, rfl, h⟩

private theorem takeWhile_of_stop {q : Char → Bool} (hq : ∀ c, ends c = true → q c = false)
    (h : rest.head?.all ends = true) : rest.takeWhile q = [] := by
  obtain rfl | ⟨c, rest, rfl, hc⟩ := head_cases h
  · rfl
  · exact List.takeWhile_cons_of_neg (by rw [hq c hc]; decide)

private theorem any_of_stop {q : Char → Bool} (hq : ∀ c, ends c = true → q c = false)
    (h : rest.head?.all ends = true) : rest.head?.any q = false := by
  obtain rfl | ⟨c, rest, rfl, hc⟩ := head_cases h
  · rfl
  · exact hq c hc

theorem takeWhile_eq (h : SameUpTo ends rest rest') {q : Char → Bool}
    (hq : ∀ c, ends c = true → q c = false) : rest'.takeWhile q = rest.takeWhile q := by
  induction h with
  | cons hc _ ih => rw [List.takeWhile_cons, List.takeWhile_cons, ih]
  | stop h h' => rw [takeWhile_of_stop hq h, takeWhile_of_stop hq h']

/-- A text agrees with what stands in front of the first character that ends it. -/
theorem takeWhile_self (ends : Char → Bool) (text : List Char) :
    SameUpTo ends text (text.takeWhile (!ends ·)) := by
  induction text with
  | nil => exact .stop rfl rfl
  | cons c text ih =>
    cases hc : ends c with
    | false =>
      rw [List.takeWhile_cons_of_pos (by rw [hc]; rfl)]
      exact .cons hc ih
    | true =>
      rw [List.takeWhile_cons_of_neg (by rw [hc]; decide)]
      exact .stop hc rfl

/-- Behind characters that end nothing, the texts still agree. -/
theorem drop_takeWhile (h : SameUpTo ends rest rest') {q : Char → Bool}
    (hq : ∀ c, ends c = true → q c = false) :
    SameUpTo ends (rest.drop (rest.takeWhile q).length) (rest'.drop (rest.takeWhile q).length) := by
  induction h with
  | @cons c rest rest' hc h ih =>
    by_cases hqc : q c = true
    · rw [List.takeWhile_cons_of_pos hqc]
      exact ih
    · rw [List.takeWhile_cons_of_neg hqc]
      exact .cons hc h
  | stop h h' =>
    rw [takeWhile_of_stop hq h]
    exact .stop h h'

theorem any_eq (h : SameUpTo ends rest rest') {q : Char → Bool}
    (hq : ∀ c, ends c = true → q c = false) : rest'.head?.any q = rest.head?.any q := by
  cases h with
  | cons => rfl
  | stop h h' => rw [any_of_stop hq h, any_of_stop hq h']

theorem all_eq (h : SameUpTo ends rest rest') {q : Char → Bool}
    (hq : ∀ c, ends c = true → q c = true) : rest'.head?.all q = rest.head?.all q := by
  have hall {text : List Char} (h : text.head?.all ends = true) : text.head?.all q = true := by
    obtain rfl | ⟨c, text, rfl, hc⟩ := head_cases h
    · rfl
    · exact hq c hc
  cases h with
  | cons => rfl
  | stop h h' => rw [hall h, hall h']

theorem head?_eq_iff (h : SameUpTo ends rest rest') {c : Char} (hc : ends c = false) :
    rest'.head? = some c ↔ rest.head? = some c := by
  have hne {text : List Char} (h : text.head?.all ends = true) : text.head? ≠ some c := by
    intro hhead
    rw [hhead] at h
    simp [hc] at h
  cases h with
  | cons => rfl
  | stop h h' => exact iff_of_false (hne h') (hne h)

theorem isPrefixOf_eq (h : SameUpTo ends rest rest') (text : List Char)
    (htext : text.any ends = false) : text.isPrefixOf rest' = text.isPrefixOf rest := by
  induction h generalizing text with
  | cons hc h ih =>
    cases text with
    | nil => rfl
    | cons d text =>
      simp only [List.isPrefixOf, ih text (Bool.or_eq_false_iff.1 htext).2]
  | stop h h' =>
    have hnot {rest : List Char} (d : Char) (text : List Char) (hd : ends d = false)
        (h : rest.head?.all ends = true) : (d :: text).isPrefixOf rest = false := by
      obtain rfl | ⟨c, rest, rfl, hc⟩ := head_cases h
      · rfl
      · have hne : (d == c) = false := by
          refine beq_eq_false_iff_ne.2 ?_
          rintro rfl
          rw [hd] at hc
          cases hc
        simp [List.isPrefixOf, hne]
    cases text with
    | nil => simp
    | cons d text =>
      have hd : ends d = false := (Bool.or_eq_false_iff.1 htext).1
      rw [hnot d text hd h, hnot d text hd h']

end SameUpTo

namespace Lexeme

variable {ends : Char → Bool} {rest rest' : List Char}

/-! ## Classes of characters -/

/-- A class of characters that holds no white space does not go past what ends a text. -/
private theorem ends_of_isSpace {q : Char → Bool} (hends : ∀ c, ends c = true → isSpace c = true)
    (hq : ∀ c, isSpace c = true → q c = false) : ∀ c, ends c = true → q c = false :=
  fun c hc => hq c (hends c hc)

private theorem ne_of_isSpace {c d : Char} (h : isSpace c = true) (hd : isSpace d = false) :
    c ≠ d := by
  rintro rfl
  rw [hd] at h
  cases h

private theorem isLabelChar_of_isSpace {c : Char} (h : isSpace c = true) :
    isLabelChar c = false := by
  simp [isLabelChar, isAlphanumeric_of_isSpace h, ne_of_isSpace h (d := '_') (by decide),
    ne_of_isSpace h (d := '-') (by decide), ne_of_isSpace h (d := '.') (by decide),
    ne_of_isSpace h (d := ':') (by decide)]

private theorem isIdentContinue_of_isSpace {c : Char} (h : isSpace c = true) :
    isIdentContinue c = false := by
  simp [isIdentContinue, isAlphanumeric_of_isSpace h, ne_of_isSpace h (d := '_') (by decide)]

/-! ## Rules of more than one mode -/

theorem label?_congr (h : SameUpTo ends rest rest') (hends : ∀ c, ends c = true → isSpace c = true) :
    label? rest' = label? rest := by
  have hq := ends_of_isSpace hends fun _ => isLabelChar_of_isSpace
  have hdrop := h.drop_takeWhile hq
  have hclose : ends '>' = false := by
    cases hc : ends '>' with
    | false => rfl
    | true => exact absurd (hends _ hc) (by decide)
  unfold label?
  simp only [h.takeWhile_eq hq, hdrop.head?_eq_iff hclose]

/-! ## Rules of code -/

private theorem fractionSpan_congr (h : SameUpTo isSpace rest rest') :
    fractionSpan rest' = fractionSpan rest := by
  have hstop {text : List Char} (h : text.head?.all isSpace = true) : fractionSpan text = 0 := by
    unfold fractionSpan
    split
    · cases h
    · rfl
  cases h with
  | stop h h' => rw [hstop h, hstop h']
  | @cons c rest rest' _ h =>
    by_cases hc : c = '.'
    · subst hc
      cases h with
      | cons _ h => simp only [fractionSpan, h.takeWhile_eq fun _ => isDigit_of_isSpace]
      | stop h h' =>
        have hnone {text : List Char} (h : text.head?.all isSpace = true) :
            fractionSpan ('.' :: text) = 0 := by
          cases text with
          | nil => rfl
          | cons d text => simp [fractionSpan, isDigit_of_isSpace (show isSpace d = true from h)]
        rw [hnone h, hnone h']
    · have hnone (text : List Char) : fractionSpan (c :: text) = 0 := by
        unfold fractionSpan
        split
        · rename_i heq
          cases heq
          exact absurd rfl hc
        · rfl
      rw [hnone, hnone]

private theorem exponentSpan_congr (h : SameUpTo isSpace rest rest') :
    exponentSpan rest' = exponentSpan rest := by
  have hq : ∀ c, isSpace c = true → isDigit c = false := fun _ => isDigit_of_isSpace
  have hsign {d : Char} (h : isSpace d = true) : d ≠ '+' ∧ d ≠ '-' :=
    ⟨ne_of_isSpace h (by decide), ne_of_isSpace h (by decide)⟩
  cases h with
  | stop h h' =>
    have hstop {text : List Char} (h : text.head?.all isSpace = true) : exponentSpan text = 0 := by
      unfold exponentSpan
      split
      · rename_i e d rest
        have he : e ≠ 'e' ∧ e ≠ 'E' := ⟨ne_of_isSpace h (by decide), ne_of_isSpace h (by decide)⟩
        simp [he.1, he.2]
      · rfl
    rw [hstop h, hstop h']
  | @cons e rest rest' _ h =>
    cases h with
    | cons _ h => simp only [exponentSpan, h.takeWhile_eq hq, h.any_eq hq]
    | stop h h' =>
      have hnone {text : List Char} (h : text.head?.all isSpace = true) :
          exponentSpan (e :: text) = 0 := by
        cases text with
        | nil => rfl
        | cons d text =>
          have hd : isSpace d = true := h
          simp [exponentSpan, hq d hd, hsign hd]
      rw [hnone h, hnone h']

private theorem unitSpan_congr (h : SameUpTo isSpace rest rest') : unitSpan rest' = unitSpan rest := by
  have hq : ∀ c, isSpace c = true → isLetter c = false := fun _ => isLetter_of_isSpace
  have hother {text : List Char} (hhead : text.head? ≠ some '%') :
      unitSpan text = if units.contains (text.takeWhile isLetter) then
        (text.takeWhile isLetter).length else 0 := by
    unfold unitSpan
    split
    · simp at hhead
    · rfl
  by_cases hhead : rest.head? = some '%'
  · obtain ⟨text, rfl⟩ := List.head?_eq_some_iff.1 hhead
    obtain ⟨text', rfl⟩ := List.head?_eq_some_iff.1
      ((h.head?_eq_iff (c := '%') (by decide)).2 hhead)
    rfl
  · rw [hother hhead, hother (mt (h.head?_eq_iff (by decide)).1 hhead), h.takeWhile_eq hq]

/-- Behind a point and decimals, the texts still agree. -/
private theorem drop_fractionSpan (h : SameUpTo isSpace rest rest') :
    SameUpTo isSpace (rest.drop (fractionSpan rest)) (rest'.drop (fractionSpan rest)) := by
  have hq : ∀ c, isSpace c = true → isDigit c = false := fun _ => isDigit_of_isSpace
  unfold fractionSpan
  split
  · rename_i d text
    by_cases hd : isDigit d = true
    · rw [if_pos hd]
      have hspace : isSpace d = false := by
        cases hc : isSpace d with
        | false => rfl
        | true => rw [hq d hc] at hd; cases hd
      cases h with
      | stop h => cases h
      | cons _ h =>
        cases h with
        | stop h => simp [hspace] at h
        | cons _ h =>
          rw [Nat.add_comm 2, List.drop_succ_cons, List.drop_succ_cons, List.drop_succ_cons,
            List.drop_succ_cons]
          exact h.drop_takeWhile hq
    · rw [if_neg hd]
      exact h
  · exact h

private theorem drop_exponentSpan (h : SameUpTo isSpace rest rest') :
    SameUpTo isSpace (rest.drop (exponentSpan rest)) (rest'.drop (exponentSpan rest)) := by
  have hq : ∀ c, isSpace c = true → isDigit c = false := fun _ => isDigit_of_isSpace
  unfold exponentSpan
  split
  · rename_i e d text
    split
    · rename_i hexponent
      simp only [Bool.and_eq_true, Bool.or_eq_true, decide_eq_true_eq] at hexponent
      have he : isSpace e = false := by rcases hexponent.1 with rfl | rfl <;> decide
      have hd : isSpace d = false := by
        rcases hexponent.2 with hd | ⟨rfl | rfl, _⟩
        · cases hc : isSpace d with
          | false => rfl
          | true => rw [hq d hc] at hd; cases hd
        · decide
        · decide
      cases h with
      | stop h => simp [he] at h
      | cons _ h =>
        cases h with
        | stop h => simp [hd] at h
        | cons _ h =>
          rw [Nat.add_comm 2, List.drop_succ_cons, List.drop_succ_cons, List.drop_succ_cons,
            List.drop_succ_cons]
          exact h.drop_takeWhile hq
    · exact h
  · exact h

private theorem decimal_congr (h : SameUpTo isSpace rest rest') : decimal rest' = decimal rest := by
  have hq : ∀ c, isSpace c = true → isDigit c = false := fun _ => isDigit_of_isSpace
  have hdigits := h.takeWhile_eq hq
  have hbehind := h.drop_takeWhile hq
  have hfraction := fractionSpan_congr hbehind
  have hbehind' := drop_fractionSpan hbehind
  rw [List.drop_drop, List.drop_drop] at hbehind'
  have hexponent := exponentSpan_congr hbehind'
  have hbehind'' := drop_exponentSpan hbehind'
  rw [List.drop_drop, List.drop_drop] at hbehind''
  have hunit := unitSpan_congr hbehind''
  unfold decimal
  simp only [hdigits, hfraction, hexponent, hunit]

private theorem number_congr (h : SameUpTo isSpace rest rest') {c : Char} (hc : isSpace c = false) :
    number c rest' = number c rest := by
  have hbase : ∀ d, isSpace d = true → (d = 'x' || d = 'b' || d = 'o') = false := by
    intro d hd
    simp [ne_of_isSpace hd (d := 'x') (by decide), ne_of_isSpace hd (d := 'b') (by decide),
      ne_of_isSpace hd (d := 'o') (by decide)]
  unfold number
  rw [h.any_eq hbase, decimal_congr (.cons hc h)]
  split
  · rename_i hzero
    cases h with
    | stop h =>
      obtain rfl | ⟨d, text, rfl, hd⟩ := SameUpTo.head_cases h
      · simp at hzero
      · have hzero := hzero.2
        rw [List.head?_cons, Option.any_some, hbase d hd] at hzero
        cases hzero
    | cons _ h =>
      rw [List.drop_succ_cons, List.drop_succ_cons, List.drop_zero, List.drop_zero,
        h.takeWhile_eq fun _ => isAlphanumeric_of_isSpace]
  · rfl

private theorem longOperator?_congr (h : SameUpTo isSpace rest rest') (c : Char) :
    longOperator? c rest'.head? = longOperator? c rest.head? := by
  have hstop {text : List Char} (h : text.head?.all isSpace = true) :
      longOperator? c text.head? = none := by
    obtain rfl | ⟨d, text, rfl, hd⟩ := SameUpTo.head_cases h
    · simp [longOperator?]
    · unfold longOperator?
      split <;> first | rfl | (rename_i heq; cases heq; exact absurd hd (by decide))
  cases h with
  | cons => rfl
  | stop h h' => rw [hstop h, hstop h']

theorem code_congr (h : SameUpTo isSpace rest rest') {c : Char} (hc : isSpace c = false)
    (hstring : c ≠ '\x22') (hraw : c ≠ '\x60') : code c rest' = code c rest := by
  have hident : ∀ c, isSpace c = true → (isIdentContinue c || decide (c = '-')) = false := by
    intro c hc
    simp [isIdentContinue_of_isSpace hc, ne_of_isSpace hc (d := '-') (by decide)]
  unfold code operator ident
  simp only [hstring, hraw, if_false, label?_congr h fun _ => id,
    h.any_eq fun _ => isDigit_of_isSpace, h.any_eq fun _ => isIdentContinue_of_isSpace,
    number_congr h hc, h.takeWhile_eq hident, longOperator?_congr h]

/-! ## Rules of math -/

private theorem mathSpan_congr (h : SameUpTo isSpace rest rest') : mathSpan rest' = mathSpan rest := by
  have hstop {text : List Char} (h : text.head?.all isSpace = true) : mathSpan text = 0 := by
    obtain rfl | ⟨c, text, rfl, hc⟩ := SameUpTo.head_cases h
    · rfl
    · simp [mathSpan, hc]
  have hcomment : ∀ d, isSpace d = true → (d = '/' || d = '*') = false := by
    intro d hd
    simp [ne_of_isSpace hd (d := '/') (by decide), ne_of_isSpace hd (d := '*') (by decide)]
  induction h with
  | cons hc h ih => simp only [mathSpan, ih, h.any_eq hcomment]
  | stop h h' => rw [hstop h, hstop h']

theorem math_congr (h : SameUpTo isSpace rest rest') {c : Char} (hstring : c ≠ '\x22')
    (hbackslash : c ≠ '\\') : math c rest' = math c rest := by
  unfold math
  simp only [hstring, hbackslash, if_false, mathSpan_congr h]

/-! ## Rules of markup -/

/-- Lexemes that are the same, or runs of text that start with the same characters. How far a run of
text goes on is not said, because it may go on past a single space. -/
inductive SameOrText (ends : Char → Bool) (rest rest' : List Char) (lexeme lexeme' : Lexeme) :
    Prop where
  | same : lexeme.kind ≠ .text → lexeme' = lexeme → SameOrText ends rest rest' lexeme lexeme'
  | text {q : Char → Bool} : (∀ c, ends c = true → q c = false) →
    lexeme = Lexeme.text (rest.takeWhile q).length rest →
    lexeme' = Lexeme.text (rest.takeWhile q).length rest' → SameOrText ends rest rest' lexeme lexeme'

section Markup

variable (h : SameUpTo ends rest rest') (hends : ∀ c, ends c = true → Mode.markup.isBlank c = true)

include hends

private theorem ends_of_isBlank {q : Char → Bool} (hq : ∀ c, isSpace c = true → q c = false) :
    ∀ c, ends c = true → q c = false :=
  ends_of_isSpace (fun c hc => Mode.isSpace_of_isBlank (hends c hc)) hq

private theorem ne_of_isBlank {c d : Char} (hc : ends c = true)
    (hd : Mode.markup.isBlank d = false) : c ≠ d := by
  rintro rfl
  rw [hends c hc] at hd
  cases hd

private theorem ends_eq_false {d : Char} (hd : Mode.markup.isBlank d = false) : ends d = false := by
  cases hc : ends d with
  | false => rfl
  | true => exact absurd rfl (ne_of_isBlank hends hc hd)

include h

private theorem startsLink_congr : startsLink rest' = startsLink rest := by
  have hnone {text : List Char} (htext : text.all (!Mode.markup.isBlank ·) = true) :
      text.any ends = false := by
    rw [List.any_eq_false]
    intro c hc hend
    have hc := List.all_eq_true.1 htext c hc
    rw [hends c hend] at hc
    cases hc
  unfold startsLink
  rw [h.isPrefixOf_eq _ (hnone (by decide)), h.isPrefixOf_eq _ (hnone (by decide))]

private theorem take_linkSpan_congr (depth : Nat) :
    rest'.take (linkSpan depth rest') = rest.take (linkSpan depth rest) := by
  have hstop {text : List Char} (h : text.head?.all ends = true) (depth : Nat) :
      text.take (linkSpan depth text) = [] := by
    obtain rfl | ⟨c, text, rfl, hc⟩ := SameUpTo.head_cases h
    · simp
    · simp [linkSpan, hends c hc]
  induction h generalizing depth with
  | cons hc h ih =>
    simp only [linkSpan]
    split
    · rfl
    · split
      · rw [List.take_succ_cons, List.take_succ_cons, ih]
      · split
        · cases depth with
          | zero => rfl
          | succ depth => simp only [List.take_succ_cons, ih]
        · rw [List.take_succ_cons, List.take_succ_cons, ih]
  | stop h h' => rw [hstop h, hstop h']

theorem continuesText_congr (c : Char) : continuesText c rest' = continuesText c rest := by
  have hcomment : ∀ d, ends d = true → (d = '/' || d = '*') = false := by
    intro d hd
    simp [ne_of_isBlank hends hd (d := '/') (by decide), ne_of_isBlank hends hd (d := '*') (by decide)]
  have hdash : ∀ d, ends d = true → (d = '-' || d = '?') = false := by
    intro d hd
    simp [ne_of_isBlank hends hd (d := '-') (by decide), ne_of_isBlank hends hd (d := '?') (by decide)]
  have hdots : ['.', '.'].any ends = false := by
    simp [ends_eq_false hends (d := '.') (by decide)]
  unfold continuesText
  rw [h.any_eq (ends_of_isBlank hends fun _ => isAlphanumeric_of_isSpace), h.any_eq hcomment,
    h.any_eq hdash, h.isPrefixOf_eq _ hdots, startsLink_congr h hends,
    h.any_eq (ends_of_isBlank hends fun _ => isLabelChar_of_isSpace)]

private theorem setsOffMarker_congr : setsOffMarker rest' = setsOffMarker rest := by
  refine h.all_eq fun c hc => ?_
  rw [hends c hc, Bool.or_true]

private theorem shorthand?_congr (c : Char) : shorthand? c rest' = shorthand? c rest := by
  have hdash : ∀ d, ends d = true → (d = '-' || d = '?') = false := by
    intro d hd
    simp [ne_of_isBlank hends hd (d := '-') (by decide), ne_of_isBlank hends hd (d := '?') (by decide)]
  have hdots : ['.', '.'].any ends = false := by
    simp [ends_eq_false hends (d := '.') (by decide)]
  have hdashes : ['-', '-'].any ends = false := by
    simp [ends_eq_false hends (d := '-') (by decide)]
  unfold shorthand?
  rw [h.isPrefixOf_eq _ hdots, h.isPrefixOf_eq _ hdashes, h.any_eq hdash,
    h.any_eq (ends_of_isBlank hends fun _ => isDigit_of_isSpace)]

omit h hends in
private theorem text_same {q : Char → Bool} (hq : ∀ c, ends c = true → q c = false) {n : Nat}
    (hn : (rest.takeWhile q).length = n) :
    SameOrText ends rest rest' (text n rest) (text n rest') := by
  subst hn
  exact .text hq rfl rfl

omit h hends in
private theorem text_zero : SameOrText ends rest rest' (text 0 rest) (text 0 rest') := by
  refine text_same (q := fun _ => false) (fun _ _ => rfl) ?_
  cases rest <;> rfl

/-- A marker behind characters of its own, or text that starts with these. -/
private theorem marker_cases {q : Char → Bool} (hq : ∀ c, ends c = true → q c = false) {kind : Kind}
    (hkind : kind ≠ .text) : SameOrText ends rest rest'
      (marker kind (rest.takeWhile q).length rest) (marker kind (rest'.takeWhile q).length rest') := by
  unfold marker
  rw [h.takeWhile_eq hq, setsOffMarker_congr (h.drop_takeWhile hq) hends]
  split
  · exact .same hkind rfl
  · exact text_same hq rfl

private theorem marker_zero_cases {kind : Kind} (hkind : kind ≠ .text) :
    SameOrText ends rest rest' (marker kind 0 rest) (marker kind 0 rest') := by
  have hnone (text : List Char) : (text.takeWhile fun _ => false).length = 0 := by
    cases text <;> rfl
  have hcases := marker_cases h hends (q := fun _ => false) (fun _ _ => rfl) hkind
  rwa [hnone, hnone] at hcases

omit h hends in
/-- A number that a point follows. -/
private theorem enumMarker_point {n : Nat} {behind : List Char}
    (hdigits : (rest.takeWhile isDigit).length = n) (hbehind : rest.drop n = '.' :: behind) :
    enumMarker rest = if setsOffMarker behind then { kind := .enumMarker, tail := n + 1 }
      else text n rest := by
  unfold enumMarker
  simp only [hdigits, hbehind]

omit h hends in
private theorem enumMarker_other {n : Nat} (hdigits : (rest.takeWhile isDigit).length = n)
    (hbehind : (rest.drop n).head? ≠ some '.') : enumMarker rest = text n rest := by
  unfold enumMarker
  simp only [hdigits]
  split
  · rename_i heq
    rw [heq] at hbehind
    exact absurd rfl hbehind
  · rfl

private theorem enumMarker_cases :
    SameOrText ends rest rest' (enumMarker rest) (enumMarker rest') := by
  have hq := ends_of_isBlank hends fun _ => isDigit_of_isSpace
  have hpoint : ends '.' = false := ends_eq_false hends (by decide)
  have hdigits : (rest'.takeWhile isDigit).length = (rest.takeWhile isDigit).length :=
    congrArg _ (h.takeWhile_eq hq)
  have hbehind := h.drop_takeWhile hq
  generalize hn : (rest.takeWhile isDigit).length = n at hdigits hbehind
  by_cases hhead : (rest.drop n).head? = some '.'
  · obtain ⟨behind, heq⟩ := List.head?_eq_some_iff.1 hhead
    obtain ⟨behind', heq'⟩ := List.head?_eq_some_iff.1 ((hbehind.head?_eq_iff hpoint).2 hhead)
    rw [enumMarker_point hn heq, enumMarker_point hdigits heq']
    rw [heq, heq'] at hbehind
    cases hbehind with
    | cons _ h =>
      rw [setsOffMarker_congr h hends]
      split
      · exact .same nofun rfl
      · exact text_same hq hn
    | stop h =>
      have hend : ends '.' = true := h
      rw [hpoint] at hend
      cases hend
  · rw [enumMarker_other hn hhead,
      enumMarker_other hdigits (mt (hbehind.head?_eq_iff hpoint).1 hhead)]
    exact text_same hq hn

private theorem markupMarker_cases {before before' : Option Char}
    (hbefore : before'.any isAlphanumeric = before.any isAlphanumeric) (c : Char) :
    SameOrText ends rest rest' (markupMarker before c rest) (markupMarker before' c rest') := by
  have hword : isInsideWord before' rest' = isInsideWord before rest := by
    unfold isInsideWord
    rw [hbefore, h.any_eq (ends_of_isBlank hends fun _ => isAlphanumeric_of_isSpace)]
  have heq : ∀ d, ends d = true → decide (d = '=') = false := by
    intro d hd
    simp [ne_of_isBlank hends hd (d := '=') (by decide)]
  unfold markupMarker
  rw [hword]
  split
  · exact .same (by decide) rfl
  split
  · exact .same (by decide) rfl
  split
  · exact marker_cases h hends heq (by decide)
  split
  · exact marker_zero_cases h hends (by decide)
  split
  · exact marker_zero_cases h hends (by decide)
  split
  · exact marker_zero_cases h hends (by decide)
  split
  · exact enumMarker_cases h hends
  · exact text_zero

/-- The rules of markup, but for those with an end of their own. -/
theorem markup_cases {before before' : Option Char}
    (hbefore : before'.any isAlphanumeric = before.any isAlphanumeric) {c : Char}
    (hbackslash : c ≠ '\\') (hraw : c ≠ '\x60') :
    SameOrText ends rest rest' (markup before c rest) (markup before' c rest') := by
  have hlabel := ends_of_isBlank hends fun _ => isLabelChar_of_isSpace
  have hspace : ∀ c, ends c = true → isSpace c = true := fun c hc =>
    Mode.isSpace_of_isBlank (hends c hc)
  unfold markup link refMarker
  simp only [hbackslash, hraw, if_false, startsLink_congr h hends, take_linkSpan_congr h hends,
    h.any_eq hlabel, h.takeWhile_eq hlabel, label?_congr h hspace, shorthand?_congr h hends]
  split
  · exact .same nofun rfl
  split
  · exact .same nofun rfl
  split
  · rename_i lexeme hsome
    refine .same ?_ rfl
    split at hsome
    · unfold label? at hsome
      dsimp only at hsome
      split at hsome
      · cases hsome
        nofun
      · cases hsome
    · cases hsome
  split
  · exact .same nofun rfl
  split
  · rename_i kind hkind
    refine .same ?_ rfl
    unfold markupPunctuation? at hkind
    split at hkind <;> cases hkind <;> decide
  · exact markupMarker_cases h hends hbefore c

end Markup

/-! ### Line breaks -/

private theorem continuesText_of_isLineBreak {c : Char} (h : isLineBreak c = true)
    (rest : List Char) : continuesText c rest = false := by
  unfold continuesText
  rw [if_pos (by simp [isMarkupSpecial, Mode.isBlank_of_isLineBreak h])]
  split <;> first | rfl | exact absurd h (by decide)

private theorem textSpan_congr (h : SameUpTo isLineBreak rest rest') :
    textSpan rest' = textSpan rest := by
  have hstop {text : List Char} (h : text.head?.all isLineBreak = true) : textSpan text = 0 := by
    obtain rfl | ⟨c, text, rfl, hc⟩ := SameUpTo.head_cases h
    · rfl
    · simp [textSpan, continuesText_of_isLineBreak hc]
  induction h with
  | cons hc h ih =>
    simp only [textSpan, ih, continuesText_congr h fun _ => Mode.isBlank_of_isLineBreak]
  | stop h h' => rw [hstop h, hstop h']

/-- A run of text does not go on past a line break either. -/
theorem markup_congr (h : SameUpTo isLineBreak rest rest') {before before' : Option Char}
    (hbefore : before'.any isAlphanumeric = before.any isAlphanumeric) {c : Char}
    (hbackslash : c ≠ '\\') (hraw : c ≠ '\x60') :
    markup before' c rest' = markup before c rest := by
  cases markup_cases h (fun _ => Mode.isBlank_of_isLineBreak) hbefore hbackslash hraw with
  | same _ heq => exact heq
  | text hq heq heq' =>
    rw [heq, heq']
    unfold text
    rw [textSpan_congr (h.drop_takeWhile hq)]

/-! ## Rules of more than one mode, by their first characters -/

/-- What a backslash is followed by, if not by a code point in braces. -/
theorem backslash_congr {ends : Char → Bool} (h : SameUpTo ends rest rest') {mode : Mode}
    (hends : ∀ c, ends c = true → mode.isBlank c = true)
    (hbrace : ¬['u', '{'].isPrefixOf rest) (hbrace' : ¬['u', '{'].isPrefixOf rest') :
    backslash mode rest' = backslash mode rest := by
  have hother {text : List Char} (htext : ¬['u', '{'].isPrefixOf text) :
      backslash mode text = if text.head?.all mode.isBlank then { kind := .linebreak, tail := 0 }
        else { kind := .escape, tail := 1, hasEscape := true } := by
    unfold backslash
    split
    · rfl
    · simp at htext
    · rfl
  rw [hother hbrace, hother hbrace', h.all_eq hends]

end Lexeme

end TypstFormat
