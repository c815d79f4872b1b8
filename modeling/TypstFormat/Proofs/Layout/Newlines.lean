import TypstFormat.Proofs.Layout.Alone
import TypstFormat.Proofs.Token.Lexeme

/-!
# Line breaks in white space

Line breaks are counted twice: when white space is read, by the characters that end a line, and when
it is written, by the lines that it is cut into. It is also cut behind separators that do not end a
line, but these lines are not counted. So both counts come to the same number.

## Key results

- `Text.countP_splitLines`: as many lines end as line breaks were read
- `Layout.space_run`, `Layout.space_normal`: what a space is written as
- `Layout.normalSpace_idem`: the normal form of white space stays as it is
- `Layout.parbreak_eq`: what the break between two paragraphs is written as
-/

namespace TypstFormat

namespace Text

/-- What does not separate lines does not end one either. -/
theorem isLineBreak_eq_false {c : Char} (h : ¬isLineSeparator c = true) :
    isLineBreak c = false := by
  rw [Bool.eq_false_iff]
  exact fun hc => h (by simp [isLineSeparator, hc])

/-- The lines that end with a line break are as many as the line breaks that are read. -/
theorem countP_splitLines (text : List Char) :
    (splitLines text).countP (fun line => line.getLast?.any isLineBreak) =
      Lexeme.lineBreaks text := by
  fun_induction splitLines text with
  | case1 => rfl
  | case2 rest ih =>
    rw [List.countP_cons_of_pos (by decide), ih]
    rfl
  | case3 c rest hpair hseparator ih =>
    rw [Lexeme.lineBreaks.eq_3 _ _ hpair, List.countP_cons, ih]
    cases hc : isLineBreak c <;> simp [hc]
  | case4 c rest hpair hplain hrest ih =>
    have hc := isLineBreak_eq_false hplain
    rw [hrest] at ih
    rw [Lexeme.lineBreaks.eq_3 _ _ hpair, ← ih, hc]
    simp [hc]
  | case5 c rest hpair hplain line lines hrest ih =>
    have hc := isLineBreak_eq_false hplain
    have hne : line ≠ [] := ne_nil_of_mem_splitLines (hrest ▸ List.mem_cons_self)
    rw [hrest, List.countP_cons] at ih
    rw [Lexeme.lineBreaks.eq_3 _ _ hpair, ← ih, hc, List.countP_cons,
      List.getLast?_cons_of_ne_nil hne]
    rfl

/-- Only at its end, a line holds line breaks. -/
theorem isLineBreak_eq_false_of_mem {text line : List Char} (h : line ∈ splitLines text)
    (hlast : line.getLast?.any isLineBreak = false) : ∀ c ∈ line, isLineBreak c = false := by
  fun_induction splitLines text generalizing line with
  | case1 => cases h
  | case2 rest ih =>
    rcases List.mem_cons.1 h with rfl | h
    · cases hlast
    · exact ih h hlast
  | case3 c rest _ _ ih =>
    rcases List.mem_cons.1 h with rfl | h
    · simpa using hlast
    · exact ih h hlast
  | case4 c rest _ _ hrest ih =>
    obtain rfl := List.mem_singleton.1 h
    simpa using hlast
  | case5 c rest _ hplain line' lines hrest ih =>
    rcases List.mem_cons.1 h with rfl | h
    · have hmem : line' ∈ splitLines rest := hrest ▸ List.mem_cons_self
      rw [List.getLast?_cons_of_ne_nil (ne_nil_of_mem_splitLines hmem)] at hlast
      exact List.forall_mem_cons.2 ⟨isLineBreak_eq_false hplain, ih hmem hlast⟩
    · exact ih (hrest ▸ List.mem_cons_of_mem _ h) hlast

theorem splitLines_cons {c : Char} (h : c ≠ '\r') (text : List Char) :
    splitLines (c :: text) = if isLineSeparator c then [c] :: splitLines text else
      match splitLines text with
      | [] => [[c]]
      | line :: lines => (c :: line) :: lines :=
  splitLines.eq_3 c text fun _ hc => absurd hc h

theorem splitLines_singleton (c : Char) : splitLines [c] = [[c]] := by
  rw [splitLines.eq_3 c [] nofun]
  split <;> rfl

/-- A line that does not end with a line break is cut nowhere. -/
theorem splitLines_of_mem {text line : List Char} (h : line ∈ splitLines text)
    (hlast : line.getLast?.any isLineBreak = false) : splitLines line = [line] := by
  fun_induction splitLines text generalizing line with
  | case1 => cases h
  | case2 rest ih =>
    rcases List.mem_cons.1 h with rfl | h
    · cases hlast
    · exact ih h hlast
  | case3 c rest _ hseparator ih =>
    rcases List.mem_cons.1 h with rfl | h
    · exact splitLines_singleton c
    · exact ih h hlast
  | case4 c rest _ _ hrest ih =>
    obtain rfl := List.mem_singleton.1 h
    exact splitLines_singleton c
  | case5 c rest _ hplain line' lines hrest ih =>
    rcases List.mem_cons.1 h with rfl | h
    · have hmem : line' ∈ splitLines rest := hrest ▸ List.mem_cons_self
      rw [List.getLast?_cons_of_ne_nil (ne_nil_of_mem_splitLines hmem)] at hlast
      have hreturn : c ≠ '\r' := fun hc => hplain (hc ▸ by decide)
      rw [splitLines_cons hreturn, if_neg hplain, ih hmem hlast]
    · exact ih (hrest ▸ List.mem_cons_of_mem _ h) hlast

theorem splitLines_feeds (n : Nat) (text : List Char) :
    splitLines (List.replicate n '\n' ++ text) = List.replicate n ['\n'] ++ splitLines text := by
  induction n with
  | zero => rfl
  | succ n ih =>
    rw [List.replicate_succ, List.replicate_succ, List.cons_append, List.cons_append, ← ih,
      splitLines_cons (by decide), if_pos (by decide)]

theorem lineBreaks_feeds (n : Nat) (text : List Char) :
    Lexeme.lineBreaks (List.replicate n '\n' ++ text) = n + Lexeme.lineBreaks text := by
  rw [← countP_splitLines, ← countP_splitLines, splitLines_feeds, List.countP_append,
    List.countP_replicate, if_pos (by decide)]

theorem any_isLineBreak_of_head? {text : List Char} (h : text.head?.any isLineBreak = true) :
    text.any isLineBreak = true := by
  obtain ⟨c, hc, hbreak⟩ := (Option.any_eq_true _ _).1 h
  exact List.any_eq_true.2 ⟨c, List.mem_of_mem_head? hc, hbreak⟩

/-- The last line is the end of the text. -/
theorem exists_append_getLast {text line : List Char} (h : (splitLines text).getLast? = some line) :
    ∃ front, text = front ++ line := by
  obtain ⟨lines, hlines⟩ := List.getLast?_eq_some_iff.1 h
  refine ⟨lines.flatten, ?_⟩
  rw [← flatten_splitLines text, hlines, List.flatten_append, List.flatten_singleton]

end Text

namespace Render

/-- Behind other text, no more than two line feeds are written. -/
theorem emitNewlines_run (n : Nat) (context : Context) : ∃ after, (emitNewlines n).run context =
      .ok (List.replicate (min n (maxNewlines - context.newlines)) '\n', after) ∧
    after.options = context.options := by
  induction n generalizing context with
  | zero => exact ⟨context, by rw [Nat.zero_min]; rfl, rfl⟩
  | succ n ih =>
    have hemit : (emit ['\n']).run context =
        .ok (if context.newlines < maxNewlines then
            (['\n'], { context with newlines := context.newlines + 1 })
          else ([], context.note .suppressedNewline)) := rfl
    unfold emitNewlines
    by_cases hless : context.newlines < maxNewlines
    · rw [if_pos hless] at hemit
      obtain ⟨after, hrun, hoptions⟩ := ih { context with newlines := context.newlines + 1 }
      have hmin : min (n + 1) (maxNewlines - context.newlines) =
          min n (maxNewlines - (context.newlines + 1)) + 1 := by omega
      rw [run_bind_of_ok hemit, run_bind_of_ok hrun, hmin, List.replicate_succ]
      exact ⟨after, rfl, hoptions⟩
    · rw [if_neg hless] at hemit
      obtain ⟨after, hrun, hoptions⟩ := ih (context.note .suppressedNewline)
      rw [run_bind_of_ok hemit, run_bind_of_ok hrun]
      refine ⟨after, ?_, hoptions⟩
      -- Neither this line feed is written nor one of those behind it.
      show Except.ok (List.replicate (min n (maxNewlines - context.newlines)) '\n', after) = _
      rw [Nat.sub_eq_zero_of_le (Nat.le_of_not_lt hless), Nat.min_zero, Nat.min_zero]

theorem emitNewlines_eq {n : Nat} {context after : Context} {text : List Char}
    (hrun : (emitNewlines n).run context = .ok (text, after)) :
    text = List.replicate (min n (maxNewlines - context.newlines)) '\n' := by
  obtain ⟨_, heq, -⟩ := emitNewlines_run n context
  exact (Prod.mk.inj (Except.ok.inj (hrun.symm.trans heq))).1

end Render

namespace Layout

open Render

/-- What a space is written as: one space if it does not contain a newline, and else its line
breaks, of which at most two are kept, with an end of it that holds no line break. -/
structure NormalSpace (containsNewline : Bool) (own written : List Char) : Prop where
  space : containsNewline = false → written = [' ']
  newlines : containsNewline = true → ∃ indentation, indentation <:+ own ∧
    (∀ c ∈ indentation, Text.isLineBreak c = false) ∧
    written = List.replicate (min (Lexeme.lineBreaks own) 2) '\n' ++ indentation

/-- The indentation of the next line. -/
def indentation (own : List Char) : List Char :=
  if own.getLast?.any Text.isLineBreak then [] else (Text.splitLines own).getLast?.getD []

theorem indentation_cases (own : List Char) : indentation own = [] ∨
    (Text.splitLines own).getLast? = some (indentation own) ∧
      (indentation own).getLast?.any Text.isLineBreak = false := by
  unfold indentation
  split
  · exact .inl rfl
  · rename_i hends
    cases hlast : (Text.splitLines own).getLast? with
    | none => exact .inl rfl
    | some line =>
      obtain ⟨front, heq⟩ := Text.exists_append_getLast hlast
      have hmem := List.mem_of_getLast? hlast
      rw [heq, List.getLast?_append_of_ne_nil _ (Text.ne_nil_of_mem_splitLines hmem)] at hends
      exact .inr ⟨rfl, by simpa using hends⟩

/-- The indentation of the next line is what stands behind the last line break. -/
theorem indentation_normal (own : List Char) :
    indentation own <:+ own ∧ ∀ c ∈ indentation own, Text.isLineBreak c = false := by
  rcases indentation_cases own with hnil | ⟨hline, hends⟩
  · rw [hnil]
    exact ⟨List.nil_suffix, by simp⟩
  · obtain ⟨front, heq⟩ := Text.exists_append_getLast hline
    exact ⟨⟨front, heq.symm⟩,
      Text.isLineBreak_eq_false_of_mem (List.mem_of_getLast? hline) hends⟩

/-- Behind line feeds, an indentation stays what it is. -/
theorem indentation_feeds {n : Nat} (hpos : 0 < n) (own : List Char) :
    indentation (List.replicate n '\n' ++ indentation own) = indentation own := by
  rcases indentation_cases own with hnil | ⟨hline, hends⟩
  · obtain ⟨n, rfl⟩ := Nat.exists_eq_add_one_of_ne_zero (Nat.ne_of_gt hpos)
    rw [hnil, List.append_nil, indentation, if_pos]
    rw [List.replicate_succ', List.getLast?_concat]
    decide
  · have hmem := List.mem_of_getLast? hline
    have hne := Text.ne_nil_of_mem_splitLines hmem
    rw [indentation.eq_1 (_ ++ _), List.getLast?_append_of_ne_nil _ hne, hends,
      if_neg Bool.false_ne_true, Text.splitLines_feeds, Text.splitLines_of_mem hmem hends,
      List.getLast?_concat]
    rfl

/-- The normal form of white space. -/
def normalSpace (own : List Char) : List Char :=
  if Lexeme.lineBreaks own = 0 then [' ']
  else List.replicate (min (Lexeme.lineBreaks own) maxNewlines) '\n' ++ indentation own

/-- No more than two line breaks are kept. -/
theorem lineBreaks_normalSpace (own : List Char) :
    Lexeme.lineBreaks (normalSpace own) = min (Lexeme.lineBreaks own) maxNewlines := by
  have hplain : Lexeme.lineBreaks (indentation own) = 0 := by
    by_contra hpos
    obtain ⟨c, hc, hbreak⟩ := Lexeme.lineBreaks_pos_iff.1 (Nat.pos_of_ne_zero hpos)
    rw [(indentation_normal own).2 c hc] at hbreak
    cases hbreak
  unfold normalSpace
  split
  · rename_i hzero
    rw [hzero]
    decide
  · rw [Text.lineBreaks_feeds, hplain, Nat.add_zero]

/-- A line ends in the normal form where one ended in the white space. -/
theorem any_isLineBreak_normalSpace (own : List Char) :
    (normalSpace own).any Text.isLineBreak = own.any Text.isLineBreak := by
  rw [Bool.eq_iff_iff, List.any_eq_true, List.any_eq_true, ← Lexeme.lineBreaks_pos_iff,
    ← Lexeme.lineBreaks_pos_iff, lineBreaks_normalSpace, Nat.lt_min]
  exact and_iff_left (by decide)

/-- Line breaks come first. -/
theorem head?_normalSpace {own : List Char} (h : own.any Text.isLineBreak = true) :
    (normalSpace own).head? = some '\n' := by
  have hpos := Lexeme.lineBreaks_pos_iff.2 (List.any_eq_true.1 h)
  obtain ⟨n, hn⟩ : ∃ n, min (Lexeme.lineBreaks own) maxNewlines = n + 1 :=
    Nat.exists_eq_add_one_of_ne_zero (Nat.ne_of_gt (Nat.lt_min.2 ⟨hpos, by decide⟩))
  rw [normalSpace, if_neg (Nat.ne_of_gt hpos), hn]
  rfl

/-- Where no line ends, a single space is left. -/
theorem normalSpace_eq_space {own : List Char} (h : own.any Text.isLineBreak = false) :
    normalSpace own = [' '] := by
  have hzero : Lexeme.lineBreaks own = 0 := by
    refine Nat.eq_zero_of_not_pos fun hpos => ?_
    rw [List.any_eq_true.2 (Lexeme.lineBreaks_pos_iff.1 hpos)] at h
    cases h
  exact if_pos hzero

theorem normalSpace_ne_nil (own : List Char) : normalSpace own ≠ [] := by
  cases hbreak : own.any Text.isLineBreak with
  | true => exact List.ne_nil_of_mem (List.mem_of_mem_head? (head?_normalSpace hbreak))
  | false =>
    rw [normalSpace_eq_space hbreak]
    exact List.cons_ne_nil _ _

/-- Normal white space holds spaces, line feeds, and what stands behind the last line break. -/
theorem mem_normalSpace {own : List Char} {c : Char} (h : c ∈ normalSpace own) :
    c = ' ' ∨ c = '\n' ∨ c ∈ own ∧ Text.isLineBreak c = false := by
  obtain ⟨hsuffix, hplain⟩ := indentation_normal own
  unfold normalSpace at h
  split at h
  · exact .inl (List.mem_singleton.1 h)
  · rcases List.mem_append.1 h with h | h
    · exact .inr (.inl (List.eq_of_mem_replicate h))
    · exact .inr (.inr ⟨hsuffix.subset h, hplain c h⟩)

/-- White space in its normal form is its own normal form. -/
theorem normalSpace_idem (own : List Char) : normalSpace (normalSpace own) = normalSpace own := by
  by_cases hzero : Lexeme.lineBreaks own = 0
  · rw [normalSpace.eq_1 own, if_pos hzero]
    decide
  · have hpos : 0 < min (Lexeme.lineBreaks own) maxNewlines :=
      Nat.lt_min.2 ⟨Nat.pos_of_ne_zero hzero, by decide⟩
    rw [normalSpace, lineBreaks_normalSpace, if_neg (Nat.ne_of_gt hpos),
      Nat.min_eq_left (Nat.min_le_right _ _), normalSpace, if_neg hzero, indentation_feeds hpos]

theorem normalSpace_normal (own : List Char) :
    NormalSpace (0 < Lexeme.lineBreaks own) own (normalSpace own) := by
  obtain ⟨hsuffix, hplain⟩ := indentation_normal own
  refine ⟨fun hzero => ?_, fun hpos => ⟨_, hsuffix, hplain, ?_⟩⟩
  · exact if_pos (Nat.eq_zero_of_not_pos (of_decide_eq_false hzero))
  · exact if_neg (Nat.ne_of_gt (of_decide_eq_true hpos))

/-- Behind other text, a space is written in its normal form. -/
theorem space_run (own : List Char) {context : Context} (hnewlines : context.newlines = 0) :
    ∃ after, (space own).run context = .ok (normalSpace own, after) ∧
      after.options = context.options := by
  unfold space normalSpace
  simp only [Text.countP_splitLines]
  split
  · exact ⟨context, rfl, rfl⟩
  · obtain ⟨after, hrun, hoptions⟩ := emitNewlines_run (Lexeme.lineBreaks own) context
    rw [hnewlines] at hrun
    exact ⟨after, run_bind_of_ok hrun, hoptions⟩

theorem space_normal {own written : List Char} {context after : Context}
    (hnewlines : context.newlines = 0)
    (hrun : (space own).run context = .ok (written, after)) :
    NormalSpace (0 < Lexeme.lineBreaks own) own written := by
  obtain ⟨_, heq, -⟩ := space_run own hnewlines
  obtain ⟨rfl, -⟩ := Prod.mk.inj (Except.ok.inj (hrun.symm.trans heq))
  exact normalSpace_normal own

/-- Between two paragraphs, one line is left empty. -/
theorem parbreak_eq {own written : List Char} {context after : Context}
    (hnewlines : context.newlines = 0) (hbreaks : 2 ≤ Lexeme.lineBreaks own)
    (hrun : (parbreak own).run context = .ok (written, after)) : written = ['\n', '\n'] := by
  have hlength : 2 ≤ (Text.splitLines own).length := by
    rw [← Text.countP_splitLines] at hbreaks
    exact Nat.le_trans hbreaks List.countP_le_length
  rw [emitNewlines_eq hrun, hnewlines, Nat.min_eq_right (show maxNewlines - 0 ≤ _ from hlength)]
  rfl

end Layout

end TypstFormat
