import TypstFormat.Command.Run
import TypstFormat.Proofs.File.Store
import TypstFormat.Proofs.Layout.Document
import TypstFormat.Proofs.Text.Utf8

/-!
# Inputs do not disturb each other

An input that cannot be opened makes the status 1 and is told of in one line; all other inputs are
processed as if it had not been listed. An input whose bytes are no text, on the other hand, breaks
off the run. Nothing else does, as long as the options leave room for an indentation and the names
are names (`World.run_contained_or_undecodable`).

What a step does to the store can only make a file hold the bytes of a text where it held those of
another one. So it does not matter to an input which ones were processed before it (`World.Kept`).
-/

namespace TypstFormat

/-! ## Names -/

namespace Path

/-- The pieces of a text hold nothing but what the text holds. -/
theorem mem_of_mem_pieces {text piece : List Char} {c : Char} (hpiece : piece ∈ pieces text)
    (hc : c ∈ piece) : c ∈ text := by
  fun_induction pieces text generalizing piece with
  | case1 =>
    rw [List.mem_singleton.1 hpiece] at hc
    cases hc
  | case2 rest ih =>
    rcases List.mem_cons.1 hpiece with rfl | hpiece
    · cases hc
    · exact List.mem_cons_of_mem _ (ih hpiece hc)
  | case3 d rest _ hnil =>
    rw [List.mem_singleton.1 hpiece] at hc
    exact List.mem_cons.2 (.inl (List.mem_singleton.1 hc))
  | case4 d rest _ first more hmore ih =>
    rcases List.mem_cons.1 hpiece with rfl | hpiece
    · rcases List.mem_cons.1 hc with rfl | hc
      · exact List.mem_cons_self
      · exact List.mem_cons_of_mem _ (ih (hmore ▸ List.mem_cons_self) hc)
    · exact List.mem_cons_of_mem _ (ih (hmore ▸ List.mem_cons_of_mem _ hpiece) hc)

private theorem mem_intercalate {α : Type} {separator : List α} {parts : List (List α)} {a : α}
    (h : a ∈ separator.intercalate parts) : a ∈ separator ∨ ∃ part ∈ parts, a ∈ part := by
  induction parts with
  | nil => cases h
  | cons part parts ih =>
    cases parts with
    | nil =>
      rw [List.intercalate_singleton] at h
      exact .inr ⟨part, List.mem_cons_self, h⟩
    | cons next parts =>
      rw [List.intercalate_cons_cons, List.mem_append, List.mem_append] at h
      rcases h with (h | h) | h
      · exact .inr ⟨part, List.mem_cons_self, h⟩
      · exact .inl h
      · rcases ih h with h | ⟨other, hother, ha⟩
        · exact .inl h
        · exact .inr ⟨other, List.mem_cons_of_mem _ hother, ha⟩

/-- Besides dots and slashes, a path is written with the characters of its name. -/
theorem mem_text_ofString {name : String} {c : Char} (h : c ∈ (ofString name).text.toList) :
    c = '.' ∨ c = '/' ∨ c ∈ name.toList := by
  unfold text at h
  split at h
  · exact .inl (List.mem_singleton.1 h)
  · rw [String.toList_append, List.mem_append, String.toList_intercalate] at h
    rcases h with h | h
    · right; left
      cases hanchor : (ofString name).anchor <;> rw [hanchor] at h <;> simp [Anchor.text] at h
      · exact h
      · exact h
    · rcases mem_intercalate h with h | ⟨part, hpart, hc⟩
      · exact .inr (.inl (List.mem_singleton.1 h))
      · obtain ⟨name', hname', rfl⟩ := List.mem_map.1 hpart
        obtain ⟨piece, hpiece, rfl⟩ := List.mem_map.1 hname'
        rw [String.toList_ofList] at hc
        exact .inr (.inr (mem_of_mem_pieces (List.mem_filter.1 hpiece).1 hc))

end Path

/-! ## One text -/

/-- With room for an indentation, formatting returns. -/
theorem format_eq_ok (source : List Char) {options : Options}
    (hwidth : options.indentWidth ≤ Render.maxTextLength) (mode : Mode) :
    ∃ formatted, format source options mode = .ok formatted := by
  obtain ⟨parsed, drafts, hparse, -, -, hbuilt⟩ := parse_eq_ok source mode
  by_cases hclean : parsed.diagnostics = []
  · rw [format_eq_run hparse hbuilt hclean]
    rcases Layout.tree_writes parsed.source 0 parsed.tree (hbuilt.sound_tree hclean) { options } with
      ⟨text, context, hrun, -⟩ | ⟨hwide, -⟩
    · rw [hrun]
      exact ⟨_, rfl⟩
    · exact absurd hwidth (Nat.not_le_of_lt hwide)
  · exact ⟨_, format_eq_source hparse hbuilt hclean options⟩

namespace Arguments

theorem process_eq_ok (arguments : Arguments) (line : Notice → String) {options : Options}
    (hwidth : options.indentWidth ≤ Render.maxTextLength) (label : String) (file : Option Path)
    (text : List Char) :
    ∃ outcome, arguments.process line options label file text = .ok outcome := by
  obtain ⟨formatted, hformat⟩ := format_eq_ok text hwidth .markup
  unfold process
  rw [hformat]
  simp only [bind, Except.bind]
  split
  · exact ⟨_, rfl⟩
  · split
    · split <;> exact ⟨_, rfl⟩
    · cases file with
      | none => exact ⟨_, rfl⟩
      | some path =>
        simp only
        split <;> exact ⟨_, rfl⟩

end Arguments

namespace World

variable {world : World} {arguments : Arguments} {options : Options} {name : String}

/-! ## What an input is -/

/-- The bytes of an input, if it can be opened. -/
def bytes (world : World) (name : String) : Except FileError (List UInt8) :=
  if name = Arguments.inputName then .ok world.input else world.store.read (Path.ofString name)

/-- Whether an input can be opened. -/
def opens (world : World) (name : String) : Bool :=
  (world.bytes name).isOk

/-- Bytes that stand for a text. -/
def IsText (bytes : List UInt8) : Prop :=
  ∃ text, Text.Utf8.decode bytes = .ok text

theorem not_isText {bytes : List UInt8} {error : Text.Utf8Error}
    (h : Text.Utf8.decode bytes = .error error) : ¬IsText bytes := by
  rintro ⟨text, htext⟩
  rw [h] at htext
  cases htext

/-- An input is no obstacle: what it holds is a text, or it cannot be opened in the first place. -/
def Readable (world : World) (name : String) : Prop :=
  ∀ bytes, world.bytes name = .ok bytes → IsText bytes

theorem bytes_input (world : World) : world.bytes Arguments.inputName = .ok world.input :=
  if_pos rfl

theorem bytes_file (h : name ≠ Arguments.inputName) :
    world.bytes name = world.store.read (Path.ofString name) :=
  if_neg h

/-- All inputs are as they were, except that texts may have taken the place of texts. -/
def Kept (before after : World) : Prop :=
  ∀ name, after.bytes name = before.bytes name ∨
    ∃ old new, before.bytes name = .ok old ∧ after.bytes name = .ok new ∧ IsText old ∧ IsText new

namespace Kept

variable {after : World}

theorem refl (world : World) : Kept world world :=
  fun _ => .inl rfl

theorem opens_eq (h : Kept world after) : after.opens = world.opens := by
  funext name
  unfold opens
  rcases h name with h | ⟨old, new, hold, hnew, -⟩
  · rw [h]
  · rw [hold, hnew]
    rfl

theorem readable_iff (h : Kept world after) (name : String) :
    after.Readable name ↔ world.Readable name := by
  unfold Readable
  rcases h name with h | ⟨old, new, hold, hnew, htext, htext'⟩
  · rw [h]
  · rw [hold, hnew]
    constructor
    · rintro - bytes ⟨⟩
      exact htext
    · rintro - bytes ⟨⟩
      exact htext'

theorem bytes_of_error (h : Kept world after) {error : FileError}
    (herror : world.bytes name = .error error) : after.bytes name = .error error := by
  rcases h name with h | ⟨old, new, hold, -⟩
  · rw [h, herror]
  · rw [herror] at hold
    cases hold

theorem bytes_of_undecodable (h : Kept world after) {bytes : List UInt8}
    (hbytes : after.bytes name = .ok bytes) (htext : ¬IsText bytes) :
    world.bytes name = .ok bytes := by
  rcases h name with h | ⟨old, new, -, hnew, -, hnewText⟩
  · rw [← h, hbytes]
  · rw [hbytes] at hnew
    cases hnew
    exact absurd hnewText htext

end Kept

/-! ## One input -/

/-- What is told of an input that cannot be opened. -/
def refusal (error : FileError) (name : String) : List String :=
  ["error: " ++ error.message (Path.ofString name)]

theorem tell_tell (world : World) (lines more : List String) :
    (world.tell lines).tell more = world.tell (lines ++ more) := by
  simp [tell]

@[simp] theorem tell_line (world : World) (lines : List String) :
    (world.tell lines).line = world.line := rfl

/-- Processing inputs ends, and adds lines to those that were written before, whichever these are. -/
def Ends (world : World) (arguments : Arguments) (options : Options) (names : List String)
    (succeeded : Bool) (after : World) (lines : List String) : Prop :=
  ∀ earlier, (world.tell earlier).steps arguments options names =
    .ok (succeeded, after.tell (earlier ++ lines))

theorem Ends.nil (world : World) : Ends world arguments options [] true world [] := by
  intro earlier
  rw [List.append_nil]
  rfl

/-- One input after the other. -/
theorem Ends.cons {after final : World} {succeeded others : Bool} {lines more : List String}
    {names : List String}
    (hstep : ∀ earlier, (world.tell earlier).step arguments options name =
      .ok (succeeded, after.tell (earlier ++ lines)))
    (h : Ends after arguments options names others final more) :
    Ends world arguments options (name :: names) (succeeded && others) final (lines ++ more) := by
  intro earlier
  rw [steps, hstep earlier, ← List.append_assoc]
  simp only [bind, Except.bind]
  rw [h (earlier ++ lines)]
  rfl

theorem contains_null_eq_false (h : '\x00' ∉ name.toList) :
    (Path.ofString name).text.contains '\x00' = false := by
  rw [String.contains_char_eq, decide_eq_false_iff_not]
  intro hmem
  rcases Path.mem_text_ofString hmem with heq | heq | hmem
  · exact absurd heq (by decide)
  · exact absurd heq (by decide)
  · exact h hmem

variable (arguments options) in
/-- An input that cannot be opened is told of, and nothing else happens. -/
theorem step_refused {error : FileError} (hname : '\x00' ∉ name.toList)
    (h : world.bytes name = .error error) (earlier : List String) :
    (world.tell earlier).step arguments options name =
      .ok (false, world.tell (earlier ++ refusal error name)) := by
  have hfile : name ≠ Arguments.inputName := by
    rintro rfl
    rw [bytes_input] at h
    cases h
  rw [bytes_file hfile] at h
  have hread : (world.tell earlier).store.read (Path.ofString name) = .error error := h
  simp only [step, if_neg hfile, hread, Arguments.processFile, contains_null_eq_false hname,
    Bool.false_eq_true, if_false]
  rw [← tell_tell]
  simp [bind, Except.bind, pure, Except.pure, record, refusal, tell]

variable (arguments options) in
/-- An input that holds no text breaks off the run. -/
theorem step_undecodable {bytes : List UInt8} {error : Text.Utf8Error}
    (hname : '\x00' ∉ name.toList) (h : world.bytes name = .ok bytes)
    (hbytes : Text.Utf8.decode bytes = .error error) (earlier : List String) :
    (world.tell earlier).step arguments options name = .error (.undecodable error) := by
  by_cases hfile : name = Arguments.inputName
  · subst hfile
    rw [bytes_input] at h
    have hinput : (world.tell earlier).input = bytes := Except.ok.inj h
    simp only [step, if_true, hinput, Arguments.processInput, hbytes]
    rfl
  · rw [bytes_file hfile] at h
    have hread : (world.tell earlier).store.read (Path.ofString name) = .ok bytes := h
    simp only [step, if_neg hfile, hread, Arguments.processFile, contains_null_eq_false hname,
      Bool.false_eq_true, if_false, hbytes]
    rfl

variable (arguments) in
/-- An input that holds a text is processed. -/
theorem step_text {bytes : List UInt8} {text : List Char}
    (hwidth : options.indentWidth ≤ Render.maxTextLength)
    (hname : '\x00' ∉ name.toList) (h : world.bytes name = .ok bytes)
    (hbytes : Text.Utf8.decode bytes = .ok text) :
    ∃ succeeded after lines, Kept world after ∧
      ∀ earlier, (world.tell earlier).step arguments options name =
        .ok (succeeded, after.tell (earlier ++ lines)) := by
  by_cases hfile : name = Arguments.inputName
  · subst hfile
    rw [bytes_input] at h
    obtain ⟨outcome, hprocess⟩ := arguments.process_eq_ok world.line hwidth Arguments.inputLabel none
      (Text.unifyLineEnds text)
    refine ⟨outcome.succeeded,
      { world with output := world.output ++ outcome.printed, input := [] }, outcome.messages,
      ?_, ?_⟩
    · -- What is left of the standard input is the empty text.
      intro other
      by_cases hother : other = Arguments.inputName
      · subst hother
        exact .inr ⟨bytes, [], h, if_pos rfl, ⟨text, hbytes⟩, [], Text.Utf8.decode_encode []⟩
      · exact .inl (by rw [bytes_file hother, bytes_file hother])
    · intro earlier
      have hinput : (world.tell earlier).input = bytes := Except.ok.inj h
      simp only [step, if_true, hinput, tell_line, Arguments.processInput, hbytes, bind,
        Except.bind, Except.mapError, hprocess]
      simp [pure, Except.pure, record, tell]
  · rw [bytes_file hfile] at h
    obtain ⟨outcome, hprocess⟩ := arguments.process_eq_ok world.line hwidth (Path.ofString name).text
      (if arguments.stdout then none else some (Path.ofString name)) (Text.unifyLineEnds text)
    refine ⟨outcome.succeeded,
      { world with
        output := world.output ++ outcome.printed
        store := outcome.saved.elim world.store fun text =>
          world.store.write (Path.ofString name) (Text.Utf8.encode text) }, outcome.messages, ?_, ?_⟩
    · intro other
      by_cases hother : other = Arguments.inputName
      · subst hother
        exact .inl rfl
      · rw [bytes_file hother, bytes_file hother]
        cases outcome.saved with
        | none => exact .inl rfl
        | some saved =>
          -- The file holds the bytes of a text from now on, and so does each of its other names.
          rcases Store.read_write h (Text.Utf8.encode saved) (Path.ofString other) with
            ⟨hold, hnew⟩ | hsame
          · exact .inr ⟨bytes, _, hold, hnew, ⟨text, hbytes⟩, saved, Text.Utf8.decode_encode saved⟩
          · exact .inl hsame
    · intro earlier
      have hread : (world.tell earlier).store.read (Path.ofString name) = .ok bytes := h
      simp only [step, if_neg hfile, hread, tell_line, Arguments.processFile,
        contains_null_eq_false hname, Bool.false_eq_true, if_false, hbytes, bind, Except.bind,
        Except.mapError, hprocess]
      cases outcome.saved <;> simp [pure, Except.pure, record, tell]

/-! ## All inputs -/

/-- What is told of an input. -/
structure Report where
  name : String
  lines : List String

/-- The lines of reports, one after the other. -/
def told (reports : List Report) : List String :=
  reports.flatMap (·.lines)

/-- The inputs that can be opened are processed as they would be without the others, of which each
has its own line among those that are told. -/
structure Contained (world : World) (arguments : Arguments) (options : Options)
    (names : List String) (others : Bool) (after : World) (reports : List Report) : Prop where
  names_eq : reports.map (·.name) = names
  readable : ∀ name ∈ names, world.Readable name
  ends : Ends world arguments options names (others && names.all world.opens) after (told reports)
  ends_opened : Ends world arguments options (names.filter world.opens) others after
    (told (reports.filter fun report => world.opens report.name))
  refused : ∀ report ∈ reports, ∀ error, world.bytes report.name = .error error →
    report.lines = refusal error report.name

theorem Contained.nil (world : World) : Contained world arguments options [] true world [] :=
  ⟨rfl, by simp, .nil world, .nil world, by simp⟩

/-- One more input that cannot be opened. -/
theorem Contained.cons_refused {names : List String} {others : Bool} {after : World}
    {reports : List Report} {error : FileError} (hname : '\x00' ∉ name.toList)
    (hbytes : world.bytes name = .error error)
    (h : Contained world arguments options names others after reports) :
    Contained world arguments options (name :: names) others after
      (⟨name, refusal error name⟩ :: reports) := by
  have hopens : world.opens name = false := by
    rw [opens, hbytes]
    rfl
  refine ⟨?_, ?_, ?_, ?_, ?_⟩
  · rw [List.map_cons, h.names_eq]
  · refine List.forall_mem_cons.2 ⟨?_, h.readable⟩
    intro bytes heq
    rw [hbytes] at heq
    cases heq
  · have hends := Ends.cons (step_refused arguments options hname hbytes) h.ends
    rw [List.all_cons, hopens, Bool.false_and, Bool.and_false]
    exact hends
  · rw [List.filter_cons_of_neg (by simp [hopens]), List.filter_cons_of_neg (by simp [hopens])]
    exact h.ends_opened
  · refine List.forall_mem_cons.2 ⟨?_, h.refused⟩
    intro error' herror
    rw [hbytes] at herror
    cases herror
    rfl

/-- One more input that holds a text. -/
theorem Contained.cons_text {names : List String} {succeeded others : Bool} {next after : World}
    {lines : List String} {reports : List Report} {bytes : List UInt8}
    (hbytes : world.bytes name = .ok bytes) (htext : IsText bytes) (hkept : Kept world next)
    (hstep : ∀ earlier, (world.tell earlier).step arguments options name =
      .ok (succeeded, next.tell (earlier ++ lines)))
    (h : Contained next arguments options names others after reports) :
    Contained world arguments options (name :: names) (succeeded && others) after
      (⟨name, lines⟩ :: reports) := by
  have hopens : world.opens name = true := by
    rw [opens, hbytes]
    rfl
  refine ⟨?_, ?_, ?_, ?_, ?_⟩
  · rw [List.map_cons, h.names_eq]
  · refine List.forall_mem_cons.2 ⟨?_, fun other hother =>
      (hkept.readable_iff other).1 (h.readable other hother)⟩
    intro bytes' heq
    rw [hbytes] at heq
    cases heq
    exact htext
  · have hends := Ends.cons hstep h.ends
    rw [hkept.opens_eq] at hends
    rw [List.all_cons, hopens, Bool.true_and, Bool.and_assoc]
    exact hends
  · have hends := Ends.cons hstep h.ends_opened
    rw [hkept.opens_eq] at hends
    rw [List.filter_cons_of_pos hopens, List.filter_cons_of_pos (by exact hopens)]
    exact hends
  · refine List.forall_mem_cons.2 ⟨?_, fun report hreport error herror =>
      h.refused report hreport error (hkept.bytes_of_error herror)⟩
    intro error herror
    rw [hbytes] at herror
    cases herror

variable (arguments) in
/-- Inputs are contained, or the first one that holds no text breaks off the run. -/
theorem steps_contained_or_undecodable (hwidth : options.indentWidth ≤ Render.maxTextLength)
    (names : List String) (world : World) (hnames : ∀ name ∈ names, '\x00' ∉ name.toList) :
    (∃ name ∈ names, ∃ bytes error, world.bytes name = .ok bytes ∧
      Text.Utf8.decode bytes = .error error ∧ ∀ earlier,
        (world.tell earlier).steps arguments options names = .error (.undecodable error)) ∨
    ∃ others after reports, Contained world arguments options names others after reports := by
  induction names generalizing world with
  | nil => exact .inr ⟨true, world, [], .nil world⟩
  | cons name names ih =>
    obtain ⟨hname, hothers⟩ := List.forall_mem_cons.1 hnames
    -- What the rest does in the world that the first input leaves behind is what counts.
    have hrest {succeeded : Bool} {next : World} {lines : List String} (hkept : Kept world next)
        (hstep : ∀ earlier, (world.tell earlier).step arguments options name =
          .ok (succeeded, next.tell (earlier ++ lines)))
        (h : ∃ other ∈ names, ∃ bytes error, next.bytes other = .ok bytes ∧
          Text.Utf8.decode bytes = .error error ∧ ∀ earlier,
            (next.tell earlier).steps arguments options names = .error (.undecodable error)) :
        ∃ other ∈ name :: names, ∃ bytes error, world.bytes other = .ok bytes ∧
          Text.Utf8.decode bytes = .error error ∧ ∀ earlier,
            (world.tell earlier).steps arguments options (name :: names) =
              .error (.undecodable error) := by
      obtain ⟨other, hmem, bytes, error, hbytes, herror, hsteps⟩ := h
      refine ⟨other, List.mem_cons_of_mem _ hmem, bytes, error,
        hkept.bytes_of_undecodable hbytes (not_isText herror), herror, ?_⟩
      intro earlier
      rw [steps, hstep earlier]
      simp only [bind, Except.bind, hsteps]
    cases hbytes : world.bytes name with
    | error error =>
      have hstep := step_refused arguments options hname hbytes
      rcases ih world hothers with h | ⟨others, after, reports, h⟩
      · exact .inl (hrest (.refl world) hstep h)
      · exact .inr ⟨others, after, _, h.cons_refused hname hbytes⟩
    | ok bytes =>
      cases hdecode : Text.Utf8.decode bytes with
      | error error =>
        refine .inl ⟨name, List.mem_cons_self, bytes, error, hbytes, hdecode, ?_⟩
        intro earlier
        rw [steps, step_undecodable arguments options hname hbytes hdecode]
        rfl
      | ok text =>
        obtain ⟨succeeded, next, lines, hkept, hstep⟩ :=
          step_text arguments hwidth hname hbytes hdecode
        rcases ih next hothers with h | ⟨others, after, reports, h⟩
        · exact .inl (hrest hkept hstep h)
        · exact .inr ⟨_, after, _, .cons_text hbytes ⟨text, hdecode⟩ hkept hstep h⟩

/-! ## A run -/

variable (world arguments options) in
/-- With valid options, a run processes its inputs. -/
theorem run_eq (named : Option Path) (notices : List Notice)
    (hnamed : arguments.configPath = .ok named)
    (hoptions : world.options arguments named = (notices, .ok options)) :
    world.run arguments =
      ((world.tell (arguments.noticeLines world.line notices)).steps arguments options arguments.inputs).map
        fun ended => (if ended.1 then 0 else 1, ended.2) := by
  rw [run, hnamed]
  simp only [bind, Except.bind, hoptions]
  cases (world.tell (arguments.noticeLines world.line notices)).steps arguments options arguments.inputs <;> rfl

/-- With valid options, a run comes to its end unless an input holds bytes that are no text, which
breaks it off. The status is 1 if an input cannot be opened. All other inputs are processed as they
would be without those: the same files are written, the same is printed, and the same lines are told
of them, with one line in between for each input that cannot be opened. -/
theorem run_contained_or_undecodable (world : World) (arguments : Arguments) (options : Options)
    (named : Option Path) (notices : List Notice)
    (hnamed : arguments.configPath = .ok named)
    (hoptions : world.options arguments named = (notices, .ok options))
    (hwidth : options.indentWidth ≤ Render.maxTextLength)
    (hnames : ∀ name ∈ arguments.inputs, '\x00' ∉ name.toList) :
    (∃ name ∈ arguments.inputs, ∃ bytes error, world.bytes name = .ok bytes ∧
      Text.Utf8.decode bytes = .error error ∧
      world.run arguments = .error (.undecodable error)) ∨
    ((∀ name ∈ arguments.inputs, world.Readable name) ∧
      ∃ (others : Bool) (status : Nat) (after : World) (reports : List Report),
        reports.map (·.name) = arguments.inputs ∧
        (∀ report ∈ reports, ∀ error, world.bytes report.name = .error error →
          report.lines = refusal error report.name) ∧
        world.run arguments =
          .ok (status, after.tell (arguments.noticeLines world.line notices ++ told reports)) ∧
        status = (if others && arguments.inputs.all world.opens then 0 else 1) ∧
        (world.tell (arguments.noticeLines world.line notices)).steps arguments options
            (arguments.inputs.filter world.opens) =
          .ok (others, after.tell (arguments.noticeLines world.line notices
            ++ told (reports.filter fun report => world.opens report.name)))) := by
  rw [run_eq world arguments options named notices hnamed hoptions]
  rcases steps_contained_or_undecodable arguments hwidth arguments.inputs world hnames with
    ⟨name, hmem, bytes, error, hbytes, hdecode, hsteps⟩ | ⟨others, after, reports, h⟩
  · refine .inl ⟨name, hmem, bytes, error, hbytes, hdecode, ?_⟩
    rw [hsteps]
    rfl
  · refine .inr ⟨h.readable, others, _, after, reports, h.names_eq, h.refused, ?_, rfl,
      h.ends_opened _⟩
    rw [h.ends]
    rfl

/-- A world with one file in it. -/
private def withOneFile (name : String) (bytes : List UInt8) : World :=
  { store := { entries := [([name], .file bytes)] } }

/-- A file that is missing, in front of one that is there. -/
theorem run_contained_missing :
    ∃ after, (withOneFile "b.typ" [0x78]).run { names := ["a.typ", "b.typ"] } = .ok (1, after) := by
  have h := run_contained_or_undecodable (withOneFile "b.typ" [0x78])
    { names := ["a.typ", "b.typ"] } {} none [] rfl rfl (by decide) (by decide)
  have hmissing : (withOneFile "b.typ" [0x78]).bytes "a.typ" = .error .notFound := rfl
  have hthere : (withOneFile "b.typ" [0x78]).bytes "b.typ" = .ok [0x78] := rfl
  rcases h with ⟨name, hmem, bytes, error, hbytes, hdecode, -⟩ |
    ⟨-, others, status, after, reports, -, -, hrun, hstatus, -⟩
  · rcases List.mem_pair.1 hmem with rfl | rfl
    · rw [hmissing] at hbytes
      cases hbytes
    · rw [hthere] at hbytes
      cases hbytes
      have htext : Text.Utf8.decode [0x78] = .ok ['x'] := Text.Utf8.decode_encode ['x']
      rw [htext] at hdecode
      cases hdecode
  · have hone : status = 1 := by
      rw [hstatus]
      cases others <;> rfl
    exact ⟨_, hone ▸ hrun⟩

/-- A file with bytes that are no text breaks off the run. -/
theorem run_undecodable :
    (withOneFile "bad.typ" [0xff]).run { names := ["bad.typ"] } =
      .error (.undecodable { flaw := .start, offset := 0, first := 0xff }) := by
  have hdecode : Text.Utf8.decode [0xff] = .error { flaw := .start, offset := 0, first := 0xff } := by
    rw [Text.Utf8.decode, Text.Utf8.decodeFrom]
    rfl
  have hstep : ((withOneFile "bad.typ" [0xff]).tell []).step { names := ["bad.typ"] } {} "bad.typ" =
      .error (.undecodable { flaw := .start, offset := 0, first := 0xff }) :=
    step_undecodable _ _ (by decide) rfl hdecode []
  have hsteps : ((withOneFile "bad.typ" [0xff]).tell []).steps { names := ["bad.typ"] } {}
      ["bad.typ"] = .error (.undecodable { flaw := .start, offset := 0, first := 0xff }) := by
    rw [steps, hstep]
    rfl
  have hrun := run_eq (withOneFile "bad.typ" [0xff]) { names := ["bad.typ"] } {} none [] rfl rfl
  exact hrun.trans (congrArg (Except.map _) hsteps)

end World

end TypstFormat
