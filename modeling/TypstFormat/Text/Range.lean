/-!
# Offsets and ranges

A text is a list of characters and an offset counts characters from its start. A `Range` is a
half-open span of offsets and carries the proof that it does not end before it starts; `ofInts`
accepts exactly the pairs of integers for which there is such a span.
-/

namespace TypstFormat.Text

/-- The characters from offset `start` up to offset `stop`. -/
structure Range where
  start : Nat
  stop : Nat
  start_le_stop : start ≤ stop := by omega
  deriving DecidableEq, Repr

/-- Why integers do not make an offset or a range. -/
inductive RangeError where
  /-- An offset below zero. -/
  | negativeOffset (value : Int)
  /-- A range that starts below zero or ends before it starts. -/
  | invalid (start stop : Int)
  deriving DecidableEq, Repr

namespace RangeError

def message : RangeError → String
  | negativeOffset value => s!"Offset cannot be negative: {value}"
  | invalid start stop => s!"Invalid range {start}..{stop}"

end RangeError

/-- The offset that an integer stands for. -/
def offsetOfInt : Int → Except RangeError Nat
  | .ofNat n => .ok n
  | value => .error (.negativeOffset value)

/-- How an offset is shown. -/
def describeOffset (offset : Nat) : String :=
  s!"TextSize({offset})"

namespace Range

/-- The range of no characters at an offset, between two tokens. -/
def empty (offset : Nat) : Range :=
  ⟨offset, offset, Nat.le_refl _⟩

/-- The range of `length` characters from `start` on. -/
def ofLength (start length : Nat) : Range :=
  ⟨start, start + length, Nat.le_add_right _ _⟩

/-- The range between two integers. -/
def ofInts : Int → Int → Except RangeError Range
  | .ofNat start, .ofNat stop =>
    if h : start ≤ stop then .ok ⟨start, stop, h⟩ else .error (.invalid start stop)
  | start, stop => .error (.invalid start stop)

def length (range : Range) : Nat :=
  range.stop - range.start

/-- The characters of `text` inside the range; a range that reaches past the end is cut there. -/
def slice (range : Range) (text : List Char) : List Char :=
  (text.drop range.start).take range.length

/-- How a range is shown. -/
def describe (range : Range) : String :=
  s!"TextRange({range.start}, {range.stop})"

/-- Ranges are ordered by where they start, and then by where they end. -/
instance : LT Range :=
  ⟨fun a b => a.start < b.start ∨ (a.start = b.start ∧ a.stop < b.stop)⟩

instance (a b : Range) : Decidable (a < b) :=
  inferInstanceAs (Decidable (_ ∨ _))

@[simp] theorem start_empty (offset : Nat) : (empty offset).start = offset := rfl

@[simp] theorem stop_empty (offset : Nat) : (empty offset).stop = offset := rfl

@[simp] theorem start_ofLength (start length : Nat) : (ofLength start length).start = start := rfl

@[simp] theorem stop_ofLength (start length : Nat) :
    (ofLength start length).stop = start + length := rfl

/-- `ofInts` accepts exactly the offsets of a range. -/
theorem ofInts_eq_ok_iff {start stop : Int} {range : Range} :
    ofInts start stop = .ok range ↔ (range.start : Int) = start ∧ (range.stop : Int) = stop := by
  obtain ⟨s, e, h⟩ := range
  cases start with
  | negSucc n => simp [ofInts]
  | ofNat n =>
    cases stop with
    | negSucc m => simp [ofInts]
    | ofNat m =>
      simp only [ofInts, Int.ofNat_eq_natCast, Int.natCast_inj]
      by_cases hle : n ≤ m
      · simp [hle, eq_comm]
      · simp only [hle, dite_false, reduceCtorEq, false_iff]
        omega

end Range

end TypstFormat.Text
