import TypstFormat.File.Store

/-!
# Reading behind a write

Writing changes what one file holds and moves nothing. So every path leads where it led before, and
a path that leads to the file that was written reads the new bytes; there are often several such
paths (`read_write`). A path that leads to another file reads what it read before
(`read_write_of_not_sameFile`).
-/

namespace TypstFormat.Store

variable {store : Store} {location : Location} {bytes : List UInt8}

theorem lookup_replaceAt_self {old : Entry} {entries : List (Location × Entry)}
    (h : entries.lookup location = some old) (entry : Entry) :
    (replaceAt location entry entries).lookup location = some entry := by
  induction entries with
  | nil => cases h
  | cons head entries ih =>
    obtain ⟨l, e⟩ := head
    by_cases hl : l = location
    · subst hl
      simp [replaceAt]
    · have hne : (location == l) = false := beq_false_of_ne (Ne.symm hl)
      rw [List.lookup_cons, hne] at h
      simp [replaceAt, hl, List.lookup_cons, hne, ih h]

/-- A store in which the file at a location holds other bytes. -/
def withFile (store : Store) (location : Location) (bytes : List UInt8) : Store :=
  { store with entries := replaceAt location (.file bytes) store.entries }

/-- A file has an entry of its own. -/
theorem lookup_of_find?_file (h : store.find? location = some (.file bytes)) :
    store.entries.lookup location = some (.file bytes) := by
  unfold find? at h
  cases hlookup : store.entries.lookup location with
  | some entry => simpa [hlookup] using h
  | none =>
    simp only [hlookup] at h
    split at h <;> cases h

theorem find?_withFile (h : store.find? location = some (.file bytes)) (new : List UInt8)
    (other : Location) :
    (store.withFile location new).find? other =
      if other = location then some (.file new) else store.find? other := by
  by_cases hother : other = location
  · subst hother
    rw [if_pos rfl, find?, withFile, lookup_replaceAt_self (lookup_of_find?_file h)]
  · have hkeys : (replaceAt location (.file new) store.entries).any
        (fun entry => other.isPrefixOf entry.1) =
          store.entries.any fun entry => other.isPrefixOf entry.1 := by
      have hany (entries : List (Location × Entry)) :
          (entries.any fun entry => other.isPrefixOf entry.1) =
            (entries.map Prod.fst).any other.isPrefixOf := by
        rw [List.any_map]
        rfl
      rw [hany, map_fst_replaceAt, ← hany]
    rw [if_neg hother, find?, withFile, lookup_replaceAt_of_ne hother, hkeys, find?]

/-- A walk leads to the same place, where only the bytes may be others. -/
theorem walk_withFile (h : store.find? location = some (.file bytes)) (new : List UInt8)
    (start : Location) (parts : List String) :
    (store.withFile location new).walk start parts =
      (store.walk start parts).map fun found =>
        (found.1, if found.1 = location then .file new else found.2) := by
  induction parts generalizing start with
  | nil =>
    unfold walk
    rw [find?_withFile h]
    by_cases hstart : start = location
    · subst hstart
      simp [h, Except.map]
    · cases hfind : store.find? start <;> simp [hstart, Except.map]
  | cons part parts ih =>
    unfold walk
    rw [find?_withFile h]
    by_cases hstart : start = location
    · subst hstart
      simp [h, Except.map]
    · cases hfind : store.find? start with
      | none => simp [hstart, Except.map]
      | some entry => cases entry <;> simp [hstart, ih, Except.map]

/-- Where a walk ends there is what it found. -/
theorem find?_of_walk {start found : Location} {parts : List String} {entry : Entry}
    (h : store.walk start parts = .ok (found, entry)) : store.find? found = some entry := by
  induction parts generalizing start with
  | nil =>
    unfold walk at h
    cases hfind : store.find? start with
    | none => simp [hfind] at h
    | some e =>
      simp only [hfind, Except.ok.injEq, Prod.mk.injEq] at h
      obtain ⟨rfl, rfl⟩ := h
      exact hfind
  | cons part parts ih =>
    unfold walk at h
    cases hfind : store.find? start with
    | none => simp [hfind] at h
    | some e =>
      cases e with
      | directory =>
        simp only [hfind] at h
        exact ih h
      | file bytes => simp [hfind] at h

/-- What a path leads to is a file if it can be read. -/
theorem resolve_of_read {path : Path} (h : store.read path = .ok bytes) :
    ∃ location, store.resolve path = .ok (location, .file bytes) := by
  unfold read at h
  split at h
  · rename_i location found heq
    cases h
    exact ⟨location, heq⟩
  · cases h
  · cases h

/-- Behind a write, every path leads where it led before, and the file that was written holds other
bytes. -/
theorem resolve_write {path : Path} (h : store.resolve path = .ok (location, .file bytes))
    (new : List UInt8) (other : Path) :
    (store.write path new).resolve other =
      (store.resolve other).map fun found =>
        (found.1, if found.1 = location then .file new else found.2) := by
  have hwrite : store.write path new = store.withFile location new := by
    rw [write, h, withFile]
  rw [hwrite]
  exact walk_withFile (find?_of_walk h) new _ _

/-- Behind a write, a path reads the new bytes if it leads to the same file. Otherwise it reads what
it read before. -/
theorem read_write {path : Path} (h : store.read path = .ok bytes) (new : List UInt8)
    (other : Path) :
    (store.read other = .ok bytes ∧ (store.write path new).read other = .ok new) ∨
      (store.write path new).read other = store.read other := by
  obtain ⟨location, hresolve⟩ := resolve_of_read h
  have hfind : store.find? location = some (.file bytes) := find?_of_walk hresolve
  unfold read
  rw [resolve_write hresolve]
  cases hfound : store.resolve other with
  | error error => exact .inr rfl
  | ok found =>
    obtain ⟨place, entry⟩ := found
    by_cases hplace : place = location
    · -- The file that was written, perhaps under another name.
      left
      have hentry : some entry = some (.file bytes) := by
        rw [← find?_of_walk hfound, hplace, hfind]
      rw [Option.some.inj hentry]
      simp [hplace, Except.map]
    · right
      simp [hplace, Except.map]

/-! ## Names of the same file -/

/-- The location of the file that a path leads to. -/
def location? (store : Store) (path : Path) : Option Location :=
  match store.resolve path with
  | .ok (location, .file _) => some location
  | _ => none

/-- Two paths lead to the same file. -/
def SameFile (store : Store) (path other : Path) : Prop :=
  ∃ location, store.location? path = some location ∧ store.location? other = some location

theorem SameFile.symm {path other : Path} (h : store.SameFile path other) :
    store.SameFile other path := by
  obtain ⟨location, hpath, hother⟩ := h
  exact ⟨location, hother, hpath⟩

end TypstFormat.Store
