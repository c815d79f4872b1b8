import TypstFormat.File.Path
import TypstFormat.Text.Quoted

/-!
# Files

A `Store` holds files and directories at their locations and has a working directory. A path is
resolved part by part, so that every part but the last must lead to a directory, also where two dots
lead back from it. Writing replaces what one file holds, and all else stays as it is
(`lookup_replaceAt_of_ne`).
-/

namespace TypstFormat

/-- Where a file is: the names of the directories from the top on, and its own. -/
abbrev Location := List String

inductive Entry where
  | file (bytes : List UInt8)
  | directory
  deriving DecidableEq, Repr

/-- Why a file cannot be opened. -/
inductive FileError where
  | notFound
  | denied
  | notDirectory
  | isDirectory
  /-- Any other cause, with its number. -/
  | other (number : Nat) (reason : String)
  deriving DecidableEq, Repr

namespace FileError

def number : FileError → Nat
  | notFound => 2
  | denied => 13
  | notDirectory => 20
  | isDirectory => 21
  | other number _ => number

def reason : FileError → String
  | notFound => "No such file or directory"
  | denied => "Permission denied"
  | notDirectory => "Not a directory"
  | isDirectory => "Is a directory"
  | other _ reason => reason

def message (error : FileError) (path : Path) : String :=
  s!"[Errno {error.number}] {error.reason}: " ++ Text.quotedString path.text

end FileError

structure Store where
  /-- The entries. Directories above an entry need none of their own. -/
  entries : List (Location × Entry) := []
  /-- The working directory. -/
  workingDirectory : Location := []
  deriving Repr

namespace Store

/-- What is at a location. -/
def find? (store : Store) (location : Location) : Option Entry :=
  match store.entries.lookup location with
  | some entry => some entry
  | none =>
    if location = [] ∨ store.entries.any fun entry => location.isPrefixOf entry.1 then
      some .directory
    else
      none

/-- The location that one part leads to. Above the top there is only the top. -/
def step (location : Location) (part : String) : Location :=
  if part = ".." then location.dropLast else location ++ [part]

/-- The location that parts lead to, and what is there. -/
def walk (store : Store) (location : Location) (parts : List String) :
    Except FileError (Location × Entry) :=
  match store.find? location, parts with
  | none, _ => .error .notFound
  | some entry, [] => .ok (location, entry)
  | some .directory, part :: parts => store.walk (step location part) parts
  | some (.file _), _ :: _ => .error .notDirectory
termination_by structural parts

/-- The location that a path leads to, and what is there. -/
def resolve (store : Store) (path : Path) : Except FileError (Location × Entry) :=
  store.walk (if path.anchor = .here then store.workingDirectory else []) path.parts

/-- Whether a path leads to a file. -/
def isFile (store : Store) (path : Path) : Bool :=
  match store.resolve path with
  | .ok (_, .file _) => true
  | _ => false

/-- What the file holds that a path leads to. -/
def read (store : Store) (path : Path) : Except FileError (List UInt8) :=
  match store.resolve path with
  | .ok (_, .file bytes) => .ok bytes
  | .ok (_, .directory) => .error .isDirectory
  | .error error => .error error

/-- Entries in which the one at a location is replaced. -/
def replaceAt (location : Location) (entry : Entry) :
    List (Location × Entry) → List (Location × Entry)
  | [] => []
  | (l, e) :: entries =>
    if l = location then (l, entry) :: entries else (l, e) :: replaceAt location entry entries

/-- Replaces what the file holds that a path leads to. -/
def write (store : Store) (path : Path) (bytes : List UInt8) : Store :=
  match store.resolve path with
  | .ok (location, .file _) =>
    { store with entries := replaceAt location (.file bytes) store.entries }
  | _ => store

theorem map_fst_replaceAt (location : Location) (entry : Entry)
    (entries : List (Location × Entry)) :
    (replaceAt location entry entries).map Prod.fst = entries.map Prod.fst := by
  induction entries with
  | nil => rfl
  | cons head entries ih =>
    obtain ⟨l, e⟩ := head
    by_cases h : l = location <;> simp [replaceAt, h, ih]

/-- At all other locations the entries stay. -/
theorem lookup_replaceAt_of_ne {location other : Location} (h : other ≠ location) (entry : Entry)
    (entries : List (Location × Entry)) :
    (replaceAt location entry entries).lookup other = entries.lookup other := by
  induction entries with
  | nil => rfl
  | cons head entries ih =>
    obtain ⟨l, e⟩ := head
    by_cases hl : l = location
    · subst hl
      simp [replaceAt, List.lookup_cons, beq_false_of_ne h]
    · simp [replaceAt, hl, List.lookup_cons, ih]

end Store

end TypstFormat
