import TypstFormat.Config.Value

/-!
# Tables under construction

A TOML file fills a tree of tables bit by bit. `Table.update?` changes the table that a dotted key
leads to, and makes those on the way that are missing. A `Draft` also remembers which keys are
settled: no table is declared twice, and nothing is added to a value that was written in one piece.

Entries keep the order in which they were written (`keys_set`).
-/

namespace TypstFormat.Toml

/-- The parts of a dotted key. -/
abbrev Key := List String

/-- The entries of a table, in the order in which they were written. -/
abbrev Table := List (String × Value)

namespace Table

/-- Gives the entry of a name another value. -/
def set (table : Table) (name : String) (value : Value) : Table :=
  table.map fun entry => if entry.1 = name then (name, value) else entry

/-- The names stay, in their order. -/
theorem keys_set (table : Table) (name : String) (value : Value) :
    (table.set name value).map Prod.fst = table.map Prod.fst := by
  simp only [set, List.map_map]
  congr 1
  funext entry
  by_cases h : entry.1 = name <;> simp [h]

/-- Adds an entry behind the others, unless there is one of that name. -/
def add? (table : Table) (name : String) (value : Value) : Option Table :=
  if (table.lookup name).isSome then none else some (table ++ [(name, value)])

/-- Changes the table that a key leads to. Of an array of tables the last one counts, if arrays are
entered at all. -/
def update? (entersArrays : Bool) (change : Table → Option Table) : Key → Table → Option Table
  | [], table => change table
  | name :: key, table =>
    match table.lookup name with
    | none => do
      let inner ← update? entersArrays change key []
      table.add? name (.table inner)
    | some (.table inner) => do
      return table.set name (.table (← update? entersArrays change key inner))
    | some (.array items) =>
      match entersArrays, items.getLast? with
      | true, some (.table inner) => do
        let inner ← update? entersArrays change key inner
        return table.set name (.array (items.dropLast ++ [.table inner]))
      | _, _ => none
    | some _ => none

/-- Adds an empty table to the array of tables of a name, which is made if there is none. -/
def append? (name : String) (table : Table) : Option Table :=
  match table.lookup name with
  | none => table.add? name (.array [.table []])
  | some (.array items) => some (table.set name (.array (items ++ [.table []])))
  | some _ => none

end Table

/-- The tables read so far. -/
structure Draft where
  table : Table := []
  /-- The key of the table that entries are added to. -/
  header : Key := []
  /-- The keys of the tables that may not be declared any more. -/
  declared : List Key := []
  /-- The keys of the tables that dotted keys have opened since the last header. They count as
  declared from the next header on. -/
  opened : List Key := []
  /-- The keys of the values that were written in one piece. -/
  complete : List Key := []
  deriving Repr

/-- Whether a value is one to which entries or items could be added. -/
def isContainer : Value → Bool
  | .table _ | .array _ => true
  | _ => false

namespace Draft

/-- Whether a key lies in a value that was written in one piece. -/
def isComplete (draft : Draft) (key : Key) : Bool :=
  draft.complete.any (·.isPrefixOf key)

/-- The keys on the way to a key, under the current header. -/
def waysTo (draft : Draft) (key : Key) : List Key :=
  (List.range (key.length - 1)).map fun n => draft.header ++ key.take (n + 1)

/-- Adds an entry to the current table. -/
def entry? (draft : Draft) (key : Key) (value : Value) : Option Draft := do
  let ways := draft.waysTo key
  let parent := draft.header ++ key.dropLast
  let whole := draft.header ++ key
  if ways.any draft.declared.contains ∨ draft.isComplete parent then
    none
  else
    let table ← draft.table.update? true (·.add? (key.getLastD "") value) parent
    return { draft with
      table
      opened := ways ++ draft.opened
      complete := if isContainer value then whole :: draft.complete else draft.complete }

/-- Adds an entry to an inline table. -/
def inlineEntry? (draft : Draft) (key : Key) (value : Value) : Option Draft := do
  if draft.isComplete key then
    none
  else
    let table ← draft.table.update? false (·.add? (key.getLastD "") value) key.dropLast
    return { draft with
      table
      complete := if isContainer value then key :: draft.complete else draft.complete }

/-- Settles the tables that dotted keys have opened, as a header follows. -/
def settle (draft : Draft) : Draft :=
  { draft with declared := draft.opened ++ draft.declared, opened := [] }

/-- Declares a table and goes to it. -/
def table? (draft : Draft) (key : Key) : Option Draft := do
  let draft := draft.settle
  if draft.declared.contains key ∨ draft.isComplete key then
    none
  else
    let table ← draft.table.update? true some key
    return { draft with table, header := key, declared := key :: draft.declared }

/-- Adds a table to an array of tables and goes to it. What was settled within the array before is
not settled within its new table. -/
def arrayTable? (draft : Draft) (key : Key) : Option Draft := do
  let draft := draft.settle
  if draft.isComplete key then
    none
  else
    let table ← draft.table.update? true (Table.append? (key.getLastD "")) key.dropLast
    return { draft with
      table
      header := key
      declared := key :: draft.declared.filter fun other => !key.isPrefixOf other
      complete := draft.complete.filter fun other => !key.isPrefixOf other }

end Draft

end TypstFormat.Toml
