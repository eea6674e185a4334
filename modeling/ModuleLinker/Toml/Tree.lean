import ModuleLinker.Collections.OrderedMap
import ModuleLinker.Document
import ModuleLinker.Text.Order

/-!
# Tables under construction

The tables of a TOML text are built up line by line.  How a table came to be
decides what may still be added to it: a header opens a table once, a dotted key
extends only tables that dotted keys have made, and a table that was merely
passed through can still be opened.
-/

namespace ModuleLinker

namespace Toml

/-- How a table came to be: opened by a header, passed through by a header, or
made by a dotted key. -/
inductive TableOrigin
  | opened
  | passed
  | dotted
deriving DecidableEq, Repr

/-- A table under construction: finished values, tables, and arrays of tables.
Of an array of tables only the last one can be added to. -/
inductive Tree
  | leaf (value : Document)
  | branch (origin : TableOrigin) (entries : List (String × Tree))
  | series (finished : List (List (String × Tree))) (last : List (String × Tree))

/-- The entries of a table under construction. -/
abbrev Entries : Type := List (String × Tree)

/-- Change the table at the end of a path, making the tables on the way that are
missing.  A dotted path does not lead through tables that a header opened. -/
def modifyTable (dotted : Bool) (change : TableOrigin → Entries → Option Entries) :
    List String → TableOrigin → Entries → Option Entries
  | [], origin, entries => change origin entries
  | key :: path, _, entries =>
    match OrderedMap.lookup key entries with
    | none =>
      let origin := if dotted then TableOrigin.dotted else TableOrigin.passed
      (modifyTable dotted change path origin []).map fun child =>
        OrderedMap.put key (.branch origin child) entries
    | some (.branch origin child) =>
      if dotted && origin == .opened then none
      else
        (modifyTable dotted change path origin child).map fun changed =>
          OrderedMap.put key (.branch origin changed) entries
    | some (.series finished last) =>
      (modifyTable dotted change path .opened last).map fun changed =>
        OrderedMap.put key (.series finished changed) entries
    | some (.leaf _) => none

/-- Set a new key of a table.  Behind a dotted path the table must be one that
dotted keys have made, and otherwise it must not. -/
def setKey (dotted : Bool) (key : String) (value : Document) (origin : TableOrigin)
    (entries : Entries) : Option Entries :=
  if decide (origin = .dotted) != dotted then none
  else
    match OrderedMap.lookup key entries with
    | some _ => none
    | none => some (OrderedMap.put key (.leaf value) entries)

/-- Set the value at a dotted path within a table. -/
def assign (path : List String) (key : String) (value : Document) (origin : TableOrigin)
    (entries : Entries) : Option Entries :=
  let dotted := !path.isEmpty
  modifyTable dotted (setKey dotted key value) path origin entries

/-- Open a table of a parent table. -/
def openChild (key : String) (entries : Entries) : Option Entries :=
  match OrderedMap.lookup key entries with
  | none => some (OrderedMap.put key (.branch .opened []) entries)
  | some (.branch .passed child) => some (OrderedMap.put key (.branch .opened child) entries)
  | some _ => none

/-- Add a table to an array of tables of a parent table. -/
def openElement (key : String) (entries : Entries) : Option Entries :=
  match OrderedMap.lookup key entries with
  | none => some (OrderedMap.put key (.series [] []) entries)
  | some (.series finished last) =>
    some (OrderedMap.put key (.series (finished ++ [last]) []) entries)
  | some _ => none

/-- Open the table that a header names, below the root. -/
def openTable (path : List String) (key : String) (root : Entries) : Option Entries :=
  modifyTable false (fun _ entries => openChild key entries) path .opened root

/-- Add a table to the array that a header names, below the root. -/
def openArrayTable (path : List String) (key : String) (root : Entries) : Option Entries :=
  modifyTable false (fun _ entries => openElement key entries) path .opened root

/-- Set the value at a dotted path within the table that a header opened. -/
def assignUnder (header path : List String) (key : String) (value : Document)
    (root : Entries) : Option Entries :=
  modifyTable false (assign path key value) header .opened root

/-- The entries of a finished table, by key. -/
def sortEntries (entries : List (String × Document)) : List (String × Document) :=
  entries.mergeSort fun first second => TextOrder.notAfter first.1 second.1

mutual

/-- A finished tree as a document; the entries of every table are listed by
key. -/
def Tree.toDocument : Tree → Document
  | .leaf value => value
  | .branch _ entries => .table (sortEntries (entryDocuments entries))
  | .series finished last =>
    .list (tableDocuments finished ++ [.table (sortEntries (entryDocuments last))])

/-- The finished entries of a table. -/
def entryDocuments : List (String × Tree) → List (String × Document)
  | [] => []
  | (key, tree) :: rest => (key, tree.toDocument) :: entryDocuments rest

/-- The finished tables of an array of tables. -/
def tableDocuments : List (List (String × Tree)) → List Document
  | [] => []
  | entries :: rest => .table (sortEntries (entryDocuments entries)) :: tableDocuments rest

end

/-- The finished entries of a table by key. -/
def finishEntries (entries : Entries) : Document := .table (sortEntries (entryDocuments entries))

end Toml

end ModuleLinker
