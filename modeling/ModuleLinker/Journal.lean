import ModuleLinker.Error
import ModuleLinker.Exports.Basic

/-!
# The journal

Linking tells what it does in a journal beside its result.  A `Journaled` value
is the value with the entries written on the way to it, and a `Linking` value
may fail as well; the entries written before a failure are kept.
-/

namespace ModuleLinker

/-- How much an entry of the journal matters. -/
inductive Severity
  | error
  | warning
  | information
deriving DecidableEq, Repr

/-- What can be told in the journal.  Notes are for extensions, which may record
that they were asked. -/
inductive JournalEntry
  | circularExports (cycle : List ExportSite)
  | linked (root : ModuleId) (exportCount : Nat) (wrapperOmitted : Bool)
  | note (text : String)
deriving DecidableEq, Repr

namespace JournalEntry

/-- An entry as a line for readers.  Notes are not for them. -/
def line? : JournalEntry → Option (Severity × String)
  | circularExports cycle =>
    some (.warning,
      "Re-export cycle: " ++ String.intercalate " -> " (cycle.map ExportSite.label))
  | linked root exportCount wrapperOmitted =>
    some (.information,
      "Linked " ++ root.label ++ ": " ++ toString exportCount ++ " exports, wrapper " ++
        if wrapperOmitted then "omitted" else "kept")
  | note _ => none

/-- The text of a note. -/
def note? : JournalEntry → Option String
  | note text => some text
  | circularExports _ => none
  | linked _ _ _ => none

end JournalEntry

/-- A value with the entries written on the way to it. -/
structure Journaled (α : Type) where
  entries : List JournalEntry
  value : α
deriving Repr

namespace Journaled

instance : Monad Journaled where
  pure value := ⟨[], value⟩
  bind first next := ⟨first.entries ++ (next first.value).entries, (next first.value).value⟩

/-- Write one entry. -/
def tell (entry : JournalEntry) : Journaled Unit := ⟨[entry], ()⟩

variable {α β : Type}

@[simp] theorem value_pure (value : α) : (pure value : Journaled α).value = value := rfl

@[simp] theorem entries_pure (value : α) : (pure value : Journaled α).entries = [] := rfl

@[simp] theorem value_bind (first : Journaled α) (next : α → Journaled β) :
    (first >>= next).value = (next first.value).value := rfl

@[simp] theorem entries_bind (first : Journaled α) (next : α → Journaled β) :
    (first >>= next).entries = first.entries ++ (next first.value).entries := rfl

end Journaled

end ModuleLinker
