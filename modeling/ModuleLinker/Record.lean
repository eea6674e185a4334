import ModuleLinker.Collections.OrderedMap
import ModuleLinker.Document

/-!
# Reading documents

Typed values are read from documents by small readers, which give nothing for a
document that does not fit.  A record is written as a table, or as the list of
its leading fields in their fixed order.  Strict readers insist on the plain form
of every value, and lenient ones let some other forms pass.
-/

namespace ModuleLinker

/-- How far a reader goes along with a document.  A lenient one passes over the
items behind the last field of a record without looking at them, and takes a
name that stands as the only key of a table with an empty value. -/
inductive Strictness
  | strict
  | lenient
deriving DecidableEq, Repr

/-- A reader takes a document to a value, if it fits. -/
abbrev Reader (α : Type) : Type := Strictness → Document → Option α

namespace Reader

variable {α : Type}

/-- A truth value. -/
def boolean : Reader Bool
  | _, .boolean value => some value
  | _, _ => none

/-- A text. -/
def text : Reader String
  | _, .text value => some value
  | _, _ => none

/-- A whole number that fits into 32 bits. -/
def word : Reader UInt32
  | _, .integer n => if 0 ≤ n ∧ n.toNat < UInt32.size then some (UInt32.ofNat n.toNat) else none
  | _, _ => none

/-- A list of values of one kind. -/
def list (item : Reader α) : Reader (List α)
  | strictness, .list items => items.mapM (item strictness)
  | _, _ => none

/-- The key under which a date or time shows its text where a table is
expected. -/
def momentKey : String := "$__toml_private_datetime"

/-- A table of values of one kind under any keys.  Of two entries with one key
the later value counts.  A date or time stands for a table of its text alone. -/
def map (item : Reader α) : Reader (OrderedMap String α)
  | strictness, .table entries => do
    let values ← entries.mapM fun entry =>
      (item strictness entry.2).map fun value => (entry.1, value)
    some (OrderedMap.ofList values)
  | strictness, .moment source =>
    (item strictness (.text source)).map fun value => OrderedMap.ofList [(momentKey, value)]
  | _, _ => none

/-- A variant without content: its name, or a table of the name alone whose place
is left empty.  A lenient reader also takes an empty list or table at that
place. -/
def unitVariant (named : String → Option α) : Reader α
  | _, .text name => named name
  | _, .table [(name, .absent)] => named name
  | .lenient, .table [(name, .list [])] => named name
  | .lenient, .table [(name, .table [])] => named name
  | _, _ => none

/-- A value that can be left empty. -/
def optional (reader : Reader α) : Reader (Option α)
  | _, .absent => some none
  | strictness, document => (reader strictness document).map some

end Reader

/-- The fields of a record as they are written, and how strictly they are to be
read.  Fields of a record that is written as a list must not be left out unless
they have a default value. -/
structure Fields where
  written : List (String × Document)
  asList : Bool
  strictness : Strictness
deriving Repr

namespace Fields

variable {α : Type}

/-- The fields of a record that is written as a list.  Only a lenient reader
passes over items behind the last field. -/
def ofItems? (names : List String) (strictness : Strictness) (items : List Document) :
    Option Fields :=
  if strictness = .strict ∧ names.length < items.length then none
  else some ⟨names.zip items, true, strictness⟩

/-- The fields of a document, given the names that the record knows, in order.
A table must not have other keys. -/
def closed? (names : List String) : Reader Fields
  | strictness, .table entries =>
    if entries.all fun entry => names.contains entry.1 then some ⟨entries, false, strictness⟩
    else none
  | strictness, .list items => ofItems? names strictness items
  | _, _ => none

/-- The fields of a document that may have further keys, whose values have to be
readable but count for nothing. -/
def open? (names : List String) : Reader Fields
  | strictness, .table entries =>
    if entries.all fun entry => names.contains entry.1 || entry.2.isReadable then
      some ⟨entries, false, strictness⟩
    else none
  | strictness, .list items => ofItems? names strictness items
  | _, _ => none

/-- The document of a field, if it is written. -/
def find? (fields : Fields) (name : String) : Option Document :=
  OrderedMap.lookup name fields.written

/-- A field that must be written. -/
def required (fields : Fields) (name : String) (reader : Reader α) : Option α :=
  (fields.find? name).bind (reader fields.strictness)

/-- A field with a default value. -/
def withDefault (fields : Fields) (name : String) (reader : Reader α) (value : α) : Option α :=
  match fields.find? name with
  | some document => reader fields.strictness document
  | none => some value

/-- A field that can be left empty, and left out of a table. -/
def optional (fields : Fields) (name : String) (reader : Reader α) : Option (Option α) :=
  match fields.find? name with
  | some document => reader.optional fields.strictness document
  | none => if fields.asList then none else some none

/-- A field that can be left empty, and left out altogether. -/
def optionalAnywhere (fields : Fields) (name : String) (reader : Reader α) :
    Option (Option α) :=
  fields.withDefault name reader.optional none

end Fields

end ModuleLinker
