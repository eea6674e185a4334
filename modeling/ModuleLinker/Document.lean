/-!
# Documents

Configurations and manifests are trees of plain values, whatever the notation in
which they are written.
-/

namespace ModuleLinker

/-- A tree of plain values.  A table lists its entries in the order in which
they are to be seen, and a date or time is given by its normal text.  A place
can be left empty, and a number can be written that no value stands for. -/
inductive Document
  | absent
  | boolean (value : Bool)
  | integer (value : Int)
  | float (value : Float)
  | unreadable
  | text (value : String)
  | moment (source : String)
  | list (items : List Document)
  | table (entries : List (String × Document))
deriving Repr, Inhabited

namespace Document

mutual

/-- Whether every number in a document has a value. -/
def isReadable : Document → Bool
  | .unreadable => false
  | .list items => areReadable items
  | .table entries => haveReadable entries
  | _ => true

/-- Whether every number in the items of a list has a value. -/
def areReadable : List Document → Bool
  | [] => true
  | item :: rest => item.isReadable && areReadable rest

/-- Whether every number in the entries of a table has a value. -/
def haveReadable : List (String × Document) → Bool
  | [] => true
  | (_, value) :: rest => value.isReadable && haveReadable rest

end

end Document

end ModuleLinker
