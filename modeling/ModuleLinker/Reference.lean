import ModuleLinker.Collections.OrderedMap

/-!
# References

What an export name stands for in a merged scope: the name of a binding, or some
other expression such as the access to a property of a namespace.
-/

namespace ModuleLinker

/-- What an export name stands for in generated code. -/
inductive Reference
  | identifier (name : String)
  | expression (text : String)
deriving DecidableEq, Repr

namespace Reference

/-- The text of a reference in generated code. -/
def source : Reference → String
  | identifier name => name
  | expression text => text

/-- Whether a reference is the name of a binding. -/
def isIdentifier : Reference → Bool
  | identifier _ => true
  | expression _ => false

end Reference

/-- Export names with what they stand for. -/
abbrev ExportMap : Type := OrderedMap String Reference

end ModuleLinker
