import ModuleLinker.Number.Shortest
import ModuleLinker.Text.Quoted

/-!
# Literals

Some exports are known to be constant.  Their values are written into generated
code as literals.
-/

namespace ModuleLinker

/-- A constant that can stand in generated code. -/
inductive Literal
  | boolean (value : Bool)
  | number (value : Float)
  | text (value : String)
  | null
  | undefined
deriving Repr

namespace Literal

/-- A number in generated code: its shortest digits in positional notation, or
the name of the value when it has no digits. -/
def numberSource (x : Float) : String :=
  if x.isNaN then "NaN"
  else if x.isInf then if 0.0 < x then "Infinity" else "-Infinity"
  else positionalText x

/-- A constant in generated code. -/
def source : Literal → String
  | boolean value => if value then "true" else "false"
  | number value => numberSource value
  | text value => Quoted.literal value
  | null => "null"
  | undefined => "undefined"

end Literal

end ModuleLinker
