/-!
# The order of texts

Texts are compared code point by code point, a proper beginning coming first.
This is also the order of their UTF-8 bytes.
-/

namespace ModuleLinker

namespace TextOrder

/-- Compare two lists of characters at their first difference. -/
def compareChars : List Char → List Char → Ordering
  | [], [] => .eq
  | [], _ :: _ => .lt
  | _ :: _, [] => .gt
  | c :: cs, d :: ds =>
    if c.toNat < d.toNat then .lt
    else if d.toNat < c.toNat then .gt
    else compareChars cs ds

/-- Compare two texts by their code points. -/
def compareTexts (s t : String) : Ordering := compareChars s.toList t.toList

/-- Whether a text comes no later than another one. -/
def notAfter (s t : String) : Bool := (compareTexts s t).isLE

theorem compareChars_self (cs : List Char) : compareChars cs cs = .eq := by
  induction cs with
  | nil => rfl
  | cons c cs ih => simp [compareChars, ih]

@[simp] theorem compareTexts_self (s : String) : compareTexts s s = .eq :=
  compareChars_self s.toList

end TextOrder

end ModuleLinker
