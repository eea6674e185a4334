/-!
# Identifiers

Which names can be written bare in generated code, and how an arbitrary name
becomes one.  Only ASCII letters, digits, `_` and `$` count as identifier
characters, although the language itself admits more: a name outside this
alphabet is always written in a quoted or a cleaned form, which is valid too.
-/

namespace ModuleLinker

namespace Identifier

/-- Words that cannot be the name of a binding in the strict code of an ES
module.  The two names `eval` and `arguments` are not among them. -/
def reservedWords : List String :=
  ["await", "break", "case", "catch", "class", "const", "continue", "debugger", "default",
    "delete", "do", "else", "enum", "export", "extends", "false", "finally", "for",
    "function", "if", "implements", "import", "in", "instanceof", "interface", "let", "new",
    "null", "package", "private", "protected", "public", "return", "static", "super",
    "switch", "this", "throw", "true", "try", "typeof", "var", "void", "while", "with",
    "yield"]

/-- Whether a name is a reserved word. -/
def isReserved (name : String) : Bool := reservedWords.contains name

/-- Whether a character can begin an identifier. -/
def isStart (c : Char) : Bool := c.isAlpha || c == '_' || c == '$'

/-- Whether a character can continue an identifier. -/
def isPart (c : Char) : Bool := c.isAlphanum || c == '_' || c == '$'

theorem isPart_of_isStart {c : Char} (h : isStart c = true) : isPart c = true := by
  simp only [isStart, isPart, Char.isAlphanum, Bool.or_eq_true] at h ⊢
  rcases h with (h | h) | h
  · exact Or.inl (Or.inl (Or.inl h))
  · exact Or.inl (Or.inr h)
  · exact Or.inr h

/-- Whether characters are spelled like an identifier: a start character and
then only part characters. -/
def isSpelled : List Char → Bool
  | [] => false
  | c :: rest => isStart c && rest.all isPart

/-- Whether a name can be written bare as the name of a binding. -/
def isIdentifier (name : String) : Bool := isSpelled name.toList && !isReserved name

/-- Keep the part characters and write one `_` for each run of others;
`inRun` tells whether such a run is open. -/
def collapse (inRun : Bool) : List Char → List Char
  | [] => []
  | c :: rest =>
    if isPart c then c :: collapse false rest
    else if inRun then collapse true rest
    else '_' :: collapse true rest

/-- The cleaned characters of a name: each run of foreign characters becomes
one `_`, and a further `_` goes in front when the first character cannot begin
an identifier. -/
def cleanChars : List Char → List Char
  | [] => []
  | c :: rest =>
    if isStart c then collapse false (c :: rest) else '_' :: collapse false (c :: rest)

/-- The cleaned form of a name.  It is spelled like an identifier unless the
name is empty, but it may still be a reserved word. -/
def clean (name : String) : String := String.ofList (cleanChars name.toList)

/-- The cleaned form of a name as the name of a binding: a reserved word and the
empty text get a `_` in front. -/
def bindingBase (name : String) : String :=
  if isIdentifier (clean name) then clean name else "_" ++ clean name

/-- Collapsing leaves only part characters. -/
theorem all_isPart_collapse (inRun : Bool) (cs : List Char) :
    (collapse inRun cs).all isPart = true := by
  induction cs generalizing inRun with
  | nil => rfl
  | cons c rest ih =>
    by_cases hc : isPart c = true
    · simp [collapse, hc, ih]
    · cases inRun
      · simp only [collapse, if_neg hc, Bool.false_eq_true, if_false, List.all_cons, ih,
          Bool.and_true]
        decide
      · simp only [collapse, if_neg hc, if_true, ih]

/-- Characters that are spelled like an identifier are their own cleaned
form. -/
theorem collapse_of_all_isPart {cs : List Char} (h : cs.all isPart = true) :
    collapse false cs = cs := by
  induction cs with
  | nil => rfl
  | cons c rest ih =>
    rw [List.all_cons, Bool.and_eq_true] at h
    simp [collapse, h.1, ih h.2]

end Identifier

end ModuleLinker
