import ModuleLinker.Toml.Lexical

/-!
# TOML strings

Strings stand between quotation marks, where backslashes begin escapes, or
between apostrophes, where nothing is escaped.  Three marks in a row open a
string that may span lines; a line end right behind them does not belong to it.
-/

namespace ModuleLinker

namespace Toml

/-- The value of a hexadecimal digit. -/
def hexValue? (c : Char) : Option Nat :=
  if c.isDigit then some (c.toNat - '0'.toNat)
  else if 'a'.toNat ≤ c.toNat && c.toNat ≤ 'f'.toNat then some (c.toNat - 'a'.toNat + 10)
  else if 'A'.toNat ≤ c.toNat && c.toNat ≤ 'F'.toNat then some (c.toNat - 'A'.toNat + 10)
  else none

/-- The number that hexadecimal digits write. -/
def hexNumber? (cs : List Char) : Option Nat :=
  cs.foldlM (fun value c => (hexValue? c).map fun digit => 16 * value + digit) 0

/-- The character with a code point, which must not be a surrogate. -/
def scalar? (n : Nat) : Option Char :=
  if n.isValidChar then some (Char.ofNat n) else none

/-- A character by a fixed number of hexadecimal digits. -/
def codePoint? (digits : Nat) (cs : List Char) : Option (Char × List Char) := do
  let written := cs.take digits
  if written.length = digits then
    let c ← scalar? (← hexNumber? written)
    some (c, cs.drop digits)
  else none

/-- The character that an escape stands for, given what follows the
backslash. -/
def escape? : List Char → Option (Char × List Char)
  | [] => none
  | c :: rest =>
    match c with
    | 'b' => some ('\x08', rest)
    | 't' => some ('\t', rest)
    | 'n' => some ('\n', rest)
    | 'f' => some ('\x0c', rest)
    | 'r' => some ('\r', rest)
    | 'e' => some ('\x1b', rest)
    | '"' => some ('"', rest)
    | '\\' => some ('\\', rest)
    | 'x' => codePoint? 2 rest
    | 'u' => codePoint? 4 rest
    | 'U' => codePoint? 8 rest
    | _ => none

/-- The content of a string between quotation marks on one line, up to its
closing mark.  `fuel` bounds the number of characters. -/
def basicTail? : Nat → List Char → List Char → Option (List Char × List Char)
  | 0, _, _ => none
  | _ + 1, _, [] => none
  | fuel + 1, content, c :: rest =>
    if c = '"' then some (content.reverse, rest)
    else if c = '\\' then
      match escape? rest with
      | some (escaped, after) => basicTail? fuel (escaped :: content) after
      | none => none
    else if isForbidden c then none
    else basicTail? fuel (c :: content) rest

/-- The content of a string between apostrophes on one line, up to its closing
mark. -/
def literalTail? : List Char → List Char → Option (List Char × List Char)
  | _, [] => none
  | content, c :: rest =>
    if c = '\'' then some (content.reverse, rest)
    else if isForbidden c then none
    else literalTail? (c :: content) rest

/-- The closing marks of a string over lines: three marks in a row, in front of
which up to two more belong to the content.  The answer is the number of these
and the rest. -/
def closingMarks? (mark : Char) (cs : List Char) : Option (Nat × List Char) :=
  let run := (cs.takeWhile (· == mark)).length
  if run < 3 then none
  else
    let extra := min (run - 3) 2
    some (extra, cs.drop (extra + 3))

/-- Drop the blanks and line ends behind a backslash that ends a line.  There
must be a line end among the first of them. -/
def joinLines? (fuel : Nat) (cs : List Char) : Option (List Char) := do
  let rest ← lineEnd? (skipBlanks cs)
  some (go fuel rest)
where
  /-- Drop blanks and line ends as long as there are any. -/
  go : Nat → List Char → List Char
    | 0, cs => cs
    | fuel + 1, cs =>
      match lineEnd? (skipBlanks cs) with
      | some rest => go fuel rest
      | none => skipBlanks cs

/-- The content of a string between quotation marks over lines, up to its
closing marks.  `fuel` bounds the number of characters. -/
def basicLinesTail? : Nat → List Char → List Char → Option (List Char × List Char)
  | 0, _, _ => none
  | _ + 1, _, [] => none
  | fuel + 1, content, c :: rest =>
    if c = '"' then
      match closingMarks? '"' (c :: rest) with
      | some (extra, after) => some ((List.replicate extra '"' ++ content).reverse, after)
      | none => basicLinesTail? fuel (c :: content) rest
    else if c = '\\' then
      match joinLines? rest.length rest with
      | some after => basicLinesTail? fuel content after
      | none =>
        match escape? rest with
        | some (escaped, after) => basicLinesTail? fuel (escaped :: content) after
        | none => none
    else if c = '\n' then basicLinesTail? fuel (c :: content) rest
    else if c = '\r' then
      match rest with
      | '\n' :: after => basicLinesTail? fuel ('\n' :: c :: content) after
      | _ => none
    else if isForbidden c then none
    else basicLinesTail? fuel (c :: content) rest

/-- The content of a string between apostrophes over lines, up to its closing
marks.  `fuel` bounds the number of characters. -/
def literalLinesTail? : Nat → List Char → List Char → Option (List Char × List Char)
  | 0, _, _ => none
  | _ + 1, _, [] => none
  | fuel + 1, content, c :: rest =>
    if c = '\'' then
      match closingMarks? '\'' (c :: rest) with
      | some (extra, after) => some ((List.replicate extra '\'' ++ content).reverse, after)
      | none => literalLinesTail? fuel (c :: content) rest
    else if c = '\n' then literalLinesTail? fuel (c :: content) rest
    else if c = '\r' then
      match rest with
      | '\n' :: after => literalLinesTail? fuel ('\n' :: c :: content) after
      | _ => none
    else if isForbidden c then none
    else literalLinesTail? fuel (c :: content) rest

/-- Drop a line end right behind the opening marks. -/
def dropFirstLineEnd (cs : List Char) : List Char := (lineEnd? cs).getD cs

/-- A string on one line, of either kind. -/
def lineString? : List Char → Option (List Char × List Char)
  | '"' :: rest => basicTail? ((rest.takeWhile (· != '\n')).length + 1) [] rest
  | '\'' :: rest => literalTail? [] rest
  | _ => none

/-- A string of any kind. -/
def string? : List Char → Option (String × List Char)
  | '"' :: '"' :: '"' :: rest =>
    let content := dropFirstLineEnd rest
    (basicLinesTail? (content.length + 1) [] content).map fun (cs, after) =>
      (String.ofList cs, after)
  | '\'' :: '\'' :: '\'' :: rest =>
    let content := dropFirstLineEnd rest
    (literalLinesTail? (content.length + 1) [] content).map fun (cs, after) =>
      (String.ofList cs, after)
  | cs => (lineString? cs).map fun (content, after) => (String.ofList content, after)

end Toml

end ModuleLinker
