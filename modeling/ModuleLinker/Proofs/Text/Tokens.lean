import ModuleLinker.Proofs.Text.Identifier
import ModuleLinker.Proofs.Text.Literals

/-!
# Reading tokens

Statements that import and export, and accesses to properties, are made of few kinds of
tokens: words, string literals and some marks.  A word is as long as it can be, and blanks
between tokens do not count.  What a text is read as may depend on what comes after it, so
each statement here is about a text in front of a rest: a word ends where the rest begins
with a character that cannot continue it, and a statement where its semicolon stands.
-/

namespace ModuleLinker

/-- A word, a string literal, or a mark. -/
inductive Token
  | word (name : String)
  | text (value : String)
  | mark (c : Char)
deriving DecidableEq, Repr

namespace Token

open Identifier (isStart isPart isSpelled EndsBefore)

/-! ## The rule of the language -/

/-- The characters that are tokens. -/
def marks : List Char := ['\x7b', '\x7d', '[', ']', ',', '.', ';']

/-- Whether a character separates tokens and is none. -/
def isBlank (c : Char) : Bool :=
  Quoted.isLineEnd c || ['\t', '\x0b', '\x0c', ' ', '\xa0', '\ufeff'].contains c

/-- The first token of a text that begins with one, and the rest.  Words beyond ASCII and
other tokens of the language are refused. -/
def next? : List Char → Option (Token × List Char)
  | [] => none
  | c :: cs =>
    if isStart c then
      some (.word (String.ofList (c :: cs.takeWhile isPart)), cs.dropWhile isPart)
    else if marks.contains c then some (.mark c, cs)
    else (Quoted.readLiteral? (c :: cs)).map (Prod.map .text id)

/-- A token has at least one character. -/
theorem length_lt_of_next? {cs rest : List Char} {token : Token}
    (h : next? cs = some (token, rest)) : rest.length < cs.length := by
  revert h
  fun_cases next? cs with
  | case1 => exact fun h => absurd h (by simp)
  | case2 c cs =>
    intro h
    obtain ⟨-, rfl⟩ := Prod.mk.inj (Option.some.inj h)
    exact Nat.lt_succ_of_le (List.dropWhile_suffix _).length_le
  | case3 c cs =>
    intro h
    obtain ⟨-, rfl⟩ := Prod.mk.inj (Option.some.inj h)
    exact Nat.lt_succ_self _
  | case4 c cs => exact fun h => Quoted.length_lt_of_map h fun _ => Quoted.length_lt_of_readLiteral?

/-- The tokens of a text up to the first semicolon or else its end, and the rest. -/
def readAll? : List Char → Option (List Token × List Char)
  | [] => some ([], [])
  | c :: cs =>
    match h : next? (c :: cs) with
    | some (token, rest) =>
      have := length_lt_of_next? h
      if token = .mark ';' then some ([token], rest)
      else (readAll? rest).map (Prod.map (token :: ·) id)
    | none => if isBlank c then readAll? cs else none
termination_by cs => cs.length
decreasing_by
  · assumption
  · exact Nat.lt_succ_self _

/-- What the tokens of a text up to its first semicolon are parsed as, and the rest. -/
def readStatement? {α : Type} (parse? : List Token → Option α) (cs : List Char) :
    Option (α × List Char) :=
  (readAll? cs).bind fun read => (parse? read.1).map (·, read.2)

/-! ## Texts in front of a rest -/

/-- A rest that ends a word in front of it. -/
def EndsWord (rest : List Char) : Prop := ∀ c ∈ rest.head?, isPart c = false

/-- A text in front of a rest is read as some tokens, and then the rest is read. -/
def Reads (text : String) (tokens : List Token) (rest : List Char) : Prop :=
  readAll? (text.toList ++ rest) = (readAll? rest).map (Prod.map (tokens ++ ·) id)

variable {text other name : String} {tokens others : List Token} {token : Token}
  {rest : List Char}

theorem endsWord_nil : EndsWord [] := by
  intro c hc
  exact absurd hc (by simp)

theorem endsWord_append (h : EndsBefore text) (rest : List Char) :
    EndsWord (text.toList ++ rest) := by
  obtain ⟨c, cs, hchars, hc⟩ := h
  rw [hchars]
  intro d hd
  rwa [← Option.some.inj hd]

/-- What continues a word ends where the rest begins. -/
theorem EndsWord.takeWhile_append {cs : List Char} (hrest : EndsWord rest)
    (hcs : cs.all isPart = true) : (cs ++ rest).takeWhile isPart = cs := by
  rw [List.takeWhile_append_of_pos (List.all_eq_true.mp hcs)]
  cases rest with
  | nil => exact List.append_nil cs
  | cons c rest =>
    rw [List.takeWhile_cons_of_neg (Bool.not_eq_true _ ▸ hrest c rfl), List.append_nil]

theorem EndsWord.dropWhile_append {cs : List Char} (hrest : EndsWord rest)
    (hcs : cs.all isPart = true) : (cs ++ rest).dropWhile isPart = rest := by
  rw [List.dropWhile_append_of_pos (List.all_eq_true.mp hcs)]
  cases rest with
  | nil => rfl
  | cons c rest => rw [List.dropWhile_cons_of_neg (Bool.not_eq_true _ ▸ hrest c rfl)]

theorem reads_nil (rest : List Char) : Reads "" [] rest := Option.map_id'.symm

theorem Reads.append (htext : Reads text tokens (other.toList ++ rest))
    (hother : Reads other others rest) : Reads (text ++ other) (tokens ++ others) rest := by
  rw [Reads, String.toList_append, List.append_assoc, htext, hother, Option.map_map]
  congr 1
  funext ⟨read, behind⟩
  exact congrArg (·, behind) (List.append_assoc tokens others read).symm

/-- A text that begins with a token is read token by token. -/
theorem readAll?_of_next? {cs : List Char} (h : next? cs = some (token, rest)) :
    readAll? cs = if token = .mark ';' then some ([token], rest)
      else (readAll? rest).map (Prod.map (token :: ·) id) := by
  cases cs with
  | nil => exact absurd h (by simp [next?])
  | cons c cs =>
    rw [readAll?]
    split
    · rename_i hsome
      obtain ⟨rfl, rfl⟩ := Prod.mk.inj (Option.some.inj (hsome.symm.trans h))
      rfl
    · rename_i hnone
      exact absurd (hnone.symm.trans h) (by simp)

theorem reads_of_next? (h : next? (text.toList ++ rest) = some (token, rest))
    (htoken : token ≠ .mark ';') : Reads text [token] rest := by
  rw [Reads, readAll?_of_next? h, if_neg htoken]
  rfl

theorem reads_blank (rest : List Char) : Reads " " [] rest := by
  have hnext : next? (' ' :: rest) = none := rfl
  have hskip : readAll? (' ' :: rest) = readAll? rest := by
    rw [readAll?]
    split
    · rename_i hsome
      exact absurd (hsome.symm.trans hnext) (by simp)
    · exact if_pos (by decide)
  exact hskip.trans (reads_nil rest)

theorem reads_word (hname : isSpelled name.toList = true) (hrest : EndsWord rest) :
    Reads name [.word name] rest := by
  refine reads_of_next? ?_ (by simp)
  cases hchars : name.toList with
  | nil => exact absurd hname (by rw [hchars]; decide)
  | cons c cs =>
    rw [hchars, isSpelled, Bool.and_eq_true] at hname
    rw [List.cons_append, next?, if_pos hname.1, hrest.takeWhile_append hname.2,
      hrest.dropWhile_append hname.2, ← hchars, String.ofList_toList]

theorem reads_literal (text : String) (rest : List Char) :
    Reads (Quoted.literal text) [.text text] rest := by
  refine reads_of_next? ?_ (by simp)
  have hread := Quoted.readLiteral?_literal text rest
  rw [Quoted.literal, String.toList_ofList, Quoted.literalChars, List.cons_append] at hread ⊢
  rw [next?, if_neg (by decide), if_neg (by decide), hread]
  rfl

theorem reads_mark {c : Char} (hc : c ∈ marks) (hother : c ≠ ';') (htext : text.toList = [c])
    (rest : List Char) : Reads text [.mark c] rest := by
  have hmarks : marks.all (fun c => !isStart c) = true := by decide
  have hstart : ¬ isStart c = true := by simpa using List.all_eq_true.mp hmarks c hc
  refine reads_of_next? ?_ (by simpa using hother)
  rw [htext, List.singleton_append, next?, if_neg hstart, if_pos (List.contains_iff_mem.mpr hc)]

/-- A semicolon ends what is read. -/
theorem Reads.readAll?_semicolon (h : Reads text tokens (";\n".toList ++ rest)) :
    readAll? ((text ++ ";\n").toList ++ rest) = some (tokens ++ [.mark ';'], '\n' :: rest) := by
  have hend : readAll? (";\n".toList ++ rest) = some ([.mark ';'], '\n' :: rest) :=
    (readAll?_of_next? rfl).trans (if_pos rfl)
  rw [String.toList_append, List.append_assoc, h, hend]
  rfl

/-! ## Words and marks with blanks around them -/

theorem reads_word_blank (name : String) (hname : isSpelled name.toList = true)
    (rest : List Char) : Reads (name ++ " ") [.word name] rest :=
  (reads_word hname (endsWord_append ⟨' ', [], rfl, by decide⟩ rest)).append (reads_blank rest)

theorem reads_comma (rest : List Char) : Reads ", " [.mark ','] rest := by
  have hcomma : Reads "," [.mark ','] (" ".toList ++ rest) :=
    reads_mark (by decide) (by decide) rfl _
  exact hcomma.append (reads_blank rest)

theorem reads_open (rest : List Char) : Reads "\x7b " [.mark '\x7b'] rest := by
  have hopen : Reads "\x7b" [.mark '\x7b'] (" ".toList ++ rest) :=
    reads_mark (by decide) (by decide) rfl _
  exact hopen.append (reads_blank rest)

theorem reads_close (rest : List Char) : Reads " \x7d" [.mark '\x7d'] rest := by
  have hclose : Reads "\x7d" [.mark '\x7d'] rest := reads_mark (by decide) (by decide) rfl _
  exact (reads_blank _).append hclose

theorem reads_as (rest : List Char) : Reads " as " [.word "as"] rest :=
  (reads_blank _).append (reads_word_blank "as" (by decide) rest)

end Token

end ModuleLinker
