import ModuleLinker.Proofs.Text.Lists

/-!
# What stands between quote marks

Escaping is often done in passes over a text: first every backslash is doubled, then quote
marks get a backslash in front, and then characters that cannot be seen are replaced.  This
order is the one in which no pass undoes another, and it comes to the same as escaping every
character by itself.  What stands between the quote marks of a literal then has no quote mark
that would end the literal early, and nothing that would end the line.  So texts can be told
apart by their literals, and names by what stands for them in import and export lists.
-/

namespace ModuleLinker

namespace Quoted

open Identifier (isIdentifier)

/-! ## Quote marks behind a backslash -/

/-- Whether a backslash at the end of some characters waits for the character that it
escapes.  A backslash that is escaped itself does not wait. -/
def isWaiting (cs : List Char) : Bool :=
  cs.foldl (fun waiting c => !waiting && c == '\\') false

/-- Characters behind which no backslash waits, and in which one waits in front of every quote
mark. -/
structure Sealed (cs : List Char) : Prop where
  notWaiting : isWaiting cs = false
  escaped : ∀ before after, cs = before ++ '"' :: after → isWaiting before = true

theorem isWaiting_append {cs : List Char} (h : isWaiting cs = false) (others : List Char) :
    isWaiting (cs ++ others) = isWaiting others := by
  rw [isWaiting] at h
  rw [isWaiting, List.foldl_append, h, isWaiting]

namespace Sealed

theorem of_plain {cs : List Char} (h : ∀ c ∈ cs, c ≠ '"' ∧ c ≠ '\\') : Sealed cs where
  notWaiting := by
    induction cs with
    | nil => rfl
    | cons c cs ih =>
      obtain ⟨hc, hcs⟩ := List.forall_mem_cons.mp h
      have hfirst : isWaiting [c] = false := by simp [isWaiting, hc.2]
      rw [← List.singleton_append, isWaiting_append hfirst, ih hcs]
  escaped before after heq := by
    have hmem : '"' ∈ cs := by simp [heq]
    exact absurd rfl (h '"' hmem).1

/-- A backslash and the character that it escapes, which may be a quote mark. -/
theorem pair (c : Char) : Sealed ['\\', c] where
  notWaiting := by simp [isWaiting]
  escaped before after heq := by
    match before, heq with
    | [], heq => exact absurd (List.cons.inj heq).1 (by decide)
    | [slash], heq =>
      rw [← (List.cons.inj heq).1]
      rfl
    | _ :: _ :: _, heq => exact absurd (congrArg List.length heq) (by simp)

theorem append {cs others : List Char} (hcs : Sealed cs) (hothers : Sealed others) :
    Sealed (cs ++ others) where
  notWaiting := by rw [isWaiting_append hcs.notWaiting, hothers.notWaiting]
  escaped before after heq := by
    rcases List.append_eq_append_iff.mp heq with ⟨rest, rfl, hrest⟩ | ⟨rest, hfront, hrest⟩
    · rw [isWaiting_append hcs.notWaiting]
      exact hothers.escaped rest after hrest
    · cases rest with
      | nil => exact absurd (hothers.escaped [] after hrest.symm) (by decide)
      | cons quote rest =>
        obtain rfl := (List.cons.inj hrest).1
        exact hcs.escaped before rest hfront

end Sealed

theorem WrittenAs.isSealed {c : Char} {writing : List Char} (h : WrittenAs c writing) :
    Sealed writing := by
  cases h with
  | plain hquote hslash _ =>
    apply Sealed.of_plain
    intro d hd
    rw [List.mem_singleton.mp hd]
    exact ⟨hquote, hslash⟩
  | @short letter _ => exact Sealed.pair letter
  | @numbered digits _ h =>
    have hdigits : Sealed digits := by
      apply Sealed.of_plain
      intro d hd
      have hdigit := hexValue?_ne_none_of_mem h hd
      constructor
      · rintro rfl
        exact hdigit (by decide)
      · rintro rfl
        exact hdigit (by decide)
    exact (Sealed.pair 'u').append hdigits

/-- What is spelled out cannot end a literal, and leaves the closing mark alone. -/
theorem SpelledOut.isSealed {value body : List Char} (h : SpelledOut value body) : Sealed body := by
  induction h with
  | nil => exact Sealed.of_plain fun _ hd => absurd hd List.not_mem_nil
  | cons hfirst _ ih => exact hfirst.isSealed.append ih

/-! ## Escaping in passes -/

/-- Write other characters in the place of each occurrence of one. -/
def replaceAll (target : Char) (replacement cs : List Char) : List Char :=
  cs.flatMap fun c => if c = target then replacement else [c]

/-- What takes the place of a character that would end the line or cannot be seen. -/
def showChar (c : Char) : List Char :=
  if c = '\n' then ['\\', 'n']
  else if c = '\r' then ['\\', 'r']
  else if c = '\t' then ['\\', 't']
  else if isLineSeparator c then '\\' :: 'u' :: fourHexDigits c.toNat
  else if isControl c then '\\' :: 'u' :: fourHexDigits c.toNat
  else [c]

/-- Escape backslashes, then quote marks, and then all that cannot be seen. -/
def escapeInPasses (cs : List Char) : List Char :=
  (replaceAll '"' ['\\', '"'] (replaceAll '\\' ['\\', '\\'] cs)).flatMap showChar

theorem showChar_eq_escapeChar {c : Char} (hslash : c ≠ '\\') (hquote : c ≠ '"') :
    showChar c = escapeChar c := by
  rw [showChar, escapeChar, if_neg hslash, if_neg hquote]
  cases isControl c with
  | false =>
    cases isLineSeparator c with
    | false => rfl
    | true => rfl
  | true =>
    cases isLineSeparator c with
    | false => rfl
    | true => rfl

/-- Passes in this order come to escaping each character by itself. -/
theorem escapeInPasses_eq_escape (cs : List Char) : escapeInPasses cs = escape cs := by
  rw [escapeInPasses, replaceAll, replaceAll, List.flatMap_assoc, List.flatMap_assoc, escape]
  congr 1
  funext c
  by_cases hslash : c = '\\'
  · subst hslash
    decide
  by_cases hquote : c = '"'
  · subst hquote
    decide
  · simp only [hslash, hquote, if_false, List.flatMap_singleton]
    exact showChar_eq_escapeChar hslash hquote

/-- With quote marks first, the backslash in front of one would be doubled. -/
example : replaceAll '\\' ['\\', '\\'] (replaceAll '"' ['\\', '"'] ['"']) ≠ escape ['"'] := by
  decide

/-! ## Names in lists -/

/-- The name that a token stands for in generated lists: an identifier, the word `default`, or
the value of a literal. -/
def specifierName? : Token → Option String
  | .word name => if isIdentifier name || name == "default" then some name else none
  | .text value => some value
  | .mark _ => none

/-- The name that is all of a text. -/
def readSpecifier? (cs : List Char) : Option String :=
  match Token.readAll? cs with
  | some ([token], []) => specifierName? token
  | _ => none

theorem specifierName?_ofName (name : String) : specifierName? (Token.ofName name) = some name := by
  rw [Token.ofName]
  split
  · rename_i hbare
    exact if_pos hbare
  · rfl

theorem readSpecifier?_specifier (name : String) :
    readSpecifier? (specifier name).toList = some name := by
  have hreads := (Token.isName_specifier name).reads [] Token.endsWord_nil
  rw [Token.Reads, List.append_nil] at hreads
  rw [readSpecifier?, hreads, Token.readAll?, Option.map_some]
  exact specifierName?_ofName name

theorem specifier_injective {first second : String} (h : specifier first = specifier second) :
    first = second := by
  have hfirst := readSpecifier?_specifier first
  rw [h, readSpecifier?_specifier second] at hfirst
  exact (Option.some.inj hfirst).symm

/-- Literals are exact and stay on their line.  Between the quote marks stands what escaping in
passes makes of the text: it spells the text out with few kinds of escapes, nothing in it is
invisible or ends a line, and a backslash waits in front of each quote mark in it.  A literal
is read as its text, whatever comes after it, and a name in a list as that name, so neither
can be taken for another. -/
theorem literal_exact :
    (∀ text : String, ∃ body : List Char, (literal text).toList = '"' :: (body ++ ['"']) ∧
        body = escapeInPasses text.toList ∧ SpelledOut text.toList body ∧
        (∀ c ∈ body, isControl c = false ∧ isLineSeparator c = false) ∧
        ∀ before after, body = before ++ '"' :: after → isWaiting before = true) ∧
      (∀ (text : String) (rest : List Char),
        readLiteral? ((literal text).toList ++ rest) = some (text, rest)) ∧
      Function.Injective literal ∧
      (∀ name : String, readSpecifier? (specifier name).toList = some name) ∧
      Function.Injective specifier := by
  refine ⟨fun text => ?_, readLiteral?_literal, fun _ _ => literal_injective,
    readSpecifier?_specifier, fun _ _ => specifier_injective⟩
  have hspelled := spelledOut_escape text.toList
  refine ⟨escape text.toList, ?_, (escapeInPasses_eq_escape _).symm, hspelled, fun c hc => ?_,
    hspelled.isSealed.escaped⟩
  · rw [literal, String.toList_ofList, literalChars]
  · exact Bool.or_eq_false_iff.mp (hspelled.isShown_of_mem hc)

/-- A backslash in front of a quote mark, and one in front of a letter, are told from escapes;
so are a quoted name and the name itself. -/
theorem literal_exact_mixed :
    literal "\\\"\\n\n\u2028\x00é" = "\"\\\\\\\"\\\\n\\n\\u2028\\u0000é\"" ∧
      isWaiting ['\\', '\\', '\\'] = true ∧
      readLiteral? "\"\\\\\\\"\\\\n\\n\\u2028\\u0000é\"\"".toList =
        some ("\\\"\\n\n\u2028\x00é", ['"']) ∧
      readSpecifier? "\"a b\"".toList = some "a b" ∧
      readSpecifier? "default".toList = some "default" ∧
      specifier "\"default\"" ≠ specifier "default" := by
  obtain ⟨hbody, hread, -, hname, hinjective⟩ := literal_exact
  have hliteral : literal "\\\"\\n\n\u2028\x00é" = "\"\\\\\\\"\\\\n\\n\\u2028\\u0000é\"" := by
    decide
  have hspecifier : specifier "a b" = "\"a b\"" := by decide
  have hdefault : specifier "default" = "default" := by decide
  obtain ⟨body, hchars, -, -, -, hescaped⟩ := hbody "\\\"\\n\n\u2028\x00é"
  have hspelled : "\"\\\\\\\"\\\\n\\n\\u2028\\u0000é\"".toList =
      '"' :: (['\\', '\\', '\\'] ++ '"' :: "\\\\n\\n\\u2028\\u0000é".toList ++ ['"']) := by
    simp
  have hsplit : body = ['\\', '\\', '\\'] ++ '"' :: "\\\\n\\n\\u2028\\u0000é".toList := by
    rw [hliteral, hspelled] at hchars
    exact List.append_cancel_right (List.cons.inj hchars).2.symm
  refine ⟨hliteral, hescaped _ _ hsplit, ?_, ?_, ?_, fun heq => ?_⟩
  · have hquoted := hread "\\\"\\n\n\u2028\x00é" ['"']
    rw [hliteral] at hquoted
    exact hquoted
  · exact hspecifier ▸ hname "a b"
  · exact hdefault ▸ hname "default"
  · exact absurd (hinjective heq) (by decide)

end Quoted

end ModuleLinker
