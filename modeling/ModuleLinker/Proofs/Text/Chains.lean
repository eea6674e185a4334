import ModuleLinker.Proofs.Text.Quoted
import ModuleLinker.Proofs.Text.Tokens

/-!
# Reading chains of property accesses

The language accesses a property by a dot and a word, or by a string literal in brackets.  A
reader of its tokens finds where each access of a chain ends, whatever the names are, so a
chain determines the list of its names.  An identifier in front of a chain ends where the
chain begins.
-/

namespace ModuleLinker

namespace Quoted

open Identifier (isIdentifier isReserved isSpelled)
open Token (EndsWord Reads readAll?)

/-! ## The rule of the language -/

/-- The names along the accesses that a list of tokens is made of.  Reserved words may stand
behind a dot, too. -/
def accesses? : List Token → Option (List String)
  | [] => some []
  | .mark '.' :: .word name :: rest => (accesses? rest).map (name :: ·)
  | .mark '[' :: .text name :: .mark ']' :: rest => (accesses? rest).map (name :: ·)
  | _ => none

/-- The names along a chain of accesses that is all of a text. -/
def readChain? (cs : List Char) : Option (List String) :=
  match readAll? cs with
  | some (tokens, []) => accesses? tokens
  | _ => none

/-! ## Chains in generated code -/

/-- The tokens of the access to one property. -/
def propertyTokens (name : String) : List Token :=
  if isIdentifier name || isReserved name then [.mark '.', .word name]
  else [.mark '[', .text name, .mark ']']

theorem reads_property (name : String) {rest : List Char} (hrest : EndsWord rest) :
    Reads (property name) (propertyTokens name) rest := by
  rw [property, propertyTokens]
  split
  · rename_i hbare
    have hspelled : isSpelled name.toList = true := by
      rcases (Bool.or_eq_true _ _).mp hbare with hidentifier | hword
      · exact Identifier.isSpelled_of_isIdentifier hidentifier
      · exact Identifier.isSpelled_of_isReserved hword
    have hdot : Reads "." [.mark '.'] (name.toList ++ rest) :=
      Token.reads_mark (by decide) (by decide) rfl _
    exact hdot.append (Token.reads_word hspelled hrest)
  · have hopen : Reads "[" [.mark '['] ((literal name ++ "]").toList ++ rest) :=
      Token.reads_mark (by decide) (by decide) rfl _
    have hname : Reads (literal name) [.text name] ("]".toList ++ rest) :=
      Token.reads_literal name _
    have hclose : Reads "]" [.mark ']'] rest :=
      Token.reads_mark (by decide) (by decide) rfl _
    rw [String.append_assoc]
    exact hopen.append (hname.append hclose)

/-- A chain ends a word in front of it, unless something continues the word behind the chain. -/
theorem endsWord_propertyChain (names : List String) {rest : List Char} (hrest : EndsWord rest) :
    EndsWord ((propertyChain names).toList ++ rest) := by
  cases names with
  | nil => exact hrest
  | cons name names =>
    rw [propertyChain, List.map_cons, String.join_cons, String.toList_append, List.append_assoc]
    exact Token.endsWord_append (endsBefore_property name) _

theorem reads_propertyChain (names : List String) {rest : List Char} (hrest : EndsWord rest) :
    Reads (propertyChain names) (names.flatMap propertyTokens) rest := by
  induction names with
  | nil => exact Token.reads_nil rest
  | cons name names ih =>
    rw [propertyChain, List.map_cons, String.join_cons, List.flatMap_cons]
    exact (reads_property name (endsWord_propertyChain names hrest)).append ih

theorem accesses?_flatMap_propertyTokens (names : List String) :
    accesses? (names.flatMap propertyTokens) = some names := by
  induction names with
  | nil => rfl
  | cons name names ih =>
    rw [List.flatMap_cons, propertyTokens]
    split
    · rw [List.cons_append, List.cons_append, List.nil_append, accesses?, ih, Option.map_some]
    · rw [List.cons_append, List.cons_append, List.cons_append, List.nil_append, accesses?, ih,
        Option.map_some]

theorem readChain?_propertyChain (names : List String) :
    readChain? (propertyChain names).toList = some names := by
  have hread := reads_propertyChain names Token.endsWord_nil
  rw [Reads, List.append_nil] at hread
  rw [readChain?, hread, readAll?, Option.map_some]
  dsimp only [Prod.map_apply, id]
  rw [List.append_nil, accesses?_flatMap_propertyTokens]

theorem propertyChain_injective {first second : List String}
    (h : propertyChain first = propertyChain second) : first = second := by
  have hread := readChain?_propertyChain first
  rw [h, readChain?_propertyChain] at hread
  exact (Option.some.inj hread).symm

/-- An identifier in front of a chain can be told from it. -/
theorem append_propertyChain_inj {first second : String} {names others : List String}
    (hfirst : isIdentifier first = true) (hsecond : isIdentifier second = true)
    (h : first ++ propertyChain names = second ++ propertyChain others) :
    first = second ∧ names = others := by
  have hword {name : String} (hname : isIdentifier name = true) (names : List String) :
      (name ++ propertyChain names).toList.takeWhile Identifier.isPart = name.toList := by
    have hends := endsWord_propertyChain names Token.endsWord_nil
    rw [List.append_nil] at hends
    rw [String.toList_append, hends.takeWhile_append (Identifier.all_isPart_of_isIdentifier hname)]
  have hchars := hword hfirst names
  rw [h, hword hsecond others] at hchars
  obtain rfl := String.toList_inj.mp hchars
  exact ⟨rfl, propertyChain_injective ((String.append_right_inj _).mp h)⟩

/-- Every chain is read back as the names along it.  So different lists of names have
different chains, and an identifier followed by a chain determines both. -/
theorem propertyChain_reads_back :
    (∀ names : List String, readChain? (propertyChain names).toList = some names) ∧
      Function.Injective propertyChain ∧
      ∀ (first second : String) (names others : List String), isIdentifier first = true →
        isIdentifier second = true →
        first ++ propertyChain names = second ++ propertyChain others →
        first = second ∧ names = others :=
  ⟨readChain?_propertyChain, fun _ _ => propertyChain_injective,
    fun _ _ _ _ => append_propertyChain_inj⟩

/-- Names that hold marks, quote marks, backslashes or line separators, the empty name and a
reserved word are told apart, and so are a dot in a name and a dot between names. -/
theorem propertyChain_reads_back_quoted :
    propertyChain ["class", "", "a.b", "x\"]", "\\n", "\u2028", "z"] =
        ".class[\"\"][\"a.b\"][\"x\\\"]\"][\"\\\\n\"][\"\\u2028\"].z" ∧
      readChain? ".class[\"\"][\"a.b\"][\"x\\\"]\"][\"\\\\n\"][\"\\u2028\"].z".toList =
        some ["class", "", "a.b", "x\"]", "\\n", "\u2028", "z"] ∧
      "a" ++ propertyChain ["b.c"] ≠ "a" ++ propertyChain ["b", "c"] := by
  obtain ⟨hread, -, hfront⟩ := propertyChain_reads_back
  have hchain : propertyChain ["class", "", "a.b", "x\"]", "\\n", "\u2028", "z"] =
      ".class[\"\"][\"a.b\"][\"x\\\"]\"][\"\\\\n\"][\"\\u2028\"].z" := by decide
  refine ⟨hchain, hchain ▸ hread _, fun h => ?_⟩
  exact absurd (hfront "a" "a" _ _ (by decide) (by decide) h).2 (by decide)

end Quoted

end ModuleLinker
