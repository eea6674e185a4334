import ModuleLinker.Interface.Statement
import ModuleLinker.Proofs.Imports.Sources

/-!
# Reading export lists

The export list of an interface names bindings, which are identifiers, and under which names
they are exported, which can be any names.  A reader by the grammar of the language finds all
of its entries, as it does for import lists.
-/

namespace ModuleLinker

open Identifier (isIdentifier)
open Token (Reads Writes)

namespace ListedExport

/-- The entry with two names: that of a binding and then the one under which it is exported. -/
def ofTokens? (first second : Token) : Option ListedExport :=
  first.binding?.bind fun binding => second.name?.map fun exported => ⟨binding, exported⟩

/-- The tokens of an entry. -/
def tokens (listed : ListedExport) : List Token :=
  if listed.binding = listed.exported && isIdentifier listed.exported then [.word listed.binding]
  else [.word listed.binding, .word "as", .ofName listed.exported]

variable {listed : ListedExport}

/-- An entry whose binding is an identifier is read as it is. -/
theorem writes (h : isIdentifier listed.binding = true) :
    Writes ofTokens? source tokens listed := by
  obtain ⟨binding, exported⟩ := listed
  have hspelled := Identifier.isSpelled_of_isIdentifier h
  have hbinding := Token.binding?_word h
  by_cases hshort : (decide (binding = exported) && isIdentifier exported) = true
  · obtain rfl : binding = exported := of_decide_eq_true ((Bool.and_eq_true _ _).mp hshort).1
    refine .once (Token.isName_word hspelled) ?_ (if_pos hshort) (if_pos hshort)
    rw [ofTokens?, hbinding, Token.name?, Option.bind_some, Option.map_some]
  · refine .twice (Token.isName_word hspelled) (Token.isName_specifier exported) ?_
      (if_neg hshort) (if_neg hshort)
    rw [ofTokens?, hbinding, Token.name?_ofName, Option.bind_some, Option.map_some]

end ListedExport

namespace Interface

/-- The export list that some tokens make. -/
def listOfTokens? : List Token → Option (List ListedExport)
  | .word "export" :: .mark '\x7b' :: tokens =>
    match Token.entries? ListedExport.ofTokens? tokens with
    | some (listed, [.mark ';']) => some listed
    | _ => none
  | _ => none

/-- Read an export list in front of a text, and the rest. -/
def readList? : List Char → Option (List ListedExport × List Char) :=
  Token.readStatement? listOfTokens?

/-- The tokens of an export list. -/
def listTokens (listed : List ListedExport) : List Token :=
  .word "export" :: .mark '\x7b' ::
    ([.mark ','].intercalate (listed.map ListedExport.tokens) ++ [.mark '\x7d', .mark ';'])

/-- What an interface has in front of its export list. -/
def frontSource (interface : Interface) : String :=
  (if interface.isAsynchronous then awaitSource else "") ++
    String.join (interface.aliases.map (aliasSource interface.keyword))

/-- What an interface has behind its export list. -/
def backSource (interface : Interface) : String :=
  String.join (interface.declared.map (declaredSource interface.keyword))

theorem source_of_listed {interface : Interface} (h : interface.listed ≠ []) :
    interface.source =
      interface.frontSource ++ listSource interface.listed ++ interface.backSource := by
  have hlisted : ¬ interface.listed.isEmpty = true := fun hempty => h (List.isEmpty_iff.mp hempty)
  rw [source, if_neg hlisted]
  rfl

/-- The end of an export list is that of a statement. -/
theorem listSource_eq (listed : List ListedExport) :
    listSource listed = "export \x7b " ++
      String.intercalate ", " (listed.map ListedExport.source) ++ " \x7d" ++ ";\n" := by
  have hend : " \x7d;\n" = " \x7d" ++ ";\n" := rfl
  rw [listSource, hend, ← String.append_assoc]

variable {listed : List ListedExport}

theorem readAll?_listSource (h : ∀ entry ∈ listed, isIdentifier entry.binding = true)
    (rest : List Char) :
    Token.readAll? ((listSource listed).toList ++ rest) =
      some (listTokens listed, '\n' :: rest) := by
  have hfront (rest : List Char) : Reads "export \x7b " [.word "export", .mark '\x7b'] rest := by
    have hsplit : "export \x7b " = "export" ++ " " ++ "\x7b " := by decide
    rw [hsplit]
    exact (Token.reads_word_blank "export" (by decide) _).append (Token.reads_open rest)
  have hwrites := fun entry hentry => ListedExport.writes (h entry hentry)
  have hread := (((hfront _).append (Token.reads_intercalate hwrites
    (Token.endsWord_append ⟨' ', _, rfl, by decide⟩ _))).append
      (Token.reads_close (";\n".toList ++ rest))).readAll?_semicolon
  rw [listSource_eq, listTokens]
  simpa only [List.append_assoc, List.cons_append, List.nil_append] using hread

theorem listOfTokens?_listTokens (h : ∀ entry ∈ listed, isIdentifier entry.binding = true) :
    listOfTokens? (listTokens listed) = some listed := by
  have hentries := Token.entries?_intercalate
    (fun entry hentry => ListedExport.writes (h entry hentry)) [.mark ';']
  rw [listTokens, listOfTokens?, hentries]
  rfl

/-- An export list is read as it is, up to the end of its line. -/
theorem readList?_listSource (h : ∀ entry ∈ listed, isIdentifier entry.binding = true)
    (rest : List Char) :
    readList? ((listSource listed).toList ++ rest) = some (listed, '\n' :: rest) := by
  rw [readList?, Token.readStatement?, readAll?_listSource h, Option.bind_some,
    listOfTokens?_listTokens h]
  rfl

theorem isLine_listSource (h : ∀ entry ∈ listed, isIdentifier entry.binding = true) :
    IsLine (listSource listed) := by
  have hfront : StaysOnLine "export \x7b " := by decide
  have hlist := Token.staysOnLine_intercalate fun entry hentry =>
    ListedExport.writes (h entry hentry)
  have hback : StaysOnLine " \x7d" := by decide
  rw [listSource_eq]
  exact ((hfront.append hlist).append hback).isLine

/-- Import statements and export lists whose bindings are identifiers stand on one line each
and are read back as they are, whatever comes after them.  The export list of an interface
stands between its aliases and its own declarations. -/
theorem specifier_lists_read_back :
    (∀ statement : ImportStatement,
      (∀ name ∈ statement.bindings, isIdentifier name = true) →
      IsLine statement.source ∧ ∀ rest : List Char,
        ImportStatement.read? (statement.source.toList ++ rest) =
          some (statement, '\n' :: rest)) ∧
      ∀ interface : Interface, interface.listed ≠ [] →
        (∀ listed ∈ interface.listed, isIdentifier listed.binding = true) →
        interface.source =
            interface.frontSource ++ listSource interface.listed ++ interface.backSource ∧
          IsLine (listSource interface.listed) ∧ ∀ rest : List Char,
            readList? ((listSource interface.listed).toList ++ rest) =
              some (interface.listed, '\n' :: rest) :=
  ⟨fun _ hbindings => ⟨ImportStatement.isLine_source hbindings,
      ImportStatement.read?_source hbindings⟩,
    fun _ hlisted hbindings => ⟨source_of_listed hlisted, isLine_listSource hbindings,
      readList?_listSource hbindings⟩⟩

/-- Names that hold braces, quote marks, words of the grammar or control characters, reserved
words, and bindings that are called `as`. -/
theorem specifier_lists_read_back_mixed :
    ImportStatement.read? ("import \x7b x, default as d, \"class\" as c, " ++
        "\"p, \\\"q\\\" \x7d from\" as as \x7d from \"a\\u0000\\n\";\n").toList =
      some (⟨"a\x00\n", [⟨"x", "x"⟩, ⟨"default", "d"⟩, ⟨"class", "c"⟩,
        ⟨"p, \"q\" \x7d from", "as"⟩]⟩, ['\n']) ∧
      ∀ rest : List Char, readList?
          ("export \x7b as, as as default, e as \"\", e as \"a as b\" \x7d;\n".toList ++ rest) =
        some ([⟨"as", "as"⟩, ⟨"as", "default"⟩, ⟨"e", ""⟩, ⟨"e", "a as b"⟩], '\n' :: rest) := by
  obtain ⟨himport, hexport⟩ := specifier_lists_read_back
  obtain ⟨-, hread⟩ := himport ⟨"a\x00\n", [⟨"x", "x"⟩, ⟨"default", "d"⟩, ⟨"class", "c"⟩,
    ⟨"p, \"q\" \x7d from", "as"⟩]⟩ (by decide)
  obtain ⟨-, -, hlist⟩ := hexport ⟨⟨0⟩, false, "const", [], [],
    [⟨"as", "as"⟩, ⟨"as", "default"⟩, ⟨"e", ""⟩, ⟨"e", "a as b"⟩], [], false⟩ (by decide)
    (by decide)
  have himported : ImportStatement.source ⟨"a\x00\n", [⟨"x", "x"⟩, ⟨"default", "d"⟩,
      ⟨"class", "c"⟩, ⟨"p, \"q\" \x7d from", "as"⟩]⟩ =
      "import \x7b x, default as d, \"class\" as c, " ++
        "\"p, \\\"q\\\" \x7d from\" as as \x7d from \"a\\u0000\\n\";\n" := by decide
  have hlisted : listSource [⟨"as", "as"⟩, ⟨"as", "default"⟩, ⟨"e", ""⟩, ⟨"e", "a as b"⟩] =
      "export \x7b as, as as default, e as \"\", e as \"a as b\" \x7d;\n" := by decide
  refine ⟨?_, fun rest => ?_⟩
  · rw [← himported, ← List.append_nil (String.toList _), hread]
  · rw [← hlisted, hlist]

end Interface

end ModuleLinker
