import ModuleLinker.Linking
import ModuleLinker.Proofs.Text.Lists

/-!
# Reading import statements

An import statement names a module, and in front of it some of the module's exports and the
bindings that receive them.  A reader by the grammar of the language finds the request and
the entries of every import statement in generated code, whatever comes after it, provided
that bindings are identifiers.  So import statements in front of a text can be read off the
whole.
-/

namespace ModuleLinker

open Identifier (isIdentifier)
open Token (Reads Writes)

namespace ImportSpecifier

/-- The entry with two names: that of a foreign binding and then one of its own. -/
def ofTokens? (first second : Token) : Option ImportSpecifier :=
  first.name?.bind fun imported => second.binding?.map fun binding => ⟨imported, binding⟩

/-- The tokens of an entry. -/
def tokens (specifier : ImportSpecifier) : List Token :=
  if specifier.imported = specifier.binding then [.word specifier.binding]
  else [.ofName specifier.imported, .word "as", .word specifier.binding]

variable {specifier : ImportSpecifier}

/-- An entry whose binding is an identifier is read as it is. -/
theorem writes (h : isIdentifier specifier.binding = true) :
    Writes ofTokens? source tokens specifier := by
  obtain ⟨imported, binding⟩ := specifier
  have hspelled := Identifier.isSpelled_of_isIdentifier h
  have hbinding := Token.binding?_word h
  by_cases hsame : imported = binding
  · subst hsame
    refine .once (Token.isName_word hspelled) ?_ (if_pos rfl) (if_pos rfl)
    rw [ofTokens?, hbinding, Token.name?, Option.bind_some, Option.map_some]
  · refine .twice (Token.isName_specifier imported) (Token.isName_word hspelled) ?_
      (if_neg hsame) (if_neg hsame)
    rw [ofTokens?, hbinding, Token.name?_ofName, Option.bind_some, Option.map_some]

end ImportSpecifier

namespace ImportStatement

/-- The statement that some tokens make. -/
def ofTokens? : List Token → Option ImportStatement
  | [.word "import", .text request, .mark ';'] => some ⟨request, []⟩
  | .word "import" :: .mark '\x7b' :: tokens =>
    match Token.entries? ImportSpecifier.ofTokens? tokens with
    | some (specifiers, [.word "from", .text request, .mark ';']) => some ⟨request, specifiers⟩
    | _ => none
  | _ => none

/-- Read an import statement in front of a text, and the rest. -/
def read? : List Char → Option (ImportStatement × List Char) := Token.readStatement? ofTokens?

/-- The tokens of a statement. -/
def tokens (statement : ImportStatement) : List Token :=
  if statement.specifiers.isEmpty then [.word "import", .text statement.request, .mark ';']
  else
    .word "import" :: .mark '\x7b' ::
      ([.mark ','].intercalate (statement.specifiers.map ImportSpecifier.tokens) ++
        [.mark '\x7d', .word "from", .text statement.request, .mark ';'])

variable {statement : ImportStatement}

theorem writes_of_mem_specifiers
    (hbindings : ∀ name ∈ statement.bindings, isIdentifier name = true) :
    ∀ specifier ∈ statement.specifiers,
      Writes ImportSpecifier.ofTokens? ImportSpecifier.source ImportSpecifier.tokens specifier :=
  fun _ hspecifier => ImportSpecifier.writes (hbindings _ (List.mem_map_of_mem hspecifier))

theorem readAll?_source (hbindings : ∀ name ∈ statement.bindings, isIdentifier name = true)
    (rest : List Char) :
    Token.readAll? (statement.source.toList ++ rest) = some (statement.tokens, '\n' :: rest) := by
  have himport (rest : List Char) : Reads "import " [.word "import"] rest :=
    Token.reads_word_blank "import" (by decide) rest
  have hfront (rest : List Char) : Reads "import \x7b " [.word "import", .mark '\x7b'] rest := by
    have hsplit : "import \x7b " = "import " ++ "\x7b " := by decide
    rw [hsplit]
    exact (himport _).append (Token.reads_open rest)
  have hback (rest : List Char) : Reads " \x7d from " [.mark '\x7d', .word "from"] rest := by
    have hsplit : " \x7d from " = " \x7d" ++ (" " ++ ("from" ++ " ")) := by decide
    rw [hsplit]
    exact (Token.reads_close _).append
      ((Token.reads_blank _).append (Token.reads_word_blank "from" (by decide) rest))
  have hwrites := writes_of_mem_specifiers hbindings
  rw [source, tokens]
  split
  · exact ((himport _).append (Token.reads_literal _ _)).readAll?_semicolon
  · have hread := ((((hfront _).append (Token.reads_intercalate hwrites
      (Token.endsWord_append ⟨' ', _, rfl, by decide⟩ _))).append (hback _)).append
        (Token.reads_literal statement.request (";\n".toList ++ rest))).readAll?_semicolon
    simpa only [List.append_assoc, List.cons_append, List.nil_append] using hread

theorem ofTokens?_tokens (hbindings : ∀ name ∈ statement.bindings, isIdentifier name = true) :
    ofTokens? statement.tokens = some statement := by
  have hentries := Token.entries?_intercalate (writes_of_mem_specifiers hbindings)
    [.word "from", .text statement.request, .mark ';']
  obtain ⟨request, specifiers⟩ := statement
  rw [tokens]
  split
  · rename_i hempty
    obtain rfl := List.isEmpty_iff.mp hempty
    rfl
  · rw [ofTokens?, hentries]
    rfl

/-- An import statement is read as it is, up to the end of its line. -/
theorem read?_source (hbindings : ∀ name ∈ statement.bindings, isIdentifier name = true)
    (rest : List Char) :
    read? (statement.source.toList ++ rest) = some (statement, '\n' :: rest) := by
  rw [read?, Token.readStatement?, readAll?_source hbindings, Option.bind_some,
    ofTokens?_tokens hbindings]
  rfl

theorem isLine_source (hbindings : ∀ name ∈ statement.bindings, isIdentifier name = true) :
    IsLine statement.source := by
  have hrequest := StaysOnLine.literal statement.request
  have hlist := Token.staysOnLine_intercalate (writes_of_mem_specifiers hbindings)
  rw [source]
  split
  · have himport : StaysOnLine "import " := by decide
    exact (himport.append hrequest).isLine
  · have hfront : StaysOnLine "import \x7b " := by decide
    have hback : StaysOnLine " \x7d from " := by decide
    exact (((hfront.append hlist).append hback).append hrequest).isLine

/-- Statements with identifiers for their bindings are written differently if they are
different, whatever is written after them. -/
theorem source_append_inj {first second : ImportStatement} {text other : String}
    (hfirst : ∀ name ∈ first.bindings, isIdentifier name = true)
    (hsecond : ∀ name ∈ second.bindings, isIdentifier name = true)
    (h : first.source ++ text = second.source ++ other) : first = second ∧ text = other := by
  have hread := read?_source hfirst text.toList
  rw [← String.toList_append, h, String.toList_append, read?_source hsecond] at hread
  obtain ⟨hsame, hrest⟩ := Prod.mk.inj (Option.some.inj hread)
  exact ⟨hsame.symm, String.toList_inj.mp (List.cons.inj hrest).2.symm⟩

end ImportStatement

namespace Build

/-- The import statements in front of a text can be read off the whole. -/
theorem importSource_append_inj {firsts seconds : List ImportStatement} {text other : String}
    (hlength : firsts.length = seconds.length)
    (hfirsts : ∀ name ∈ firsts.flatMap ImportStatement.bindings, isIdentifier name = true)
    (hseconds : ∀ name ∈ seconds.flatMap ImportStatement.bindings, isIdentifier name = true)
    (h : importSource firsts ++ text = importSource seconds ++ other) :
    firsts = seconds ∧ text = other := by
  induction firsts generalizing seconds with
  | nil =>
    obtain rfl := List.length_eq_zero_iff.mp hlength.symm
    exact ⟨rfl, (String.append_right_inj _).mp h⟩
  | cons first firsts ih =>
    cases seconds with
    | nil => exact absurd hlength (by simp)
    | cons second seconds =>
      rw [List.flatMap_cons, List.forall_mem_append] at hfirsts hseconds
      simp only [importSource, List.map_cons, String.join_cons, String.append_assoc] at h ih
      obtain ⟨rfl, htail⟩ := ImportStatement.source_append_inj hfirsts.1 hseconds.1 h
      obtain ⟨rfl, htext⟩ := ih (Nat.succ.inj hlength) hfirsts.2 hseconds.2 htail
      exact ⟨rfl, htext⟩

end Build

end ModuleLinker
