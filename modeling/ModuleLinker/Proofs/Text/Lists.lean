import ModuleLinker.Proofs.Text.Tokens

/-!
# Reading lists in braces

An entry of an import or export list has one name, or two with the word `as` between them.
What the names may be differs between the two kinds of lists, so it is a parameter of the
reader.  A list that is written with a comma between any two entries is read as it was,
whichever of the two forms each entry has.  Nothing in such a list ends the line.
-/

namespace ModuleLinker

/-! ## Texts on one line -/

/-- A text in which no line ends. -/
def StaysOnLine (text : String) : Prop := ∀ c ∈ text.toList, Quoted.isLineEnd c = false

instance (text : String) : Decidable (StaysOnLine text) :=
  List.decidableBAll _ text.toList

/-- A text that is one line, with the end of that line. -/
def IsLine (text : String) : Prop := ∃ line, StaysOnLine line ∧ text = line ++ "\n"

namespace StaysOnLine

variable {text other : String}

theorem append (htext : StaysOnLine text) (hother : StaysOnLine other) :
    StaysOnLine (text ++ other) := by
  intro c hc
  rw [String.toList_append, List.mem_append] at hc
  exact hc.elim (htext c) (hother c)

theorem intercalate {separator : String} {texts : List String}
    (hseparator : StaysOnLine separator) (h : ∀ text ∈ texts, StaysOnLine text) :
    StaysOnLine (String.intercalate separator texts) := by
  induction texts with
  | nil => exact fun c hc => absurd hc (by simp)
  | cons text texts ih =>
    obtain ⟨htext, htexts⟩ := List.forall_mem_cons.mp h
    cases texts with
    | nil => rwa [String.intercalate_singleton]
    | cons other texts =>
      rw [String.intercalate_cons_cons]
      exact (htext.append hseparator).append (ih htexts)

/-- A semicolon and the end of the line make a text a line. -/
theorem isLine (htext : StaysOnLine text) : IsLine (text ++ ";\n") := by
  have hsemicolon : StaysOnLine ";" := by decide
  refine ⟨text ++ ";", htext.append hsemicolon, ?_⟩
  rw [String.append_assoc]
  rfl

theorem literal (text : String) : StaysOnLine (Quoted.literal text) :=
  fun _ => Quoted.isLineEnd_of_mem_literal

theorem isLineEnd_of_isPart {c : Char} (h : Identifier.isPart c = true) :
    Quoted.isLineEnd c = false := by
  rw [Bool.eq_false_iff]
  intro hend
  have hcases : c = '\n' ∨ c = '\r' ∨ c = '\u2028' ∨ c = '\u2029' := by
    simp only [Quoted.isLineEnd, Quoted.isLineSeparator, Bool.or_eq_true, beq_iff_eq,
      or_assoc, ← Char.toNat_inj] at hend ⊢
    exact hend
  rcases hcases with rfl | rfl | rfl | rfl <;> exact absurd h (by decide)

theorem of_isSpelled {name : String} (h : Identifier.isSpelled name.toList = true) :
    StaysOnLine name :=
  fun c hc => isLineEnd_of_isPart
    (List.all_eq_true.mp (Identifier.all_isPart_of_isSpelled h) c hc)

end StaysOnLine

namespace Token

open Identifier (isIdentifier isSpelled)

variable {α : Type} {read? : Token → Token → Option α}

/-! ## The rule of the language -/

/-- The name of a foreign binding: any word or string literal. -/
def name? : Token → Option String
  | .word name => some name
  | .text value => some value
  | .mark _ => none

/-- The name of a binding: a word that is not reserved. -/
def binding? : Token → Option String
  | .word name => if isIdentifier name then some name else none
  | .text _ | .mark _ => none

/-- The entries behind an opening brace up to the closing one, and the rest.  The last entry
may have a comma behind it. -/
def entries? (read? : Token → Token → Option α) : List Token → Option (List α × List Token)
  | .mark '\x7d' :: rest => some ([], rest)
  | token :: .mark '\x7d' :: rest => (read? token token).map fun entry => ([entry], rest)
  | token :: .mark ',' :: rest =>
    (read? token token).bind fun entry => (entries? read? rest).map (Prod.map (entry :: ·) id)
  | first :: .word "as" :: second :: .mark '\x7d' :: rest =>
    (read? first second).map fun entry => ([entry], rest)
  | first :: .word "as" :: second :: .mark ',' :: rest =>
    (read? first second).bind fun entry => (entries? read? rest).map (Prod.map (entry :: ·) id)
  | _ => none

/-! ## Names in generated code -/

/-- The token of a name of a foreign binding. -/
def ofName (name : String) : Token :=
  if isIdentifier name || name == "default" then .word name else .text name

theorem name?_ofName (name : String) : (ofName name).name? = some name := by
  rw [ofName]
  split <;> rfl

theorem binding?_word {name : String} (h : isIdentifier name = true) :
    (word name).binding? = some name := if_pos h

/-- A name that is written bare is a word. -/
theorem isSpelled_of_isBare {name : String}
    (h : (isIdentifier name || name == "default") = true) : isSpelled name.toList = true := by
  rcases (Bool.or_eq_true _ _).mp h with hidentifier | hdefault
  · exact Identifier.isSpelled_of_isIdentifier hidentifier
  · rw [beq_iff_eq.mp hdefault]
    decide

/-- A text that is read as one token, which is no mark, and that stays on its line. -/
structure IsName (text : String) (token : Token) : Prop where
  reads : ∀ rest, EndsWord rest → Reads text [token] rest
  notMark : ∀ c, token ≠ .mark c
  staysOnLine : StaysOnLine text

theorem isName_word {name : String} (h : isSpelled name.toList = true) :
    IsName name (.word name) where
  reads _ hrest := reads_word h hrest
  notMark _ := by simp
  staysOnLine := StaysOnLine.of_isSpelled h

theorem isName_literal (text : String) : IsName (Quoted.literal text) (.text text) where
  reads rest _ := reads_literal text rest
  notMark _ := by simp
  staysOnLine := StaysOnLine.literal text

theorem isName_specifier (name : String) : IsName (Quoted.specifier name) (ofName name) := by
  rw [Quoted.specifier, ofName]
  split
  · rename_i hbare
    exact isName_word (isSpelled_of_isBare hbare)
  · exact isName_literal name

/-! ## Lists in generated code -/

/-- The tokens of an entry: one that serves for both names, or one for each. -/
inductive Spells (read? : Token → Token → Option α) (entry : α) : List Token → Prop
  | once {token : Token} (hmark : token ≠ .mark '\x7d') (h : read? token token = some entry) :
      Spells read? entry [token]
  | twice {first second : Token} (hmark : first ≠ .mark '\x7d')
      (h : read? first second = some entry) : Spells read? entry [first, .word "as", second]

theorem Spells.entries?_close {entry : α} {tokens : List Token} (h : Spells read? entry tokens)
    (rest : List Token) :
    entries? read? (tokens ++ .mark '\x7d' :: rest) = some ([entry], rest) := by
  cases h with
  | once hmark h =>
    rw [List.singleton_append, entries?, h, Option.map_some]
    exact hmark
  | twice hmark h =>
    rw [List.cons_append, List.cons_append, List.singleton_append, entries?, h, Option.map_some]
    exact hmark

theorem Spells.entries?_comma {entry : α} {tokens : List Token} (h : Spells read? entry tokens)
    (rest : List Token) : entries? read? (tokens ++ .mark ',' :: rest) =
      (entries? read? rest).map (Prod.map (entry :: ·) id) := by
  cases h with
  | once hmark h =>
    rw [List.singleton_append, entries?, h, Option.bind_some]
    exact hmark
  | twice hmark h =>
    rw [List.cons_append, List.cons_append, List.singleton_append, entries?, h, Option.bind_some]
    exact hmark

/-- The source of an entry has tokens that are read as the entry, and no end of a line. -/
structure Writes (read? : Token → Token → Option α) (source : α → String)
    (tokens : α → List Token) (entry : α) : Prop where
  spells : Spells read? entry (tokens entry)
  reads : ∀ rest, EndsWord rest → Reads (source entry) (tokens entry) rest
  staysOnLine : StaysOnLine (source entry)

section

variable {source : α → String} {tokens : α → List Token}

/-- An entry with one name. -/
theorem Writes.once {entry : α} {text : String} {token : Token} (h : IsName text token)
    (hread : read? token token = some entry) (hsource : source entry = text)
    (htokens : tokens entry = [token]) : Writes read? source tokens entry where
  spells := htokens ▸ .once (h.notMark _) hread
  reads rest hrest := by
    rw [hsource, htokens]
    exact h.reads rest hrest
  staysOnLine := hsource ▸ h.staysOnLine

/-- An entry with two names. -/
theorem Writes.twice {entry : α} {text other : String} {first second : Token}
    (hfirst : IsName text first) (hsecond : IsName other second)
    (hread : read? first second = some entry) (hsource : source entry = text ++ " as " ++ other)
    (htokens : tokens entry = [first, .word "as", second]) :
    Writes read? source tokens entry where
  spells := htokens ▸ .twice (hfirst.notMark _) hread
  reads rest hrest := by
    rw [hsource, htokens]
    exact ((hfirst.reads _ (endsWord_append ⟨' ', _, rfl, by decide⟩ _)).append
      (reads_as _)).append (hsecond.reads rest hrest)
  staysOnLine := by
    have has : StaysOnLine " as " := by decide
    rw [hsource]
    exact (hfirst.staysOnLine.append has).append hsecond.staysOnLine

variable {entries : List α}

/-- The tokens of a list are read as its entries up to the closing brace. -/
theorem entries?_intercalate (h : ∀ entry ∈ entries, Writes read? source tokens entry)
    (rest : List Token) :
    entries? read? ([.mark ','].intercalate (entries.map tokens) ++ .mark '\x7d' :: rest) =
      some (entries, rest) := by
  induction entries with
  | nil => rw [List.map_nil, List.intercalate_nil, List.nil_append, entries?]
  | cons entry entries ih =>
    obtain ⟨hentry, hentries⟩ := List.forall_mem_cons.mp h
    cases entries with
    | nil =>
      rw [List.map_singleton, List.intercalate_singleton, hentry.spells.entries?_close]
    | cons other entries =>
      rw [List.map_cons, List.map_cons, List.intercalate_cons_cons, List.append_assoc,
        List.append_assoc, List.singleton_append, hentry.spells.entries?_comma, ← List.map_cons,
        ih hentries]
      rfl

/-- A list in generated code is read entry by entry. -/
theorem reads_intercalate (h : ∀ entry ∈ entries, Writes read? source tokens entry)
    {rest : List Char} (hrest : EndsWord rest) :
    Reads (String.intercalate ", " (entries.map source))
      ([.mark ','].intercalate (entries.map tokens)) rest := by
  induction entries with
  | nil => exact reads_nil rest
  | cons entry entries ih =>
    obtain ⟨hentry, hentries⟩ := List.forall_mem_cons.mp h
    cases entries with
    | nil =>
      rw [List.map_singleton, List.map_singleton, String.intercalate_singleton,
        List.intercalate_singleton]
      exact hentry.reads rest hrest
    | cons other entries =>
      rw [List.map_cons, List.map_cons, List.map_cons, List.map_cons,
        String.intercalate_cons_cons, List.intercalate_cons_cons, ← List.map_cons, ← List.map_cons]
      exact ((hentry.reads _ (endsWord_append ⟨',', [' '], rfl, by decide⟩ _)).append
        (reads_comma _)).append (ih hentries)

theorem staysOnLine_intercalate (h : ∀ entry ∈ entries, Writes read? source tokens entry) :
    StaysOnLine (String.intercalate ", " (entries.map source)) := by
  have hcomma : StaysOnLine ", " := by decide
  refine hcomma.intercalate fun text htext => ?_
  obtain ⟨entry, hentry, rfl⟩ := List.mem_map.mp htext
  exact (h entry hentry).staysOnLine

end

end Token

end ModuleLinker
