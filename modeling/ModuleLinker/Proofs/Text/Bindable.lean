import ModuleLinker.Proofs.Scope.Requests

/-!
# Names that a module may bind

The language has its own rule for what can be bound in the code of an ES module, which is
always strict: which characters a name may have, which words are reserved, and that `eval`
and `arguments` may be used and not bound.  Identifiers keep to this rule but for those two
names.  Cleaning and numbering never make one of them, so a request ends at one of them only
if that is what it prefers and it is free.
-/

namespace ModuleLinker

namespace Identifier

/-! ## The rule of the language -/

/-- An ASCII letter, `_` or `$`. -/
def IsLetter (c : Char) : Prop :=
  'A' ≤ c ∧ c ≤ 'Z' ∨ 'a' ≤ c ∧ c ≤ 'z' ∨ c = '_' ∨ c = '$'

/-- An ASCII digit. -/
def IsDigit (c : Char) : Prop := '0' ≤ c ∧ c ≤ '9'

/-- The words that are reserved in all code. -/
def keywords : List String :=
  ["break", "case", "catch", "class", "const", "continue", "debugger", "default", "delete",
    "do", "else", "enum", "export", "extends", "false", "finally", "for", "function", "if",
    "import", "in", "instanceof", "new", "null", "return", "super", "switch", "this", "throw",
    "true", "try", "typeof", "var", "void", "while", "with"]

/-- The words that are reserved in strict code, too. -/
def strictWords : List String :=
  ["implements", "interface", "let", "package", "private", "protected", "public", "static",
    "yield"]

/-- The word that is reserved in modules, too. -/
def moduleWords : List String := ["await"]

/-- The names that strict code may use but not bind. -/
def restrictedNames : List String := ["eval", "arguments"]

/-- Whether a name is spelled like an identifier and is no reserved word of a module. -/
structure IsWord (name : String) : Prop where
  spelled : ∃ c rest, name.toList = c :: rest ∧ IsLetter c ∧ ∀ d ∈ rest, IsLetter d ∨ IsDigit d
  notReserved : name ∉ keywords ++ strictWords ++ moduleWords

/-- Whether the code of a module may bind a name. -/
structure IsBindable (name : String) : Prop extends IsWord name where
  notRestricted : name ∉ restrictedNames

/-! ## Identifiers and the rule -/

theorem isStart_iff {c : Char} : isStart c = true ↔ IsLetter c := by
  unfold isStart Char.isAlpha Char.isUpper Char.isLower
  simp only [IsLetter, Char.le_def, Bool.or_eq_true, Bool.and_eq_true, decide_eq_true_eq,
    beq_iff_eq, or_assoc]

theorem isPart_iff {c : Char} : isPart c = true ↔ IsLetter c ∨ IsDigit c := by
  rw [← isStart_iff, IsDigit]
  simp only [isStart, isPart, Char.isAlphanum, Char.isDigit, Char.le_def, Bool.or_eq_true,
    Bool.and_eq_true, decide_eq_true_eq]
  tauto

/-- The list of reserved words is that of the language. -/
theorem isReserved_iff {name : String} :
    isReserved name = true ↔ name ∈ keywords ++ strictWords ++ moduleWords := by
  have hwords : reservedWords.Perm (keywords ++ strictWords ++ moduleWords) := by decide
  exact List.contains_iff_mem.trans hwords.mem_iff

theorem isSpelled_iff {cs : List Char} :
    isSpelled cs = true ↔
      ∃ c rest, cs = c :: rest ∧ IsLetter c ∧ ∀ d ∈ rest, IsLetter d ∨ IsDigit d := by
  cases cs with
  | nil => simp [isSpelled]
  | cons c rest =>
    rw [isSpelled, Bool.and_eq_true, isStart_iff, List.all_eq_true]
    simp only [isPart_iff]
    constructor
    · exact fun h => ⟨c, rest, rfl, h⟩
    · rintro ⟨_, _, ⟨rfl, rfl⟩, h⟩
      exact h

/-- Identifiers are exactly the words that are not reserved. -/
theorem isIdentifier_iff {name : String} : isIdentifier name = true ↔ IsWord name := by
  rw [isIdentifier, Bool.and_eq_true, isSpelled_iff, Bool.not_eq_true', ← Bool.not_eq_true,
    isReserved_iff]
  exact ⟨fun h => ⟨h.1, h.2⟩, fun h => ⟨h.spelled, h.notReserved⟩⟩

theorem isBindable_iff {name : String} :
    IsBindable name ↔ isIdentifier name = true ∧ name ∉ restrictedNames := by
  rw [isIdentifier_iff]
  exact ⟨fun h => ⟨h.toIsWord, h.notRestricted⟩, fun h => ⟨h.1, h.2⟩⟩

theorem isIdentifier_of_mem_restrictedNames {name : String} (h : name ∈ restrictedNames) :
    isIdentifier name = true := by
  have hnames : ∀ restricted ∈ restrictedNames, isIdentifier restricted = true := by decide
  exact hnames name h

theorem underscore_notMem_of_mem_restrictedNames {name : String} (h : name ∈ restrictedNames) :
    '_' ∉ name.toList := by
  have hnames : ∀ restricted ∈ restrictedNames, '_' ∉ restricted.toList := by decide
  exact hnames name h

/-- Collapsing leaves characters without a `_` only where it found nothing to collapse. -/
theorem collapse_of_underscore_notMem {cs : List Char} (h : '_' ∉ collapse false cs) :
    collapse false cs = cs := by
  induction cs with
  | nil => rfl
  | cons c rest ih =>
    rw [collapse] at h ⊢
    split at h
    · rename_i hpart
      rw [if_pos hpart, ih fun hmem => h (List.mem_cons_of_mem _ hmem)]
    · exact absurd List.mem_cons_self h

theorem clean_of_underscore_notMem {name : String} (h : '_' ∉ (clean name).toList) :
    clean name = name := by
  have hchars : cleanChars name.toList = name.toList := by
    rw [toList_clean] at h
    cases hname : name.toList with
    | nil => rfl
    | cons c rest =>
      rw [hname, cleanChars] at h
      rw [cleanChars]
      split at h
      · rename_i hstart
        rw [if_pos hstart, collapse_of_underscore_notMem h]
      · exact absurd List.mem_cons_self h
  rw [clean, hchars, String.ofList_toList]

theorem bindingBase_of_underscore_notMem {name : String} (h : '_' ∉ (bindingBase name).toList) :
    bindingBase name = name := by
  rw [bindingBase] at h ⊢
  split at h
  · rename_i hidentifier
    rw [if_pos hidentifier, clean_of_underscore_notMem h]
  · rw [String.toList_append] at h
    exact absurd (List.mem_append_left _ (by decide)) h

end Identifier

namespace Scope

open Identifier (IsWord IsBindable restrictedNames)

/-- A `_` of the base is in every candidate. -/
theorem underscore_mem_candidate {base : String} (h : '_' ∈ base.toList) (i : Nat) :
    '_' ∈ (candidate base i).toList := by
  rw [candidate]
  split
  · exact h
  · rw [String.toList_append, String.toList_append]
    exact List.mem_append_left _ (List.mem_append_left _ h)

theorem underscore_mem_candidate_of_pos (base : String) {i : Nat} (h : i ≠ 0) :
    '_' ∈ (candidate base i).toList := by
  rw [candidate, if_neg h, String.toList_append, String.toList_append]
  exact List.mem_append_left _ (List.mem_append_right _ (by decide))

/-- A request yields a restricted name exactly when it prefers it and finds it free. -/
theorem allocate_fst_mem_restrictedNames_iff (s : Scope) (preferred : String) :
    (s.allocate preferred).1 ∈ restrictedNames ↔
      preferred ∈ restrictedNames ∧ preferred ∉ s.names := by
  constructor
  · intro hmem
    have hplain := Identifier.underscore_notMem_of_mem_restrictedNames hmem
    obtain ⟨i, hname, -⟩ := s.exists_freshName_eq_candidate (Identifier.bindingBase preferred)
    have hcandidate : (s.allocate preferred).1 = candidate (Identifier.bindingBase preferred) i :=
      hname
    rw [hcandidate] at hplain
    have hzero : i = 0 := by
      by_contra hpos
      exact hplain (underscore_mem_candidate_of_pos _ hpos)
    rw [hzero, candidate_zero] at hcandidate hplain
    have hsame := hcandidate.trans (Identifier.bindingBase_of_underscore_notMem hplain)
    exact ⟨hsame ▸ hmem, hsame ▸ s.allocate_notMem preferred⟩
  · rintro ⟨hmem, hfree⟩
    rw [(s.allocate_fst_eq_iff preferred).mpr
      ⟨Identifier.isIdentifier_of_mem_restrictedNames hmem, hfree⟩]
    exact hmem

theorem isWord_allocate (s : Scope) (preferred : String) : IsWord (s.allocate preferred).1 :=
  Identifier.isIdentifier_iff.mp (s.isIdentifier_allocate preferred)

theorem isBindable_allocate_iff (s : Scope) (preferred : String) :
    IsBindable (s.allocate preferred).1 ↔
      ¬ (preferred ∈ restrictedNames ∧ preferred ∉ s.names) := by
  rw [Identifier.isBindable_iff, and_iff_right (s.isIdentifier_allocate preferred),
    allocate_fst_mem_restrictedNames_iff]

end Scope

end ModuleLinker
