import ModuleLinker.Scope

/-!
# Names that can be bound

Cleaning a name and numbering it always gives an identifier, whatever the name
was.  Reserved words are no obstacle, because none of them contains the `_` that
both steps put in.  The last statement is what makes compound expressions
readable: an identifier ends where a character that cannot continue it stands.
-/

namespace ModuleLinker

namespace Identifier

theorem all_isPart_of_isSpelled {cs : List Char} (h : isSpelled cs = true) :
    cs.all isPart = true := by
  cases cs with
  | nil => rfl
  | cons c rest =>
    rw [isSpelled, Bool.and_eq_true] at h
    rw [List.all_cons, Bool.and_eq_true]
    exact ⟨isPart_of_isStart h.1, h.2⟩

theorem isSpelled_of_isIdentifier {name : String} (h : isIdentifier name = true) :
    isSpelled name.toList = true :=
  ((Bool.and_eq_true _ _).mp h).1

/-- Reserved words are spelled like identifiers. -/
theorem isSpelled_of_isReserved {name : String} (h : isReserved name = true) :
    isSpelled name.toList = true := by
  have hwords : ∀ word ∈ reservedWords, isSpelled word.toList = true := by decide
  exact hwords name (List.contains_iff_mem.mp h)

theorem all_isPart_of_isIdentifier {name : String} (h : isIdentifier name = true) :
    name.toList.all isPart = true := by
  rw [isIdentifier, Bool.and_eq_true] at h
  exact all_isPart_of_isSpelled h.1

theorem zero_notMem {name : String} (h : isIdentifier name = true) : '\x00' ∉ name.toList := by
  intro hmem
  have hpart := List.all_eq_true.mp (all_isPart_of_isIdentifier h) _ hmem
  exact absurd hpart (by decide)

/-- Part characters may follow an identifier. -/
theorem isSpelled_append {cs rest : List Char} (h : isSpelled cs = true)
    (hrest : rest.all isPart = true) : isSpelled (cs ++ rest) = true := by
  cases cs with
  | nil => exact absurd h (by decide)
  | cons c cs =>
    rw [isSpelled, Bool.and_eq_true] at h
    rw [List.cons_append, isSpelled, List.all_append, h.1, h.2, hrest]
    rfl

theorem underscore_notMem_of_isReserved {name : String} (h : isReserved name = true) :
    '_' ∉ name.toList := by
  have hwords : ∀ word ∈ reservedWords, '_' ∉ word.toList := by decide
  exact hwords name (List.contains_iff_mem.mp h)

/-- A `_` anywhere keeps a name from being a reserved word. -/
theorem isIdentifier_of_underscore_mem {name : String} (hspelled : isSpelled name.toList = true)
    (hmem : '_' ∈ name.toList) : isIdentifier name = true := by
  have hreserved : isReserved name = false := by
    rw [Bool.eq_false_iff]
    exact fun h => underscore_notMem_of_isReserved h hmem
  rw [isIdentifier, hspelled, hreserved]
  rfl

theorem all_isPart_cleanChars (cs : List Char) : (cleanChars cs).all isPart = true := by
  cases cs with
  | nil => rfl
  | cons c rest =>
    rw [cleanChars]
    split
    · exact all_isPart_collapse _ _
    · rw [List.all_cons, all_isPart_collapse]
      rfl

theorem toList_clean (name : String) : (clean name).toList = cleanChars name.toList := by
  rw [clean, String.toList_ofList]

/-- What a reserved word or the empty text becomes is an identifier too. -/
theorem isIdentifier_bindingBase (name : String) : isIdentifier (bindingBase name) = true := by
  rw [bindingBase]
  split
  · assumption
  · apply isIdentifier_of_underscore_mem
    · rw [String.toList_append, toList_clean]
      exact isSpelled_append (by decide) (all_isPart_cleanChars _)
    · rw [String.toList_append]
      exact List.mem_append_left _ (by decide)

/-- Cleaning leaves an identifier as it is. -/
theorem clean_of_isIdentifier {name : String} (h : isIdentifier name = true) :
    clean name = name := by
  have hparts := all_isPart_of_isIdentifier h
  rw [isIdentifier, Bool.and_eq_true] at h
  have hchars : cleanChars name.toList = name.toList := by
    revert hparts
    cases hlist : name.toList with
    | nil => exact fun _ => rfl
    | cons c rest =>
      intro hparts
      rw [hlist, isSpelled, Bool.and_eq_true] at h
      rw [cleanChars, if_pos h.1.1]
      exact collapse_of_all_isPart hparts
  rw [clean, hchars, String.ofList_toList]

/-- An identifier is its own base. -/
theorem bindingBase_of_isIdentifier {name : String} (h : isIdentifier name = true) :
    bindingBase name = name := by
  rw [bindingBase, clean_of_isIdentifier h, if_pos h]

/-- An identifier in front of a character that cannot continue it can be told
from what follows. -/
theorem append_inj_of_not_isPart {first second rest others : List Char} {c d : Char}
    (hfirst : first.all isPart = true) (hsecond : second.all isPart = true)
    (hc : isPart c = false) (hd : isPart d = false)
    (h : first ++ c :: rest = second ++ d :: others) :
    first = second ∧ c :: rest = d :: others := by
  induction first generalizing second with
  | nil =>
    cases second with
    | nil => exact ⟨rfl, h⟩
    | cons x second =>
      rw [List.all_cons, Bool.and_eq_true] at hsecond
      obtain ⟨rfl, -⟩ := List.cons.inj h
      exact absurd hsecond.1 (by simp [hc])
  | cons x first ih =>
    rw [List.all_cons, Bool.and_eq_true] at hfirst
    cases second with
    | nil =>
      obtain ⟨rfl, -⟩ := List.cons.inj h
      exact absurd hfirst.1 (by simp [hd])
    | cons y second =>
      rw [List.all_cons, Bool.and_eq_true] at hsecond
      obtain ⟨rfl, htail⟩ := List.cons.inj h
      obtain ⟨rfl, hrest⟩ := ih hfirst.2 hsecond.2 htail
      exact ⟨rfl, hrest⟩

/-- A text that ends an identifier in front of it. -/
def EndsBefore (text : String) : Prop :=
  ∃ c rest, text.toList = c :: rest ∧ isPart c = false

/-- An identifier can be told from a text that ends it. -/
theorem append_inj {first second text other : String} (hfirst : isIdentifier first = true)
    (hsecond : isIdentifier second = true) (htext : EndsBefore text) (hother : EndsBefore other)
    (h : first ++ text = second ++ other) : first = second ∧ text = other := by
  obtain ⟨c, rest, hc, hnot⟩ := htext
  obtain ⟨d, others, hd, hneither⟩ := hother
  have hchars := congrArg String.toList h
  rw [String.toList_append, String.toList_append, hc, hd] at hchars
  obtain ⟨hnames, htails⟩ := append_inj_of_not_isPart (all_isPart_of_isIdentifier hfirst)
    (all_isPart_of_isIdentifier hsecond) hnot hneither hchars
  refine ⟨String.toList_inj.mp hnames, String.toList_inj.mp ?_⟩
  rw [hc, hd, htails]

end Identifier

namespace Scope

/-- Numbering an identifier gives an identifier. -/
theorem isIdentifier_candidate {base : String} (h : Identifier.isIdentifier base = true)
    (i : Nat) : Identifier.isIdentifier (candidate base i) = true := by
  rw [candidate]
  split
  · exact h
  · rw [Identifier.isIdentifier, Bool.and_eq_true] at h
    have hdigits : (toString i).toList.all Identifier.isPart = true := by
      rw [List.all_eq_true]
      intro c hc
      have hdigit : c.isDigit = true :=
        Nat.isDigit_of_mem_toDigits (by decide) (by decide) (Nat.toList_repr ▸ hc)
      rw [Identifier.isPart, Char.isAlphanum, hdigit, Bool.or_true, Bool.true_or, Bool.true_or]
    apply Identifier.isIdentifier_of_underscore_mem
    · rw [String.toList_append, String.toList_append]
      exact Identifier.isSpelled_append (Identifier.isSpelled_append h.1 (by decide)) hdigits
    · rw [String.toList_append, String.toList_append]
      exact List.mem_append_left _ (List.mem_append_right _ (by decide))

/-- The candidates for one base are distinct. -/
theorem candidate_injective (base : String) {i j : Nat}
    (h : candidate base i = candidate base j) : i = j := by
  have hlength (k : Nat) (hk : k ≠ 0) : base.length < (candidate base k).length := by
    rw [candidate, if_neg hk, String.length_append, String.length_append]
    have hunderscore : "_".length = 1 := by decide
    omega
  by_cases hi : i = 0
  · by_cases hj : j = 0
    · rw [hi, hj]
    · have hlt := hlength j hj
      rw [← h, hi, candidate_zero] at hlt
      exact absurd hlt (Nat.lt_irrefl _)
  · by_cases hj : j = 0
    · have hlt := hlength i hi
      rw [h, hj, candidate_zero] at hlt
      exact absurd hlt (Nat.lt_irrefl _)
    · rw [candidate, candidate, if_neg hi, if_neg hj] at h
      have hchars := congrArg String.toList h
      rw [String.toList_append, String.toList_append, String.toList_append,
        String.toList_append] at hchars
      have hdigits : Nat.toDigits 10 i = Nat.toDigits 10 j := by
        rw [← Nat.toList_repr, ← Nat.toList_repr]
        exact List.append_cancel_left hchars
      have hvalue := congrArg (fun digits => Nat.ofDigitChars 10 digits 0) hdigits
      simpa using hvalue

end Scope

end ModuleLinker
