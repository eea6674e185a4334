import ModuleLinker.Proofs.Text.Identifier
import ModuleLinker.Proofs.Text.Literals

/-!
# Property accesses

Different names have different property accesses, and an identifier followed by a property
access determines both.  No access contains the zero character, which ends the fields of a
fingerprint.
-/

namespace ModuleLinker

namespace Quoted

theorem zero_notMem_property (name : String) : '\x00' ∉ (property name).toList := by
  have hdot : '\x00' ∉ ".".toList := by decide
  have hreserved : ∀ word ∈ Identifier.reservedWords, '\x00' ∉ word.toList := by decide
  rw [property]
  split
  · rename_i hbare
    rw [String.toList_append, List.mem_append, not_or]
    refine ⟨hdot, ?_⟩
    rcases (Bool.or_eq_true _ _).mp hbare with hidentifier | hword
    · exact Identifier.zero_notMem hidentifier
    · exact hreserved name (List.contains_iff_mem.mp hword)
  · have hescape : '\x00' ∉ escape name.toList := by
      intro hmem
      exact absurd ((spelledOut_escape name.toList).isShown_of_mem hmem) (by decide)
    rw [String.toList_append, String.toList_append, literal, String.toList_ofList, literalChars]
    simp [hescape]

/-- A property access begins with a character that cannot continue an identifier. -/
theorem endsBefore_property (name : String) : Identifier.EndsBefore (property name) := by
  rw [property]
  split
  · exact ⟨'.', name.toList, by rw [String.toList_append]; rfl, by decide⟩
  · refine ⟨'[', (literal name ++ "]").toList, ?_, by decide⟩
    rw [String.append_assoc, String.toList_append]
    rfl

/-- Different names have different property accesses. -/
theorem property_injective {first second : String} (h : property first = property second) :
    first = second := by
  have hdot (name other : String) : "." ++ name ≠ "[" ++ literal other ++ "]" := by
    intro heq
    have hchars := congrArg String.toList heq
    rw [String.append_assoc, String.toList_append, String.toList_append] at hchars
    exact absurd (List.cons.inj hchars).1 (by decide)
  rw [property, property] at h
  split at h
  · split at h
    · exact (String.append_right_inj _).mp h
    · exact absurd h (hdot first second)
  · split at h
    · exact absurd h.symm (hdot second first)
    · exact literal_injective ((String.append_right_inj _).mp ((String.append_left_inj _).mp h))

/-- An identifier followed by a property access determines both names. -/
theorem append_property_inj {first second name other : String}
    (hfirst : Identifier.isIdentifier first = true)
    (hsecond : Identifier.isIdentifier second = true)
    (h : first ++ property name = second ++ property other) : first = second ∧ name = other := by
  obtain ⟨hnames, haccess⟩ := Identifier.append_inj hfirst hsecond (endsBefore_property name)
    (endsBefore_property other) h
  exact ⟨hnames, property_injective haccess⟩

end Quoted

end ModuleLinker
