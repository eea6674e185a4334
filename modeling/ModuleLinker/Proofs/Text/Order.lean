import ModuleLinker.Text.Order

/-!
# The order of texts is total

Texts are compared as the lists of their code points are compared lexicographically, and
different texts never count as equal.
-/

namespace ModuleLinker

namespace TextOrder

instance lawfulEqCmpCodePoint : Std.LawfulEqCmp (compareOn Char.toNat) where
  compare_self := Std.ReflCmp.compare_self
  eq_of_compare h := Char.toNat_inj.mp (Nat.compare_eq_eq.mp h)

theorem compareChars_eq_compareLex (cs ds : List Char) :
    compareChars cs ds = List.compareLex (compareOn Char.toNat) cs ds := by
  induction cs generalizing ds with
  | nil => cases ds <;> rfl
  | cons c cs ih =>
    cases ds with
    | nil => rfl
    | cons d ds =>
      rw [compareChars, List.compareLex_cons_cons, ih, compareOn]
      rcases Nat.lt_trichotomy c.toNat d.toNat with hlt | heq | hgt
      · rw [if_pos hlt, Nat.compare_eq_lt.mpr hlt]
        rfl
      · rw [heq, if_neg (Nat.lt_irrefl _), if_neg (Nat.lt_irrefl _), Nat.compare_eq_eq.mpr rfl]
        rfl
      · rw [if_neg (Nat.lt_asymm hgt), if_pos hgt, Nat.compare_eq_gt.mpr hgt]
        rfl

theorem compareTexts_eq_compareLex (s t : String) :
    compareTexts s t = List.compareLex (compareOn Char.toNat) s.toList t.toList :=
  compareChars_eq_compareLex s.toList t.toList

variable {s t u : String}

theorem notAfter_trans (hst : notAfter s t = true) (htu : notAfter t u = true) :
    notAfter s u = true := by
  rw [notAfter, compareTexts_eq_compareLex] at *
  exact Std.TransCmp.isLE_trans hst htu

theorem notAfter_total (s t : String) : notAfter s t = true ∨ notAfter t s = true := by
  have hswap : List.compareLex (compareOn Char.toNat) t.toList s.toList =
      (List.compareLex (compareOn Char.toNat) s.toList t.toList).swap :=
    Std.OrientedCmp.eq_swap
  rw [notAfter, notAfter, compareTexts_eq_compareLex s t, compareTexts_eq_compareLex t s, hswap]
  cases List.compareLex (compareOn Char.toNat) s.toList t.toList <;> simp

/-- Only a text itself comes neither before nor after it. -/
theorem eq_of_notAfter (hst : notAfter s t = true) (hts : notAfter t s = true) : s = t := by
  rw [notAfter, compareTexts_eq_compareLex] at hst hts
  exact String.toList_inj.mp
    (Std.LawfulEqCmp.eq_of_compare (Std.OrientedCmp.isLE_antisymm hst hts))

end TextOrder

end ModuleLinker
