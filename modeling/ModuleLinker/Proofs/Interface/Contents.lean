import ModuleLinker.Proofs.Interface.Drafts

/-!
# Contents of an interface

Which exports an interface shows, and what each of them stands for there.  Planning
takes the exports one by one, so the visible ones appear in their order; each stands
for what its definition says, or for an alias of its value when it has none.
-/

namespace ModuleLinker

namespace Draft

section Contents

variable (facts : BuildFacts) (module : ModuleId) (definitions : ExportMap)

/-- Whether an export belongs in the interface. -/
def isVisible (e : Export) : Bool := (visibleName? facts module e).isSome

/-- What an export in the interface stands for beside the given aliases. -/
inductive StandsFor (aliases : List AliasDeclaration) (e : Export) : Reference → Prop
  | defined {access : String} {reference : Reference}
      (hvisible : visibleName? facts module e = some access)
      (hdefined : definitions.find? access = some reference) : StandsFor aliases e reference
  | undefined {access name : String} (hvisible : visibleName? facts module e = some access)
      (hdefined : definitions.find? access = none)
      (halias : ⟨name, undefinedInit e access⟩ ∈ aliases) :
      StandsFor aliases e (.identifier name)

/-- What the exports planned so far have left in a draft: the names of the visible ones
in their order, each with what it stands for. -/
structure Contents (exports : List Export) (draft : Draft) : Prop where
  names_eq : draft.exports.map Prod.fst =
    (exports.filter (isVisible facts module)).map Export.name
  standsFor : ∀ entry ∈ draft.exports, ∃ e ∈ exports, e.name = entry.1 ∧
    StandsFor facts module definitions draft.aliases e entry.2

end Contents

variable {facts : BuildFacts} {module : ModuleId} {definitions : ExportMap}
  {exports : List Export} {draft next : Draft} {e : Export} {reference : Reference}

theorem visibleName?_eq_some_iff {access : String} :
    visibleName? facts module e = some access ↔ e.provision = .provided ∧
      isDangling (facts.registry.resolve ⟨module, e.name⟩) = false ∧
      e.accessName facts.runtime = some access := by
  rw [visibleName?]
  split
  · rename_i hnot
    exact iff_of_false (Option.some_ne_none _).symm fun h => hnot h.1
  · rename_i hprovided
    split
    · rename_i hdangling
      refine iff_of_false (Option.some_ne_none _).symm fun h => ?_
      rw [h.2.1] at hdangling
      exact Bool.noConfusion hdangling
    · rename_i hdangling
      rw [Bool.not_eq_true] at hdangling
      exact ⟨fun haccess => ⟨Classical.not_not.mp hprovided, hdangling, haccess⟩, fun h => h.2.2⟩

theorem StandsFor.mono {aliases more : List AliasDeclaration} (hsubset : aliases ⊆ more)
    (h : StandsFor facts module definitions aliases e reference) :
    StandsFor facts module definitions more e reference := by
  cases h with
  | defined hvisible hdefined => exact .defined hvisible hdefined
  | undefined hvisible hdefined halias => exact .undefined hvisible hdefined (hsubset halias)

namespace Contents

theorem start (facts : BuildFacts) (module : ModuleId) (definitions : ExportMap)
    (scope : Scope) : Contents facts module definitions [] (Draft.start scope) :=
  ⟨rfl, fun _ h => absurd h List.not_mem_nil⟩

/-- One more export that stays out. -/
theorem hidden (h : Contents facts module definitions exports draft)
    (hhidden : visibleName? facts module e = none) :
    Contents facts module definitions (exports ++ [e]) draft where
  names_eq := by
    have hfilter : [e].filter (isVisible facts module) = [] := by simp [isVisible, hhidden]
    rw [List.filter_append, hfilter, List.append_nil]
    exact h.names_eq
  standsFor entry hentry := by
    obtain ⟨other, hother, hstands⟩ := h.standsFor entry hentry
    exact ⟨other, List.mem_append_left _ hother, hstands⟩

/-- One more export that is shown; the aliases can only become more. -/
theorem shown (h : Contents facts module definitions exports draft)
    (hexports : next.exports = draft.exports ++ [(e.name, reference)])
    (haliases : draft.aliases ⊆ next.aliases)
    (hstands : StandsFor facts module definitions next.aliases e reference) :
    Contents facts module definitions (exports ++ [e]) next where
  names_eq := by
    have hvisible : isVisible facts module e = true := by
      cases hstands with
      | defined hvisible _ => rw [isVisible, hvisible, Option.isSome_some]
      | undefined hvisible _ _ => rw [isVisible, hvisible, Option.isSome_some]
    have hfilter : [e].filter (isVisible facts module) = [e] := by simp [hvisible]
    rw [hexports, List.filter_append, hfilter, List.map_append, List.map_append, h.names_eq]
    rfl
  standsFor entry hentry := by
    rw [hexports] at hentry
    cases List.mem_append.mp hentry with
    | inl hentry =>
      obtain ⟨other, hother, hname, hold⟩ := h.standsFor entry hentry
      exact ⟨other, List.mem_append_left _ hother, hname, hold.mono haliases⟩
    | inr hentry =>
      rw [List.mem_singleton.mp hentry]
      exact ⟨e, List.mem_append_right _ List.mem_cons_self, rfl, hstands⟩

/-- Planning one export. -/
theorem step (h : Contents facts module definitions exports draft)
    (hstep : Step facts module definitions draft e next) :
    Contents facts module definitions (exports ++ [e]) next := by
  cases hstep with
  | hidden hvisible => exact h.hidden hvisible
  | listed hvisible hdefined =>
    exact h.shown rfl (List.Subset.refl _) (.defined hvisible hdefined)
  | declared hvisible hdefined hfree hname =>
    exact h.shown rfl (List.Subset.refl _) (.defined hvisible hdefined)
  | aliased hvisible hdefined hblocked =>
    exact h.shown rfl (List.subset_append_left _ _) (.defined hvisible hdefined)
  | undefined hvisible hdefined =>
    exact h.shown rfl (List.subset_append_left _ _)
      (.undefined hvisible hdefined (List.mem_append_right _ List.mem_cons_self))

/-- Planning a list of exports. -/
theorem foldl (h : Contents facts module definitions exports draft) (later : List Export) :
    Contents facts module definitions (exports ++ later)
      (later.foldl (planExport facts module definitions) draft) :=
  foldl_planExport (fun hbefore hstep => hbefore.step hstep) h later

/-- An export that is visible and defined is shown as its definition says, provided that
no other export has its name. -/
theorem mem_exports_of_defined (h : Contents facts module definitions exports draft)
    (hnodup : (exports.map Export.name).Nodup) (he : e ∈ exports) {access : String}
    (hvisible : visibleName? facts module e = some access)
    (hdefined : definitions.find? access = some reference) :
    (e.name, reference) ∈ draft.exports := by
  have hname : e.name ∈ draft.exports.map Prod.fst := by
    rw [h.names_eq]
    exact List.mem_map_of_mem
      (List.mem_filter.mpr ⟨he, by rw [isVisible, hvisible, Option.isSome_some]⟩)
  obtain ⟨⟨name, shown⟩, hentry, rfl⟩ := List.mem_map.mp hname
  obtain ⟨other, hother, hsame, hstands⟩ := h.standsFor _ hentry
  obtain rfl := List.inj_on_of_nodup_map hnodup hother he hsame
  cases hstands with
  | defined hagain hshown =>
    rw [hvisible, Option.some.injEq] at hagain
    rw [← hagain, hdefined, Option.some.injEq] at hshown
    rw [hshown]
    exact hentry
  | undefined hagain hnone _ =>
    rw [hvisible, Option.some.injEq] at hagain
    rw [← hagain, hdefined] at hnone
    exact absurd hnone (Option.some_ne_none _)

end Contents

end Draft

namespace Interface

/-- The draft of an interface shows the exports that the library selects. -/
theorem contents_draftFrom (facts : BuildFacts) (library : Library) (table : ExportTable)
    (module : ModuleId) (scope : Scope) :
    Draft.Contents facts module (definitionsOf facts module) (library.selected table)
      (draftFrom facts library table module scope) :=
  (Draft.Contents.start facts module (definitionsOf facts module) scope).foldl
    (library.selected table)

end Interface

end ModuleLinker
