import ModuleLinker.Proofs.Interface.Drafts

/-!
# Interfaces of single modules

The interface of a module that is not merged is planned in the scope of the
module's own code.  That scope does not hold the identifiers that the definitions
of exports refer to, so a name that is introduced can be one of them.  It is free
from such captures exactly when planning would say the same with all those
identifiers reserved, as they are in a merged scope.
-/

namespace ModuleLinker

namespace Draft

/-- Two drafts that say the same, the second in a scope in which more names are
taken. -/
structure Reserving (reserved : List String) (draft other : Draft) : Prop where
  exports_eq : other.exports = draft.exports
  aliases_eq : other.aliases = draft.aliases
  listed_eq : other.listed = draft.listed
  declared_eq : other.declared = draft.declared
  mem_names_iff : ∀ name, name ∈ other.scope.names ↔ name ∈ draft.scope.names ∨ name ∈ reserved

theorem introduced_subset_withAlias (draft : Draft) (exported init : String)
    (reference : Reference) :
    draft.introduced ⊆ (draft.withAlias exported init reference).introduced := by
  intro name hname
  simp only [introduced, withAlias, List.map_append, List.mem_append] at hname ⊢
  exact hname.imp Or.inl id

theorem introduced_subset_withDeclared (draft : Draft) (exported expression : String) :
    draft.introduced ⊆ (draft.withDeclared exported expression).introduced := by
  intro name hname
  simp only [introduced, withDeclared, List.map_append, List.mem_append] at hname ⊢
  exact hname.imp id Or.inl

theorem aliasName_mem_introduced (draft : Draft) (exported init : String)
    (reference : Reference) :
    draft.aliasName exported ∈ (draft.withAlias exported init reference).introduced := by
  simp [introduced, withAlias]

theorem name_mem_introduced (draft : Draft) (exported expression : String) :
    exported ∈ (draft.withDeclared exported expression).introduced := by
  simp [introduced, withDeclared]

/-- What a draft introduces it keeps when one more export is planned. -/
theorem introduced_subset_of_step {facts : BuildFacts} {module : ModuleId}
    {definitions : ExportMap} {draft next : Draft} {e : Export}
    (hstep : Step facts module definitions draft e next) : draft.introduced ⊆ next.introduced := by
  cases hstep with
  | hidden hvisible => exact List.Subset.refl _
  | listed hvisible hdefined => exact List.Subset.refl _
  | declared hvisible hdefined hfree hname => exact introduced_subset_withDeclared _ _ _
  | aliased hvisible hdefined hblocked => exact introduced_subset_withAlias _ _ _ _
  | undefined hvisible hdefined => exact introduced_subset_withAlias _ _ _ _

theorem introduced_subset_foldl (facts : BuildFacts) (module : ModuleId)
    (definitions : ExportMap) (draft : Draft) (exports : List Export) :
    draft.introduced ⊆ (exports.foldl (planExport facts module definitions) draft).introduced := by
  induction exports generalizing draft with
  | nil => exact List.Subset.refl _
  | cons e rest ih =>
    exact List.Subset.trans
      (introduced_subset_of_step (step_planExport facts module definitions draft e)) (ih _)

namespace Reserving

variable {reserved : List String} {draft other : Draft}

/-- An alias that is not reserved is the same in both scopes. -/
theorem aliasName_eq (h : Reserving reserved draft other) {exported : String}
    (hfree : draft.aliasName exported ∉ reserved) :
    other.aliasName exported = draft.aliasName exported := by
  refine Scope.freshName_eq_of_subset (fun name hname => (h.mem_names_iff name).mpr (Or.inl hname))
    fun htaken => ?_
  cases (h.mem_names_iff _).mp htaken with
  | inl htaken => exact Scope.allocate_notMem _ _ htaken
  | inr hreserved => exact hfree hreserved

theorem withAlias (h : Reserving reserved draft other) {exported : String}
    (hfree : draft.aliasName exported ∉ reserved) (init : String)
    {reference otherReference : Reference} (hreference : otherReference = reference) :
    Reserving reserved (draft.withAlias exported init reference)
      (other.withAlias exported init otherReference) where
  exports_eq := by rw [Draft.withAlias, Draft.withAlias, h.exports_eq, hreference]
  aliases_eq := by rw [Draft.withAlias, Draft.withAlias, h.aliases_eq, h.aliasName_eq hfree]
  listed_eq := by rw [Draft.withAlias, Draft.withAlias, h.listed_eq, h.aliasName_eq hfree]
  declared_eq := h.declared_eq
  mem_names_iff name := by
    have hname := h.aliasName_eq hfree
    rw [aliasName, aliasName] at hname
    rw [Draft.withAlias, Draft.withAlias, Scope.allocate_snd, Scope.allocate_snd, hname,
      Scope.mem_names_reserve, Scope.mem_names_reserve, h.mem_names_iff, or_right_comm]

theorem withDeclared (h : Reserving reserved draft other) (exported expression : String) :
    Reserving reserved (draft.withDeclared exported expression)
      (other.withDeclared exported expression) where
  exports_eq := by rw [Draft.withDeclared, Draft.withDeclared, h.exports_eq]
  aliases_eq := h.aliases_eq
  listed_eq := h.listed_eq
  declared_eq := by rw [Draft.withDeclared, Draft.withDeclared, h.declared_eq]
  mem_names_iff name := by
    rw [Draft.withDeclared, Draft.withDeclared, Scope.mem_names_reserve,
      Scope.mem_names_reserve, h.mem_names_iff, or_right_comm]

theorem listed (h : Reserving reserved draft other) (name exported : String) :
    Reserving reserved ((draft.record exported (.identifier name)).list name exported)
      ((other.record exported (.identifier name)).list name exported) where
  exports_eq := congrArg (· ++ [(exported, Reference.identifier name)]) h.exports_eq
  aliases_eq := h.aliases_eq
  listed_eq := congrArg (· ++ [(⟨name, exported⟩ : ListedExport)]) h.listed_eq
  declared_eq := h.declared_eq
  mem_names_iff := h.mem_names_iff

/-- As long as no reserved name is introduced, planning an export does the same in
both scopes. -/
theorem planExport (h : Reserving reserved draft other) (facts : BuildFacts)
    (module : ModuleId) (definitions : ExportMap) (e : Export)
    (hfree : ∀ name ∈ (Draft.planExport facts module definitions draft e).introduced,
      name ∉ reserved) :
    Reserving reserved (Draft.planExport facts module definitions draft e)
      (Draft.planExport facts module definitions other e) := by
  cases hvisible : visibleName? facts module e with
  | none =>
    rw [planExport_of_hidden draft hvisible, planExport_of_hidden other hvisible]
    exact h
  | some access =>
    cases hdefined : definitions.find? access with
    | none =>
      rw [planExport_of_undefined draft hvisible hdefined] at hfree ⊢
      rw [planExport_of_undefined other hvisible hdefined]
      have hname := hfree _ (aliasName_mem_introduced draft e.name _ _)
      exact h.withAlias hname _ (congrArg Reference.identifier (h.aliasName_eq hname))
    | some reference =>
      cases reference with
      | identifier name =>
        rw [planExport_of_identifier draft hvisible hdefined,
          planExport_of_identifier other hvisible hdefined]
        exact h.listed name e.name
      | expression text =>
        by_cases hblocked : e.name ∈ draft.scope.names ∨ Identifier.isIdentifier e.name = false
        · rw [planExport_of_blocked hvisible hdefined hblocked] at hfree ⊢
          rw [planExport_of_blocked hvisible hdefined
            (hblocked.imp (fun htaken => (h.mem_names_iff _).mpr (Or.inl htaken)) id)]
          exact h.withAlias (hfree _ (aliasName_mem_introduced draft e.name _ _)) text rfl
        · rw [not_or, Bool.not_eq_false] at hblocked
          rw [planExport_of_free hvisible hdefined hblocked.1 hblocked.2] at hfree ⊢
          have hnew : e.name ∉ other.scope.names := fun htaken =>
            ((h.mem_names_iff _).mp htaken).elim hblocked.1
              (hfree _ (name_mem_introduced draft e.name text))
          rw [planExport_of_free hvisible hdefined hnew hblocked.2]
          exact h.withDeclared e.name text

/-- As long as no reserved name is introduced, a run says the same in both scopes. -/
theorem foldl (h : Reserving reserved draft other) (facts : BuildFacts) (module : ModuleId)
    (definitions : ExportMap) (exports : List Export)
    (hfree : ∀ name ∈ (exports.foldl (Draft.planExport facts module definitions)
      draft).introduced, name ∉ reserved) :
    Reserving reserved (exports.foldl (Draft.planExport facts module definitions) draft)
      (exports.foldl (Draft.planExport facts module definitions) other) := by
  induction exports generalizing draft other with
  | nil => exact h
  | cons e rest ih =>
    refine ih (h.planExport facts module definitions e fun name hname => ?_) hfree
    exact hfree name (introduced_subset_foldl facts module definitions _ rest hname)

end Reserving

end Draft

namespace Interface

/-- Outside of a merged scope an interface is planned beside the exports object and
what the module's own code binds. -/
theorem mem_startScope_none_iff {facts : BuildFacts} {module : ModuleId} {name : String} :
    name ∈ (startScope facts module none).names ↔
      name = exportsObject ∨ name ∈ (facts.codeOf module).topLevelNames := by
  rw [startScope, Scope.mem_names_reserveAll, Scope.ofNames, UniqueList.mem_ofList,
    List.mem_singleton]

/-- The scope of a module's own code with the names of all bindings to which its
definitions refer. -/
def reservingScope (facts : BuildFacts) (module : ModuleId) : Scope :=
  (startScope facts module none).reserveAll (definedNames (definitionsOf facts module))

/-- An interface introduces no name to which a definition refers exactly when it says
what would be said with these names reserved. -/
theorem forall_introduced_notMem_iff_shows {facts : BuildFacts} {library : Library}
    {table : ExportTable} {module : ModuleId} {interface : Interface}
    (hshows : interface.Shows
      (draftFrom facts library table module (startScope facts module none))) :
    (∀ name ∈ interface.introduced, name ∉ definedNames (definitionsOf facts module)) ↔
      interface.Shows (draftFrom facts library table module (reservingScope facts module)) := by
  constructor
  · intro hfree
    rw [hshows.introduced_eq] at hfree
    have hstart : Draft.Reserving (definedNames (definitionsOf facts module))
        (Draft.start (startScope facts module none))
        (Draft.start (reservingScope facts module)) :=
      ⟨rfl, rfl, rfl, rfl, fun _ => Scope.mem_names_reserveAll⟩
    have hsame := hstart.foldl facts module (definitionsOf facts module)
      (library.selected table) hfree
    exact ⟨hshows.exports_eq.trans hsame.exports_eq.symm,
      hshows.aliases_eq.trans hsame.aliases_eq.symm,
      hshows.listed_eq.trans hsame.listed_eq.symm,
      hshows.declared_eq.trans hsame.declared_eq.symm⟩
  · intro hreserving name hname hdefined
    rw [hreserving.introduced_eq] at hname
    exact (accounted_draftFrom facts library table module _).introduced_notMem hname
      (Scope.mem_names_reserveAll.mpr (Or.inr hdefined))

/-- The interface of a module that is not merged.  The names that it introduces are
distinct identifiers and differ from the exports object and from everything that the
module's code binds; they are aliases and the free names of expressions.  A binding that
is listed is an alias or one to which a definition refers, and none of the latter is
captured exactly when reserving them would change nothing. -/
theorem standalone_interface (build : Build) (library : Library) {module : ModuleId}
    {table : ExportTable} (htable : build.registry.table? module = some table) :
    ∃ interface, (plan build library module none).value = .ok interface ∧
      interface.introduced.Nodup ∧
      (∀ name ∈ interface.introduced, Identifier.isIdentifier name = true ∧
        name ≠ exportsObject ∧ name ∉ (build.toBuildFacts.codeOf module).topLevelNames) ∧
      (∀ name, name ∈ interface.introduced ↔
        name ≠ exportsObject ∧ name ∉ (build.toBuildFacts.codeOf module).topLevelNames ∧
          (name ∈ interface.aliases.map AliasDeclaration.name ∨
            Identifier.isIdentifier name = true ∧ ∃ e ∈ library.selected table,
              Draft.IsExpression build.toBuildFacts module
                (definitionsOf build.toBuildFacts module) e ∧ e.name = name)) ∧
      (∀ declaration ∈ interface.aliases, ∃ e ∈ library.selected table, ∃ i,
        declaration.name = Scope.candidate (exportsObject ++ Identifier.clean e.name) i) ∧
      (∀ listed ∈ interface.listed,
        listed.binding ∈ definedNames (definitionsOf build.toBuildFacts module) ∨
          listed.binding ∈ interface.aliases.map AliasDeclaration.name) ∧
      ((∀ name ∈ interface.introduced,
          name ∉ definedNames (definitionsOf build.toBuildFacts module)) ↔
        interface.Shows (draftFrom build.toBuildFacts library table module
          (reservingScope build.toBuildFacts module))) := by
  obtain ⟨interface, hplan, hshows⟩ := exists_plan_eq_ok htable library none
  have haccount := accounted_draftFrom build.toBuildFacts library table module
    (startScope build.toBuildFacts module none)
  refine ⟨interface, hplan, ?_, ?_, ?_, ?_, ?_, forall_introduced_notMem_iff_shows hshows⟩
  · rw [hshows.introduced_eq]
    exact haccount.nodup_introduced
  · intro name hname
    rw [hshows.introduced_eq] at hname
    have hnew := haccount.introduced_notMem hname
    rw [mem_startScope_none_iff, not_or] at hnew
    exact ⟨haccount.isIdentifier name hname, hnew⟩
  · intro name
    rw [hshows.introduced_eq, hshows.aliases_eq, haccount.mem_introduced_iff,
      mem_startScope_none_iff, not_or, and_assoc]
  · rw [hshows.aliases_eq]
    exact haccount.isAlias
  · rw [hshows.listed_eq, hshows.aliases_eq]
    exact fun listed hlisted =>
      (haccount.bound listed hlisted).imp mem_definedNames_iff.mpr id

/-- A build of one module with two exports and the given definitions of them. -/
def buildWithDefinitions (first second : String × Reference) : Build :=
  let registry : Except LinkError ExportRegistry := do
    let known ← ((∅ : ExportRegistry).register ⟨0⟩ "./index.js").addExport ⟨0⟩
      ⟨first.1, .provided, ∅, none, none⟩
    known.addExport ⟨0⟩ ⟨second.1, .provided, ∅, none, none⟩
  { Build.empty default with
    registry := registry.toOption.getD ∅
    code := (∅ : CodeTable).edit ⟨0⟩ "main" fun code =>
      { code with definitions := some (OrderedMap.ofList [first, second]) } }

/-- An expression takes its own name, and the binding beside it stays what it was. -/
theorem standalone_interface_of_expression :
    ∃ interface, (plan (buildWithDefinitions ("a", .identifier "x") ("b", .expression "1 + 1"))
        ⟨none⟩ ⟨0⟩ none).value = .ok interface ∧
      interface.introduced = ["b"] ∧ interface.listed = [⟨"x", "a"⟩] ∧
      interface.introduced.Nodup := by
  obtain ⟨table, htable⟩ := Option.isSome_iff_exists.mp (by decide :
    ((buildWithDefinitions ("a", .identifier "x") ("b", .expression "1 + 1")).registry.table?
      ⟨0⟩).isSome = true)
  obtain ⟨interface, hplan, hnodup, -⟩ := standalone_interface _ ⟨none⟩ htable
  have hread : (plan (buildWithDefinitions ("a", .identifier "x") ("b", .expression "1 + 1"))
      ⟨none⟩ ⟨0⟩ none).value.toOption.map (fun interface =>
        (interface.introduced, interface.listed)) = some (["b"], [⟨"x", "a"⟩]) := by decide
  rw [hplan] at hread
  obtain ⟨hintroduced, hlisted⟩ := Prod.mk.inj (Option.some.inj hread)
  exact ⟨interface, hplan, hintroduced, hlisted, hnodup⟩

/-- Not every name that is introduced differs from the identifiers of definitions: here
an expression declares the name to which the definition of another export refers. -/
theorem introduced_captures_defined :
    ∃ interface, (plan (buildWithDefinitions ("a", .identifier "b") ("b", .expression "1 + 1"))
        ⟨none⟩ ⟨0⟩ none).value = .ok interface ∧
      interface.listed = [⟨"b", "a"⟩] ∧ "b" ∈ interface.introduced ∧
      "b" ∈ definedNames (definitionsOf
        (buildWithDefinitions ("a", .identifier "b") ("b", .expression "1 + 1")).toBuildFacts
        ⟨0⟩) := by
  obtain ⟨table, htable⟩ := Option.isSome_iff_exists.mp (by decide :
    ((buildWithDefinitions ("a", .identifier "b") ("b", .expression "1 + 1")).registry.table?
      ⟨0⟩).isSome = true)
  obtain ⟨interface, hplan, -⟩ := exists_plan_eq_ok htable ⟨none⟩ none
  have hread : (plan (buildWithDefinitions ("a", .identifier "b") ("b", .expression "1 + 1"))
      ⟨none⟩ ⟨0⟩ none).value.toOption.map (fun interface =>
        (interface.introduced, interface.listed)) = some (["b"], [⟨"b", "a"⟩]) := by decide
  rw [hplan] at hread
  obtain ⟨hintroduced, hlisted⟩ := Prod.mk.inj (Option.some.inj hread)
  refine ⟨interface, hplan, hlisted, ?_, by decide⟩
  rw [hintroduced]
  exact List.mem_cons_self

end Interface

end ModuleLinker
