import ModuleLinker.Proofs.Interface.Standalone
import ModuleLinker.Proofs.Text.Bindable

/-!
# Names in binding position

An interface binds the names of its aliases and of the exports that it declares themselves.
All of them are spelled like identifiers and are no reserved words.  An alias has a `_` in
its name, so the rule of the language always admits it; an export that is declared under its
own name is admitted unless that name is `eval` or `arguments`.
-/

namespace ModuleLinker

namespace Interface

open Identifier (IsWord IsBindable restrictedNames)

variable {facts : BuildFacts} {library : Library} {table : ExportTable} {module : ModuleId}
  {scope : Scope}

theorem isBindable_of_isAlias {name exported : String} {i : Nat}
    (h : name = Scope.candidate (Draft.aliasBase exported) i) : IsBindable name := by
  rw [h, Identifier.isBindable_iff]
  refine ⟨Scope.isIdentifier_candidate (Draft.isIdentifier_aliasBase exported) i, fun hmem => ?_⟩
  have hunderscore : '_' ∈ (Draft.aliasBase exported).toList := by
    rw [Draft.aliasBase, String.toList_append]
    exact List.mem_append_left _ (by decide)
  exact Identifier.underscore_notMem_of_mem_restrictedNames hmem
    (Scope.underscore_mem_candidate hunderscore i)

/-- A draft introduces a restricted name exactly when an export of that name is defined as an
expression and the name was free at the start. -/
theorem mem_introduced_iff_of_mem_restrictedNames {name : String} (h : name ∈ restrictedNames) :
    name ∈ (draftFrom facts library table module scope).introduced ↔
      name ∉ scope.names ∧ ∃ e ∈ library.selected table,
        Draft.IsExpression facts module (definitionsOf facts module) e ∧ e.name = name := by
  have haccount := accounted_draftFrom facts library table module scope
  have halias : name ∉
      (draftFrom facts library table module scope).aliases.map AliasDeclaration.name := by
    intro hmem
    obtain ⟨declaration, hdeclaration, rfl⟩ := List.mem_map.mp hmem
    obtain ⟨e, -, i, hname⟩ := haccount.isAlias declaration hdeclaration
    exact (isBindable_of_isAlias hname).notRestricted h
  rw [haccount.mem_introduced_iff, or_iff_right halias,
    and_iff_right (Identifier.isIdentifier_of_mem_restrictedNames h)]

/-- Names in binding position, as requests yield them and as interfaces introduce them.  All of
them are words that are not reserved.  A request yields one that may not be bound exactly when
it prefers `eval` or `arguments` and finds it free.  An interface, of a module alone or of one
that is merged, may bind all its aliases; it may bind everything that it introduces exactly
when each export that is called `eval` or `arguments` and defined as an expression finds its
name taken at the start. -/
theorem introduced_bindable_unless_restricted (s : Scope) (preferred : String) (build : Build)
    (library : Library) {module : ModuleId} {table : ExportTable}
    (htable : build.registry.table? module = some table) (unit : Option Concatenation) :
    IsWord (s.allocate preferred).1 ∧
      (IsBindable (s.allocate preferred).1 ↔
        ¬ (preferred ∈ restrictedNames ∧ preferred ∉ s.names)) ∧
      ∃ interface, (plan build library module unit).value = .ok interface ∧
        (∀ name ∈ interface.introduced, IsWord name ∧
          (IsBindable name ↔ name ∉ restrictedNames)) ∧
        (∀ declaration ∈ interface.aliases, IsBindable declaration.name) ∧
        ((∀ name ∈ interface.introduced, IsBindable name) ↔
          ∀ e ∈ library.selected table, e.name ∈ restrictedNames →
            Draft.IsExpression build.toBuildFacts module
              (definitionsOf build.toBuildFacts module) e →
            e.name ∈ (startScope build.toBuildFacts module unit).names) := by
  refine ⟨s.isWord_allocate preferred, s.isBindable_allocate_iff preferred, ?_⟩
  obtain ⟨interface, hplan, hshows⟩ := exists_plan_eq_ok htable library unit
  have haccount := accounted_draftFrom build.toBuildFacts library table module
    (startScope build.toBuildFacts module unit)
  have hword : ∀ name ∈ interface.introduced, IsWord name ∧
      (IsBindable name ↔ name ∉ restrictedNames) := by
    intro name hname
    rw [hshows.introduced_eq] at hname
    have hidentifier := haccount.isIdentifier name hname
    exact ⟨Identifier.isIdentifier_iff.mp hidentifier,
      Identifier.isBindable_iff.trans (and_iff_right hidentifier)⟩
  refine ⟨interface, hplan, hword, fun declaration hdeclaration => ?_, fun hbindable => ?_,
    fun htaken name hname => ?_⟩
  · rw [hshows.aliases_eq] at hdeclaration
    obtain ⟨e, -, i, hname⟩ := haccount.isAlias declaration hdeclaration
    exact isBindable_of_isAlias hname
  · intro e he hrestricted hexpression
    by_contra hfree
    have hintroduced := (mem_introduced_iff_of_mem_restrictedNames hrestricted).mpr
      ⟨hfree, e, he, hexpression, rfl⟩
    rw [← hshows.introduced_eq] at hintroduced
    exact (hbindable _ hintroduced).notRestricted hrestricted
  · refine (hword name hname).2.mpr fun hrestricted => ?_
    rw [hshows.introduced_eq] at hname
    obtain ⟨hfree, e, he, hexpression, rfl⟩ :=
      (mem_introduced_iff_of_mem_restrictedNames hrestricted).mp hname
    exact hfree (htaken e he hrestricted hexpression)

/-- A reserved word as the name of an export is bound under an alias, and another name as it
is. -/
theorem introduced_bindable_unless_restricted_default :
    ∃ interface, (plan (buildWithDefinitions ("default", .expression "1 + 1")
        ("lazy", .expression "2 + 2")) ⟨none⟩ ⟨0⟩ none).value = .ok interface ∧
      interface.introduced = ["__scopelink_exports__default", "lazy"] ∧
      (∀ name ∈ interface.introduced, IsBindable name) ∧
      IsBindable ((∅ : Scope).allocate "default").1 := by
  obtain ⟨table, htable⟩ := Option.isSome_iff_exists.mp (by decide :
    ((buildWithDefinitions ("default", .expression "1 + 1")
      ("lazy", .expression "2 + 2")).registry.table? ⟨0⟩).isSome = true)
  obtain ⟨-, hallocate, interface, hplan, hword, -, -⟩ :=
    introduced_bindable_unless_restricted ∅ "default" _ ⟨none⟩ htable none
  have hread : (plan (buildWithDefinitions ("default", .expression "1 + 1")
      ("lazy", .expression "2 + 2")) ⟨none⟩ ⟨0⟩ none).value.toOption.map introduced =
        some ["__scopelink_exports__default", "lazy"] := by decide
  rw [hplan] at hread
  have hintroduced := Option.some.inj hread
  refine ⟨interface, hplan, hintroduced, fun name hname => (hword name hname).2.mpr ?_,
    hallocate.mpr (by decide)⟩
  rw [hintroduced] at hname
  have hplain : ∀ name ∈ ["__scopelink_exports__default", "lazy"], name ∉ restrictedNames := by
    decide
  exact hplain name hname

/-- Not every name in binding position may be bound: a request yields `eval`, and expressions
are declared under the names `eval` and `arguments`. -/
theorem introduced_binds_restricted :
    ((∅ : Scope).allocate "eval").1 = "eval" ∧ ¬ IsBindable ((∅ : Scope).allocate "eval").1 ∧
      ∃ interface, (plan (buildWithDefinitions ("eval", .expression "1 + 1")
          ("arguments", .expression "2 + 2")) ⟨none⟩ ⟨0⟩ none).value = .ok interface ∧
        interface.declared = [⟨"eval", "1 + 1"⟩, ⟨"arguments", "2 + 2"⟩] ∧
        ∀ declared ∈ interface.declared, ¬ IsBindable declared.exported := by
  obtain ⟨table, htable⟩ := Option.isSome_iff_exists.mp (by decide :
    ((buildWithDefinitions ("eval", .expression "1 + 1")
      ("arguments", .expression "2 + 2")).registry.table? ⟨0⟩).isSome = true)
  obtain ⟨interface, hplan, -⟩ := exists_plan_eq_ok htable ⟨none⟩ none
  have hread : (plan (buildWithDefinitions ("eval", .expression "1 + 1")
      ("arguments", .expression "2 + 2")) ⟨none⟩ ⟨0⟩ none).value.toOption.map
        Interface.declared = some [⟨"eval", "1 + 1"⟩, ⟨"arguments", "2 + 2"⟩] := by decide
  rw [hplan] at hread
  have hdeclared := Option.some.inj hread
  have hname : ((∅ : Scope).allocate "eval").1 = "eval" := by decide
  refine ⟨hname, fun hbindable => ?_, interface, hplan, hdeclared, fun declared hmem hbindable => ?_⟩
  · rw [hname] at hbindable
    exact hbindable.notRestricted (by decide)
  · have hrestricted : ∀ declared ∈ ([⟨"eval", "1 + 1"⟩, ⟨"arguments", "2 + 2"⟩] :
        List DeclaredExport), declared.exported ∈ restrictedNames := by decide
    exact hbindable.notRestricted (hrestricted declared (hdeclared ▸ hmem))

end Interface

end ModuleLinker
