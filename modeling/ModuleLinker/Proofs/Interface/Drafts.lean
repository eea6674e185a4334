import ModuleLinker.Interface.Plan
import ModuleLinker.Proofs.Scope

/-!
# Names in a draft

Planning an interface goes through the exports one by one, and each of them either
stays out, lists a binding that is there, or takes one new name.  The statements
below say what one export can do to a draft, and from that what a whole run leaves:
the names that it introduces are new and distinct, whatever the exports are called.
-/

namespace ModuleLinker

namespace Draft

/-- The names that the statements of a draft introduce. -/
def introduced (draft : Draft) : List String :=
  draft.aliases.map AliasDeclaration.name ++ draft.declared.map DeclaredExport.exported

/-- The name of which the alias of an export is a candidate. -/
def aliasBase (exported : String) : String := exportsObject ++ Identifier.clean exported

/-- The alias that an export would get. -/
def aliasName (draft : Draft) (exported : String) : String :=
  (draft.scope.allocate (aliasBase exported)).1

/-- List an export under a new alias. -/
def withAlias (draft : Draft) (exported init : String) (reference : Reference) : Draft where
  scope := (draft.scope.allocate (aliasBase exported)).2
  exports := draft.exports ++ [(exported, reference)]
  aliases := draft.aliases ++ [⟨draft.aliasName exported, init⟩]
  listed := draft.listed ++ [⟨draft.aliasName exported, exported⟩]
  declared := draft.declared

/-- Declare an export under its own name. -/
def withDeclared (draft : Draft) (exported expression : String) : Draft where
  scope := draft.scope.reserve exported
  exports := draft.exports ++ [(exported, .expression expression)]
  aliases := draft.aliases
  listed := draft.listed
  declared := draft.declared ++ [⟨exported, expression⟩]

theorem isIdentifier_aliasBase (exported : String) :
    Identifier.isIdentifier (aliasBase exported) = true := by
  apply Identifier.isIdentifier_of_underscore_mem
  · rw [aliasBase, String.toList_append, Identifier.toList_clean]
    exact Identifier.isSpelled_append (by decide) (Identifier.all_isPart_cleanChars _)
  · rw [aliasBase, String.toList_append]
    exact List.mem_append_left _ (by decide)

/-- An alias is close to the name of its export. -/
theorem exists_aliasName_eq_candidate (draft : Draft) (exported : String) :
    ∃ i, draft.aliasName exported = Scope.candidate (aliasBase exported) i := by
  obtain ⟨i, hname, -⟩ :=
    draft.scope.exists_freshName_eq_candidate (Identifier.bindingBase (aliasBase exported))
  rw [Identifier.bindingBase_of_isIdentifier (isIdentifier_aliasBase exported)] at hname
  refine ⟨i, ?_⟩
  rw [aliasName, Scope.allocate, Identifier.bindingBase_of_isIdentifier
    (isIdentifier_aliasBase exported)]
  exact hname

section Step

variable (facts : BuildFacts) (module : ModuleId) (definitions : ExportMap)

/-- Whether an export belongs in the interface and is defined as an expression. -/
def IsExpression (e : Export) : Prop :=
  ∃ access text, visibleName? facts module e = some access ∧
    definitions.find? access = some (.expression text)

variable {facts module definitions} {draft : Draft} {e : Export} {access text name : String}

theorem planExport_of_hidden (draft : Draft) (hvisible : visibleName? facts module e = none) :
    planExport facts module definitions draft e = draft := by
  rw [planExport, hvisible]

theorem planExport_of_identifier (draft : Draft)
    (hvisible : visibleName? facts module e = some access)
    (hdefined : definitions.find? access = some (.identifier name)) :
    planExport facts module definitions draft e =
      (draft.record e.name (.identifier name)).list name e.name := by
  simp only [planExport, hvisible, hdefined, exportDefined]

theorem planExport_of_undefined (draft : Draft)
    (hvisible : visibleName? facts module e = some access)
    (hdefined : definitions.find? access = none) :
    planExport facts module definitions draft e =
      draft.withAlias e.name (undefinedInit e access) (.identifier (draft.aliasName e.name)) := by
  simp only [planExport, hvisible, hdefined]
  rfl

theorem planExport_of_blocked (hvisible : visibleName? facts module e = some access)
    (hdefined : definitions.find? access = some (.expression text))
    (hblocked : e.name ∈ draft.scope.names ∨ Identifier.isIdentifier e.name = false) :
    planExport facts module definitions draft e =
      draft.withAlias e.name text (.expression text) := by
  have htest : (draft.scope.isTaken e.name || !Identifier.isIdentifier e.name) = true := by
    rw [Bool.or_eq_true, Scope.isTaken_iff, Bool.not_eq_true']
    exact hblocked
  simp only [planExport, hvisible, hdefined, exportDefined, exportExpression, record, htest]
  rfl

theorem planExport_of_free (hvisible : visibleName? facts module e = some access)
    (hdefined : definitions.find? access = some (.expression text))
    (hfree : e.name ∉ draft.scope.names) (hname : Identifier.isIdentifier e.name = true) :
    planExport facts module definitions draft e = draft.withDeclared e.name text := by
  have htest : (draft.scope.isTaken e.name || !Identifier.isIdentifier e.name) = false := by
    rw [Bool.or_eq_false_iff, Scope.isTaken_eq_false_iff, hname]
    exact ⟨hfree, rfl⟩
  simp only [planExport, hvisible, hdefined, exportDefined, exportExpression, record, htest]
  rfl

variable (facts module definitions)

/-- What planning one export can make of a draft. -/
inductive Step (draft : Draft) (e : Export) : Draft → Prop
  | hidden (hvisible : visibleName? facts module e = none) : Step draft e draft
  | listed {access name : String} (hvisible : visibleName? facts module e = some access)
      (hdefined : definitions.find? access = some (.identifier name)) :
      Step draft e ((draft.record e.name (.identifier name)).list name e.name)
  | declared {access text : String} (hvisible : visibleName? facts module e = some access)
      (hdefined : definitions.find? access = some (.expression text))
      (hfree : e.name ∉ draft.scope.names) (hname : Identifier.isIdentifier e.name = true) :
      Step draft e (draft.withDeclared e.name text)
  | aliased {access text : String} (hvisible : visibleName? facts module e = some access)
      (hdefined : definitions.find? access = some (.expression text))
      (hblocked : e.name ∈ draft.scope.names ∨ Identifier.isIdentifier e.name = false) :
      Step draft e (draft.withAlias e.name text (.expression text))
  | undefined {access : String} (hvisible : visibleName? facts module e = some access)
      (hdefined : definitions.find? access = none) :
      Step draft e (draft.withAlias e.name (undefinedInit e access)
        (.identifier (draft.aliasName e.name)))

theorem step_planExport (draft : Draft) (e : Export) :
    Step facts module definitions draft e (planExport facts module definitions draft e) := by
  cases hvisible : visibleName? facts module e with
  | none =>
    rw [planExport_of_hidden draft hvisible]
    exact .hidden hvisible
  | some access =>
    cases hdefined : definitions.find? access with
    | none =>
      rw [planExport_of_undefined draft hvisible hdefined]
      exact .undefined hvisible hdefined
    | some reference =>
      cases reference with
      | identifier name =>
        rw [planExport_of_identifier draft hvisible hdefined]
        exact .listed hvisible hdefined
      | expression text =>
        by_cases hblocked : e.name ∈ draft.scope.names ∨ Identifier.isIdentifier e.name = false
        · rw [planExport_of_blocked hvisible hdefined hblocked]
          exact .aliased hvisible hdefined hblocked
        · rw [not_or, Bool.not_eq_false] at hblocked
          rw [planExport_of_free hvisible hdefined hblocked.1 hblocked.2]
          exact .declared hvisible hdefined hblocked.1 hblocked.2

variable {facts module definitions}

/-- What every step keeps about the exports planned so far and the draft is kept by planning
a list of exports. -/
theorem foldl_planExport {P : List Export → Draft → Prop}
    (hstep : ∀ {exports draft e next}, P exports draft →
      Step facts module definitions draft e next → P (exports ++ [e]) next)
    {exports : List Export} {draft : Draft} (h : P exports draft) (later : List Export) :
    P (exports ++ later) (later.foldl (planExport facts module definitions) draft) := by
  induction later generalizing exports draft with
  | nil =>
    rw [List.append_nil]
    exact h
  | cons e rest ih =>
    have hnext := ih (hstep h (step_planExport facts module definitions draft e))
    rw [List.append_assoc, List.singleton_append] at hnext
    exact hnext

end Step

/-- What a draft owes to a start scope and the exports planned so far: its scope has,
beyond the start, exactly the names it introduces; those are identifiers, aliases are
candidates for an export, declared names are those of expressions, and no expression
with a free identifier for its name was left without it. -/
structure Accounted (facts : BuildFacts) (module : ModuleId) (definitions : ExportMap)
    (start : Scope) (exports : List Export) (draft : Draft) : Prop where
  perm : draft.scope.names.toList.Perm (start.names.toList ++ draft.introduced)
  isIdentifier : ∀ name ∈ draft.introduced, Identifier.isIdentifier name = true
  isAlias : ∀ declaration ∈ draft.aliases, ∃ e ∈ exports, ∃ i,
    declaration.name = Scope.candidate (aliasBase e.name) i
  isExpression : ∀ declared ∈ draft.declared, ∃ e ∈ exports,
    IsExpression facts module definitions e ∧ e.name = declared.exported
  taken : ∀ e ∈ exports, IsExpression facts module definitions e →
    Identifier.isIdentifier e.name = true → e.name ∈ draft.scope.names
  bound : ∀ listed ∈ draft.listed,
    (∃ access, definitions.find? access = some (.identifier listed.binding)) ∨
      listed.binding ∈ draft.aliases.map AliasDeclaration.name

namespace Accounted

variable {facts : BuildFacts} {module : ModuleId} {definitions : ExportMap} {start : Scope}
  {exports : List Export} {draft : Draft} {e : Export}

theorem nil (facts : BuildFacts) (module : ModuleId) (definitions : ExportMap) (start : Scope) :
    Accounted facts module definitions start [] (Draft.start start) where
  perm := by
    rw [introduced, Draft.start, List.map_nil, List.map_nil, List.append_nil, List.append_nil]
  isIdentifier _ h := absurd h List.not_mem_nil
  isAlias _ h := absurd h List.not_mem_nil
  isExpression _ h := absurd h List.not_mem_nil
  taken _ h := absurd h List.not_mem_nil
  bound _ h := absurd h List.not_mem_nil

theorem mem_names_iff (h : Accounted facts module definitions start exports draft)
    {name : String} :
    name ∈ draft.scope.names ↔ name ∈ start.names ∨ name ∈ draft.introduced := by
  rw [← UniqueList.mem_toList, h.perm.mem_iff, List.mem_append, UniqueList.mem_toList]

theorem nodup_introduced (h : Accounted facts module definitions start exports draft) :
    draft.introduced.Nodup :=
  (List.nodup_append.mp (h.perm.nodup_iff.mp draft.scope.names.nodup)).2.1

theorem introduced_notMem (h : Accounted facts module definitions start exports draft)
    {name : String} (hname : name ∈ draft.introduced) : name ∉ start.names := fun hold =>
  (List.nodup_append.mp (h.perm.nodup_iff.mp draft.scope.names.nodup)).2.2 name hold name hname rfl

/-- A name is introduced exactly when it was free at the start and is an alias or the
name of an export that is an expression. -/
theorem mem_introduced_iff (h : Accounted facts module definitions start exports draft)
    {name : String} :
    name ∈ draft.introduced ↔ name ∉ start.names ∧
      (name ∈ draft.aliases.map AliasDeclaration.name ∨
        Identifier.isIdentifier name = true ∧
          ∃ e ∈ exports, IsExpression facts module definitions e ∧ e.name = name) := by
  constructor
  · intro hname
    refine ⟨h.introduced_notMem hname, ?_⟩
    cases List.mem_append.mp hname with
    | inl halias => exact Or.inl halias
    | inr hdeclared =>
      obtain ⟨declared, hmem, rfl⟩ := List.mem_map.mp hdeclared
      exact Or.inr ⟨h.isIdentifier _ hname, h.isExpression declared hmem⟩
  · rintro ⟨hfree, halias | ⟨hidentifier, e, he, hexpression, rfl⟩⟩
    · exact List.mem_append_left _ halias
    · exact (h.mem_names_iff.mp (h.taken e he hexpression hidentifier)).resolve_left hfree

theorem exists_mem_append {p : Export → Prop} (h : ∃ e ∈ exports, p e) (last : Export) :
    ∃ e ∈ exports ++ [last], p e := by
  obtain ⟨e, he, hp⟩ := h
  exact ⟨e, List.mem_append_left _ he, hp⟩

/-- What was said of the names of expressions stays true when the last export has its
say too. -/
theorem taken_append {scope larger : Scope}
    (hsubset : ∀ name ∈ scope.names, name ∈ larger.names)
    (htaken : ∀ e ∈ exports, IsExpression facts module definitions e →
      Identifier.isIdentifier e.name = true → e.name ∈ scope.names)
    (hlast : IsExpression facts module definitions e →
      Identifier.isIdentifier e.name = true → e.name ∈ larger.names) :
    ∀ other ∈ exports ++ [e], IsExpression facts module definitions other →
      Identifier.isIdentifier other.name = true → other.name ∈ larger.names := by
  intro other hother hexpression hname
  cases List.mem_append.mp hother with
  | inl hother => exact hsubset _ (htaken other hother hexpression hname)
  | inr hother =>
    rw [List.mem_singleton.mp hother] at hexpression hname ⊢
    exact hlast hexpression hname

/-- An export that stays out of the interface changes nothing. -/
theorem hidden (h : Accounted facts module definitions start exports draft)
    (hno : ¬ IsExpression facts module definitions e) :
    Accounted facts module definitions start (exports ++ [e]) draft where
  perm := h.perm
  isIdentifier := h.isIdentifier
  isAlias declaration hmem := exists_mem_append (h.isAlias declaration hmem) e
  isExpression declared hmem := exists_mem_append (h.isExpression declared hmem) e
  taken := taken_append (fun _ hname => hname) h.taken fun hyes => absurd hyes hno
  bound := h.bound

/-- Listing a binding introduces no name. -/
theorem listed (h : Accounted facts module definitions start exports draft)
    (hno : ¬ IsExpression facts module definitions e) {access name : String}
    (hdefined : definitions.find? access = some (.identifier name)) :
    Accounted facts module definitions start (exports ++ [e])
      ((draft.record e.name (.identifier name)).list name e.name) where
  perm := h.perm
  isIdentifier := h.isIdentifier
  isAlias declaration hmem := exists_mem_append (h.isAlias declaration hmem) e
  isExpression declared hmem := exists_mem_append (h.isExpression declared hmem) e
  taken := taken_append (fun _ hname => hname) h.taken fun hyes => absurd hyes hno
  bound listed hmem := by
    cases List.mem_append.mp hmem with
    | inl hmem => exact h.bound listed hmem
    | inr hmem =>
      rw [List.mem_singleton.mp hmem]
      exact Or.inl ⟨access, hdefined⟩

/-- Declaring an export takes its own name, which has to be free. -/
theorem withDeclared (h : Accounted facts module definitions start exports draft)
    (hyes : IsExpression facts module definitions e) (hfree : e.name ∉ draft.scope.names)
    (hname : Identifier.isIdentifier e.name = true) (expression : String) :
    Accounted facts module definitions start (exports ++ [e])
      (draft.withDeclared e.name expression) where
  perm := by
    have hintroduced : (draft.withDeclared e.name expression).introduced =
        draft.introduced ++ [e.name] := by
      simp [introduced, Draft.withDeclared]
    rw [hintroduced, ← List.append_assoc]
    exact (UniqueList.toList_insert_of_notMem hfree).symm ▸ h.perm.append_right [e.name]
  isIdentifier name hmem := by
    simp only [introduced, Draft.withDeclared, List.map_append, ← List.append_assoc] at hmem
    cases List.mem_append.mp hmem with
    | inl hmem => exact h.isIdentifier name hmem
    | inr hmem =>
      rw [List.mem_singleton.mp hmem]
      exact hname
  isAlias declaration hmem := exists_mem_append (h.isAlias declaration hmem) e
  isExpression declared hmem := by
    cases List.mem_append.mp hmem with
    | inl hmem => exact exists_mem_append (h.isExpression declared hmem) e
    | inr hmem =>
      rw [List.mem_singleton.mp hmem]
      exact ⟨e, List.mem_append_right _ List.mem_cons_self, hyes, rfl⟩
  taken := taken_append (fun _ hold => Scope.mem_names_reserve.mpr (Or.inl hold)) h.taken
    fun _ _ => Scope.mem_names_reserve.mpr (Or.inr rfl)
  bound := h.bound

/-- An alias takes one new name. -/
theorem withAlias (h : Accounted facts module definitions start exports draft)
    (hblocked : IsExpression facts module definitions e →
      Identifier.isIdentifier e.name = true → e.name ∈ draft.scope.names)
    (init : String) (reference : Reference) :
    Accounted facts module definitions start (exports ++ [e])
      (draft.withAlias e.name init reference) where
  perm := by
    have hintroduced : (draft.withAlias e.name init reference).introduced.Perm
        (draft.introduced ++ [draft.aliasName e.name]) := by
      simp only [introduced, Draft.withAlias, List.map_append, List.append_assoc]
      exact List.perm_append_comm.append_left _
    refine List.Perm.trans ?_ (hintroduced.symm.append_left _)
    rw [← List.append_assoc]
    exact (UniqueList.toList_insert_of_notMem (Scope.allocate_notMem _ _)).symm ▸
      h.perm.append_right [draft.aliasName e.name]
  isIdentifier name hmem := by
    simp only [introduced, Draft.withAlias, List.map_append, List.mem_append] at hmem
    rcases hmem with (hmem | hmem) | hmem
    · exact h.isIdentifier name (List.mem_append_left _ hmem)
    · rw [List.mem_singleton.mp hmem]
      exact Scope.isIdentifier_allocate _ _
    · exact h.isIdentifier name (List.mem_append_right _ hmem)
  isAlias declaration hmem := by
    cases List.mem_append.mp hmem with
    | inl hmem => exact exists_mem_append (h.isAlias declaration hmem) e
    | inr hmem =>
      rw [List.mem_singleton.mp hmem]
      exact ⟨e, List.mem_append_right _ List.mem_cons_self,
        draft.exists_aliasName_eq_candidate e.name⟩
  isExpression declared hmem := exists_mem_append (h.isExpression declared hmem) e
  taken := by
    have hsubset : ∀ name ∈ draft.scope.names,
        name ∈ (draft.withAlias e.name init reference).scope.names := fun _ hold =>
      Scope.mem_names_reserve.mpr (Or.inl hold)
    exact taken_append hsubset h.taken fun hyes hname => hsubset _ (hblocked hyes hname)
  bound listed hmem := by
    simp only [Draft.withAlias, List.map_append, List.mem_append]
    cases List.mem_append.mp hmem with
    | inl hmem => exact (h.bound listed hmem).imp id Or.inl
    | inr hmem =>
      rw [List.mem_singleton.mp hmem]
      exact Or.inr (Or.inr List.mem_cons_self)

/-- Planning one export keeps the account. -/
theorem step (h : Accounted facts module definitions start exports draft) {next : Draft}
    (hstep : Step facts module definitions draft e next) :
    Accounted facts module definitions start (exports ++ [e]) next := by
  cases hstep with
  | hidden hvisible =>
    apply h.hidden
    rintro ⟨access, text, hshown, -⟩
    rw [hvisible] at hshown
    exact absurd hshown.symm (Option.some_ne_none _)
  | listed hvisible hdefined =>
    refine h.listed ?_ hdefined
    rintro ⟨access, text, hshown, hexpression⟩
    rw [hvisible, Option.some.injEq] at hshown
    rw [← hshown, hdefined] at hexpression
    exact Reference.noConfusion (Option.some.inj hexpression)
  | declared hvisible hdefined hfree hname =>
    exact h.withDeclared ⟨_, _, hvisible, hdefined⟩ hfree hname _
  | aliased hvisible hdefined hblocked =>
    apply h.withAlias
    intro _ hname
    apply hblocked.resolve_right
    intro hnot
    rw [hname] at hnot
    exact Bool.noConfusion hnot
  | undefined hvisible hdefined =>
    apply h.withAlias
    rintro ⟨access, text, hshown, hexpression⟩
    rw [hvisible, Option.some.injEq] at hshown
    rw [← hshown, hdefined] at hexpression
    exact absurd hexpression.symm (Option.some_ne_none _)

/-- Planning a list of exports keeps the account. -/
theorem foldl (h : Accounted facts module definitions start exports draft)
    (later : List Export) :
    Accounted facts module definitions start (exports ++ later)
      (later.foldl (planExport facts module definitions) draft) :=
  foldl_planExport (fun hbefore hstep => hbefore.step hstep) h later

end Accounted

end Draft

namespace Interface

/-- The names that the statements of an interface introduce. -/
def introduced (interface : Interface) : List String :=
  interface.aliases.map AliasDeclaration.name ++ interface.declared.map DeclaredExport.exported

/-- The names of bindings to which definitions refer. -/
def definedNames (definitions : ExportMap) : List String :=
  definitions.values.filterMap fun
    | .identifier name => some name
    | .expression _ => none

theorem mem_definedNames_iff {definitions : ExportMap} {name : String} :
    name ∈ definedNames definitions ↔
      ∃ access, definitions.find? access = some (.identifier name) := by
  rw [definedNames, List.mem_filterMap]
  constructor
  · rintro ⟨reference, hmem, hname⟩
    obtain ⟨access, hfind⟩ := OrderedMap.exists_find?_of_mem_values hmem
    cases reference with
    | identifier other => exact ⟨access, (Option.some.inj hname) ▸ hfind⟩
    | expression text => exact absurd hname.symm (Option.some_ne_none _)
  · rintro ⟨access, hfind⟩
    exact ⟨.identifier name, OrderedMap.mem_values_of_find? hfind, rfl⟩

/-- The draft of the interface of a module that is planned from a scope. -/
def draftFrom (facts : BuildFacts) (library : Library) (table : ExportTable)
    (module : ModuleId) (scope : Scope) : Draft :=
  (library.selected table).foldl (Draft.planExport facts module (definitionsOf facts module))
    (Draft.start scope)

/-- An interface whose statements are those of a draft. -/
structure Shows (interface : Interface) (draft : Draft) : Prop where
  exports_eq : interface.exports = draft.exports
  aliases_eq : interface.aliases = draft.aliases
  listed_eq : interface.listed = draft.listed
  declared_eq : interface.declared = draft.declared

theorem Shows.introduced_eq {interface : Interface} {draft : Draft} (h : interface.Shows draft) :
    interface.introduced = draft.introduced := by
  rw [introduced, Draft.introduced, h.aliases_eq, h.declared_eq]

/-- The draft of an interface is accounted for, from whatever scope it starts. -/
theorem accounted_draftFrom (facts : BuildFacts) (library : Library) (table : ExportTable)
    (module : ModuleId) (scope : Scope) :
    Draft.Accounted facts module (definitionsOf facts module) scope (library.selected table)
      (draftFrom facts library table module scope) :=
  (Draft.Accounted.nil facts module (definitionsOf facts module) scope).foldl
    (library.selected table)

/-- Planning succeeds for every registered module. -/
theorem exists_plan_eq_ok {build : Build} {module : ModuleId} {table : ExportTable}
    (htable : build.registry.table? module = some table) (library : Library)
    (unit : Option Concatenation) :
    ∃ interface, (plan build library module unit).value = .ok interface ∧
      interface.Shows (draftFrom build.toBuildFacts library table module
        (startScope build.toBuildFacts module unit)) := by
  rw [plan, htable]
  cases unit with
  | none =>
    refine ⟨_, rfl, ?_⟩
    exact ⟨rfl, rfl, rfl, rfl⟩
  | some unit =>
    refine ⟨_, rfl, ?_⟩
    exact ⟨rfl, rfl, rfl, rfl⟩

/-- What a plan that succeeded shows. -/
theorem exists_shows_of_plan_eq_ok {build : Build} {library : Library} {module : ModuleId}
    {unit : Option Concatenation} {interface : Interface}
    (h : (plan build library module unit).value = .ok interface) :
    ∃ table, build.registry.table? module = some table ∧
      interface.Shows (draftFrom build.toBuildFacts library table module
        (startScope build.toBuildFacts module unit)) := by
  cases htable : build.registry.table? module with
  | none =>
    rw [plan, htable] at h
    exact absurd h (by simp)
  | some table =>
    obtain ⟨planned, hplan, hshows⟩ := exists_plan_eq_ok htable library unit
    rw [hplan, Except.ok.injEq] at h
    exact ⟨table, rfl, h ▸ hshows⟩

end Interface

end ModuleLinker
