import ModuleLinker.Proofs.Interface.Contents

/-!
# Presentation of exports

The planner goes through the exports once and writes to four lists on the way.  What it
makes of them is said here with one entry for each export that is live, in the order of
the declaration: the entry tells in which form the export appears, the four lists are
what the entries contribute to them, and each form is judged by the definition of the
export and by the names that were taken before it.
-/

namespace ModuleLinker

namespace BuildFacts

/-- An export of a module that its interface has to show: it is provided, the runtime
uses it, and it leads to an export or a namespace.  One that leads to a missing default
export counts too. -/
structure IsLive (facts : BuildFacts) (module : ModuleId) (e : Export) : Prop where
  provided : e.provision = .provided
  used : ∃ access, e.accessName facts.runtime = some access
  leads : (facts.registry.resolve ⟨module, e.name⟩).isResolved = true ∨
    ∃ origin, facts.registry.resolve ⟨module, e.name⟩ = .missing ⟨origin, "default"⟩

end BuildFacts

namespace Draft

theorem isDangling_eq_false_iff {resolution : Resolution} :
    isDangling resolution = false ↔
      resolution.isResolved = true ∨ ∃ origin, resolution = .missing ⟨origin, "default"⟩ := by
  cases resolution with
  | origin site => simp [isDangling, Resolution.isResolved]
  | namespaceOf module => simp [isDangling, Resolution.isResolved]
  | missing site =>
    cases site
    simp [isDangling, Resolution.isResolved]
  | undetermined site => simp [isDangling, Resolution.isResolved]
  | circular site => simp [isDangling, Resolution.isResolved]

variable {facts : BuildFacts} {module : ModuleId} {e : Export}

theorem visibleName?_eq_some_iff_isLive {access : String} :
    visibleName? facts module e = some access ↔
      facts.IsLive module e ∧ e.accessName facts.runtime = some access := by
  rw [visibleName?_eq_some_iff, isDangling_eq_false_iff]
  constructor
  · rintro ⟨hprovided, hleads, haccess⟩
    exact ⟨⟨hprovided, ⟨access, haccess⟩, hleads⟩, haccess⟩
  · rintro ⟨hlive, haccess⟩
    exact ⟨hlive.provided, hlive.leads, haccess⟩

theorem isVisible_iff_isLive : isVisible facts module e = true ↔ facts.IsLive module e := by
  rw [isVisible, Option.isSome_iff_exists]
  constructor
  · rintro ⟨access, haccess⟩
    exact (visibleName?_eq_some_iff_isLive.mp haccess).1
  · intro hlive
    obtain ⟨access, haccess⟩ := hlive.used
    exact ⟨access, visibleName?_eq_some_iff_isLive.mpr ⟨hlive, haccess⟩⟩

end Draft

instance (facts : BuildFacts) (module : ModuleId) : DecidablePred (facts.IsLive module) :=
  fun _ => decidable_of_iff _ Draft.isVisible_iff_isLive

/-- The form in which an export appears in an interface: as a binding that is there, as
a binding of its own name, or as an alias, of its expression or of its value. -/
inductive ExportForm
  | binding (name : String)
  | declaration (expression : String)
  | aliased (name expression : String)
  | valued (name init : String)
deriving DecidableEq, Repr

/-- An export with the form in which it appears. -/
structure Presentation where
  shown : Export
  form : ExportForm

namespace Presentation

/-- The name under which the export is exported, which is always its own. -/
def exported (entry : Presentation) : String := entry.shown.name

/-- What the export stands for. -/
def reference (entry : Presentation) : Reference :=
  match entry.form with
  | .binding name => .identifier name
  | .declaration expression => .expression expression
  | .aliased _ expression => .expression expression
  | .valued name _ => .identifier name

/-- The alias that is declared for the export. -/
def alias? (entry : Presentation) : Option AliasDeclaration :=
  match entry.form with
  | .binding _ => none
  | .declaration _ => none
  | .aliased name expression => some ⟨name, expression⟩
  | .valued name init => some ⟨name, init⟩

/-- The entry of the export in the export list. -/
def listed? (entry : Presentation) : Option ListedExport :=
  match entry.form with
  | .binding name => some ⟨name, entry.exported⟩
  | .declaration _ => none
  | .aliased name _ => some ⟨name, entry.exported⟩
  | .valued name _ => some ⟨name, entry.exported⟩

/-- The statement by which the export declares its own binding. -/
def declared? (entry : Presentation) : Option DeclaredExport :=
  match entry.form with
  | .binding _ => none
  | .declaration expression => some ⟨entry.exported, expression⟩
  | .aliased _ _ => none
  | .valued _ _ => none

/-- The name that the statements for the export introduce, if there is one. -/
def introduced? (entry : Presentation) : Option String :=
  match entry.form with
  | .binding _ => none
  | .declaration _ => some entry.exported
  | .aliased name _ => some name
  | .valued name _ => some name

section Fits

variable (facts : BuildFacts) (definitions : ExportMap)

/-- The form that suits an export when some names are taken.  An identifier is listed;
another expression declares the name of the export if that is an identifier that is
not taken, and gets an alias if not; an export without a definition gets an alias of its
constant or else of its property of the exports object.  Aliases are new identifiers. -/
inductive Fits (taken : List String) (e : Export) : ExportForm → Prop
  | binding {access name : String} (haccess : e.accessName facts.runtime = some access)
      (hdefined : definitions.find? access = some (.identifier name)) :
      Fits taken e (.binding name)
  | declaration {access text : String} (haccess : e.accessName facts.runtime = some access)
      (hdefined : definitions.find? access = some (.expression text))
      (hidentifier : Identifier.isIdentifier e.name = true) (hfree : e.name ∉ taken) :
      Fits taken e (.declaration text)
  | aliased {access text name : String} (haccess : e.accessName facts.runtime = some access)
      (hdefined : definitions.find? access = some (.expression text))
      (hblocked : Identifier.isIdentifier e.name = false ∨ e.name ∈ taken)
      (hidentifier : Identifier.isIdentifier name = true) (hfree : name ∉ taken) :
      Fits taken e (.aliased name text)
  | constant {access name : String} {literal : Literal}
      (haccess : e.accessName facts.runtime = some access)
      (hdefined : definitions.find? access = none) (hconstant : e.constant = some literal)
      (hidentifier : Identifier.isIdentifier name = true) (hfree : name ∉ taken) :
      Fits taken e (.valued name literal.source)
  | property {access name : String} (haccess : e.accessName facts.runtime = some access)
      (hdefined : definitions.find? access = none) (hconstant : e.constant = none)
      (hidentifier : Identifier.isIdentifier name = true) (hfree : name ∉ taken) :
      Fits taken e (.valued name (exportsObject ++ Quoted.property access))

end Fits

/-- The names that are taken when the export of the entry at a place is planned: those
taken at the start and those that the entries before it introduced. -/
def takenBefore (start : Scope) (entries : List Presentation) (i : Nat) : List String :=
  start.names.toList ++ (entries.take i).filterMap introduced?

theorem takenBefore_append_of_le {start : Scope} {entries : List Presentation} {i : Nat}
    (hi : i ≤ entries.length) (later : List Presentation) :
    takenBefore start (entries ++ later) i = takenBefore start entries i := by
  rw [takenBefore, List.take_append_of_le_length hi, takenBefore]

/-- Every entry exports its export once: in the export list or by a declaration. -/
theorem perm_exported (entries : List Presentation) :
    ((entries.filterMap listed?).map ListedExport.exported ++
      (entries.filterMap declared?).map DeclaredExport.exported).Perm
        (entries.map exported) := by
  induction entries with
  | nil => exact List.Perm.nil
  | cons entry rest ih =>
    obtain ⟨e, form⟩ := entry
    cases form with
    | binding name => exact ih.cons e.name
    | declaration expression => exact List.perm_middle.trans (ih.cons e.name)
    | aliased name expression => exact ih.cons e.name
    | valued name init => exact ih.cons e.name

/-- Of things that are seen in entries, the labels keep the order of the entries. -/
theorem sublist_map_filterMap {α : Type} {view : Presentation → Option α} {label : α → String}
    (hlabel : ∀ entry x, view entry = some x → label x = entry.exported)
    (entries : List Presentation) :
    ((entries.filterMap view).map label).Sublist (entries.map exported) := by
  induction entries with
  | nil => exact List.Sublist.slnil
  | cons entry rest ih =>
    cases hview : view entry with
    | none =>
      rw [List.filterMap_cons_none hview, List.map_cons]
      exact ih.cons _
    | some x =>
      rw [List.filterMap_cons_some hview, List.map_cons, List.map_cons, hlabel entry x hview]
      exact ih.cons_cons _

theorem exported_of_listed? (entry : Presentation) (listed : ListedExport)
    (h : entry.listed? = some listed) : listed.exported = entry.exported := by
  obtain ⟨e, form⟩ := entry
  cases form with
  | binding name => exact (Option.some.inj h) ▸ rfl
  | declaration expression => exact absurd h.symm (Option.some_ne_none _)
  | aliased name expression => exact (Option.some.inj h) ▸ rfl
  | valued name init => exact (Option.some.inj h) ▸ rfl

theorem exported_of_declared? (entry : Presentation) (declared : DeclaredExport)
    (h : entry.declared? = some declared) : declared.exported = entry.exported := by
  obtain ⟨e, form⟩ := entry
  cases form with
  | binding name => exact absurd h.symm (Option.some_ne_none _)
  | declaration expression => exact (Option.some.inj h) ▸ rfl
  | aliased name expression => exact absurd h.symm (Option.some_ne_none _)
  | valued name init => exact absurd h.symm (Option.some_ne_none _)

theorem filterMap_append_singleton {α : Type} (view : Presentation → Option α)
    (entries : List Presentation) (last : Presentation) :
    (entries ++ [last]).filterMap view = entries.filterMap view ++ (view last).toList := by
  rw [List.filterMap_append]
  cases hview : view last with
  | none => rw [List.filterMap_cons_none hview, List.filterMap_nil, Option.toList_none]
  | some x => rw [List.filterMap_cons_some hview, List.filterMap_nil, Option.toList_some]

end Presentation

namespace Draft

/-- What entries say of a draft after the exports planned so far: they are about the
live ones among them, the lists of the draft are theirs, every form suits its export,
and the scope has grown by the names they introduce. -/
structure Presented (facts : BuildFacts) (module : ModuleId) (definitions : ExportMap)
    (start : Scope) (exports : List Export) (entries : List Presentation) (draft : Draft) :
    Prop where
  shown_eq : entries.map Presentation.shown = exports.filter (facts.IsLive module ·)
  exports_eq : draft.exports = entries.map fun entry => (entry.exported, entry.reference)
  aliases_eq : draft.aliases = entries.filterMap Presentation.alias?
  listed_eq : draft.listed = entries.filterMap Presentation.listed?
  declared_eq : draft.declared = entries.filterMap Presentation.declared?
  fits : ∀ i entry, entries[i]? = some entry →
    Presentation.Fits facts definitions (Presentation.takenBefore start entries i) entry.shown
      entry.form
  names_eq : draft.scope.names.toList =
    start.names.toList ++ entries.filterMap Presentation.introduced?

namespace Presented

variable {facts : BuildFacts} {module : ModuleId} {definitions : ExportMap} {start : Scope}
  {exports : List Export} {entries : List Presentation} {draft next : Draft} {e : Export}

theorem nil (facts : BuildFacts) (module : ModuleId) (definitions : ExportMap) (start : Scope) :
    Presented facts module definitions start [] [] (Draft.start start) where
  shown_eq := rfl
  exports_eq := rfl
  aliases_eq := rfl
  listed_eq := rfl
  declared_eq := rfl
  fits _ _ h := absurd h (by simp)
  names_eq := (List.append_nil _).symm

theorem mem_names_iff (h : Presented facts module definitions start exports entries draft)
    {name : String} :
    name ∈ draft.scope.names ↔
      name ∈ Presentation.takenBefore start entries entries.length := by
  rw [← UniqueList.mem_toList, h.names_eq, Presentation.takenBefore, List.take_length]

/-- One more export that stays out. -/
theorem hidden (h : Presented facts module definitions start exports entries draft)
    (hhidden : visibleName? facts module e = none) :
    Presented facts module definitions start (exports ++ [e]) entries draft where
  shown_eq := by
    have hdead : ¬ facts.IsLive module e := by
      intro hlive
      obtain ⟨access, haccess⟩ := hlive.used
      rw [visibleName?_eq_some_iff_isLive.mpr ⟨hlive, haccess⟩] at hhidden
      exact Option.some_ne_none _ hhidden
    rw [List.filter_append, h.shown_eq, List.filter_singleton, decide_eq_false hdead]
    exact (List.append_nil _).symm
  exports_eq := h.exports_eq
  aliases_eq := h.aliases_eq
  listed_eq := h.listed_eq
  declared_eq := h.declared_eq
  fits := h.fits
  names_eq := h.names_eq

/-- One more export that is shown in a form that suits it: the draft gets what its entry
contributes to every list. -/
theorem shown (h : Presented facts module definitions start exports entries draft)
    (hlive : facts.IsLive module e) {form : ExportForm}
    (hfits : Presentation.Fits facts definitions
      (Presentation.takenBefore start entries entries.length) e form)
    (hexports : next.exports =
      draft.exports ++ [(e.name, Presentation.reference ⟨e, form⟩)])
    (haliases : next.aliases = draft.aliases ++ (Presentation.alias? ⟨e, form⟩).toList)
    (hlisted : next.listed = draft.listed ++ (Presentation.listed? ⟨e, form⟩).toList)
    (hdeclared : next.declared = draft.declared ++ (Presentation.declared? ⟨e, form⟩).toList)
    (hnames : next.scope.names.toList =
      draft.scope.names.toList ++ (Presentation.introduced? ⟨e, form⟩).toList) :
    Presented facts module definitions start (exports ++ [e]) (entries ++ [⟨e, form⟩]) next where
  shown_eq := by
    rw [List.filter_append, ← h.shown_eq, List.filter_singleton, decide_eq_true hlive,
      List.map_append]
    rfl
  exports_eq := by
    rw [hexports, h.exports_eq, List.map_append]
    rfl
  aliases_eq := by rw [haliases, h.aliases_eq, Presentation.filterMap_append_singleton]
  listed_eq := by rw [hlisted, h.listed_eq, Presentation.filterMap_append_singleton]
  declared_eq := by
    rw [hdeclared, h.declared_eq, Presentation.filterMap_append_singleton]
  fits i entry hentry := by
    cases Nat.lt_or_ge i entries.length with
    | inl hi =>
      rw [Presentation.takenBefore_append_of_le (Nat.le_of_lt hi)]
      rw [List.getElem?_append_left hi] at hentry
      exact h.fits i entry hentry
    | inr hi =>
      -- The only place beyond the old entries is that of the new one.
      rw [List.getElem?_append_right hi, List.getElem?_singleton] at hentry
      split at hentry
      next hlast =>
        obtain rfl := Option.some.inj hentry
        have hlength : i = entries.length := by omega
        rw [hlength, Presentation.takenBefore_append_of_le (Nat.le_refl _)]
        exact hfits
      · exact absurd hentry.symm (Option.some_ne_none _)
  names_eq := by
    rw [hnames, h.names_eq, Presentation.filterMap_append_singleton, List.append_assoc]

/-- One more export whose value gets an alias that is listed. -/
theorem withAlias (h : Presented facts module definitions start exports entries draft)
    (hlive : facts.IsLive module e) {form : ExportForm} {init : String} {reference : Reference}
    (hfits : (draft.aliasName e.name) ∉
        Presentation.takenBefore start entries entries.length →
      Presentation.Fits facts definitions
        (Presentation.takenBefore start entries entries.length) e form)
    (hreference : Presentation.reference ⟨e, form⟩ = reference)
    (halias : Presentation.alias? ⟨e, form⟩ = some ⟨draft.aliasName e.name, init⟩)
    (hlisted : Presentation.listed? ⟨e, form⟩ = some ⟨draft.aliasName e.name, e.name⟩)
    (hdeclared : Presentation.declared? ⟨e, form⟩ = none)
    (hintroduced : Presentation.introduced? ⟨e, form⟩ = some (draft.aliasName e.name)) :
    Presented facts module definitions start (exports ++ [e]) (entries ++ [⟨e, form⟩])
      (draft.withAlias e.name init reference) := by
  have hnew : draft.aliasName e.name ∉ draft.scope.names := Scope.allocate_notMem _ _
  apply h.shown hlive (hfits fun htaken => hnew (h.mem_names_iff.mpr htaken))
  · rw [hreference]
    rfl
  · rw [halias]
    rfl
  · rw [hlisted]
    rfl
  · rw [hdeclared]
    exact (List.append_nil _).symm
  · rw [hintroduced]
    exact UniqueList.toList_insert_of_notMem hnew

/-- Planning one export. -/
theorem step (h : Presented facts module definitions start exports entries draft)
    (hstep : Step facts module definitions draft e next) :
    ∃ more, Presented facts module definitions start (exports ++ [e]) (entries ++ more) next := by
  cases hstep with
  | hidden hvisible =>
    refine ⟨[], ?_⟩
    rw [List.append_nil]
    exact h.hidden hvisible
  | @listed access name hvisible hdefined =>
    obtain ⟨hlive, haccess⟩ := visibleName?_eq_some_iff_isLive.mp hvisible
    refine ⟨[⟨e, .binding name⟩], h.shown hlive (.binding haccess hdefined) rfl ?_ rfl ?_ ?_⟩
    · exact (List.append_nil _).symm
    · exact (List.append_nil _).symm
    · exact (List.append_nil _).symm
  | @declared access text hvisible hdefined hfree hname =>
    obtain ⟨hlive, haccess⟩ := visibleName?_eq_some_iff_isLive.mp hvisible
    have hnew := hfree
    rw [h.mem_names_iff] at hnew
    refine ⟨[⟨e, .declaration text⟩],
      h.shown hlive (.declaration haccess hdefined hname hnew) rfl ?_ ?_ rfl ?_⟩
    · exact (List.append_nil _).symm
    · exact (List.append_nil _).symm
    · exact UniqueList.toList_insert_of_notMem hfree
  | @aliased access text hvisible hdefined hblocked =>
    obtain ⟨hlive, haccess⟩ := visibleName?_eq_some_iff_isLive.mp hvisible
    rw [h.mem_names_iff] at hblocked
    refine ⟨[⟨e, .aliased (draft.aliasName e.name) text⟩], ?_⟩
    apply h.withAlias hlive _ rfl rfl rfl rfl rfl
    exact .aliased haccess hdefined hblocked.symm (Scope.isIdentifier_allocate _ _)
  | @undefined access hvisible hdefined =>
    obtain ⟨hlive, haccess⟩ := visibleName?_eq_some_iff_isLive.mp hvisible
    refine ⟨[⟨e, .valued (draft.aliasName e.name) (undefinedInit e access)⟩], ?_⟩
    apply h.withAlias hlive _ rfl rfl rfl rfl rfl
    intro hnew
    cases hconstant : e.constant with
    | some literal =>
      rw [undefinedInit, hconstant]
      exact .constant haccess hdefined hconstant (Scope.isIdentifier_allocate _ _) hnew
    | none =>
      rw [undefinedInit, hconstant]
      exact .property haccess hdefined hconstant (Scope.isIdentifier_allocate _ _) hnew

/-- Planning a list of exports. -/
theorem foldl (h : Presented facts module definitions start exports entries draft)
    (later : List Export) :
    ∃ others, Presented facts module definitions start (exports ++ later) others
      (later.foldl (planExport facts module definitions) draft) := by
  apply foldl_planExport (P := fun planned draft =>
    ∃ others, Presented facts module definitions start planned others draft) _ ⟨entries, h⟩
  rintro planned before e next ⟨shown, hshown⟩ hstep
  obtain ⟨more, hnext⟩ := hshown.step hstep
  exact ⟨shown ++ more, hnext⟩

end Presented

end Draft

namespace Interface

/-- The draft of an interface presents the live ones of the exports that the library
selects. -/
theorem exists_presented_draftFrom (facts : BuildFacts) (library : Library)
    (table : ExportTable) (module : ModuleId) (scope : Scope) :
    ∃ entries, Draft.Presented facts module (definitionsOf facts module) scope
      (library.selected table) entries (draftFrom facts library table module scope) :=
  (Draft.Presented.nil facts module (definitionsOf facts module) scope).foldl
    (library.selected table)

/-- No two exports that a library selects share a name. -/
theorem nodup_selected_names (library : Library) (table : ExportTable) :
    ((library.selected table).map Export.name).Nodup := by
  cases honly : library.only with
  | none =>
    rw [Library.selected, honly]
    exact table.nodup_declared_names
  | some name =>
    rw [Library.selected, honly]
    show ((table.exports.find? name).toList.map Export.name).Nodup
    cases table.exports.find? name with
    | none => exact List.nodup_nil
    | some e => exact List.nodup_singleton e.name

/-- Planning succeeds for every registered module and shows exactly the live exports
that are selected, each once and under its own name, either in the export list or by a
declaration, and in the form that suits it when the start scope and the entries before
it have taken their names.  All lists keep the order of the declaration. -/
theorem presents_live_exports (build : Build) (library : Library) (module : ModuleId)
    (unit : Option Concatenation) {table : ExportTable}
    (htable : build.registry.table? module = some table) :
    ∃ interface entries, (plan build library module unit).value = .ok interface ∧
      entries.map Presentation.shown =
        (library.selected table).filter (build.toBuildFacts.IsLive module ·) ∧
      (entries.map Presentation.exported).Nodup ∧
      interface.exports = entries.map (fun entry => (entry.exported, entry.reference)) ∧
      interface.aliases = entries.filterMap Presentation.alias? ∧
      interface.listed = entries.filterMap Presentation.listed? ∧
      interface.declared = entries.filterMap Presentation.declared? ∧
      (interface.listed.map ListedExport.exported ++
        interface.declared.map DeclaredExport.exported).Perm
          (entries.map Presentation.exported) ∧
      (interface.listed.map ListedExport.exported).Sublist
        (entries.map Presentation.exported) ∧
      (interface.declared.map DeclaredExport.exported).Sublist
        (entries.map Presentation.exported) ∧
      ∀ i entry, entries[i]? = some entry →
        Presentation.Fits build.toBuildFacts (definitionsOf build.toBuildFacts module)
          (Presentation.takenBefore (startScope build.toBuildFacts module unit) entries i)
          entry.shown entry.form := by
  obtain ⟨interface, hplan, hshows⟩ := exists_plan_eq_ok htable library unit
  obtain ⟨entries, hentries⟩ := exists_presented_draftFrom build.toBuildFacts library table
    module (startScope build.toBuildFacts module unit)
  have hlisted : interface.listed = entries.filterMap Presentation.listed? :=
    hshows.listed_eq.trans hentries.listed_eq
  have hdeclared : interface.declared = entries.filterMap Presentation.declared? :=
    hshows.declared_eq.trans hentries.declared_eq
  have hnodup : (entries.map Presentation.exported).Nodup := by
    have hnames : entries.map Presentation.exported =
        (entries.map Presentation.shown).map Export.name := List.map_map.symm
    rw [hnames, hentries.shown_eq]
    exact (nodup_selected_names library table).sublist (List.filter_sublist.map _)
  refine ⟨interface, entries, hplan, hentries.shown_eq, hnodup,
    hshows.exports_eq.trans hentries.exports_eq, hshows.aliases_eq.trans hentries.aliases_eq,
    hlisted, hdeclared, ?_, ?_, ?_, hentries.fits⟩
  · rw [hlisted, hdeclared]
    exact Presentation.perm_exported entries
  · rw [hlisted]
    exact Presentation.sublist_map_filterMap Presentation.exported_of_listed? entries
  · rw [hdeclared]
    exact Presentation.sublist_map_filterMap Presentation.exported_of_declared? entries

/-- A build of one module whose exports differ in how they are defined: `a` is a
binding, `b` and `default` are expressions, `c` is a constant, `d` has no definition, and
`e` is not used. -/
def buildOfMixedExports : Build :=
  let known := (∅ : ExportRegistry).register ⟨0⟩ "./index.js"
  let exports : List Export :=
    [⟨"a", .provided, ∅, none, none⟩, ⟨"b", .provided, ∅, none, none⟩,
      ⟨"default", .provided, ∅, none, none⟩, ⟨"c", .provided, ∅, none, some .null⟩,
      ⟨"d", .provided, ∅, none, none⟩,
      ⟨"e", .provided, OrderedMap.ofList [("main", .unused)], none, none⟩]
  { Build.empty default with
    registry := (exports.foldlM (ExportRegistry.addExport · ⟨0⟩ ·) known).toOption.getD ∅
    code := (∅ : CodeTable).edit ⟨0⟩ "main" fun code =>
      { code with definitions := some (OrderedMap.ofList
          [("a", .identifier "x"), ("b", .expression "1 + 1"), ("default", .expression "f()")]) } }

/-- Each way of being defined has its form, and the unused export stays out. -/
theorem presents_live_exports_mixed :
    ∃ interface, ∃ entries : List Presentation,
      (plan buildOfMixedExports ⟨none⟩ ⟨0⟩ none).value = .ok interface ∧
      entries.filterMap Presentation.listed? = [⟨"x", "a"⟩,
        ⟨"__scopelink_exports__default", "default"⟩, ⟨"__scopelink_exports__c", "c"⟩,
        ⟨"__scopelink_exports__d", "d"⟩] ∧
      entries.filterMap Presentation.alias? = [⟨"__scopelink_exports__default", "f()"⟩,
        ⟨"__scopelink_exports__c", "null"⟩,
        ⟨"__scopelink_exports__d", "__scopelink_exports__.d"⟩] ∧
      entries.filterMap Presentation.declared? = [⟨"b", "1 + 1"⟩] ∧
      (entries.map Presentation.exported).Nodup := by
  obtain ⟨table, htable⟩ := Option.isSome_iff_exists.mp
    (by decide : (buildOfMixedExports.registry.table? ⟨0⟩).isSome = true)
  obtain ⟨interface, entries, hplan, -, hnodup, -, haliases, hlisted, hdeclared, -⟩ :=
    presents_live_exports buildOfMixedExports ⟨none⟩ ⟨0⟩ none htable
  have hread : (plan buildOfMixedExports ⟨none⟩ ⟨0⟩ none).value.toOption.map (fun interface =>
      (interface.listed, interface.aliases, interface.declared)) =
        some ([⟨"x", "a"⟩, ⟨"__scopelink_exports__default", "default"⟩,
            ⟨"__scopelink_exports__c", "c"⟩, ⟨"__scopelink_exports__d", "d"⟩],
          [⟨"__scopelink_exports__default", "f()"⟩, ⟨"__scopelink_exports__c", "null"⟩,
            ⟨"__scopelink_exports__d", "__scopelink_exports__.d"⟩],
          [⟨"b", "1 + 1"⟩]) := by decide
  rw [hplan] at hread
  obtain ⟨hreadListed, hrest⟩ := Prod.mk.inj (Option.some.inj hread)
  obtain ⟨hreadAliases, hreadDeclared⟩ := Prod.mk.inj hrest
  exact ⟨interface, entries, hplan, hlisted ▸ hreadListed, haliases ▸ hreadAliases,
    hdeclared ▸ hreadDeclared, hnodup⟩

end Interface

end ModuleLinker
