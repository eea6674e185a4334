import ModuleLinker.Proofs.Exports.Histories
import ModuleLinker.Proofs.Interface.Presentation
import ModuleLinker.Proofs.Interface.Standalone

/-!
# Interfaces of single exports

A library may select a single export of a module.  Planning it alone and planning it among
all the exports start from the same scope, but the exports before it may have taken names,
so that its alias has another name, or that it needs an alias where it could have declared
its own.  What it comes to is the same both times: a binding, if its definition is one, and
else the text of an expression, wherever in the interface that text stands.
-/

namespace ModuleLinker

namespace ExportForm

/-- What an export comes to in a form: the binding that it is, or a text. -/
def content : ExportForm → Reference
  | binding name => .identifier name
  | declaration expression => .expression expression
  | aliased _ expression => .expression expression
  | valued _ init => .expression init

/-- The definition of an export that has a form. -/
def definition? : ExportForm → Option Reference
  | binding name => some (.identifier name)
  | declaration expression => some (.expression expression)
  | aliased _ expression => some (.expression expression)
  | valued _ _ => none

end ExportForm

namespace Interface

/-- The names under which an interface exports something. -/
def exported (interface : Interface) : List String :=
  interface.listed.map ListedExport.exported ++ interface.declared.map DeclaredExport.exported

/-- What a reader of an interface finds behind an exported name.  A name that a definition
binds is listed with that binding.  Any other is declared with its text, or listed under an
alias that is declared with it. -/
inductive Gives (interface : Interface) (definition : Option Reference) (exported : String) :
    Reference → Prop
  | binding {name : String} (hdefined : definition = some (.identifier name))
      (hlisted : ⟨name, exported⟩ ∈ interface.listed) :
      Gives interface definition exported (.identifier name)
  | declared {text : String} (hdeclared : ⟨exported, text⟩ ∈ interface.declared) :
      Gives interface definition exported (.expression text)
  | aliased {name text : String} (hundefined : ∀ other, definition ≠ some (.identifier other))
      (hlisted : ⟨name, exported⟩ ∈ interface.listed)
      (halias : ⟨name, text⟩ ∈ interface.aliases) :
      Gives interface definition exported (.expression text)

/-- What an export comes to in every interface that shows it: its definition, or else its
constant or its property of the exports object. -/
def contentOf (definitions : ExportMap) (e : Export) (access : String) : Reference :=
  (definitions.find? access).getD (.expression (Draft.undefinedInit e access))

/-- The interface of a single export beside the full interface of the same module.  It
exports that name or nothing, and it does so exactly when the full one does.  Both give the
name the content of its export and nothing else.  If the export declares its own name in
the full interface, then it does so alone. -/
structure Restricts (facts : BuildFacts) (module : ModuleId) (name : String)
    (full single : Interface) : Prop where
  exported_sublist : single.exported.Sublist [name]
  mem_exported_iff : name ∈ single.exported ↔ name ∈ full.exported
  gives_iff : name ∈ full.exported → ∃ e access,
    facts.registry.export? ⟨module, name⟩ = some e ∧ e.accessName facts.runtime = some access ∧
      ∀ content,
        (single.Gives ((definitionsOf facts module).find? access) name content ↔
          content = contentOf (definitionsOf facts module) e access) ∧
        (full.Gives ((definitionsOf facts module).find? access) name content ↔
          content = contentOf (definitionsOf facts module) e access)
  declared : name ∈ full.declared.map DeclaredExport.exported →
    name ∈ single.declared.map DeclaredExport.exported

/-! ## Reading one interface -/

/-- One export in the lists of an interface: it is there in one form, which accords with its
definition, and its alias, if it has one, is declared once. -/
structure ShownAs (interface : Interface) (definition : Option Reference) (e : Export)
    (form : ExportForm) : Prop where
  definition_eq : definition = form.definition?
  listed_iff : ∀ name, ⟨name, e.name⟩ ∈ interface.listed ↔
    Presentation.listed? ⟨e, form⟩ = some ⟨name, e.name⟩
  declared_iff : ∀ text, ⟨e.name, text⟩ ∈ interface.declared ↔
    Presentation.declared? ⟨e, form⟩ = some ⟨e.name, text⟩
  alias_iff : ∀ name init, Presentation.alias? ⟨e, form⟩ = some ⟨name, init⟩ →
    ∀ text, ⟨name, text⟩ ∈ interface.aliases ↔ text = init

/-- A name in an interface has one content, that of the form in which it is shown. -/
theorem ShownAs.gives_iff {interface : Interface} {definition : Option Reference} {e : Export}
    {form : ExportForm} (h : interface.ShownAs definition e form) (content : Reference) :
    interface.Gives definition e.name content ↔ content = form.content := by
  have hdefinition := h.definition_eq
  constructor
  · intro hgives
    cases hgives with
    | @binding name hdefined _ =>
      have hsame : form.definition? = some (.identifier name) := hdefinition.symm.trans hdefined
      cases form with
      | binding other => exact (Option.some.inj hsame).symm
      | declaration expression => exact Reference.noConfusion (Option.some.inj hsame)
      | aliased other expression => exact Reference.noConfusion (Option.some.inj hsame)
      | valued other init => exact absurd hsame.symm (Option.some_ne_none _)
    | @declared text hdeclared =>
      have hshown := (h.declared_iff text).mp hdeclared
      cases form with
      | declaration expression =>
        obtain ⟨-, rfl⟩ := DeclaredExport.mk.inj (Option.some.inj hshown)
        rfl
      | binding other => exact absurd hshown.symm (Option.some_ne_none _)
      | aliased other expression => exact absurd hshown.symm (Option.some_ne_none _)
      | valued other init => exact absurd hshown.symm (Option.some_ne_none _)
    | @aliased name text hundefined hlisted halias =>
      have hshown := (h.listed_iff name).mp hlisted
      cases form with
      | binding other => exact absurd hdefinition (hundefined other)
      | declaration expression => exact absurd hshown.symm (Option.some_ne_none _)
      | aliased other expression =>
        obtain ⟨rfl, -⟩ := ListedExport.mk.inj (Option.some.inj hshown)
        rw [(h.alias_iff _ _ rfl text).mp halias, ExportForm.content]
      | valued other init =>
        obtain ⟨rfl, -⟩ := ListedExport.mk.inj (Option.some.inj hshown)
        rw [(h.alias_iff _ _ rfl text).mp halias, ExportForm.content]
  · rintro rfl
    cases form with
    | binding name => exact .binding hdefinition ((h.listed_iff name).mpr rfl)
    | declaration expression => exact .declared ((h.declared_iff expression).mpr rfl)
    | aliased name expression =>
      refine .aliased (fun other hother => ?_) ((h.listed_iff name).mpr rfl)
        ((h.alias_iff name expression rfl expression).mpr rfl)
      exact Reference.noConfusion (Option.some.inj (hdefinition.symm.trans hother))
    | valued name init =>
      refine .aliased (fun other hother => ?_) ((h.listed_iff name).mpr rfl)
        ((h.alias_iff name init rfl init).mpr rfl)
      exact absurd (hdefinition.symm.trans hother).symm (Option.some_ne_none _)

section Reading

variable {facts : BuildFacts} {library : Library} {table : ExportTable} {module : ModuleId}
  {scope : Scope} {interface : Interface} {e : Export} {access : String}

/-- The form that suits an export accords with its definition, and tells what it comes to. -/
theorem definition_eq_of_fits {definitions : ExportMap} {taken : List String} {form : ExportForm}
    (hfits : Presentation.Fits facts definitions taken e form)
    (haccess : e.accessName facts.runtime = some access) :
    definitions.find? access = form.definition? ∧
      contentOf definitions e access = form.content := by
  have hsame {other : String} (hother : e.accessName facts.runtime = some other) :
      other = access := Option.some.inj (hother.symm.trans haccess)
  rw [contentOf]
  cases hfits with
  | binding hother hdefined =>
    rw [← hsame hother, hdefined]
    exact ⟨rfl, rfl⟩
  | declaration hother hdefined =>
    rw [← hsame hother, hdefined]
    exact ⟨rfl, rfl⟩
  | aliased hother hdefined =>
    rw [← hsame hother, hdefined]
    exact ⟨rfl, rfl⟩
  | constant hother hdefined hconstant =>
    rw [← hsame hother, hdefined, Draft.undefinedInit, hconstant]
    exact ⟨rfl, rfl⟩
  | property hother hdefined hconstant =>
    rw [← hsame hother, hdefined, Draft.undefinedInit, hconstant]
    exact ⟨rfl, rfl⟩

/-- An interface exports the live ones of the exports that were planned, in some order. -/
theorem exported_perm_of_shows
    (hshows : interface.Shows (draftFrom facts library table module scope)) :
    interface.exported.Perm
      (((library.selected table).filter (facts.IsLive module ·)).map Export.name) := by
  obtain ⟨entries, h⟩ := exists_presented_draftFrom facts library table module scope
  rw [exported, hshows.listed_eq, hshows.declared_eq, h.listed_eq, h.declared_eq, ← h.shown_eq,
    List.map_map]
  exact Presentation.perm_exported entries

/-- A live export is shown in one form, which suits it when the start scope and perhaps
more names are taken. -/
theorem exists_shownAs (hshows : interface.Shows (draftFrom facts library table module scope))
    (he : e ∈ library.selected table) (hlive : facts.IsLive module e)
    (haccess : e.accessName facts.runtime = some access) : ∃ form taken,
      Presentation.Fits facts (definitionsOf facts module) taken e form ∧
        scope.names.toList ⊆ taken ∧
        interface.ShownAs ((definitionsOf facts module).find? access) e form := by
  obtain ⟨entries, h⟩ := exists_presented_draftFrom facts library table module scope
  have hshown : e ∈ entries.map Presentation.shown := by
    rw [h.shown_eq]
    exact List.mem_filter.mpr ⟨he, decide_eq_true hlive⟩
  obtain ⟨⟨_, form⟩, hentry, rfl⟩ := List.mem_map.mp hshown
  obtain ⟨i, hi⟩ := List.mem_iff_getElem?.mp hentry
  have hfits := h.fits i _ hi
  have hnames : (entries.map Presentation.exported).Nodup := by
    have heq : entries.map Presentation.exported =
        (entries.map Presentation.shown).map Export.name := List.map_map.symm
    rw [heq, h.shown_eq]
    exact (nodup_selected_names library table).sublist (List.filter_sublist.map _)
  refine ⟨form, _, hfits, List.subset_append_left _ _,
    (definition_eq_of_fits hfits haccess).1, fun name => ?_, fun text => ?_, ?_⟩
  · rw [hshows.listed_eq, h.listed_eq, List.mem_filterMap]
    constructor
    · rintro ⟨other, hother, hlisted⟩
      have hname := Presentation.exported_of_listed? _ _ hlisted
      obtain rfl := List.inj_on_of_nodup_map hnames hother hentry hname.symm
      exact hlisted
    · exact fun hlisted => ⟨_, hentry, hlisted⟩
  · rw [hshows.declared_eq, h.declared_eq, List.mem_filterMap]
    constructor
    · rintro ⟨other, hother, hdeclared⟩
      have hname := Presentation.exported_of_declared? _ _ hdeclared
      obtain rfl := List.inj_on_of_nodup_map hnames hother hentry hname.symm
      exact hdeclared
    · exact fun hdeclared => ⟨_, hentry, hdeclared⟩
  · intro name init halias text
    have hmem : ⟨name, init⟩ ∈ interface.aliases := by
      rw [hshows.aliases_eq, h.aliases_eq]
      exact List.mem_filterMap.mpr ⟨_, hentry, halias⟩
    have hdistinct : (interface.aliases.map AliasDeclaration.name).Nodup := by
      rw [hshows.aliases_eq]
      exact (List.nodup_append.mp
        (accounted_draftFrom facts library table module scope).nodup_introduced).1
    constructor
    · intro hother
      exact (AliasDeclaration.mk.inj (List.inj_on_of_nodup_map hdistinct hother hmem rfl)).2
    · rintro rfl
      exact hmem

end Reading

/-! ## Selecting one export -/

section Selecting

variable {facts : BuildFacts} {module : ModuleId} {table : ExportTable} {scope : Scope}
  {full single : Interface} {name : String} {e : Export}

/-- Which live exports an interface shows, by their names. -/
theorem mem_exported_iff_of_shows {library : Library} {interface : Interface}
    (hshows : interface.Shows (draftFrom facts library table module scope)) :
    name ∈ interface.exported ↔
      ∃ e ∈ library.selected table, facts.IsLive module e ∧ e.name = name := by
  rw [(exported_perm_of_shows hshows).mem_iff, List.mem_map]
  simp only [List.mem_filter, decide_eq_true_eq, and_assoc]

theorem mem_selected_none_iff :
    e ∈ (⟨none⟩ : Library).selected table ↔ table.exports.find? e.name = some e :=
  ⟨ExportTable.find?_of_mem_declared, OrderedMap.mem_values_of_find?⟩

theorem mem_selected_some_iff :
    e ∈ (⟨some name⟩ : Library).selected table ↔ table.exports.find? name = some e :=
  Option.mem_toList

/-- The export that is selected alone is the one of that name in the full selection. -/
theorem mem_selected_some_iff_and :
    e ∈ (⟨some name⟩ : Library).selected table ↔
      e ∈ (⟨none⟩ : Library).selected table ∧ e.name = name := by
  rw [mem_selected_some_iff, mem_selected_none_iff]
  constructor
  · intro hfind
    have hname := ExportTable.name_of_find? hfind
    exact ⟨hname.symm ▸ hfind, hname⟩
  · rintro ⟨hfind, rfl⟩
    exact hfind

/-- The selection of one export consists of it or of nothing. -/
theorem map_name_selected_some_sublist :
    (((⟨some name⟩ : Library).selected table).map Export.name).Sublist [name] := by
  have hselected : (⟨some name⟩ : Library).selected table =
      (table.exports.find? name).toList := rfl
  rw [hselected]
  cases hfind : table.exports.find? name with
  | none => exact List.nil_sublist _
  | some e =>
    rw [Option.toList_some, List.map_singleton, ExportTable.name_of_find? hfind]

/-- An export that finds its own name free when others have taken theirs finds it free at the
start. -/
theorem declared_of_shows (hfull : full.Shows (draftFrom facts ⟨none⟩ table module scope))
    (hsingle : single.Shows (draftFrom facts ⟨some name⟩ table module scope))
    (hname : name ∈ full.declared.map DeclaredExport.exported) :
    name ∈ single.declared.map DeclaredExport.exported := by
  obtain ⟨⟨exported, text⟩, hdeclared, rfl⟩ := List.mem_map.mp hname
  obtain ⟨e, he, hlive, rfl⟩ :=
    (mem_exported_iff_of_shows hfull).mp (List.mem_append_right _ hname)
  obtain ⟨access, haccess⟩ := hlive.used
  obtain ⟨form, taken, hfits, hsubset, hshown⟩ := exists_shownAs hfull he hlive haccess
  have hform := (hshown.declared_iff text).mp hdeclared
  cases hfits with
  | binding => exact absurd hform.symm (Option.some_ne_none _)
  | aliased => exact absurd hform.symm (Option.some_ne_none _)
  | constant => exact absurd hform.symm (Option.some_ne_none _)
  | property => exact absurd hform.symm (Option.some_ne_none _)
  | @declaration other expression hother hdefined hidentifier hfree =>
    have hvisible := Draft.visibleName?_eq_some_iff_isLive.mpr ⟨hlive, hother⟩
    have hnew : e.name ∉ (Draft.start scope).scope.names := fun htaken => hfree (hsubset htaken)
    have hdraft : draftFrom facts ⟨some e.name⟩ table module scope =
        (Draft.start scope).withDeclared e.name expression := by
      rw [← Draft.planExport_of_free hvisible hdefined hnew hidentifier, draftFrom,
        Library.selected]
      simp only [mem_selected_none_iff.mp he, Option.toList_some, List.foldl_cons, List.foldl_nil]
    rw [hsingle.declared_eq, hdraft]
    exact List.mem_singleton.mpr rfl

/-- Selecting one export shows it as the full interface does, if at all. -/
theorem restricts_of_shows (htable : facts.registry.table? module = some table)
    (hfull : full.Shows (draftFrom facts ⟨none⟩ table module scope))
    (hsingle : single.Shows (draftFrom facts ⟨some name⟩ table module scope)) :
    Restricts facts module name full single where
  exported_sublist := by
    have hperm := exported_perm_of_shows hsingle
    rcases List.sublist_singleton.mp
        ((List.filter_sublist.map Export.name).trans map_name_selected_some_sublist) with
      hnone | hone
    · rw [hnone] at hperm
      rw [hperm.eq_nil]
      exact List.nil_sublist _
    · rw [hone] at hperm
      rw [List.perm_singleton.mp hperm]
  mem_exported_iff := by
    rw [mem_exported_iff_of_shows hsingle, mem_exported_iff_of_shows hfull]
    constructor
    · rintro ⟨e, he, hlive, hname⟩
      exact ⟨e, (mem_selected_some_iff_and.mp he).1, hlive, hname⟩
    · rintro ⟨e, he, hlive, hname⟩
      exact ⟨e, mem_selected_some_iff_and.mpr ⟨he, hname⟩, hlive, hname⟩
  gives_iff hname := by
    obtain ⟨e, he, hlive, rfl⟩ := (mem_exported_iff_of_shows hfull).mp hname
    obtain ⟨access, haccess⟩ := hlive.used
    have hfind := mem_selected_none_iff.mp he
    have hexport : facts.registry.export? ⟨module, e.name⟩ = some e := by
      rw [ExportRegistry.export?, htable, Option.bind_some, hfind]
    obtain ⟨form, _, hfits, -, hshown⟩ := exists_shownAs hfull he hlive haccess
    obtain ⟨other, _, hothers, -, hagain⟩ :=
      exists_shownAs hsingle (mem_selected_some_iff.mpr hfind) hlive haccess
    refine ⟨e, access, hexport, haccess, fun content => ⟨?_, ?_⟩⟩
    · rw [hagain.gives_iff, (definition_eq_of_fits hothers haccess).2]
    · rw [hshown.gives_iff, (definition_eq_of_fits hfits haccess).2]
  declared := declared_of_shows hfull hsingle

end Selecting

/-- Selecting a single export is a projection of the full interface, for a module alone and
for one that is merged.  Both are planned or neither is, which happens only if the module
is not registered.  The interface of the single export has it or nothing, as the full one
has it or not, and with the same content; where the full one declares it under its own
name, the single one does too. -/
theorem plan_single_restricts_plan (build : Build) (module : ModuleId)
    (unit : Option Concatenation) (name : String) :
    (build.registry.table? module = none ∧
        (plan build ⟨none⟩ module unit).value = .error (.unregistered module) ∧
        (plan build ⟨some name⟩ module unit).value = .error (.unregistered module)) ∨
      ∃ full single, (plan build ⟨none⟩ module unit).value = .ok full ∧
        (plan build ⟨some name⟩ module unit).value = .ok single ∧
        Restricts build.toBuildFacts module name full single := by
  cases htable : build.registry.table? module with
  | none =>
    refine Or.inl ⟨rfl, ?_, ?_⟩
    · rw [plan, htable]
      rfl
    · rw [plan, htable]
      rfl
  | some table =>
    obtain ⟨full, hplan, hfull⟩ := exists_plan_eq_ok htable ⟨none⟩ unit
    obtain ⟨single, honly, hsingle⟩ := exists_plan_eq_ok htable ⟨some name⟩ unit
    exact Or.inr ⟨full, single, hplan, honly, restricts_of_shows htable hfull hsingle⟩

/-- A build of one module with two expressions, the second of which is called like the alias that
the first one gets.  Nothing defines the other two exports, and one of them is a constant. -/
def buildWithAliasName : Build :=
  let own (name : String) (constant : Option Literal) : ExportEdit :=
    .addExport ⟨0⟩ ⟨name, .provided, ∅, none, constant⟩
  { Build.empty default with
    registry := ExportRegistry.ofEdits [.register ⟨0⟩ "./index.js", own "x y" none,
      own "__scopelink_exports__x_y" none, own "version" (some (.text "2.1.0")),
      own "state" none]
    code := (∅ : CodeTable).edit ⟨0⟩ "main" fun code =>
      { code with
        definitions := some (OrderedMap.ofList [("x y", .expression "1 + 1"),
          ("__scopelink_exports__x_y", .expression "2 + 2")]) } }

/-- An export that is called like the alias of another one needs an alias itself beside it, and
declares its own name when it is planned alone.  Its text is the same, and so is that of the
constant. -/
theorem plan_single_restricts_plan_shadowed :
    ∃ full single constant, (plan buildWithAliasName ⟨none⟩ ⟨0⟩ none).value = .ok full ∧
      (plan buildWithAliasName ⟨some "__scopelink_exports__x_y"⟩ ⟨0⟩ none).value =
        .ok single ∧
      (plan buildWithAliasName ⟨some "version"⟩ ⟨0⟩ none).value = .ok constant ∧
      full.aliases = [⟨"__scopelink_exports__x_y", "1 + 1"⟩,
        ⟨"__scopelink_exports____scopelink_exports__x_y", "2 + 2"⟩,
        ⟨"__scopelink_exports__version", "\"2.1.0\""⟩,
        ⟨"__scopelink_exports__state", "__scopelink_exports__.state"⟩] ∧
      full.declared = [] ∧ single.declared = [⟨"__scopelink_exports__x_y", "2 + 2"⟩] ∧
      constant.aliases = [⟨"__scopelink_exports__version", "\"2.1.0\""⟩] ∧
      Restricts buildWithAliasName.toBuildFacts ⟨0⟩ "__scopelink_exports__x_y" full single ∧
      Restricts buildWithAliasName.toBuildFacts ⟨0⟩ "version" full constant := by
  have hregistered : buildWithAliasName.registry.table? ⟨0⟩ ≠ none := by decide +kernel
  obtain ⟨full, single, hfull, hsingle, hrestricts⟩ :=
    (plan_single_restricts_plan buildWithAliasName ⟨0⟩ none
      "__scopelink_exports__x_y").resolve_left fun h => hregistered h.1
  obtain ⟨other, constant, hother, hconstant, hrestrictsConstant⟩ :=
    (plan_single_restricts_plan buildWithAliasName ⟨0⟩ none "version").resolve_left
      fun h => hregistered h.1
  obtain rfl : full = other := Except.ok.inj (hfull.symm.trans hother)
  have hreadFull : (plan buildWithAliasName ⟨none⟩ ⟨0⟩ none).value.toOption.map
      (fun interface => (interface.aliases, interface.declared)) =
        some ([⟨"__scopelink_exports__x_y", "1 + 1"⟩,
          ⟨"__scopelink_exports____scopelink_exports__x_y", "2 + 2"⟩,
          ⟨"__scopelink_exports__version", "\"2.1.0\""⟩,
          ⟨"__scopelink_exports__state", "__scopelink_exports__.state"⟩], []) := by
    decide +kernel
  have hreadSingle : (plan buildWithAliasName ⟨some "__scopelink_exports__x_y"⟩ ⟨0⟩
      none).value.toOption.map Interface.declared =
        some [⟨"__scopelink_exports__x_y", "2 + 2"⟩] := by decide +kernel
  have hreadConstant : (plan buildWithAliasName ⟨some "version"⟩ ⟨0⟩ none).value.toOption.map
      Interface.aliases = some [⟨"__scopelink_exports__version", "\"2.1.0\""⟩] := by
    decide +kernel
  rw [hfull] at hreadFull
  rw [hsingle] at hreadSingle
  rw [hconstant] at hreadConstant
  obtain ⟨haliases, hdeclared⟩ := Prod.mk.inj (Option.some.inj hreadFull)
  exact ⟨full, single, constant, hfull, hsingle, hconstant, haliases, hdeclared,
    Option.some.inj hreadSingle, Option.some.inj hreadConstant, hrestricts, hrestrictsConstant⟩

end Interface

end ModuleLinker
