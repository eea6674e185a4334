import ModuleLinker.Proofs.Naming.Agreement

/-!
# Naming what was named before

Linking records the final names of imports where it found the names to give.  Naming
the members again then starts from other spellings, while declarations and exports are
still spelled as before.  The two runs are compared here: as long as a renamed import is
nothing but an import, it asks for the name that it has, and the second run takes the
same names as the first.
-/

namespace ModuleLinker

namespace Scope

/-- An identifier is taken once it was asked for, whoever got it. -/
theorem mem_names_allocate {scope : Scope} {name : String}
    (hname : Identifier.isIdentifier name = true) : name ∈ (scope.allocate name).2.names := by
  by_cases htaken : name ∈ scope.names
  · rw [allocate_snd]
    exact mem_names_reserve.mpr (Or.inl htaken)
  · rw [allocate_of_notMem hname htaken]
    exact mem_names_reserve.mpr (Or.inr rfl)

end Scope

namespace Naming

theorem nameLocals_append (scope : Scope) (names : OrderedMap String String)
    (first second : List String) :
    nameLocals scope names (first ++ second) =
      nameLocals (nameLocals scope names first).1 (nameLocals scope names first).2 second := by
  induction first generalizing scope names with
  | nil => rfl
  | cons localName rest ih =>
    rw [List.cons_append, nameLocals, nameLocals]
    split
    · exact ih scope names
    · exact ih _ _

theorem nameLocals_cons_of_mem {scope : Scope} {names : OrderedMap String String}
    {localName : String} (h : localName ∈ names.keys) (rest : List String) :
    nameLocals scope names (localName :: rest) = nameLocals scope names rest := by
  rw [nameLocals, if_pos (OrderedMap.contains_iff.mpr h)]

theorem nameLocals_cons_of_notMem {scope : Scope} {names : OrderedMap String String}
    {localName : String} (h : localName ∉ names.keys) (rest : List String) :
    nameLocals scope names (localName :: rest) =
      nameLocals (scope.allocate localName).2
        (names.insert localName (scope.allocate localName).1) rest := by
  rw [nameLocals, if_neg (mt OrderedMap.contains_iff.mp h)]

/-- A name that was given stays. -/
theorem find?_nameLocals {scope : Scope} {names : OrderedMap String String}
    {locals : List String} {localName name : String} (h : names.find? localName = some name) :
    (nameLocals scope names locals).2.find? localName = some name := by
  obtain ⟨fresh, hentries, -⟩ := exists_entries_nameLocals scope names locals
  rw [OrderedMap.find?_eq_some_iff] at h ⊢
  rw [hentries]
  exact List.mem_append_left _ h

/-- Whatever names are given, the local names that are identifiers are taken after it. -/
theorem mem_names_nameLocals {scope : Scope} {names : OrderedMap String String}
    (hnames : ∀ localName ∈ names.keys, Identifier.isIdentifier localName = true →
      localName ∈ scope.names) (locals : List String) {localName : String}
    (hmem : localName ∈ (nameLocals scope names locals).2.keys)
    (hidentifier : Identifier.isIdentifier localName = true) :
    localName ∈ (nameLocals scope names locals).1.names := by
  induction locals generalizing scope names with
  | nil => exact hnames localName hmem hidentifier
  | cons first rest ih =>
    by_cases hfirst : first ∈ names.keys
    · rw [nameLocals_cons_of_mem hfirst] at hmem ⊢
      exact ih hnames hmem
    · rw [nameLocals_cons_of_notMem hfirst] at hmem ⊢
      refine ih (fun other hother hspelled => ?_) hmem
      cases OrderedMap.mem_keys_insert.mp hother with
      | inl hold => exact Scope.mem_names_reserve.mpr (Or.inl (hnames other hold hspelled))
      | inr heq =>
        rw [heq] at hspelled ⊢
        exact Scope.mem_names_allocate hspelled

/-- The names of a member before and after its imports were spelled as they were named:
declarations have the names that they had, and every other local name is the name of what
it stands for. -/
structure Respells (declarations : UniqueList String) (first second : OrderedMap String String) :
    Prop where
  keeps : ∀ localName ∈ declarations, second.find? localName = first.find? localName
  renames : ∀ localName name, localName ∉ declarations → first.find? localName = some name →
    second.find? name = some name
  only : ∀ localName name, localName ∉ declarations → second.find? localName = some name →
    ∃ old, old ∉ declarations ∧ first.find? old = some localName

/-- Two runs of naming side by side, once the declarations have their names. -/
structure Alongside (declarations : UniqueList String) (scope : Scope)
    (first second : OrderedMap String String) : Prop where
  respells : Respells declarations first second
  declaration_mem : ∀ declaration ∈ declarations, declaration ∈ first.keys
  identifier_mem : ∀ declaration ∈ declarations, Identifier.isIdentifier declaration = true →
    declaration ∈ scope.names
  name_mem : ∀ localName name, first.find? localName = some name → name ∈ scope.names

namespace Alongside

variable {declarations : UniqueList String} {scope : Scope}
  {first second : OrderedMap String String} {binding : String}

/-- A name that is free belongs to nothing in the second run either. -/
theorem allocate_notMem (h : Alongside declarations scope first second) (binding : String) :
    (scope.allocate binding).1 ∉ declarations ∧ (scope.allocate binding).1 ∉ second.keys := by
  have hfree := scope.allocate_notMem binding
  have hdeclaration : (scope.allocate binding).1 ∉ declarations := fun hmem =>
    hfree (h.identifier_mem _ hmem (scope.isIdentifier_allocate binding))
  refine ⟨hdeclaration, fun hmem => ?_⟩
  obtain ⟨name, hname⟩ := OrderedMap.mem_keys_iff_exists_find?.mp hmem
  obtain ⟨old, -, hold⟩ := h.respells.only _ _ hdeclaration hname
  exact hfree (h.name_mem old _ hold)

/-- Both runs give one more name: the first to an import binding, and the second to the
name that the first has given. -/
theorem respells_insert (h : Alongside declarations scope first second)
    (hnew : binding ∉ first.keys) :
    Respells declarations (first.insert binding (scope.allocate binding).1)
      (second.insert (scope.allocate binding).1 (scope.allocate binding).1) where
  keeps localName hlocal := by
    have hbinding : binding ≠ localName := fun heq =>
      hnew (heq ▸ h.declaration_mem localName hlocal)
    have hname : (scope.allocate binding).1 ≠ localName := fun heq =>
      (h.allocate_notMem binding).1 (heq ▸ hlocal)
    rw [OrderedMap.find?_insert, OrderedMap.find?_insert, if_neg hbinding, if_neg hname]
    exact h.respells.keeps localName hlocal
  renames localName name hlocal hname := by
    rw [OrderedMap.find?_insert] at hname ⊢
    split at hname
    · rw [← Option.some.inj hname, if_pos rfl]
    · split
      · rename_i heq
        rw [heq]
      · exact h.respells.renames localName name hlocal hname
  only localName name hlocal hname := by
    rw [OrderedMap.find?_insert] at hname
    split at hname
    · rename_i heq
      have hundeclared : binding ∉ declarations := fun hmem => hnew (h.declaration_mem _ hmem)
      exact ⟨binding, hundeclared, by rw [OrderedMap.find?_insert_self, heq]⟩
    · obtain ⟨old, hold, hfind⟩ := h.respells.only localName name hlocal hname
      refine ⟨old, hold, ?_⟩
      have hne : binding ≠ old := fun heq =>
        hnew (heq ▸ OrderedMap.mem_keys_iff_exists_find?.mpr ⟨_, hfind⟩)
      rw [OrderedMap.find?_insert, if_neg hne]
      exact hfind

/-- The runs stay side by side when they give one more name. -/
theorem insert (h : Alongside declarations scope first second) (hnew : binding ∉ first.keys) :
    Alongside declarations (scope.allocate binding).2
      (first.insert binding (scope.allocate binding).1)
      (second.insert (scope.allocate binding).1 (scope.allocate binding).1) where
  respells := h.respells_insert hnew
  declaration_mem declaration hmem :=
    OrderedMap.mem_keys_insert.mpr (Or.inl (h.declaration_mem declaration hmem))
  identifier_mem declaration hmem hspelled :=
    Scope.mem_names_reserve.mpr (Or.inl (h.identifier_mem declaration hmem hspelled))
  name_mem localName name hname := by
    rw [OrderedMap.find?_insert] at hname
    split at hname
    · rw [← Option.some.inj hname]
      exact Scope.mem_names_reserve.mpr (Or.inr rfl)
    · exact Scope.mem_names_reserve.mpr (Or.inl (h.name_mem localName name hname))

end Alongside

/-- Naming imports under the names that they have got takes the same names again. -/
theorem nameLocals_respelled {declarations : UniqueList String} {scope : Scope}
    {first second final : OrderedMap String String} {respell : String → String}
    {bindings : List String} (h : Alongside declarations scope first second)
    (hfinal : (nameLocals scope first bindings).2 = final)
    (hrespell : ∀ binding ∈ bindings, final.find? binding = some (respell binding))
    (hkeeps : ∀ binding ∈ bindings, binding ∈ declarations → respell binding = binding) :
    (nameLocals scope second (bindings.map respell)).1 = (nameLocals scope first bindings).1 ∧
      Respells declarations final (nameLocals scope second (bindings.map respell)).2 := by
  induction bindings generalizing scope first second with
  | nil => exact ⟨rfl, hfinal ▸ h.respells⟩
  | cons binding rest ih =>
    have hname := hrespell binding List.mem_cons_self
    have hrest := fun other hother => hrespell other (List.mem_cons_of_mem binding hother)
    have hkept := fun other hother => hkeeps other (List.mem_cons_of_mem binding hother)
    rw [List.map_cons]
    by_cases hold : binding ∈ first.keys
    · -- The binding has its name already, so the second run has met that name before.
      have hpresent : respell binding ∈ second.keys := by
        obtain ⟨name, hfind⟩ := OrderedMap.mem_keys_iff_exists_find?.mp hold
        have hsame : name = respell binding := by
          rw [← hfinal, find?_nameLocals hfind] at hname
          exact Option.some.inj hname
        rw [hsame] at hfind
        apply OrderedMap.mem_keys_iff_exists_find?.mpr
        by_cases hdeclared : binding ∈ declarations
        · have hkeep := hkeeps binding List.mem_cons_self hdeclared
          refine ⟨respell binding, ?_⟩
          rw [← h.respells.keeps binding hdeclared] at hfind
          rw [hkeep] at hfind ⊢
          exact hfind
        · exact ⟨_, h.respells.renames binding _ hdeclared hfind⟩
      rw [nameLocals_cons_of_mem hold] at hfinal ⊢
      rw [nameLocals_cons_of_mem hpresent]
      exact ih h hfinal hrest hkept
    · rw [nameLocals_cons_of_notMem hold] at hfinal ⊢
      have hsame : respell binding = (scope.allocate binding).1 := by
        rw [← hfinal, find?_nameLocals (OrderedMap.find?_insert_self _ _ _)] at hname
        exact (Option.some.inj hname).symm
      rw [hsame, nameLocals_cons_of_notMem (h.allocate_notMem binding).2,
        Scope.allocate_of_notMem (scope.isIdentifier_allocate binding)
          (scope.allocate_notMem binding)]
      exact ih (h.insert hold) hfinal hrest hkept

/-- The code of a member with its imports spelled as the member has named them.  An import
that got another name by it is no declaration, and no export is backed by either of its
names. -/
structure Respelled (facts : BuildFacts) (member : Member) (code : ModuleCode) : Prop where
  declarations_eq : code.declarations = (facts.codeOf member.module).declarations
  backing_eq : code.backing = (facts.codeOf member.module).backing
  importBindings_eq : code.importBindings = (facts.codeOf member.module).importBindings.map
    fun binding => (member.localNames.find? binding).getD binding
  renamed : ∀ binding ∈ (facts.codeOf member.module).importBindings, ∀ name,
    member.localNames.find? binding = some name → name ≠ binding →
      binding ∉ (facts.codeOf member.module).declarations ∧
        ∀ e ∈ linkable facts member.module, e.isForwarding = false →
          (facts.codeOf member.module).backingOf e.name ≠ binding ∧
            (facts.codeOf member.module).backingOf e.name ≠ name

/-- What is respelled are the imports under the local names, whatever else is known of a
member. -/
theorem Respelled.of_eq {facts : BuildFacts} {code : CodeTable} {first member : Member}
    (heq : (first.module, first.localNames) = (member.module, member.localNames))
    (h : Respelled facts first (code.get first.module facts.runtime)) :
    Respelled facts member (code.get member.module facts.runtime) := by
  obtain ⟨hmodule, hnames⟩ := Prod.mk.inj heq
  constructor
  · rw [← hmodule]
    exact h.declarations_eq
  · rw [← hmodule]
    exact h.backing_eq
  · rw [← hmodule, ← hnames]
    exact h.importBindings_eq
  · rw [← hmodule, ← hnames]
    exact h.renamed

/-- Two runs of naming make the same of a member but for its local names and imports. -/
structure Matches (facts : BuildFacts) (first second : Member) : Prop where
  module_eq : second.module = first.module
  exportMap_eq : second.exportMap = first.exportMap
  namespaceName_eq : second.namespaceName = first.namespaceName
  respells : Respells (facts.codeOf first.module).declarations first.localNames second.localNames

section Rounds

variable {facts : BuildFacts} {code : CodeTable}

theorem alongside_declarations (scope : Scope) (declarations : UniqueList String) :
    Alongside declarations (nameLocals scope ∅ declarations.toList).1
      (nameLocals scope ∅ declarations.toList).2 (nameLocals scope ∅ declarations.toList).2 := by
  have hkeys : ∀ localName, localName ∈ (nameLocals scope ∅ declarations.toList).2.keys ↔
      localName ∈ declarations := fun localName => by
    rw [mem_keys_nameLocals, OrderedMap.keys_empty, or_iff_right List.not_mem_nil,
      UniqueList.mem_toList]
  have hundeclared : ∀ localName name, localName ∉ declarations →
      (nameLocals scope ∅ declarations.toList).2.find? localName ≠ some name :=
    fun localName name hlocal hname =>
      hlocal ((hkeys localName).mp (OrderedMap.mem_keys_iff_exists_find?.mpr ⟨name, hname⟩))
  refine ⟨⟨fun _ _ => rfl, fun localName name hlocal hname => ?_,
    fun localName name hlocal hname => ?_⟩, fun declaration hmem => ?_,
    fun declaration hmem => ?_, fun localName name hname => ?_⟩
  · exact absurd hname (hundeclared localName name hlocal)
  · exact absurd hname (hundeclared localName name hlocal)
  · exact (hkeys declaration).mpr hmem
  · exact mem_names_nameLocals (fun _ h => absurd h List.not_mem_nil) _
      ((hkeys declaration).mpr hmem)
  · obtain ⟨fresh, hentries, hgrows⟩ := exists_entries_nameLocals scope ∅ declarations.toList
    rw [OrderedMap.find?_eq_some_iff, hentries] at hname
    exact hgrows.mem_iff.mpr (Or.inr (List.mem_map_of_mem (f := Prod.snd) hname))

/-- The local names of a member whose imports were spelled as they were named. -/
theorem nameLocals_topLevelNames (scope : Scope) {old new : ModuleCode}
    {names : OrderedMap String String} (hnames : (nameLocals scope ∅ old.topLevelNames).2 = names)
    (hdeclarations : new.declarations = old.declarations)
    (hbindings : new.importBindings = old.importBindings.map
      fun binding => (names.find? binding).getD binding)
    (hkeeps : ∀ binding ∈ old.importBindings, ∀ name, names.find? binding = some name →
      name ≠ binding → binding ∉ old.declarations) :
    (nameLocals scope ∅ new.topLevelNames).1 = (nameLocals scope ∅ old.topLevelNames).1 ∧
      Respells old.declarations names (nameLocals scope ∅ new.topLevelNames).2 := by
  have hfind : ∀ binding ∈ old.importBindings,
      names.find? binding = some ((names.find? binding).getD binding) := by
    intro binding hbinding
    have hmem : binding ∈ (nameLocals scope ∅ old.topLevelNames).2.keys :=
      (mem_keys_nameLocals _ _ _ _).mpr (Or.inr (List.mem_append_right _ hbinding))
    obtain ⟨name, hname⟩ := OrderedMap.mem_keys_iff_exists_find?.mp (hnames ▸ hmem)
    rw [hname, Option.getD_some]
  rw [ModuleCode.topLevelNames, nameLocals_append] at hnames
  rw [ModuleCode.topLevelNames, ModuleCode.topLevelNames, hdeclarations, hbindings,
    nameLocals_append, nameLocals_append]
  refine nameLocals_respelled (alongside_declarations scope old.declarations) hnames hfind ?_
  intro binding hbinding hdeclared
  by_contra hne
  exact hkeeps binding hbinding _ (hfind binding hbinding) hne hdeclared

/-- The first round takes the same names again. -/
theorem enterMembers_respelled {index : Nat} {scope : Scope} {modules : List ModuleId}
    (h : ∀ member ∈ (enterMembers facts index scope modules).2,
      Respelled facts member (code.get member.module facts.runtime)) :
    (enterMembers { facts with code } index scope modules).1 =
        (enterMembers facts index scope modules).1 ∧
      List.Forall₂ (Matches facts) (enterMembers facts index scope modules).2
        (enterMembers { facts with code } index scope modules).2 := by
  induction modules generalizing index scope with
  | nil => exact ⟨rfl, .nil⟩
  | cons module rest ih =>
    rw [enterMembers] at h
    have hfirst := h _ List.mem_cons_self
    obtain ⟨hscope, hnames⟩ := nameLocals_topLevelNames scope rfl
      hfirst.declarations_eq hfirst.importBindings_eq
      fun binding hbinding name hname hne => (hfirst.renamed binding hbinding name hname hne).1
    obtain ⟨hlast, hrest⟩ := ih fun member hmember => h member (List.mem_cons_of_mem _ hmember)
    rw [enterMembers, enterMembers]
    have hcode : BuildFacts.codeOf { facts with code } module =
      code.get module facts.runtime := rfl
    rw [hcode]
    dsimp only
    rw [hscope]
    exact ⟨hlast, .cons ⟨rfl, rfl, rfl, hnames⟩ hrest⟩

/-- What stands behind an export has the same name in both runs. -/
theorem Matches.find?_backingOf {first second : Member} (h : Matches facts first second)
    (hentered : Entered facts first)
    (hcode : Respelled facts first (code.get first.module facts.runtime)) {e : Export}
    (he : e ∈ linkable facts first.module) (hown : e.isForwarding = false) :
    second.localNames.find? ((code.get first.module facts.runtime).backingOf e.name) =
      first.localNames.find? ((facts.codeOf first.module).backingOf e.name) := by
  rw [ModuleCode.backingOf, hcode.backing_eq, ← ModuleCode.backingOf]
  generalize hlocal : (facts.codeOf first.module).backingOf e.name = localName
  by_cases hdeclared : localName ∈ (facts.codeOf first.module).declarations
  · exact h.respells.keeps localName hdeclared
  · -- Outside the declarations there are only imports, and no renamed one stands here.
    have himport : ∀ binding name, binding ∉ (facts.codeOf first.module).declarations →
        first.localNames.find? binding = some name →
        binding ∈ (facts.codeOf first.module).importBindings := by
      intro binding name hundeclared hname
      have hmem := (hentered.mem_keys_iff binding).mp
        (OrderedMap.mem_keys_iff_exists_find?.mpr ⟨name, hname⟩)
      exact (List.mem_append.mp hmem).resolve_left hundeclared
    cases hfind : first.localNames.find? localName with
    | none =>
      rw [← Option.not_isSome_iff_eq_none, Option.isSome_iff_exists]
      rintro ⟨name, hname⟩
      obtain ⟨old, hold, hrenamed⟩ := h.respells.only localName name hdeclared hname
      have hne : localName ≠ old := by
        rintro rfl
        rw [hfind] at hrenamed
        exact absurd hrenamed.symm (Option.some_ne_none _)
      exact ((hcode.renamed old (himport old _ hold hrenamed) localName hrenamed hne).2 e he
        hown).2 hlocal
    | some name =>
      have hsame : name = localName := by
        by_contra hne
        exact ((hcode.renamed localName (himport localName name hdeclared hfind) name hfind
          hne).2 e he hown).1 hlocal
      rw [hsame] at hfind ⊢
      exact h.respells.renames localName localName hdeclared hfind

/-- The second round binds the same. -/
theorem bindMembers_respelled {members others : List Member}
    (h : List.Forall₂ (Matches facts) members others)
    (hentered : ∀ member ∈ members, Entered facts member)
    (hcode : ∀ member ∈ members,
      Respelled facts member (code.get member.module facts.runtime)) (scope : Scope) :
    bindMembers { facts with code } scope others = bindMembers facts scope members := by
  induction h generalizing scope with
  | nil => rfl
  | @cons first second rest later hmatches _ ih =>
    have hown : bindOwn (BuildFacts.codeOf { facts with code } second.module) second.localNames
        scope ∅ (linkable { facts with code } second.module) =
          bindOwn (facts.codeOf first.module) first.localNames scope ∅
            (linkable facts first.module) := by
      rw [hmatches.module_eq]
      exact bindOwn_congr (fun e he => hmatches.find?_backingOf (hentered first List.mem_cons_self)
        (hcode first List.mem_cons_self) he) scope ∅
    have hrest := ih (fun member hmember => hentered member (List.mem_cons_of_mem _ hmember))
      fun member hmember => hcode member (List.mem_cons_of_mem _ hmember)
    rw [bindMembers, bindMembers, hown, hmatches.module_eq]
    dsimp only
    rw [hrest]

/-- The third round maps the same. -/
theorem mapMembers_respelled {members others : List Member}
    (h : List.Forall₂ (Matches facts) members others) (own : OrderedMap ModuleId ExportMap)
    (names : NamespaceNames) :
    (mapMembers facts own names others).1 = (mapMembers facts own names members).1 ∧
      List.Forall₂ (Matches facts) (mapMembers facts own names members).2
        (mapMembers facts own names others).2 := by
  induction h generalizing names with
  | nil => exact ⟨rfl, .nil⟩
  | @cons first second rest later hmatches _ ih =>
    obtain ⟨hnames, hrest⟩ :=
      ih (mapExports facts own first.module names ∅ (linkable facts first.module)).1
    rw [mapMembers, mapMembers, hmatches.module_eq]
    exact ⟨hnames, .cons ⟨rfl, rfl, hmatches.namespaceName_eq, hmatches.respells⟩ hrest⟩

end Rounds

end Naming

namespace NamedMembers

variable {facts : BuildFacts} {modules : UniqueList ModuleId} {code : CodeTable}

/-- Members whose imports were spelled as they were named get the same names again: the
scope and the namespaces outside stay, and so does every member but for its local names
and imports. -/
theorem ofModules_respelled (facts : BuildFacts) (modules : UniqueList ModuleId)
    (code : CodeTable)
    (h : ∀ member ∈ (entered facts modules).2,
      Naming.Respelled facts member (code.get member.module facts.runtime)) :
    (ofModules { facts with code } modules).scope = (ofModules facts modules).scope ∧
      (ofModules { facts with code } modules).outside = (ofModules facts modules).outside ∧
      List.Forall₂ (Naming.Matches facts) (ofModules facts modules).members
        (ofModules { facts with code } modules).members := by
  obtain ⟨hentered, hmembers⟩ := Naming.enterMembers_respelled h
  have hbound : bound { facts with code } modules = bound facts modules := by
    rw [bound, bound, entered, hentered]
    exact Naming.bindMembers_respelled hmembers
      (fun member hmember => Naming.entered_of_mem_enterMembers hmember) h _
  have hmapped : (mapped { facts with code } modules).1 = (mapped facts modules).1 ∧
      List.Forall₂ (Naming.Matches facts) (mapped facts modules).2
        (mapped { facts with code } modules).2 := by
    rw [mapped, mapped, hbound, Naming.mapMembers_congr (.withCode facts code)]
    exact Naming.mapMembers_respelled hmembers _ _
  obtain ⟨hnames, hlast⟩ := hmapped
  rw [ofModules_eq, ofModules_eq, hnames]
  refine ⟨rfl, rfl, List.forall₂_map_left_iff.mpr (List.forall₂_map_right_iff.mpr ?_)⟩
  refine hlast.imp fun first second hmatches => ?_
  exact ⟨hmatches.module_eq, hmatches.exportMap_eq, by rw [hmatches.module_eq],
    hmatches.respells⟩

end NamedMembers

end ModuleLinker
