import ModuleLinker.Proofs.Naming.Accounts

/-!
# What the third round covers

Which exports have an entry in the export map of their member, and which members have
a name for their namespace.  Neither depends on the names taken so far: an export has
an entry when following it comes to a namespace, to a name of a module outside, or to
an export inside that can be linked itself.
-/

namespace ModuleLinker

namespace Naming

/-- Whether there is a reference for what following an export comes to.  An origin
inside has one if it is an export that can be linked. -/
def HasReference (facts : BuildFacts) (merged : List ModuleId) : Resolution → Prop
  | .origin site => site.module ∈ merged →
      ∃ e ∈ linkable facts site.module, e.isForwarding = false ∧ e.name = site.name
  | .namespaceOf _ => True
  | .missing _ => False
  | .undetermined _ => False
  | .circular _ => False

variable {facts : BuildFacts} {merged : List ModuleId} {bindings : Ledger}
  {own : OrderedMap ModuleId ExportMap} {module : ModuleId} {e : Export}

/-- An origin inside has a reference exactly when the runtime uses the export that is listed
there. -/
theorem hasReference_origin_iff {start site : ExportSite}
    (hresolve : facts.registry.resolve start = .origin site) :
    HasReference facts merged (.origin site) ↔ (site.module ∈ merged →
      ∃ e, facts.registry.export? site = some e ∧ (e.accessName facts.runtime).isSome = true) := by
  apply imp_congr_right
  intro _
  constructor
  · rintro ⟨e, he, -, hname⟩
    have hfind := export?_of_mem_linkable he
    rw [hname] at hfind
    obtain ⟨-, -, -, -, hused⟩ := mem_linkable_iff.mp he
    exact ⟨e, hfind, hused⟩
  · rintro ⟨e, he, hused⟩
    obtain ⟨hprovided, hown⟩ := ExportRegistry.provided_of_resolve_eq_origin hresolve he
    obtain ⟨table, -, hfind⟩ := Option.bind_eq_some_iff.mp he
    exact ⟨e, mem_linkable_of_export? he hprovided hused, hown, ExportTable.name_of_find? hfind⟩

/-- The own exports of a module are those that can be linked and do not forward. -/
theorem OwnsExports.isSome_find?_iff {map : ExportMap}
    (h : OwnsExports facts bindings module map) {name : String} :
    (map.find? name).isSome = true ↔
      ∃ e ∈ linkable facts module, e.isForwarding = false ∧ e.name = name := by
  rw [Option.isSome_iff_exists]
  constructor
  · rintro ⟨reference, hfind⟩
    exact h.only name reference hfind
  · rintro ⟨e, he, hown, rfl⟩
    obtain ⟨name, hfind, -⟩ := h.binds e he hown
    exact ⟨_, hfind⟩

theorem isSome_originReference_iff (hown : OwnMaps facts merged bindings own)
    (names : NamespaceNames) (resolution : Resolution) :
    (originReference facts own names resolution).2.isSome = true ↔
      HasReference facts merged resolution := by
  cases resolution with
  | origin site =>
    rw [originReference, HasReference]
    split
    · rename_i map hmap
      rw [(hown.ownsExports _ _ hmap).isSome_find?_iff,
        forall_prop_of_true (hown.mem_of_find?_eq_some hmap)]
    · rename_i hnone
      exact iff_of_true rfl fun hmem => absurd hmem (hown.notMem_of_find?_eq_none hnone)
  | namespaceOf module =>
    rw [originReference]
    split
    · exact iff_of_true rfl trivial
    · exact iff_of_true rfl trivial
  | missing _ => exact iff_of_false Bool.false_ne_true id
  | undetermined _ => exact iff_of_false Bool.false_ne_true id
  | circular _ => exact iff_of_false Bool.false_ne_true id

/-- Whether an export of a member has a reference is decided by what following it comes
to, also when it does not forward. -/
theorem isSome_exportReference_iff (hown : OwnMaps facts merged bindings own)
    (hmodule : module ∈ merged) (names : NamespaceNames) (he : e ∈ linkable facts module) :
    (exportReference facts own module names e).2.isSome = true ↔
      HasReference facts merged (facts.registry.resolve ⟨module, e.name⟩) := by
  rw [exportReference]
  split
  · exact isSome_originReference_iff hown names _
  · rename_i hforwards
    rw [Bool.not_eq_true] at hforwards
    obtain ⟨map, hmap⟩ := OrderedMap.mem_keys_iff_exists_find?.mp
      ((hown.mem_keys_iff module).mpr hmodule)
    rw [resolve_of_mem_linkable he hforwards, HasReference, forall_prop_of_true hmodule, hmap,
      Option.bind_some]
    exact (hown.ownsExports _ _ hmap).isSome_find?_iff

theorem mem_keys_mapExports_iff (hown : OwnMaps facts merged bindings own)
    (hmodule : module ∈ merged) (names : NamespaceNames) (map : ExportMap)
    {exports : List Export} (hexports : ∀ e ∈ exports, e ∈ linkable facts module)
    {name : String} :
    name ∈ (mapExports facts own module names map exports).2.keys ↔
      name ∈ map.keys ∨ ∃ e ∈ exports, e.name = name ∧
        HasReference facts merged (facts.registry.resolve ⟨module, e.name⟩) := by
  induction exports generalizing names map with
  | nil => simp [mapExports]
  | cons e rest ih =>
    have hiff := isSome_exportReference_iff hown hmodule names (hexports e List.mem_cons_self)
    have hrest : ∀ other ∈ rest, other ∈ linkable facts module := fun other hother =>
      hexports other (List.mem_cons_of_mem _ hother)
    rw [mapExports, List.exists_mem_cons_iff]
    split
    · rename_i after reference heq
      rw [heq] at hiff
      rw [ih _ _ hrest, OrderedMap.mem_keys_insert, or_assoc, and_iff_left (hiff.mp rfl),
        eq_comm]
    · rename_i after heq
      rw [heq] at hiff
      have hnone := mt hiff.mpr Bool.false_ne_true
      rw [ih _ _ hrest, or_iff_right (not_and_of_not_right _ hnone)]

/-- The export map of a member has an entry for each export that can be linked and has a
reference. -/
theorem mem_keys_of_mem_mapMembers (hown : OwnMaps facts merged bindings own)
    (names : NamespaceNames) {members : List Member}
    (hmembers : ∀ member ∈ members, member.module ∈ merged) {member : Member}
    (h : member ∈ (mapMembers facts own names members).2) {name : String} :
    name ∈ member.exportMap.keys ↔ ∃ e ∈ linkable facts member.module, e.name = name ∧
      HasReference facts merged (facts.registry.resolve ⟨member.module, e.name⟩) := by
  induction members generalizing names with
  | nil => exact absurd h List.not_mem_nil
  | cons first rest ih =>
    rw [mapMembers] at h
    rcases List.mem_cons.mp h with rfl | h
    · exact (mem_keys_mapExports_iff hown (hmembers first List.mem_cons_self) names ∅
        fun _ he => he).trans (or_iff_right List.not_mem_nil)
    · exact ih _ (fun other hother => hmembers other (List.mem_cons_of_mem _ hother)) h

/-- Entries are added to an export map in the order of the exports. -/
theorem exists_keys_mapExports (own : OrderedMap ModuleId ExportMap) (names : NamespaceNames)
    (map : ExportMap) (exports : List Export) :
    ∃ listed, (mapExports facts own module names map exports).2.keys = map.keys ++ listed ∧
      listed.Sublist (exports.map Export.name) := by
  induction exports generalizing names map with
  | nil => exact ⟨[], (List.append_nil _).symm, List.Sublist.refl _⟩
  | cons e rest ih =>
    rw [mapExports]
    split
    · rename_i after reference _
      obtain ⟨listed, hkeys, hsublist⟩ := ih after (map.insert e.name reference)
      rw [OrderedMap.keys_insert] at hkeys
      split_ifs at hkeys with hmem
      · exact ⟨listed, hkeys, hsublist.cons e.name⟩
      · rw [List.append_assoc] at hkeys
        exact ⟨e.name :: listed, hkeys, hsublist.cons_cons e.name⟩
    · rename_i after _
      obtain ⟨listed, hkeys, hsublist⟩ := ih after map
      exact ⟨listed, hkeys, hsublist.cons e.name⟩

theorem keys_sublist_of_mem_mapMembers (own : OrderedMap ModuleId ExportMap)
    (names : NamespaceNames) {members : List Member} {member : Member}
    (h : member ∈ (mapMembers facts own names members).2) :
    member.exportMap.keys.Sublist ((linkable facts member.module).map Export.name) := by
  induction members generalizing names with
  | nil => exact absurd h List.not_mem_nil
  | cons first rest ih =>
    rw [mapMembers] at h
    rcases List.mem_cons.mp h with rfl | h
    · obtain ⟨listed, hkeys, hsublist⟩ := @exists_keys_mapExports facts first.module own names ∅
        (linkable facts first.module)
      rw [OrderedMap.keys_empty, List.nil_append] at hkeys
      exact hkeys ▸ hsublist
    · exact ih _ h

/-! ## Namespaces of members -/

theorem mem_keys_inside_insideName (names : NamespaceNames) (facts : BuildFacts)
    (module other : ModuleId) :
    other ∈ (names.insideName facts module).1.inside.keys ↔
      other ∈ names.inside.keys ∨ module = other := by
  rw [NamespaceNames.insideName]
  split
  · rename_i name hname
    have hmem := OrderedMap.mem_keys_iff_exists_find?.mpr ⟨name, hname⟩
    exact ⟨Or.inl, fun h => h.elim id fun heq => heq ▸ hmem⟩
  · rw [OrderedMap.mem_keys_insert, eq_comm]

theorem inside_outsideName (names : NamespaceNames) (facts : BuildFacts) (module : ModuleId) :
    (names.outsideName facts module).1.inside = names.inside := by
  rw [NamespaceNames.outsideName]
  split
  · rfl
  · rfl

/-- A reference takes the name of a member's namespace only for that namespace. -/
theorem mem_keys_inside_originReference (hown : OwnMaps facts merged bindings own)
    (names : NamespaceNames) (resolution : Resolution) (hmodule : module ∈ merged) :
    module ∈ (originReference facts own names resolution).1.inside.keys ↔
      module ∈ names.inside.keys ∨ resolution = .namespaceOf module := by
  cases resolution with
  | origin site =>
    rw [originReference]
    split
    · exact (or_iff_left (by simp)).symm
    · rw [inside_outsideName]
      exact (or_iff_left (by simp)).symm
  | namespaceOf other =>
    rw [originReference, Resolution.namespaceOf.injEq]
    split
    · exact mem_keys_inside_insideName names facts other module
    · rename_i hcontains
      rw [inside_outsideName]
      refine (or_iff_left ?_).symm
      rintro rfl
      exact hcontains (OrderedMap.contains_iff.mpr ((hown.mem_keys_iff _).mpr hmodule))
  | missing _ => exact (or_iff_left (by simp)).symm
  | undetermined _ => exact (or_iff_left (by simp)).symm
  | circular _ => exact (or_iff_left (by simp)).symm

theorem mem_keys_inside_exportReference (hown : OwnMaps facts merged bindings own)
    (names : NamespaceNames) {other : ModuleId} (he : e ∈ linkable facts other)
    (hmodule : module ∈ merged) :
    module ∈ (exportReference facts own other names e).1.inside.keys ↔
      module ∈ names.inside.keys ∨
        facts.registry.resolve ⟨other, e.name⟩ = .namespaceOf module := by
  rw [exportReference]
  split
  · exact mem_keys_inside_originReference hown names _ hmodule
  · rename_i hforwards
    rw [Bool.not_eq_true] at hforwards
    rw [resolve_of_mem_linkable he hforwards]
    exact (or_iff_left (by simp)).symm

theorem mem_keys_inside_mapExports (hown : OwnMaps facts merged bindings own)
    (names : NamespaceNames) {other : ModuleId} (map : ExportMap) {exports : List Export}
    (hexports : ∀ e ∈ exports, e ∈ linkable facts other) (hmodule : module ∈ merged) :
    module ∈ (mapExports facts own other names map exports).1.inside.keys ↔
      module ∈ names.inside.keys ∨ ∃ e ∈ exports,
        facts.registry.resolve ⟨other, e.name⟩ = .namespaceOf module := by
  induction exports generalizing names map with
  | nil => simp [mapExports]
  | cons e rest ih =>
    have hiff := mem_keys_inside_exportReference hown names (hexports e List.mem_cons_self) hmodule
    have hrest : ∀ later ∈ rest, later ∈ linkable facts other := fun later hlater =>
      hexports later (List.mem_cons_of_mem _ hlater)
    rw [mapExports, List.exists_mem_cons_iff, ← or_assoc, ← hiff]
    split
    · rename_i after reference heq
      rw [ih _ _ hrest, heq]
    · rename_i after heq
      rw [ih _ _ hrest, heq]

/-- The third round names the namespaces of those members to which an export of any
member comes. -/
theorem mem_keys_inside_mapMembers (hown : OwnMaps facts merged bindings own)
    (names : NamespaceNames) (members : List Member) (hmodule : module ∈ merged) :
    module ∈ (mapMembers facts own names members).1.inside.keys ↔
      module ∈ names.inside.keys ∨ ∃ member ∈ members, ∃ e ∈ linkable facts member.module,
        facts.registry.resolve ⟨member.module, e.name⟩ = .namespaceOf module := by
  induction members generalizing names with
  | nil => simp [mapMembers]
  | cons member rest ih =>
    rw [mapMembers, ih, List.exists_mem_cons_iff, ← or_assoc,
      mem_keys_inside_mapExports hown names ∅ (fun _ he => he) hmodule]

end Naming

namespace NamedMembers

variable {facts : BuildFacts} {modules : UniqueList ModuleId} {member : Member}

theorem mem_keys_exportMap_iff (h : member ∈ (ofModules facts modules).members) {name : String} :
    name ∈ member.exportMap.keys ↔ ∃ e ∈ Naming.linkable facts member.module, e.name = name ∧
      Naming.HasReference facts modules.toList
        (facts.registry.resolve ⟨member.module, e.name⟩) := by
  obtain ⟨unbacked, spaces, hrounds⟩ := exists_ledgers facts modules
  obtain ⟨first, hfirst, rfl⟩ := List.mem_map.mp h
  exact Naming.mem_keys_of_mem_mapMembers hrounds.ownMaps _
    (fun _ => module_mem_of_mem_entered) hfirst

theorem keys_exportMap_sublist (h : member ∈ (ofModules facts modules).members) :
    member.exportMap.keys.Sublist ((Naming.linkable facts member.module).map Export.name) := by
  obtain ⟨first, hfirst, rfl⟩ := List.mem_map.mp h
  have hsublist := Naming.keys_sublist_of_mem_mapMembers _ _ hfirst
  exact hsublist

/-- A member has a name for its namespace exactly when an export of some member comes to
that namespace. -/
theorem isSome_namespaceName_iff (h : member ∈ (ofModules facts modules).members) :
    member.namespaceName.isSome = true ↔
      ∃ other ∈ modules, ∃ e ∈ Naming.linkable facts other,
        facts.registry.resolve ⟨other, e.name⟩ = .namespaceOf member.module := by
  obtain ⟨unbacked, spaces, hrounds⟩ := exists_ledgers facts modules
  have hmodule := module_mem_of_mem_members h
  obtain ⟨first, -, rfl⟩ := List.mem_map.mp h
  have hinside := (Naming.mem_keys_inside_mapMembers hrounds.ownMaps
    ⟨(bound facts modules).1, ∅, ∅⟩ (entered facts modules).2 hmodule).trans
      (or_iff_right List.not_mem_nil)
  rw [Option.isSome_iff_exists, ← OrderedMap.mem_keys_iff_exists_find?]
  refine hinside.trans ?_
  constructor
  · rintro ⟨other, hother, hresolves⟩
    exact ⟨other.module, module_mem_of_mem_entered hother, hresolves⟩
  · rintro ⟨other, hother, hresolves⟩
    rw [← UniqueList.mem_toList, ← map_module_entered facts modules] at hother
    obtain ⟨member, hmember, rfl⟩ := List.mem_map.mp hother
    exact ⟨member, hmember, hresolves⟩

/-- No namespace of a member is among those outside. -/
theorem notMem_of_find?_outside {module : ModuleId} {name : String}
    (h : (ofModules facts modules).outside.find? module = some name) : module ∉ modules := by
  obtain ⟨unbacked, spaces, hrounds⟩ := exists_ledgers facts modules
  exact ((hrounds.coherent.outside module name).mp h).1

end NamedMembers

end ModuleLinker
