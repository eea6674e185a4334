import ModuleLinker.Proofs.Naming.Namespaces

/-!
# What export maps denote

The third round writes the export map of every member.  Each entry is written with
the names of a ledger for the entity that the export denotes; the ledger grows on
the way, since namespaces get their names when they are first needed, but what was
written with the smaller one stays right.
-/

namespace ModuleLinker

namespace Naming

/-- Every entry of an export map is written for what its export denotes. -/
def Denotes (facts : BuildFacts) (merged : List ModuleId) (ledger : Ledger) (module : ModuleId)
    (map : ExportMap) : Prop :=
  ∀ key reference, map.find? key = some reference →
    ∃ entity, entity? facts merged ⟨module, key⟩ = some entity ∧ ledger.Writes entity reference

theorem denotes_empty (facts : BuildFacts) (merged : List ModuleId) (ledger : Ledger)
    (module : ModuleId) : Denotes facts merged ledger module ∅ :=
  fun _ _ h => absurd h (by simp)

theorem Denotes.mono {facts : BuildFacts} {merged : List ModuleId} {ledger larger : Ledger}
    {module : ModuleId} {map : ExportMap} (h : Denotes facts merged ledger module map)
    (hsubset : ledger ⊆ larger) : Denotes facts merged larger module map := by
  intro key reference hfind
  obtain ⟨entity, hentity, hwrites⟩ := h key reference hfind
  exact ⟨entity, hentity, hwrites.mono hsubset⟩

theorem Denotes.insert {facts : BuildFacts} {merged : List ModuleId} {ledger : Ledger}
    {module : ModuleId} {map : ExportMap} (h : Denotes facts merged ledger module map)
    {key : String} {reference : Reference} {entity : Entity}
    (hentity : entity? facts merged ⟨module, key⟩ = some entity)
    (hwrites : ledger.Writes entity reference) :
    Denotes facts merged ledger module (map.insert key reference) := by
  intro other found hfind
  rw [OrderedMap.find?_insert] at hfind
  split at hfind
  · rename_i heq
    rw [← heq, ← Option.some.inj hfind]
    exact ⟨entity, hentity, hwrites⟩
  · exact h other found hfind

/-- The own exports of the merged modules, as the second round hands them on. -/
structure OwnMaps (facts : BuildFacts) (merged : List ModuleId) (bindings : Ledger)
    (own : OrderedMap ModuleId ExportMap) : Prop where
  mem_keys_iff : ∀ module, module ∈ own.keys ↔ module ∈ merged
  ownsExports : ∀ module map, own.find? module = some map →
    OwnsExports facts bindings module map

variable {facts : BuildFacts} {merged : List ModuleId} {bindings : Ledger}
  {own : OrderedMap ModuleId ExportMap} {base : Scope} {ledger : Ledger}
  {names : NamespaceNames}

theorem OwnMaps.notMem_of_find?_eq_none (hown : OwnMaps facts merged bindings own)
    {module : ModuleId} (h : own.find? module = none) : module ∉ merged := fun hmem =>
  OrderedMap.find?_eq_none_iff.mp h ((hown.mem_keys_iff module).mpr hmem)

theorem OwnMaps.mem_of_find?_eq_some (hown : OwnMaps facts merged bindings own)
    {module : ModuleId} {map : ExportMap} (h : own.find? module = some map) : module ∈ merged :=
  (hown.mem_keys_iff module).mp (OrderedMap.mem_keys_iff_exists_find?.mpr ⟨map, h⟩)

/-- What following an export comes to is referred to by what is written for it, and
names are taken for namespaces only. -/
theorem exists_originReference (hown : OwnMaps facts merged bindings own)
    (h : NamespaceNames.Coherent merged base ledger names) (resolution : Resolution) :
    ∃ more : Ledger,
      NamespaceNames.Coherent merged base (ledger ++ more)
          (originReference facts own names resolution).1 ∧
        ∀ reference, (originReference facts own names resolution).2 = some reference →
          ∃ entity, entityAt? facts merged resolution = some entity ∧
            Ledger.Writes (bindings ++ (ledger ++ more)) entity reference := by
  have hsame : NamespaceNames.Coherent merged base (ledger ++ []) names := by
    rw [List.append_nil]
    exact h
  cases resolution with
  | origin origin =>
    rw [originReference]
    split
    · rename_i map hmap
      refine ⟨[], hsame, fun reference hreference => ⟨_, entityAt?_origin_of_mem facts
        (hown.mem_of_find?_eq_some hmap), ?_⟩⟩
      exact ((hown.ownsExports _ _ hmap).writes hreference).mono (List.subset_append_left _ _)
    · rename_i hnone
      have hmodule := hown.notMem_of_find?_eq_none hnone
      obtain ⟨more, hcoherent, hmem⟩ := h.exists_outsideName facts hmodule
      refine ⟨more, hcoherent, fun reference hreference => ⟨_, entityAt?_origin_of_notMem facts
        hmodule, ?_⟩⟩
      obtain ⟨rfl⟩ := hreference
      exact .property (List.mem_append_right _ hmem) _
  | namespaceOf module =>
    rw [originReference]
    split
    · rename_i hcontains
      have hmodule := (hown.mem_keys_iff module).mp (OrderedMap.contains_iff.mp hcontains)
      obtain ⟨more, hcoherent, hmem⟩ := h.exists_insideName facts hmodule
      refine ⟨more, hcoherent, fun reference hreference => ⟨_, rfl, ?_⟩⟩
      obtain ⟨rfl⟩ := hreference
      exact .binding (List.mem_append_right _ hmem)
    · rename_i hcontains
      have hmodule : module ∉ merged := fun hmem =>
        hcontains (OrderedMap.contains_iff.mpr ((hown.mem_keys_iff module).mpr hmem))
      obtain ⟨more, hcoherent, hmem⟩ := h.exists_outsideName facts hmodule
      refine ⟨more, hcoherent, fun reference hreference => ⟨_, rfl, ?_⟩⟩
      obtain ⟨rfl⟩ := hreference
      exact .binding (List.mem_append_right _ hmem)
  | missing _ =>
    exact ⟨[], hsame, fun _ hreference => absurd hreference.symm (Option.some_ne_none _)⟩
  | undetermined _ =>
    exact ⟨[], hsame, fun _ hreference => absurd hreference.symm (Option.some_ne_none _)⟩
  | circular _ =>
    exact ⟨[], hsame, fun _ hreference => absurd hreference.symm (Option.some_ne_none _)⟩

/-- What an export of a member stands for is written for what the export denotes. -/
theorem exists_exportReference (hown : OwnMaps facts merged bindings own)
    (h : NamespaceNames.Coherent merged base ledger names) {module : ModuleId}
    (hmodule : module ∈ merged) {e : Export} (he : e ∈ linkable facts module) :
    ∃ more : Ledger,
      NamespaceNames.Coherent merged base (ledger ++ more)
          (exportReference facts own module names e).1 ∧
        ∀ reference, (exportReference facts own module names e).2 = some reference →
          ∃ entity, entity? facts merged ⟨module, e.name⟩ = some entity ∧
            Ledger.Writes (bindings ++ (ledger ++ more)) entity reference := by
  rw [exportReference]
  split
  · exact exists_originReference hown h _
  · rename_i hforwards
    rw [Bool.not_eq_true] at hforwards
    refine ⟨[], by rw [List.append_nil]; exact h, fun reference hreference => ?_⟩
    obtain ⟨map, hmap, hfind⟩ := Option.bind_eq_some_iff.mp hreference
    refine ⟨.binding (ownerOf facts ⟨module, e.name⟩), ?_, ?_⟩
    · rw [entity?, resolve_of_mem_linkable he hforwards]
      exact entityAt?_origin_of_mem facts hmodule
    · exact ((hown.ownsExports _ _ hmap).writes hfind).mono (List.subset_append_left _ _)

/-- A larger ledger for the namespaces makes the whole ledger larger. -/
theorem append_subset_append (bindings ledger more : Ledger) :
    bindings ++ ledger ⊆ bindings ++ (ledger ++ more) := by
  rw [← List.append_assoc]
  exact List.subset_append_left _ _

theorem exists_mapExports (hown : OwnMaps facts merged bindings own)
    (h : NamespaceNames.Coherent merged base ledger names) {module : ModuleId}
    (hmodule : module ∈ merged) {map : ExportMap} {exports : List Export}
    (hmap : Denotes facts merged (bindings ++ ledger) module map)
    (hexports : ∀ e ∈ exports, e ∈ linkable facts module) :
    ∃ more : Ledger,
      NamespaceNames.Coherent merged base (ledger ++ more)
          (mapExports facts own module names map exports).1 ∧
        Denotes facts merged (bindings ++ (ledger ++ more)) module
          (mapExports facts own module names map exports).2 := by
  induction exports generalizing ledger names map with
  | nil => exact ⟨[], by rw [List.append_nil]; exact h, by rw [List.append_nil]; exact hmap⟩
  | cons e rest ih =>
    have hrest : ∀ other ∈ rest, other ∈ linkable facts module := fun other hother =>
      hexports other (List.mem_cons_of_mem _ hother)
    obtain ⟨first, hfirst, hwrites⟩ :=
      exists_exportReference hown h hmodule (hexports e List.mem_cons_self)
    have hmono := hmap.mono (append_subset_append bindings ledger first)
    rw [mapExports]
    split
    · rename_i after reference heq
      rw [heq] at hfirst hwrites
      obtain ⟨entity, hentity, hreference⟩ := hwrites reference rfl
      obtain ⟨later, hlater, hdenotes⟩ := ih hfirst (hmono.insert hentity hreference) hrest
      rw [List.append_assoc] at hlater hdenotes
      exact ⟨first ++ later, hlater, hdenotes⟩
    · rename_i after heq
      rw [heq] at hfirst
      obtain ⟨later, hlater, hdenotes⟩ := ih hfirst hmono hrest
      rw [List.append_assoc] at hlater hdenotes
      exact ⟨first ++ later, hlater, hdenotes⟩

/-- The third round changes nothing of a member but its export map. -/
theorem map_mapMembers {α : Type} (f : Member → α)
    (hf : ∀ (member : Member) (exportMap : ExportMap), f { member with exportMap } = f member)
    (facts : BuildFacts) (own : OrderedMap ModuleId ExportMap) (names : NamespaceNames)
    (members : List Member) :
    (mapMembers facts own names members).2.map f = members.map f := by
  induction members generalizing names with
  | nil => rfl
  | cons member rest ih => rw [mapMembers, List.map_cons, List.map_cons, ih, hf]

theorem exists_mapMembers (hown : OwnMaps facts merged bindings own)
    (h : NamespaceNames.Coherent merged base ledger names) {members : List Member}
    (hmembers : ∀ member ∈ members, member.module ∈ merged) :
    ∃ more : Ledger,
      NamespaceNames.Coherent merged base (ledger ++ more)
          (mapMembers facts own names members).1 ∧
        ∀ member ∈ (mapMembers facts own names members).2,
          Denotes facts merged (bindings ++ (ledger ++ more)) member.module member.exportMap := by
  induction members generalizing ledger names with
  | nil =>
    exact ⟨[], by rw [List.append_nil]; exact h, fun _ hnil => absurd hnil List.not_mem_nil⟩
  | cons member rest ih =>
    obtain ⟨first, hfirst, hdenotes⟩ :=
      exists_mapExports hown h (hmembers member List.mem_cons_self)
        (denotes_empty facts merged (bindings ++ ledger) member.module) fun _ he => he
    obtain ⟨later, hlater, hrest⟩ :=
      ih hfirst fun other hother => hmembers other (List.mem_cons_of_mem _ hother)
    rw [List.append_assoc] at hlater hrest
    refine ⟨first ++ later, hlater, fun other hother => ?_⟩
    rw [mapMembers] at hother
    rcases List.mem_cons.mp hother with rfl | hother
    · rw [← List.append_assoc ledger]
      exact hdenotes.mono (append_subset_append bindings (ledger ++ first) later)
    · exact hrest other hother

theorem ownMaps_ofList {modules : List ModuleId} {maps : List (ModuleId × ExportMap)}
    (hmodules : modules.Nodup) (hkeys : maps.map Prod.fst = modules)
    (howns : ∀ entry ∈ maps, OwnsExports facts bindings entry.1 entry.2) :
    OwnMaps facts modules bindings (OrderedMap.ofList maps) := by
  have hnodup : (maps.map Prod.fst).Nodup := hkeys ▸ hmodules
  have hentries := OrderedMap.entries_ofList_of_nodup hnodup
  constructor
  · intro module
    rw [OrderedMap.keys, hentries, hkeys]
  · intro module map hfind
    rw [OrderedMap.find?_eq_some_iff, hentries] at hfind
    exact howns (module, map) hfind

end Naming

end ModuleLinker
