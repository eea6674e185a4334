import ModuleLinker.Exports.Resolution
import ModuleLinker.Proofs.Exports.Cycles

/-!
# The registry of exports

Whatever is registered and added, the forwarding graph has an edge from a site exactly when
the export that is there now forwards to a named export, and the edge leads where that
export forwards.  Registries with the same table for every module cannot be told apart by
looking exports up or resolving them, whatever the order of the modules in them.
-/

namespace ModuleLinker

/-- Maps in which every look-up gives the same have the same entries up to their order. -/
theorem OrderedMap.entries_perm {κ ν : Type} [DecidableEq κ] {first second : OrderedMap κ ν}
    (h : ∀ key, second.find? key = first.find? key) : second.entries.Perm first.entries := by
  have hnodup (m : OrderedMap κ ν) : m.entries.Nodup := m.nodup_keys.of_map _
  rw [List.perm_ext_iff_of_nodup (hnodup second) (hnodup first)]
  rintro ⟨key, value⟩
  rw [← find?_eq_some_iff, ← find?_eq_some_iff, h]

namespace ForwardingGraph

variable {g : ForwardingGraph} {source site : ExportSite}

theorem next?_cut (g : ForwardingGraph) (source site : ExportSite) :
    (g.cut source).next? site = if site = source then none else g.next? site := by
  split_ifs with heq
  · rw [heq, next?_cut_self]
  · rw [next?, next?, cut, List.find?_filter]
    congr 2
    funext edge
    by_cases hsite : edge.1 = site
    · simp [hsite, heq]
    · simp [hsite]

/-- Redirecting a site changes where it leads, and leaves every other site as it was. -/
theorem next?_redirect (g : ForwardingGraph) (source site : ExportSite)
    (target : Option ExportSite) :
    (g.redirect source target).next? site = if site = source then target else g.next? site := by
  have hfree := next?_cut (g.number source) source site
  cases target with
  | none => exact hfree
  | some target =>
    have hadded : (g.redirect source (some target)).next? site =
        (((g.number source).cut source).next? site).or
          (if site = source then some target else none) := by
      rw [next?, next?, redirect, connect, edges_number, List.find?_append, Option.map_or,
        List.find?_singleton]
      by_cases hsite : site = source
      · simp [hsite]
      · simp [hsite, Ne.symm hsite]
    rw [hadded, hfree]
    split_ifs with hsite
    · rfl
    · rw [Option.or_none]
      rfl

theorem Covers.redirect (h : g.Covers) (source : ExportSite) (target : Option ExportSite) :
    (g.redirect source target).Covers := by
  have hfree : ((g.number source).cut source).Covers := by
    intro edge hedge
    have hmem := h edge (List.mem_filter.mp hedge).1
    exact ⟨UniqueList.mem_insert.mpr (Or.inl hmem.1), UniqueList.mem_insert.mpr (Or.inl hmem.2)⟩
  cases target with
  | none => exact hfree
  | some target =>
    intro edge hedge
    rcases List.mem_append.mp hedge with hedge | hedge
    · have hmem := hfree edge hedge
      exact ⟨UniqueList.mem_insert.mpr (Or.inl hmem.1),
        UniqueList.mem_insert.mpr (Or.inl hmem.2)⟩
    · rw [List.mem_singleton.mp hedge]
      exact ⟨UniqueList.mem_insert.mpr (Or.inl (UniqueList.mem_insert.mpr (Or.inr rfl))),
        UniqueList.mem_insert.mpr (Or.inr rfl)⟩

end ForwardingGraph

namespace ExportTable

theorem find?_put (table : ExportTable) (e : Export) (name : String) :
    (table.put e).exports.find? name =
      if e.name = name then some e else table.exports.find? name :=
  OrderedMap.find?_insert _ _ _ _

end ExportTable

namespace ExportRegistry

variable {registry after : ExportRegistry} {module : ModuleId}

theorem table?_register (registry : ExportRegistry) (module : ModuleId) (name : String)
    (other : ModuleId) :
    (registry.register module name).table? other =
      if module = other then
        some { (registry.table? module).getD (.named name) with moduleName := name }
      else registry.table? other := by
  refine (OrderedMap.find?_insert _ _ _ _).trans ?_
  cases registry.table? module <;> rfl

theorem table?_addExport {table : ExportTable} {e : Export}
    (htable : registry.table? module = some table) (h : registry.addExport module e = .ok after)
    (other : ModuleId) :
    after.table? other = if module = other then some (table.put e) else registry.table? other := by
  rw [addExport, htable, Except.ok.injEq] at h
  rw [← h]
  exact OrderedMap.find?_insert _ _ _ _

theorem table?_setOthers {table : ExportTable} {others : Provision}
    (htable : registry.table? module = some table)
    (h : registry.setOthers module others = .ok after) (other : ModuleId) :
    after.table? other =
      if module = other then some { table with others } else registry.table? other := by
  rw [setOthers, htable, Except.ok.injEq] at h
  rw [← h]
  exact OrderedMap.find?_insert _ _ _ _

/-- The forwarding graph is in step with the exports: it has an edge from a site exactly
when the export there forwards to a named one, and sites of edges are numbered. -/
structure InStep (registry : ExportRegistry) : Prop where
  next?_eq : ∀ site,
    registry.forwarding.next? site = (registry.export? site).bind Export.forwardSite?
  covers : registry.forwarding.Covers

namespace InStep

theorem empty : InStep ∅ := ⟨fun _ => rfl, fun _ h => absurd h List.not_mem_nil⟩

/-- A change that leaves the graph and all exports as they were keeps them in step. -/
theorem of_export?_eq (h : registry.InStep) (hforwarding : after.forwarding = registry.forwarding)
    (hexports : ∀ site, after.export? site = registry.export? site) : after.InStep where
  next?_eq site := by rw [hforwarding, hexports, h.next?_eq]
  covers := hforwarding ▸ h.covers

theorem register (h : registry.InStep) (module : ModuleId) (name : String) :
    (registry.register module name).InStep := by
  refine h.of_export?_eq rfl fun site => ?_
  rw [export?, table?_register, export?]
  split_ifs with heq
  · rw [← heq]
    cases registry.table? module <;> rfl
  · rfl

theorem setOthers (h : registry.InStep) {others : Provision}
    (hset : registry.setOthers module others = .ok after) : after.InStep := by
  cases htable : registry.table? module with
  | none =>
    rw [ExportRegistry.setOthers, htable] at hset
    exact absurd hset (by simp)
  | some table =>
    refine h.of_export?_eq ?_ fun site => ?_
    · rw [ExportRegistry.setOthers, htable, Except.ok.injEq] at hset
      rw [← hset]
    · rw [export?, table?_setOthers htable hset, export?]
      split_ifs with heq
      · rw [← heq, htable]
        rfl
      · rfl

theorem addExport (h : registry.InStep) {e : Export}
    (hadd : registry.addExport module e = .ok after) : after.InStep := by
  cases htable : registry.table? module with
  | none =>
    rw [addExport_of_unregistered htable] at hadd
    exact absurd hadd (by simp)
  | some table =>
    have hforwarding : after.forwarding =
        registry.forwarding.redirect ⟨module, e.name⟩ e.forwardSite? := by
      rw [ExportRegistry.addExport, htable, Except.ok.injEq] at hadd
      rw [← hadd]
    refine ⟨fun site => ?_, hforwarding ▸ h.covers.redirect _ _⟩
    rw [hforwarding, ForwardingGraph.next?_redirect, h.next?_eq, export?, export?,
      table?_addExport htable hadd]
    obtain ⟨other, name⟩ := site
    by_cases hmodule : module = other
    · subst hmodule
      rw [if_pos rfl, htable, Option.bind_some, Option.bind_some, ExportTable.find?_put]
      by_cases hname : e.name = name
      · rw [if_pos hname, if_pos (by rw [hname])]
        rfl
      · rw [if_neg hname, if_neg fun heq => hname (ExportSite.mk.inj heq).2.symm]
    · rw [if_neg hmodule, if_neg fun heq => hmodule (ExportSite.mk.inj heq).1.symm]

end InStep

/-! ## Registries with the same tables -/

/-- Registries whose steps are the same walk alike. -/
theorem walk_congr {first second : ExportRegistry}
    (hstep : ∀ site, second.step site = first.step site) (fuel : Nat)
    (visited : List ExportSite) (site : ExportSite) :
    second.walk fuel visited site = first.walk fuel visited site := by
  induction fuel generalizing visited site with
  | zero => rfl
  | succ fuel ih =>
    rw [walk, walk, hstep]
    split_ifs with hvisited
    · rfl
    · cases first.step site with
      | stop resolution => rfl
      | forward target => exact ih _ _

/-- Registries that have the same table for every module. -/
def SameTables (first second : ExportRegistry) : Prop :=
  ∀ module, second.table? module = first.table? module

namespace SameTables

variable {first second : ExportRegistry}

theorem export?_eq (h : SameTables first second) (site : ExportSite) :
    second.export? site = first.export? site := by
  rw [export?, export?, h]

theorem isRegistered_eq (h : SameTables first second) :
    second.isRegistered = first.isRegistered := by
  funext module
  have hkeys (registry : ExportRegistry) : registry.isRegistered module = true ↔
      ∃ table, registry.table? module = some table :=
    OrderedMap.contains_iff.trans OrderedMap.mem_keys_iff_exists_find?
  rw [Bool.eq_iff_iff, hkeys, hkeys, h]

theorem length_forwarders_eq (h : SameTables first second) :
    second.forwarders.length = first.forwarders.length :=
  (((OrderedMap.entries_perm h).map Prod.snd).flatMap_right _).length_eq

theorem resolve_eq (h : SameTables first second) (site : ExportSite) :
    second.resolve site = first.resolve site := by
  have hstep (other : ExportSite) : second.step other = first.step other := by
    rw [step, step, h]
  rw [resolve, resolve, h.length_forwarders_eq, walk_congr hstep]

end SameTables

end ExportRegistry

end ModuleLinker
