import ModuleLinker.Proofs.Collections.Replaying
import ModuleLinker.Proofs.Exports.Histories

/-!
# Making the same edits of the registry twice

Edits that succeed one after the other succeed once more on the registry that they left.
On the way the registry is not what it was the first time, because names, exports and edges
that a later edit replaces come back for a while.  In the end it is the same: modules,
exports and sites keep their places, and whatever is overwritten gets the value that it was
given last.  The condition matters.  An export that is added before its module is registered
is refused the first time, but not the second time.
-/

namespace ModuleLinker

namespace ExportEdit

/-- The name that an edit gives to its module. -/
def name? : ExportEdit → Option String
  | register _ name => some name
  | addExport _ _ | setOthers _ _ => none

/-- The export that an edit adds. -/
def export? : ExportEdit → Option Export
  | addExport _ e => some e
  | register _ _ | setOthers _ _ => none

/-- What an edit says of the names that are not listed. -/
def others? : ExportEdit → Option Provision
  | setOthers _ others => some others
  | register _ _ | addExport _ _ => none

/-- The sites between which an edit draws an edge, or the one that it leaves without. -/
def link? : ExportEdit → Option (ExportSite × Option ExportSite)
  | addExport module e => some (⟨module, e.name⟩, e.forwardSite?)
  | register _ _ | setOthers _ _ => none

end ExportEdit

/-! ## Tables -/

namespace ExportTable

/-- The table of a registered module after an edit. -/
def amend (table : ExportTable) : ExportEdit → ExportTable
  | .register _ name => { table with moduleName := name }
  | .addExport _ e => table.put e
  | .setOthers _ others => { table with others }

theorem eq_of_fields {first second : ExportTable} (hname : first.moduleName = second.moduleName)
    (hexports : first.exports = second.exports) (hothers : first.others = second.others) :
    first = second := by
  cases first
  cases second
  simp_all

variable (table : ExportTable) (edits : List ExportEdit)

theorem moduleName_foldl_amend : (edits.foldl amend table).moduleName =
    (edits.filterMap ExportEdit.name?).getLastD table.moduleName := by
  induction edits generalizing table with
  | nil => rfl
  | cons edit rest ih =>
    rw [List.foldl_cons, ih]
    cases edit with
    | register module name => exact List.getLastD_cons.symm
    | addExport module e => rfl
    | setOthers module others => rfl

theorem others_foldl_amend : (edits.foldl amend table).others =
    (edits.filterMap ExportEdit.others?).getLastD table.others := by
  induction edits generalizing table with
  | nil => rfl
  | cons edit rest ih =>
    rw [List.foldl_cons, ih]
    cases edit with
    | register module name => rfl
    | addExport module e => rfl
    | setOthers module others => exact List.getLastD_cons.symm

theorem exports_foldl_amend : (edits.foldl amend table).exports =
    (edits.filterMap ExportEdit.export?).foldl (OrderedMap.write Export.name fun e _ => e)
      table.exports := by
  induction edits generalizing table with
  | nil => rfl
  | cons edit rest ih =>
    rw [List.foldl_cons, ih]
    cases edit with
    | register module name => rfl
    | addExport module e => rfl
    | setOthers module others => rfl

/-- The last name and the last word on unlisted exports count, and each export keeps its
place. -/
theorem foldl_amend_foldl_amend :
    edits.foldl amend (edits.foldl amend table) = edits.foldl amend table := by
  apply eq_of_fields
  · simp only [moduleName_foldl_amend, getLastD_getLastD]
  · simp only [exports_foldl_amend]
    apply OrderedMap.foldl_write_foldl_write
    intro name start
    exact OrderedMap.written_written_of_forgetful (fun _ _ _ => rfl) name _ start
  · simp only [others_foldl_amend, getLastD_getLastD]

end ExportTable

/-! ## The forwarding graph -/

namespace ForwardingGraph

/-- Redirect the site of a link to where the link leads. -/
def follow (g : ForwardingGraph) (link : ExportSite × Option ExportSite) : ForwardingGraph :=
  g.redirect link.1 link.2

/-- The edges that are drawn by the links of a list and not removed by a later one. -/
def lastEdges : List (ExportSite × Option ExportSite) → List (ExportSite × ExportSite)
  | [] => []
  | link :: rest =>
    if link.1 ∈ rest.map Prod.fst then lastEdges rest
    else link.2.toList.map (link.1, ·) ++ lastEdges rest

variable (g : ForwardingGraph) (links : List (ExportSite × Option ExportSite))

theorem source_mem_of_mem_lastEdges {links : List (ExportSite × Option ExportSite)}
    {edge : ExportSite × ExportSite} (h : edge ∈ lastEdges links) :
    edge.1 ∈ links.map Prod.fst := by
  induction links with
  | nil => exact absurd h List.not_mem_nil
  | cons link rest ih =>
    rw [lastEdges] at h
    split at h
    · exact List.mem_cons_of_mem _ (ih h)
    · rcases List.mem_append.mp h with hfirst | hrest
      · obtain ⟨target, -, rfl⟩ := List.mem_map.mp hfirst
        exact List.mem_cons_self
      · exact List.mem_cons_of_mem _ (ih hrest)

theorem edges_follow (link : ExportSite × Option ExportSite) : (g.follow link).edges =
    g.edges.filter (fun edge => !decide (edge.1 = link.1)) ++ link.2.toList.map (link.1, ·) := by
  obtain ⟨source, target⟩ := link
  cases target with
  | none => exact (List.append_nil _).symm
  | some target => rfl

/-- The edges of sites without links stay in front, and the last edges of the others come
behind them. -/
theorem edges_foldl_follow : (links.foldl follow g).edges =
    g.edges.filter (fun edge => !decide (edge.1 ∈ links.map Prod.fst)) ++ lastEdges links := by
  induction links generalizing g with
  | nil => simp [lastEdges]
  | cons link rest ih =>
    have hsources (edge : ExportSite × ExportSite) :
        (!decide (edge.1 ∈ rest.map Prod.fst) && !decide (edge.1 = link.1)) =
          !decide (edge.1 ∈ (link :: rest).map Prod.fst) := by
      rw [List.map_cons, Bool.eq_iff_iff]
      simp [and_comm]
    have hdrawn : (link.2.toList.map (link.1, ·)).filter
        (fun edge => !decide (edge.1 ∈ rest.map Prod.fst)) =
          if link.1 ∈ rest.map Prod.fst then [] else link.2.toList.map (link.1, ·) := by
      rw [List.filter_map]
      split_ifs with hlater
      · simp only [Function.comp_def, hlater, decide_true, Bool.not_true, List.filter_false,
          List.map_nil]
      · simp only [Function.comp_def, hlater, decide_false, Bool.not_false, List.filter_true]
    rw [List.foldl_cons, ih, edges_follow, List.filter_append, List.filter_filter,
      List.append_assoc, hdrawn, lastEdges]
    simp only [hsources]
    split_ifs with hlater
    · rfl
    · rfl

theorem sites_foldl_follow : (links.foldl follow g).sites =
    g.sites.insertAll (links.flatMap fun link => link.1 :: link.2.toList) := by
  induction links generalizing g with
  | nil => rfl
  | cons link rest ih =>
    rw [List.foldl_cons, ih, follow, sites_redirect, List.flatMap_cons, UniqueList.insertAll_append]

/-- All sites have their numbers, and an edge that is removed is drawn again. -/
theorem foldl_follow_foldl_follow :
    links.foldl follow (links.foldl follow g) = links.foldl follow g := by
  have hsites : (links.foldl follow (links.foldl follow g)).sites =
      (links.foldl follow g).sites := by
    simp only [sites_foldl_follow, UniqueList.insertAll_insertAll]
  have hedges : (links.foldl follow (links.foldl follow g)).edges =
      (links.foldl follow g).edges := by
    have hremoved : (lastEdges links).filter
        (fun edge => !decide (edge.1 ∈ links.map Prod.fst)) = [] := by
      apply List.filter_eq_nil_iff.mpr
      intro edge hedge
      simpa using source_mem_of_mem_lastEdges hedge
    simp only [edges_foldl_follow, List.filter_append, List.filter_filter, hremoved,
      Bool.and_self, List.append_nil]
  exact congrArg₂ ForwardingGraph.mk hsites hedges

end ForwardingGraph

/-! ## The registry -/

namespace ExportRegistry

variable {registry after : ExportRegistry} {edit : ExportEdit} {edits : List ExportEdit}

/-- The registry after an edit that succeeds.  A module without a table gets an empty one. -/
def amend (registry : ExportRegistry) (edit : ExportEdit) : ExportRegistry where
  tables := OrderedMap.write ExportEdit.module
    (fun edit table => (table.getD (.named "")).amend edit) registry.tables edit
  forwarding := edit.link?.elim registry.forwarding registry.forwarding.follow

theorem attempt_of_mem (h : edit.module ∈ registry.tables.keys) :
    registry.attempt edit = .ok (registry.amend edit) := by
  obtain ⟨table, htable⟩ := OrderedMap.mem_keys_iff_exists_find?.mp h
  have htable? : registry.table? edit.module = some table := htable
  rw [amend, OrderedMap.write, htable]
  cases edit with
  | register module name =>
    rw [ExportEdit.module] at htable?
    rw [attempt, register, htable?]
    rfl
  | addExport module e =>
    rw [ExportEdit.module] at htable?
    rw [attempt, addExport, htable?]
    rfl
  | setOthers module others =>
    rw [ExportEdit.module] at htable?
    rw [attempt, setOthers, htable?]
    rfl

/-- A module can always be registered. -/
theorem attempt_register (registry : ExportRegistry) (module : ModuleId) (name : String) :
    registry.attempt (.register module name) = .ok (registry.amend (.register module name)) := by
  cases htable : registry.table? module with
  | none =>
    have hfind : registry.tables.find? module = none := htable
    rw [attempt, register, amend, OrderedMap.write, ExportEdit.module, htable, hfind]
    rfl
  | some table =>
    exact attempt_of_mem (OrderedMap.mem_keys_iff_exists_find?.mpr ⟨table, htable⟩)

theorem amend_of_attempt (h : registry.attempt edit = .ok after) : registry.amend edit = after := by
  by_cases hmodule : edit.module ∈ registry.tables.keys
  · rw [attempt_of_mem hmodule] at h
    exact Except.ok.inj h
  · have htable : registry.table? edit.module = none := OrderedMap.find?_eq_none_iff.mpr hmodule
    cases edit with
    | register module name =>
      rw [attempt_register] at h
      exact Except.ok.inj h
    | addExport module e =>
      rw [ExportEdit.module] at htable
      rw [attempt, addExport_of_unregistered htable] at h
      exact absurd h (by simp)
    | setOthers module others =>
      rw [ExportEdit.module] at htable
      rw [attempt, setOthers, htable] at h
      exact absurd h (by simp)

theorem tables_foldl_amend (registry : ExportRegistry) (edits : List ExportEdit) :
    (edits.foldl amend registry).tables = edits.foldl (OrderedMap.write ExportEdit.module
      fun edit table => (table.getD (.named "")).amend edit) registry.tables := by
  induction edits generalizing registry with
  | nil => rfl
  | cons edit rest ih => exact ih (registry.amend edit)

theorem forwarding_foldl_amend (registry : ExportRegistry) (edits : List ExportEdit) :
    (edits.foldl amend registry).forwarding =
      (edits.filterMap ExportEdit.link?).foldl ForwardingGraph.follow registry.forwarding := by
  induction edits generalizing registry with
  | nil => rfl
  | cons edit rest ih =>
    rw [List.foldl_cons, ih, amend, List.filterMap_cons]
    cases edit.link? with
    | none => rfl
    | some link => rfl

theorem mem_keys_foldl_amend {module : ModuleId} :
    module ∈ (edits.foldl amend registry).tables.keys ↔
      module ∈ registry.tables.keys ∨ module ∈ edits.map ExportEdit.module := by
  rw [tables_foldl_amend]
  exact OrderedMap.mem_keys_foldl_write

theorem foldl_amend_foldl_amend (registry : ExportRegistry) (edits : List ExportEdit) :
    edits.foldl amend (edits.foldl amend registry) = edits.foldl amend registry := by
  have htables : (edits.foldl amend (edits.foldl amend registry)).tables =
      (edits.foldl amend registry).tables := by
    simp only [tables_foldl_amend]
    apply OrderedMap.foldl_write_foldl_write
    intro module start
    exact OrderedMap.written_written_of_default (.named "") (fun _ _ => rfl)
      (fun edits table => table.foldl_amend_foldl_amend edits) module edits start
  have hforwarding : (edits.foldl amend (edits.foldl amend registry)).forwarding =
      (edits.foldl amend registry).forwarding := by
    simp only [forwarding_foldl_amend, ForwardingGraph.foldl_follow_foldl_follow]
  exact congrArg₂ ExportRegistry.mk htables hforwarding

/-- Edits of registered modules succeed one after the other. -/
theorem foldlM_attempt_of_forall_mem (h : ∀ edit ∈ edits, edit.module ∈ registry.tables.keys) :
    edits.foldlM attempt registry = .ok (edits.foldl amend registry) := by
  induction edits generalizing registry with
  | nil => rfl
  | cons edit rest ih =>
    rw [List.forall_mem_cons] at h
    rw [List.foldlM_cons, attempt_of_mem h.1, List.foldl_cons]
    apply ih
    intro later hlater
    have hkept : later.module ∈ ([edit].foldl amend registry).tables.keys :=
      mem_keys_foldl_amend.mpr (Or.inl (h.2 later hlater))
    exact hkept

theorem foldl_amend_of_foldlM_attempt (h : edits.foldlM attempt registry = .ok after) :
    edits.foldl amend registry = after := by
  induction edits generalizing registry with
  | nil => exact Except.ok.inj h
  | cons edit rest ih =>
    rw [List.foldlM_cons] at h
    cases hedit : registry.attempt edit with
    | error reason =>
      rw [hedit] at h
      exact absurd h (by simp [bind, Except.bind])
    | ok middle =>
      rw [hedit] at h
      rw [List.foldl_cons, amend_of_attempt hedit]
      exact ih h

/-- Edits that succeed one after the other succeed again, and change nothing any more. -/
theorem foldlM_attempt_again (h : edits.foldlM attempt registry = .ok after) :
    edits.foldlM attempt after = .ok after := by
  obtain rfl := foldl_amend_of_foldlM_attempt h
  rw [foldlM_attempt_of_forall_mem, foldl_amend_foldl_amend]
  intro edit hedit
  exact mem_keys_foldl_amend.mpr (Or.inr (List.mem_map_of_mem hedit))

end ExportRegistry

end ModuleLinker
