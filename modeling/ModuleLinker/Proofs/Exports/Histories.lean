import ModuleLinker.Proofs.Exports.Registry

/-!
# Histories of the registry

A registry is what a list of edits makes of the empty one, where an edit that fails leaves
everything as it was.  Whatever the edits are, the forwarding graph mirrors the exports
that are listed now, with one edge at most from each site.  Only its numbers remember the
past: a site is numbered when an edit first names it, and keeps its number when the export
that named it is replaced.
-/

namespace ModuleLinker

/-- One edit of the registry of exports. -/
inductive ExportEdit
  | register (module : ModuleId) (name : String)
  | addExport (module : ModuleId) (e : Export)
  | setOthers (module : ModuleId) (others : Provision)

namespace ExportEdit

/-- The module that an edit is about. -/
def module : ExportEdit → ModuleId
  | register module _ => module
  | addExport module _ => module
  | setOthers module _ => module

/-- The modules that are known after an edit. -/
def knownAfter (known : List ModuleId) : ExportEdit → List ModuleId
  | register module _ => module :: known
  | addExport _ _ => known
  | setOthers _ _ => known

/-- The sites that an edit names, in order.  An export that is added names its own site and
then the site to which it forwards.  An edit of a module that is not known yet fails, and
names nothing. -/
def sitesNamed (known : List ModuleId) : ExportEdit → List ExportSite
  | register _ _ => []
  | addExport module e =>
    if module ∈ known then ⟨module, e.name⟩ :: e.forwardSite?.toList else []
  | setOthers _ _ => []

/-- The sites that the edits of a list name one after the other. -/
def namedSites : List ModuleId → List ExportEdit → List ExportSite
  | _, [] => []
  | known, edit :: rest => edit.sitesNamed known ++ namedSites (edit.knownAfter known) rest

end ExportEdit

namespace ForwardingGraph

variable {g : ForwardingGraph} {site source target : ExportSite}

/-- Where no two edges leave one site, the edges are the steps. -/
theorem mem_edges_iff_steps (h : (g.edges.map Prod.fst).Nodup) :
    (site, target) ∈ g.edges ↔ g.Steps site target := by
  rw [Steps, next?, Option.map_eq_some_iff]
  constructor
  · intro hedge
    obtain ⟨edge, hfind⟩ :
        ∃ edge, (g.edges.find? fun edge => decide (edge.1 = site)) = some edge := by
      rw [← Option.isSome_iff_exists, List.find?_isSome]
      exact ⟨(site, target), hedge, decide_eq_true rfl⟩
    have hsource : edge.1 = site := by simpa using List.find?_some hfind
    have hsame := List.inj_on_of_nodup_map h (List.mem_of_find?_eq_some hfind) hedge hsource
    exact ⟨edge, hfind, by rw [hsame]⟩
  · rintro ⟨edge, hfind, rfl⟩
    have hsource : edge.1 = site := by simpa using List.find?_some hfind
    exact hsource ▸ List.mem_of_find?_eq_some hfind

/-- Redirecting a site drops its old edge before it gets a new one. -/
theorem nodup_sources_redirect (h : (g.edges.map Prod.fst).Nodup) (source : ExportSite)
    (target : Option ExportSite) : ((g.redirect source target).edges.map Prod.fst).Nodup := by
  have hfree : (((g.number source).cut source).edges.map Prod.fst).Nodup :=
    h.sublist (List.filter_sublist.map _)
  cases target with
  | none => exact hfree
  | some target =>
    have hedges : (g.redirect source (some target)).edges =
        ((g.number source).cut source).edges ++ [(source, target)] := rfl
    rw [hedges, List.map_append]
    apply UniqueList.nodup_append_singleton hfree
    intro hmem
    obtain ⟨edge, hedge, hsource⟩ := List.mem_map.mp hmem
    exact absurd hsource (by simpa using (List.mem_filter.mp hedge).2)

theorem sites_redirect (g : ForwardingGraph) (source : ExportSite) (target : Option ExportSite) :
    (g.redirect source target).sites = g.sites.insertAll (source :: target.toList) := by
  cases target with
  | none => rfl
  | some target => rfl

end ForwardingGraph

namespace ExportRegistry

variable {registry after : ExportRegistry} {module : ModuleId} {edit : ExportEdit}

/-- The export that is listed at a site forwards to a named export. -/
def Forwards (registry : ExportRegistry) (source target : ExportSite) : Prop :=
  ∃ e, registry.export? source = some e ∧ e.forwardSite? = some target

/-- The registry after an edit, or the reason why there is none. -/
def attempt (registry : ExportRegistry) : ExportEdit → Except LinkError ExportRegistry
  | .register module name => .ok (registry.register module name)
  | .addExport module e => registry.addExport module e
  | .setOthers module others => registry.setOthers module others

/-- The registry after an edit.  An edit that fails leaves it as it was. -/
def apply (registry : ExportRegistry) (edit : ExportEdit) : ExportRegistry :=
  match registry.attempt edit with
  | .ok after => after
  | .error _ => registry

/-- The registry after a list of edits, from its head on. -/
def ofEdits (edits : List ExportEdit) : ExportRegistry := edits.foldl apply ∅

/-! ## Single edits -/

theorem forwarding_of_addExport {e : Export} (h : registry.addExport module e = .ok after) :
    after.forwarding = registry.forwarding.redirect ⟨module, e.name⟩ e.forwardSite? := by
  rw [addExport] at h
  split at h
  · exact absurd h (by simp)
  · rw [← Except.ok.inj h]

theorem forwarding_of_setOthers {others : Provision}
    (h : registry.setOthers module others = .ok after) :
    after.forwarding = registry.forwarding := by
  rw [setOthers] at h
  split at h
  · exact absurd h (by simp)
  · rw [← Except.ok.inj h]

/-- An edit fails only because its module is not registered, and then nothing changes. -/
theorem apply_of_attempt_eq_error {reason : LinkError} (h : registry.attempt edit = .error reason) :
    registry.table? edit.module = none ∧ reason = .unregistered edit.module ∧
      registry.apply edit = registry := by
  have hsame : registry.apply edit = registry := by rw [apply, h]
  cases edit with
  | register module name => exact absurd h (by simp [attempt])
  | addExport module e =>
    rw [attempt, addExport] at h
    split at h
    · rename_i hnone
      exact ⟨hnone, (Except.error.inj h).symm, hsame⟩
    · exact absurd h (by simp)
  | setOthers module others =>
    rw [attempt, setOthers] at h
    split at h
    · rename_i hnone
      exact ⟨hnone, (Except.error.inj h).symm, hsame⟩
    · exact absurd h (by simp)

/-- An edit keeps what every successful edit keeps. -/
theorem apply_induction {p : ExportRegistry → Prop} (h : p registry)
    (hok : ∀ after, registry.attempt edit = .ok after → p after) : p (registry.apply edit) := by
  rw [apply]
  split
  · rename_i after hafter
    exact hok after hafter
  · exact h

/-! ## The mirror -/

/-- The forwarding graph is in step with the exports, and no two edges leave one site. -/
structure Mirrors (registry : ExportRegistry) : Prop extends InStep registry where
  nodup_sources : (registry.forwarding.edges.map Prod.fst).Nodup

namespace Mirrors

theorem apply (h : registry.Mirrors) (edit : ExportEdit) : (registry.apply edit).Mirrors := by
  apply apply_induction h
  intro after hafter
  cases edit with
  | register module name =>
    rw [← Except.ok.inj hafter]
    exact ⟨h.toInStep.register module name, h.nodup_sources⟩
  | addExport module e =>
    apply Mirrors.mk (h.toInStep.addExport hafter)
    rw [forwarding_of_addExport hafter]
    exact ForwardingGraph.nodup_sources_redirect h.nodup_sources _ _
  | setOthers module others =>
    apply Mirrors.mk (h.toInStep.setOthers hafter)
    rw [forwarding_of_setOthers hafter]
    exact h.nodup_sources

theorem foldl_apply (h : registry.Mirrors) (edits : List ExportEdit) :
    (edits.foldl ExportRegistry.apply registry).Mirrors := by
  induction edits generalizing registry with
  | nil => exact h
  | cons edit rest ih => exact ih (h.apply edit)

theorem ofEdits (edits : List ExportEdit) : (ofEdits edits).Mirrors :=
  foldl_apply ⟨.empty, List.nodup_nil⟩ edits

end Mirrors

/-- The steps of the forwarding graph are those of the exports that are listed now. -/
theorem InStep.steps_eq (h : registry.InStep) : registry.forwarding.Steps = registry.Forwards := by
  funext source target
  rw [ForwardingGraph.Steps, h.next?_eq, Option.bind_eq_some_iff]
  rfl

theorem Mirrors.mem_edges_iff (h : registry.Mirrors) {source target : ExportSite} :
    (source, target) ∈ registry.forwarding.edges ↔ registry.Forwards source target := by
  rw [ForwardingGraph.mem_edges_iff_steps h.nodup_sources, h.toInStep.steps_eq]

/-! ## The numbers -/

/-- The modules that are registered are those of a list. -/
def Knows (registry : ExportRegistry) (known : List ModuleId) : Prop :=
  ∀ module, module ∈ known ↔ module ∈ registry.tables.keys

namespace Knows

variable {known : List ModuleId}

theorem empty : Knows ∅ [] := fun _ => Iff.rfl

theorem of_insert (h : registry.Knows known) (table : ExportTable)
    (htables : after.tables = registry.tables.insert module table) :
    after.Knows (module :: known) := by
  intro other
  rw [htables, OrderedMap.mem_keys_insert, ← h other, List.mem_cons, or_comm]

theorem of_insert_table? (h : registry.Knows known) {table : ExportTable}
    (htable : registry.table? module = some table) (later : ExportTable)
    (htables : after.tables = registry.tables.insert module later) : after.Knows known := by
  have hmodule : module ∈ known :=
    (h module).mpr (OrderedMap.mem_keys_iff_exists_find?.mpr ⟨table, htable⟩)
  intro other
  rw [← h.of_insert later htables, List.mem_cons]
  exact ⟨Or.inr, fun hother => hother.elim (fun heq => heq ▸ hmodule) id⟩

theorem mem_iff_exists_table? (h : registry.Knows known) :
    module ∈ known ↔ ∃ table, registry.table? module = some table :=
  (h module).trans OrderedMap.mem_keys_iff_exists_find?

theorem apply (h : registry.Knows known) (edit : ExportEdit) :
    (registry.apply edit).Knows (edit.knownAfter known) := by
  cases edit with
  | register module name => exact h.of_insert _ rfl
  | addExport module e =>
    rw [ExportRegistry.apply, attempt, ExportRegistry.addExport]
    cases htable : registry.table? module with
    | none => exact h
    | some table => exact h.of_insert_table? htable _ rfl
  | setOthers module others =>
    rw [ExportRegistry.apply, attempt, ExportRegistry.setOthers]
    cases htable : registry.table? module with
    | none => exact h
    | some table => exact h.of_insert_table? htable _ rfl

end Knows

/-- An edit numbers the sites that it names, unless they have numbers. -/
theorem sites_apply {known : List ModuleId} (h : registry.Knows known) (edit : ExportEdit) :
    (registry.apply edit).forwarding.sites =
      registry.forwarding.sites.insertAll (edit.sitesNamed known) := by
  cases edit with
  | register module name => rfl
  | addExport module e =>
    rw [apply, attempt, addExport, ExportEdit.sitesNamed]
    cases htable : registry.table? module with
    | none =>
      rw [if_neg (by simp [h.mem_iff_exists_table?, htable])]
      rfl
    | some table =>
      rw [if_pos (h.mem_iff_exists_table?.mpr ⟨table, htable⟩)]
      exact ForwardingGraph.sites_redirect _ _ _
  | setOthers module others =>
    rw [apply, attempt, setOthers]
    cases registry.table? module with
    | none => rfl
    | some table => rfl

/-- Sites are numbered in the order in which the edits name them. -/
theorem sites_foldl_apply {known : List ModuleId} (h : registry.Knows known)
    (edits : List ExportEdit) :
    (edits.foldl apply registry).forwarding.sites =
      registry.forwarding.sites.insertAll (ExportEdit.namedSites known edits) := by
  induction edits generalizing registry known with
  | nil => rfl
  | cons edit rest ih =>
    rw [List.foldl_cons, ih (h.apply edit), sites_apply h, ExportEdit.namedSites]
    exact List.foldl_append.symm

theorem sites_ofEdits (edits : List ExportEdit) :
    (ofEdits edits).forwarding.sites = UniqueList.ofList (ExportEdit.namedSites [] edits) :=
  sites_foldl_apply .empty edits

end ExportRegistry

end ModuleLinker
