import Mathlib.Data.Nat.Find
import ModuleLinker.Proofs.Exports.Histories
import ModuleLinker.Proofs.Exports.Search

/-!
# The order of the reported cycles

A cycle is reported when the lowest-numbered site that leads to it is reached.  Since a site
forwards to one other site at most, no site leads to two cycles, and so the cycles have an
order of their own.  A depth-first search over the numbered sites emits its components in
that order: leaving out those that are no cycles, and sorting the sites of the others, gives
the same report.
-/

namespace ModuleLinker

section FirstLeads

variable {α : Type} {r : α → α → Prop} {nodes rest group : List α} {node : α} {number : Nat}

/-- The steps of a relation lead from a node to a node of a group. -/
def LeadsTo (r : α → α → Prop) (node : α) (group : List α) : Prop :=
  ∃ other ∈ group, Relation.ReflTransGen r node other

/-- The number of the first node of a list that leads to a group. -/
structure FirstLeads (r : α → α → Prop) (nodes group : List α) (number : Nat) : Prop where
  leads : ∃ node, nodes[number]? = some node ∧ LeadsTo r node group
  first : ∀ earlier < number, ∀ node, nodes[earlier]? = some node → ¬ LeadsTo r node group

theorem exists_firstLeads (hnode : node ∈ nodes) (hleads : LeadsTo r node group) :
    ∃ number, FirstLeads r nodes group number := by
  classical
  have hexists : ∃ number : Nat, ∃ node, nodes[number]? = some node ∧ LeadsTo r node group := by
    obtain ⟨number, hnumber⟩ := List.mem_iff_getElem?.mp hnode
    exact ⟨number, node, hnumber, hleads⟩
  exact ⟨Nat.find hexists, Nat.find_spec hexists, fun earlier hearlier other hother hleads =>
    Nat.find_min hexists hearlier ⟨other, hother, hleads⟩⟩

/-- A node that does not lead to a group only shifts the numbers. -/
theorem FirstLeads.exists_of_cons (h : FirstLeads r (node :: rest) group number)
    (hnot : ¬ LeadsTo r node group) : ∃ earlier, FirstLeads r rest group earlier ∧
      number = earlier + 1 := by
  cases number with
  | zero =>
    obtain ⟨first, hfirst, hleads⟩ := h.leads
    exact absurd (Option.some.inj hfirst ▸ hleads) hnot
  | succ earlier =>
    exact ⟨earlier, ⟨h.leads, fun other hother => h.first (other + 1) (Nat.succ_lt_succ hother)⟩,
      rfl⟩

theorem FirstLeads.eq_zero (h : FirstLeads r (node :: rest) group number)
    (hleads : LeadsTo r node group) : number = 0 := by
  by_contra hne
  exact h.first 0 (Nat.pos_of_ne_zero hne) node rfl hleads

/-- Groups in the order of the first nodes of a list that lead to them. -/
def Ordered (r : α → α → Prop) (nodes : List α) (groups : List (List α)) : Prop :=
  groups.Pairwise fun first second => ∀ earlier later,
    FirstLeads r nodes first earlier → FirstLeads r nodes second later → earlier < later

namespace Ordered

variable {groups : List (List α)}

theorem skip (h : Ordered r rest groups) (hnot : ∀ group ∈ groups, ¬ LeadsTo r node group) :
    Ordered r (node :: rest) groups := by
  apply List.Pairwise.imp_of_mem _ h
  intro first second hfirst hsecond hless earlier later hearlier hlater
  obtain ⟨i, hi, rfl⟩ := hearlier.exists_of_cons (hnot first hfirst)
  obtain ⟨j, hj, rfl⟩ := hlater.exists_of_cons (hnot second hsecond)
  exact Nat.succ_lt_succ (hless i j hi hj)

theorem cons (h : Ordered r rest groups) (hnot : ∀ group ∈ groups, ¬ LeadsTo r node group)
    (hleads : LeadsTo r node group) : Ordered r (node :: rest) (group :: groups) := by
  apply List.pairwise_cons.mpr ⟨_, h.skip hnot⟩
  intro second hsecond earlier later hearlier hlater
  obtain ⟨j, -, rfl⟩ := hlater.exists_of_cons (hnot second hsecond)
  rw [hearlier.eq_zero hleads]
  exact Nat.succ_pos j

theorem nodup (h : Ordered r nodes groups)
    (hexists : ∀ group ∈ groups, ∃ number, FirstLeads r nodes group number) : groups.Nodup := by
  apply List.Pairwise.imp_of_mem _ h
  rintro first second hfirst - hless rfl
  obtain ⟨number, hnumber⟩ := hexists first hfirst
  exact Nat.lt_irrefl number (hless number number hnumber hnumber)

/-- The order leaves no choice: the same groups are in it in one way only. -/
theorem eq_of_mem_iff {others : List (List α)} (h : Ordered r nodes groups)
    (hothers : Ordered r nodes others)
    (hexists : ∀ group ∈ groups, ∃ number, FirstLeads r nodes group number)
    (hmem : ∀ group, group ∈ groups ↔ group ∈ others) : groups = others := by
  have hnodup := hothers.nodup fun group hgroup => hexists group ((hmem group).mpr hgroup)
  have hperm := (List.perm_ext_iff_of_nodup (h.nodup hexists) hnodup).mpr hmem
  apply hperm.eq_of_pairwise _ h hothers
  intro first second hfirst hsecond hless hmore
  obtain ⟨earlier, hearlier⟩ := hexists first hfirst
  obtain ⟨later, hlater⟩ := hexists second ((hmem second).mpr hsecond)
  exact absurd (hless _ _ hearlier hlater) (Nat.lt_asymm (hmore _ _ hlater hearlier))

end Ordered

end FirstLeads

namespace ForwardingGraph

variable {g : ForwardingGraph} {site target : ExportSite}

/-! ## Following the edges from every site in turn -/

/-- A walk meets only sites that its start reaches. -/
theorem reaches_of_mem_trail_walk {settled trail : List ExportSite} {fuel : Nat}
    {other : ExportSite} (h : other ∈ (g.walk settled fuel trail site).trail) :
    other ∈ trail ∨ g.Reaches site other := by
  induction fuel generalizing trail site with
  | zero => exact Or.inl h
  | succ fuel ih =>
    rw [walk] at h
    split_ifs at h with hsettled hmem
    · exact Or.inl h
    · exact Or.inl h
    · split at h
      · rcases List.mem_cons.mp h with rfl | hother
        · exact Or.inr .refl
        · exact Or.inl hother
      · rename_i target hstep
        rcases ih h with hother | hreach
        · rcases List.mem_cons.mp hother with rfl | hother
          · exact Or.inr .refl
          · exact Or.inl hother
        · exact Or.inr (.head hstep hreach)

theorem not_leadsTo_of_disjoint {seen group : List ExportSite}
    (hclosed : ∀ site ∈ seen, ∀ target, g.Steps site target → target ∈ seen)
    (hsite : site ∈ seen) (hdisjoint : ∀ other ∈ group, other ∉ seen) :
    ¬ LeadsTo g.Steps site group := by
  rintro ⟨other, hother, hreach⟩
  exact hdisjoint other hother (mem_of_reaches hclosed hreach hsite)

/-- The cycles that are met from starts on come in the order of the first starts that lead
to them. -/
theorem ordered_cyclesFrom (hcovers : g.Covers) {starts settled : List ExportSite}
    (hstarts : ∀ site ∈ starts, site ∈ g.sites)
    (hclosed : ∀ site ∈ settled, ∀ target, g.Steps site target → target ∈ settled) :
    Ordered g.Steps starts (g.cyclesFrom starts settled) := by
  induction starts generalizing settled with
  | nil => exact List.Pairwise.nil
  | cons start starts ih =>
    rw [List.forall_mem_cons] at hstarts
    obtain ⟨hmeets, hstart⟩ := meets_walk_start hcovers hclosed hstarts.1
    have hseen := hmeets.closed_append hclosed
    have hlater := collects_cyclesFrom hcovers hstarts.2 hseen
    have hnot : ∀ cycle ∈ g.cyclesFrom starts _, ¬ LeadsTo g.Steps start cycle :=
      fun cycle hcycle => not_leadsTo_of_disjoint hseen (List.mem_append.mpr hstart)
        (hlater.fresh cycle hcycle)
    rw [cyclesFrom]
    split
    · exact (ih hstarts.2 hseen).skip hnot
    · rename_i cycle hcycle
      apply (ih hstarts.2 hseen).cons hnot
      obtain ⟨hisCycle, hsubset⟩ := hmeets.isCycle cycle hcycle
      obtain ⟨site, -, hmem⟩ := hisCycle.exists_mem_iff
      have hsite : site ∈ cycle := (hmem site).mpr .refl
      have hreach := (reaches_of_mem_trail_walk (hsubset hsite)).resolve_left List.not_mem_nil
      exact ⟨site, List.mem_mergeSort.mpr hsite, hreach⟩

/-- The sites of a cycle are numbered, and so there is a first one that leads to it. -/
theorem Reports.exists_firstLeads (hcovers : g.Covers) {group : List ExportSite}
    (h : g.Reports group) : ∃ number, FirstLeads g.Steps g.sites.toList group number := by
  obtain ⟨site, honCycle, hmem⟩ := h.isCycle.exists_mem_iff
  obtain ⟨target, hstep, -⟩ := honCycle.exists_step
  have hsite : site ∈ group := (hmem site).mpr .refl
  exact ModuleLinker.exists_firstLeads (hcovers.mem_of_steps hstep).1 ⟨site, hsite, .refl⟩

/-! ## The report of a search -/

/-- The sites to which the edges from a site lead. -/
def successors (g : ForwardingGraph) (site : ExportSite) : List ExportSite :=
  (g.edges.filter fun edge => decide (edge.1 = site)).map Prod.snd

/-- Whether a component is a cycle: it has several sites, or its only one has an edge to
itself. -/
def isCircular (g : ForwardingGraph) (component : List ExportSite) : Bool :=
  decide (1 < component.length) || component.head?.any fun site => decide ((site, site) ∈ g.edges)

/-- The components that are cycles, each with its sites by module and name. -/
def report (g : ForwardingGraph) (components : List (List ExportSite)) :
    List (List ExportSite) :=
  (components.filter g.isCircular).map fun component => component.mergeSort siteNotAfter

theorem mem_successors_iff (h : (g.edges.map Prod.fst).Nodup) :
    target ∈ g.successors site ↔ g.Steps site target := by
  rw [← mem_edges_iff_steps h, successors, List.mem_map]
  constructor
  · rintro ⟨edge, hedge, rfl⟩
    obtain ⟨hmem, hsource⟩ := List.mem_filter.mp hedge
    exact of_decide_eq_true hsource ▸ hmem
  · intro hedge
    exact ⟨(site, target), List.mem_filter.mpr ⟨hedge, decide_eq_true rfl⟩, rfl⟩

theorem reaches_successors (h : (g.edges.map Prod.fst).Nodup) :
    DepthFirst.Reaches g.successors = g.Reaches := by
  rw [DepthFirst.Reaches]
  congr 1
  funext site target
  exact propext (mem_successors_iff h)

variable {component visited nodes after : List ExportSite} {components : List (List ExportSite)}

theorem mem_component_iff (hsources : (g.edges.map Prod.fst).Nodup)
    (h : DepthFirst.IsComponent g.successors site component) {other : ExportSite} :
    other ∈ component ↔ g.Reaches site other ∧ g.Reaches other site := by
  rw [h.mem_iff, DepthFirst.Connected, reaches_successors hsources]

/-- A component is a cycle exactly when forwarding leads from its sites back to them. -/
theorem isCircular_iff (hsources : (g.edges.map Prod.fst).Nodup)
    (h : DepthFirst.IsComponent g.successors site component) :
    g.isCircular component = true ↔ g.OnCycle site := by
  have hmem {other : ExportSite} := @mem_component_iff g site component hsources h other
  have hself : site ∈ component := hmem.mpr ⟨.refl, .refl⟩
  rw [isCircular, Bool.or_eq_true, decide_eq_true_iff]
  by_cases hseveral : 1 < component.length
  · apply iff_of_true (Or.inl hseveral)
    obtain ⟨other, hother, hne⟩ : ∃ other ∈ component, other ≠ site := by
      by_contra! hall
      have hle := h.nodup.length_le_of_subset fun other hother =>
        List.mem_singleton.mpr (hall other hother)
      exact absurd hseveral (Nat.not_lt_of_le hle)
    obtain ⟨hreach, hback⟩ := hmem.mp hother
    exact ((Relation.reflTransGen_iff_eq_or_transGen.mp hreach).resolve_left hne).trans_left hback
  · have honly : component = [site] := by
      have hone : component.length = 1 :=
        Nat.le_antisymm (Nat.le_of_not_gt hseveral) (List.length_pos_of_mem hself)
      obtain ⟨only, heq⟩ := List.length_eq_one_iff.mp hone
      rw [heq, List.mem_singleton] at hself
      rw [heq, hself]
    rw [honly, or_iff_right (by simp), List.head?_cons, Option.any_some, decide_eq_true_iff,
      mem_edges_iff_steps hsources]
    constructor
    · exact fun hstep => .single hstep
    · intro honCycle
      obtain ⟨target, hstep, hback⟩ := honCycle.exists_step
      have htarget : target ∈ component := hmem.mpr ⟨.single hstep, hback⟩
      rw [honly, List.mem_singleton] at htarget
      exact htarget ▸ hstep

theorem isCycle_of_isComponent (hsources : (g.edges.map Prod.fst).Nodup)
    (h : DepthFirst.IsComponent g.successors site component) (honCycle : g.OnCycle site) :
    g.IsCycle component where
  nodup := h.nodup
  exists_mem_iff := ⟨site, honCycle, fun _ => (mem_component_iff hsources h).trans
    (and_iff_left_of_imp honCycle.reaches_back)⟩

/-- What is reported of a search are reports of cycles. -/
theorem exists_component_of_mem_report (hsources : (g.edges.map Prod.fst).Nodup)
    (h : DepthFirst.Search g.successors visited nodes after components) {group : List ExportSite}
    (hgroup : group ∈ g.report components) :
    ∃ component ∈ components, g.Reports group ∧ ∀ site, site ∈ group ↔ site ∈ component := by
  obtain ⟨component, hmem, rfl⟩ := List.mem_map.mp hgroup
  obtain ⟨hcomponent, hcircular⟩ := List.mem_filter.mp hmem
  obtain ⟨-, -, site, hsite⟩ := h.emitted component hcomponent
  have honCycle := (isCircular_iff hsources hsite).mp hcircular
  have hisCycle := isCycle_of_isComponent hsources hsite honCycle
  exact ⟨component, hcomponent, hisCycle.reports_mergeSort, fun _ => List.mem_mergeSort⟩

/-- A search from all sites on reports all cycles. -/
theorem mem_report_iff (hsources : (g.edges.map Prod.fst).Nodup) (hcovers : g.Covers)
    (h : DepthFirst.Search g.successors [] g.sites.toList after components)
    {group : List ExportSite} : group ∈ g.report components ↔ g.Reports group := by
  constructor
  · intro hgroup
    obtain ⟨-, -, hreports, -⟩ := exists_component_of_mem_report hsources h hgroup
    exact hreports
  · intro hreports
    obtain ⟨site, honCycle, hmem⟩ := hreports.isCycle.exists_mem_iff
    obtain ⟨target, hstep, -⟩ := honCycle.exists_step
    have hafter : site ∈ after := h.subset.2 (hcovers.mem_of_steps hstep).1
    obtain ⟨component, hcomponent, hsite⟩ :=
      h.complete site hafter fun _ _ => List.not_mem_nil
    obtain ⟨-, -, start, hstart⟩ := h.emitted component hcomponent
    have hown := hstart.of_mem hsite
    have hcircular := (isCircular_iff hsources hown).mpr honCycle
    have hfound := (isCycle_of_isComponent hsources hown honCycle).reports_mergeSort
    rw [hreports.eq hfound ((hmem site).mpr .refl) (List.mem_mergeSort.mpr hsite)]
    exact List.mem_map_of_mem (List.mem_filter.mpr ⟨hcomponent, hcircular⟩)

/-- Cycles that one site reaches have a common site, since every site forwards only once. -/
theorem not_disjoint_of_leadsTo {first second : List ExportSite} (hfirst : g.IsCycle first)
    (hsecond : g.IsCycle second) (hleads : LeadsTo g.Steps site first)
    (hother : LeadsTo g.Steps site second) : ¬ first.Disjoint second := by
  intro hdisjoint
  obtain ⟨one, hone, hreach⟩ := hleads
  obtain ⟨two, htwo, hreachTwo⟩ := hother
  have hunique : Relator.RightUnique g.Steps := fun _ _ _ => Steps.eq
  rcases Relation.ReflTransGen.total_of_right_unique hunique hreach hreachTwo with hto | hto
  · exact hdisjoint (((hfirst.mem_iff hone).2 two).mpr hto) htwo
  · exact hdisjoint hone (((hsecond.mem_iff htwo).2 one).mpr hto)

theorem report_append (g : ForwardingGraph) (first second : List (List ExportSite)) :
    g.report (first ++ second) = g.report first ++ g.report second := by
  rw [report, List.filter_append, List.map_append]
  rfl

theorem pairwise_disjoint_report (h : components.Pairwise List.Disjoint) :
    (g.report components).Pairwise List.Disjoint := by
  apply List.Pairwise.map _ _ (h.sublist List.filter_sublist)
  intro first second hdisjoint other hfirst hsecond
  exact hdisjoint (List.mem_mergeSort.mp hfirst) (List.mem_mergeSort.mp hsecond)

section Search

variable (hsources : (g.edges.map Prod.fst).Nodup)
include hsources

/-- A search from one site reports at most one cycle, to which the site leads. -/
theorem report_eq_nil_or_singleton
    (h : DepthFirst.Search g.successors visited [site] after components) :
    g.report components = [] ∨
      ∃ group, g.report components = [group] ∧ LeadsTo g.Steps site group := by
  have hreports : ∀ group ∈ g.report components, g.IsCycle group ∧ LeadsTo g.Steps site group := by
    intro group hgroup
    obtain ⟨component, hcomponent, hreports, hmem⟩ :=
      exists_component_of_mem_report hsources h hgroup
    obtain ⟨other, -, hother⟩ := hreports.isCycle.exists_mem_iff
    have hgroup : other ∈ group := (hother other).mpr .refl
    obtain ⟨hnew, hafter, -⟩ := h.emitted component hcomponent
    have hreached := h.reached other (hafter ((hmem other).mp hgroup))
    obtain ⟨start, hstart, hreach⟩ := hreached.resolve_left (hnew ((hmem other).mp hgroup))
    rw [List.mem_singleton.mp hstart, reaches_successors hsources] at hreach
    exact ⟨hreports.isCycle, other, hgroup, hreach⟩
  have hdisjoint := pairwise_disjoint_report (g := g) h.pairwise_disjoint
  rcases hreport : g.report components with _ | ⟨first, _ | ⟨second, rest⟩⟩
  · exact Or.inl rfl
  · exact Or.inr ⟨first, rfl, (hreports first (by simp [hreport])).2⟩
  · obtain ⟨hfirst, hleads⟩ := hreports first (by simp [hreport])
    obtain ⟨hsecond, hother⟩ := hreports second (by simp [hreport])
    rw [hreport] at hdisjoint
    exact absurd (List.rel_of_pairwise_cons hdisjoint List.mem_cons_self)
      (not_disjoint_of_leadsTo hfirst hsecond hleads hother)

/-- Sites that a search has not left behind lead to none of the cycles that it reports. -/
theorem not_leadsTo_of_mem_report
    (hclosed : ∀ site ∈ visited, ∀ target, g.Steps site target → target ∈ visited)
    (hsite : site ∈ visited) (h : DepthFirst.Search g.successors visited nodes after components)
    {group : List ExportSite} (hgroup : group ∈ g.report components) :
    ¬ LeadsTo g.Steps site group := by
  obtain ⟨component, hcomponent, -, hmem⟩ := exists_component_of_mem_report hsources h hgroup
  apply not_leadsTo_of_disjoint hclosed hsite
  exact fun other hother => (h.emitted component hcomponent).1 ((hmem other).mp hother)

/-- A search reports cycles in the order of the first sites that lead to them. -/
theorem ordered_report
    (hclosed : ∀ site ∈ visited, ∀ target, g.Steps site target → target ∈ visited)
    (h : DepthFirst.Search g.successors visited nodes after components) :
    Ordered g.Steps nodes (g.report components) := by
  induction h with
  | done visited => exact List.Pairwise.nil
  | skip hvisited hrest ih =>
    exact (ih hclosed).skip fun group hgroup =>
      not_leadsTo_of_mem_report hsources hclosed hvisited hrest hgroup
  | @visit visited rest between after site inner own later hnew hinner hown hrest _ ih =>
    have hround := hinner.inner_append_own hnew hown
    have hbetween : ∀ site ∈ between, ∀ target, g.Steps site target → target ∈ between := by
      intro other hother target hstep
      by_cases hvisited : other ∈ visited
      · exact hround.subset.1 (hclosed other hvisited target hstep)
      · exact hround.closed other hother hvisited ((mem_successors_iff hsources).mpr hstep)
    have hnot : ∀ group ∈ g.report later, ¬ LeadsTo g.Steps site group := fun group hgroup =>
      not_leadsTo_of_mem_report hsources hbetween (hround.subset.2 List.mem_cons_self) hrest hgroup
    rw [report_append]
    rcases report_eq_nil_or_singleton hsources hround with hnone | ⟨group, hone, hleads⟩
    · rw [hnone, List.nil_append]
      exact (ih hbetween).skip hnot
    · rw [hone, List.singleton_append]
      exact (ih hbetween).cons hnot hleads

/-- Whatever search there is from all sites in their order, its report is that of the
cycles. -/
theorem report_eq_cycles (hcovers : g.Covers)
    (h : DepthFirst.Search g.successors [] g.sites.toList after components) :
    g.report components = g.cycles := by
  have hnone : ∀ site ∈ ([] : List ExportSite), ∀ target, g.Steps site target → target ∈ [] :=
    fun _ hmem => absurd hmem List.not_mem_nil
  have hsearched : Ordered g.Steps g.sites.toList (g.report components) :=
    ordered_report hsources hnone h
  apply hsearched.eq_of_mem_iff (ordered_cyclesFrom hcovers (fun _ => id) hnone)
  · intro group hgroup
    exact ((mem_report_iff hsources hcovers h).mp hgroup).exists_firstLeads hcovers
  · intro group
    rw [mem_report_iff hsources hcovers h]
    exact (mem_cycles_iff hcovers).symm

end Search

end ForwardingGraph

end ModuleLinker
