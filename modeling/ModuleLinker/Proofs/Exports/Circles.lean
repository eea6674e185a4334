import ModuleLinker.Proofs.Exports.Reports
import ModuleLinker.Proofs.Exports.Walks

/-!
# Circles of exports

Exports that forward to each other in a circle are looked for twice, and in two ways.  The
report follows the edges of the forwarding graph and does not ask what is provided; resolving
an export follows the exports themselves and stops where a name is not provided.  A circle
of which every export is provided is met by both.  Any other circle is reported, and no walk
goes round it.
-/

namespace ModuleLinker

namespace ExportRegistry

variable {registry : ExportRegistry} {start site target other : ExportSite}
  {group : List ExportSite}

/-! ## The report of the circles -/

/-- A circle as it is reported: all exports that one of them leads to, and that lead back to
it, each once, by module and name. -/
structure Circle (registry : ExportRegistry) (group : List ExportSite) : Prop where
  nodup : group.Nodup
  sorted : group.Pairwise fun first second =>
    ForwardingGraph.siteNotAfter first second = true
  exists_mem_iff : ∃ site, Relation.TransGen registry.Forwards site site ∧
    ∀ other, other ∈ group ↔ Relation.ReflTransGen registry.Forwards site other

/-- A list of all circles, each once, in the order of the lowest-numbered sites that lead to
them. -/
structure ListsCircles (registry : ExportRegistry) (groups : List (List ExportSite)) :
    Prop where
  mem_iff : ∀ group, group ∈ groups ↔ registry.Circle group
  nodup : groups.Nodup
  disjoint : groups.Pairwise List.Disjoint
  ordered : groups.Pairwise fun first second => ∃ earlier later,
    FirstLeads registry.Forwards registry.forwarding.sites.toList first earlier ∧
      FirstLeads registry.Forwards registry.forwarding.sites.toList second later ∧
      earlier < later

namespace InStep

variable (h : registry.InStep)
include h

theorem reports_iff : registry.forwarding.Reports group ↔ registry.Circle group := by
  have hcycle : registry.forwarding.IsCycle group ↔ group.Nodup ∧
      ∃ site, Relation.TransGen registry.Forwards site site ∧
        ∀ other, other ∈ group ↔ Relation.ReflTransGen registry.Forwards site other := by
    rw [← h.steps_eq]
    exact ⟨fun hcycle => ⟨hcycle.nodup, hcycle.exists_mem_iff⟩,
      fun hcycle => ⟨hcycle.1, hcycle.2⟩⟩
  constructor
  · intro hreports
    obtain ⟨hnodup, hmem⟩ := hcycle.mp hreports.isCycle
    exact ⟨hnodup, hreports.sorted, hmem⟩
  · intro hcircle
    exact ⟨hcycle.mpr ⟨hcircle.nodup, hcircle.exists_mem_iff⟩, hcircle.sorted⟩

theorem mem_cycles_iff : group ∈ registry.cycles ↔ registry.Circle group :=
  (ForwardingGraph.mem_cycles_iff h.covers).trans h.reports_iff

theorem listsCircles_cycles : registry.ListsCircles registry.cycles where
  mem_iff _ := h.mem_cycles_iff
  nodup := ForwardingGraph.nodup_cycles h.covers
  disjoint := (ForwardingGraph.collects_cycles h.covers).disjoint
  ordered := by
    have hordered : Ordered registry.Forwards registry.forwarding.sites.toList registry.cycles := by
      rw [← h.steps_eq]
      exact ForwardingGraph.ordered_cyclesFrom h.covers (fun _ => id)
        fun _ hmem => absurd hmem List.not_mem_nil
    have hexists : ∀ group ∈ registry.cycles, ∃ number,
        FirstLeads registry.Forwards registry.forwarding.sites.toList group number := by
      intro group hgroup
      rw [← h.steps_eq]
      exact ((ForwardingGraph.mem_cycles_iff h.covers).mp hgroup).exists_firstLeads h.covers
    apply List.Pairwise.imp_of_mem _ hordered
    intro first second hfirst hsecond hless
    obtain ⟨earlier, hearlier⟩ := hexists first hfirst
    obtain ⟨later, hlater⟩ := hexists second hsecond
    exact ⟨earlier, later, hearlier, hlater, hless earlier later hearlier hlater⟩

end InStep

/-- The forwarding graph of a registry can be searched from all its sites. -/
theorem Mirrors.exists_search (h : registry.Mirrors) : ∃ after components,
    DepthFirst.Search registry.forwarding.successors [] registry.forwarding.sites.toList after
      components := by
  apply DepthFirst.Search.exists_search _ registry.forwarding.sites.nodup
    (List.Subset.refl _) []
  intro site _ target htarget
  have hstep := (ForwardingGraph.mem_successors_iff h.nodup_sources).mp htarget
  exact (h.covers.mem_of_steps hstep).2

/-- After any edits the forwarding graph has the edges of the exports that are listed now, one
at most from each site, and its sites in the order in which the edits named them.  An edit
that fails is about a module that is not registered, and nothing comes of it.  The reported
cycles are the circles of the exports, and a depth-first search for components that starts
from the sites in the order of their numbers reports just the same. -/
theorem ofEdits_reports_circles (edits : List ExportEdit) :
    (∀ source target, (source, target) ∈ (ofEdits edits).forwarding.edges ↔
        (ofEdits edits).Forwards source target) ∧
      ((ofEdits edits).forwarding.edges.map Prod.fst).Nodup ∧
      (ofEdits edits).forwarding.sites = UniqueList.ofList (ExportEdit.namedSites [] edits) ∧
      (∀ edit reason, (ofEdits edits).attempt edit = .error reason →
        (ofEdits edits).table? edit.module = none ∧ reason = .unregistered edit.module ∧
          ofEdits (edits ++ [edit]) = ofEdits edits) ∧
      (ofEdits edits).ListsCircles (ofEdits edits).cycles ∧
      (∃ after components, DepthFirst.Search (ofEdits edits).forwarding.successors []
        (ofEdits edits).forwarding.sites.toList after components) ∧
      ∀ after components, DepthFirst.Search (ofEdits edits).forwarding.successors []
          (ofEdits edits).forwarding.sites.toList after components →
        (ofEdits edits).forwarding.report components = (ofEdits edits).cycles := by
  have hmirrors := Mirrors.ofEdits edits
  refine ⟨fun _ _ => hmirrors.mem_edges_iff, hmirrors.nodup_sources, sites_ofEdits edits, ?_,
    hmirrors.listsCircles_cycles, hmirrors.exists_search, fun _ _ hsearch => ?_⟩
  · intro edit reason hfailed
    obtain ⟨hnone, hreason, hsame⟩ := apply_of_attempt_eq_error hfailed
    refine ⟨hnone, hreason, ?_⟩
    rw [ofEdits, List.foldl_append]
    exact hsame
  · exact ForwardingGraph.report_eq_cycles hmirrors.nodup_sources hmirrors.covers hsearch

/-- Edits of one module: `t` forwards to `z` first and to `a` later, `z` is not provided and
forwards to itself, and `a` and `b` forward to each other.  The edit of another module
fails. -/
def redirectedEdits : List ExportEdit :=
  let forwarder (name target : String) (provision : Provision) : Export :=
    ⟨name, provision, ∅, some ⟨⟨0⟩, some target⟩, none⟩
  [.register ⟨0⟩ "m", .addExport ⟨0⟩ (forwarder "t" "z" .provided),
    .addExport ⟨0⟩ (forwarder "z" "z" .notProvided), .addExport ⟨7⟩ (forwarder "z" "t" .provided),
    .addExport ⟨0⟩ (forwarder "b" "a" .provided), .addExport ⟨0⟩ (forwarder "a" "b" .provided),
    .addExport ⟨0⟩ (forwarder "t" "a" .provided)]

-- The lowest-numbered site is `t`, which leads to the circle that was closed last.
example : (ofEdits redirectedEdits).forwarding.sites.toList =
      [⟨⟨0⟩, "t"⟩, ⟨⟨0⟩, "z"⟩, ⟨⟨0⟩, "b"⟩, ⟨⟨0⟩, "a"⟩] ∧
    (ofEdits redirectedEdits).cycles = [[⟨⟨0⟩, "a"⟩, ⟨⟨0⟩, "b"⟩], [⟨⟨0⟩, "z"⟩]] := by
  cbv

/-! ## Walks that go round a circle -/

/-- An export is listed at a site, and it is provided. -/
def Provides (registry : ExportRegistry) (site : ExportSite) : Prop :=
  ∃ e, registry.export? site = some e ∧ e.provision = .provided

/-- A walk comes to a site of a group, and to no other site of the group before. -/
def Enters (registry : ExportRegistry) (start : ExportSite) (group : List ExportSite)
    (site : ExportSite) : Prop :=
  site ∈ group ∧ ∃ k, registry.position? start k = some site ∧
    ∀ j < k, ∀ other, registry.position? start j = some other → other ∉ group

theorem Forwards.eq (h : registry.Forwards site target) (hother : registry.Forwards site other) :
    target = other := by
  obtain ⟨e, he, hforward⟩ := h
  obtain ⟨e', he', hforward'⟩ := hother
  obtain rfl := Option.some.inj (he.symm.trans he')
  exact Option.some.inj (hforward.symm.trans hforward')

theorem provides_of_onward (h : registry.onward? site = some target) : registry.Provides site := by
  obtain ⟨e, he, hprovided, -⟩ := onward?_eq_some_iff.mp h
  exact ⟨e, he, hprovided⟩

theorem forwards_of_onward (h : registry.onward? site = some target) :
    registry.Forwards site target := by
  obtain ⟨e, he, -, hforward⟩ := onward?_eq_some_iff.mp h
  exact ⟨e, he, hforward⟩

theorem onward_of_forwards (hprovides : registry.Provides site)
    (hforwards : registry.Forwards site target) : registry.onward? site = some target := by
  obtain ⟨e, he, hprovided⟩ := hprovides
  obtain ⟨e', he', hforward⟩ := hforwards
  obtain rfl := Option.some.inj (he.symm.trans he')
  exact onward?_eq_some_iff.mpr ⟨e, he, hprovided, hforward⟩

/-- Exports forward along a walk. -/
theorem transGen_of_position {i k : Nat} (hlt : i < k)
    (hsite : registry.position? start i = some site)
    (h : registry.position? start k = some target) :
    Relation.TransGen registry.Forwards site target := by
  induction hlt generalizing target with
  | refl =>
    rw [position?, hsite] at h
    exact .single (forwards_of_onward h)
  | step _ ih =>
    obtain ⟨earlier, hearlier, honward⟩ := Option.bind_eq_some_iff.mp h
    exact (ih hearlier).tail (forwards_of_onward honward)

/-- A walk that comes back to a site has been at all sites that forwarding leads to from
there. -/
theorem exists_position_of_reaches {i k : Nat} (hlt : i < k)
    (hsite : registry.position? start i = some site)
    (hagain : registry.position? start k = some site)
    (hreach : Relation.ReflTransGen registry.Forwards site other) :
    ∃ j, i ≤ j ∧ j < k ∧ registry.position? start j = some other := by
  induction hreach with
  | refl => exact ⟨i, Nat.le_refl i, hlt, hsite⟩
  | tail _ hstep ih =>
    obtain ⟨j, hij, hjk, hj⟩ := ih
    obtain ⟨next, hnext, honward⟩ := exists_onward_of_lt hjk hj hagain
    rw [(forwards_of_onward honward).eq hstep] at hnext
    rcases Nat.lt_or_eq_of_le (show j + 1 ≤ k from hjk) with hless | hlast
    · exact ⟨j + 1, Nat.le_succ_of_le hij, hless, hnext⟩
    · -- The step behind the last position of the round leads to its first one.
      rw [hlast, hagain] at hnext
      exact ⟨i, Nat.le_refl i, hlt, hsite.trans hnext⟩

namespace Enters

theorem eq_of_mem (h : registry.Enters start group site) (hstart : start ∈ group) :
    site = start := by
  obtain ⟨-, k, hk, hfirst⟩ := h
  cases k with
  | zero => exact (Option.some.inj hk).symm
  | succ k => exact absurd hstart (hfirst 0 (Nat.succ_pos k) start rfl)

theorem reaches (h : registry.Enters start group site) :
    Relation.ReflTransGen registry.Forwards start site := by
  obtain ⟨-, k, hk, -⟩ := h
  cases k with
  | zero => exact Option.some.inj hk ▸ .refl
  | succ k => exact (transGen_of_position (Nat.succ_pos k) rfl hk).to_reflTransGen

end Enters

namespace InStep

variable (h : registry.InStep)
include h

/-- The sites of a circle are those to which any one of them leads. -/
theorem mem_circle_iff (hcircle : registry.Circle group) (hsite : site ∈ group) :
    other ∈ group ↔ Relation.ReflTransGen registry.Forwards site other := by
  rw [← h.steps_eq]
  exact ((h.reports_iff.mpr hcircle).isCycle.mem_iff hsite).2 other

theorem circle_eq {another : List ExportSite} (hcircle : registry.Circle group)
    (hother : registry.Circle another) (hsite : site ∈ group) (hmem : site ∈ another) :
    group = another :=
  (h.reports_iff.mpr hcircle).eq (h.reports_iff.mpr hother) hsite hmem

theorem exists_forwards_of_mem (hcircle : registry.Circle group) (hsite : site ∈ group) :
    ∃ target ∈ group, registry.Forwards site target := by
  have honCycle := ((h.reports_iff.mpr hcircle).isCycle.mem_iff hsite).1
  obtain ⟨target, hstep, -⟩ := honCycle.exists_step
  rw [h.steps_eq] at hstep
  exact ⟨target, (h.mem_circle_iff hcircle hsite).mpr (.single hstep), hstep⟩

theorem exists_circle (hround : Relation.TransGen registry.Forwards site site) :
    ∃ group, registry.Circle group ∧ site ∈ group := by
  rw [← h.steps_eq] at hround
  obtain ⟨target, hstep, -⟩ := ForwardingGraph.OnCycle.exists_step hround
  obtain ⟨group, hgroup, hsite⟩ := (ForwardingGraph.collects_cycles h.covers).complete site
    (h.covers.mem_of_steps hstep).1 hround List.not_mem_nil
  exact ⟨group, h.mem_cycles_iff.mp hgroup, hsite⟩

/-- A walk that comes to a circular site goes round a circle of which everything is provided,
and the site is the first one of the circle that the walk comes to. -/
theorem exists_circle_of_resolve (hresolve : registry.resolve start = .circular site) :
    ∃ group, registry.Circle group ∧ (∀ other ∈ group, registry.Provides other) ∧
      registry.Enters start group site := by
  obtain ⟨k, -, hends, hfirst⟩ := registry.exists_ends_resolve start
  rw [hresolve] at hends
  cases hends with
  | stops _ _ hstops => cases hstops
  | repeats hk hearlier =>
    obtain ⟨i, hik, hi⟩ := hearlier
    obtain ⟨group, hcircle, hsite⟩ := h.exists_circle (transGen_of_position hik hi hk)
    have hround : ∀ other ∈ group, ∃ j, i ≤ j ∧ j < k ∧ registry.position? start j = some other :=
      fun other hother =>
        exists_position_of_reaches hik hi hk ((h.mem_circle_iff hcircle hsite).mp hother)
    refine ⟨group, hcircle, fun other hother => ?_, hsite, i, hi, fun j hji other hj hother => ?_⟩
    · obtain ⟨m, -, hmk, hm⟩ := hround other hother
      obtain ⟨next, -, honward⟩ := exists_onward_of_lt hmk hm hk
      exact provides_of_onward honward
    · -- A site of the circle in front of it would have come again before.
      obtain ⟨m, him, hmk, hm⟩ := hround other hother
      exact hfirst m hmk _ (.repeats hm ⟨j, Nat.lt_of_lt_of_le hji him, hj⟩)

/-- A walk that starts on a circle of which everything is provided stays on it. -/
theorem mem_of_position (hcircle : registry.Circle group) (hstart : start ∈ group) {k : Nat}
    (hk : registry.position? start k = some site) : site ∈ group := by
  apply (h.mem_circle_iff hcircle hstart).mpr
  cases k with
  | zero => exact Option.some.inj hk ▸ .refl
  | succ k => exact (transGen_of_position (Nat.succ_pos k) rfl hk).to_reflTransGen

theorem resolve_of_provided_circle (hcircle : registry.Circle group)
    (hprovided : ∀ other ∈ group, registry.Provides other) (hsite : site ∈ group) :
    registry.resolve site = .circular site := by
  obtain ⟨k, -, hends, -⟩ := registry.exists_ends_resolve site
  generalize hresolve : registry.resolve site = resolution at hends ⊢
  cases hends with
  | @stops last _ hk _ hstops =>
    have hlast : last ∈ group := h.mem_of_position hcircle hsite hk
    obtain ⟨target, -, hforwards⟩ := h.exists_forwards_of_mem hcircle hlast
    have honward := onward_of_forwards (hprovided last hlast) hforwards
    exact absurd (hstops.onward?_eq_none.symm.trans honward) (by simp)
  | @repeats last hk hearlier =>
    obtain ⟨found, hfound, -, henters⟩ := h.exists_circle_of_resolve hresolve
    have hlast : last ∈ group := h.mem_of_position hcircle hsite hk
    rw [h.circle_eq hfound hcircle henters.1 hlast] at henters
    rw [henters.eq_of_mem hsite]

/-- Around a circle of which something is not provided no walk goes. -/
theorem provides_of_resolve_circular (hcircle : registry.Circle group) (hstart : start ∈ group)
    (hresolve : registry.resolve start = .circular site) :
    ∀ other ∈ group, registry.Provides other := by
  obtain ⟨found, hfound, hprovided, henters⟩ := h.exists_circle_of_resolve hresolve
  have hsite : site ∈ group := (h.mem_circle_iff hcircle hstart).mpr henters.reaches
  rw [h.circle_eq hcircle hfound hsite henters.1]
  exact hprovided

end InStep

/-- In groups without common elements an element is in one group only. -/
theorem filter_mem_eq_singleton {groups : List (List ExportSite)}
    (hdisjoint : groups.Pairwise List.Disjoint) (hgroup : group ∈ groups) (hsite : site ∈ group) :
    groups.filter (fun other => decide (site ∈ other)) = [group] := by
  obtain ⟨before, behind, rfl⟩ := List.append_of_mem hgroup
  obtain ⟨-, hpairwise, hbefore⟩ := List.pairwise_append.mp hdisjoint
  have hbehind := (List.pairwise_cons.mp hpairwise).1
  have hnone : before.filter (fun other => decide (site ∈ other)) = [] := by
    rw [List.filter_eq_nil_iff]
    intro other hother hmem
    exact hbefore other hother group List.mem_cons_self (of_decide_eq_true hmem) hsite
  have hrest : behind.filter (fun other => decide (site ∈ other)) = [] := by
    rw [List.filter_eq_nil_iff]
    intro other hother hmem
    exact hbehind other hother hsite (of_decide_eq_true hmem)
  have hkept : decide (site ∈ group) = true := decide_eq_true hsite
  rw [List.filter_append, hnone, List.nil_append, List.filter_cons, hkept, if_pos rfl, hrest]

/-- Resolving exports and reporting cycles agree after any edits.  A site to which resolving
comes as a circular one is in exactly one reported group, everything in that group is
provided, and the site is the first one of the group on the walk, so that an export of a
group is circular itself.  Conversely everything in a reported group is provided and each
export of it resolves to itself as circular, or something in the group is not provided and
no export of it is circular. -/
theorem ofEdits_resolve_agrees_with_cycles (edits : List ExportEdit) :
    (∀ start site, (ofEdits edits).resolve start = .circular site →
        ∃ group, (ofEdits edits).cycles.filter (fun other => decide (site ∈ other)) = [group] ∧
          (∀ other ∈ group, (ofEdits edits).Provides other) ∧
          (ofEdits edits).Enters start group site ∧
          ∀ other ∈ (ofEdits edits).cycles, start ∈ other → site = start) ∧
      ∀ group ∈ (ofEdits edits).cycles,
        ((∀ site ∈ group, (ofEdits edits).Provides site) ∧
            ∀ site ∈ group, (ofEdits edits).resolve site = .circular site) ∨
          ((∃ site ∈ group, ∃ e, (ofEdits edits).export? site = some e ∧
              e.provision ≠ .provided) ∧
            ∀ start ∈ group, ∀ site, (ofEdits edits).resolve start ≠ .circular site) := by
  have h : (ofEdits edits).InStep := (Mirrors.ofEdits edits).toInStep
  constructor
  · intro start site hresolve
    obtain ⟨group, hcircle, hprovided, henters⟩ := h.exists_circle_of_resolve hresolve
    refine ⟨group, ?_, hprovided, henters, fun other hother hstart => ?_⟩
    · exact filter_mem_eq_singleton h.listsCircles_cycles.disjoint (h.mem_cycles_iff.mpr hcircle)
        henters.1
    · have hother := h.mem_cycles_iff.mp hother
      have hsite : site ∈ other := (h.mem_circle_iff hother hstart).mpr henters.reaches
      rw [h.circle_eq hcircle hother henters.1 hsite] at henters
      exact henters.eq_of_mem hstart
  · intro group hgroup
    have hcircle := h.mem_cycles_iff.mp hgroup
    by_cases hprovided : ∀ site ∈ group, (ofEdits edits).Provides site
    · exact Or.inl ⟨hprovided, fun site => h.resolve_of_provided_circle hcircle hprovided⟩
    · refine Or.inr ⟨?_, fun start hstart site hresolve =>
        hprovided (h.provides_of_resolve_circular hcircle hstart hresolve)⟩
      push Not at hprovided
      obtain ⟨site, hsite, hnot⟩ := hprovided
      obtain ⟨-, -, e, he, -⟩ := h.exists_forwards_of_mem hcircle hsite
      exact ⟨site, hsite, e, he, fun heq => hnot ⟨e, he, heq⟩⟩

/-- From `t` the walk comes into the circle of `a` and `b` at `a`. -/
theorem ofEdits_resolve_agrees_with_cycles_redirected :
    (ofEdits redirectedEdits).resolve ⟨⟨0⟩, "t"⟩ = .circular ⟨⟨0⟩, "a"⟩ ∧
      ∃ group, (ofEdits redirectedEdits).cycles.filter
          (fun other => decide (⟨⟨0⟩, "a"⟩ ∈ other)) = [group] ∧
        (ofEdits redirectedEdits).Enters ⟨⟨0⟩, "t"⟩ group ⟨⟨0⟩, "a"⟩ := by
  have hresolve : (ofEdits redirectedEdits).resolve ⟨⟨0⟩, "t"⟩ = .circular ⟨⟨0⟩, "a"⟩ := by
    decide
  obtain ⟨group, hgroup, -, henters, -⟩ :=
    (ofEdits_resolve_agrees_with_cycles redirectedEdits).1 _ _ hresolve
  exact ⟨hresolve, group, hgroup, henters⟩

end ExportRegistry

end ModuleLinker
