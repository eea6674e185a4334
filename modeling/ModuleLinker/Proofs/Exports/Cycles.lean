import Mathlib.Data.List.Chain
import Mathlib.Data.List.Nodup
import Mathlib.Data.List.Perm.Subperm
import Mathlib.Logic.Relation
import ModuleLinker.Exports.Forwarding
import ModuleLinker.Proofs.Text.Order

/-!
# The cycles of the forwarding graph

A site forwards to one other site at most, so from a site on a cycle exactly the sites of
that cycle can be reached.  Following the edges from every site in turn meets each cycle
once, whatever the order of the sites: the cycles depend on the edges alone, and only
their order depends on how the sites are numbered.
-/

namespace ModuleLinker

namespace ForwardingGraph

/-! ## The order of sites -/

theorem siteNotAfter_iff {first second : ExportSite} :
    siteNotAfter first second = true ↔
      first.module.number.toNat < second.module.number.toNat ∨
        first.module.number.toNat = second.module.number.toNat ∧
          TextOrder.notAfter first.name second.name = true := by
  rw [siteNotAfter]
  rcases Nat.lt_trichotomy first.module.number.toNat second.module.number.toNat with
    hlt | heq | hgt
  · simp [hlt]
  · simp [heq]
  · simp [hgt, Nat.not_lt_of_gt hgt, Nat.ne_of_gt hgt]

theorem siteNotAfter_trans (first second third : ExportSite)
    (hfirst : siteNotAfter first second = true) (hsecond : siteNotAfter second third = true) :
    siteNotAfter first third = true := by
  rw [siteNotAfter_iff] at *
  rcases hfirst with hfirst | ⟨hfirst, hname⟩
  · exact Or.inl (by omega)
  · rcases hsecond with hsecond | ⟨hsecond, hother⟩
    · exact Or.inl (by omega)
    · exact Or.inr ⟨hfirst.trans hsecond, TextOrder.notAfter_trans hname hother⟩

theorem siteNotAfter_total (first second : ExportSite) :
    (siteNotAfter first second || siteNotAfter second first) = true := by
  rw [Bool.or_eq_true, siteNotAfter_iff, siteNotAfter_iff]
  rcases Nat.lt_trichotomy first.module.number.toNat second.module.number.toNat with
    hlt | heq | hgt
  · exact Or.inl (Or.inl hlt)
  · exact (TextOrder.notAfter_total first.name second.name).imp (fun h => Or.inr ⟨heq, h⟩)
      fun h => Or.inr ⟨heq.symm, h⟩
  · exact Or.inr (Or.inl hgt)

theorem eq_of_siteNotAfter {first second : ExportSite}
    (hfirst : siteNotAfter first second = true) (hsecond : siteNotAfter second first = true) :
    first = second := by
  obtain ⟨⟨module⟩, name⟩ := first
  obtain ⟨⟨otherModule⟩, otherName⟩ := second
  rw [siteNotAfter_iff] at hfirst hsecond
  dsimp only at hfirst hsecond
  obtain ⟨hmodule, hname⟩ := hfirst.resolve_left (by omega)
  obtain ⟨-, hother⟩ := hsecond.resolve_left (by omega)
  rw [UInt32.toNat_inj.mp hmodule, TextOrder.eq_of_notAfter hname hother]

/-! ## Steps and cycles -/

variable {g : ForwardingGraph} {site target other : ExportSite}

/-- One site forwards to another. -/
def Steps (g : ForwardingGraph) (site target : ExportSite) : Prop := g.next? site = some target

/-- Forwarding leads from one site to another in any number of steps. -/
abbrev Reaches (g : ForwardingGraph) : ExportSite → ExportSite → Prop :=
  Relation.ReflTransGen g.Steps

/-- Forwarding leads from a site back to it. -/
def OnCycle (g : ForwardingGraph) (site : ExportSite) : Prop :=
  Relation.TransGen g.Steps site site

theorem Steps.eq (h : g.Steps site target) (hother : g.Steps site other) : target = other :=
  Option.some.inj (h.symm.trans hother)

theorem OnCycle.exists_step (h : g.OnCycle site) :
    ∃ target, g.Steps site target ∧ g.Reaches target site := by
  obtain ⟨target, hstep, hback⟩ := Relation.TransGen.head'_iff.mp h
  exact ⟨target, hstep, hback⟩

/-- What a site on a cycle reaches leads back to it. -/
theorem OnCycle.reaches_back (h : g.OnCycle site) (hreach : g.Reaches site target) :
    g.Reaches target site := by
  induction hreach with
  | refl => exact .refl
  | @tail middle last _ hstep ih =>
    rcases ih.cases_head with rfl | ⟨next, hnext, hback⟩
    · obtain ⟨next, hnext, hback⟩ := h.exists_step
      exact hnext.eq hstep ▸ hback
    · exact hnext.eq hstep ▸ hback

theorem OnCycle.of_reaches (h : g.OnCycle site) (hreach : g.Reaches site target) :
    g.OnCycle target :=
  Relation.TransGen.trans_right (h.reaches_back hreach) (Relation.TransGen.trans_left h hreach)

/-- A set of sites is closed if forwarding does not lead out of it. -/
theorem mem_of_reaches {sites : List ExportSite}
    (hclosed : ∀ site ∈ sites, ∀ target, g.Steps site target → target ∈ sites)
    (hreach : g.Reaches site target) (hsite : site ∈ sites) : target ∈ sites := by
  induction hreach with
  | refl => exact hsite
  | tail _ hstep ih => exact hclosed _ ih _ hstep

/-- The sites on the way to a site, the last one first: each forwards to the one before
it in the list. -/
abbrev Way (g : ForwardingGraph) (sites : List ExportSite) : Prop :=
  sites.IsChain fun later earlier => g.Steps earlier later

/-- Sites that come later in a way, and so stand further left, are reached from earlier
ones. -/
theorem Way.pairwise {sites : List ExportSite} (h : g.Way sites) :
    sites.Pairwise fun later earlier => Relation.TransGen g.Steps earlier later :=
  (h.imp fun _ _ => Relation.TransGen.single).pairwise

/-- All sites of a way but the last forward to sites of it. -/
theorem Way.mem_of_steps {sites : List ExportSite} (h : g.Way (site :: sites))
    (hother : other ∈ sites) (hstep : g.Steps other target) : target ∈ site :: sites := by
  induction sites generalizing site with
  | nil => exact absurd hother List.not_mem_nil
  | cons first rest ih =>
    obtain ⟨hfirst, hrest⟩ := List.isChain_cons_cons.mp h
    rcases List.mem_cons.mp hother with rfl | hother
    · rw [hstep.eq hfirst]
      exact List.mem_cons_self
    · exact List.mem_cons_of_mem _ (ih hrest hother)

/-- All sites of a cycle, each once. -/
structure IsCycle (g : ForwardingGraph) (cycle : List ExportSite) : Prop where
  nodup : cycle.Nodup
  exists_mem_iff : ∃ site, g.OnCycle site ∧ ∀ other, other ∈ cycle ↔ g.Reaches site other

/-- The sites of a cycle are those that any one of them reaches. -/
theorem IsCycle.mem_iff {cycle : List ExportSite} (h : g.IsCycle cycle) (hsite : site ∈ cycle) :
    g.OnCycle site ∧ ∀ other, other ∈ cycle ↔ g.Reaches site other := by
  obtain ⟨start, hstart, hmem⟩ := h.exists_mem_iff
  have hreach := (hmem site).mp hsite
  refine ⟨hstart.of_reaches hreach, fun other => (hmem other).trans ?_⟩
  exact ⟨(hstart.reaches_back hreach).trans, hreach.trans⟩

/-- A way that comes back to one of its sites closes a cycle there. -/
theorem Way.isCycle {trail : List ExportSite} (h : g.Way (site :: trail)) (hnodup : trail.Nodup)
    (hsite : site ∈ trail) :
    g.IsCycle (site :: trail.takeWhile fun other => !decide (other = site)) := by
  obtain ⟨first, last, rfl, hfirst⟩ := List.eq_append_cons_of_mem hsite
  have htake : ((first ++ site :: last).takeWhile fun other => !decide (other = site)) = first := by
    rw [List.takeWhile_append_of_pos fun other hother => by
      simpa using fun heq : other = site => hfirst (heq ▸ hother)]
    simp
  have hway : g.Way ((site :: first) ++ [site]) := by
    have hwhole : (site :: first) ++ [site] ++ last = site :: (first ++ site :: last) := by simp
    exact (List.isChain_append.mp (hwhole ▸ h)).1
  have hpairwise := List.pairwise_append.mp hway.pairwise
  have hback : ∀ other ∈ site :: first, Relation.TransGen g.Steps site other :=
    fun other hother => hpairwise.2.2 other hother site (List.mem_singleton_self site)
  rw [htake]
  refine ⟨List.nodup_cons.mpr ⟨hfirst, hnodup.of_append_left⟩, site,
    hback site List.mem_cons_self, fun other =>
      ⟨fun hother => (hback other hother).to_reflTransGen, fun hreach => ?_⟩⟩
  refine mem_of_reaches (fun earlier hearlier target hstep => ?_) hreach List.mem_cons_self
  have hmem : earlier ∈ first ++ [site] := by
    rw [List.mem_append, List.mem_singleton, or_comm]
    exact List.mem_cons.mp hearlier
  have htarget := Way.mem_of_steps hway hmem hstep
  simpa [or_comm, or_assoc] using htarget

/-! ## Following the edges -/

/-- What following the edges from a site comes to: a trail of new sites that forward to
each other or to settled ones, with the cycle in it, if there is any. -/
structure Meets (g : ForwardingGraph) (settled : List ExportSite) (met : Walk) : Prop where
  nodup : met.trail.Nodup
  fresh : ∀ site ∈ met.trail, site ∉ settled
  closed : ∀ site ∈ met.trail, ∀ target, g.Steps site target →
    target ∈ met.trail ∨ target ∈ settled
  isCycle : ∀ cycle, met.cycle = some cycle → g.IsCycle cycle ∧ cycle ⊆ met.trail
  complete : ∀ site ∈ met.trail, g.OnCycle site → ∃ cycle, met.cycle = some cycle ∧ site ∈ cycle

/-- The trail and the next site of a walk that has come so far: they are a way of sites,
and the trail holds new ones only. -/
structure OnTheWay (g : ForwardingGraph) (settled trail : List ExportSite) (site : ExportSite) :
    Prop where
  way : g.Way (site :: trail)
  nodup : trail.Nodup
  fresh : ∀ other ∈ trail, other ∉ settled

namespace OnTheWay

variable {settled trail : List ExportSite}

theorem start (g : ForwardingGraph) (settled : List ExportSite) (site : ExportSite) :
    g.OnTheWay settled [] site :=
  ⟨List.isChain_singleton site, List.nodup_nil, fun _ h => absurd h List.not_mem_nil⟩

theorem step (h : g.OnTheWay settled trail site) (hfresh : site ∉ settled) (hnew : site ∉ trail)
    (hstep : g.Steps site target) : g.OnTheWay settled (site :: trail) target where
  way := List.isChain_cons_cons.mpr ⟨hstep, h.way⟩
  nodup := List.nodup_cons.mpr ⟨hnew, h.nodup⟩
  fresh := List.forall_mem_cons.mpr ⟨hfresh, h.fresh⟩

/-- The trail leads to the next site. -/
theorem reaches (h : g.OnTheWay settled trail site) (hother : other ∈ trail) :
    g.Reaches other site :=
  ((List.pairwise_cons.mp h.way.pairwise).1 other hother).to_reflTransGen

/-- At a settled site the walk meets no cycle. -/
theorem meets_of_settled (h : g.OnTheWay settled trail site)
    (hclosed : ∀ site ∈ settled, ∀ target, g.Steps site target → target ∈ settled)
    (hsettled : site ∈ settled) : g.Meets settled ⟨trail, none⟩ where
  nodup := h.nodup
  fresh := h.fresh
  closed other hother target hstep := by
    rcases List.mem_cons.mp (Way.mem_of_steps h.way hother hstep) with rfl | htarget
    · exact Or.inr hsettled
    · exact Or.inl htarget
  isCycle _ hcycle := absurd hcycle (by simp)
  complete other hother hcycle :=
    -- The site would be reached from the settled one, and so it would be settled itself.
    absurd (mem_of_reaches hclosed (hcycle.reaches_back (h.reaches hother)) hsettled)
      (h.fresh other hother)

/-- At a site of the trail the walk meets the cycle from there on. -/
theorem meets_of_mem (h : g.OnTheWay settled trail site) (hsite : site ∈ trail) :
    g.Meets settled
      ⟨trail, some (site :: trail.takeWhile fun other => !decide (other = site))⟩ := by
  have hcycle := Way.isCycle h.way h.nodup hsite
  refine ⟨h.nodup, h.fresh, fun other hother target hstep => ?_, fun cycle heq => ?_,
    fun other hother honCycle => ⟨_, rfl, ?_⟩⟩
  · rcases List.mem_cons.mp (Way.mem_of_steps h.way hother hstep) with rfl | htarget
    · exact Or.inl hsite
    · exact Or.inl htarget
  · rw [← Option.some.inj heq]
    exact ⟨hcycle, List.cons_subset.mpr ⟨hsite, (List.takeWhile_sublist _).subset⟩⟩
  · exact ((hcycle.mem_iff List.mem_cons_self).2 other).mpr
      (honCycle.reaches_back (h.reaches hother))

/-- At a site without an edge the walk meets no cycle. -/
theorem meets_of_end (h : g.OnTheWay settled trail site) (hfresh : site ∉ settled)
    (hnew : site ∉ trail) (hend : g.next? site = none) :
    g.Meets settled ⟨site :: trail, none⟩ where
  nodup := List.nodup_cons.mpr ⟨hnew, h.nodup⟩
  fresh := List.forall_mem_cons.mpr ⟨hfresh, h.fresh⟩
  closed other hother target hstep := by
    rcases List.mem_cons.mp hother with rfl | hother
    · exact absurd (hend.symm.trans hstep) (by simp)
    · exact Or.inl (Way.mem_of_steps h.way hother hstep)
  isCycle _ hcycle := absurd hcycle (by simp)
  complete other hother hcycle := by
    have hreach : g.Reaches other site := by
      rcases List.mem_cons.mp hother with rfl | hother
      · exact .refl
      · exact h.reaches hother
    obtain ⟨target, hstep, -⟩ := (hcycle.of_reaches hreach).exists_step
    exact absurd (hend.symm.trans hstep) (by simp)

end OnTheWay

/-- Every site that an edge leaves or enters has a number. -/
def Covers (g : ForwardingGraph) : Prop :=
  ∀ edge ∈ g.edges, edge.1 ∈ g.sites ∧ edge.2 ∈ g.sites

theorem Covers.mem_of_steps (h : g.Covers) (hstep : g.Steps site target) :
    site ∈ g.sites ∧ target ∈ g.sites := by
  obtain ⟨edge, hedge, htarget⟩ := Option.map_eq_some_iff.mp hstep
  have hsource : edge.1 = site := by simpa using List.find?_some hedge
  have hmem := h edge (List.mem_of_find?_eq_some hedge)
  rwa [hsource, htarget] at hmem

/-- With enough fuel for the sites that are not on the trail yet, a walk comes to one of
its ends. -/
theorem meets_walk (hcovers : g.Covers) {settled : List ExportSite}
    (hclosed : ∀ site ∈ settled, ∀ target, g.Steps site target → target ∈ settled) {fuel : Nat}
    {trail : List ExportSite} (h : g.OnTheWay settled trail site)
    (hsites : ∀ other ∈ site :: trail, other ∈ g.sites)
    (hfuel : g.sites.size + 1 ≤ fuel + trail.length) :
    g.Meets settled (g.walk settled fuel trail site) ∧
      ∀ other ∈ site :: trail, other ∈ (g.walk settled fuel trail site).trail ∨
        other ∈ settled := by
  induction fuel generalizing trail site with
  | zero =>
    have hlength : trail.length ≤ g.sites.size :=
      h.nodup.length_le_of_subset fun other hother => hsites other (List.mem_cons_of_mem _ hother)
    omega
  | succ fuel ih =>
    rw [walk]
    split_ifs with hsettled hmem
    · refine ⟨h.meets_of_settled hclosed hsettled, List.forall_mem_cons.mpr
        ⟨Or.inr hsettled, fun other hother => Or.inl hother⟩⟩
    · exact ⟨h.meets_of_mem hmem, List.forall_mem_cons.mpr
        ⟨Or.inl hmem, fun other hother => Or.inl hother⟩⟩
    · split
      · rename_i hend
        exact ⟨h.meets_of_end hsettled hmem hend, fun other hother => Or.inl hother⟩
      · rename_i target hstep
        have htarget := (hcovers.mem_of_steps hstep).2
        obtain ⟨hmeets, hkept⟩ := ih (h.step hsettled hmem hstep)
          (List.forall_mem_cons.mpr ⟨htarget, hsites⟩)
          (by rw [List.length_cons]; omega)
        exact ⟨hmeets, fun other hother => hkept other (List.mem_cons_of_mem _ hother)⟩

/-- From a numbered site on, a walk that has met nothing yet comes to one of its ends. -/
theorem meets_walk_start (hcovers : g.Covers) {settled : List ExportSite}
    (hclosed : ∀ site ∈ settled, ∀ target, g.Steps site target → target ∈ settled)
    (hsite : site ∈ g.sites) :
    g.Meets settled (g.walk settled (g.sites.size + 1) [] site) ∧
      (site ∈ (g.walk settled (g.sites.size + 1) [] site).trail ∨ site ∈ settled) := by
  obtain ⟨hmeets, hkept⟩ := meets_walk hcovers hclosed (OnTheWay.start g settled site)
    (List.forall_mem_cons.mpr ⟨hsite, fun _ h => absurd h List.not_mem_nil⟩)
    (Nat.le_refl (g.sites.size + 1))
  exact ⟨hmeets, hkept site List.mem_cons_self⟩

/-- With what a walk meets the settled sites stay closed. -/
theorem Meets.closed_append {settled : List ExportSite} {met : Walk} (h : g.Meets settled met)
    (hclosed : ∀ site ∈ settled, ∀ target, g.Steps site target → target ∈ settled) :
    ∀ site ∈ met.trail ++ settled, ∀ target, g.Steps site target →
      target ∈ met.trail ++ settled := by
  intro site hsite target hstep
  rw [List.mem_append] at *
  rcases hsite with hsite | hsite
  · exact h.closed site hsite target hstep
  · exact Or.inr (hclosed site hsite target hstep)

/-! ## The reported cycles -/

/-- A cycle as it is reported: its sites, each once, by module and name. -/
structure Reports (g : ForwardingGraph) (cycle : List ExportSite) : Prop where
  isCycle : g.IsCycle cycle
  sorted : cycle.Pairwise fun first second => siteNotAfter first second = true

theorem IsCycle.reports_mergeSort {cycle : List ExportSite} (h : g.IsCycle cycle) :
    g.Reports (cycle.mergeSort siteNotAfter) where
  isCycle.nodup := (List.mergeSort_perm cycle siteNotAfter).nodup_iff.mpr h.nodup
  isCycle.exists_mem_iff := by
    obtain ⟨site, hsite, hmem⟩ := h.exists_mem_iff
    exact ⟨site, hsite, fun other => List.mem_mergeSort.trans (hmem other)⟩
  sorted := List.pairwise_mergeSort siteNotAfter_trans siteNotAfter_total cycle

/-- Two reports with a common site are the same. -/
theorem Reports.eq {first second : List ExportSite} (hfirst : g.Reports first)
    (hsecond : g.Reports second) (hsite : site ∈ first) (hother : site ∈ second) :
    first = second := by
  have hperm : first.Perm second := by
    rw [List.perm_ext_iff_of_nodup hfirst.isCycle.nodup hsecond.isCycle.nodup]
    intro other
    rw [(hfirst.isCycle.mem_iff hsite).2, (hsecond.isCycle.mem_iff hother).2]
  exact hperm.eq_of_pairwise (fun _ _ _ _ => eq_of_siteNotAfter) hfirst.sorted hsecond.sorted

theorem Reports.of_steps_eq {first second : ForwardingGraph} {cycle : List ExportSite}
    (hsteps : first.Steps = second.Steps) (h : first.Reports cycle) : second.Reports cycle := by
  refine ⟨⟨h.isCycle.nodup, ?_⟩, h.sorted⟩
  obtain ⟨site, hsite, hmem⟩ := h.isCycle.exists_mem_iff
  rw [OnCycle, hsteps] at hsite
  simp only [Reaches, hsteps] at hmem
  exact ⟨site, hsite, hmem⟩

/-- What is collected from starts on: reports of disjoint cycles of sites that were not
settled before, with every such cycle that has a site among the starts. -/
structure Collects (g : ForwardingGraph) (starts settled : List ExportSite)
    (cycles : List (List ExportSite)) : Prop where
  reports : ∀ cycle ∈ cycles, g.Reports cycle
  fresh : ∀ cycle ∈ cycles, ∀ site ∈ cycle, site ∉ settled
  disjoint : cycles.Pairwise List.Disjoint
  complete : ∀ site ∈ starts, g.OnCycle site → site ∉ settled →
    ∃ cycle ∈ cycles, site ∈ cycle

/-- Following the edges from one more start adds the cycle that is met, if there is one. -/
theorem Meets.collects {settled starts : List ExportSite} {met : Walk}
    {later : List (List ExportSite)} (h : g.Meets settled met)
    (hstart : site ∈ met.trail ∨ site ∈ settled)
    (hlater : g.Collects starts (met.trail ++ settled) later) :
    g.Collects (site :: starts) settled
      (match met.cycle with
        | none => later
        | some cycle => cycle.mergeSort siteNotAfter :: later) := by
  have hrest : ∀ other ∈ site :: starts, other ∉ met.trail → other ∉ settled →
      g.OnCycle other → ∃ cycle ∈ later, other ∈ cycle := by
    intro other hother htrail hsettled honCycle
    have hnew : other ∉ met.trail ++ settled := by
      rw [List.mem_append, not_or]
      exact ⟨htrail, hsettled⟩
    rcases List.mem_cons.mp hother with rfl | hother
    · exact absurd hstart (not_or.mpr ⟨htrail, hsettled⟩)
    · exact hlater.complete other hother honCycle hnew
  have hfresh : ∀ cycle ∈ later, ∀ other ∈ cycle, other ∉ met.trail ∧ other ∉ settled := by
    intro cycle hcycle other hother
    have hnew := hlater.fresh cycle hcycle other hother
    rwa [List.mem_append, not_or] at hnew
  cases hcycle : met.cycle with
  | none =>
    refine ⟨hlater.reports, fun cycle hmem other hother => (hfresh cycle hmem other hother).2,
      hlater.disjoint, fun other hother honCycle hsettled => ?_⟩
    refine hrest other hother (fun htrail => ?_) hsettled honCycle
    obtain ⟨cycle, hmet, -⟩ := h.complete other htrail honCycle
    exact absurd (hcycle.symm.trans hmet) (by simp)
  | some cycle =>
    obtain ⟨hisCycle, hsubset⟩ := h.isCycle cycle hcycle
    have htrail : ∀ other ∈ cycle.mergeSort siteNotAfter, other ∈ met.trail :=
      fun other hother => hsubset (List.mem_mergeSort.mp hother)
    refine ⟨List.forall_mem_cons.mpr ⟨hisCycle.reports_mergeSort, hlater.reports⟩,
      List.forall_mem_cons.mpr ⟨fun other hother => h.fresh other (htrail other hother),
        fun cycle hmem other hother => (hfresh cycle hmem other hother).2⟩,
      List.pairwise_cons.mpr ⟨fun cycle hmem other hfirst hother =>
        (hfresh cycle hmem other hother).1 (htrail other hfirst), hlater.disjoint⟩,
      fun other hother honCycle hsettled => ?_⟩
    by_cases hmem : other ∈ met.trail
    · obtain ⟨found, hfound, hother⟩ := h.complete other hmem honCycle
      rw [Option.some.inj (hcycle.symm.trans hfound)]
      exact ⟨_, List.mem_cons_self, List.mem_mergeSort.mpr hother⟩
    · obtain ⟨found, hfound, hother⟩ := hrest other hother hmem hsettled honCycle
      exact ⟨found, List.mem_cons_of_mem _ hfound, hother⟩

theorem collects_cyclesFrom (hcovers : g.Covers) {starts settled : List ExportSite}
    (hstarts : ∀ site ∈ starts, site ∈ g.sites)
    (hclosed : ∀ site ∈ settled, ∀ target, g.Steps site target → target ∈ settled) :
    g.Collects starts settled (g.cyclesFrom starts settled) := by
  induction starts generalizing settled with
  | nil =>
    exact ⟨fun _ h => absurd h List.not_mem_nil, fun _ h => absurd h List.not_mem_nil, .nil,
      fun _ h => absurd h List.not_mem_nil⟩
  | cons start starts ih =>
    rw [List.forall_mem_cons] at hstarts
    obtain ⟨hmeets, hstart⟩ := meets_walk_start hcovers hclosed hstarts.1
    exact hmeets.collects hstart (ih hstarts.2 (hmeets.closed_append hclosed))

theorem collects_cycles (hcovers : g.Covers) : g.Collects g.sites.toList [] g.cycles :=
  collects_cyclesFrom hcovers (fun _ => id) fun _ h => absurd h List.not_mem_nil

/-- The cycles of the graph are reported, and nothing else is. -/
theorem mem_cycles_iff (hcovers : g.Covers) {cycle : List ExportSite} :
    cycle ∈ g.cycles ↔ g.Reports cycle := by
  have hcollects := collects_cycles hcovers
  refine ⟨hcollects.reports cycle, fun hreports => ?_⟩
  obtain ⟨site, hsite, hmem⟩ := hreports.isCycle.exists_mem_iff
  obtain ⟨target, hstep, -⟩ := hsite.exists_step
  obtain ⟨found, hfound, hother⟩ := hcollects.complete site (hcovers.mem_of_steps hstep).1 hsite
    List.not_mem_nil
  have heq := hreports.eq (hcollects.reports found hfound) ((hmem site).mpr .refl) hother
  exact heq ▸ hfound

/-- No cycle is reported twice. -/
theorem nodup_cycles (hcovers : g.Covers) : g.cycles.Nodup := by
  have hcollects := collects_cycles hcovers
  refine hcollects.disjoint.imp_of_mem fun {first second} hfirst _ hdisjoint heq => ?_
  obtain ⟨site, -, hmem⟩ := (hcollects.reports first hfirst).isCycle.exists_mem_iff
  have hsite := (hmem site).mpr .refl
  exact hdisjoint hsite (heq ▸ hsite)

/-- Graphs with the same edges have the same cycles, whatever the order of their sites. -/
theorem cycles_perm {first second : ForwardingGraph} (hfirst : first.Covers)
    (hsecond : second.Covers) (hnext : ∀ site, second.next? site = first.next? site) :
    first.cycles.Perm second.cycles := by
  have hsteps : first.Steps = second.Steps := by
    funext site target
    rw [Steps, Steps, hnext]
  rw [List.perm_ext_iff_of_nodup (nodup_cycles hfirst) (nodup_cycles hsecond)]
  intro cycle
  rw [mem_cycles_iff hfirst, mem_cycles_iff hsecond]
  exact ⟨.of_steps_eq hsteps, .of_steps_eq hsteps.symm⟩

end ForwardingGraph

end ModuleLinker
