import ModuleLinker.Proofs.Exports.Histories
import ModuleLinker.Proofs.Exports.Walks

/-!
# What an added export changes

Adding an export, or replacing one, changes what a walk does at a single site.  A walk that
never comes to the site is the same before and after.  A walk that does is the same up to
its first visit, and goes on from there with the new export; if it comes back to a site that
it passed before the visit, it has run into a circle.  Exports for different sites do not
disturb each other, so the order in which they are added shows in no resolution.
-/

namespace ModuleLinker

namespace ExportRegistry

variable {registry : ExportRegistry} {start site target : ExportSite} {resolution : Resolution}

/-! ## Positions beyond an end -/

theorem position?_add {k : Nat} (h : registry.position? start k = some site) (j : Nat) :
    registry.position? start (k + j) = registry.position? site j := by
  induction j with
  | zero => exact h
  | succ j ih => rw [← Nat.add_assoc, position?, ih, position?]

/-- What stands beyond an end of a walk has stood in it before: the walk has gone round. -/
theorem Ends.exists_earlier {j k : Nat} (hends : registry.Ends start j resolution) (hlt : j < k)
    (h : registry.position? start k = some target) :
    ∃ i < k, registry.position? start i = some target := by
  obtain ⟨d, rfl⟩ := Nat.exists_eq_add_of_le (Nat.le_of_lt hlt)
  cases hends with
  | repeats hsite hearlier =>
    obtain ⟨i, hij, hi⟩ := hearlier
    refine ⟨i + d, Nat.add_lt_add_right hij d, ?_⟩
    rw [position?_add hi, ← position?_add hsite, h]
  | stops hsite _ hstops =>
    obtain ⟨next, -, honward⟩ := exists_onward_of_lt hlt hsite h
    exact absurd (hstops.onward?_eq_none.symm.trans honward) (Option.some_ne_none _).symm

/-- Resolving comes to whatever the first end of the walk says. -/
theorem resolve_eq_of_ends {k : Nat} (hends : registry.Ends start k resolution)
    (hfirst : ∀ j < k, ∀ other, ¬ registry.Ends start j other) :
    registry.resolve start = resolution := by
  obtain ⟨l, -, hresolve, hbefore⟩ := registry.exists_ends_resolve start
  have hkl : k = l := by
    apply Nat.le_antisymm
    · exact Nat.not_lt.mp fun hlt => hfirst l hlt _ hresolve
    · exact Nat.not_lt.mp fun hlt => hbefore k hlt _ hends
  subst hkl
  have hwalk := walk_eq_of_ends (Nat.lt_succ_self k) hfirst hends
  rw [← hwalk]
  exact (walk_eq_of_ends (Nat.lt_succ_self k) hfirst hresolve).symm

/-! ## Visits -/

/-- The walk visits a site at a position: it is there for the first time, and has not ended
before. -/
structure Visits (registry : ExportRegistry) (start site : ExportSite) (k : Nat) : Prop where
  position_eq : registry.position? start k = some site
  first : ∀ i < k, registry.position? start i ≠ some site
  notEnded : ∀ j < k, ∀ resolution, ¬ registry.Ends start j resolution

theorem visits_of_first {k : Nat} (h : registry.position? start k = some site)
    (hfirst : ∀ i < k, registry.position? start i ≠ some site) :
    registry.Visits start site k := by
  refine ⟨h, hfirst, fun j hj resolution hends => ?_⟩
  obtain ⟨i, hi, hsite⟩ := hends.exists_earlier hj h
  exact hfirst i hi hsite

theorem exists_visits {k : Nat} (h : registry.position? start k = some site) :
    ∃ l, registry.Visits start site l := by
  classical
  have hexists : ∃ l, registry.position? start l = some site := ⟨k, h⟩
  exact ⟨Nat.find hexists, visits_of_first (Nat.find_spec hexists)
    fun _ hi => Nat.find_min hexists hi⟩

/-- What a walk comes to that goes on from a site, with some sites behind it.  If it meets one
of them, then the first one that it meets closes a circle. -/
inductive Continues (registry : ExportRegistry) (behind : List ExportSite) (site : ExportSite) :
    Resolution → Prop
  | meets {j : Nat} {other : ExportSite} (hother : registry.position? site j = some other)
      (hbehind : other ∈ behind)
      (hfirst : ∀ i < j, ∀ earlier ∈ behind, registry.position? site i ≠ some earlier) :
      Continues registry behind site (.circular other)
  | clear (hclear : ∀ j, ∀ other ∈ behind, registry.position? site j ≠ some other) :
      Continues registry behind site (registry.resolve site)

/-- A walk that goes on comes to one thing only. -/
theorem Continues.unique {behind : List ExportSite} {first second : Resolution}
    (hfirst : registry.Continues behind site first)
    (hsecond : registry.Continues behind site second) : first = second := by
  cases hfirst with
  | @meets i other hother hbehind hbefore =>
    cases hsecond with
    | @meets j later hlater hagain hearlier =>
      have hij : i = j := by
        apply Nat.le_antisymm
        · exact Nat.not_lt.mp fun hlt => hbefore j hlt later hagain hlater
        · exact Nat.not_lt.mp fun hlt => hearlier i hlt other hbehind hother
      subst hij
      rw [Option.some.inj (hother.symm.trans hlater)]
    | clear hclear => exact absurd hother (hclear i other hbehind)
  | clear hclear =>
    cases hsecond with
    | @meets j later hlater hagain _ => exact absurd hlater (hclear j later hagain)
    | clear _ => rfl

namespace Visits

variable {k : Nat} (h : registry.Visits start site k)
include h

/-- An end of the walk behind the visit is an end of the walk from the site, unless the walk
is then at a site from before the visit. -/
theorem ends_of_ends_add {j : Nat} (hends : registry.Ends start (k + j) resolution)
    (hnew : ∀ other ∈ registry.trail start k, registry.position? site j ≠ some other) :
    registry.Ends site j resolution := by
  have hposition := position?_add h.position_eq
  cases hends with
  | @repeats other hsite hearlier =>
    rw [hposition] at hsite
    obtain ⟨i, hi, hother⟩ := hearlier
    cases Nat.lt_or_ge i k with
    | inl hik => exact absurd hsite (hnew other (mem_trail_iff.mpr ⟨i, hik, hother⟩))
    | inr hki =>
      obtain ⟨d, rfl⟩ := Nat.exists_eq_add_of_le hki
      rw [hposition] at hother
      exact .repeats hsite ⟨d, Nat.lt_of_add_lt_add_left hi, hother⟩
  | @stops other _ hsite hother hstops =>
    rw [hposition] at hsite
    refine .stops hsite (fun i hi => ?_) hstops
    rw [← hposition]
    exact hother (k + i) (Nat.add_lt_add_left hi k)

theorem ends_add_of_ends {j : Nat} (hends : registry.Ends site j resolution)
    (hnew : ∀ other ∈ registry.trail start k, registry.position? site j ≠ some other) :
    registry.Ends start (k + j) resolution := by
  have hposition := position?_add h.position_eq
  cases hends with
  | @repeats other hsite hearlier =>
    obtain ⟨i, hi, hother⟩ := hearlier
    rw [← hposition] at hsite hother
    exact .repeats hsite ⟨k + i, Nat.add_lt_add_left hi k, hother⟩
  | @stops other _ hsite hother hstops =>
    refine .stops ((hposition j).trans hsite) (fun i hi hearlier => ?_) hstops
    cases Nat.lt_or_ge i k with
    | inl hik => exact hnew other (mem_trail_iff.mpr ⟨i, hik, hearlier⟩) hsite
    | inr hki =>
      obtain ⟨d, rfl⟩ := Nat.exists_eq_add_of_le hki
      exact hother d (Nat.lt_of_add_lt_add_left hi) ((hposition d).symm.trans hearlier)

/-- If the walk from the site never meets what lies before the visit, then the visit makes
no difference. -/
theorem resolve_eq_of_clear
    (hclear : ∀ j, ∀ other ∈ registry.trail start k, registry.position? site j ≠ some other) :
    registry.resolve start = registry.resolve site := by
  obtain ⟨j, -, hends, hfirst⟩ := registry.exists_ends_resolve site
  apply resolve_eq_of_ends (h.ends_add_of_ends hends (hclear j))
  intro i hi resolution hearlier
  cases Nat.lt_or_ge i k with
  | inl hik => exact h.notEnded i hik resolution hearlier
  | inr hki =>
    obtain ⟨d, rfl⟩ := Nat.exists_eq_add_of_le hki
    exact hfirst d (Nat.lt_of_add_lt_add_left hi) resolution
      (h.ends_of_ends_add hearlier (hclear d))

/-- If the walk from the site meets what lies before the visit, then it has run into a
circle there. -/
theorem resolve_eq_of_meets {j : Nat} {other : ExportSite}
    (hother : registry.position? site j = some other) (hbehind : other ∈ registry.trail start k)
    (hfirst : ∀ i < j, ∀ earlier ∈ registry.trail start k,
      registry.position? site i ≠ some earlier) :
    registry.resolve start = .circular other := by
  obtain ⟨i, hik, hi⟩ := mem_trail_iff.mp hbehind
  have hmeets : registry.Ends start (k + j) (.circular other) :=
    .repeats ((position?_add h.position_eq j).trans hother)
      ⟨i, Nat.lt_of_lt_of_le hik (Nat.le_add_right k j), hi⟩
  apply resolve_eq_of_ends hmeets
  intro l hl resolution hearlier
  cases Nat.lt_or_ge l k with
  | inl hlk => exact h.notEnded l hlk resolution hearlier
  | inr hkl =>
    -- An earlier end would have the walk go round without the site that it meets.
    obtain ⟨d, rfl⟩ := Nat.exists_eq_add_of_le hkl
    have hd := Nat.lt_of_add_lt_add_left hl
    obtain ⟨m, hm, hagain⟩ := (h.ends_of_ends_add hearlier (hfirst d hd)).exists_earlier hd hother
    exact hfirst m hm other hbehind hagain

/-- Resolving an export goes on from each site that is visited on the way. -/
theorem continues_resolve :
    registry.Continues (registry.trail start k) site (registry.resolve start) := by
  classical
  by_cases hmeets : ∃ j, ∃ other ∈ registry.trail start k, registry.position? site j = some other
  · obtain ⟨other, hbehind, hother⟩ := Nat.find_spec hmeets
    have hfirst : ∀ i < Nat.find hmeets, ∀ earlier ∈ registry.trail start k,
        registry.position? site i ≠ some earlier := fun i hi earlier hearlier hposition =>
      Nat.find_min hmeets hi ⟨earlier, hearlier, hposition⟩
    rw [h.resolve_eq_of_meets hother hbehind hfirst]
    exact .meets hother hbehind hfirst
  · have hclear : ∀ j, ∀ other ∈ registry.trail start k,
        registry.position? site j ≠ some other := fun j other hbehind hother =>
      hmeets ⟨j, other, hbehind, hother⟩
    rw [h.resolve_eq_of_clear hclear]
    exact .clear hclear

end Visits

/-! ## Registries that step alike -/

theorem onward?_eq_some_iff_step : registry.onward? site = some target ↔
    registry.step site = .forward target := by
  obtain ⟨next, honward, hstep⟩ | ⟨resolution, hstops, hstep⟩ := registry.step_cases site
  · rw [honward, hstep, Option.some.injEq, Step.forward.injEq]
  · rw [hstops.onward?_eq_none, hstep]
    exact iff_of_false (Option.some_ne_none _).symm (by simp)

theorem stops_iff_step : registry.Stops site resolution ↔
    registry.step site = .stop resolution := by
  refine ⟨Stops.step_eq, fun hstop => ?_⟩
  obtain ⟨next, -, hstep⟩ | ⟨other, hstops, hstep⟩ := registry.step_cases site
  · exact absurd (hstop.symm.trans hstep) (by simp)
  · obtain rfl := Step.stop.inj (hstep.symm.trans hstop)
    exact hstops

section Alike

variable {first second : ExportRegistry} {k : Nat}

/-- A walk goes the same way as long as the steps are the same on it. -/
theorem position?_congr (hsteps : ∀ i < k, ∀ site, first.position? start i = some site →
      second.step site = first.step site) :
    second.position? start k = first.position? start k := by
  induction k with
  | zero => rfl
  | succ k ih =>
    rw [position?, position?, ih fun i hi => hsteps i (Nat.lt_succ_of_lt hi)]
    cases hsite : first.position? start k with
    | none => rfl
    | some site =>
      apply Option.ext
      intro target
      rw [Option.bind_some, Option.bind_some, onward?_eq_some_iff_step, onward?_eq_some_iff_step,
        hsteps k (Nat.lt_succ_self k) site hsite]

theorem trail_congr (h : ∀ i < k, second.position? start i = first.position? start i) :
    second.trail start k = first.trail start k := by
  induction k with
  | zero => rfl
  | succ k ih =>
    rw [trail, trail, h k (Nat.lt_succ_self k), ih fun i hi => h i (Nat.lt_succ_of_lt hi)]

theorem Ends.of_step_eq (hends : first.Ends start k resolution)
    (hpositions : ∀ i ≤ k, second.position? start i = first.position? start i)
    (hstep : ∀ site, first.position? start k = some site → second.step site = first.step site) :
    second.Ends start k resolution := by
  cases hends with
  | repeats hsite hearlier =>
    obtain ⟨i, hi, hother⟩ := hearlier
    rw [← hpositions k (Nat.le_refl k)] at hsite
    rw [← hpositions i (Nat.le_of_lt hi)] at hother
    exact .repeats hsite ⟨i, hi, hother⟩
  | stops hsite hnew hstops =>
    rw [stops_iff_step, ← hstep _ hsite] at hstops
    rw [← hpositions k (Nat.le_refl k)] at hsite
    refine .stops hsite (fun i hi => ?_) (stops_iff_step.mpr hstops)
    rw [hpositions i (Nat.le_of_lt hi)]
    exact hnew i hi

/-- A walk on which the steps are the same comes to the same. -/
theorem resolve_congr (hsteps : ∀ k site, first.position? start k = some site →
      second.step site = first.step site) :
    second.resolve start = first.resolve start := by
  have hpositions (k : Nat) : second.position? start k = first.position? start k :=
    position?_congr fun i _ => hsteps i
  obtain ⟨k, -, hends, hfirst⟩ := first.exists_ends_resolve start
  apply resolve_eq_of_ends (hends.of_step_eq (fun i _ => hpositions i) (hsteps k))
  intro j hj other hearlier
  refine hfirst j hj other (hearlier.of_step_eq (fun i _ => (hpositions i).symm) ?_)
  intro site hsite
  rw [hpositions] at hsite
  exact (hsteps j site hsite).symm

/-- Where the steps are the same except at one site, a walk comes to that site on the same
way, and goes on from there in its registry. -/
theorem Visits.continues_second {changed : ExportSite}
    (hsteps : ∀ site, site ≠ changed → second.step site = first.step site)
    (hvisits : first.Visits start changed k) :
    (∀ i ≤ k, second.position? start i = first.position? start i) ∧
      second.Continues (first.trail start k) changed (second.resolve start) := by
  have hpositions : ∀ i ≤ k, second.position? start i = first.position? start i := by
    intro i hi
    refine position?_congr fun j hj site hsite => hsteps site fun heq => ?_
    exact hvisits.first j (Nat.lt_of_lt_of_le hj hi) (heq ▸ hsite)
  have hsecond : second.Visits start changed k := by
    apply visits_of_first ((hpositions k (Nat.le_refl k)).trans hvisits.position_eq)
    intro i hi
    rw [hpositions i (Nat.le_of_lt hi)]
    exact hvisits.first i hi
  rw [← trail_congr fun i hi => hpositions i (Nat.le_of_lt hi)]
  exact ⟨hpositions, hsecond.continues_resolve⟩

end Alike

/-! ## Looking up after an addition -/

/-- Registries in which every look-up of an export gives the same, and in which the names that
a module does not list are provided alike. -/
structure SameLookUps (first second : ExportRegistry) : Prop where
  others_eq : ∀ module, (second.table? module).map ExportTable.others =
    (first.table? module).map ExportTable.others
  export?_eq : ∀ site, second.export? site = first.export? site

/-- A step depends on the look-ups at its site. -/
theorem step_eq_of_lookUps {first second : ExportRegistry}
    (hothers : (second.table? site.module).map ExportTable.others =
      (first.table? site.module).map ExportTable.others)
    (hexport : second.export? site = first.export? site) :
    second.step site = first.step site := by
  rw [export?, export?] at hexport
  rw [step, step]
  cases hfirst : first.table? site.module with
  | none =>
    rw [hfirst, Option.map_none, Option.map_eq_none_iff] at hothers
    rw [hothers]
  | some table =>
    rw [hfirst, Option.map_some, Option.map_eq_some_iff] at hothers
    obtain ⟨other, hsecond, hsame⟩ := hothers
    rw [hfirst, hsecond, Option.bind_some, Option.bind_some] at hexport
    rw [hsecond]
    dsimp only
    rw [ExportTable.provisionOf, ExportTable.provisionOf, hexport, hsame]

theorem apply_addExport_of_unregistered {module : ModuleId} (h : registry.table? module = none)
    (e : Export) : registry.apply (.addExport module e) = registry := by
  rw [apply, attempt, addExport_of_unregistered h]

theorem table?_apply_addExport {module : ModuleId} {table : ExportTable}
    (h : registry.table? module = some table) (e : Export) (other : ModuleId) :
    (registry.apply (.addExport module e)).table? other =
      if module = other then some (table.put e) else registry.table? other := by
  cases hadd : registry.addExport module e with
  | error reason =>
    rw [addExport, h] at hadd
    exact absurd hadd (by simp)
  | ok after =>
    rw [apply, attempt, hadd]
    exact table?_addExport h hadd other

/-- Adding an export does not touch what holds of names that are not listed. -/
theorem others_apply_addExport (registry : ExportRegistry) (module : ModuleId) (e : Export)
    (other : ModuleId) :
    ((registry.apply (.addExport module e)).table? other).map ExportTable.others =
      (registry.table? other).map ExportTable.others := by
  cases htable : registry.table? module with
  | none => rw [apply_addExport_of_unregistered htable]
  | some table =>
    rw [table?_apply_addExport htable]
    split_ifs with hmodule
    · rw [← hmodule, htable]
      rfl
    · rfl

/-- Adding an export to a registered module lists it at its site, and nowhere else. -/
theorem export?_apply_addExport (registry : ExportRegistry) (module : ModuleId) (e : Export)
    (site : ExportSite) :
    (registry.apply (.addExport module e)).export? site =
      if (registry.table? module).isSome ∧ ⟨module, e.name⟩ = site then some e
      else registry.export? site := by
  cases htable : registry.table? module with
  | none => simp [apply_addExport_of_unregistered htable]
  | some table =>
    obtain ⟨other, name⟩ := site
    rw [export?, export?, table?_apply_addExport htable]
    by_cases hmodule : module = other
    · subst hmodule
      simp [htable, ExportTable.find?_put]
    · simp [hmodule]

/-- Adding an export changes no step but the one at its site. -/
theorem step_apply_addExport_of_ne {module : ModuleId} {e : Export}
    (h : site ≠ ⟨module, e.name⟩) :
    (registry.apply (.addExport module e)).step site = registry.step site := by
  apply step_eq_of_lookUps (others_apply_addExport registry module e site.module)
  rw [export?_apply_addExport, if_neg fun heq => h heq.2.symm]

namespace SameLookUps

variable {first second third : ExportRegistry}

theorem refl (registry : ExportRegistry) : SameLookUps registry registry :=
  ⟨fun _ => rfl, fun _ => rfl⟩

theorem trans (h : SameLookUps first second) (hnext : SameLookUps second third) :
    SameLookUps first third :=
  ⟨fun module => (hnext.others_eq module).trans (h.others_eq module),
    fun site => (hnext.export?_eq site).trans (h.export?_eq site)⟩

theorem resolve_eq (h : SameLookUps first second) (start : ExportSite) :
    second.resolve start = first.resolve start :=
  resolve_congr fun _ site _ => step_eq_of_lookUps (h.others_eq site.module) (h.export?_eq site)

theorem isSome_table?_eq (h : SameLookUps first second) (module : ModuleId) :
    (second.table? module).isSome = (first.table? module).isSome := by
  have hothers := congrArg Option.isSome (h.others_eq module)
  rwa [Option.isSome_map, Option.isSome_map] at hothers

theorem apply_addExport (h : SameLookUps first second) (module : ModuleId) (e : Export) :
    SameLookUps (first.apply (.addExport module e)) (second.apply (.addExport module e)) where
  others_eq other := by rw [others_apply_addExport, others_apply_addExport, h.others_eq]
  export?_eq site := by
    rw [export?_apply_addExport, export?_apply_addExport, h.isSome_table?_eq, h.export?_eq]

/-- Exports for different sites can be added in either order. -/
theorem addExport_comm (registry : ExportRegistry) {module other : ModuleId} {e later : Export}
    (hne : (⟨module, e.name⟩ : ExportSite) ≠ ⟨other, later.name⟩) :
    SameLookUps ((registry.apply (.addExport module e)).apply (.addExport other later))
      ((registry.apply (.addExport other later)).apply (.addExport module e)) where
  others_eq known := by
    rw [others_apply_addExport, others_apply_addExport, others_apply_addExport,
      others_apply_addExport]
  export?_eq site := by
    have hregistered (added target : ModuleId) (f : Export) :
        ((registry.apply (.addExport added f)).table? target).isSome =
          (registry.table? target).isSome := by
      have hothers := congrArg Option.isSome (others_apply_addExport registry added f target)
      rwa [Option.isSome_map, Option.isSome_map] at hothers
    rw [export?_apply_addExport, export?_apply_addExport, export?_apply_addExport,
      export?_apply_addExport, hregistered, hregistered]
    by_cases hfirst : (⟨module, e.name⟩ : ExportSite) = site
    · have hsecond : (⟨other, later.name⟩ : ExportSite) ≠ site := fun heq =>
        hne (hfirst.trans heq.symm)
      simp [hsecond]
    · simp [hfirst]

end SameLookUps

/-! ## Adding many exports -/

/-- The site of an export that is added to a module. -/
def addedSite (added : ModuleId × Export) : ExportSite := ⟨added.1, added.2.name⟩

/-- The registry after exports were added one after the other.  For a module that is not
registered nothing happens. -/
def insertAll (registry : ExportRegistry) (added : List (ModuleId × Export)) : ExportRegistry :=
  added.foldl (fun registry added => registry.apply (.addExport added.1 added.2)) registry

/-- Add exports one after the other, up to the first one that cannot be added. -/
def addExports (registry : ExportRegistry) (added : List (ModuleId × Export)) :
    Except LinkError ExportRegistry :=
  added.foldlM (fun registry added => registry.addExport added.1 added.2) registry

variable {added others : List (ModuleId × Export)}

theorem SameLookUps.insertAll {first second : ExportRegistry} (h : SameLookUps first second)
    (added : List (ModuleId × Export)) :
    SameLookUps (first.insertAll added) (second.insertAll added) := by
  induction added generalizing first second with
  | nil => exact h
  | cons next rest ih => exact ih (h.apply_addExport next.1 next.2)

/-- In whichever order exports for different sites are added, every look-up gives the same. -/
theorem sameLookUps_insertAll_perm (hperm : added.Perm others)
    (hnodup : (added.map addedSite).Nodup) (registry : ExportRegistry) :
    SameLookUps (registry.insertAll added) (registry.insertAll others) := by
  induction hperm generalizing registry with
  | nil => exact .refl registry
  | cons next _ ih => exact ih (List.nodup_cons.mp hnodup).2 _
  | swap next later rest =>
    have hne : addedSite later ≠ addedSite next := by
      intro heq
      rw [List.map_cons, List.map_cons, List.nodup_cons] at hnodup
      exact hnodup.1 (heq ▸ List.mem_cons_self)
    exact (SameLookUps.addExport_comm registry hne).insertAll rest
  | trans hfirst _ ihfirst ihsecond =>
    exact (ihfirst hnodup registry).trans
      (ihsecond ((hfirst.map addedSite).nodup_iff.mp hnodup) registry)

/-- Exports of registered modules are added without failing. -/
theorem addExports_eq_ok (h : ∀ record ∈ added, (registry.table? record.1).isSome = true) :
    registry.addExports added = .ok (registry.insertAll added) := by
  induction added generalizing registry with
  | nil => rfl
  | cons next rest ih =>
    obtain ⟨table, htable⟩ := Option.isSome_iff_exists.mp (h next List.mem_cons_self)
    have hadd : registry.addExport next.1 next.2 =
        .ok (registry.apply (.addExport next.1 next.2)) := by
      rw [apply, attempt, addExport, htable]
    have hrest : ∀ record ∈ rest,
        ((registry.apply (.addExport next.1 next.2)).table? record.1).isSome = true := by
      intro record hrecord
      have hothers := congrArg Option.isSome
        (others_apply_addExport registry next.1 next.2 record.1)
      rw [Option.isSome_map, Option.isSome_map] at hothers
      rw [hothers]
      exact h record (List.mem_cons_of_mem _ hrecord)
    rw [addExports, List.foldlM_cons, hadd]
    exact ih hrest

/-- What an export that is added or replaced does to the resolution of exports.  A walk that
does not visit its site goes the same way as before, to the same end.  A walk that visits it
goes the same way up to the visit, and comes to what it comes to when it goes on from the new
export with that way behind it.  Exports for different sites can be added in any order:
unless a module is not registered none of them fails, and every resolution is the same. -/
theorem resolve_after_addExport (registry : ExportRegistry) :
    (∀ module e after, registry.addExport module e = .ok after → ∀ start,
      ((∀ k, ¬ registry.Visits start ⟨module, e.name⟩ k) →
        (∀ k, after.position? start k = registry.position? start k) ∧
          after.resolve start = registry.resolve start) ∧
      ∀ k, registry.Visits start ⟨module, e.name⟩ k →
        (∀ i ≤ k, after.position? start i = registry.position? start i) ∧
          after.export? ⟨module, e.name⟩ = some e ∧
          ∀ resolution, after.Continues (registry.trail start k) ⟨module, e.name⟩ resolution ↔
            resolution = after.resolve start) ∧
      (∀ added : List (ModuleId × Export),
        (∀ record ∈ added, (registry.table? record.1).isSome = true) →
          registry.addExports added = .ok (registry.insertAll added)) ∧
      ∀ added others : List (ModuleId × Export), added.Perm others →
        (added.map addedSite).Nodup → ∀ start,
          (registry.insertAll others).resolve start =
            (registry.insertAll added).resolve start := by
  refine ⟨fun module e after hadd start => ?_, fun _ => addExports_eq_ok,
    fun _ _ hperm hnodup => (sameLookUps_insertAll_perm hperm hnodup registry).resolve_eq⟩
  have hafter : registry.apply (.addExport module e) = after := by
    rw [apply, attempt, hadd]
  have hsteps : ∀ site, site ≠ ⟨module, e.name⟩ → after.step site = registry.step site := by
    intro site hne
    rw [← hafter, step_apply_addExport_of_ne hne]
  refine ⟨fun hnever => ?_, fun k hvisits => ?_⟩
  · have hsame (k : Nat) (site : ExportSite) (hsite : registry.position? start k = some site) :
        after.step site = registry.step site := by
      apply hsteps
      rintro rfl
      obtain ⟨l, hvisits⟩ := exists_visits hsite
      exact hnever l hvisits
    exact ⟨fun k => position?_congr fun i _ => hsame i, resolve_congr hsame⟩
  · obtain ⟨hpositions, hcontinues⟩ := hvisits.continues_second hsteps
    have hexport : after.export? ⟨module, e.name⟩ = some e := by
      have hregistered : (registry.table? module).isSome = true := by
        rw [addExport] at hadd
        split at hadd
        · exact absurd hadd (by simp)
        · rename_i htable
          rw [htable, Option.isSome_some]
      rw [← hafter, export?_apply_addExport, if_pos ⟨hregistered, rfl⟩]
    refine ⟨hpositions, hexport, fun resolution => ⟨fun h => h.unique hcontinues, ?_⟩⟩
    rintro rfl
    exact hcontinues

/-- A registry of one module: `a` forwards to `b`, of which nothing is known, and `c` is an
export of its own. -/
def openRegistry : ExportRegistry :=
  ofEdits [.register ⟨0⟩ "m", .setOthers ⟨0⟩ .unknown,
    .addExport ⟨0⟩ ⟨"a", .provided, ∅, some ⟨⟨0⟩, some "b"⟩, none⟩,
    .addExport ⟨0⟩ ⟨"c", .provided, ∅, none, none⟩]

/-- An export that is added where a walk ended can send the walk back to where it began.  A walk
that does not come there is as before, and it makes no difference whether `c` is replaced
before or after. -/
theorem resolve_after_addExport_closing :
    let added : Export := ⟨"b", .provided, ∅, some ⟨⟨0⟩, some "a"⟩, none⟩
    let replaced : Export := ⟨"c", .provided, ∅, some ⟨⟨0⟩, some "a"⟩, none⟩
    ∃ after, openRegistry.addExport ⟨0⟩ added = .ok after ∧
      openRegistry.Visits ⟨⟨0⟩, "a"⟩ ⟨⟨0⟩, "b"⟩ 1 ∧
      openRegistry.resolve ⟨⟨0⟩, "a"⟩ = .undetermined ⟨⟨0⟩, "b"⟩ ∧
      after.resolve ⟨⟨0⟩, "a"⟩ = .circular ⟨⟨0⟩, "a"⟩ ∧
      after.resolve ⟨⟨0⟩, "c"⟩ = openRegistry.resolve ⟨⟨0⟩, "c"⟩ ∧
      (openRegistry.insertAll [(⟨0⟩, replaced), (⟨0⟩, added)]).resolve ⟨⟨0⟩, "c"⟩ =
        (openRegistry.insertAll [(⟨0⟩, added), (⟨0⟩, replaced)]).resolve ⟨⟨0⟩, "c"⟩ := by
  intro added replaced
  have hadd : openRegistry.addExport ⟨0⟩ added =
      .ok (openRegistry.apply (.addExport ⟨0⟩ added)) := rfl
  have hvisits : openRegistry.Visits ⟨⟨0⟩, "a"⟩ ⟨⟨0⟩, "b"⟩ 1 :=
    visits_of_first (by decide) (by decide)
  have hnever : ∀ k, ¬ openRegistry.Visits ⟨⟨0⟩, "c"⟩ ⟨⟨0⟩, "b"⟩ k := by
    intro k hvisit
    cases k with
    | zero => exact absurd hvisit.position_eq (by decide)
    | succ k =>
      obtain ⟨site, hsite⟩ := exists_position_of_le (Nat.succ_le_succ (Nat.zero_le k))
        hvisit.position_eq
      have hnone : openRegistry.position? ⟨⟨0⟩, "c"⟩ 1 = none := by decide
      exact absurd (hnone.symm.trans hsite) (Option.some_ne_none site).symm
  obtain ⟨hchanges, -, horders⟩ := openRegistry.resolve_after_addExport
  have hcontinues := (hchanges ⟨0⟩ added _ hadd ⟨⟨0⟩, "a"⟩).2 1 hvisits
  refine ⟨_, hadd, hvisits, by decide, ?_, ((hchanges ⟨0⟩ added _ hadd _).1 hnever).2, ?_⟩
  · apply Eq.symm
    apply (hcontinues.2.2 _).mp
    exact .meets (j := 1) (by decide) (by decide) (by decide)
  · exact horders [(⟨0⟩, added), (⟨0⟩, replaced)] [(⟨0⟩, replaced), (⟨0⟩, added)]
      (.swap _ _ []) (by decide) _

end ExportRegistry

end ModuleLinker
