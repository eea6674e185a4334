import Mathlib.Data.List.Perm.Subperm
import Mathlib.Data.Nat.Find
import ModuleLinker.Exports.Resolution

/-!
# The walk from site to site

Resolving an export walks on as long as a registered module provides the name and its
export forwards to a named one.  Every site that a walk leaves has such an export, so a
walk that does not stop comes back to one of its sites before it has left more sites than
there are such exports.  What it comes to is decided at the first position where it stops
or repeats a site, however much fuel is left then.
-/

namespace ModuleLinker

namespace ExportRegistry

variable {registry : ExportRegistry} {start site target : ExportSite} {resolution : Resolution}

/-! ## Going on and stopping -/

/-- The site to which a walk goes on from a site.  The module has to be registered, the
name has to be provided there, listed or not, and its export has to forward to a named
one. -/
def onward? (registry : ExportRegistry) (site : ExportSite) : Option ExportSite :=
  match registry.table? site.module with
  | none => none
  | some table =>
    if table.provisionOf site.name = .provided then
      ((table.exports.find? site.name).bind Export.forward).bind Forward.site?
    else none

/-- A walk goes on exactly from provided exports that forward to a named one. -/
theorem onward?_eq_some_iff : registry.onward? site = some target ↔
    ∃ e, registry.export? site = some e ∧ e.provision = .provided ∧
      e.forwardSite? = some target := by
  rw [onward?, export?]
  cases htable : registry.table? site.module with
  | none => simp
  | some table =>
    rw [Option.bind_some]
    cases hfind : table.exports.find? site.name with
    | none => simp [hfind]
    | some e =>
      have hprovision : table.provisionOf site.name = e.provision := by
        rw [ExportTable.provisionOf, hfind]
      simp [hprovision, hfind, Export.forwardSite?]

/-- What a walk comes to at a site where it does not go on. -/
inductive Stops (registry : ExportRegistry) (site : ExportSite) : Resolution → Prop
  /-- A module that is not registered has every name. -/
  | unregistered (hnone : registry.table? site.module = none) :
      Stops registry site (.origin site)
  /-- A provided name that forwards to nothing is an origin. -/
  | own {table : ExportTable} (htable : registry.table? site.module = some table)
      (hprovided : table.provisionOf site.name = .provided)
      (hown : (table.exports.find? site.name).bind Export.forward = none) :
      Stops registry site (.origin site)
  /-- A provided name may forward to the namespace of a module. -/
  | wholeModule {table : ExportTable} {module : ModuleId}
      (htable : registry.table? site.module = some table)
      (hprovided : table.provisionOf site.name = .provided)
      (hforward : (table.exports.find? site.name).bind Export.forward = some ⟨module, none⟩) :
      Stops registry site (.namespaceOf module)
  | notProvided {table : ExportTable} (htable : registry.table? site.module = some table)
      (hprovision : table.provisionOf site.name = .notProvided) :
      Stops registry site (.missing site)
  | unknown {table : ExportTable} (htable : registry.table? site.module = some table)
      (hprovision : table.provisionOf site.name = .unknown) :
      Stops registry site (.undetermined site)

/-- A step goes on or stops as the table of the module says. -/
theorem step_cases (registry : ExportRegistry) (site : ExportSite) :
    (∃ target, registry.onward? site = some target ∧ registry.step site = .forward target) ∨
      ∃ resolution, registry.Stops site resolution ∧ registry.step site = .stop resolution := by
  rw [onward?, step]
  cases htable : registry.table? site.module with
  | none => exact Or.inr ⟨_, .unregistered htable, rfl⟩
  | some table =>
    dsimp only
    cases hprovision : table.provisionOf site.name with
    | notProvided => exact Or.inr ⟨_, .notProvided htable hprovision, rfl⟩
    | unknown => exact Or.inr ⟨_, .unknown htable hprovision, rfl⟩
    | provided =>
      rw [if_pos rfl]
      rcases hforward : (table.exports.find? site.name).bind Export.forward with
        _ | ⟨module, _ | name⟩
      · exact Or.inr ⟨_, .own htable hprovision hforward, rfl⟩
      · exact Or.inr ⟨_, .wholeModule htable hprovision hforward, rfl⟩
      · exact Or.inl ⟨⟨module, name⟩, rfl, rfl⟩

theorem Stops.step_eq (h : registry.Stops site resolution) :
    registry.step site = .stop resolution := by
  rw [step]
  cases h with
  | unregistered hnone => rw [hnone]
  | own htable hprovided hown => simp only [htable, hprovided, hown, stepForward]
  | wholeModule htable hprovided hforward => simp only [htable, hprovided, hforward, stepForward]
  | notProvided htable hprovision => simp only [htable, hprovision]
  | unknown htable hprovision => simp only [htable, hprovision]

theorem Stops.onward?_eq_none (h : registry.Stops site resolution) :
    registry.onward? site = none := by
  rw [onward?]
  cases h with
  | unregistered hnone => rw [hnone]
  | own htable hprovided hown => simp [htable, hown]
  | wholeModule htable hprovided hforward => simp [htable, hforward, Forward.site?]
  | notProvided htable hprovision => simp [htable, hprovision]
  | unknown htable hprovision => simp [htable, hprovision]

/-! ## Positions of a walk -/

/-- The site to which a walk has come after a number of steps, if it goes on so far. -/
def position? (registry : ExportRegistry) (start : ExportSite) : Nat → Option ExportSite
  | 0 => some start
  | k + 1 => (registry.position? start k).bind registry.onward?

/-- The walk repeats a site at a position or stops there, with what it comes to. -/
inductive Ends (registry : ExportRegistry) (start : ExportSite) (k : Nat) : Resolution → Prop
  | repeats {site : ExportSite} (hsite : registry.position? start k = some site)
      (hearlier : ∃ i < k, registry.position? start i = some site) :
      Ends registry start k (.circular site)
  | stops {site : ExportSite} {resolution : Resolution}
      (hsite : registry.position? start k = some site)
      (hnew : ∀ i < k, registry.position? start i ≠ some site)
      (hstops : registry.Stops site resolution) : Ends registry start k resolution

/-- The sites in front of a position, the last one first. -/
def trail (registry : ExportRegistry) (start : ExportSite) : Nat → List ExportSite
  | 0 => []
  | k + 1 => (registry.position? start k).toList ++ registry.trail start k

theorem mem_trail_iff {k : Nat} :
    site ∈ registry.trail start k ↔ ∃ i < k, registry.position? start i = some site := by
  induction k with
  | zero => simp [trail]
  | succ k ih =>
    rw [trail, List.mem_append, Option.mem_toList, ih]
    constructor
    · rintro (hsite | ⟨i, hi, hsite⟩)
      · exact ⟨k, Nat.lt_succ_self k, hsite⟩
      · exact ⟨i, Nat.lt_succ_of_lt hi, hsite⟩
    · rintro ⟨i, hi, hsite⟩
      rcases Nat.lt_succ_iff_lt_or_eq.mp hi with hi | rfl
      · exact Or.inr ⟨i, hi, hsite⟩
      · exact Or.inl hsite

theorem notMem_trail_iff {k : Nat} :
    site ∉ registry.trail start k ↔ ∀ i < k, registry.position? start i ≠ some site := by
  simp [mem_trail_iff]

theorem length_trail {k : Nat} (h : registry.position? start k = some site) :
    (registry.trail start k).length = k := by
  induction k generalizing site with
  | zero => rfl
  | succ k ih =>
    obtain ⟨earlier, hearlier, -⟩ := Option.bind_eq_some_iff.mp h
    rw [trail, hearlier, List.length_append, ih hearlier, Option.toList_some,
      List.length_singleton, Nat.add_comm]

theorem exists_position_of_le {i k : Nat} (hle : i ≤ k)
    (h : registry.position? start k = some target) :
    ∃ site, registry.position? start i = some site := by
  induction hle generalizing target with
  | refl => exact ⟨target, h⟩
  | step _ ih =>
    obtain ⟨earlier, hearlier, -⟩ := Option.bind_eq_some_iff.mp h
    exact ih hearlier

/-- A site before the last position of a walk is left for the next one. -/
theorem exists_onward_of_lt {i k : Nat} (hlt : i < k)
    (hsite : registry.position? start i = some site)
    (h : registry.position? start k = some target) : ∃ next,
      registry.position? start (i + 1) = some next ∧ registry.onward? site = some next := by
  obtain ⟨next, hnext⟩ := exists_position_of_le hlt h
  exact ⟨next, hnext, by rwa [position?, hsite, Option.bind_some] at hnext⟩

/-- Every site in front of a position is left for the next one. -/
theorem exists_onward_of_mem_trail {k : Nat} (h : registry.position? start k = some target)
    (hsite : site ∈ registry.trail start k) : ∃ next, registry.onward? site = some next := by
  obtain ⟨i, hik, hi⟩ := mem_trail_iff.mp hsite
  obtain ⟨next, -, honward⟩ := exists_onward_of_lt hik hi h
  exact ⟨next, honward⟩

/-- As long as a walk has not ended, it goes on to new sites. -/
theorem exists_position_of_not_ends {k : Nat}
    (h : ∀ j < k, ∀ resolution, ¬ registry.Ends start j resolution) :
    ∃ site, registry.position? start k = some site ∧ (registry.trail start k).Nodup := by
  induction k with
  | zero => exact ⟨start, rfl, List.nodup_nil⟩
  | succ k ih =>
    obtain ⟨site, hsite, hnodup⟩ := ih fun j hj => h j (Nat.lt_succ_of_lt hj)
    have hnotEnds := h k (Nat.lt_succ_self k)
    have hnew : site ∉ registry.trail start k := fun hmem =>
      hnotEnds _ (.repeats hsite (mem_trail_iff.mp hmem))
    rcases registry.step_cases site with ⟨target, honward, -⟩ | ⟨resolution, hstops, -⟩
    · refine ⟨target, by rw [position?, hsite, Option.bind_some, honward], ?_⟩
      rw [trail, hsite, Option.toList_some, List.singleton_append]
      exact List.nodup_cons.mpr ⟨hnew, hnodup⟩
    · exact absurd (.stops hsite (notMem_trail_iff.mp hnew) hstops) (hnotEnds resolution)

/-! ## How long a walk goes on -/

/-- The sites whose exports forward to a named export. -/
def forwarderSites (registry : ExportRegistry) : List ExportSite :=
  registry.tables.entries.flatMap fun entry =>
    (entry.2.declared.filter fun e => e.forwardSite?.isSome).map fun e => ⟨entry.1, e.name⟩

theorem length_forwarderSites (registry : ExportRegistry) :
    registry.forwarderSites.length = registry.forwarders.length := by
  rw [forwarderSites, forwarders, OrderedMap.values, List.flatMap_map, List.length_flatMap,
    List.length_flatMap]
  simp only [List.length_map]

theorem mem_forwarderSites_of_onward (h : registry.onward? site = some target) :
    site ∈ registry.forwarderSites := by
  obtain ⟨e, he, -, hforward⟩ := onward?_eq_some_iff.mp h
  obtain ⟨table, htable, hfind⟩ := Option.bind_eq_some_iff.mp he
  have hsome : e.forwardSite?.isSome = true := by rw [hforward, Option.isSome_some]
  have hlisted : e ∈ table.declared.filter fun e => e.forwardSite?.isSome :=
    List.mem_filter.mpr ⟨OrderedMap.mem_values_of_find? hfind, hsome⟩
  apply List.mem_flatMap.mpr ⟨(site.module, table), OrderedMap.find?_eq_some_iff.mp htable, _⟩
  exact List.mem_map.mpr ⟨e, hlisted, by rw [ExportTable.name_of_find? hfind]⟩

/-- A walk over distinct sites leaves no more of them than there are exports that forward to
a named one. -/
theorem le_length_forwarders {k : Nat} (h : registry.position? start k = some site)
    (hnodup : (registry.trail start k).Nodup) : k ≤ registry.forwarders.length := by
  rw [← length_forwarderSites, ← length_trail h]
  apply hnodup.length_le_of_subset
  intro other hother
  obtain ⟨next, hnext⟩ := exists_onward_of_mem_trail h hother
  exact mem_forwarderSites_of_onward hnext

/-- The walk ends, and its first end comes soon enough. -/
theorem exists_first_end (registry : ExportRegistry) (start : ExportSite) :
    ∃ k ≤ registry.forwarders.length, (∃ resolution, registry.Ends start k resolution) ∧
      ∀ j < k, ∀ resolution, ¬ registry.Ends start j resolution := by
  have hexists : ∃ k, ∃ resolution, registry.Ends start k resolution := by
    by_contra hnone
    simp only [not_exists] at hnone
    obtain ⟨site, hsite, hnodup⟩ := exists_position_of_not_ends
      fun j (_ : j < registry.forwarders.length + 1) => hnone j
    exact absurd (le_length_forwarders hsite hnodup) (Nat.not_succ_le_self _)
  classical
  have hfirst : ∀ j < Nat.find hexists, ∀ resolution, ¬ registry.Ends start j resolution :=
    fun j hj resolution hends => Nat.find_min hexists hj ⟨resolution, hends⟩
  obtain ⟨site, hsite, hnodup⟩ := exists_position_of_not_ends hfirst
  exact ⟨Nat.find hexists, le_length_forwarders hsite hnodup, Nat.find_spec hexists, hfirst⟩

/-! ## What the walk comes to -/

/-- Up to its end the walk visits the sites of the trail one after the other. -/
theorem walk_eq_walk_trail {k : Nat}
    (h : ∀ j < k, ∀ resolution, ¬ registry.Ends start j resolution)
    (hsite : registry.position? start k = some site) (fuel : Nat) :
    registry.walk (fuel + k) [] start = registry.walk fuel (registry.trail start k) site := by
  induction k generalizing site fuel with
  | zero =>
    rw [← Option.some.inj hsite]
    rfl
  | succ k ih =>
    obtain ⟨earlier, hearlier, honward⟩ := Option.bind_eq_some_iff.mp hsite
    have hnotEnds := h k (Nat.lt_succ_self k)
    have hnew : earlier ∉ registry.trail start k := fun hmem =>
      hnotEnds _ (.repeats hearlier (mem_trail_iff.mp hmem))
    have hstep : registry.step earlier = .forward site := by
      rcases registry.step_cases earlier with ⟨target, htarget, hstep⟩ | ⟨_, hstops, -⟩
      · rw [hstep, Option.some.inj (htarget.symm.trans honward)]
      · exact absurd (.stops hearlier (notMem_trail_iff.mp hnew) hstops) (hnotEnds _)
    rw [show fuel + (k + 1) = fuel + 1 + k by omega,
      ih (fun j hj => h j (Nat.lt_succ_of_lt hj)) hearlier, walk, if_neg hnew, hstep, trail,
      hearlier]
    rfl

/-- With any fuel that lasts to its first end the walk comes to what it comes to there. -/
theorem walk_eq_of_ends {k fuel : Nat} (hfuel : k < fuel)
    (h : ∀ j < k, ∀ resolution, ¬ registry.Ends start j resolution)
    (hends : registry.Ends start k resolution) :
    registry.walk fuel [] start = resolution := by
  obtain ⟨rest, rfl⟩ := Nat.exists_eq_add_of_le' hfuel
  rw [show rest + (k + 1) = rest + 1 + k by omega]
  cases hends with
  | repeats hsite hearlier =>
    rw [walk_eq_walk_trail h hsite]
    exact walk_of_visited (mem_trail_iff.mpr hearlier) (rest + 1)
  | stops hsite hnew hstops =>
    rw [walk_eq_walk_trail h hsite, walk, if_neg (notMem_trail_iff.mpr hnew), hstops.step_eq]

/-- Resolving an export comes to what the walk comes to at its first end. -/
theorem exists_ends_resolve (registry : ExportRegistry) (start : ExportSite) :
    ∃ k ≤ registry.forwarders.length, registry.Ends start k (registry.resolve start) ∧
      ∀ j < k, ∀ resolution, ¬ registry.Ends start j resolution := by
  obtain ⟨k, hk, ⟨resolution, hends⟩, hfirst⟩ := registry.exists_first_end start
  have hresolve : registry.resolve start = resolution :=
    walk_eq_of_ends (Nat.lt_succ_of_le hk) hfirst hends
  exact ⟨k, hk, hresolve ▸ hends, hfirst⟩

theorem resolve_of_step_eq_stop (h : registry.step site = .stop resolution) :
    registry.resolve site = resolution := by
  rw [resolve, walk, if_neg List.not_mem_nil, h]

theorem Stops.eq_of_origin (h : registry.Stops start (.origin site)) : start = site := by
  cases h with
  | unregistered hnone => rfl
  | own htable hprovided hown => rfl

/-- A walk that comes to an origin stops there. -/
theorem stops_of_resolve_eq_origin (h : registry.resolve start = .origin site) :
    registry.Stops site (.origin site) := by
  obtain ⟨k, -, hends, -⟩ := registry.exists_ends_resolve start
  rw [h] at hends
  cases hends with
  | stops hsite hnew hstops => exact hstops.eq_of_origin ▸ hstops

/-- The origin of an export, if it is listed, is provided and forwards no further. -/
theorem provided_of_resolve_eq_origin (h : registry.resolve start = .origin site) {e : Export}
    (he : registry.export? site = some e) : e.provision = .provided ∧ e.isForwarding = false := by
  obtain ⟨table, htable, hfind⟩ := Option.bind_eq_some_iff.mp he
  cases stops_of_resolve_eq_origin h with
  | unregistered hnone => exact absurd (hnone.symm.trans htable) (by simp)
  | own hlisted hprovided hown =>
    obtain rfl := Option.some.inj (htable.symm.trans hlisted)
    rw [ExportTable.provisionOf, hfind] at hprovided
    rw [hfind, Option.bind_some] at hown
    exact ⟨hprovided, by rw [Export.isForwarding, hown, Option.isSome_none]⟩

/-- Resolving an export follows the walk to the first position where it stops or repeats a
site, and gives what the walk comes to there.  As many steps as there are exports that
forward to a named one always suffice, and with that more fuel makes no difference.  An
origin is its own origin. -/
theorem resolve_follows_walk (registry : ExportRegistry) (start : ExportSite) :
    (∃ k ≤ registry.forwarders.length, registry.Ends start k (registry.resolve start) ∧
        (∀ j < k, ∀ resolution, ¬ registry.Ends start j resolution) ∧
        ∀ fuel, k < fuel → registry.walk fuel [] start = registry.resolve start) ∧
      ∀ site, registry.resolve start = .origin site → registry.resolve site = .origin site := by
  constructor
  · obtain ⟨k, hk, hends, hfirst⟩ := registry.exists_ends_resolve start
    exact ⟨k, hk, hends, hfirst, fun fuel hfuel => walk_eq_of_ends hfuel hfirst hends⟩
  · intro site hresolve
    exact resolve_of_step_eq_stop (stops_of_resolve_eq_origin hresolve).step_eq

end ExportRegistry

end ModuleLinker
