import ModuleLinker.Proofs.Naming.Ledger

/-!
# Names of bindings

The first two rounds of naming give names to what the members' code binds and to
the exports for which it binds nothing.  Each round is a recursion that takes one
name at a time; the statements below say which ledger it writes, and that every
export that does not forward gets the name of its owner.
-/

namespace ModuleLinker

namespace Member

/-- The ledger of the local names of a member. -/
def localLedger (member : Member) : Ledger :=
  member.localNames.entries.map fun entry => (.topLevel member.module entry.1, entry.2)

theorem names_localLedger (member : Member) :
    member.localLedger.names = member.localNames.values := by
  rw [localLedger, Ledger.names, List.map_map]
  rfl

theorem owners_localLedger (member : Member) :
    member.localLedger.owners = member.localNames.keys.map (.topLevel member.module) := by
  rw [localLedger, Ledger.owners, List.map_map, OrderedMap.keys, List.map_map]
  rfl

theorem nodup_owners_localLedger (member : Member) : member.localLedger.owners.Nodup := by
  rw [owners_localLedger]
  exact member.localNames.nodup_keys.map fun _ _ heq => (Owner.topLevel.inj heq).2

theorem mem_localLedger_iff {member : Member} {module : ModuleId} {localName name : String} :
    (.topLevel module localName, name) ∈ member.localLedger ↔
      member.module = module ∧ member.localNames.find? localName = some name := by
  rw [OrderedMap.find?_eq_some_iff, localLedger, List.mem_map]
  constructor
  · rintro ⟨⟨localName, name⟩, hentry, heq⟩
    obtain ⟨howner, rfl⟩ := Prod.mk.inj heq
    obtain ⟨rfl, rfl⟩ := Owner.topLevel.inj howner
    exact ⟨rfl, hentry⟩
  · rintro ⟨rfl, hentry⟩
    exact ⟨(localName, name), hentry, rfl⟩

end Member

namespace Naming

/-! ## The first round -/

/-- Naming local names appends entries, and what it takes are their values. -/
theorem exists_entries_nameLocals (scope : Scope) (names : OrderedMap String String)
    (locals : List String) :
    ∃ fresh : List (String × String),
      (nameLocals scope names locals).2.entries = names.entries ++ fresh ∧
        scope.Grows (fresh.map Prod.snd) (nameLocals scope names locals).1 := by
  induction locals generalizing scope names with
  | nil => exact ⟨[], (List.append_nil _).symm, Scope.Grows.refl scope⟩
  | cons localName rest ih =>
    rw [nameLocals]
    split
    · exact ih scope names
    · rename_i habsent
      rw [OrderedMap.contains_iff] at habsent
      obtain ⟨fresh, hentries, hgrows⟩ := ih (scope.allocate localName).2
        (names.insert localName (scope.allocate localName).1)
      refine ⟨(localName, (scope.allocate localName).1) :: fresh, ?_, ?_⟩
      · rw [hentries, OrderedMap.entries_insert_of_notMem habsent, List.append_assoc,
          List.singleton_append]
      · exact (Scope.Grows.allocate scope localName).trans hgrows

theorem mem_keys_nameLocals (scope : Scope) (names : OrderedMap String String)
    (locals : List String) (localName : String) :
    localName ∈ (nameLocals scope names locals).2.keys ↔
      localName ∈ names.keys ∨ localName ∈ locals := by
  induction locals generalizing scope names with
  | nil => simp [nameLocals]
  | cons first rest ih =>
    rw [nameLocals]
    split
    · rename_i hpresent
      rw [OrderedMap.contains_iff] at hpresent
      rw [ih, List.mem_cons]
      constructor
      · exact fun h => h.imp id Or.inr
      · rintro (h | rfl | h)
        · exact Or.inl h
        · exact Or.inl hpresent
        · exact Or.inr h
    · rw [ih, OrderedMap.mem_keys_insert, List.mem_cons, or_assoc]

/-- A member as the first round leaves it. -/
structure Entered (facts : BuildFacts) (member : Member) : Prop where
  mem_keys_iff : ∀ localName, localName ∈ member.localNames.keys ↔
    localName ∈ (facts.codeOf member.module).topLevelNames
  imports_eq : member.imports = (facts.codeOf member.module).imports

/-- The first round takes the local names of the members, member by member. -/
theorem grows_enterMembers (facts : BuildFacts) (index : Nat) (scope : Scope)
    (modules : List ModuleId) :
    scope.Grows (Ledger.names ((enterMembers facts index scope modules).2.flatMap
      Member.localLedger)) (enterMembers facts index scope modules).1 := by
  induction modules generalizing index scope with
  | nil => exact Scope.Grows.refl scope
  | cons module rest ih =>
    obtain ⟨fresh, hentries, hgrows⟩ :=
      exists_entries_nameLocals scope ∅ (facts.codeOf module).topLevelNames
    rw [OrderedMap.entries_empty, List.nil_append] at hentries
    rw [enterMembers, List.flatMap_cons, Ledger.names_append, Member.names_localLedger,
      OrderedMap.values, hentries]
    exact hgrows.trans (ih (index + 1) _)

theorem map_module_enterMembers (facts : BuildFacts) (index : Nat) (scope : Scope)
    (modules : List ModuleId) :
    (enterMembers facts index scope modules).2.map Member.module = modules := by
  induction modules generalizing index scope with
  | nil => rfl
  | cons module rest ih => rw [enterMembers, List.map_cons, ih]

theorem entered_of_mem_enterMembers {facts : BuildFacts} {index : Nat} {scope : Scope}
    {modules : List ModuleId} {member : Member}
    (h : member ∈ (enterMembers facts index scope modules).2) : Entered facts member := by
  induction modules generalizing index scope with
  | nil => exact absurd h List.not_mem_nil
  | cons module rest ih =>
    rw [enterMembers] at h
    rcases List.mem_cons.mp h with rfl | h
    · refine ⟨fun localName => ?_, rfl⟩
      rw [mem_keys_nameLocals, OrderedMap.keys_empty]
      exact ⟨fun hmem => hmem.elim (fun hnil => absurd hnil List.not_mem_nil) id, Or.inr⟩
    · exact ih h

/-! ## The second round -/

/-- Whether an export needs a name of its own: it does not forward, and its
module's code binds nothing for it. -/
def needsName (facts : BuildFacts) (module : ModuleId) (e : Export) : Bool :=
  !e.isForwarding &&
    decide ((facts.codeOf module).backingOf e.name ∉ (facts.codeOf module).topLevelNames)

/-- The owners of the names that exports of a module need. -/
def unbackedOwners (facts : BuildFacts) (module : ModuleId) (exports : List Export) :
    List Owner :=
  (exports.filter (needsName facts module)).map fun e => .unbacked module e.name

theorem unbackedOwners_cons (facts : BuildFacts) (module : ModuleId) (e : Export)
    (rest : List Export) :
    unbackedOwners facts module (e :: rest) =
      unbackedOwners facts module [e] ++ unbackedOwners facts module rest := by
  rw [unbackedOwners, unbackedOwners, unbackedOwners, ← List.map_append, ← List.filter_append,
    List.singleton_append]

theorem unbackedOwners_of_isForwarding (facts : BuildFacts) (module : ModuleId) {e : Export}
    (h : e.isForwarding = true) : unbackedOwners facts module [e] = [] := by
  simp [unbackedOwners, needsName, h]

theorem nodup_unbackedOwners (facts : BuildFacts) (module : ModuleId) {exports : List Export}
    (h : (exports.map Export.name).Nodup) : (unbackedOwners facts module exports).Nodup := by
  have hnames : ((exports.filter (needsName facts module)).map Export.name).Nodup :=
    h.sublist (List.filter_sublist.map Export.name)
  have howners := hnames.map (f := Owner.unbacked module) fun _ _ heq => (Owner.unbacked.inj heq).2
  rw [List.map_map] at howners
  exact howners

/-- An own export is bound to the name of its owner, and only an export that needs
one takes a name. -/
theorem exists_ownReference {facts : BuildFacts} {member : Member}
    (hentered : Entered facts member) (scope : Scope) {e : Export}
    (hown : e.isForwarding = false) :
    ∃ (ledger : Ledger) (name : String),
      scope.Grows ledger.names
          (ownReference (facts.codeOf member.module) member.localNames scope e).1 ∧
        ledger.owners = unbackedOwners facts member.module [e] ∧
        (ownReference (facts.codeOf member.module) member.localNames scope e).2 =
          .identifier name ∧
        (ownerOf facts ⟨member.module, e.name⟩, name) ∈ member.localLedger ++ ledger := by
  rw [ownReference]
  split
  · rename_i name hname
    have hmem : (facts.codeOf member.module).backingOf e.name ∈
        (facts.codeOf member.module).topLevelNames :=
      (hentered.mem_keys_iff _).mp (OrderedMap.mem_keys_iff_exists_find?.mpr ⟨name, hname⟩)
    refine ⟨[], name, Scope.Grows.refl scope, ?_, rfl, ?_⟩
    · simp [unbackedOwners, needsName, hmem]
    · rw [ownerOf, if_pos hmem, List.append_nil]
      exact Member.mem_localLedger_iff.mpr ⟨rfl, hname⟩
  · rename_i hnone
    have hmem : (facts.codeOf member.module).backingOf e.name ∉
        (facts.codeOf member.module).topLevelNames := fun h =>
      OrderedMap.find?_eq_none_iff.mp hnone ((hentered.mem_keys_iff _).mpr h)
    refine ⟨[(.unbacked member.module e.name, (scope.allocate e.name).1)],
      (scope.allocate e.name).1, Scope.Grows.allocate scope e.name, ?_, rfl, ?_⟩
    · simp [unbackedOwners, needsName, hown, hmem, Ledger.owners]
    · rw [ownerOf, if_neg hmem]
      exact List.mem_append_right _ List.mem_cons_self

/-- What the second round makes of the exports of one member: those that do not
forward are bound to the names of their owners, and nothing else changes. -/
structure BindsOwn (facts : BuildFacts) (member : Member) (exports : List Export)
    (before after : ExportMap) (ledger : Ledger) : Prop where
  owners_eq : ledger.owners = unbackedOwners facts member.module exports
  binds : ∀ e ∈ exports, e.isForwarding = false →
    ∃ name, after.find? e.name = some (.identifier name) ∧
      (ownerOf facts ⟨member.module, e.name⟩, name) ∈ member.localLedger ++ ledger
  keeps : ∀ key, (∀ e ∈ exports, e.isForwarding = false → e.name ≠ key) →
    after.find? key = before.find? key

theorem exists_bindOwn {facts : BuildFacts} {member : Member} (hentered : Entered facts member)
    (scope : Scope) (before : ExportMap) {exports : List Export}
    (hnodup : (exports.map Export.name).Nodup) :
    ∃ ledger : Ledger,
      scope.Grows ledger.names
          (bindOwn (facts.codeOf member.module) member.localNames scope before exports).1 ∧
        BindsOwn facts member exports before
          (bindOwn (facts.codeOf member.module) member.localNames scope before exports).2
          ledger := by
  induction exports generalizing scope before with
  | nil =>
    exact ⟨[], Scope.Grows.refl scope, rfl, fun _ h => absurd h List.not_mem_nil, fun _ _ => rfl⟩
  | cons e rest ih =>
    rw [List.map_cons, List.nodup_cons] at hnodup
    rw [bindOwn]
    split
    · rename_i hforwards
      obtain ⟨ledger, hgrows, hrest⟩ := ih scope before hnodup.2
      refine ⟨ledger, hgrows, ?_, ?_, ?_⟩
      · rw [unbackedOwners_cons, unbackedOwners_of_isForwarding facts _ hforwards,
          List.nil_append, hrest.owners_eq]
      · intro other hother hown
        rcases List.mem_cons.mp hother with rfl | hother
        · exact absurd hforwards (by simp [hown])
        · exact hrest.binds other hother hown
      · exact fun key hkey =>
          hrest.keeps key fun other hother => hkey other (List.mem_cons_of_mem _ hother)
    · rename_i hforwards
      rw [Bool.not_eq_true] at hforwards
      obtain ⟨first, name, hfirst, howners, hreference, hname⟩ :=
        exists_ownReference hentered scope hforwards
      obtain ⟨later, hlater, hrest⟩ := ih
        (ownReference (facts.codeOf member.module) member.localNames scope e).1
        (before.insert e.name
          (ownReference (facts.codeOf member.module) member.localNames scope e).2) hnodup.2
      refine ⟨first ++ later, ?_, ?_, ?_, ?_⟩
      · rw [Ledger.names_append]
        exact hfirst.trans hlater
      · rw [Ledger.owners_append, howners, hrest.owners_eq, ← unbackedOwners_cons]
      · intro other hother hown
        rcases List.mem_cons.mp hother with rfl | hother
        · -- No later export has the same name, so this entry stays as it is.
          have hkeeps := hrest.keeps other.name fun later hlater _ heq =>
            hnodup.1 (heq ▸ List.mem_map_of_mem (f := Export.name) hlater)
          rw [OrderedMap.find?_insert_self] at hkeeps
          refine ⟨name, hkeeps.trans (congrArg some hreference), ?_⟩
          rw [← List.append_assoc]
          exact List.mem_append_left _ hname
        · obtain ⟨name, hfind, hmem⟩ := hrest.binds other hother hown
          refine ⟨name, hfind, ?_⟩
          cases List.mem_append.mp hmem with
          | inl hmem => exact List.mem_append_left _ hmem
          | inr hmem => exact List.mem_append_right _ (List.mem_append_right _ hmem)
      · intro key hkey
        rw [hrest.keeps key fun other hother => hkey other (List.mem_cons_of_mem _ hother),
          OrderedMap.find?_insert, if_neg (hkey e List.mem_cons_self hforwards)]

/-- The exports that can be linked are listed in the table of their module, and are
provided and used. -/
theorem mem_linkable_iff {facts : BuildFacts} {module : ModuleId} {e : Export} :
    e ∈ linkable facts module ↔
      ∃ table, facts.registry.table? module = some table ∧ e ∈ table.declared ∧
        e.provision = .provided ∧ (e.accessName facts.runtime).isSome = true := by
  rw [linkable]
  split
  · rename_i hnone
    simp [hnone]
  · rename_i table htable
    simp [htable]

/-- An export that can be linked is the one that the registry lists under its name. -/
theorem export?_of_mem_linkable {facts : BuildFacts} {module : ModuleId} {e : Export}
    (he : e ∈ linkable facts module) : facts.registry.export? ⟨module, e.name⟩ = some e := by
  obtain ⟨table, htable, hdeclared, -, -⟩ := mem_linkable_iff.mp he
  rw [ExportRegistry.export?, htable, Option.bind_some]
  exact ExportTable.find?_of_mem_declared hdeclared

theorem mem_linkable_of_export? {facts : BuildFacts} {site : ExportSite} {e : Export}
    (he : facts.registry.export? site = some e) (hprovided : e.provision = .provided)
    (hused : (e.accessName facts.runtime).isSome = true) : e ∈ linkable facts site.module := by
  obtain ⟨table, htable, hfind⟩ := Option.bind_eq_some_iff.mp he
  exact mem_linkable_iff.mpr
    ⟨table, htable, OrderedMap.mem_values_of_find? hfind, hprovided, hused⟩

theorem nodup_linkable_names (facts : BuildFacts) (module : ModuleId) :
    ((linkable facts module).map Export.name).Nodup := by
  rw [linkable]
  split
  · exact List.nodup_nil
  · rename_i table _
    exact table.nodup_declared_names.sublist (List.filter_sublist.map Export.name)

/-- A map of the own exports of a module: each of them that can be linked is bound
to the name of its owner. -/
structure OwnsExports (facts : BuildFacts) (ledger : Ledger) (module : ModuleId)
    (map : ExportMap) : Prop where
  binds : ∀ e ∈ linkable facts module, e.isForwarding = false →
    ∃ name, map.find? e.name = some (.identifier name) ∧
      (ownerOf facts ⟨module, e.name⟩, name) ∈ ledger
  only : ∀ key reference, map.find? key = some reference →
    ∃ e ∈ linkable facts module, e.isForwarding = false ∧ e.name = key

theorem OwnsExports.mono {facts : BuildFacts} {ledger larger : Ledger} {module : ModuleId}
    {map : ExportMap} (h : OwnsExports facts ledger module map) (hsubset : ledger ⊆ larger) :
    OwnsExports facts larger module map where
  binds e he hown := by
    obtain ⟨name, hfind, hmem⟩ := h.binds e he hown
    exact ⟨name, hfind, hsubset hmem⟩
  only := h.only

/-- What an own export is bound to is written for its owner. -/
theorem OwnsExports.writes {facts : BuildFacts} {ledger : Ledger} {module : ModuleId}
    {map : ExportMap} (h : OwnsExports facts ledger module map) {key : String}
    {reference : Reference} (hfind : map.find? key = some reference) :
    ledger.Writes (.binding (ownerOf facts ⟨module, key⟩)) reference := by
  obtain ⟨e, he, hown, rfl⟩ := h.only key reference hfind
  obtain ⟨name, hname, hmem⟩ := h.binds e he hown
  rw [hfind, Option.some.injEq] at hname
  rw [hname]
  exact .binding hmem

theorem BindsOwn.ownsExports {facts : BuildFacts} {member : Member} {after : ExportMap}
    {ledger : Ledger} (h : BindsOwn facts member (linkable facts member.module) ∅ after ledger) :
    OwnsExports facts (member.localLedger ++ ledger) member.module after where
  binds := h.binds
  only key reference hfind := by
    by_contra hnone
    have hkeeps := h.keeps key fun e he hown heq => hnone ⟨e, he, hown, heq⟩
    rw [hfind, OrderedMap.find?_empty] at hkeeps
    exact absurd hkeeps (by simp)

/-- The second round takes a name for each export that needs one, member by member,
and binds the own exports of every member. -/
theorem exists_bindMembers {facts : BuildFacts} {members : List Member}
    (hentered : ∀ member ∈ members, Entered facts member) (scope : Scope) :
    ∃ ledger : Ledger,
      scope.Grows ledger.names (bindMembers facts scope members).1 ∧
        ledger.owners = members.flatMap (fun member =>
          unbackedOwners facts member.module (linkable facts member.module)) ∧
        (bindMembers facts scope members).2.map Prod.fst = members.map Member.module ∧
        ∀ entry ∈ (bindMembers facts scope members).2,
          OwnsExports facts (members.flatMap Member.localLedger ++ ledger) entry.1 entry.2 := by
  induction members generalizing scope with
  | nil => exact ⟨[], Scope.Grows.refl scope, rfl, rfl, fun _ h => absurd h List.not_mem_nil⟩
  | cons member rest ih =>
    obtain ⟨first, hfirst, hown⟩ := exists_bindOwn (hentered member List.mem_cons_self) scope ∅
      (nodup_linkable_names facts member.module)
    obtain ⟨later, hlater, howners, hmodules, hrest⟩ :=
      ih (fun other h => hentered other (List.mem_cons_of_mem _ h))
        (bindOwn (facts.codeOf member.module) member.localNames scope ∅
          (linkable facts member.module)).1
    refine ⟨first ++ later, ?_, ?_, ?_, ?_⟩
    · rw [Ledger.names_append]
      exact hfirst.trans hlater
    · rw [Ledger.owners_append, hown.owners_eq, howners, List.flatMap_cons]
    · rw [bindMembers, List.map_cons, List.map_cons, hmodules]
    · intro entry hentry
      rw [List.flatMap_cons]
      rcases List.mem_cons.mp hentry with rfl | hentry
      · apply hown.ownsExports.mono
        intro named hnamed
        simp only [List.mem_append] at hnamed ⊢
        rcases hnamed with h | h <;> simp [h]
      · apply (hrest entry hentry).mono
        intro named hnamed
        simp only [List.mem_append] at hnamed ⊢
        rcases hnamed with h | h <;> simp [h]

end Naming

end ModuleLinker
