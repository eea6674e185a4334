import ModuleLinker.Concatenation.Fingerprint
import ModuleLinker.Proofs.Concatenation.Denotation
import ModuleLinker.Proofs.Concatenation.Tapping

/-!
# What a fingerprint identifies

The bytes that are digested frame each member between its number, which has a fixed
width, and a byte that no text contains.  So they tell members apart, whatever their
exports are called.  Within a member the fields of an entry are only ended by a zero
character, and an export name may contain one: the bytes determine the running text of
the entries, and they determine the entries where no field contains a zero.
-/

namespace ModuleLinker

namespace Fingerprint

/-- What stands in front of a mark can be told from what follows if it does not contain
the mark. -/
theorem append_mark_inj {α : Type} {mark : α} {first second rest others : List α}
    (hfirst : mark ∉ first) (hsecond : mark ∉ second)
    (h : first ++ mark :: rest = second ++ mark :: others) : first = second ∧ rest = others := by
  rcases List.append_eq_append_iff.mp h with ⟨middle, rfl, heq⟩ | ⟨middle, rfl, heq⟩
  · cases middle with
    | nil => exact ⟨(List.append_nil first).symm, (List.cons.inj heq).2⟩
    | cons c middle =>
      obtain ⟨rfl, -⟩ := List.cons.inj heq
      exact absurd (List.mem_append_right first List.mem_cons_self) hsecond
  · cases middle with
    | nil => exact ⟨List.append_nil second, (List.cons.inj heq).2.symm⟩
    | cons c middle =>
      obtain ⟨rfl, -⟩ := List.cons.inj heq
      exact absurd (List.mem_append_right second List.mem_cons_self) hfirst

/-! ## Bytes of texts -/

theorem textBytes_eq (text : String) :
    textBytes text = text.toList.flatMap String.utf8EncodeChar := by
  rw [textBytes, String.toUTF8, ← String.utf8Encode_toList, List.utf8Encode,
    List.data_toByteArray]

/-- Different texts have different bytes. -/
theorem flatMap_utf8EncodeChar_inj {first second : List Char}
    (h : first.flatMap String.utf8EncodeChar = second.flatMap String.utf8EncodeChar) :
    first = second := by
  have hbytes : (String.ofList first).toByteArray = (String.ofList second).toByteArray := by
    rw [String.toByteArray_ofList, String.toByteArray_ofList, List.utf8Encode, List.utf8Encode, h]
  exact String.ofList_inj.mp (String.toByteArray_inj.mp hbytes)

/-- The leading bytes of UTF-8 stay below the byte that ends a member. -/
theorem endByte_notMem_utf8EncodeChar (c : Char) : 0xff ∉ String.utf8EncodeChar c := by
  have hne {n : Nat} (h : n < 255) : (0xff : UInt8) ≠ UInt8.ofNat n := by
    intro heq
    have hvalue : 255 = n % 256 := (congrArg UInt8.toNat heq).trans UInt8.toNat_ofNat'
    omega
  rw [String.utf8EncodeChar]
  split
  · simp only [List.mem_singleton]
    exact hne (by omega)
  · split
    · simp only [List.mem_cons, List.not_mem_nil, or_false, not_or]
      exact ⟨hne (by omega), hne (by omega)⟩
    · split
      · simp only [List.mem_cons, List.not_mem_nil, or_false, not_or]
        exact ⟨hne (by omega), hne (by omega), hne (by omega)⟩
      · simp only [List.mem_cons, List.not_mem_nil, or_false, not_or]
        exact ⟨hne (by omega), hne (by omega), hne (by omega), hne (by omega)⟩

theorem endByte_notMem_flatMap_utf8EncodeChar (cs : List Char) :
    0xff ∉ cs.flatMap String.utf8EncodeChar := by
  intro hmem
  obtain ⟨c, -, hc⟩ := List.mem_flatMap.mp hmem
  exact endByte_notMem_utf8EncodeChar c hc

/-! ## Running texts -/

/-- The character that tells the kind of a reference. -/
def kindMark : Reference → Char
  | .identifier _ => '\x01'
  | .expression _ => '\x00'

/-- The text of an entry: its fields, with their ends and the kind between them. -/
def entryChars (entry : String × Reference) : List Char :=
  entry.1.toList ++ '\x00' :: kindMark entry.2 :: (entry.2.source.toList ++ ['\x00'])

/-- The running text of the entries of an export map. -/
def mapChars (map : ExportMap) : List Char := map.entries.flatMap entryChars

theorem entryBytes_eq (entry : String × Reference) :
    entryBytes entry = (entryChars entry).flatMap String.utf8EncodeChar := by
  obtain ⟨name, reference⟩ := entry
  rw [entryBytes, textBytes_eq, textBytes_eq, entryChars, List.flatMap_append, List.flatMap_cons,
    List.flatMap_cons, List.flatMap_append]
  cases reference with
  | identifier text => rfl
  | expression text => rfl

theorem flatMap_entryBytes (map : ExportMap) :
    map.entries.flatMap entryBytes = (mapChars map).flatMap String.utf8EncodeChar := by
  rw [mapChars, List.flatMap_assoc]
  exact List.flatMap_congr fun entry _ => entryBytes_eq entry

/-- Neither the name nor the text of an entry contains a zero character. -/
def ZeroFree (entry : String × Reference) : Prop :=
  '\x00' ∉ entry.1.toList ∧ '\x00' ∉ entry.2.source.toList

instance (entry : String × Reference) : Decidable (ZeroFree entry) :=
  inferInstanceAs (Decidable (_ ∧ _))

theorem reference_eq_of_kindMark_eq {first second : Reference}
    (hkind : kindMark first = kindMark second) (hsource : first.source = second.source) :
    first = second := by
  cases first with
  | identifier name =>
    cases second with
    | identifier other => exact congrArg Reference.identifier hsource
    | expression other => exact absurd hkind (show ('\x01' : Char) ≠ '\x00' by decide)
  | expression text =>
    cases second with
    | identifier other => exact absurd hkind (show ('\x00' : Char) ≠ '\x01' by decide)
    | expression other => exact congrArg Reference.expression hsource

theorem entryChars_append_inj {first second : String × Reference} {rest others : List Char}
    (hfirst : ZeroFree first) (hsecond : ZeroFree second)
    (h : entryChars first ++ rest = entryChars second ++ others) :
    first = second ∧ rest = others := by
  rw [entryChars, entryChars, List.append_assoc, List.append_assoc, List.cons_append,
    List.cons_append, List.cons_append, List.cons_append, List.append_assoc,
    List.append_assoc] at h
  obtain ⟨hname, htail⟩ := append_mark_inj hfirst.1 hsecond.1 h
  obtain ⟨hkind, htext⟩ := List.cons.inj htail
  obtain ⟨hsource, hrest⟩ := append_mark_inj hfirst.2 hsecond.2 htext
  have hreference := reference_eq_of_kindMark_eq hkind (String.toList_inj.mp hsource)
  exact ⟨Prod.ext (String.toList_inj.mp hname) hreference, hrest⟩

/-- Entries without zeros can be read off their running text. -/
theorem flatMap_entryChars_inj {firsts seconds : List (String × Reference)}
    (hfirst : ∀ entry ∈ firsts, ZeroFree entry) (hsecond : ∀ entry ∈ seconds, ZeroFree entry)
    (h : firsts.flatMap entryChars = seconds.flatMap entryChars) : firsts = seconds := by
  have hne (entry : String × Reference) (rest : List Char) : [] ≠ entryChars entry ++ rest := by
    rw [entryChars, List.append_assoc]
    exact (List.append_ne_nil_of_right_ne_nil _ (List.cons_ne_nil _ _)).symm
  induction firsts generalizing seconds with
  | nil =>
    cases seconds with
    | nil => rfl
    | cons second others => exact absurd h (hne second _)
  | cons first rest ih =>
    cases seconds with
    | nil => exact absurd h.symm (hne first _)
    | cons second others =>
      rw [List.forall_mem_cons] at hfirst hsecond
      obtain ⟨rfl, htail⟩ := entryChars_append_inj hfirst.1 hsecond.1 h
      rw [ih hfirst.2 hsecond.2 htail]

/-! ## Members -/

theorem moduleBytes_injective {first second : ModuleId} (h : moduleBytes first = moduleBytes second) :
    first = second := by
  have hshift {n m : Nat} (heq : n.toUInt8 = m.toUInt8) : n % 256 = m % 256 :=
    (UInt8.toNat_ofNat' (n := n)).symm.trans ((congrArg UInt8.toNat heq).trans UInt8.toNat_ofNat')
  simp only [moduleBytes, List.map_cons, List.map_nil, List.cons.injEq, and_true] at h
  obtain ⟨h0, h1, h2, h3⟩ := h
  have hn := first.number.toNat_lt
  have hm := second.number.toNat_lt
  have hlow := hshift h0
  have hsecond := hshift h1
  have hthird := hshift h2
  have hhigh := hshift h3
  simp only [Nat.shiftRight_eq_div_pow] at hlow hsecond hthird hhigh
  have hnumber : first.number.toNat = second.number.toNat := by omega
  cases first
  cases second
  exact congrArg ModuleId.mk (UInt32.toNat_inj.mp hnumber)

/-- A member can be told from what follows, up to the running text of its entries. -/
theorem memberBytes_append_inj {first second : ModuleId} {map other : ExportMap}
    {rest others : List UInt8}
    (h : memberBytes first map ++ rest = memberBytes second other ++ others) :
    (first = second ∧ mapChars map = mapChars other) ∧ rest = others := by
  rw [memberBytes, memberBytes, flatMap_entryBytes, flatMap_entryBytes] at h
  simp only [List.append_assoc, List.cons_append, List.nil_append] at h
  obtain ⟨hmodule, htail⟩ := List.append_inj h rfl
  obtain ⟨htext, hrest⟩ := append_mark_inj (endByte_notMem_flatMap_utf8EncodeChar _)
    (endByte_notMem_flatMap_utf8EncodeChar _) htail
  exact ⟨⟨moduleBytes_injective hmodule, flatMap_utf8EncodeChar_inj htext⟩, hrest⟩

/-- The members of two lists can be told apart by their bytes, up to the running texts of
their entries. -/
theorem flatMap_memberBytes_inj {firsts seconds : List (ModuleId × ExportMap)}
    (h : (firsts.flatMap fun member => memberBytes member.1 member.2) =
      seconds.flatMap fun member => memberBytes member.1 member.2) :
    (firsts.map fun member => (member.1, mapChars member.2)) =
      seconds.map fun member => (member.1, mapChars member.2) := by
  have hne (member : ModuleId × ExportMap) (rest : List UInt8) :
      [] ≠ memberBytes member.1 member.2 ++ rest := by
    rw [memberBytes, List.append_assoc]
    exact (List.append_ne_nil_of_right_ne_nil _ (List.cons_ne_nil _ _)).symm
  induction firsts generalizing seconds with
  | nil =>
    cases seconds with
    | nil => rfl
    | cons second others => exact absurd h (hne second _)
  | cons first rest ih =>
    cases seconds with
    | nil => exact absurd h.symm (hne first _)
    | cons second others =>
      rw [List.flatMap_cons, List.flatMap_cons] at h
      obtain ⟨⟨hmodule, htext⟩, htail⟩ := memberBytes_append_inj h
      rw [List.map_cons, List.map_cons, ih htail, hmodule, htext]

end Fingerprint

namespace Concatenation

/-- The members of a concatenation in order, with their export maps. -/
def exportMaps (unit : Concatenation) : List (ModuleId × ExportMap) :=
  unit.members.entries.map fun entry => (entry.1, entry.2.exportMap)

/-- The members of a concatenation in order, with the running texts of their export
maps. -/
def exportTexts (unit : Concatenation) : List (ModuleId × List Char) :=
  unit.exportMaps.map fun member => (member.1, Fingerprint.mapChars member.2)

/-- No export name of a member and nothing that an export stands for contains a zero
character. -/
def ZeroFree (unit : Concatenation) : Prop :=
  ∀ member ∈ unit.exportMaps, ∀ entry ∈ member.2.entries, Fingerprint.ZeroFree entry

instance (unit : Concatenation) : Decidable unit.ZeroFree :=
  inferInstanceAs (Decidable (∀ member ∈ unit.exportMaps, ∀ entry ∈ member.2.entries, _))

/-- Identifiers and property accesses contain no zeros, so a concatenation that only
rebinding has seen is free of them if the names of its exports are. -/
theorem zeroFree_of_build {build : Build} {root : ModuleId} {modules : List ModuleId}
    {unit : Concatenation} (htaps : ∀ tap ∈ build.extensions.mapTaps, tap = Rebinding.tap)
    (hbuild : (Concatenation.build build root modules).value = .ok unit)
    (hnames : ∀ module ∈ unit.modules, ∀ e ∈ Naming.linkable build.toBuildFacts module,
      '\x00' ∉ e.name.toList) : unit.ZeroFree := by
  obtain ⟨ledger, haccount⟩ := exists_account_of_build htaps hbuild
  rintro pair hpair ⟨name, reference⟩ hentry
  obtain ⟨⟨module, member⟩, hmember, rfl⟩ := List.mem_map.mp hpair
  have hmap : unit.exportMap? module = some member.exportMap := by
    rw [exportMap?, OrderedMap.find?_eq_some_iff.mpr hmember, Option.map_some]
  have hkey : name ∈ member.exportMap.keys := List.mem_map_of_mem (f := Prod.fst) hentry
  obtain ⟨e, he, hname, -⟩ := (mem_keys_exportMap_iff_of_build hbuild hmap).mp hkey
  have hreference : unit.reference? ⟨module, name⟩ = some reference := by
    rw [reference?, hmap, Option.bind_some]
    exact OrderedMap.find?_eq_some_iff.mpr hentry
  obtain ⟨entity, -, hwrites⟩ := exists_entity_of_reference htaps hbuild haccount hreference
  refine ⟨hname ▸ hnames module (List.mem_map_of_mem (f := Prod.fst) hmember) e he, ?_⟩
  cases hwrites with
  | binding h => exact Identifier.zero_notMem (haccount.sound.isIdentifier_of_mem h)
  | property h access =>
    rw [Reference.source, String.toList_append, List.mem_append, not_or]
    exact ⟨Identifier.zero_notMem (haccount.sound.isIdentifier_of_mem h),
      Quoted.zero_notMem_property access⟩

theorem fingerprintBytes_eq (unit : Concatenation) :
    unit.fingerprintBytes =
      unit.exportMaps.flatMap fun member => Fingerprint.memberBytes member.1 member.2 := by
  rw [exportMaps, List.flatMap_map]
  rfl

/-- Concatenations with the same export maps have the same fingerprint. -/
theorem fingerprint_eq_of_exportMaps_eq {first second : Concatenation}
    (h : first.exportMaps = second.exportMaps) : first.fingerprint = second.fingerprint := by
  rw [fingerprint, fingerprint, fingerprintBytes_eq, fingerprintBytes_eq, h]

theorem exportMap?_eq_lookup (unit : Concatenation) (module : ModuleId) :
    unit.exportMap? module = OrderedMap.lookup module unit.exportMaps :=
  (OrderedMap.lookup_map_snd Member.exportMap module unit.members.entries).symm

/-- What the used names of a root stand for is read off the export maps. -/
theorem definitions_eq_of_exportMaps_eq {first second : Concatenation}
    (hroot : first.root = second.root) (hruntime : first.runtime = second.runtime)
    (h : first.exportMaps = second.exportMaps) (registry : ExportRegistry) :
    first.definitions registry = second.definitions registry := by
  rw [definitions, definitions, exportMap?_eq_lookup, exportMap?_eq_lookup, h, hroot, hruntime]

theorem fingerprintBytes_eq_flatMap_exportTexts (unit : Concatenation) :
    unit.fingerprintBytes = unit.exportTexts.flatMap fun member =>
      Fingerprint.moduleBytes member.1 ++ member.2.flatMap String.utf8EncodeChar ++ [0xff] := by
  rw [fingerprintBytes_eq, exportTexts, List.flatMap_map]
  refine List.flatMap_congr fun member _ => ?_
  rw [Fingerprint.memberBytes, Fingerprint.flatMap_entryBytes]

/-- Export maps without zeros can be read off their running texts. -/
theorem exportMaps_eq_of_exportTexts_eq {first second : Concatenation} (hfirst : first.ZeroFree)
    (hsecond : second.ZeroFree) (h : first.exportTexts = second.exportTexts) :
    first.exportMaps = second.exportMaps := by
  rw [exportTexts, exportTexts] at h
  rw [ZeroFree] at hfirst hsecond
  generalize first.exportMaps = firsts at h hfirst ⊢
  generalize second.exportMaps = seconds at h hsecond ⊢
  induction firsts generalizing seconds with
  | nil => exact (List.map_eq_nil_iff.mp h.symm).symm
  | cons member rest ih =>
    cases seconds with
    | nil => exact absurd h (List.cons_ne_nil _ _)
    | cons other others =>
      rw [List.forall_mem_cons] at hfirst hsecond
      obtain ⟨hhead, htail⟩ := List.cons.inj h
      obtain ⟨hmodule, htext⟩ := Prod.mk.inj hhead
      have hentries := Fingerprint.flatMap_entryChars_inj hfirst.1 hsecond.1 htext
      rw [ih hfirst.2 others htail hsecond.2, Prod.ext hmodule (OrderedMap.ext hentries)]

/-- What the bytes of a fingerprint identify.  Two concatenations have the same bytes
exactly when they have the same members in the same order and, member by member, the
entries of the export maps run to the same text.  Where no export name and nothing that an
export stands for contains a zero character, the export maps themselves are the same. -/
theorem fingerprintBytes_eq_iff (first second : Concatenation) :
    (first.fingerprintBytes = second.fingerprintBytes ↔
        first.exportTexts = second.exportTexts) ∧
      (first.ZeroFree → second.ZeroFree →
        (first.fingerprintBytes = second.fingerprintBytes ↔
          first.exportMaps = second.exportMaps)) := by
  have htexts : first.fingerprintBytes = second.fingerprintBytes ↔
      first.exportTexts = second.exportTexts := by
    constructor
    · intro h
      rw [fingerprintBytes_eq, fingerprintBytes_eq] at h
      exact Fingerprint.flatMap_memberBytes_inj h
    · intro h
      rw [fingerprintBytes_eq_flatMap_exportTexts, fingerprintBytes_eq_flatMap_exportTexts, h]
  refine ⟨htexts, fun hfirst hsecond => ?_⟩
  constructor
  · intro h
    exact exportMaps_eq_of_exportTexts_eq hfirst hsecond (htexts.mp h)
  · intro h
    rw [fingerprintBytes_eq, fingerprintBytes_eq, h]

/-- A build of one module that declares `a` and `b` and exports one binding under each of
the given names: the one that stands behind the name, or the one of the same name. -/
def exportingBuild (exports : List (String × String)) : Build :=
  let registry : Except LinkError ExportRegistry :=
    exports.foldlM (fun registry (e : String × String) =>
      registry.addExport ⟨0⟩ ⟨e.1, .provided, ∅, none, none⟩)
      ((∅ : ExportRegistry).register ⟨0⟩ "./index.js")
  { Build.empty default with
    registry := registry.toOption.getD ∅
    code := (∅ : CodeTable).edit ⟨0⟩ "main" fun code =>
      { code with
        declarations := UniqueList.ofList ["a", "b"]
        backing := OrderedMap.ofList exports } }

/-- Two builds that export the same binding under different names have different bytes. -/
theorem fingerprintBytes_eq_iff_renamed :
    ∃ first second,
      (Concatenation.build (exportingBuild [("x", "a")]) ⟨0⟩ [⟨0⟩]).value = .ok first ∧
      (Concatenation.build (exportingBuild [("y", "a")]) ⟨0⟩ [⟨0⟩]).value = .ok second ∧
      first.ZeroFree ∧ second.ZeroFree ∧ first.fingerprintBytes ≠ second.fingerprintBytes := by
  obtain ⟨first, hfirst, hfirstMaps⟩ := exists_eq_ok_of_map_toOption
    (Concatenation.build (exportingBuild [("x", "a")]) ⟨0⟩ [⟨0⟩]).value exportMaps
    (y := [(⟨0⟩, OrderedMap.ofList [("x", .identifier "a")])]) (by decide)
  obtain ⟨second, hsecond, hsecondMaps⟩ := exists_eq_ok_of_map_toOption
    (Concatenation.build (exportingBuild [("y", "a")]) ⟨0⟩ [⟨0⟩]).value exportMaps
    (y := [(⟨0⟩, OrderedMap.ofList [("y", .identifier "a")])]) (by decide)
  have hfirstFree : first.ZeroFree := by
    rw [ZeroFree, hfirstMaps]
    decide
  have hsecondFree : second.ZeroFree := by
    rw [ZeroFree, hsecondMaps]
    decide
  refine ⟨first, second, hfirst, hsecond, hfirstFree, hsecondFree, ?_⟩
  rw [ne_eq, (fingerprintBytes_eq_iff first second).2 hfirstFree hsecondFree, hfirstMaps,
    hsecondMaps]
  decide

/-- The bytes do not always identify the export maps: an export whose name contains zeros
can run to the same text as two exports without. -/
theorem fingerprintBytes_merge_exports :
    ∃ first second,
      (Concatenation.build (exportingBuild [("a", "a"), ("b", "b")]) ⟨0⟩ [⟨0⟩]).value =
        .ok first ∧
      (Concatenation.build (exportingBuild [("a\x00\x01a\x00b", "b")]) ⟨0⟩ [⟨0⟩]).value =
        .ok second ∧
      first.fingerprintBytes = second.fingerprintBytes ∧
      first.exportMaps ≠ second.exportMaps := by
  obtain ⟨first, hfirst, hfirstMaps⟩ := exists_eq_ok_of_map_toOption
    (Concatenation.build (exportingBuild [("a", "a"), ("b", "b")]) ⟨0⟩ [⟨0⟩]).value exportMaps
    (y := [(⟨0⟩, OrderedMap.ofList [("a", .identifier "a"), ("b", .identifier "b")])])
    (by decide)
  obtain ⟨second, hsecond, hsecondMaps⟩ := exists_eq_ok_of_map_toOption
    (Concatenation.build (exportingBuild [("a\x00\x01a\x00b", "b")]) ⟨0⟩ [⟨0⟩]).value exportMaps
    (y := [(⟨0⟩, OrderedMap.ofList [("a\x00\x01a\x00b", .identifier "b")])]) (by decide)
  have htexts : first.exportTexts = second.exportTexts := by
    rw [exportTexts, exportTexts, hfirstMaps, hsecondMaps]
    decide
  refine ⟨first, second, hfirst, hsecond, ?_, ?_⟩
  · rw [fingerprintBytes_eq_flatMap_exportTexts, fingerprintBytes_eq_flatMap_exportTexts, htexts]
  · rw [hfirstMaps, hsecondMaps]
    decide

end Concatenation

end ModuleLinker
