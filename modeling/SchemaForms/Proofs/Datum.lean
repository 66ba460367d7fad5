import Mathlib.Data.List.Forall2
import SchemaForms.Datum
import SchemaForms.Proofs.Json.RoundTrip

/-!
# The text of a library value

`Datum.plain` replaces every part of a library value by what it stands for in a document: names by
their texts, tuples by arrays, paths by their texts. It is given how a key is spelled. What a value
is written as is what the plain value with qualified keys is written as
(`Datum.write_eq_write_plain`): a member of an enumeration that is a key is written with the name of
its enumeration, and not by its text as it is everywhere else.
-/

namespace SchemaForms

namespace Datum

/-! ## Keys that are texts -/

/-- A text, or a member of an enumeration of texts. -/
inductive TextKey where
  | string (s : String)
  | member (className name : String)

namespace TextKey

/-- The text that a key is. -/
def name : TextKey → String
  | string s => s
  | member _ name => name

/-- The text that a key is displayed as. -/
def qualified : TextKey → String
  | string s => s
  | member className name => memberName className name

end TextKey

/-- The text or the member of an enumeration of texts that a value is. -/
def textKey? : Datum → Option TextKey
  | document (.string s) => some (.string s)
  | form f => some (.member "Form" f.name)
  | scalarType t => some (.member "Type" t.name)
  | kind k => some (.member "InstanceKind" k.name)
  | _ => none

/-- A key as it is spelled. -/
def spelled (spell : TextKey → String) (k : Datum) : String :=
  (k.textKey?.map spell).getD ""

/-- A text key is known by the text that it is, and written as it is displayed. -/
theorem exists_key {k : Datum} (h : k.textKey?.isSome = true) :
    ∃ display, k.key =
      .ok ⟨.text (k.spelled TextKey.name), k.spelled TextKey.qualified, display⟩ := by
  cases k with
  | document v =>
    cases v with
    | string s => exact ⟨_, by rw [key]; rfl⟩
    | _ => cases h
  | form f => exact ⟨_, by rw [key]; rfl⟩
  | scalarType t => exact ⟨_, by rw [key]; rfl⟩
  | kind k => exact ⟨_, by rw [key]; rfl⟩
  | _ => cases h

/-! ## The plain value -/

mutual
/-- The plain value of a library value, with its keys as they are spelled. A key that comes twice
keeps its first place and takes its last value. -/
def plain (spell : TextKey → String) : Datum → Value
  | document v => v
  | form f => .string f.name
  | scalarType t => .string t.name
  | kind k => .string k.name
  | exitCode c => .int c.number
  | path p => .string p.toString
  | schema s => s.toValue
  | violation v => v.toValue
  | report r => r.toValue
  | list items => .array (plainItems spell items)
  | tuple items => .array (plainItems spell items)
  | mapping entries => .object (collectMembers (plainEntries spell entries))
  | set => .null
  | octets _ => .null

/-- The plain values of items. -/
def plainItems (spell : TextKey → String) : List Datum → List Value
  | [] => []
  | item :: rest => plain spell item :: plainItems spell rest

/-- The members that entries stand for, one for each. -/
def plainEntries (spell : TextKey → String) : List (Datum × Datum) → List (String × Value)
  | [] => []
  | (k, d) :: rest => (spelled spell k, plain spell d) :: plainEntries spell rest
end

mutual
/-- The keys of all mappings in a value. -/
def innerKeys : Datum → List Datum
  | list items => innerKeysOfItems items
  | tuple items => innerKeysOfItems items
  | mapping entries => innerKeysOfEntries entries
  | _ => []

/-- The keys of all mappings in the items. -/
def innerKeysOfItems : List Datum → List Datum
  | [] => []
  | item :: rest => innerKeys item ++ innerKeysOfItems rest

/-- The keys of the entries and of all mappings in them. -/
def innerKeysOfEntries : List (Datum × Datum) → List Datum
  | [] => []
  | (k, d) :: rest => k :: (innerKeys d ++ innerKeysOfEntries rest)
end

/-- What can be written: documents, names, paths and objects with a document of their own, and
lists, tuples and mappings of such, where keys are texts of which no two are the same. -/
inductive Printable : Datum → Prop
  | document {v : Value} (hv : v.Proper) : Printable (.document v)
  | form (f : Form) : Printable (.form f)
  | scalarType (t : ScalarType) : Printable (.scalarType t)
  | kind (k : Kind) : Printable (.kind k)
  | exitCode (c : ExitCode) : Printable (.exitCode c)
  | path (p : Path) : Printable (.path p)
  | schema (s : Schema) : Printable (.schema s)
  | violation (v : Violation) : Printable (.violation v)
  | report (r : Report) : Printable (.report r)
  | list {items : List Datum} (h : ∀ item ∈ items, Printable item) : Printable (.list items)
  | tuple {items : List Datum} (h : ∀ item ∈ items, Printable item) : Printable (.tuple items)
  | mapping {entries : List (Datum × Datum)}
      (hkeys : ∀ entry ∈ entries, entry.1.textKey?.isSome = true)
      (hdistinct : (entries.map fun entry => entry.1.spelled TextKey.name).Nodup)
      (h : ∀ entry ∈ entries, Printable entry.2) : Printable (.mapping entries)

variable {d : Datum} {items : List Datum} {entries : List (Datum × Datum)}
  {spell spell' : TextKey → String}

theorem plainItems_eq_map (spell : TextKey → String) (items : List Datum) :
    plainItems spell items = items.map (plain spell) := by
  induction items with
  | nil => rfl
  | cons item rest ih => rw [plainItems, ih, List.map_cons]

theorem plainEntries_eq_map (spell : TextKey → String) (entries : List (Datum × Datum)) :
    plainEntries spell entries =
      entries.map fun entry => (entry.1.spelled spell, entry.2.plain spell) := by
  induction entries with
  | nil => rfl
  | cons entry rest ih => rw [plainEntries, ih, List.map_cons]

/-- Where no two keys are spelled alike, there is one member for each entry. -/
theorem plain_mapping_of_nodup
    (h : (entries.map fun entry => entry.1.spelled spell).Nodup) :
    (mapping entries).plain spell =
      .object (entries.map fun entry => (entry.1.spelled spell, entry.2.plain spell)) := by
  rw [plain, plainEntries_eq_map, collectMembers_of_nodup]
  rw [List.map_map]
  exact h

/-! ## Entries -/

section entries
variable {α : Type} {found keyed : List (Key × α)} {k : Key}

/-- An entry with a new key comes last. -/
theorem bind_of_new (x : α) (h : ∀ entry ∈ found, (entry.1.identity == k.identity) = false) :
    bind k x found = found ++ [(k, x)] := by
  induction found with
  | nil => rfl
  | cons entry rest ih =>
    obtain ⟨hentry, hrest⟩ := List.forall_mem_cons.mp h
    rw [bind, hentry, ih hrest]
    rfl

/-- Entries with different keys stay as they are. -/
theorem foldl_bind (h : (found ++ keyed).Pairwise fun a b =>
      (a.1.identity == b.1.identity) = false) :
    keyed.foldl (fun found entry => bind entry.1 entry.2 found) found = found ++ keyed := by
  induction keyed generalizing found with
  | nil => exact (List.append_nil found).symm
  | cons entry rest ih =>
    have hnew : ∀ e ∈ found, (e.1.identity == entry.1.identity) = false :=
      fun e he => (List.pairwise_append.mp h).2.2 e he entry List.mem_cons_self
    have hassoc : found ++ entry :: rest = found ++ [entry] ++ rest := by simp
    rw [hassoc] at h ⊢
    rw [List.foldl_cons, bind_of_new entry.2 hnew]
    exact ih h

end entries

/-- An entry of the source beside the entry that stands for it. -/
structure Keyed (entry : Datum × Datum) (e : Key × Except DatumFault Value) : Prop where
  identity : e.1.identity = .text (entry.1.spelled TextKey.name)
  text : e.1.text = entry.1.spelled TextKey.qualified
  value : e.2 = entry.2.toValue

theorem exists_toEntries (hkeys : ∀ entry ∈ entries, entry.1.textKey?.isSome = true) :
    ∃ keyed, toEntries entries = .ok keyed ∧ List.Forall₂ Keyed entries keyed := by
  induction entries with
  | nil => exact ⟨[], by rw [toEntries], .nil⟩
  | cons entry rest ih =>
    obtain ⟨hentry, hrest⟩ := List.forall_mem_cons.mp hkeys
    obtain ⟨display, hkey⟩ := exists_key hentry
    obtain ⟨keyed, hkeyed, hall⟩ := ih hrest
    refine ⟨(⟨.text (entry.1.spelled TextKey.name), entry.1.spelled TextKey.qualified, display⟩,
      entry.2.toValue) :: keyed, ?_, .cons ⟨rfl, rfl, rfl⟩ hall⟩
    rw [toEntries, hkey, hkeyed]
    rfl

section keyed
variable {keyed : List (Key × Except DatumFault Value)}

/-- Keys are different if their texts are. -/
theorem pairwise_identity_ne (hkeyed : List.Forall₂ Keyed entries keyed)
    (hdistinct : (entries.map fun entry => entry.1.spelled TextKey.name).Nodup) :
    keyed.Pairwise fun a b => (a.1.identity == b.1.identity) = false := by
  have hidentities : keyed.map (·.1.identity) =
      (entries.map fun entry => entry.1.spelled TextKey.name).map .text := by
    clear hdistinct
    induction hkeyed with
    | nil => rfl
    | cons hentry _ ih => rw [List.map_cons, List.map_cons, List.map_cons, ih, hentry.identity]
  have hne : (keyed.map (·.1.identity)).Pairwise fun a b => (a == b) = false := by
    rw [hidentities, List.pairwise_map]
    exact hdistinct.imp fun h => beq_false_of_ne h
  exact List.pairwise_map.mp hne

/-- Every entry whose value has a document stands for one member. -/
theorem mapM_keyed (hkeyed : List.Forall₂ Keyed entries keyed)
    (hvalues : ∀ entry ∈ entries, entry.2.toValue = .ok (entry.2.plain TextKey.qualified)) :
    (keyed.mapM fun e => e.2 >>= fun v => .ok (e.1.text, v)) =
      .ok (plainEntries TextKey.qualified entries) := by
  induction hkeyed with
  | nil => rfl
  | @cons entry e entries keyed hentry _ ih =>
    obtain ⟨hvalue, hrest⟩ := List.forall_mem_cons.mp hvalues
    have he : e = (⟨.text (entry.1.spelled TextKey.name), entry.1.spelled TextKey.qualified,
        e.1.display⟩, .ok (entry.2.plain TextKey.qualified)) := by
      refine Prod.ext ?_ (hentry.value.trans hvalue)
      rw [← hentry.identity, ← hentry.text]
    rw [List.mapM_cons, ih hrest, he]
    rfl

/-- The members of entries whose keys are different and whose values have documents. -/
theorem mergeEntries_eq (hkeyed : List.Forall₂ Keyed entries keyed)
    (hdistinct : (entries.map fun entry => entry.1.spelled TextKey.name).Nodup)
    (hvalues : ∀ entry ∈ entries, entry.2.toValue = .ok (entry.2.plain TextKey.qualified)) :
    mergeEntries keyed = .ok (collectMembers (plainEntries TextKey.qualified entries)) := by
  have hmerged : keyed.foldl (fun found entry => bind entry.1 entry.2 found) [] = keyed :=
    foldl_bind (pairwise_identity_ne hkeyed hdistinct)
  show ((keyed.foldl (fun found entry => bind entry.1 entry.2 found) []).mapM
    (fun e => e.2 >>= fun v => .ok (e.1.text, v)) >>= fun members =>
      .ok (collectMembers members)) = _
  rw [hmerged, mapM_keyed hkeyed hvalues]
  rfl

end keyed

/-! ## The document of a value -/

theorem toValues_eq (h : ∀ item ∈ items, item.toValue = .ok (item.plain TextKey.qualified)) :
    toValues items = .ok (plainItems TextKey.qualified items) := by
  induction items with
  | nil => rw [toValues, plainItems]
  | cons item rest ih =>
    obtain ⟨hitem, hrest⟩ := List.forall_mem_cons.mp h
    rw [toValues, hitem, ih hrest, plainItems]
    rfl

/-- **The document of a value is the plain value with qualified keys.** -/
theorem toValue_eq_plain (h : d.Printable) : d.toValue = .ok (d.plain TextKey.qualified) := by
  induction h with
  | @list items _ ih =>
    rw [toValue, toValues_eq ih, plain]
    rfl
  | @tuple items _ ih =>
    rw [toValue, toValues_eq ih, plain]
    rfl
  | @mapping entries hkeys hdistinct _ ih =>
    obtain ⟨keyed, hkeyed, hall⟩ := exists_toEntries hkeys
    have hmerge := mergeEntries_eq hall hdistinct ih
    rw [toValue, hkeyed, plain]
    show (mergeEntries keyed >>= _) = _
    rw [hmerge]
    rfl
  | _ => rw [toValue, plain]

/-! ## How keys are spelled -/

theorem mem_innerKeysOfItems {k : Datum} :
    k ∈ innerKeysOfItems items ↔ ∃ item ∈ items, k ∈ item.innerKeys := by
  induction items with
  | nil => simp [innerKeysOfItems]
  | cons item rest ih => simp [innerKeysOfItems, ih]

theorem mem_innerKeysOfEntries {k : Datum} :
    k ∈ innerKeysOfEntries entries ↔ ∃ entry ∈ entries, k = entry.1 ∨ k ∈ entry.2.innerKeys := by
  induction entries with
  | nil => simp [innerKeysOfEntries]
  | cons entry rest ih =>
    rw [innerKeysOfEntries, List.mem_cons, List.mem_append, ih, List.exists_mem_cons_iff, or_assoc]

/-- The plain value depends on how the keys in it are spelled, and on nothing else. -/
theorem plain_congr (hd : d.Printable) (h : ∀ k ∈ d.innerKeys, k.spelled spell = k.spelled spell') :
    d.plain spell = d.plain spell' := by
  induction hd with
  | @list items _ ih =>
    rw [plain, plain, plainItems_eq_map, plainItems_eq_map]
    congr 1
    refine List.map_congr_left fun item hitem => ih item hitem fun k hk => h k ?_
    exact mem_innerKeysOfItems.mpr ⟨item, hitem, hk⟩
  | @tuple items _ ih =>
    rw [plain, plain, plainItems_eq_map, plainItems_eq_map]
    congr 1
    refine List.map_congr_left fun item hitem => ih item hitem fun k hk => h k ?_
    exact mem_innerKeysOfItems.mpr ⟨item, hitem, hk⟩
  | @mapping entries _ _ _ ih =>
    rw [plain, plain, plainEntries_eq_map, plainEntries_eq_map]
    congr 2
    refine List.map_congr_left fun entry hentry => Prod.ext (h _ ?_) ?_
    · exact mem_innerKeysOfEntries.mpr ⟨entry, hentry, .inl rfl⟩
    · refine ih entry hentry fun k hk => h k ?_
      exact mem_innerKeysOfEntries.mpr ⟨entry, hentry, .inr hk⟩
  | _ => rw [plain, plain]

/-! ## Where a member of an enumeration is a key -/

theorem exists_eq_string {k : Datum} {s : String} (h : k.textKey? = some (.string s)) :
    k = document (.string s) := by
  cases k with
  | document v =>
    cases v with
    | string s' =>
      cases h
      rfl
    | _ => cases h
  | _ => cases h

/-- The texts of the members of an enumeration have no point in them. -/
theorem point_notMem_of_member {k : Datum} {className name : String}
    (h : k.textKey? = some (.member className name)) : '.' ∉ name.toList := by
  cases k with
  | document v => cases v <;> cases h
  | form f =>
    cases h
    cases f <;> decide
  | scalarType t =>
    cases h
    cases t <;> decide
  | kind k =>
    cases h
    cases k <;> decide
  | _ => cases h

theorem point_mem_memberName (className name : String) :
    '.' ∈ (memberName className name).toList := by
  simp [memberName]

/-- A member of an enumeration that is a key leaves its text to no other key. -/
theorem exists_string_of_mem_keys {entry : Datum × Datum}
    (hkeys : ∀ entry ∈ entries, entry.1.textKey?.isSome = true)
    (hdistinct : (entries.map fun entry => entry.1.spelled TextKey.name).Nodup)
    (hentry : entry ∈ entries)
    (h : entry.1.spelled TextKey.name ∈
      entries.map fun entry => entry.1.spelled TextKey.qualified) :
    ∃ s, entry.1 = document (.string s) := by
  obtain ⟨key, hkey⟩ := Option.isSome_iff_exists.mp (hkeys entry hentry)
  cases key with
  | string s => exact ⟨s, exists_eq_string hkey⟩
  | member className name =>
    obtain ⟨entry', hentry', hspelled⟩ := List.mem_map.mp h
    obtain ⟨key', hkey'⟩ := Option.isSome_iff_exists.mp (hkeys entry' hentry')
    have hname : entry.1.spelled TextKey.name = name := by rw [spelled, hkey]; rfl
    rw [hname] at hspelled
    cases key' with
    | string s =>
      have hsame : entry' = entry := by
        apply List.inj_on_of_nodup_map hdistinct hentry' hentry
        rw [hname, ← hspelled, spelled, spelled, hkey']
        rfl
      exact ⟨s, hsame ▸ exists_eq_string hkey'⟩
    | member className' name' =>
      have hqualified : memberName className' name' = name := by
        rw [← hspelled, spelled, hkey']
        rfl
      have hpoint := point_notMem_of_member hkey
      rw [← hqualified] at hpoint
      exact absurd (point_mem_memberName className' name') hpoint

theorem exists_string_of_items
    (ih : ∀ item ∈ items, (item.plain TextKey.qualified).sorted = (item.plain TextKey.name).sorted →
      ∀ k ∈ item.innerKeys, ∃ s, k = document (.string s))
    (h : (items.map (plain TextKey.qualified)).map Value.sorted =
      (items.map (plain TextKey.name)).map Value.sorted) :
    ∀ k ∈ innerKeysOfItems items, ∃ s, k = document (.string s) := by
  intro k hk
  obtain ⟨item, hitem, hk⟩ := mem_innerKeysOfItems.mp hk
  rw [List.map_map, List.map_map] at h
  exact ih item hitem (List.map_inj_left.mp h item hitem) k hk

/-- Plain values with qualified and with bare keys are the same only if no key is a member of an
enumeration. -/
theorem exists_string_of_sorted_eq (hd : d.Printable)
    (h : (d.plain TextKey.qualified).sorted = (d.plain TextKey.name).sorted) :
    ∀ k ∈ d.innerKeys, ∃ s, k = document (.string s) := by
  induction hd with
  | @list items _ ih =>
    rw [plain, plain, plainItems_eq_map, plainItems_eq_map, Value.sorted_array,
      Value.sorted_array] at h
    exact exists_string_of_items ih (Value.array.inj h)
  | @tuple items _ ih =>
    rw [plain, plain, plainItems_eq_map, plainItems_eq_map, Value.sorted_array,
      Value.sorted_array] at h
    exact exists_string_of_items ih (Value.array.inj h)
  | @mapping entries hkeys hdistinct _ ih =>
    rw [plain_mapping_of_nodup hdistinct] at h
    have hstrings : ∀ entry ∈ entries, ∃ s, entry.1 = document (.string s) := by
      intro entry hentry
      apply exists_string_of_mem_keys hkeys hdistinct hentry
      rw [plain] at h
      have hperm := (Value.perm_of_sorted_eq h).map (·.1)
      rw [Value.keys_map_sortEntry, Value.keys_map_sortEntry, List.map_map] at hperm
      have hmem := mem_keys_of_mem_keys_collectMembers
        (hperm.mem_iff.mpr (List.mem_map_of_mem hentry))
      rw [plainEntries_eq_map, List.map_map] at hmem
      exact hmem
    have hspelled : ∀ entry ∈ entries,
        entry.1.spelled TextKey.qualified = entry.1.spelled TextKey.name := by
      intro entry hentry
      obtain ⟨s, hs⟩ := hstrings entry hentry
      rw [hs]
      rfl
    have hdistinct' : (entries.map fun entry => entry.1.spelled TextKey.qualified).Nodup := by
      rw [List.map_congr_left hspelled]
      exact hdistinct
    rw [plain_mapping_of_nodup hdistinct'] at h
    have hperm := Value.perm_of_sorted_eq h
    intro k hk
    obtain ⟨entry, hentry, rfl | hk⟩ := mem_innerKeysOfEntries.mp hk
    · exact hstrings entry hentry
    · refine ih entry hentry ?_ k hk
      have hmem := hperm.subset (List.mem_map_of_mem (List.mem_map_of_mem hentry))
      obtain ⟨member, hmember, heq⟩ := List.mem_map.mp hmem
      obtain ⟨entry', hentry', rfl⟩ := List.mem_map.mp hmember
      obtain ⟨hkey, hvalue⟩ := Prod.mk.inj heq
      obtain rfl := List.inj_on_of_nodup_map hdistinct hentry' hentry
        (hkey.trans (hspelled entry hentry))
      exact hvalue.symm
  | _ => exact fun k hk => absurd hk List.not_mem_nil

theorem expressible_items
    (ih : ∀ item ∈ items, (item.plain spell').Expressible → (item.plain spell).Expressible)
    (h : (Value.array (plainItems spell' items)).Expressible) :
    (Value.array (plainItems spell items)).Expressible := by
  rw [plainItems_eq_map, Value.expressible_array_iff] at h ⊢
  intro x hx
  obtain ⟨item, hitem, rfl⟩ := List.mem_map.mp hx
  exact ih item hitem (h _ (List.mem_map_of_mem hitem))

/-- If a text can express the plain value with bare keys, where every entry has its member, then it
can express the plain value with keys that are spelled in any other way. -/
theorem expressible_plain (hd : d.Printable) (h : (d.plain TextKey.name).Expressible) :
    (d.plain spell).Expressible := by
  induction hd with
  | list _ ih =>
    rw [plain] at h ⊢
    exact expressible_items ih h
  | tuple _ ih =>
    rw [plain] at h ⊢
    exact expressible_items ih h
  | @mapping entries _ hdistinct _ ih =>
    rw [plain_mapping_of_nodup hdistinct, Value.expressible_object_iff] at h
    rw [plain, Value.expressible_object_iff]
    refine ⟨nodup_keys_collectMembers _, fun member hmember => ?_⟩
    obtain ⟨pair, hpair, hvalue⟩ := exists_mem_of_mem_collectMembers hmember
    rw [plainEntries_eq_map] at hpair
    obtain ⟨entry, hentry, rfl⟩ := List.mem_map.mp hpair
    rw [← hvalue]
    exact ih entry hentry (h.2 _ (List.mem_map_of_mem hentry))
  | _ =>
    rw [plain] at h ⊢
    exact h

/-- **A value is written as its plain value is**, where keys are written as they are displayed: a
member of an enumeration by its enumeration and its name. Where all keys are texts that is the plain
value in which everything is replaced by its own text, and, as what is written can be read back,
only there. -/
theorem write_eq_write_plain (h : d.Printable) (indent : Option Nat) :
    d.write indent = (document (d.plain TextKey.qualified)).write indent ∧
      ((∀ k ∈ d.innerKeys, ∃ s, k = document (.string s)) →
        d.write indent = (document (d.plain TextKey.name)).write indent) ∧
      ((d.plain TextKey.name).Expressible →
        d.write indent = (document (d.plain TextKey.name)).write indent →
        ∀ k ∈ d.innerKeys, ∃ s, k = document (.string s)) := by
  have hwrite : d.write indent = (document (d.plain TextKey.qualified)).write indent := by
    rw [write, write, toValue_eq_plain h, toValue]
  refine ⟨hwrite, fun hkeys => ?_, fun hexpressible heq => ?_⟩
  · rw [hwrite, plain_congr h fun k hk => ?_]
    obtain ⟨s, rfl⟩ := hkeys k hk
    rfl
  · rw [hwrite] at heq
    have hsorted := Json.sorted_eq_of_canonical_eq (expressible_plain h hexpressible) hexpressible
      (Except.ok.inj heq)
    exact exists_string_of_sorted_eq h hsorted

/-- Names, numbers and paths under a key that is a text. -/
theorem write_mapping_names :
    let d : Datum := .mapping [(.document (.string "form"),
      .tuple [.form .values, .exitCode .error, .path (Path.ofString "a//b")])]
    d.write none = .ok "\x7b\"form\": [\"values\", 2, \"a/b\"]\x7d\n" := by
  intro d
  have hd : d.Printable := by
    refine .mapping (by decide) (by decide) fun entry hentry => ?_
    rw [List.mem_singleton.mp hentry]
    refine .tuple fun item hitem => ?_
    simp only [List.mem_cons, List.not_mem_nil, or_false] at hitem
    rcases hitem with rfl | rfl | rfl
    · exact .form .values
    · exact .exitCode .error
    · exact .path _
  have hkeys : ∀ k ∈ d.innerKeys, ∃ s, k = document (.string s) := by
    intro k hk
    exact ⟨"form", List.mem_singleton.mp hk⟩
  rw [(write_eq_write_plain hd none).2.1 hkeys]
  show Except.ok (Json.write _ (Value.object (List.mergeSort [_] _)) ++ "\n") = _
  rw [List.mergeSort_singleton]
  decide +kernel

/-- A member of an enumeration that is a key is not written by its text. -/
theorem write_ne_write_plain :
    let d : Datum := .mapping [(.form .values, .document (.int 1))]
    d.Printable ∧ d.write none = .ok "\x7b\"Form.VALUES\": 1\x7d\n" ∧
      (document (d.plain TextKey.name)).write none = .ok "\x7b\"values\": 1\x7d\n" ∧
      d.write none ≠ (document (d.plain TextKey.name)).write none := by
  intro d
  have hd : d.Printable := by
    refine .mapping (by decide) (by decide) fun entry hentry => ?_
    rw [List.mem_singleton.mp hentry]
    exact .document ⟨rfl, rfl⟩
  have hwritten : d.write none = .ok "\x7b\"Form.VALUES\": 1\x7d\n" := by
    rw [write, toValue_eq_plain hd]
    show Except.ok (Json.write _ (Value.object (List.mergeSort [_] _)) ++ "\n") = _
    rw [List.mergeSort_singleton]
    decide +kernel
  have hplain : (document (d.plain TextKey.name)).write none =
      .ok "\x7b\"values\": 1\x7d\n" := by
    show Except.ok (Json.write _ (Value.object (List.mergeSort [_] _)) ++ "\n") = _
    rw [List.mergeSort_singleton]
    decide +kernel
  refine ⟨hd, hwritten, hplain, ?_⟩
  rw [hwritten, hplain]
  decide +kernel

end Datum

end SchemaForms
