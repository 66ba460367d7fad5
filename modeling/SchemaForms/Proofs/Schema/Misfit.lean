import Mathlib.Data.List.Permutation
import Mathlib.Data.String.Basic
import SchemaForms.Proofs.Pointer
import SchemaForms.Proofs.Schema.Position
import SchemaForms.Proofs.Schema.Shape

/-!
# The misfit that is reported

The misfits of a value whose objects have distinct keys stand at different paths
(`Position.nodup_paths`), and the order of misfits tells different paths apart. So there is one last
misfit, and among the misfits that are gathered under another one there is one first
(`Misfit.exists_least_of_settle`); a tie is left to a value that no reading fits for its kind.
-/

namespace SchemaForms

open Std (OrientedCmp TransCmp LawfulEqCmp)

/-! ## The order of misfits -/

namespace Step

instance : TransCmp order where
  eq_swap {a b} :=
    match a, b with
    | index i, index j => (OrientedCmp.eq_swap : compare i j = (compare j i).swap)
    | index _, key _ | key _, index _ => rfl
    | key s, key t => (OrientedCmp.eq_swap : compare s t = (compare t s).swap)
  isLE_trans {a b c} := by
    cases a <;> cases b <;> cases c
    all_goals simp [order]
    · exact TransCmp.isLE_trans
    · exact TransCmp.isLE_trans

instance : LawfulEqCmp order where
  compare_self {a} := by
    cases a <;> simp [order]
  eq_of_compare {a b} h := by
    cases a <;> cases b
    · exact congrArg index (Std.LawfulEqOrd.eq_of_compare h)
    · cases h
    · cases h
    · exact congrArg key (Std.LawfulEqOrd.eq_of_compare h)

end Step

theorem pathOrder_eq : pathOrder = List.compareLex Step.order := by
  funext a b
  induction a generalizing b with
  | nil => cases b <;> rfl
  | cons s a ih =>
    cases b with
    | nil => rfl
    | cons t b =>
      rw [pathOrder, List.compareLex_cons_cons, ih]

instance : TransCmp pathOrder := pathOrder_eq ▸ inferInstance

instance : LawfulEqCmp pathOrder := pathOrder_eq ▸ inferInstance

namespace Misfit

variable {m n : Misfit} {found context : List Misfit}

theorem order_eq : order = compareLex (fun a b => compare b.path.length a.path.length)
    (compareLex (fun a b => pathOrder a.path b.path)
      (compareOn fun a => !a.hasAlternatives)) := rfl

instance : TransCmp fun a b : Misfit => pathOrder a.path b.path where
  eq_swap := OrientedCmp.eq_swap
  isLE_trans := TransCmp.isLE_trans

instance : TransCmp fun a b : Misfit => compare b.path.length a.path.length where
  eq_swap := OrientedCmp.eq_swap
  isLE_trans h h' := TransCmp.isLE_trans h' h

instance : TransCmp order := order_eq ▸ inferInstance

theorem path_eq_of_order (h : m.order n = .eq) : m.path = n.path := by
  rw [order_eq, compareLex_eq_eq, compareLex_eq_eq] at h
  exact LawfulEqCmp.eq_of_compare h.2.1

/-- What stands deeper stands before. -/
theorem order_eq_lt (h : n.path.length < m.path.length) : m.order n = .lt := by
  have hlength : compare n.path.length m.path.length = .lt := Nat.compare_eq_lt.mpr h
  rw [order, hlength]
  rfl

theorem order_isLE_total (m n : Misfit) : ((m.order n).isLE || (n.order m).isLE) = true := by
  have hswap : n.order m = (m.order n).swap := OrientedCmp.eq_swap
  rw [hswap]
  cases m.order n <;> rfl

/-- The order of misfits tells apart what stands at different paths. -/
theorem eq_of_order_isLE (hnodup : (found.map Misfit.path).Nodup) (hm : m ∈ found)
    (hn : n ∈ found) (hmn : (m.order n).isLE = true) (hnm : (n.order m).isLE = true) : m = n := by
  have heq : m.order n = .eq := OrientedCmp.isLE_antisymm hmn hnm
  exact List.inj_on_of_nodup_map hnodup hm hn (path_eq_of_order heq)

/-! ## The last misfit -/

theorem lastMisfit?_eq_none_iff : lastMisfit? found = none ↔ found = [] := by
  cases found <;> simp [lastMisfit?]

theorem of_lastMisfit?_eq_some (h : lastMisfit? found = some m) :
    m ∈ found ∧ ∀ n ∈ found, (n.order m).isLE = true := by
  cases found with
  | nil => cases h
  | cons first rest =>
    obtain rfl := Option.some.inj h
    clear h
    induction rest generalizing first with
    | nil => simp [Std.ReflCmp.compare_self]
    | cons next rest ih =>
      rw [List.foldl_cons]
      split_ifs with hnext
      · have hfirst : (first.order next).isLE = true := by
          simpa [hnext] using order_isLE_total next first
        obtain ⟨hmem, hle⟩ := ih next
        rw [List.forall_mem_cons] at hle
        refine ⟨List.mem_cons_of_mem _ hmem, ?_⟩
        rw [List.forall_mem_cons, List.forall_mem_cons]
        exact ⟨TransCmp.isLE_trans hfirst hle.1, hle⟩
      · have hfirst : (next.order first).isLE = true := by
          cases hcase : next.order first <;> simp_all
        obtain ⟨hmem, hle⟩ := ih first
        rw [List.forall_mem_cons] at hle
        refine ⟨?_, ?_⟩
        · rcases List.mem_cons.mp hmem with heq | hmem
          · rw [heq]
            exact List.mem_cons_self
          · exact List.mem_cons_of_mem _ (List.mem_cons_of_mem _ hmem)
        · rw [List.forall_mem_cons, List.forall_mem_cons]
          exact ⟨hle.1, TransCmp.isLE_trans hfirst hle.1, hle.2⟩

/-! ## The misfit in place of those gathered under it -/

theorem settle_under (step : Step) (m : Misfit) :
    (m.under step).settle = { m.settle with path := step :: m.settle.path } := by
  cases m with
  | mismatch path culprit expected => rfl
  | noAlternative path culprit context =>
    rw [under, settle, settle]
    split
    · split_ifs <;> rfl
    · rfl
    · rfl

theorem settleAll_eq (context : List Misfit) :
    settleAll context = context.map fun m => (m, m.settle) := by
  induction context with
  | nil => rfl
  | cons m rest ih => rw [settleAll, ih, List.map_cons]

/-- Where no two gathered misfits stand at one path, the first of them is reported. -/
theorem exists_least_of_settle (path : List Step) (v : Value) (hne : context ≠ [])
    (hnodup : (context.map Misfit.path).Nodup) :
    ∃ m ∈ context, (∀ n ∈ context, (m.order n).isLE = true) ∧
      settle (.noAlternative path v context) =
        { m.settle with path := path ++ m.settle.path } := by
  rw [settle]
  have hperm := List.mergeSort_perm (settleAll context) fun a b => (a.1.order b.1).isLE
  have hsorted : ((settleAll context).mergeSort fun a b => (a.1.order b.1).isLE).Pairwise
      fun a b => (a.1.order b.1).isLE = true :=
    List.pairwise_mergeSort (fun _ _ _ => TransCmp.isLE_trans)
      (fun a b => order_isLE_total a.1 b.1) _
  generalize (settleAll context).mergeSort (fun a b => (a.1.order b.1).isLE) = sorted
    at hperm hsorted ⊢
  rw [settleAll_eq] at hperm
  have hpaths : (sorted.map fun entry => entry.1.path).Nodup := by
    refine (hperm.map _).nodup_iff.mpr ?_
    rw [List.map_map]
    exact hnodup
  cases sorted with
  | nil => exact absurd (List.map_eq_nil_iff.mp hperm.nil_eq.symm) hne
  | cons entry rest =>
    obtain ⟨first, culprit⟩ := entry
    obtain ⟨m, hm, heq⟩ := List.mem_map.mp (hperm.subset List.mem_cons_self)
    obtain ⟨rfl, rfl⟩ := Prod.mk.inj heq
    refine ⟨m, hm, fun n hn => ?_, ?_⟩
    · rcases List.mem_cons.mp (hperm.symm.subset (List.mem_map_of_mem hn)) with heq | hmem
      · rw [(Prod.mk.inj heq).1]
        exact Std.ReflCmp.isLE_rfl
      · exact List.rel_of_pairwise_cons hsorted hmem
    · cases rest with
      | nil => rfl
      | cons next rest =>
        have hne : m.order next.1 ≠ .eq := fun htie => by
          rw [List.map_cons, List.map_cons, List.nodup_cons] at hpaths
          exact hpaths.1 (path_eq_of_order htie ▸ List.mem_cons_self)
        exact if_neg hne

end Misfit

/-! ## The misfits of a value stand at different paths -/

namespace Position

variable {p q : Position} {v w : Value} {m : Misfit}

theorem path_under (step : Step) (m : Misfit) : (m.under step).path = step :: m.path := by
  cases m <;> rfl

theorem path_ne_nil_of_mem_inner (h : m ∈ p.inner v) : m.path ≠ [] := by
  obtain ⟨x, -, hm⟩ := List.mem_flatMap.mp h
  obtain ⟨n, -, rfl⟩ := List.mem_map.mp hm
  rw [path_under]
  exact List.cons_ne_nil _ _

theorem nodup_paths_inner_of_parts (hv : v.distinctKeys = true)
    (h : ∀ x ∈ p.parts v, ((x.position.misfits x.value).map Misfit.path).Nodup) :
    ((p.inner v).map Misfit.path).Nodup := by
  have hpaths : ∀ x : Part, ((x.position.misfits x.value).map (Misfit.under x.step)).map Misfit.path
      = ((x.position.misfits x.value).map Misfit.path).map (x.step :: ·) := fun x => by
    simp [List.map_map, Function.comp_def, path_under]
  rw [inner, List.map_flatMap, List.nodup_flatMap]
  refine ⟨fun x hx => ?_, ?_⟩
  · rw [hpaths]
    exact (h x hx).map List.cons_injective
  · refine (List.pairwise_map.mp (nodup_steps hv)).imp fun {x y} hxy => ?_
    rw [Function.onFun, hpaths, hpaths]
    intro path hx hy
    obtain ⟨_, -, rfl⟩ := List.mem_map.mp hx
    obtain ⟨_, -, heq⟩ := List.mem_map.mp hy
    exact hxy (List.cons.inj heq).1.symm

/-- Different misfits of a value stand at different paths. -/
theorem nodup_paths (hv : v.distinctKeys = true) : ((p.misfits v).map Misfit.path).Nodup := by
  induction p, v using part_induction with
  | parts p v ih =>
    have hinner : ((p.inner v).map Misfit.path).Nodup := nodup_paths_inner_of_parts hv fun x hx =>
      ih x hx (distinctKeys_of_mem_parts hv hx)
    rw [misfits_eq, gather]
    split_ifs
    · exact List.nodup_singleton _
    · exact hinner
    · exact List.nodup_singleton _

theorem nodup_paths_inner (hv : v.distinctKeys = true) : ((p.inner v).map Misfit.path).Nodup :=
  nodup_paths_inner_of_parts hv fun _ hx => nodup_paths (distinctKeys_of_mem_parts hv hx)

/-! ## The value that is reported -/

/-- What is reported of a value at a place stands, inside the value, at a place that does not admit
it. -/
def Blames (p : Position) (v : Value) (c : Culprit) : Prop :=
  ∃ q, Leads p v c.path q c.value ∧ q.admits c.value = false ∧ c.expected = q.expected

/-- A value of the wrong kind is reported itself. With two readings its misfits are tied. -/
theorem settle_misfit (p : Position) (v : Value) : (p.misfit v).settle = ⟨[], v, p.expected⟩ := by
  cases p with
  | optional =>
    have hsorted : ((Misfit.settleAll [.mismatch [] v .null, .mismatch [] v .object]).mergeSort
        fun a b => (a.1.order b.1).isLE) =
          Misfit.settleAll [.mismatch [] v .null, .mismatch [] v .object] :=
      List.mergeSort_of_pairwise (List.pairwise_pair.mpr rfl)
    rw [misfit, Misfit.settle, hsorted]
    rfl
  | _ => rfl

theorem blames_inner (h : ∀ x ∈ p.parts v, ∀ m ∈ x.position.misfits x.value,
    Blames x.position x.value m.settle) (hm : m ∈ p.inner v) : Blames p v m.settle := by
  obtain ⟨x, hx, hm⟩ := List.mem_flatMap.mp hm
  obtain ⟨n, hn, rfl⟩ := List.mem_map.mp hm
  obtain ⟨q, hleads, hadmits, hexpected⟩ := h x hx n hn
  rw [Misfit.settle_under]
  exact ⟨q, .part hx hleads, hadmits, hexpected⟩

/-- Of the misfits inside a schema that may be null, the first is reported in place of all. -/
theorem exists_settle_gathered (hv : v.distinctKeys = true) (hne : p.inner v ≠ []) :
    ∃ m ∈ p.inner v, (∀ n ∈ p.inner v, (m.order n).isLE = true) ∧
      Misfit.settle (.noAlternative [] v (.mismatch [] v .null :: p.inner v)) = m.settle := by
  have hpaths : ((Misfit.mismatch [] v .null :: p.inner v).map Misfit.path).Nodup := by
    rw [List.map_cons, List.nodup_cons]
    refine ⟨fun hmem => ?_, nodup_paths_inner hv⟩
    obtain ⟨m, hm, hpath⟩ := List.mem_map.mp hmem
    exact path_ne_nil_of_mem_inner hm hpath
  obtain ⟨m, hm, hleast, hsettle⟩ :=
    Misfit.exists_least_of_settle [] v (List.cons_ne_nil _ _) hpaths
  rw [List.forall_mem_cons] at hleast
  refine ⟨m, ?_, hleast.2, hsettle⟩
  -- The reading as null stands at the value itself, behind everything inside it.
  rcases List.mem_cons.mp hm with rfl | hm
  · obtain ⟨n, hn⟩ := List.exists_mem_of_ne_nil _ hne
    have hlt : n.order (.mismatch [] v .null) = .lt :=
      Misfit.order_eq_lt (List.length_pos_of_ne_nil (path_ne_nil_of_mem_inner hn))
    exact absurd hlt (OrientedCmp.not_lt_of_isLE (hleast.2 n hn))
  · exact hm

/-- **Every misfit settles on a value of the wrong kind for its place.** -/
theorem blames_settle (hv : v.distinctKeys = true) (hm : m ∈ p.misfits v) :
    Blames p v m.settle := by
  induction p, v using part_induction generalizing m with
  | parts p v ih =>
    have hinner : ∀ m ∈ p.inner v, Blames p v m.settle := fun m hm =>
      blames_inner (fun x hx m hm => ih x hx (distinctKeys_of_mem_parts hv hx) hm) hm
    rw [misfits_eq, gather] at hm
    split_ifs at hm with hadmits hgather
    · obtain ⟨n, hn, -, hsettle⟩ := exists_settle_gathered hv hgather.2
      rw [List.mem_singleton.mp hm, hsettle]
      exact hinner n hn
    · exact hinner m hm
    · rw [List.mem_singleton.mp hm, settle_misfit]
      exact ⟨p, .here, Bool.eq_false_iff.mpr hadmits, rfl⟩

/-! ## The place of the value that is reported -/

theorem Leads.unique {path : List Step} {r : Position} {u : Value} (hv : v.distinctKeys = true)
    (h : Leads p v path q w) (h' : Leads p v path r u) : q = r ∧ w = u := by
  induction h with
  | here =>
    cases h'
    exact ⟨rfl, rfl⟩
  | part hx h ih =>
    generalize hpath : Part.step _ :: _ = path' at h'
    cases h' with
    | here => cases hpath
    | part hy h' =>
      obtain ⟨hstep, rfl⟩ := List.cons.inj hpath
      obtain rfl := List.inj_on_of_nodup_map (nodup_steps hv) hx hy hstep
      exact ih (distinctKeys_of_mem_parts hv hx) h'

/-- No place for a schema leaves out objects. -/
theorem ne_object_of_not_admits (h : p.admits v = false) (hp : p = schema ∨ p = optional)
    (members : List (String × Value)) : v ≠ .object members := by
  rintro rfl
  rcases hp with rfl | rfl <;> cases h

theorem expected_eq_alternative_iff : p.expected = .alternative ↔ p = optional := by
  cases p <;> simp [expected]

/-- A misfit tells of a value that stands inside the document. -/
theorem exists_leads_culprit (hm : m ∈ p.misfits v) : ∃ q, Leads p v m.path q m.culprit := by
  induction p, v using part_induction generalizing m with
  | parts p v ih =>
    rw [misfits_eq, gather] at hm
    split_ifs at hm
    · rw [List.mem_singleton.mp hm]
      exact ⟨_, .here⟩
    · obtain ⟨x, hx, hm⟩ := List.mem_flatMap.mp hm
      obtain ⟨n, hn, rfl⟩ := List.mem_map.mp hm
      obtain ⟨q, hq⟩ := ih x hx hn
      cases n <;> exact ⟨q, .part hx hq⟩
    · rw [List.mem_singleton.mp hm]
      cases p <;> exact ⟨_, .here⟩

end Position

theorem wording_injective {e f : Expected} (h : e.wording = f.wording) : e = f := by
  cases e <;> cases f <;> first | rfl | simp [Expected.wording] at h

theorem isShowable_of_reaches {v w : Value} {path : List String} (h : v.Reaches path w)
    (hv : v.isShowable = true) : w.isShowable = true := by
  induction h with
  | here => exact hv
  | item hx _ ih => exact ih (Value.isShowable_array_iff.mp hv _ (List.mem_of_getElem? hx))
  | member hx _ ih => exact ih (Value.isShowable_object_iff.mp hv _ hx)

namespace Schema

variable {d : Value} {fault : DecodeFault}

/-- What is put into words of a document that can be shown can be shown. -/
theorem isShowable_of_mem_shownValues (hd : d.isShowable = true) :
    ∀ w ∈ shownValues d, w.isShowable = true := by
  rw [shownValues, List.forall_mem_append]
  refine ⟨fun w hw => ?_, isShowable_nodeAlternatives d hd⟩
  obtain ⟨m, hm, rfl⟩ := List.mem_map.mp hw
  obtain ⟨q, hleads⟩ := Position.exists_leads_culprit (p := .schema) hm
  exact isShowable_of_reaches hleads.reaches hd

theorem decode_eq_error_iff : decode d = .error fault ↔
    if ∀ w ∈ shownValues d, w.isShowable = true then
      ∃ c, culprit? d = some c ∧ fault = .ofCulprit c
    else fault = .tooLongToShow := by
  rw [decode]
  simp only [List.all_eq_true]
  split_ifs
  · cases culprit? d with
    | none => simp
    | some c => simp [eq_comm]
  · simp [eq_comm]

/-- What is reported of a document whose objects have distinct keys. -/
theorem blames_of_culprit? {c : Culprit} (hd : d.distinctKeys = true) (h : culprit? d = some c) :
    Position.Blames .schema d c := by
  obtain ⟨m, hm, rfl⟩ := Option.map_eq_some_iff.mp h
  exact Position.blames_settle hd (Misfit.of_lastMisfit?_eq_some hm).1

/-- **A document that is refused is refused for a value of the wrong kind for its place.** -/
theorem misfit_of_decode (d : Value) (fault : DecodeFault) (hd : d.Proper)
    (h : decode d = .error fault) :
    (d.isShowable = true → ∃ detail place, fault = .misfit detail place) ∧
      ∀ detail place, fault = .misfit detail place → ∃ path q w,
        place = pointer (path.map Step.token) ∧ pointerTokens place = path.map Step.token ∧
        d.Reaches (pointerTokens place) w ∧ Position.Leads .schema d path q w ∧
        q.admits w = false ∧ detail = w.display ++ q.expected.wording ∧
        (∀ r, Position.Leads .schema d path r w → r = .schema ∨ r = .optional →
          ∀ members, w ≠ .object members) ∧
        (detail = w.display ++ Expected.alternative.wording →
          w ≠ .null ∧ (∀ members, w ≠ .object members) ∧
            ∃ front, path = front ++ [.key "elements"] ∨ path = front ++ [.key "values"]) := by
  rw [decode_eq_error_iff] at h
  split_ifs at h with hshown
  · obtain ⟨⟨path, w, expected⟩, hc, rfl⟩ := h
    obtain ⟨q, hleads, hadmits, rfl⟩ := blames_of_culprit? hd.distinct hc
    refine ⟨fun _ => ⟨_, _, rfl⟩, fun detail place hfault => ?_⟩
    obtain ⟨rfl, rfl⟩ := DecodeFault.misfit.inj hfault
    have htokens := pointerTokens_pointer (path.map Step.token)
    have hreaches : d.Reaches (pointerTokens (pointer (path.map Step.token))) w := by
      rw [htokens]
      exact hleads.reaches
    refine ⟨path, q, w, rfl, htokens, hreaches, hleads, hadmits, rfl, ?_, ?_⟩
    · intro r hr hschema members
      obtain ⟨rfl, -⟩ := hleads.unique hd.distinct hr
      exact Position.ne_object_of_not_admits hadmits hschema members
    · intro hdetail
      have hexpected := wording_injective ((String.append_right_inj _).mp hdetail)
      obtain rfl := Position.expected_eq_alternative_iff.mp hexpected
      refine ⟨?_, Position.ne_object_of_not_admits hadmits (.inr rfl), ?_⟩
      · rintro rfl
        cases hadmits
      · obtain ⟨-, hq, -⟩ | ⟨front, r, u, x, hx, -, rfl, hoptional, -⟩ := hleads.last
        · cases hq
        · refine ⟨front, (Position.step_of_mem_parts_of_optional hx hoptional).imp ?_ ?_⟩
          · exact fun hstep => hstep ▸ rfl
          · exact fun hstep => hstep ▸ rfl
  · exact ⟨fun hd => absurd (isShowable_of_mem_shownValues hd) hshown,
      fun detail place hfault => by rw [h] at hfault; cases hfault⟩

/-- A number among the texts of an enumeration, two schemas that may be null further down. -/
theorem misfit_of_nested_item :
    let d := Value.object [("elements", .object [("values", .object
      [("enum", .array [.string "a", .int 1])])])]
    let fault := DecodeFault.misfit "1 is not of type 'string'" "/elements/values/enum/1"
    d.Proper ∧ decode d = .error fault ∧ ∃ path q w,
      "/elements/values/enum/1" = pointer (path.map Step.token) ∧
        d.Reaches (pointerTokens "/elements/values/enum/1") w ∧
        Position.Leads .schema d path q w ∧ q.admits w = false := by
  intro d fault
  have hproper : d.Proper := ⟨by rfl, by rfl⟩
  have hdecode : decode d = .error fault := by cbv
  obtain ⟨path, q, w, hplace, -, hreaches, hleads, hadmits, -⟩ :=
    (misfit_of_decode d fault hproper hdecode).2 _ _ rfl
  exact ⟨hproper, hdecode, path, q, w, hplace, hreaches, hleads, hadmits⟩

end Schema

end SchemaForms
