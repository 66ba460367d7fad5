import SchemaForms.Proofs.Schema.Misfit
import SchemaForms.Proofs.Value.Reordered

/-!
# Refusals up to the order of members

Documents that are the same but for the order of members have the same misfits, up to order again
and up to the order of members of the values told of (`Position.misfits_alike`). Which misfit is
reported depends on the paths alone, and no two stand at one path; so such documents are refused at
the same place for the same reason (`Schema.decode_reordered`).
-/

namespace SchemaForms

/-! ## Parts of reordered values -/

namespace Value.Reordered

variable {v w : Value}

theorem isShowable_eq (h : v.Reordered w) (hv : v.distinctKeys = true) :
    v.isShowable = w.isShowable := by
  induction h with
  | leaf _ _ => rfl
  | array hlength _ ih =>
    rw [Value.distinctKeys_array_iff] at hv
    rw [Bool.eq_iff_iff, isShowable_array_iff, isShowable_array_iff]
    refine (UpToOrder.of_forall₂ (forall₂_of_getElem? hlength ih)).forall_mem_iff ?_
    exact fun x hx y _ hxy => Bool.eq_iff_iff.mp (hxy (hv x hx))
  | object hkeys _ ih =>
    obtain ⟨hnodup, hmembers⟩ := Value.distinctKeys_object_iff.mp hv
    rw [Bool.eq_iff_iff, isShowable_object_iff, isShowable_object_iff]
    refine UpToOrder.forall_mem_iff (MapsAlike.of_lookup hkeys hnodup ih) ?_
    exact fun x hx y _ hxy => Bool.eq_iff_iff.mp (hxy.2 (hmembers x hx))

theorem positionAdmits_eq (h : v.Reordered w) (p : Position) : p.admits v = p.admits w := by
  cases h with
  | leaf _ _ => rfl
  | array _ _ => cases p <;> rfl
  | object _ _ => cases p <;> rfl

end Value.Reordered

namespace Position

variable {p : Position} {v w : Value}

/-- The same part, of values that are the same but for the order of members. -/
structure Part.Alike (x y : Part) : Prop where
  step : x.step = y.step
  position : x.position = y.position
  value : x.value.Reordered y.value

theorem members_alike {members members' : List (String × Value)}
    (h : MapsAlike Value.Reordered members members') (of? : String → Option Position) :
    UpToOrder Part.Alike (members.filterMap (part? of?)) (members'.filterMap (part? of?)) := by
  refine h.filterMap fun ⟨key, x⟩ ⟨_, y⟩ ⟨hkey, hxy⟩ => ?_
  obtain rfl : key = _ := hkey
  unfold part?
  cases of? key with
  | none => exact .none
  | some q => exact .some ⟨rfl, rfl, hxy⟩

theorem items_alike {items items' : List Value} (h : List.Forall₂ Value.Reordered items items')
    (k : Nat) : List.Forall₂ Part.Alike
      ((items.zipIdx k).map fun (x, i) => ⟨.index i, item, x⟩)
      ((items'.zipIdx k).map fun (x, i) => ⟨.index i, item, x⟩) := by
  induction h generalizing k with
  | nil => exact .nil
  | cons hxy _ ih => exact .cons ⟨rfl, rfl, hxy⟩ (ih (k + 1))

/-- Reordered values have the same parts. -/
theorem parts_alike (h : v.Reordered w) (hv : v.distinctKeys = true) :
    UpToOrder Part.Alike (p.parts v) (p.parts w) := by
  cases v with
  | object members =>
    obtain ⟨members', rfl, hmembers⟩ :=
      h.exists_object rfl (Value.distinctKeys_object_iff.mp hv).1
    cases p <;> first | exact members_alike hmembers _ | exact .of_forall₂ .nil
  | array items =>
    obtain ⟨items', rfl, hitems⟩ := h.exists_array rfl
    cases p <;> first | exact .of_forall₂ (items_alike hitems 0) | exact .of_forall₂ .nil
  | _ =>
    cases h
    cases p <;> exact .of_forall₂ .nil

end Position

/-! ## Misfits of reordered values -/

/-- Reported at the same place for the same reason, of values that are the same but for the order of
members. -/
structure Culprit.Alike (c d : Culprit) : Prop where
  path : c.path = d.path
  expected : c.expected = d.expected
  value : c.value.Reordered d.value

/-- The same misfit, of values that are the same but for the order of members. -/
structure Misfit.Alike (m n : Misfit) : Prop where
  path : m.path = n.path
  hasAlternatives : m.hasAlternatives = n.hasAlternatives
  culprit : m.culprit.Reordered n.culprit
  settle : m.settle.Alike n.settle

namespace Misfit

variable {a a' b b' m n : Misfit} {found found' : List Misfit}

theorem order_eq_of_alike (ha : a.Alike a') (hb : b.Alike b') : a.order b = a'.order b' := by
  rw [order, order, ha.path, hb.path, ha.hasAlternatives, hb.hasAlternatives]

theorem alike_under (step : Step) (h : m.Alike n) : (m.under step).Alike (n.under step) where
  path := by
    rw [Position.path_under, Position.path_under, h.path]
  hasAlternatives := by
    cases m <;> cases n <;> exact h.hasAlternatives
  culprit := by
    cases m <;> cases n <;> exact h.culprit
  settle := by
    rw [settle_under, settle_under]
    exact ⟨congrArg (step :: ·) h.settle.path, h.settle.expected, h.settle.value⟩

/-- The first of some misfits is alike to the first of misfits that are alike, in whatever order
they are listed and compared. -/
theorem alike_of_first (le : Misfit → Misfit → Prop)
    (hle : ∀ {a a' b b'}, Alike a a' → Alike b b' → le a b → le a' b')
    (hanti : ∀ a ∈ found', ∀ b ∈ found', le a b → le b a → a = b)
    (h : UpToOrder Alike found found') (hm : m ∈ found) (hfirst : ∀ n ∈ found, le m n)
    (hm' : n ∈ found') (hfirst' : ∀ n' ∈ found', le n n') : m.Alike n := by
  obtain ⟨m', hmem, halike⟩ := h.exists_of_mem hm
  obtain ⟨n', hmem', halike'⟩ := h.flip.exists_of_mem hm'
  have heq : m' = n :=
    hanti m' hmem n hm' (hle halike halike' (hfirst n' hmem')) (hfirst' m' hmem)
  exact heq ▸ halike

/-- Of misfits that are alike, alike ones are last. -/
theorem lastMisfit?_alike (h : UpToOrder Alike found found')
    (hnodup : (found'.map Misfit.path).Nodup) :
    Option.Rel Alike (lastMisfit? found) (lastMisfit? found') := by
  cases hm : lastMisfit? found with
  | none =>
    rw [h.eq_nil_iff.mp (lastMisfit?_eq_none_iff.mp hm)]
    exact .none
  | some m =>
    cases hm' : lastMisfit? found' with
    | none =>
      rw [h.eq_nil_iff.mpr (lastMisfit?_eq_none_iff.mp hm')] at hm
      cases hm
    | some n =>
      obtain ⟨hmem, hlast⟩ := of_lastMisfit?_eq_some hm
      obtain ⟨hmem', hlast'⟩ := of_lastMisfit?_eq_some hm'
      refine .some (alike_of_first (fun a b => (b.order a).isLE = true) ?_ ?_ h hmem hlast hmem'
        hlast')
      · exact fun ha hb hba => order_eq_of_alike hb ha ▸ hba
      · exact fun a ha b hb hba hab => eq_of_order_isLE hnodup ha hb hab hba

end Misfit

namespace Position

variable {p : Position} {v w : Value}

theorem inner_alike (h : UpToOrder Part.Alike (p.parts v) (p.parts w))
    (hparts : ∀ x ∈ p.parts v, ∀ y ∈ p.parts w, x.Alike y → UpToOrder Misfit.Alike
      (x.position.misfits x.value) (y.position.misfits y.value)) :
    UpToOrder Misfit.Alike (p.inner v) (p.inner w) :=
  h.flatMap fun x hx y hy hxy => (hparts x hx y hy hxy).map fun _ _ halike => by
    rw [hxy.step]
    exact Misfit.alike_under _ halike

theorem misfit_alike (h : v.Reordered w) : (p.misfit v).Alike (p.misfit w) where
  path := by
    cases p <;> rfl
  hasAlternatives := by
    cases p <;> rfl
  culprit := by
    cases p <;> exact h
  settle := by
    rw [settle_misfit, settle_misfit]
    exact ⟨rfl, rfl, h⟩

theorem gather_alike (h : v.Reordered w) (hv : v.distinctKeys = true) (hw : w.distinctKeys = true)
    (hinner : UpToOrder Misfit.Alike (p.inner v) (p.inner w)) :
    UpToOrder Misfit.Alike (p.gather v (p.inner v)) (p.gather w (p.inner w)) := by
  have hcases : (p = optional ∧ p.inner w ≠ []) ↔ (p = optional ∧ p.inner v ≠ []) := by
    rw [Ne, Ne, hinner.eq_nil_iff]
  rw [gather, gather, if_congr hcases rfl rfl]
  split_ifs with hgather
  · obtain ⟨m, hm, hfirst, hsettle⟩ := exists_settle_gathered hv hgather.2
    obtain ⟨n, hn, hfirst', hsettle'⟩ := exists_settle_gathered hw (hcases.mpr hgather).2
    have halike : m.Alike n := by
      refine Misfit.alike_of_first (fun a b => (a.order b).isLE = true) ?_ ?_ hinner hm hfirst hn
        hfirst'
      · exact fun ha hb hab => Misfit.order_eq_of_alike ha hb ▸ hab
      · exact fun a ha b hb => Misfit.eq_of_order_isLE (nodup_paths_inner hw) ha hb
    refine .of_forall₂ (.cons ⟨rfl, rfl, h, ?_⟩ .nil)
    rw [hsettle, hsettle']
    exact halike.settle
  · exact hinner

/-- **Reordered values have the same misfits**, but for their order and the order of members. -/
theorem misfits_alike (h : v.Reordered w) (hv : v.distinctKeys = true)
    (hw : w.distinctKeys = true) : UpToOrder Misfit.Alike (p.misfits v) (p.misfits w) := by
  induction p, v using part_induction generalizing w with
  | parts p v ih =>
    rw [misfits_eq, misfits_eq, ← h.positionAdmits_eq p]
    split_ifs
    · refine gather_alike h hv hw (inner_alike (parts_alike h hv) fun x hx y hy hxy => ?_)
      rw [← hxy.position]
      exact ih x hx hxy.value (distinctKeys_of_mem_parts hv hx)
        (distinctKeys_of_mem_parts hw hy)
    · exact .of_forall₂ (.cons (misfit_alike h) .nil)

/-! ## Values with two readings -/

/-- The values with two readings in a value at the place. -/
def alternatives : Position → Value → List Value
  | schema, v => nodeAlternatives v
  | optional, v => [v]
  | map, v => mapAlternatives v
  | union, .object members => discriminatorAlternatives members
  | _, _ => []

theorem memberAlternatives_eq (members : List (String × Value)) :
    memberAlternatives members =
      (members.filterMap (part? ofKeyword?)).flatMap fun x => x.position.alternatives x.value := by
  induction members with
  | nil => rw [memberAlternatives]; rfl
  | cons entry rest ih =>
    obtain ⟨key, v⟩ := entry
    unfold memberAlternatives
    rw [flatMap_part?, ← ih]
    unfold ofKeyword?
    congr 1
    split
    · rfl
    · rfl
    · rfl
    · rfl
    · rfl
    · cases v <;> rfl
    · split
      next q hq =>
        split at hq <;> first | exact Option.some.inj hq ▸ rfl | simp_all
      next => rfl

theorem entryAlternatives_eq (members : List (String × Value)) :
    entryAlternatives members =
      (members.filterMap (part? fun _ => some schema)).flatMap
        fun x => x.position.alternatives x.value := by
  induction members with
  | nil => rw [entryAlternatives]; rfl
  | cons entry rest ih =>
    obtain ⟨key, v⟩ := entry
    rw [flatMap_part?, ← ih, entryAlternatives]
    rfl

theorem discriminatorAlternatives_eq (members : List (String × Value)) :
    discriminatorAlternatives members =
      (members.filterMap (part? ofPart?)).flatMap fun x => x.position.alternatives x.value := by
  induction members with
  | nil => rw [discriminatorAlternatives]; rfl
  | cons entry rest ih =>
    obtain ⟨key, v⟩ := entry
    unfold discriminatorAlternatives
    rw [flatMap_part?, ← ih]
    unfold ofPart?
    congr 1
    split
    · rfl
    · split
      next q hq =>
        split at hq <;> first | exact Option.some.inj hq ▸ rfl | simp_all
      next => rfl

theorem alternatives_eq (hp : p ≠ optional) (v : Value) :
    p.alternatives v = (p.parts v).flatMap fun x => x.position.alternatives x.value := by
  cases p with
  | schema =>
    cases v with
    | object members => rw [alternatives, nodeAlternatives, memberAlternatives_eq]; rfl
    | _ => simp [alternatives, nodeAlternatives, parts]
  | optional => exact absurd rfl hp
  | map =>
    cases v with
    | object members => rw [alternatives, mapAlternatives, entryAlternatives_eq]; rfl
    | _ => simp [alternatives, mapAlternatives, parts]
  | union =>
    cases v with
    | object members => rw [alternatives, discriminatorAlternatives_eq]; rfl
    | _ => rfl
  | texts =>
    cases v with
    | array items =>
      rw [parts, List.flatMap_map]
      simp [alternatives]
    | _ => rfl
  | item => cases v <;> rfl
  | text => cases v <;> rfl

theorem exists_leads_of_mem_alternatives {x : Value} (h : x ∈ p.alternatives v) :
    ∃ path q, Leads p v path q x := by
  induction p, v using part_induction with
  | parts p v ih =>
    by_cases hp : p = optional
    · subst hp
      rw [List.mem_singleton.mp h]
      exact ⟨[], optional, .here⟩
    · rw [alternatives_eq hp] at h
      obtain ⟨y, hy, hx⟩ := List.mem_flatMap.mp h
      obtain ⟨path, q, hleads⟩ := ih y hy hx
      exact ⟨_, q, .part hy hleads⟩

/-- Reordered values have the same values with two readings in them. -/
theorem alternatives_alike (h : v.Reordered w) (hv : v.distinctKeys = true) :
    UpToOrder Value.Reordered (p.alternatives v) (p.alternatives w) := by
  induction p, v using part_induction generalizing w with
  | parts p v ih =>
    by_cases hp : p = optional
    · subst hp
      exact .of_forall₂ (.cons h .nil)
    · rw [alternatives_eq hp, alternatives_eq hp]
      refine (parts_alike h hv).flatMap fun x hx y hy hxy => ?_
      rw [← hxy.position]
      exact ih x hx hxy.value (distinctKeys_of_mem_parts hv hx)

end Position

/-! ## Documents -/

namespace Schema

variable {d d' : Value}

/-- What is put into words of reordered documents. -/
theorem shownValues_alike (h : d.Reordered d') (hd : d.distinctKeys = true)
    (hd' : d'.distinctKeys = true) :
    UpToOrder Value.Reordered (shownValues d) (shownValues d') :=
  ((Position.misfits_alike (p := .schema) h hd hd').map fun _ _ halike => halike.culprit).append
    (Position.alternatives_alike (p := .schema) h hd)

theorem distinctKeys_of_mem_shownValues (hd : d.distinctKeys = true) :
    ∀ w ∈ shownValues d, w.distinctKeys = true := by
  rw [shownValues, List.forall_mem_append]
  constructor
  · intro w hw
    obtain ⟨m, hm, rfl⟩ := List.mem_map.mp hw
    obtain ⟨q, hleads⟩ := Position.exists_leads_culprit (p := .schema) hm
    exact hleads.distinctKeys hd
  · intro w hw
    obtain ⟨path, q, hleads⟩ := Position.exists_leads_of_mem_alternatives (p := .schema) hw
    exact hleads.distinctKeys hd

theorem isShowable_shownValues_iff (h : d.Reordered d') (hd : d.distinctKeys = true)
    (hd' : d'.distinctKeys = true) :
    (∀ w ∈ shownValues d, w.isShowable = true) ↔ ∀ w ∈ shownValues d', w.isShowable = true := by
  refine (shownValues_alike h hd hd').forall_mem_iff fun x hx y hy hxy => ?_
  rw [hxy.isShowable_eq (distinctKeys_of_mem_shownValues hd x hx)]

theorem culprit?_alike (h : d.Reordered d') (hd : d.distinctKeys = true)
    (hd' : d'.distinctKeys = true) :
    Option.Rel Culprit.Alike (culprit? d) (culprit? d') := by
  have hlast := Misfit.lastMisfit?_alike (Position.misfits_alike (p := .schema) h hd hd')
    (Position.nodup_paths hd')
  unfold culprit?
  rcases rel_cases hlast with ⟨hm, hn⟩ | ⟨m, n, hm, hn, hmn⟩
  · rw [show lastMisfit? (nodeMisfits d) = none from hm,
      show lastMisfit? (nodeMisfits d') = none from hn]
    exact .none
  · rw [show lastMisfit? (nodeMisfits d) = some m from hm,
      show lastMisfit? (nodeMisfits d') = some n from hn]
    exact .some hmn.settle

/-- **Documents that are the same but for the order of members are refused alike**: at the same
place, for the same reason, with details that differ only in the order of the members of the value
that they show. -/
theorem decode_reordered (d d' : Value) (hd : d.Proper) (h : d.Reordered d') :
    ((∃ s, decode d = .ok s) ↔ ∃ s, decode d' = .ok s) ∧
      (decode d = .error .tooLongToShow ↔ decode d' = .error .tooLongToShow) ∧
      ∀ detail place, decode d = .error (.misfit detail place) → ∃ w w', ∃ reason : Expected,
        d.Reaches (pointerTokens place) w ∧ d'.Reaches (pointerTokens place) w' ∧
        w.Reordered w' ∧ detail = w.display ++ reason.wording ∧
        decode d' = .error (.misfit (w'.display ++ reason.wording) place) := by
  have hd' : d'.Proper := h.proper hd
  have hshown := isShowable_shownValues_iff h hd.distinct hd'.distinct
  have hculprits := culprit?_alike h hd.distinct hd'.distinct
  refine ⟨?_, ?_, fun detail place hdecode => ?_⟩
  · simp only [decode_eq_ok_iff, ← culprit?_eq_none_iff, hshown]
    rcases rel_cases hculprits with ⟨hc, hc'⟩ | ⟨c, c', hc, hc', -⟩ <;> simp [hc, hc']
  · simp only [decode_eq_error_iff, hshown]
    simp [DecodeFault.ofCulprit]
  · rw [decode_eq_error_iff] at hdecode
    split_ifs at hdecode with hall
    obtain ⟨c, hc, hfault⟩ := hdecode
    obtain ⟨rfl, rfl⟩ := DecodeFault.misfit.inj hfault
    obtain ⟨c', hc', halike⟩ := exists_of_rel hculprits hc
    obtain ⟨q, hleads, -⟩ := blames_of_culprit? hd.distinct hc
    obtain ⟨q', hleads', -⟩ := blames_of_culprit? hd'.distinct hc'
    have htokens := pointerTokens_pointer (c.path.map Step.token)
    refine ⟨c.value, c'.value, c.expected, ?_, ?_, halike.value, rfl, ?_⟩
    · rw [htokens]
      exact hleads.reaches
    · rw [htokens, halike.path]
      exact hleads'.reaches
    · rw [decode_eq_error_iff, if_pos (hshown.mp hall), halike.path, halike.expected]
      exact ⟨c', hc', rfl⟩

/-- Two orders of the members of a document, and of the object that stands for a type in it. -/
theorem decode_reordered_type :
    let offender := Value.object [("a", .null), ("b", .null)]
    let d := Value.object [("type", offender), ("ref", .int 1)]
    let d' := Value.object [("ref", .int 1), ("type", .object [("b", .null), ("a", .null)])]
    d.Proper ∧ d.Reordered d' ∧
      decode d = .error (.misfit (offender.display ++ Expected.stringOrNull.wording) "/type") ∧
      ∃ w', ∃ reason : Expected, d'.Reaches (pointerTokens "/type") w' ∧
        decode d' = .error (.misfit (w'.display ++ reason.wording) "/type") := by
  intro offender d d'
  have hproper : d.Proper := ⟨by rfl, by rfl⟩
  have hreordered : d.Reordered d' := by
    refine .object (by decide) fun key x y hx hy => ?_
    rcases List.mem_pair.mp (mem_of_lookup hx) with hx | hx <;>
      rcases List.mem_pair.mp (mem_of_lookup hy) with hy | hy <;>
      obtain ⟨rfl, rfl⟩ := Prod.mk.inj hx <;> simp only [Prod.mk.injEq] at hy
    · exact absurd hy.1 (by decide)
    · exact hy.2 ▸ .of_perm (.swap _ _ _) (by decide)
    · exact hy.2 ▸ .refl _
    · exact absurd hy.1 (by decide)
  have hdecode : decode d = .error
      (.misfit (offender.display ++ Expected.stringOrNull.wording) "/type") := by rfl
  obtain ⟨w, w', reason, -, hreaches, -, -, hdecode'⟩ :=
    (decode_reordered d d' hproper hreordered).2.2 _ _ hdecode
  exact ⟨hproper, hreordered, hdecode, w', reason, hreaches, hdecode'⟩

end Schema

end SchemaForms
