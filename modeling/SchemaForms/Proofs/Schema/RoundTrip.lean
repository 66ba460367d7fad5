import SchemaForms.Proofs.Schema.Written

/-!
# Decoding and writing out

What a schema document is decoded to is written as the normal form of the document, up to the order
of keywords (`normalises`), and decoded again to the same schema (`decode_toValue`). The proof goes
down the document: under every keyword the normal form keeps what is written again of it
(`rel_rewritten`), if that is so of the schemas further down.
-/

namespace SchemaForms.Schema

variable {key : String} {v : Value}

/-! ## Keyword by keyword -/

/-- What is written again of a keyword. -/
def rewritten (key : String) (v : Value) : Option Value :=
  match key with
  | "definitions" | "properties" | "optionalProperties" => (mapOfValue v).map mapToValue
  | "ref" => v.toString?.map .string
  | "type" => (v.toString?.filter (· ≠ "")).map .string
  | "enum" => (textsOfValue v).map fun texts => .array (texts.map .string)
  | "elements" | "values" => (nodeOfValue v).map toValue
  | "discriminator" => (unionOfValue v).map unionToValue
  | _ => none

theorem written_ofMembers (members : List (String × Value)) (key : String) :
    (ofMembers members).written key = (members.lookup key).bind (rewritten key) := by
  unfold written
  split
  case h_3 =>
    rw [ofMembers_eq]
    cases members.lookup "type" with
    | none => rfl
    | some v =>
      show ((v.toString?.filter (· ≠ "")).filter (· ≠ "")).map Value.string =
        (v.toString?.filter (· ≠ "")).map Value.string
      rw [Option.filter_filter]
      simp only [Bool.and_self]
  case h_10 =>
    have hnone : rewritten key = fun _ => none := by
      funext v
      unfold rewritten
      split <;> first | rfl | contradiction
    rw [hnone, Option.bind_fun_none]
  all_goals
    rw [ofMembers_eq]
    exact Option.map_bind

theorem rel_bind {α β : Type} {R : α → β → Prop} {value? : Option Value} {f : Value → Option α}
    {g : Value → Option β} (h : ∀ v, value? = some v → Option.Rel R (f v) (g v)) :
    Option.Rel R (value?.bind f) (value?.bind g) := by
  cases value? with
  | none => exact .none
  | some v => exact h v rfl

/-- What is written again of a schema document is its normal form, rearranged. -/
def Normalises (v : Value) : Prop :=
  WireShape v → v.distinctKeys = true → Rearranged .node (v.normalForm .node) (ofValue v).toValue

/-- The nodes of a map are written in their normal forms, in the order of the map. -/
theorem rearranged_map {members : List (String × Value)}
    (h : ∀ entry ∈ members,
      Rearranged .node (entry.2.normalForm .node) (ofValue entry.2).toValue) :
    Rearranged .map ((Value.object members).normalForm .map)
      (mapToValue (mapOfMembers members)) := by
  have hnormal : normalMembers .map members =
      members.map fun entry => (entry.1, entry.2.normalForm .node) :=
    normalMembers_eq_map fun _ _ => rfl
  rw [Value.normalForm, mapToValue, mapToMembers_eq_map, mapOfMembers_eq_map, List.map_map]
  show Rearranged .map (.object (normalMembers .map members))
    (.object (members.map fun entry => (entry.1, (ofValue entry.2).toValue)))
  rw [hnormal]
  refine .inOrder (by simp) fun key x y hx hy => ?_
  rw [lookup_map_snd (Value.normalForm .node)] at hx
  rw [lookup_map_snd fun v => (ofValue v).toValue] at hy
  obtain ⟨v, hv, rfl⟩ := Option.map_eq_some_iff.mp hx
  rw [hv, Option.map_some, Option.some.injEq] at hy
  exact hy ▸ h _ (mem_of_lookup hv)

/-- What the normal form keeps of a member. -/
def kept (role : Role) (key : String) (v : Value) : Option Value :=
  if role.drops key v then none else some (v.normalForm (role.below key))

theorem kept_null {role : Role} (hrole : role = .node ∨ role = .union) :
    kept role key .null = none := by
  rcases hrole with rfl | rfl <;> rfl

theorem kept_unknown {role : Role} {known : List String} (hrole : role.keys? = some known)
    (hkey : key ∉ known) : kept role key v = none := by
  refine if_pos ?_
  simp only [Role.drops, hrole]
  split <;> simp [hkey]

section keyword
variable {role : Role} {n : Nat}

/-- A map is kept as it is written again. -/
theorem rel_map (ih : ∀ w : Value, w.height < n → Normalises w) (hn : v.height < n)
    (hv : v.distinctKeys = true) (hrole : role = .node ∨ role = .union)
    (hbelow : role.below key = .map)
    (hkept : ∀ members, role.drops key (.object members) = false) (hshape : MapShape v) :
    Option.Rel (Rearranged (role.below key)) (kept role key v) ((mapOfValue v).map mapToValue) := by
  cases hshape with
  | null =>
    rw [kept_null hrole, mapOfValue]
    · exact .none
    · simp
  | @map members hmembers =>
    rw [kept, hkept, hbelow, mapOfValue]
    refine .some (rearranged_map fun entry hentry => ?_)
    refine ih _ ((Value.height_lt_of_mem_members hentry).trans hn) (hmembers _ _ hentry) ?_
    exact (Value.distinctKeys_object_iff.mp hv).2 entry hentry

/-- A node is kept as it is written again. -/
theorem rel_node (ih : ∀ w : Value, w.height < n → Normalises w) (hn : v.height < n)
    (hv : v.distinctKeys = true) (hbelow : Role.node.below key = .node)
    (hkept : ∀ members, Role.node.drops key (.object members) = false) (hshape : OptionalShape v) :
    Option.Rel (Rearranged (Role.node.below key)) (kept .node key v)
      ((nodeOfValue v).map toValue) := by
  cases hshape with
  | null =>
    rw [kept_null (.inl rfl), nodeOfValue]
    · exact .none
    · simp
  | node hnode =>
    cases v with
    | object members =>
      have hnormal := ih _ hn hnode hv
      rw [ofValue] at hnormal
      rw [kept, hkept, hbelow, nodeOfValue]
      exact .some hnormal
    | _ => cases hnode

/-- The text of a tag, empty if there is none, is kept as it is written again. -/
theorem tag_kept {tag? : Option Value} (htag : ∀ v, tag? = some v → TextShape v) :
    (tag?.bind (kept .union "tag")).getD (.string "") =
      .string ((tag?.bind Value.toString?).getD "") := by
  cases tag? with
  | none => rfl
  | some v =>
    cases htag v rfl with
    | null => rfl
    | text text =>
      have hkept : Role.union.drops "tag" (.string text) = false := by
        by_cases htext : text = ""
        · rw [htext]
          rfl
        · simp [Role.drops, Role.keys?, htext]
      rw [Option.bind_some, kept, hkept]
      rfl

/-- A tagged union is kept with a tag, and with its mapping as it is written again. -/
theorem rearranged_union {parts : List (String × Value)} (hnodup : (parts.map (·.1)).Nodup)
    (htag : ∀ v, ("tag", v) ∈ parts → TextShape v)
    (hmapping : ∀ v, ("mapping", v) ∈ parts → Option.Rel (Rearranged .map)
      (kept .union "mapping" v) ((mapOfValue v).map mapToValue)) :
    Rearranged .union ((Value.object parts).normalForm .union)
      (unionToValue (discriminatorOfMembers parts)) := by
  have hlookup : ∀ key, (normalMembers .union parts).lookup key =
      (parts.lookup key).bind (kept .union key) := fun key => lookup_normalMembers hnodup
  rw [Value.normalForm, unionToValue, discriminatorOfMembers_eq]
  refine .of_lookup (.inr rfl) (nodup_tagged (hnodup.sublist keys_normalMembers_sublist)) ?_
    fun key => ?_
  · rw [List.map_cons]
    cases (parts.lookup "mapping").bind mapOfValue <;> simp [member?]
  · rw [lookup_tagged, hlookup, hlookup]
    by_cases hkey : key = "tag"
    · subst hkey
      rw [if_pos rfl, List.lookup_cons_self, tag_kept fun v hv => htag v (mem_of_lookup hv)]
      exact .some (.same _)
    · rw [if_neg hkey, lookup_cons_of_ne hkey]
      by_cases hkey' : key = "mapping"
      · subst hkey'
        rw [lookup_member?_self, Option.map_bind]
        exact rel_bind fun v hv => hmapping v (mem_of_lookup hv)
      · have hunknown : key ∉ ["tag", "mapping"] := by simp [hkey, hkey']
        have hkept : (parts.lookup key).bind (kept .union key) = none :=
          Option.bind_eq_none_iff.mpr fun v _ => kept_unknown rfl hunknown
        rw [hkept, lookup_member?_of_ne hkey']
        exact .none

/-- A tagged union is kept as it is written again. -/
theorem rel_union (ih : ∀ w : Value, w.height < n → Normalises w) (hn : v.height < n)
    (hv : v.distinctKeys = true) (hshape : UnionShape v) :
    Option.Rel (Rearranged .union) (kept .node "discriminator" v)
      ((unionOfValue v).map unionToValue) := by
  cases hshape with
  | null => exact .none
  | @union parts htag hmapping =>
    obtain ⟨hnodup, hparts⟩ := Value.distinctKeys_object_iff.mp hv
    refine .some (rearranged_union hnodup htag fun v hv => ?_)
    have hheight : v.height < n := (Value.height_lt_of_mem_members hv).trans hn
    have hbelow : Role.union.below "mapping" = .map := rfl
    exact rel_map ih hheight (hparts _ hv) (.inr rfl) hbelow (fun _ => rfl) (hmapping v hv)

theorem map_strings {items : List Value} (h : ∀ x ∈ items, ∃ text, x = .string text) :
    (Value.strings items).map .string = items := by
  induction items with
  | nil => rfl
  | cons x rest ih =>
    rw [List.forall_mem_cons] at h
    obtain ⟨⟨text, rfl⟩, hrest⟩ := h
    show Value.string text :: (Value.strings rest).map .string = _
    rw [ih hrest]

/-- Under every keyword the normal form keeps what is written again. -/
theorem rel_rewritten (ih : ∀ w : Value, w.height < n → Normalises w) (hn : v.height < n)
    (hv : v.distinctKeys = true) (hshape : KeywordShape key v) :
    Option.Rel (Rearranged (Role.node.below key)) (kept .node key v) (rewritten key v) := by
  unfold rewritten
  split
  case h_4 =>
    cases hshape with
    | null => exact .none
    | text text =>
      have hkept : Role.node.drops "ref" (.string text) = false := by
        by_cases htext : text = ""
        · rw [htext]
          decide
        · simp [Role.drops, Role.keys?, htext, keywords]
      rw [kept, hkept]
      exact .some (.same _)
  case h_5 =>
    cases hshape with
    | null => exact .none
    | text text =>
      by_cases htext : text = ""
      · rw [htext]
        exact .none
      · have hkept : Role.node.drops "type" (.string text) = false := by
          simp [Role.drops, Role.keys?, htext, keywords]
        rw [kept, hkept, Value.toString?, Option.filter_some_pos (by simp [htext])]
        exact .some (.same _)
  case h_6 =>
    cases hshape with
    | null => exact .none
    | @texts items hitems =>
      rw [textsOfValue, Option.map_some, map_strings hitems]
      exact .some (.same _)
  case h_7 => exact rel_node ih hn hv rfl (fun _ => rfl) hshape
  case h_8 => exact rel_node ih hn hv rfl (fun _ => rfl) hshape
  case h_9 => exact rel_union ih hn hv hshape
  case h_10 hdefinitions hproperties hoptional href htype henum helements hvalues hunion =>
    have hkey : key ∉ keywords := by
      simp only [keywords, List.mem_cons, List.not_mem_nil, or_false, not_or]
      exact ⟨hdefinitions, href, htype, henum, helements, hproperties, hoptional, hvalues, hunion⟩
    rw [kept_unknown rfl hkey]
    exact .none
  all_goals exact rel_map ih hn hv (.inl rfl) rfl (fun _ => rfl) hshape

end keyword

/-- **What is written again of a schema document is its normal form, rearranged.** -/
theorem normalises (v : Value) : Normalises v := by
  induction hn : v.height using Nat.strongRecOn generalizing v with
  | ind n ih =>
    subst hn
    intro hshape hv
    cases v with
    | object members =>
      obtain ⟨hnodup, hmembers⟩ := Value.distinctKeys_object_iff.mp hv
      obtain ⟨members', hmembers', hnodup', hlookup⟩ := (ofMembers members).exists_written
      rw [ofValue, hmembers', Value.normalForm]
      refine .of_lookup (.inl rfl) (hnodup.sublist keys_normalMembers_sublist) hnodup' fun key => ?_
      have hkept : (normalMembers .node members).lookup key =
          (members.lookup key).bind (kept .node key) := lookup_normalMembers hnodup
      show Option.Rel _ ((normalMembers .node members).lookup key) _
      rw [hkept, hlookup, written_ofMembers]
      refine rel_bind fun v hlook => ?_
      have hmem := mem_of_lookup hlook
      exact rel_rewritten (fun w hw => ih _ hw w rfl) (Value.height_lt_of_mem_members hmem)
        (hmembers _ hmem) (wireShape_object_iff.mp hshape _ hmem)
    | _ => cases hshape

/-- **A document that is decoded can be written out again.** What is written is decoded to the same
schema, and it is the normal form of the document, but for the order of keywords. -/
theorem decode_toValue (v : Value) (hv : v.distinctKeys = true) (s : Schema)
    (h : decode v = .ok s) :
    decode s.toValue = .ok s ∧ Rearranged .node (v.normalForm .node) s.toValue := by
  obtain ⟨hshape, -, rfl⟩ := decode_eq_ok_iff.mp h
  exact ⟨decode_toValue_of_tidy (tidy_ofValue v), normalises v hshape hv⟩

/-- A document with keywords that count for nothing, and a tagged union without a tag. -/
theorem decode_toValue_of_members :
    let v := Value.object [("x", .int 1), ("ref", .null),
      ("values", .object [("type", .string ""), ("ref", .string "")]),
      ("discriminator", .object [("mapping", .object [("b", .object []), ("a", .object [])])]),
      ("properties", .object [])]
    let normal := Value.object [("values", .object [("ref", .string "")]),
      ("discriminator", .object [("tag", .string ""),
        ("mapping", .object [("b", .object []), ("a", .object [])])]),
      ("properties", .object [])]
    v.distinctKeys = true ∧ ∃ s, decode v = .ok s ∧ decode s.toValue = .ok s ∧
      Rearranged .node normal s.toValue := by
  intro v normal
  have hv : v.distinctKeys = true := by decide
  have h : decode v = .ok (ofValue v) := by
    refine decode_eq_ok ((nodeMisfits_eq_nil_iff v).mp ?_) (by decide)
    rfl
  have hnormal : v.normalForm .node = normal := by rfl
  exact ⟨hv, ofValue v, h, hnormal ▸ decode_toValue v hv (ofValue v) h⟩

end SchemaForms.Schema
