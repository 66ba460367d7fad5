import SchemaForms.Proofs.Value.Reordered
import SchemaForms.Schema.Wire

/-!
# The normal form of a schema document

A schema document says the same with and without the members that count for nothing. `normalForm`
drops them at every depth, and writes the tag of a tagged union that has none as the empty name.
What counts for nothing depends on what a part of the document stands for, its `Role`. Two documents
are *rearranged* if they are the same but for the order of the keywords of schemas and of the parts
of tagged unions; the entries of a map keep their order.
-/

namespace SchemaForms

/-- The keywords of a schema, in the order in which they are written. -/
def Schema.keywords : List String :=
  ["definitions", "ref", "type", "enum", "elements", "properties", "optionalProperties", "values",
    "discriminator"]

/-- What a part of a schema document stands for. -/
inductive Role where
  | node
  | map
  | union
  | plain
  deriving DecidableEq, Repr

namespace Role

/-- The keys that mean something, where only some keys do. -/
def keys? : Role → Option (List String)
  | node => some Schema.keywords
  | union => some ["tag", "mapping"]
  | map | plain => none

/-- What the value under a key stands for. -/
def below : Role → String → Role
  | node, "definitions" | node, "properties" | node, "optionalProperties" => map
  | node, "elements" | node, "values" => node
  | node, "discriminator" => union
  | map, _ => node
  | union, "mapping" => map
  | _, _ => plain

/-- Whether a member counts for nothing: its key means nothing, its value is null, or it is an empty
type. -/
def drops (role : Role) (key : String) (v : Value) : Bool :=
  match role.keys? with
  | none => false
  | some known =>
    match v with
    | .null => true
    | .string "" => key ∉ known || role = node && key = "type"
    | _ => key ∉ known

/-- The members with an empty tag, where there has to be one and is none. -/
def tagged : Role → List (String × Value) → List (String × Value)
  | union, members => if hasKey members "tag" then members else ("tag", .string "") :: members
  | _, members => members

end Role

mutual
/-- A document of the role without the members that count for nothing, at any depth, and with a tag
in every tagged union. -/
def Value.normalForm (role : Role) : Value → Value
  | .object members => .object (role.tagged (normalMembers role members))
  | v => v

/-- The members that do not count for nothing, each in its normal form. -/
def normalMembers (role : Role) : List (String × Value) → List (String × Value)
  | [] => []
  | (key, v) :: rest =>
    if role.drops key v then normalMembers role rest
    else (key, v.normalForm (role.below key)) :: normalMembers role rest
end

/-- The same document of the role, but for the order of the keywords of schemas and of the parts of
tagged unions. -/
inductive Rearranged : Role → Value → Value → Prop
  | same {role : Role} (v : Value) : Rearranged role v v
  | inOrder {members members' : List (String × Value)}
      (hkeys : members.map (·.1) = members'.map (·.1))
      (h : ∀ key x y, members.lookup key = some x → members'.lookup key = some y →
        Rearranged .node x y) : Rearranged .map (.object members) (.object members')
  | inAnyOrder {role : Role} {members members' : List (String × Value)}
      (hrole : role = .node ∨ role = .union)
      (hkeys : (members.map (·.1)).Perm (members'.map (·.1)))
      (h : ∀ key x y, members.lookup key = some x → members'.lookup key = some y →
        Rearranged (role.below key) x y) : Rearranged role (.object members) (.object members')

section members
variable {role : Role} {key : String} {members members' : List (String × Value)}

/-! ## Members of a normal form -/

theorem keys_normalMembers_sublist :
    ((normalMembers role members).map (·.1)).Sublist (members.map (·.1)) := by
  induction members with
  | nil => exact .refl _
  | cons entry rest ih =>
    rw [normalMembers]
    split_ifs
    · exact ih.cons _
    · exact ih.cons_cons _

theorem normalMembers_eq_map (hdrops : ∀ entry ∈ members, role.drops entry.1 entry.2 = false) :
    normalMembers role members =
      members.map fun entry => (entry.1, entry.2.normalForm (role.below entry.1)) := by
  induction members with
  | nil => rw [normalMembers, List.map_nil]
  | cons entry rest ih =>
    rw [List.forall_mem_cons] at hdrops
    rw [normalMembers, if_neg (by simp [hdrops.1]), ih hdrops.2, List.map_cons]

/-- A key looks up the normal form of what it looked up, unless that counts for nothing. -/
theorem lookup_normalMembers (hnodup : (members.map (·.1)).Nodup) :
    (normalMembers role members).lookup key = (members.lookup key).bind fun v =>
      if role.drops key v then none else some (v.normalForm (role.below key)) := by
  induction members with
  | nil => rfl
  | cons entry rest ih =>
    obtain ⟨name, v⟩ := entry
    obtain ⟨hname, hrest⟩ := List.nodup_cons.mp hnodup
    by_cases hkey : key = name
    · subst hkey
      have hnone : (normalMembers role rest).lookup key = none := by
        refine lookup_eq_none_iff_keys.mpr fun hmem => hname ?_
        exact keys_normalMembers_sublist.subset hmem
      rw [normalMembers, List.lookup_cons_self, Option.bind_some]
      split_ifs
      · exact hnone
      · exact List.lookup_cons_self
    · rw [normalMembers, lookup_cons_of_ne hkey]
      split_ifs
      · exact ih hrest
      · rw [lookup_cons_of_ne hkey]
        exact ih hrest

theorem nodup_tagged (hnodup : (members.map (·.1)).Nodup) :
    ((role.tagged members).map (·.1)).Nodup := by
  unfold Role.tagged
  split
  · split_ifs with htag
    · exact hnodup
    · refine List.nodup_cons.mpr ⟨fun hmem => htag ?_, hnodup⟩
      simpa [hasKey] using hmem
  · exact hnodup

/-- A tagged union has a tag; where there was none it is empty. -/
theorem lookup_tagged (key : String) : (Role.union.tagged members).lookup key =
    if key = "tag" then some ((members.lookup "tag").getD (.string "")) else members.lookup key := by
  rw [Role.tagged]
  by_cases htag : hasKey members "tag" = true
  · rw [if_pos htag]
    split_ifs with hkey
    · have hmem : "tag" ∈ members.map (·.1) := by simpa [hasKey] using htag
      obtain ⟨v, hv⟩ := exists_lookup_of_mem_keys hmem
      rw [hkey, hv, Option.getD_some]
    · rfl
  · rw [if_neg htag]
    split_ifs with hkey
    · have hnone : members.lookup "tag" = none :=
        lookup_eq_none_iff_keys.mpr (by simpa [hasKey] using htag)
      rw [hkey, hnone, List.lookup_cons_self, Option.getD_none]
    · exact lookup_cons_of_ne hkey

/-! ## Rearranged members -/

theorem keys_perm_of_lookup {α β : Type} {R : String → α → β → Prop} {a : List (String × α)}
    {b : List (String × β)} (ha : (a.map (·.1)).Nodup) (hb : (b.map (·.1)).Nodup)
    (h : ∀ key, Option.Rel (R key) (a.lookup key) (b.lookup key)) :
    (a.map (·.1)).Perm (b.map (·.1)) := by
  refine (List.perm_ext_iff_of_nodup ha hb).mpr fun key => ?_
  have hnone : a.lookup key = none ↔ b.lookup key = none := by
    rcases rel_cases (h key) with ⟨hx, hy⟩ | ⟨x, y, hx, hy, -⟩ <;> simp [hx, hy]
  rw [lookup_eq_none_iff_keys, lookup_eq_none_iff_keys] at hnone
  exact not_iff_not.mp hnone

/-- Members are rearranged when every key looks up values of which one is the other rearranged. -/
theorem Rearranged.of_lookup (hrole : role = .node ∨ role = .union)
    (hnodup : (members.map (·.1)).Nodup) (hnodup' : (members'.map (·.1)).Nodup)
    (h : ∀ key, Option.Rel (Rearranged (role.below key)) (members.lookup key)
      (members'.lookup key)) :
    Rearranged role (.object members) (.object members') := by
  refine .inAnyOrder hrole (keys_perm_of_lookup hnodup hnodup' h) fun key x y hx hy => ?_
  have hkey := h key
  rw [hx, hy] at hkey
  cases hkey with
  | some hxy => exact hxy

end members

end SchemaForms
