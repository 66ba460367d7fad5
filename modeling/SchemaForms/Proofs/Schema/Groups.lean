import Mathlib.Logic.Basic
import Mathlib.Tactic.ByContra
import SchemaForms.Schema.Check

/-!
# Keyword groups

A node *populates* a form if it has the keywords of that form, whatever else it has. `Schema.rule`
reads a node by precedence, so in general it sees only the first group; `rule_readOff` says which
keywords a rule was read off, and `Sole.rule_eq` that a node of one group at most has the rule
of that group.
-/

namespace SchemaForms

/-- The keys of a map that may be absent. -/
def keys {α : Type} (map : Option (List (String × α))) : List String :=
  (entries map).map (·.1)

theorem mem_entries {α : Type} {map : Option (List (String × α))} {entry : String × α} :
    entry ∈ entries map ↔ ∃ members, map = some members ∧ entry ∈ members := by
  cases map <;> simp [entries]

theorem hasKey_entries {α : Type} (map : Option (List (String × α))) (key : String) :
    hasKey (entries map) key = true ↔ key ∈ keys map := by
  simp [hasKey, keys]

theorem lookup_eq_none_iff_keys {α : Type} {members : List (String × α)} {key : String} :
    members.lookup key = none ↔ key ∉ members.map (·.1) := by
  rw [List.lookup_eq_none_iff]
  simp only [List.mem_map, not_exists, not_and, bne_iff_ne]
  exact ⟨fun h p hp he => h p hp he.symm, fun h p hp he => h p hp he.symm⟩

theorem exists_lookup_of_mem_keys {α : Type} {members : List (String × α)} {key : String}
    (h : key ∈ members.map (·.1)) : ∃ x, members.lookup key = some x := by
  cases hx : members.lookup key with
  | none => exact absurd h (lookup_eq_none_iff_keys.mp hx)
  | some x => exact ⟨x, rfl⟩

theorem mem_of_lookup {α : Type} {members : List (String × α)} {key : String} {x : α}
    (h : members.lookup key = some x) : (key, x) ∈ members := by
  obtain ⟨before, after, rfl, _⟩ := List.lookup_eq_some_iff.mp h
  simp

theorem lookup_cons_of_ne {α : Type} {key name : String} {x : α} {rest : List (String × α)}
    (h : key ≠ name) : ((name, x) :: rest).lookup key = rest.lookup key := by
  rw [List.lookup_cons, beq_false_of_ne h]

theorem lookup_append_cons_of_ne {α : Type} {before after : List (String × α)}
    {key name : String} {x : α} (h : key ≠ name) :
    (before ++ (name, x) :: after).lookup key = (before ++ after).lookup key := by
  induction before with
  | nil => exact lookup_cons_of_ne h
  | cons entry rest ih =>
    rw [List.cons_append, List.cons_append, List.lookup_cons, List.lookup_cons, ih]

theorem lookup_filter_of_keep {α : Type} (keep : String → Bool) {key : String}
    (hkey : keep key = true) (members : List (String × α)) :
    (members.filter fun entry => keep entry.1).lookup key = members.lookup key := by
  induction members with
  | nil => rfl
  | cons entry rest ih =>
    obtain ⟨name, x⟩ := entry
    by_cases hname : key = name
    · subst hname
      rw [List.filter_cons, if_pos hkey, List.lookup_cons_self, List.lookup_cons_self]
    · rw [lookup_cons_of_ne hname, ← ih, List.filter_cons]
      split
      · exact lookup_cons_of_ne hname
      · rfl

theorem lookup_map_snd {α β : Type} (f : α → β) (members : List (String × α)) (key : String) :
    (members.map fun entry => (entry.1, f entry.2)).lookup key = (members.lookup key).map f := by
  induction members with
  | nil => rfl
  | cons entry rest ih =>
    obtain ⟨name, x⟩ := entry
    rw [List.map_cons, List.lookup_cons, List.lookup_cons, ih]
    cases key == name <;> rfl

namespace Schema

variable {s : Schema}

/-- The node has the keywords of a form: an empty type counts as none, and a discriminator without
a mapping does too. Nothing populates the empty form. -/
def Populates (s : Schema) : Form → Prop
  | .empty => False
  | .ref => ∃ name, s.ref = some name
  | .type => ∃ typeName, s.type = some typeName ∧ typeName ≠ ""
  | .enum => ∃ values, s.enum = some values
  | .elements => ∃ item, s.elements = some item
  | .properties =>
    (∃ required, s.properties = some required) ∨ ∃ optional, s.optionalProperties = some optional
  | .values => ∃ member, s.values = some member
  | .discriminator => ∃ tag mapping, s.discriminator = some ⟨tag, some mapping⟩

/-- The node has the keywords of one form at most. -/
def Sole (s : Schema) : Prop :=
  ∀ f g, s.Populates f → s.Populates g → f = g

end Schema

/-- The keywords of a node that a rule is read off. -/
def Rule.ReadOff (s : Schema) : Rule → Prop
  | anything => ∀ f, ¬ s.Populates f
  | definition name => s.ref = some name
  | scalar typeName => s.type = some typeName ∧ typeName ≠ ""
  | oneOf texts => s.enum = some texts
  | elements item => s.elements = some item
  | properties required optional =>
    s.properties = required ∧ s.optionalProperties = optional ∧ s.Populates .properties
  | values member => s.values = some member
  | tagged tag mapping => s.discriminator = some ⟨tag, some mapping⟩

namespace Schema

variable {s : Schema}

theorem typeName?_eq_some_iff {typeName : String} :
    s.typeName? = some typeName ↔ s.type = some typeName ∧ typeName ≠ "" := by
  simp [typeName?]

theorem typeName?_eq_none_iff : s.typeName? = none ↔ ¬ s.Populates .type := by
  cases h : s.typeName? with
  | none =>
    simp only [true_iff, Populates, ← typeName?_eq_some_iff, h]
    simp
  | some typeName =>
    simp only [reduceCtorEq, false_iff, not_not]
    exact ⟨typeName, typeName?_eq_some_iff.mp h⟩

theorem mapping?_eq_some_iff {d : Discriminator Schema} {mapping : List (String × Schema)} :
    s.mapping? = some (d, mapping) ↔
      s.discriminator = some d ∧ d.mapping = some mapping := by
  simp only [mapping?, Option.bind_eq_some_iff, Option.map_eq_some_iff, Prod.mk.injEq]
  constructor
  · rintro ⟨d', hd, mapping', hm, rfl, rfl⟩
    exact ⟨hd, hm⟩
  · rintro ⟨hd, hm⟩
    exact ⟨d, hd, mapping, hm, rfl, rfl⟩

theorem mapping?_eq_none_iff : s.mapping? = none ↔ ¬ s.Populates .discriminator := by
  cases h : s.mapping? with
  | none =>
    simp only [true_iff, Populates]
    rintro ⟨tag, mapping, hd⟩
    have := mapping?_eq_some_iff.mpr ⟨hd, rfl⟩
    simp [h] at this
  | some p =>
    obtain ⟨⟨tag, m⟩, mapping⟩ := p
    obtain ⟨hd, hm⟩ := mapping?_eq_some_iff.mp h
    simp only [reduceCtorEq, false_iff, not_not]
    exact ⟨tag, mapping, by rw [hd]; exact congrArg _ (congrArg _ hm)⟩

/-- A rule is read off keywords that the node has. -/
theorem rule_readOff (s : Schema) : s.rule.ReadOff s := by
  unfold rule
  split
  case h_1 href => exact href
  case h_2 htype => exact typeName?_eq_some_iff.mp htype
  case h_3 henum => exact henum
  case h_4 helements => exact helements
  case h_5 hrequired => exact ⟨hrequired, rfl, .inl ⟨_, hrequired⟩⟩
  case h_6 hrequired hoptional => exact ⟨hrequired, hoptional, .inr ⟨_, hoptional⟩⟩
  case h_7 hvalues => exact hvalues
  case h_8 hmapping =>
    obtain ⟨hd, hm⟩ := mapping?_eq_some_iff.mp hmapping
    simp only [Rule.ReadOff, hd, ← hm]
  case h_9 href htype henum helements hrequired hoptional hvalues hmapping =>
    intro f hf
    cases f with
    | empty => exact hf
    | type => exact typeName?_eq_none_iff.mp htype hf
    | discriminator => exact mapping?_eq_none_iff.mp hmapping hf
    | _ => simp_all [Populates]

/-- A rule that is read off the node, the empty one apart, is of a form that the node populates. -/
theorem populates_of_readOff {r : Rule} (h : r.ReadOff s) (hne : r.form ≠ .empty) :
    s.Populates r.form := by
  cases r with
  | anything => exact absurd rfl hne
  | definition name => exact ⟨name, h⟩
  | scalar typeName => exact ⟨typeName, h⟩
  | oneOf texts => exact ⟨texts, h⟩
  | elements item => exact ⟨item, h⟩
  | properties required optional => exact h.2.2
  | values member => exact ⟨member, h⟩
  | tagged tag mapping => exact ⟨tag, mapping, h⟩

theorem populates_of_form_eq {f : Form} (h : s.form = f) (hne : f ≠ .empty) : s.Populates f := by
  subst h
  exact populates_of_readOff s.rule_readOff hne

theorem form_eq_empty_iff : s.form = .empty ↔ ∀ f, ¬ s.Populates f := by
  have h := s.rule_readOff
  constructor
  · intro he
    have hr : s.rule = .anything := by
      unfold form at he
      cases hr : s.rule with
      | anything => rfl
      | _ => simp [hr, Rule.form] at he
    rwa [hr] at h
  · intro hn
    by_contra hne
    exact hn _ (populates_of_form_eq rfl hne)

/-- A node of one group at most is of the form of that group. -/
theorem Sole.form_eq (hs : s.Sole) {f : Form} (hf : s.Populates f) : s.form = f := by
  by_cases he : s.form = .empty
  · exact absurd hf (form_eq_empty_iff.mp he f)
  · exact hs _ _ (populates_of_form_eq rfl he) hf

/-- A node of one group at most has the one rule that can be read off it. -/
theorem Sole.rule_eq (hs : s.Sole) {r : Rule} (h : r.ReadOff s) : s.rule = r := by
  have hform : s.rule.form = r.form := by
    by_cases he : r.form = .empty
    · cases r with
      | anything => exact form_eq_empty_iff.mpr h
      | _ => simp [Rule.form] at he
    · exact hs.form_eq (populates_of_readOff h he)
  have h' := s.rule_readOff
  generalize s.rule = r' at hform h'
  cases r <;> cases r' <;> simp_all [Rule.form, Rule.ReadOff]

end Schema

end SchemaForms
