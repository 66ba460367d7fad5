import Mathlib.Data.List.Perm.Subperm
import SchemaForms.Proofs.Schema.Path
import SchemaForms.Proofs.Yaml.Merge
import SchemaForms.Proofs.Yaml.Store
import SchemaForms.Yaml.Construction

/-!
# What a document promises

A graph is plain when no node is tagged as what JSON cannot express. `Graph.Breaks` lists how a node
of a plain graph may fail to keep the promise of its tag and be told by an error that is none of
YAML: a text that does not say what was promised, a key that is no string and cannot be shown, a
mapping that stands for itself. `Graph.Yields` is what holds of every value that a node of a plain
graph comes to: everything in it has a kind, and it can be shown unless an integer within the node
is too long for that.
-/

namespace SchemaForms

/-- Everything in the value has a kind. -/
def Value.Kinded (v : Value) : Prop := ∀ path w, v.Reaches path w → ∃ kind, w.kindOf = .ok kind

namespace Yaml

/-- Whether a tag promises what JSON cannot express. -/
def Sense.isForeign : Sense → Bool
  | .binary | .timestamp | .set | .orderedMap | .pairs => true
  | _ => false

/-- What a node promises by its tag. -/
def Node.sense? (node : Node) : Option Sense := Sense.ofTag? node.tag

namespace Graph

open Relation (ReflTransGen TransGen)

/-- Whether no node promises what JSON cannot express. -/
def isPlain (g : Graph) : Bool := g.all fun node => !node.sense?.any Sense.isForeign

/-- The second node is an item of the first, or the key or the value of a pair of it. -/
inductive PartOf (g : Graph) (n : Nat) : Nat → Prop
  | item {items : List Nat} {m : Nat} (h : (g.node n).content = .sequence items) (hm : m ∈ items) :
      PartOf g n m
  | key {m value : Nat} (h : (m, value) ∈ (g.node n).pairs) : PartOf g n m
  | value {key m : Nat} (h : (key, m) ∈ (g.node n).pairs) : PartOf g n m

/-- The second node is the first one, a part of it, a part of a part, and so on. -/
abbrev Within (g : Graph) : Nat → Nat → Prop := ReflTransGen g.PartOf

/-- The second node is the value in a pair whose key is tagged as the value of the first one, a
mapping; the pair is one of its own or merged into it. -/
def StandsFor (g : Graph) (n m : Nat) : Prop :=
  ∃ key, g.Has n (key, m) ∧ (g.node key).isValueKey = true

/-- The text of a scalar, or that of the scalar a mapping stands for. -/
def Says (g : Graph) (n : Nat) (text : String) : Prop :=
  ∃ m, ReflTransGen g.StandsFor n m ∧ (g.node m).content = .scalar text

/-- The node stands, in turn, for one that stands for itself. -/
def GoesRound (g : Graph) (n : Nat) : Prop :=
  ∃ m, ReflTransGen g.StandsFor n m ∧ TransGen g.StandsFor m m

/-- Within the node stands an integer that is too long to be shown. -/
def HoldsLong (g : Graph) (n : Nat) : Prop :=
  ∃ m text i, g.Within n m ∧ (g.node m).sense? = some .int ∧ g.Says m text ∧
    Meaning.integer text = .ok i ∧ (Value.int i).isShowable = false

/-- The error of a node that does not keep the promise of its tag. -/
inductive Breaks (g : Graph) : Error → Prop
  | truth {n : Nat} {text : String} {e : Error} (hsense : (g.node n).sense? = some .bool)
      (htext : g.Says n text) (h : Meaning.truth text = .error e) : Breaks g e
  | integer {n : Nat} {text : String} {e : Error} (hsense : (g.node n).sense? = some .int)
      (htext : g.Says n text) (h : Meaning.integer text = .error e) : Breaks g e
  | double {n : Nat} {text : String} {e : Error} (hsense : (g.node n).sense? = some .float)
      (htext : g.Says n text) (h : Meaning.double text = .error e) : Breaks g e
  /-- A scalar that is tagged as a mapping. -/
  | shortPair {n : Nat} {text : String} (hsense : (g.node n).sense? = some .map)
      (h : (g.node n).content = .scalar text) (hne : text ≠ "") : Breaks g .shortPair
  /-- A sequence that is tagged as a mapping. -/
  | notPairs {n first : Nat} {rest : List Nat} (hsense : (g.node n).sense? = some .map)
      (h : (g.node n).content = .sequence (first :: rest)) :
      Breaks g (.notPairs (g.node first).kind)
  /-- A key that was not to be a string, with an integer in it too long for the message on that. -/
  | tooLong {n key value : Nat} (hpair : (key, value) ∈ (g.node n).pairs)
      (hsense : (g.node key).sense? ≠ some .str) (hlong : g.HoldsLong key) :
      Breaks g .tooLongToShow
  /-- A mapping that is tagged as a scalar, and stands for no text. -/
  | endless {n : Nat} (hmap : (g.node n).sense? ≠ some .map)
      (hseq : (g.node n).sense? ≠ some .seq) (hround : g.GoesRound n) : Breaks g .endless

/-- An error of YAML, or that of a node that does not keep its promise. -/
def Refuses (g : Graph) (e : Error) : Prop := e.IsYaml ∨ g.Breaks e

/-- What holds of everything that a node of a plain graph comes to. -/
structure Yields (g : Graph) (n : Nat) (v : Value) : Prop where
  kinded : v.Kinded
  shown : v.isShowable = true ∨ g.HoldsLong n

variable {g g' : Graph} {n m : Nat} {sense : Sense} {text : String}

/-! ## Parts -/

theorem Merges.within (h : g.Merges n m) : g.Within n m := by
  obtain ⟨key, source, hpair, -, rfl | ⟨items, hitems, hm⟩⟩ := h
  · exact .single (.value hpair)
  · exact .tail (.single (.value hpair)) (.item hitems hm)

theorem Has.within {key : Nat} (h : g.Has n (key, m)) : g.Within n m := by
  obtain ⟨k, hk, hpair⟩ := h
  have hwithin : g.Within n k := hk.lift' id fun _ _ => Merges.within
  exact hwithin.tail (.value hpair)

/-! ## Senses -/

theorem sense?_of_later (h : g.Later g') (hs : (g'.node n).sense? = some sense) :
    (g.node n).sense? = some sense ∨ sense = .str ∧ (g.node n).sense? = none := by
  rcases (h.node n).tag with heq | ⟨hkey, heq⟩
  · rw [Node.sense?, heq] at hs
    exact .inl hs
  · have hvalue : (g.node n).tag = coreTag "value" := of_decide_eq_true hkey
    rw [Node.sense?, heq, show Sense.ofTag? (coreTag "str") = some .str by decide +kernel,
      Option.some.injEq] at hs
    refine .inr ⟨hs.symm, ?_⟩
    rw [Node.sense?, hvalue]
    decide +kernel

/-- A number without a node stands for an empty scalar, which promises nothing. -/
theorem node_of_size_le (h : g.size ≤ n) : g.node n = .empty .start := by
  rw [Graph.node, Array.getD_eq_getD_getElem?, Array.getElem?_eq_none h, Option.getD_none]

theorem sense?_of_size_le (h : g.size ≤ n) : (g.node n).sense? = some .null := by
  rw [node_of_size_le h]
  decide +kernel

theorem not_isForeign (hplain : g.isPlain = true) (h : g.Later g')
    (hs : (g'.node n).sense? = some sense) : ¬ sense.isForeign := by
  rcases sense?_of_later h hs with hs | ⟨rfl, -⟩
  · by_cases hn : n < g.size
    · have hnode : g.node n = g[n] := by
        rw [Graph.node, Array.getD_eq_getD_getElem?, Array.getElem?_eq_getElem hn, Option.getD_some]
      have hall := Array.all_eq_true.mp hplain n hn
      rw [← hnode, hs] at hall
      simpa using hall
    · rw [sense?_of_size_le (Nat.le_of_not_lt hn), Option.some.injEq] at hs
      subst hs
      decide
  · decide

/-! ## Nodes on the way to a node -/

/-- Different nodes of the graph. -/
structure Distinct (g : Graph) (u : List Nat) : Prop where
  nodup : u.Nodup
  bound : ∀ m ∈ u, m < g.size

namespace Distinct

variable {u : List Nat}

theorem nil (g : Graph) : Distinct g [] := ⟨.nil, nofun⟩

theorem cons (h : Distinct g u) (hn : n ∉ u) (hsize : n < g.size) : Distinct g (n :: u) where
  nodup := List.nodup_cons.mpr ⟨hn, h.nodup⟩
  bound := List.forall_mem_cons.mpr ⟨hsize, h.bound⟩

theorem length_le (h : Distinct g u) : u.length ≤ g.size := by
  have hsubperm : u.Subperm (List.range g.size) :=
    h.nodup.subperm fun m hm => List.mem_range.mpr (h.bound m hm)
  simpa using hsubperm.length_le

end Distinct

/-! ## Texts -/

/-- A scalar says its own text and no other. -/
theorem says_scalar_iff {own : String} (h : (g.node n).content = .scalar own) :
    g.Says n text ↔ own = text := by
  have hno (m : Nat) : ¬ g.StandsFor n m := by
    rintro ⟨key, ⟨m', hm', hpair⟩, -⟩
    rcases hm'.cases_head with rfl | ⟨k, ⟨_, _, hpair', -⟩, -⟩
    · simp [Node.pairs, h] at hpair
    · simp [Node.pairs, h] at hpair'
  constructor
  · rintro ⟨m, hm, htext⟩
    rcases hm.cases_head with rfl | ⟨k, hk, -⟩
    · simpa [h] using htext
    · exact absurd hk (hno k)
  · rintro rfl
    exact ⟨n, .refl, h⟩

theorem Later.standsFor (h : g.Later g') {pairs : List (Nat × Nat)} {key : Nat}
    (hpairs : (g'.node n).content = .mapping pairs)
    (hfind : pairs.find? (fun (key, _) => (g'.node key).isValueKey) = some (key, m)) :
    g.StandsFor n m := by
  have hmem : (key, m) ∈ (g'.node n).pairs := by
    rw [Node.pairs, hpairs]
    exact List.mem_of_find?_eq_some hfind
  have hkey := List.find?_some hfind
  exact ⟨key, h.pairs n _ hmem, (h.node key).isValueKey hkey⟩

theorem Later.ends_text (h : g.Later g') (fuel n : Nat) :
    Ends (fun e => e.IsYaml ∨ e = .endless) (g.Says n) (g'.text fuel n) := by
  induction fuel generalizing n with
  | zero => exact .inr rfl
  | succ fuel ih =>
    rw [text]
    split
    · next text hcontent => exact ⟨n, .refl, (h.node n).content_eq hcontent nofun⟩
    · exact .inl trivial
    · next pairs hcontent =>
      split
      · next key value hfind =>
        refine (ih value).mono (fun _ => id) fun text hsays => ?_
        obtain ⟨m, hm, htext⟩ := hsays
        exact ⟨m, .head (h.standsFor hcontent hfind) hm, htext⟩
      · exact .inl trivial

/-- The nodes `u` were on the way to `n`. By induction on the fuel, which does not run out: no node
comes twice, and all of them are mappings, so they are different nodes of the graph. -/
theorem Later.text_ne_endless (h : g.Later g') {u : List Nat} (hround : ¬ g.GoesRound n)
    (hu : ∀ m ∈ u, TransGen g.StandsFor m n) (hdistinct : Distinct g u) {fuel : Nat}
    (hfuel : g.size < fuel + u.length) : g'.text fuel n ≠ .error .endless := by
  induction fuel generalizing n u with
  | zero =>
    have hlength : u.length ≤ g.size := hdistinct.length_le
    omega
  | succ fuel ih =>
    rw [text]
    split
    · rintro ⟨⟩
    · rintro ⟨⟩
    · next pairs hcontent =>
      split
      · next key value hfind =>
        have hvalue : g.StandsFor n value := h.standsFor hcontent hfind
        have hnew : n ∉ u := fun hn => hround ⟨n, .refl, hu n hn⟩
        have hsize : n < g.size := by
          refine Nat.lt_of_not_le fun hle => ?_
          have hkind : (g'.node n).kind = .mapping := by rw [Node.kind, hcontent, Content.kind]
          rw [(h.node n).kind, node_of_size_le hle] at hkind
          cases hkind
        refine ih (u := n :: u) ?_ ?_ (hdistinct.cons hnew hsize) ?_
        · rintro ⟨m, hm, hcircle⟩
          exact hround ⟨m, .head hvalue hm, hcircle⟩
        · exact List.forall_mem_cons.mpr ⟨.single hvalue, fun m hm => (hu m hm).tail hvalue⟩
        · rw [List.length_cons]
          omega
      · rintro ⟨⟩

/-- With more fuel than there are nodes, only a node that goes round has an endless text. -/
theorem Later.ends_text_size (h : g.Later g') (n : Nat) :
    Ends (fun e => e.IsYaml ∨ e = .endless ∧ g.GoesRound n) (g.Says n)
      (g'.text (g'.size + 1) n) := by
  have hends := h.ends_text (g'.size + 1) n
  cases htext : g'.text (g'.size + 1) n with
  | ok text =>
    rw [htext] at hends
    exact hends
  | error e =>
    rw [htext] at hends
    refine hends.imp_right fun he => ⟨he, ?_⟩
    by_contra hround
    refine h.text_ne_endless hround (u := []) nofun (.nil g) ?_ (he ▸ htext)
    rw [h.size]
    exact Nat.lt_succ_self _

/-! ## Values -/

theorem Yields.bool (b : Bool) : g.Yields n (.bool b) :=
  ⟨fun _ _ h => by cases h; exact ⟨_, rfl⟩, .inl rfl⟩

theorem Yields.string (text : String) : g.Yields n (.string text) :=
  ⟨fun _ _ h => by cases h; exact ⟨_, rfl⟩, .inl rfl⟩

theorem Yields.number {number : Number}
    (h : (Value.number number).isShowable = true ∨ g.HoldsLong n) : g.Yields n (.number number) :=
  ⟨fun _ _ h => by cases h; exact ⟨_, rfl⟩, h⟩

/-- What a node comes to may stand in what a node around it comes to. -/
theorem Yields.of_within (hm : g.Within n m) {v : Value} (h : g.Yields m v) : g.Yields n v where
  kinded := h.kinded
  shown := h.shown.imp_right fun ⟨k, text, i, hk, hlong⟩ => ⟨k, text, i, hm.trans hk, hlong⟩

theorem hereditary_yields (g : Graph) (n : Nat) : Hereditary (g.Yields n) where
  null := ⟨fun _ _ h => by cases h; exact ⟨_, rfl⟩, .inl rfl⟩
  again _ _ := ⟨fun _ _ h => by cases h; exact ⟨_, rfl⟩, .inl rfl⟩
  array items h := by
    refine ⟨fun path w hw => ?_, ?_⟩
    · cases hw with
      | here => exact ⟨_, rfl⟩
      | item hx hpath => exact (h _ (List.mem_of_getElem? hx)).kinded _ _ hpath
    · by_cases hlong : g.HoldsLong n
      · exact .inr hlong
      · exact .inl (Value.isShowable_array_iff.mpr fun x hx => (h x hx).shown.resolve_right hlong)
  object members h := by
    refine ⟨fun path w hw => ?_, ?_⟩
    · cases hw with
      | here => exact ⟨_, rfl⟩
      | member hx hpath => exact (h _ hx).kinded _ _ hpath
    · by_cases hlong : g.HoldsLong n
      · exact .inr hlong
      · exact .inl (Value.isShowable_object_iff.mpr fun entry hentry =>
          (h entry hentry).shown.resolve_right hlong)

end Graph

end Yaml

end SchemaForms
