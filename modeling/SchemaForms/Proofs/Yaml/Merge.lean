import Mathlib.Data.List.TakeWhile
import Mathlib.Logic.Relation
import SchemaForms.Proofs.Yaml.Keeping
import SchemaForms.Yaml.Graph.Merge

/-!
# What merging changes

Carrying out the merges of a mapping brings it the pairs of mappings that it merges, and makes plain
strings of keys that are tagged as values; nothing else of a graph changes (`Graph.Later`). What is
not fit to be merged is told by its place (`Graph.ends_merged`).
-/

namespace SchemaForms.Yaml

/-- An error that is told as a fault of the text or of one of its nodes. -/
def Error.IsYaml : Error → Prop
  | .malformed | .node .. => True
  | _ => False

/-- What merging may make of a node: a mapping with other pairs, and a string of a value's key. -/
structure Node.Becomes (node after : Node) : Prop where
  tag : after.tag = node.tag ∨ node.isValueKey = true ∧ after.tag = coreTag "str"
  content : after.content = node.content ∨ node.kind = .mapping ∧ after.kind = .mapping

namespace Node.Becomes

variable {a b c : Node}

theorem refl (node : Node) : node.Becomes node := ⟨.inl rfl, .inl rfl⟩

theorem kind (h : a.Becomes b) : b.kind = a.kind := by
  rcases h.content with heq | ⟨ha, hb⟩
  · rw [Node.kind, heq, Node.kind]
  · rw [ha, hb]

theorem content_eq (h : a.Becomes b) {c : Content} (hb : b.content = c) (hc : c.kind ≠ .mapping) :
    a.content = c := by
  subst hb
  exact (h.content.resolve_right fun hmapping => hc hmapping.2).symm

theorem tag_eq (h : a.Becomes b) (hb : b.tag ≠ coreTag "str") : a.tag = b.tag := by
  rcases h.tag with heq | ⟨-, hstr⟩
  · exact heq.symm
  · exact absurd hstr hb

theorem isValueKey (h : a.Becomes b) (hb : b.isValueKey = true) : a.isValueKey = true := by
  have htag : b.tag = coreTag "value" := of_decide_eq_true hb
  rwa [Node.isValueKey, h.tag_eq (by rw [htag]; decide +kernel)]

theorem isMerge (h : a.Becomes b) (hb : b.isMerge = true) : a.isMerge = true := by
  have htag : b.tag = coreTag "merge" := of_decide_eq_true hb
  rwa [Node.isMerge, h.tag_eq (by rw [htag]; decide +kernel)]

theorem trans (h : a.Becomes b) (h' : b.Becomes c) : a.Becomes c where
  tag := by
    rcases h.tag with heq | ⟨ha, hb⟩
    · rw [Node.isValueKey, ← heq]
      exact h'.tag
    · refine .inr ⟨ha, ?_⟩
      rcases h'.tag with heq | ⟨-, hc⟩
      · rw [heq, hb]
      · exact hc
  content := by
    rcases h'.content with heq | ⟨hb, hc⟩
    · rw [heq, Node.kind, Node.kind, heq]
      exact h.content
    · exact .inr ⟨h.kind ▸ hb, hc⟩

end Node.Becomes

namespace Graph

open Relation (ReflTransGen)

/-! ## Merges -/

/-- The first node asks for the pairs of the second one: that is the value of a merge, or an item of
the value. -/
def Merges (g : Graph) (n m : Nat) : Prop :=
  ∃ key source, (key, source) ∈ (g.node n).pairs ∧ (g.node key).isMerge = true ∧
    (m = source ∨ ∃ items, (g.node source).content = .sequence items ∧ m ∈ items)

/-- The pair is one of the node, or of a node that it merges, itself or in turn. -/
def Has (g : Graph) (n : Nat) (pair : Nat × Nat) : Prop :=
  ∃ m, ReflTransGen g.Merges n m ∧ pair ∈ (g.node m).pairs

/-- The second graph has what merging may make of the nodes of the first. -/
structure Later (g g' : Graph) : Prop where
  size : g'.size = g.size
  node : ∀ n, (g.node n).Becomes (g'.node n)
  pairs : ∀ n, ∀ pair ∈ (g'.node n).pairs, g.Has n pair

variable {g g' g'' : Graph} {n m source : Nat} {pair : Nat × Nat}

theorem Has.of_mem (h : pair ∈ (g.node n).pairs) : g.Has n pair := ⟨n, .refl, h⟩

theorem Has.of_merges (hm : ReflTransGen g.Merges n m) (h : g.Has m pair) : g.Has n pair := by
  obtain ⟨m', hm', hpair⟩ := h
  exact ⟨m', hm.trans hm', hpair⟩

theorem kind_of_mem_pairs (h : pair ∈ (g.node n).pairs) : (g.node n).kind = .mapping := by
  unfold Node.pairs at h
  cases hcontent : (g.node n).content with
  | mapping pairs => rw [Node.kind, hcontent, Content.kind]
  | scalar _ => simp [hcontent] at h
  | sequence _ => simp [hcontent] at h

theorem node_modify (f : Node → Node) :
    Graph.node (g.modify n f) m = if n = m ∧ n < g.size then f (g.node n) else g.node m := by
  unfold Graph.node
  rw [Array.getD_eq_getD_getElem?, Array.getElem?_modify]
  split
  · next heq =>
    subst heq
    rw [Array.getD_eq_getD_getElem?]
    by_cases hn : n < g.size
    · simp [hn]
    · simp [hn]
  · next hne => rw [if_neg fun h => hne h.1, ← Array.getD_eq_getD_getElem?]

namespace Later

theorem merges (h : g.Later g') (hm : g'.Merges n m) : ReflTransGen g.Merges n m := by
  obtain ⟨key, source, hpair, hkey, hsource⟩ := hm
  obtain ⟨n', hn', hpair⟩ := h.pairs n _ hpair
  refine hn'.tail ⟨key, source, hpair, (h.node key).isMerge hkey, hsource.imp_right ?_⟩
  rintro ⟨items, hitems, hm⟩
  exact ⟨items, (h.node source).content_eq hitems nofun, hm⟩

theorem has (h : g.Later g') (hpair : g'.Has n pair) : g.Has n pair := by
  obtain ⟨m, hm, hpair⟩ := hpair
  exact (h.pairs m pair hpair).of_merges (hm.lift' id fun _ _ => h.merges)

theorem refl (g : Graph) : g.Later g := ⟨rfl, fun _ => .refl _, fun _ _ => .of_mem⟩

theorem trans (h : g.Later g') (h' : g'.Later g'') : g.Later g'' where
  size := h'.size.trans h.size
  node n := (h.node n).trans (h'.node n)
  pairs n pair hpair := h.has (h'.pairs n pair hpair)

theorem modify (h : g.Later g') {f : Node → Node} (hnode : (g.node n).Becomes (f (g'.node n)))
    (hpairs : ∀ pair ∈ (f (g'.node n)).pairs, g.Has n pair) : g.Later (g'.modify n f) where
  size := by rw [Array.size_modify, h.size]
  node m := by
    rw [node_modify]
    split
    · next heq => exact heq.1 ▸ hnode
    · exact h.node m
  pairs m pair hpair := by
    rw [node_modify] at hpair
    split at hpair
    · next heq => exact heq.1 ▸ hpairs pair hpair
    · exact h.pairs m pair hpair

/-- A mapping may be given any pairs that it had from the start, or that it merges. -/
theorem setPairs (h : g.Later g') (hn : (g.node n).kind = .mapping) {pairs : List (Nat × Nat)}
    (hpairs : ∀ pair ∈ pairs, g.Has n pair) : g.Later (g'.setPairs n pairs) := by
  unfold Graph.setPairs Graph.setContent
  refine h.modify ((h.node n).trans ⟨.inl rfl, .inr ⟨?_, rfl⟩⟩) hpairs
  exact (h.node n).kind.trans hn

theorem nameValueKeys (g : Graph) (n : Nat) : g.Later (g.nameValueKeys n) := by
  unfold Graph.nameValueKeys
  generalize (g.node n).pairs = pairs
  induction pairs generalizing g with
  | nil => exact .refl g
  | cons pair rest ih =>
    rw [List.foldl_cons]
    refine trans ?_ (ih _)
    dsimp only
    split
    · next hkey => exact (refl g).modify ⟨.inr ⟨hkey, rfl⟩, .inl rfl⟩ fun _ => .of_mem
    · exact .refl g

theorem takeMerge? (h : g.takeMerge? n = some (source, g')) :
    (∃ key, (key, source) ∈ (g.node n).pairs ∧ (g.node key).isMerge = true) ∧ g.Later g' := by
  unfold Graph.takeMerge? at h
  dsimp only at h
  split at h
  · cases h
  · next key _ rest hdrop =>
    cases h
    have hfind : (g.node n).pairs.find? (fun pair => (g.node pair.1).isMerge) =
        some (key, source) := by
      rw [List.find?_eq_head?_dropWhile_not, hdrop, List.head?_cons]
    have hmem : (key, source) ∈ (g.node n).pairs := List.mem_of_find?_eq_some hfind
    have hmerge : (g.node key).isMerge = true :=
      List.find?_some (p := fun pair : Nat × Nat => (g.node pair.1).isMerge) hfind
    refine ⟨⟨key, hmem, hmerge⟩, ?_⟩
    refine (refl g).setPairs (kind_of_mem_pairs hmem) fun pair hpair => .of_mem ?_
    rcases List.mem_append.mp hpair with hfront | hrest
    · exact (List.takeWhile_sublist _).subset hfront
    · exact (List.dropWhile_sublist _).subset (hdrop ▸ List.mem_cons_of_mem _ hrest)

end Later

theorem ends_mergeSources (g : Graph) (n source : Nat) :
    Ends Error.IsYaml
      (fun sources => ∀ m ∈ sources,
        m = source ∨ ∃ items, (g.node source).content = .sequence items ∧ m ∈ items)
      (g.mergeSources n source) := by
  unfold mergeSources
  dsimp only
  split
  · exact fun m hm => .inl (List.mem_singleton.mp hm)
  · next items hitems => exact fun m hm => .inr ⟨items, hitems, hm⟩
  · trivial

theorem ends_demandMapping (g : Graph) (n source : Nat) :
    Ends Error.IsYaml (fun _ => True) (g.demandMapping n source) := by
  unfold demandMapping
  dsimp only
  split <;> trivial

/-- By induction on the fuel: the mappings that are merged in are flattened first, and `n` is still
a mapping when the pairs of those are put in front of its own. -/
theorem ends_flatten (fuel n : Nat) (g : Graph) : Ends Error.IsYaml g.Later (flatten fuel n g) := by
  induction fuel generalizing n g with
  | zero => exact .refl g
  | succ fuel ih =>
    rw [flatten]
    split
    · exact .nameValueKeys g n
    · next source taken htake =>
      obtain ⟨⟨key, hpair, hkey⟩, htaken⟩ := Later.takeMerge? htake
      refine (ends_mergeSources _ _ _).bind fun sources hsources => ?_
      have hmerges (m : Nat) (hm : m ∈ sources) : g.Merges n m := by
        refine ⟨key, source, hpair, hkey, (hsources m hm).imp_right ?_⟩
        rintro ⟨items, hitems, hm⟩
        exact ⟨items, (htaken.node source).content_eq hitems nofun, hm⟩
      refine (Ends.foldlM (R := fun r : Graph × List (Nat × Nat) =>
        g.Later r.1 ∧ ∀ pair ∈ r.2, g.Has n pair) sources ?_ _
        ⟨htaken, fun _ h => absurd h List.not_mem_nil⟩).bind ?_
      · rintro ⟨before, brought⟩ m hm ⟨hbefore, hbrought⟩
        refine (ends_demandMapping _ _ _).bind fun _ _ => ?_
        refine (ih m before).bind fun after hafter => ⟨hbefore.trans hafter, fun pair hpair => ?_⟩
        rcases List.mem_append.mp hpair with hnew | hold
        · exact ((hbefore.trans hafter).pairs m pair hnew).of_merges (.single (hmerges m hm))
        · exact hbrought pair hold
      · rintro ⟨before, brought⟩ ⟨hbefore, hbrought⟩
        refine (ih n before).bind fun after hafter => ?_
        have hlater : g.Later after := hbefore.trans hafter
        refine hlater.setPairs (kind_of_mem_pairs hpair) fun pair hpair => ?_
        rcases List.mem_append.mp hpair with hnew | hown
        · exact hbrought pair hnew
        · exact hlater.pairs n pair hown

/-- **Merging ends in a graph with the same nodes up to keys of values and pairs that are merged, or
in a fault that is told by its place.** -/
theorem ends_merged (g : Graph) (n : Nat) : Ends Error.IsYaml g.Later (g.merged n) :=
  ends_flatten _ n g

end Graph

end SchemaForms.Yaml
