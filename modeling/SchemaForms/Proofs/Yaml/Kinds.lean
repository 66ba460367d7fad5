import SchemaForms.Proofs.Run
import SchemaForms.Proofs.Value.Keys
import SchemaForms.Proofs.Yaml.Composing
import SchemaForms.Proofs.Yaml.Promises

/-!
# The kinds in a document

A document is put together by steps that read and change a `Work`. Of a plain graph, each step keeps
it `Sound` and either comes to something fit for JSON or tells a fault (`Safe`): one lemma for each
kind of node, then `safe_part` by induction on the fuel and `safe_fillWaiting` by induction on the
rounds. What is known of a document on the way is a typing of its containers, which says of each
that it will come to what its node may yield.

So everything in a YAML document without foreign tags has a kind, and such a document without a
value is not composed of nodes, has a fault that YAML tells, or has a node that does not keep its
promise (`loadDocument_kinded`). A tag for what JSON cannot express is not refused, and gives a leaf
without a kind (`loadDocument_date_not_kinded`).
-/

namespace SchemaForms

namespace Yaml

namespace Making

open Store (Typing)

variable {g : Graph} {u : List Nat} {t t' : Typing} {w : Work} {make : Nat → Making Part} {n : Nat}
  {V : Value → Prop}

/-- What a node comes to: a part of which everything holds that holds of the values of the node, and
a string if that was promised. -/
structure Fits (g : Graph) (t : Typing) (n : Nat) (part : Part) : Prop where
  holds : part.Holds t (g.Yields n)
  string : (g.node n).sense? = some .str → ∃ text, part = .value (.string text)

namespace Fits

variable {part : Part}

theorem mono (ht : t ≤ t') (h : Fits g t n part) : Fits g t' n part := ⟨h.holds.mono ht, h.string⟩

/-- No string was promised by a node that promises anything else. -/
theorem of_holds {sense : Sense} (hsense : (g.node n).sense? = some sense) (hstr : sense ≠ .str)
    (h : part.Holds t (g.Yields n)) : Fits g t n part :=
  ⟨h, fun hs => absurd (Option.some.inj (hsense.symm.trans hs)) hstr⟩

end Fits

/-- What holds of a document while it is put together: the graph is the one that was read, up to
merging, the store keeps to its typing, whatever was made of a node fits it, only lists are waiting,
and the nodes `u` are underway. -/
structure Sound (g : Graph) (u : List Nat) (t : Typing) (w : Work) : Prop where
  graph : g.Later w.graph
  store : w.store.Holds t
  done : ∀ (n : Nat) (found : Part), w.done[n]? = some (some found) → Fits g t n found
  waiting : ∀ x ∈ w.waiting, x.sense = .seq ∧ t.types[x.container]? = some (g.Yields x.node)
  underway : w.underway = u

/-- The step keeps the document sound and comes to a result with `Q`, or tells a fault of it. -/
abbrev Safe {α : Type} (g : Graph) (u : List Nat) (t : Typing) (Q : Typing → α → Prop)
    (m : Making α) : Prop :=
  Keeps (Sound g u) g.Refuses t Q m

/-! ## Single steps -/

theorem safe_node (n : Nat) :
    Safe g u t (fun _ node => (g.node n).Becomes node) (node n) :=
  Keeps.get.bind fun _ _ _ hw => .pure (hw.graph.node n)

theorem safe_fail {α : Type} {Q : Typing → α → Prop} {fault : NodeFault} {place context : Mark} :
    Safe g u t Q (fail fault place context) :=
  .throw (.inl trivial)

theorem safe_allocate {c : Container} (hV : Hereditary V) (hc : c.Holds t V) :
    Safe g u t (fun t' n => t'.types[n]? = some V) (allocate c) := fun w hw => by
  have hle : t ≤ t.push V := t.le_push V
  refine ⟨t.push V, hle, ?_, ?_⟩
  · exact {
      graph := hw.graph
      store := hw.store.push hV hc
      done := fun n found hfound => (hw.done n found hfound).mono hle
      waiting := fun x hx => (hw.waiting x hx).imp_right (Typing.type_mono hle)
      underway := hw.underway }
  · show (t.push V).types[w.store.size]? = some V
    rw [← hw.store.length]
    exact t.type_push V

theorem safe_refill {c : Container} (hn : t.types[n]? = some V) (hc : c.Holds t V) :
    Safe g u t (fun _ _ => True) (refill n c) :=
  .modify fun _ hw => { hw with store := hw.store.setIfInBounds hn hc }

theorem safe_settled (hn : t.types[n]? = some V) :
    Safe g u t (fun t' part => part.Holds t' V) (settled n) := by
  refine Keeps.get.bind fun t' ht' w hw => ?_
  have hn' : t'.types[n]? = some V := Typing.type_mono ht' hn
  split
  · next v hv =>
    exact .pure ((hw.store.container n V hn').of_complete? (hw.store.hereditary n V hn') hv)
  · exact .pure (.container hn')

theorem safe_mergedPairs (n : Nat) :
    Safe g u t (fun _ pairs => ∀ pair ∈ pairs, g.Has n pair) (mergedPairs n) := by
  refine Keeps.get.bind fun _ _ w hw => ?_
  have hmerged : Ends g.Refuses g.Later (w.graph.merged n) :=
    (w.graph.ends_merged n).mono (fun _ => .inl) fun _ => hw.graph.trans
  refine Keeps.bind (.lift hmerged) fun _ _ g' hg' => ?_
  refine Keeps.bind (.modify fun w hw => { hw with graph := hg' }) fun _ _ _ _ => ?_
  exact .pure (hg'.pairs n)

/-! ## Scalars -/

theorem safe_scalar {sense : Sense}
    (hsense : (g.node n).sense? = some sense ∨ sense = .str ∧ (g.node n).sense? = none)
    (hforeign : ¬ sense.isForeign) (hmap : sense ≠ .map) (hseq : sense ≠ .seq) :
    Safe g u t (fun t v => Fits g t n (.value v)) (scalar sense n) := by
  refine Keeps.get.bind fun _ _ w hw => ?_
  have htext : Ends g.Refuses (g.Says n) (w.graph.text (w.graph.size + 1) n) := by
    refine (hw.graph.ends_text_size n).mono (fun e he => ?_) fun _ => id
    refine he.imp_right fun ⟨he, hround⟩ => he ▸ .endless ?_ ?_ hround
    all_goals rcases hsense with hsense | ⟨-, hsense⟩ <;> simp [hsense, hmap, hseq]
  have hpromised (hstr : sense ≠ .str) : (g.node n).sense? = some sense :=
    hsense.resolve_right fun hvalue => hstr hvalue.1
  refine Keeps.bind (.lift htext) fun _ _ text hsays => ?_
  cases sense with
  | null => exact .pure (.of_holds (hpromised nofun) nofun (g.hereditary_yields n).null)
  | bool =>
    refine Keeps.bind (.lift (Ends.intro fun e he => ?_)) fun _ _ b _ => ?_
    · exact .inr (.truth (hpromised nofun) hsays he)
    · exact .pure (.of_holds (hpromised nofun) nofun (Graph.Yields.bool b))
  | int =>
    refine Keeps.bind (.lift (Ends.intro fun e he => ?_)) fun _ _ i hi => ?_
    · exact .inr (.integer (hpromised nofun) hsays he)
    · refine .pure (.of_holds (hpromised nofun) nofun (Graph.Yields.number ?_))
      cases hshown : (Value.int i).isShowable with
      | true => exact .inl hshown
      | false => exact .inr ⟨n, text, i, .refl, hpromised nofun, hsays, hi, hshown⟩
  | float =>
    refine Keeps.bind (.lift (Ends.intro fun e he => ?_)) fun _ _ x _ => ?_
    · exact .inr (.double (hpromised nofun) hsays he)
    · exact .pure (.of_holds (hpromised nofun) nofun (Graph.Yields.number (.inl rfl)))
  | binary => exact absurd rfl hforeign
  | timestamp => exact absurd rfl hforeign
  | _ => exact .pure ⟨.string text, fun _ => ⟨text, rfl⟩⟩

/-! ## Objects -/

theorem safe_stringKey {mapping key : Mark} {pair : Nat × Nat} {part : Part}
    (hpair : g.Has n pair) (hpart : Fits g t pair.1 part) :
    Safe g u t (fun _ _ => True) (stringKey mapping key part) := by
  unfold stringKey
  split
  · exact .pure trivial
  · next hstring =>
    refine Keeps.get.bind fun t' ht' w hw => ?_
    have hshown : g.Yields pair.1 (w.store.value part) := hw.store.value (hpart.mono ht').holds
    dsimp only
    split
    · exact safe_fail
    · next hlong =>
      obtain ⟨m, -, hpair⟩ := hpair
      refine .throw (.inr (.tooLong hpair (fun hs => ?_) (hshown.shown.resolve_left hlong)))
      obtain ⟨text, htext⟩ := hpart.string hs
      exact hstring text htext

/-- What the pairs of a mapping come to, its own and those that were merged into it, may stand in
the object of the mapping. -/
theorem safe_members {place : Mark} {pairs : List (Nat × Nat)}
    (hpairs : ∀ pair ∈ pairs, g.Has n pair)
    (hmake : ∀ t m, Safe g u t (fun t part => Fits g t m part) (make m)) :
    Safe g u t (fun t members => (Container.object members).Holds t (g.Yields n))
      (pairs.foldlM (fun members (key, value) => do
        let name ← stringKey place (← node key).place (← make key)
        return insertMember name (← make value) members) []) := by
  refine Keeps.foldlM pairs ?_ [] fun _ h => absurd h List.not_mem_nil
  rintro t₀ - members ⟨key, value⟩ hpair hmembers
  have hhas : g.Has n (key, value) := hpairs _ hpair
  refine (safe_node key).bind fun t₁ ht₁ keyNode _ => ?_
  refine (hmake t₁ key).bind fun t₂ ht₂ keyPart hkey => ?_
  refine (safe_stringKey hhas hkey).bind fun t₃ ht₃ name _ => ?_
  refine (hmake t₃ value).bind fun t₄ ht₄ valuePart hvalue => .pure fun entry hentry => ?_
  rcases mem_insertMember hentry with hnew | hold
  · subst hnew
    exact hvalue.holds.imp fun _ => .of_within hhas.within
  · exact (hmembers entry hold).mono (ht₁.trans (ht₂.trans (ht₃.trans ht₄)))

/-- What is no mapping has the content that was read. -/
theorem safe_object (hsense : (g.node n).sense? = some .map)
    (hmake : ∀ t m, Safe g u t (fun t part => Fits g t m part) (make m)) :
    Safe g u t (fun t part => Fits g t n part) (object make n) := by
  have hempty {t : Typing} : Fits g t n (.value (.object [])) :=
    .of_holds hsense nofun ((g.hereditary_yields n).object [] fun _ h => absurd h List.not_mem_nil)
  refine (safe_node n).bind fun _ _ node hnode => ?_
  split
  · next text hcontent =>
    split
    · exact .pure hempty
    · next hne =>
      exact .throw (.inr (.shortPair hsense (hnode.content_eq hcontent nofun) hne))
  · exact .pure hempty
  · next first rest hcontent =>
    refine (safe_node first).bind fun _ _ firstNode hfirst => .throw (.inr ?_)
    rw [hfirst.kind]
    exact .notPairs hsense (hnode.content_eq hcontent nofun)
  · refine (safe_mergedPairs n).bind fun _ _ pairs hpairs => ?_
    refine (safe_members hpairs hmake).bind fun _ _ members hmembers => ?_
    split
    · next v hv =>
      have hv' : g.Yields n v := hmembers.of_complete? (g.hereditary_yields n) hv
      exact .pure (.of_holds hsense nofun hv')
    · refine (safe_allocate (g.hereditary_yields n) hmembers).bind fun _ _ c hc => ?_
      exact .pure (.of_holds hsense nofun (.container hc))

/-! ## Lists -/

theorem safe_fill {x : Unfilled} (hx : x.sense = .seq)
    (hcontainer : t.types[x.container]? = some (g.Yields x.node))
    (hmake : ∀ t m, Safe g u t (fun t part => Fits g t m part) (make m)) :
    Safe g u t (fun _ _ => True) (fill make x) := by
  obtain ⟨sense, n, container⟩ := x
  cases hx
  refine (safe_node n).bind fun t₁ ht₁ ⟨_, content, _⟩ hnode => ?_
  cases content with
  | sequence items =>
    have hread : (g.node n).content = .sequence items := hnode.content_eq rfl nofun
    refine (Keeps.mapM (R := fun t part => part.Holds t (g.Yields n)) items
      (fun _ _ ht _ => .mono ht) fun t₂ _ m hm => ?_).bind fun t₂ ht₂ parts hparts => ?_
    · refine (hmake t₂ m).mono fun _ _ part hpart => hpart.holds.imp fun _ => .of_within ?_
      exact .single (.item hread hm)
    · exact safe_refill (Typing.type_mono (ht₁.trans ht₂) hcontainer) hparts
  | scalar _ => exact safe_fail
  | mapping _ => exact safe_fail

theorem safe_collection (inObject : Bool) (hsense : (g.node n).sense? = some .seq)
    (hmake : ∀ t m, Safe g u t (fun t part => Fits g t m part) (make m)) :
    Safe g u t (fun t part => Fits g t n part) (collection make inObject .seq n) := by
  refine (safe_allocate (c := .list []) (g.hereditary_yields n) nofun).bind
    fun t₁ ht₁ container hcontainer => ?_
  cases inObject with
  | true =>
    refine (safe_fill rfl hcontainer hmake).bind fun t₂ ht₂ _ _ => ?_
    refine (safe_settled (Typing.type_mono ht₂ hcontainer)).mono fun _ _ _ hpart => ?_
    exact .of_holds hsense nofun hpart
  | false =>
    refine Keeps.bind (.modify fun w hw => { hw with waiting := ?_ }) fun t₂ ht₂ _ _ => ?_
    · exact .pure (.of_holds hsense nofun (.container (Typing.type_mono ht₂ hcontainer)))
    · intro x hx
      rcases List.mem_append.mp hx with hx | hx
      · exact hw.waiting x hx
      · rw [List.mem_singleton.mp hx]
        exact ⟨rfl, hcontainer⟩

/-! ## Documents -/

/-- What a node came to is noted, and the node is no longer underway. -/
theorem ends_leave {m : Making Part} (hm : Safe g (n :: u) t (fun t part => Fits g t n part) m)
    (hw : Sound g (n :: u) t w) :
    Ends g.Refuses (fun r => ∃ t', t ≤ t' ∧ Sound g u t' r.2 ∧ Fits g t' n r.1) ((do
      let found ← m
      modify fun w => { w with
        done := w.done.setIfInBounds n (some found)
        underway := w.underway.erase n }
      return found : Making Part).run w) := by
  refine Ends.bind (hm w hw) fun (found, w') ⟨t', ht', hw', hfound⟩ => ?_
  refine ⟨t', ht', { hw' with done := ?_, underway := ?_ }, hfound⟩
  · intro m part hpart
    by_cases hm : n = m
    · subst hm
      rw [Array.getElem?_setIfInBounds_self] at hpart
      split at hpart
      · cases hpart
        exact hfound
      · cases hpart
    · rw [Array.getElem?_setIfInBounds_ne hm] at hpart
      exact hw'.done m part hpart
  · show w'.underway.erase n = u
    rw [hw'.underway, List.erase_cons_head]

/-- By induction on the fuel, which does not run out: a node is only entered from nodes that are
underway, and these are different nodes of the graph. -/
theorem safe_part (hplain : g.isPlain = true) (fuel : Nat) (inObject : Bool) (t : Typing) (n : Nat)
    (hdistinct : g.Distinct u) (hfuel : g.size < fuel + u.length) :
    Safe g u t (fun t part => Fits g t n part) (part fuel inObject n) := by
  induction fuel generalizing u inObject t n with
  | zero =>
    have hlength : u.length ≤ g.size := hdistinct.length_le
    omega
  | succ fuel ih =>
    refine Keeps.get.bind fun t ht w hw => ?_
    split
    · next found hfound =>
      rw [Array.getD_eq_getD_getElem?, Option.getD_eq_iff] at hfound
      exact .pure (hw.done n found (by simpa using hfound))
    · dsimp only
      split
      · exact safe_fail
      · next hunderway =>
        have hn : n ∉ u := by simpa [hw.underway] using hunderway
        -- A node that promises anything is a node of the graph.
        have hmake (inObject) (hs : (g.node n).sense? ≠ some .null) (t m) :
            Safe g (n :: u) t (fun t part => Fits g t m part) (part fuel inObject m) := by
          have hsize : n < g.size :=
            Nat.lt_of_not_le fun hle => hs (Graph.sense?_of_size_le hle)
          exact ih inObject t m (hdistinct.cons hn hsize) (by rw [List.length_cons]; omega)
        have hentered : Sound g (n :: u) t { w with underway := n :: w.underway } :=
          { hw with underway := congrArg (n :: ·) hw.underway }
        -- `set` changes what is underway, so from here on the state itself is followed.
        intro _ _
        rw [StateT.run_bind, StateT.run_set, pure_bind]
        split
        · exact ends_leave safe_fail hentered
        · next hmap =>
          have hs : (g.node n).sense? = some .map := by
            simpa using Graph.sense?_of_later hw.graph hmap
          exact ends_leave (safe_object hs (hmake true (by simp [hs]))) hentered
        · next sense hmap hsense =>
          have hforeign : ¬ sense.isForeign := Graph.not_isForeign hplain hw.graph hsense
          have hs := Graph.sense?_of_later hw.graph hsense
          split
          · next hcontains =>
            have hseq : sense = .seq := by
              cases sense <;> simp_all [Sense.isForeign]
            subst hseq
            have hs : (g.node n).sense? = some .seq := by simpa using hs
            exact ends_leave (safe_collection inObject hs (hmake _ (by simp [hs]))) hentered
          · next hcontains =>
            have hseq : sense ≠ .seq := by
              rintro rfl
              exact hcontains (by decide)
            exact ends_leave (.map (safe_scalar hs hforeign hmap hseq)) hentered

/-- By induction on the rounds: what is waiting is filled when no node is underway. -/
theorem safe_fillWaiting (hplain : g.isPlain = true) {fuel : Nat} (hfuel : g.size < fuel)
    (rounds : Nat) (t : Typing) : Safe g [] t (fun _ _ => True) (fillWaiting fuel rounds) := by
  induction rounds generalizing t with
  | zero => exact .pure trivial
  | succ rounds ih =>
    refine Keeps.get.bind fun t₁ _ w hw => ?_
    dsimp only
    split
    · exact .pure trivial
    · refine Keeps.bind (.modify fun w' hw' => { hw' with waiting := nofun }) fun t₂ ht₂ _ _ => ?_
      refine Keeps.bind (.forM _ fun t₃ ht₃ x hx => ?_) fun t₃ _ _ _ => ih t₃
      obtain ⟨hsense, hcontainer⟩ := hw.waiting x hx
      exact safe_fill hsense (Typing.type_mono (ht₂.trans ht₃) hcontainer) fun t m =>
        safe_part hplain fuel false t m (.nil g) (by simpa using hfuel)

theorem safe_document (hplain : g.isPlain = true) (root : Nat) :
    Safe g [] t (fun _ v => g.Yields root v) (document root) := by
  refine Keeps.get.bind fun t₁ _ w hw => ?_
  have hfuel : g.size < w.graph.size + 1 := by
    rw [hw.graph.size]
    exact Nat.lt_succ_self _
  refine (safe_part hplain _ false t₁ root (.nil g) (by simpa using hfuel)).bind
    fun t₂ _ found hfound => ?_
  refine (safe_fillWaiting hplain hfuel _ t₂).bind fun t₃ ht₃ _ _ => ?_
  refine Keeps.get.bind fun t₄ ht₄ w' hw' => .pure ?_
  exact hw'.store.value (hfound.holds.mono (ht₃.trans ht₄))

end Making

/-- A plain graph comes to a value fit for JSON, or refuses. -/
theorem Graph.ends_value {g : Graph} (hplain : g.isPlain = true) (root : Nat) :
    Ends g.Refuses (g.Yields root) (g.value root) := by
  have hstart : Making.Sound g [] ⟨[]⟩ ⟨g, #[], Array.replicate g.size none, [], []⟩ := by
    refine ⟨.refl g, .empty, fun n found hfound => ?_, nofun, rfl⟩
    rw [Array.getElem?_replicate] at hfound
    split at hfound <;> cases hfound
  exact (Making.safe_document hplain root _ hstart).bind fun r ⟨_, _, _, hr⟩ => hr

/-- Why a text has no value: it is not composed of nodes, or the nodes refuse. -/
inductive Refuses (halves : Text.Halves) (text : String) (e : Error) : Prop
  | text (h : Graph.ofTokens (tokens halves text.toList) = .error e) (he : e.IsOfText)
  | nodes {g : Graph} {root : Nat}
      (h : Graph.ofTokens (tokens halves text.toList) = .ok (some (g, root))) (he : g.Refuses e)

theorem ends_readWith {halves : Text.Halves} {text : String}
    (hplain : ∀ g root, Graph.ofTokens (tokens halves text.toList) = .ok (some (g, root)) →
      g.isPlain = true) :
    Ends (Refuses halves text) Value.Kinded (readWith halves text) := by
  refine Ends.bind (Ends.intro fun e he => ?_) fun composed hcomposed => ?_
  · have htold := Graph.told_ofTokens halves text.toList
    rw [he] at htold
    exact .text he htold
  · match composed with
    | none => exact fun _ _ h => by cases h; exact ⟨_, rfl⟩
    | some (g, root) =>
      exact (Graph.ends_value (hplain g root hcomposed) root).mono
        (fun e he => .nodes hcomposed he) fun _ => Graph.Yields.kinded

end Yaml

open Yaml

variable {files : Files} {path : Path} {content : Content} {text : String}

/-- **A YAML document is held to what JSON can express**, unless a node of it is tagged as what JSON
cannot express: everything in the value of the document has a kind. There is no value only if the
text is not composed of nodes, being malformed or having a number out of range in it, or for a fault
of a node that YAML tells, or for a node that does not keep the promise of its tag in one of the
ways that `Graph.Breaks` lists. -/
theorem loadDocument_kinded (hyaml : path.isYaml = true)
    (hfile : files.find? path = some content) (htext : content.decode = .ok text)
    (hplain : ∀ g root, Graph.ofTokens (tokens files.halves text.toList) = .ok (some (g, root)) →
      g.isPlain = true) :
    (∀ v, (loadDocument files path).result = .ok v → v.Kinded) ∧
      ∀ f, (loadDocument files path).result = .error f →
        ∃ e, f = .yaml text e ∧ Yaml.Refuses files.halves text e := by
  have hends : Ends (Yaml.Refuses files.halves text) Value.Kinded
      (Yaml.readWith files.halves text) := ends_readWith hplain
  rw [loadDocument_result_of_isYaml hyaml hfile htext]
  cases hread : Yaml.readWith files.halves text with
  | ok v =>
    rw [hread] at hends
    refine ⟨fun v' hv' => ?_, nofun⟩
    cases hv'
    exact hends
  | error e =>
    rw [hread] at hends
    refine ⟨nofun, fun f hf => ?_⟩
    cases hf
    exact ⟨e, rfl, hends⟩

/-- A mapping that is merged into another, and a list that is a part of itself. -/
theorem loadDocument_kinded_list :
    let text := "- &b \x7bx: !!int 1\x7d\n- \x7b<<: *b, y: .5\x7d\n- &l [~, *l]\n"
    let files := Files.ofTree [("doc.yml", .text text)]
    ∃ v, (loadDocument files (.ofString "doc.yml")).result = .ok v ∧ v.Kinded := by
  intro text files
  have hcomposed : ((Graph.ofTokens (tokens files.halves text.toList)).toOption.join.all
      fun composed => composed.1.isPlain) = true := by decide +kernel
  have hplain : ∀ g root, Graph.ofTokens (tokens files.halves text.toList) =
      .ok (some (g, root)) → g.isPlain = true := fun g root h => by
    rw [h] at hcomposed
    exact hcomposed
  have hkinded := @loadDocument_kinded files (.ofString "doc.yml") (.text text) text
    (by decide +kernel) rfl (by decide +kernel) hplain
  have hloads : (loadDocument files (.ofString "doc.yml")).result.toOption.isSome = true := by
    decide +kernel
  cases hresult : (loadDocument files (.ofString "doc.yml")).result with
  | ok v => exact ⟨v, rfl, hkinded.1 v hresult⟩
  | error f =>
    rw [hresult] at hloads
    cases hloads

/-- The member of an object with this key. -/
def Value.memberAt? (key : String) : Value → Option Value
  | object members => members.lookup key
  | _ => none

theorem Value.reaches_of_memberAt? {v w : Value} {key : String} (h : v.memberAt? key = some w) :
    v.Reaches [key] w := by
  cases v with
  | object members => exact .member_of_mem (mem_of_lookup h)
  | _ => cases h

/-- A date is tagged as one, and becomes a leaf that no JSON text can express. -/
theorem loadDocument_date_not_kinded :
    let files := Files.ofTree [("doc.yaml", .text "a: !!timestamp 2001-12-14\n")]
    let path := Path.ofString "doc.yaml"
    path.isYaml = true ∧ ∃ v, (loadDocument files path).result = .ok v ∧ ¬ v.Kinded := by
  intro files path
  have hforeign : (((loadDocument files path).result.toOption.bind (Value.memberAt? "a")).any
      fun w => w.kindOf.toOption.isNone) = true := by decide +kernel
  refine ⟨by decide +kernel, ?_⟩
  cases hresult : (loadDocument files path).result with
  | error f =>
    rw [hresult] at hforeign
    cases hforeign
  | ok v =>
    refine ⟨v, rfl, fun hkinded => ?_⟩
    rw [hresult, Except.toOption, Option.bind_some] at hforeign
    cases hmember : v.memberAt? "a" with
    | none =>
      rw [hmember] at hforeign
      cases hforeign
    | some w =>
      obtain ⟨kind, hkind⟩ := hkinded ["a"] w (Value.reaches_of_memberAt? hmember)
      rw [hmember, Option.any_some, hkind] at hforeign
      cases hforeign

end SchemaForms
