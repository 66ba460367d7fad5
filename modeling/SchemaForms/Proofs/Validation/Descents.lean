import SchemaForms.Proofs.Validation.Faults

/-!
# How deep the two paths of a violation go

A step down from a node adds keywords to the path into the schema, and to the path into the document
one token or, at the choice of a tagged union, none (`Descent`). The keywords alone tell how many:
`descents` counts the steps of a path into the schema, a reference for one. So the paths of a
violation go equally deep, up to the one token that the node itself may blame (`Charted`). A path
into the schema can be cut behind a name only where the rest goes less deep by what was cut off, and
the rest is never a path from the definitions on. Hence the end of one violation's path into the
schema is never that of another whose path into the document is longer by what was cut off
(`Charted.length_le`).
-/

namespace SchemaForms

/-! ## Paths into a schema -/

/-- A step down from a node to a child. -/
inductive Descent where
  | elements
  | required (name : String)
  | optional (name : String)
  | values
  | tagged (text : String)

namespace Descent

/-- What the step adds to the path into the schema. -/
def keywords : Descent → List String
  | elements => ["elements"]
  | required name => ["properties", name]
  | optional name => ["optionalProperties", name]
  | values => ["values"]
  | tagged text => ["discriminator", "mapping", text]

/-- How many tokens the step adds to the path into the document. -/
def depth : Descent → Nat
  | tagged _ => 0
  | _ => 1

end Descent

/-- The path of steps. -/
def pathOf (steps : List Descent) : List String := steps.flatMap Descent.keywords

/-- How many tokens steps add to the path into the document. -/
def depthOf (steps : List Descent) : Nat := (steps.map Descent.depth).sum

/-- How deep a path into a schema goes. A reference counts for one step. -/
def descents : List String → Nat
  | "definitions" :: _ :: rest => descents rest + 1
  | "elements" :: rest => descents rest + 1
  | "properties" :: _ :: rest => descents rest + 1
  | "optionalProperties" :: _ :: rest => descents rest + 1
  | "values" :: rest => descents rest + 1
  | "discriminator" :: "mapping" :: _ :: rest => descents rest
  | _ => 0

theorem pathOf_append_singleton (steps : List Descent) (d : Descent) :
    pathOf (steps ++ [d]) = pathOf steps ++ d.keywords := by
  simp [pathOf]

theorem depthOf_append_singleton (steps : List Descent) (d : Descent) :
    depthOf (steps ++ [d]) = depthOf steps + d.depth := by
  simp [depthOf]

theorem Descent.descents_keywords_append (d : Descent) (rest : List String) :
    descents (d.keywords ++ rest) = d.depth + descents rest := by
  cases d <;> simp [keywords, depth, descents] <;> omega

theorem descents_pathOf_append (steps : List Descent) (rest : List String) :
    descents (pathOf steps ++ rest) = depthOf steps + descents rest := by
  induction steps with
  | nil => simp [pathOf, depthOf]
  | cons d steps ih =>
    show descents (d.keywords ++ pathOf steps ++ rest) = d.depth + depthOf steps + descents rest
    rw [List.append_assoc, d.descents_keywords_append, ih]
    omega

/-! ## What a node blames -/

/-- The keywords that a node blames, and how many tokens lead from its value to the place in the
document that it blames. -/
inductive Blame : List String → Nat → Prop
  | type : Blame ["type"] 0
  | enum : Blame ["enum"] 0
  | elements : Blame ["elements"] 0
  | properties : Blame ["properties"] 0
  | optionalProperties : Blame ["optionalProperties"] 0
  | missing (name : String) : Blame ["properties", name] 0
  | undeclared : Blame [] 1
  | values : Blame ["values"] 0
  | discriminator : Blame ["discriminator"] 0
  | noTag : Blame ["discriminator", "tag"] 0
  | tagKind : Blame ["discriminator", "tag"] 1
  | mapping : Blame ["discriminator", "mapping"] 1

variable {blamed : List String} {n : Nat}

theorem Rejects.blame {strict : Bool} {tag : Option String} {s : Schema} {value culprit : Value}
    {place keywords : List String} (h : Rejects strict tag s value place culprit keywords) :
    Blame keywords place.length := by
  cases h with
  | type _ _ _ => exact .type
  | enum _ _ => exact .enum
  | elements _ _ => exact .elements
  | properties _ _ => exact .properties
  | optionalProperties _ _ _ => exact .optionalProperties
  | missing _ _ => exact .missing _
  | undeclared _ _ _ _ _ _ => exact .undeclared
  | values _ _ => exact .values
  | discriminator _ _ => exact .discriminator
  | noTag _ _ => exact .noTag
  | tagKind _ _ _ => exact .tagKind
  | mapping _ _ _ => exact .mapping

theorem Rejects.ref_eq_none {strict : Bool} {tag : Option String} {s : Schema}
    {value culprit : Value} {place keywords : List String} (hs : s.Sole)
    (h : Rejects strict tag s value place culprit keywords) : s.ref = none := by
  by_contra hne
  have href : s.Populates .ref := Option.ne_none_iff_exists'.mp hne
  cases h with
  | @type _ t _ h hname _ => cases hs _ .type href ⟨_, h, hname ▸ t.name_ne_empty⟩
  | enum h _ => cases hs _ .enum href ⟨_, h⟩
  | elements h _ => cases hs _ .elements href ⟨_, h⟩
  | properties h _ => cases hs _ .properties href (.inl ⟨_, h⟩)
  | optionalProperties _ h _ => cases hs _ .properties href (.inr ⟨_, h⟩)
  | missing h _ =>
    obtain ⟨map, hmap, -⟩ := mem_entries.mp h
    cases hs _ .properties href (.inl ⟨map, hmap⟩)
  | undeclared h _ _ _ _ _ => cases hs _ .properties href h
  | values h _ => cases hs _ .values href ⟨_, h⟩
  | discriminator h _ => cases hs _ .discriminator href ⟨_, _, h⟩
  | noTag h _ => cases hs _ .discriminator href ⟨_, _, h⟩
  | tagKind h _ _ => cases hs _ .discriminator href ⟨_, _, h⟩
  | mapping h _ _ => cases hs _ .discriminator href ⟨_, _, h⟩

theorem Blame.descents_add_le (h : Blame blamed n) : descents blamed + n ≤ 1 := by
  cases h <;> simp [descents]

/-- A path below a node starts with a keyword of the node. -/
theorem Blame.head_ne (h : Blame blamed n) (steps : List Descent) :
    (pathOf steps ++ blamed).head? ≠ some "definitions" ∧
      (pathOf steps ++ blamed).head? ≠ some "" := by
  cases steps with
  | nil => cases h <;> simp [pathOf]
  | cons d steps => cases d <;> simp [pathOf, Descent.keywords]

/-! ## Cutting a path -/

/-- The words of paths into a schema that are no names. -/
def pathWords : List String :=
  ["definitions", "type", "enum", "elements", "properties", "optionalProperties", "values",
    "discriminator", "tag", "mapping"]

section cut
variable {front rest : List String} {name : String}

theorem cut_append {as bs : List String} (h : as ++ bs = front ++ name :: rest) :
    (∃ further, front = as ++ further ∧ bs = further ++ name :: rest) ∨
      ∃ after, as = front ++ name :: after ∧ rest = after ++ bs := by
  rcases List.append_eq_append_iff.mp h with ⟨further, hfront, hbs⟩ | ⟨within, has, hrest⟩
  · exact .inl ⟨further, hfront, hbs⟩
  · cases within with
    | nil => exact .inl ⟨[], by simpa using has.symm, hrest.symm⟩
    | cons word after =>
      obtain ⟨rfl, rfl⟩ := List.cons.inj hrest
      exact .inr ⟨after, has, rfl⟩

/-- What a step adds is cut behind a name only at its end. -/
theorem Descent.eq_nil_of_cut {d : Descent} (hcut : d.keywords = front ++ name :: rest)
    (hname : name ∉ pathWords) : rest = [] ∧ 2 ≤ d.depth + front.length := by
  simp only [pathWords, List.mem_cons, List.not_mem_nil, or_false, not_or] at hname
  rcases front with _ | ⟨k, _ | ⟨l, _ | ⟨m, front⟩⟩⟩ <;> cases d <;> simp_all [keywords, depth]

theorem Blame.subset_pathWords (h : Blame blamed n) :
    (∃ missing, blamed = ["properties", missing]) ∨ blamed ⊆ pathWords := by
  cases h with
  | missing missing => exact .inl ⟨missing, rfl⟩
  | _ => exact .inr (by decide)

/-- What a node blames is cut behind a name only where a member is missing. -/
theorem Blame.eq_nil_of_cut (h : Blame blamed n) (hcut : blamed = front ++ name :: rest)
    (hname : name ∉ pathWords) : rest = [] ∧ 2 ≤ descents blamed + front.length := by
  rcases h.subset_pathWords with ⟨missing, rfl⟩ | hwords
  · rcases front with _ | ⟨word, _ | ⟨other, front⟩⟩
    · obtain ⟨rfl, -⟩ := List.cons.inj hcut
      exact absurd (by decide) hname
    · exact ⟨(List.cons.inj (List.cons.inj hcut).2).2.symm, by simp [descents]⟩
    · simp at hcut
  · have hmem : name ∈ blamed := by simp [hcut]
    exact absurd (hwords hmem) hname

/-- Cut behind a name, a path below a node goes less deep by what is cut off. -/
theorem Blame.descents_of_cut (h : Blame blamed n) {steps : List Descent}
    (hcut : pathOf steps ++ blamed = front ++ name :: rest) (hname : name ∉ pathWords) :
    descents rest + 2 ≤ descents (pathOf steps ++ blamed) + front.length ∧
      rest.head? ≠ some "definitions" := by
  -- The name is among the keywords of the first step, or the cut is one of the path below it.
  induction steps generalizing front with
  | nil =>
    obtain ⟨rfl, hdepth⟩ := h.eq_nil_of_cut hcut hname
    refine ⟨?_, by simp⟩
    simpa [pathOf, descents] using hdepth
  | cons d steps ih =>
    have hpath : pathOf (d :: steps) ++ blamed = d.keywords ++ (pathOf steps ++ blamed) := by
      rw [← List.append_assoc]
      rfl
    rw [hpath] at hcut ⊢
    rw [d.descents_keywords_append]
    rcases cut_append hcut with ⟨further, rfl, hbelow⟩ | ⟨after, hkeywords, rfl⟩
    · obtain ⟨hdepth, hhead⟩ := ih hbelow
      refine ⟨?_, hhead⟩
      rw [List.length_append]
      omega
    · obtain ⟨rfl, hdepth⟩ := d.eq_nil_of_cut hkeywords hname
      refine ⟨?_, (h.head_ne steps).1⟩
      rw [List.nil_append]
      omega

end cut

/-! ## The paths of a walk -/

namespace Frame

variable {config : Config} {root : Schema} {f g : Frame}

/-- The paths of a frame: both go equally deep below the root; below a definition the path into the
document goes deeper, unless the root itself refers. -/
inductive Charted (root : Schema) (f : Frame) : Prop
  | own (steps : List Descent) (hbelow : root.Below f.schema)
      (hpath : f.location.schemaPath = pathOf steps)
      (hdepth : f.location.instancePath.length = depthOf steps)
      (href : f.location.instancePath = [] → f.schema.ref = root.ref)
  | behind (name : String) (steps : List Descent)
      (hpath : f.location.schemaPath = "definitions" :: name :: pathOf steps)
      (hdepth : root.ref = none → depthOf steps < f.location.instancePath.length)

theorem charted_start (root : Schema) (document : Value) : Charted root (start root document) :=
  .own [] .refl rfl rfl fun _ => rfl

/-- A frame keeps its place and its node when its value is looked up. -/
theorem Charted.resolved (h : f.Charted root) : f.resolved.Charted root := by
  cases h with
  | own steps hbelow hpath hdepth href => exact .own steps hbelow hpath hdepth href
  | behind name steps hpath hdepth => exact .behind name steps hpath hdepth

/-- A step to a member or an item. -/
theorem Charted.enter {token : String} {d : Descent} {s : Schema} {x : Value}
    (h : f.Charted root) (hchild : f.schema.Child s) (hd : d.depth = 1) :
    (f.enter token d.keywords s x).Charted root := by
  cases h with
  | own steps hbelow hpath hdepth _ =>
    refine .own (steps ++ [d]) (hbelow.tail hchild) ?_ ?_ ?_
    · rw [pathOf_append_singleton, ← hpath]
      rfl
    · simp [Frame.enter, Location.enter, depthOf_append_singleton, hdepth, hd]
    · intro hnil
      simp [Frame.enter, Location.enter] at hnil
  | behind name steps hpath hdepth =>
    refine .behind name (steps ++ [d]) ?_ ?_
    · rw [pathOf_append_singleton, ← List.cons_append, ← List.cons_append, ← hpath]
      rfl
    · intro hroot
      have := hdepth hroot
      simp [Frame.enter, Location.enter, depthOf_append_singleton, hd]
      omega

/-- A step to what a tag chooses. -/
theorem Charted.choose {tag text : String} {mapping : List (String × Schema)} {target : Schema}
    (hcorrect : f.schema.Correct (keys root.definitions)) (h : f.Charted root)
    (hd : f.schema.discriminator = some ⟨tag, some mapping⟩) (htarget : (text, target) ∈ mapping) :
    (f.choose tag text target).Charted root := by
  have hchild : f.schema.Child target := .tagged hd htarget
  cases h with
  | own steps hbelow hpath hdepth href =>
    refine .own (steps ++ [.tagged text]) (hbelow.tail hchild) ?_ ?_ ?_
    · rw [pathOf_append_singleton, ← hpath]
      rfl
    · rw [depthOf_append_singleton]
      exact hdepth
    · intro hnil
      have hnone : target.ref = none := by
        by_contra hne
        have hsole := (hcorrect.tagged tag mapping hd text target htarget).2.1
        cases hsole .ref (Option.ne_none_iff_exists'.mp hne)
      rw [← href hnil, hchild.ref_eq_none hcorrect.sole]
      exact hnone
  | behind name steps hpath hdepth =>
    refine .behind name (steps ++ [.tagged text]) ?_ ?_
    · rw [pathOf_append_singleton, ← List.cons_append, ← List.cons_append, ← hpath]
      rfl
    · rw [depthOf_append_singleton]
      exact hdepth

/-- A step behind a reference. Only the root may refer at the top of the document. -/
theorem Charted.follow {name : String} (h : f.Charted root) (href : f.schema.ref = some name)
    (target : Schema) : (f.follow name target).Charted root := by
  refine .behind name [] rfl ?_
  intro hroot
  show 0 < f.location.instancePath.length
  cases h with
  | own _ _ _ _ htop =>
    apply List.length_pos_of_ne_nil
    intro hnil
    rw [htop hnil, hroot] at href
    cases href
  | behind _ _ _ hdepth =>
    have := hdepth hroot
    omega

theorem Charted.of_enters (hcorrect : f.schema.Correct (keys root.definitions))
    (h : f.Charted root) (henters : f.Enters config root g) : g.Charted root := by
  cases henters with
  | definition href _ _ => exact h.follow href _
  | item hitem _ _ => exact h.enter (d := .elements) (.elements hitem) rfl
  | @required _ name _ _ hsub _ _ =>
    obtain ⟨map, hmap, hsub⟩ := mem_entries.mp hsub
    exact h.enter (d := .required name) (.required hmap hsub) rfl
  | @optional _ name _ _ hsub _ _ =>
    obtain ⟨map, hmap, hsub⟩ := mem_entries.mp hsub
    exact h.enter (d := .optional name) (.optional hmap hsub) rfl
  | member hmember _ _ => exact h.enter (d := .values) (.values hmember) rfl
  | tagged hd _ _ htarget => exact h.choose hcorrect hd (mem_of_lookup htarget)

theorem Charted.of_visits (hcheck : root.check = .ok ()) (hf : root.CheckedNode f.schema)
    (h : f.Charted root) (hvisits : Visits config root f g) : g.Charted root := by
  induction hvisits with
  | refl => exact h
  | @tail g _ hvisits hgoes ih =>
    have hg : root.CheckedNode g.schema := checkedNode_of_visits hcheck hf hvisits
    have henters := enters_of_goes hcheck hg hgoes
    exact ih.resolved.of_enters (f := g.resolved) (hg.correct hcheck) henters

end Frame

/-! ## The paths of a violation -/

/-- The paths of a violation: they go equally deep, up to what the node blames. -/
inductive Violation.Charted (root : Schema) (v : Violation) : Prop
  | own (steps : List Descent) {blamed : List String} {n : Nat} (hblame : Blame blamed n)
      (hroot : root.ref = none) (hpath : v.schemaPath = pathOf steps ++ blamed)
      (hdepth : v.instancePath.length = depthOf steps + n)
  | behind (name : String) (steps : List Descent) {blamed : List String} {n : Nat}
      (hblame : Blame blamed n)
      (hpath : v.schemaPath = "definitions" :: name :: (pathOf steps ++ blamed))
      (hdepth : root.ref = none → depthOf steps + n < v.instancePath.length)

theorem Frame.Charted.violation {root : Schema} {f : Frame} {strict : Bool} {value culprit : Value}
    {place keywords : List String} (hcheck : root.check = .ok ())
    (hf : root.CheckedNode f.schema) (h : f.Charted root)
    (hrejects : Rejects strict f.tag f.schema value place culprit keywords) :
    (f.violation place keywords).Charted root := by
  cases h with
  | own steps hbelow hpath hdepth _ =>
    refine .own steps hrejects.blame ?_ ?_ ?_
    · cases hbelow.cases_head with
      | inl heq =>
        rw [heq]
        exact hrejects.ref_eq_none (hf.correct hcheck).sole
      | inr hchild =>
        obtain ⟨child, hchild, -⟩ := hchild
        exact hchild.ref_eq_none (Schema.CheckedNode.root.correct hcheck).sole
    · rw [Frame.violation, hpath]
    · rw [Frame.violation, List.length_append, hdepth]
  | behind name steps hpath hdepth =>
    refine .behind name steps hrejects.blame ?_ ?_
    · rw [Frame.violation, hpath]
      rfl
    · intro hroot
      have := hdepth hroot
      rw [Frame.violation, List.length_append]
      omega

/-- Every violation of a run has its paths go equally deep. -/
theorem charted_of_mem_violations {config : Config} {root : Schema} {document : Value}
    {stack : Nat} {v : Violation} (hcheck : root.check = .ok ())
    (h : v ∈ (trace stack config root document).violations) : v.Charted root := by
  rw [Frame.trace_eq_walk] at h
  obtain ⟨f, hvisits, hreport⟩ := Frame.exists_visit_of_mem_violations h
  have hf : root.CheckedNode f.schema := Frame.checkedNode_of_visits hcheck .root hvisits
  have hcharted := (Frame.charted_start root document).of_visits hcheck .root hvisits
  rcases Frame.does_or_meetsLeaf (hf.correct hcheck) hreport with hdoes | ⟨-, _, hhalt⟩
  · cases hdoes with
    | rejects hrejects => exact hcharted.resolved.violation (f := f.resolved) hcheck hf hrejects
  · cases hhalt

namespace Violation.Charted

variable {root : Schema} {v w : Violation}

theorem descents_le (hroot : root.ref = none) (h : v.Charted root) :
    descents v.schemaPath ≤ v.instancePath.length + 1 := by
  cases h with
  | own steps hblame _ hpath hdepth =>
    have := hblame.descents_add_le
    rw [hpath, descents_pathOf_append, hdepth]
    omega
  | behind name steps hblame hpath hdepth =>
    have := hblame.descents_add_le
    have := hdepth hroot
    rw [hpath, descents, descents_pathOf_append]
    omega

theorem head_ne_blank (h : v.Charted root) : v.schemaPath.head? ≠ some "" := by
  cases h with
  | own steps hblame _ hpath _ =>
    rw [hpath]
    exact (hblame.head_ne steps).2
  | behind _ _ _ hpath _ => simp [hpath]

theorem descents_of_cut (h : v.Charted root) {front rest : List String} {name : String}
    (hcut : v.schemaPath = front ++ name :: rest) (hname : name ∉ pathWords) :
    descents rest + 2 ≤ descents v.schemaPath + front.length ∧
      rest.head? ≠ some "definitions" := by
  cases h with
  | own _ hblame _ hpath _ =>
    rw [hpath] at hcut ⊢
    exact hblame.descents_of_cut hcut hname
  | @behind definition steps blamed _ hblame hpath _ =>
    have hdescents : descents v.schemaPath = descents (pathOf steps ++ blamed) + 1 := by
      rw [hpath, descents]
    rw [hdescents]
    have hsplit : ["definitions", definition] ++ (pathOf steps ++ blamed) =
        front ++ name :: rest := hpath.symm.trans hcut
    rcases cut_append hsplit with ⟨further, rfl, hbelow⟩ | ⟨after, hfront, rfl⟩
    · obtain ⟨hdepth, hhead⟩ := hblame.descents_of_cut hbelow hname
      refine ⟨?_, hhead⟩
      rw [List.length_append]
      omega
    · rcases front with _ | ⟨word, _ | ⟨other, front⟩⟩
      · simp_all [pathWords]
      · obtain ⟨-, -, rfl⟩ : _ ∧ _ ∧ after = [] := by simpa using hfront
        exact ⟨Nat.le_refl _, (hblame.head_ne steps).1⟩
      · simp at hfront

/-- If the path of `w` into the schema is the rest of that of `v` behind a name, then the place of `w`
in the document is deeper than that of `v` by no more than what stands in front of the name. A blank
token may stand for the empty path. -/
theorem length_le (hv : v.Charted root) (hw : w.Charted root) {front rest : List String}
    {name : String} (hcut : v.schemaPath = front ++ name :: rest) (hname : name ∉ pathWords)
    (hrest : rest = w.schemaPath ∨ rest = [""] ∧ w.schemaPath = []) :
    w.instancePath.length ≤ v.instancePath.length + front.length := by
  obtain ⟨hdeep, hhead⟩ := hv.descents_of_cut hcut hname
  have hsame : descents rest = descents w.schemaPath := by
    rcases hrest with rfl | ⟨rfl, hnil⟩
    · rfl
    · rw [hnil]
      rfl
  cases hw with
  | own _ hblame hroot hpath hdepth =>
    have := hv.descents_le hroot
    have := hblame.descents_add_le
    rw [hpath, descents_pathOf_append] at hsame
    omega
  | behind _ _ _ hpath _ =>
    rcases hrest with rfl | ⟨-, hnil⟩
    · rw [hpath] at hhead
      exact absurd rfl hhead
    · rw [hnil] at hpath
      cases hpath

end Violation.Charted

end SchemaForms
