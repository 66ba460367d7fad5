import SchemaForms.Proofs.Validation.Beside
import SchemaForms.Proofs.Validation.Depth

/-!
# Walks moved to another place

A walk from a frame inside a document does what a run of its own does under the same node, moved to
the place of the frame: the path into the document gets longer in front, and so does the path into
the schema unless it starts anew at a definition (`Violation.moved`). `Frame.Moved` is the relation
between the frames of the two walks; a step keeps it (`Moved.parts`), so what one walk records the
other one records in the other place (`Moved.completes_iff`).
-/

namespace SchemaForms

/-- A path into a schema, seen from a node that is reached by these keywords. A path that starts at
a definition stays as it is. -/
def movedPath (keywords path : List String) : List String :=
  if path.head? = some "definitions" then path else keywords ++ path

/-- The violation of a document that is part of another one, judged by a part of a schema. -/
def Violation.moved (tokens keywords : List String) (v : Violation) : Violation :=
  ⟨tokens ++ v.instancePath, movedPath keywords v.schemaPath⟩

/-- The location of a walk that started at other paths, inside more references. -/
def Location.moved (tokens keywords : List String) (deeper : Nat) (l : Location) : Location :=
  ⟨tokens ++ l.instancePath, movedPath keywords l.schemaPath, l.depth + deeper⟩

namespace Schema

/-- The schema with other definitions. -/
def within (s : Schema) (definitions : Option (List (String × Schema))) : Schema :=
  { s with definitions := definitions }

/-- The two nodes demand the same. -/
def SameRule (s t : Schema) : Prop := s.rule = t.rule

variable {root s t : Schema}

theorem CheckedNode.of_within (hs : CheckedNode root s)
    (h : CheckedNode (s.within root.definitions) t) :
    t = s.within root.definitions ∨ CheckedNode root t := by
  induction h with
  | root => exact .inl rfl
  | definition h => exact .inr (.definition h)
  | child _ hchild ih =>
    rcases ih with rfl | ht
    · refine .inr (hs.child ?_)
      -- The definitions of a node are no part of its tree.
      cases hchild with
      | elements h => exact .elements h
      | required h ht => exact .required h ht
      | optional h ht => exact .optional h ht
      | values h => exact .values h
      | tagged h ht => exact .tagged h ht
    · exact .inr (ht.child hchild)

/-- A checked node passes its check as a root with the same definitions. -/
theorem CheckedNode.check_within (hcheck : root.check = .ok ()) (hs : CheckedNode root s) :
    (s.within root.definitions).check = .ok () := by
  refine check_eq_ok_iff_checkNode.mpr fun t ht => checkNode_of_correct fun u hu => ?_
  rcases hs.of_within (ht.of_below hu) with rfl | hu
  · obtain ⟨hsole, href, htype, henum, hdisjoint, htagged⟩ := hs.correct hcheck
    exact ⟨hsole, href, htype, henum, hdisjoint, htagged⟩
  · exact hu.correct hcheck

end Schema

variable {config : Config} {root root' : Schema} {f g : Frame} {tokens keywords : List String}
  {deeper : Nat}

/-! ## Moved locations -/

theorem movedPath_append {path more : List String} (h : more.head? ≠ some "definitions") :
    movedPath keywords (path ++ more) = movedPath keywords path ++ more := by
  cases path with
  | nil => simp [movedPath, h]
  | cons token rest =>
    by_cases htoken : token = "definitions"
    · simp [movedPath, htoken]
    · simp [movedPath, htoken]

namespace Location

variable {l : Location} {more : List String}

theorem moved_under (h : more.head? ≠ some "definitions") :
    (l.under more).moved tokens keywords deeper = (l.moved tokens keywords deeper).under more := by
  simp only [moved, under, movedPath_append h]

theorem moved_enter (token : String) (h : more.head? ≠ some "definitions") :
    (l.enter token more).moved tokens keywords deeper =
      (l.moved tokens keywords deeper).enter token more := by
  simp only [moved, enter, movedPath_append h, List.append_assoc]

theorem moved_follow (name : String) :
    (l.follow name).moved tokens keywords deeper =
      (l.moved tokens keywords deeper).follow name := by
  simp only [moved, follow, movedPath, List.head?_cons, if_true, Nat.add_right_comm]

end Location

/-! ## Moved frames -/

/-- Violations as they are recorded in the other place. -/
def MovedTo (tokens keywords : List String) (found found' : List Violation) : Prop :=
  found' = found.map (Violation.moved tokens keywords)

theorem movedTo_appendClosed : AppendClosed (MovedTo tokens keywords) where
  nil := rfl
  append h h' := by rw [MovedTo, List.map_append, h, h']

namespace Frame

/-- The second frame judges the same value by the same rule in another place. -/
structure Moved (tokens keywords : List String) (deeper : Nat) (f g : Frame) : Prop where
  location : g.location = f.location.moved tokens keywords deeper
  tag : f.tag = g.tag
  rule : f.schema.rule = g.schema.rule
  value : f.value = g.value

/-- What a step does to a location it does to the location in the other place. -/
theorem moved_kept : LocationsKept (fun l m => m = l.moved tokens keywords deeper)
    (MovedTo tokens keywords) where
  under h hmore := by rw [h, Location.moved_under hmore]
  enter token h hmore := by rw [h, Location.moved_enter token hmore]
  follow name h := by rw [h, Location.moved_follow]
  violation h := by rw [h]; rfl

/-- **A step does the same in the other place**, as long as it is at the limit on depth in both or
in neither. -/
theorem Moved.parts (h : Moved tokens keywords deeper f g)
    (hdefinitions : root'.definitions = root.definitions) (hjson : f.value.isJson)
    (hdepth : ∀ name, g.schema.rule = .definition name →
      (config.maxDepth = f.location.depth ↔ config.maxDepth = g.location.depth)) :
    List.Forall₂
      (Part.Matches (Moved tokens keywords deeper) (MovedTo tokens keywords))
      (f.parts config root) (g.parts config root') := by
  have hbeside : Beside (fun l m => m = l.moved tokens keywords deeper) Schema.SameRule f g :=
    ⟨h.location, h.tag, h.rule, h.value⟩
  have hrefl : ∀ s, Schema.SameRule s s := fun _ => rfl
  have hrule : f.schema.rule.Alike Schema.SameRule g.schema.rule := h.rule ▸ .refl hrefl _
  have hsame : Option.Rel (EntriesAlike Schema.SameRule) root.definitions root'.definitions :=
    hdefinitions ▸ optionRel_refl (EntriesAlike.refl hrefl) _
  have hparts := hbeside.parts moved_kept hrule hjson fun name hname =>
    hbeside.refParts moved_kept hsame (hdepth name hname) name
  refine hparts.imp fun p q hpq => hpq.imp fun f' g' _ _ hfg => ?_
  exact ⟨hfg.location, hfg.tag, hfg.schema, hfg.value⟩

end Frame

/-! ## Whole walks -/

/-- The frames of a walk of its own and of the same walk in another place, both under roots that
pass their checks. -/
structure Frame.Placement (root root' : Schema) (tokens keywords : List String) (deeper : Nat)
    (f g : Frame) : Prop where
  moved : Moved tokens keywords deeper f g
  left : Regular root f
  right : Regular root' g

theorem Frame.Placement.parts (h : Placement root root' tokens keywords deeper f g)
    (config : Config) (hcheck : root.check = .ok ()) (hcheck' : root'.check = .ok ())
    (hdefinitions : root'.definitions = root.definitions)
    (hdepth : ∀ name, g.schema.rule = .definition name →
      (config.maxDepth = f.location.depth ↔ config.maxDepth = g.location.depth)) :
    List.Forall₂
      (Part.Matches (Placement root root' tokens keywords deeper) (MovedTo tokens keywords))
      (f.parts config root) (g.parts config root') := by
  obtain ⟨hmoved, hf, hg⟩ := h
  refine forall₂_imp_of_mem (hmoved.parts hdefinitions hf.json hdepth)
    fun p hp q hq hpq => hpq.imp ?_
  rintro f' g' rfl rfl h
  exact ⟨h, hf.of_enters (hf.enters_of_goes hcheck hp),
    hg.of_enters (hg.enters_of_goes hcheck' hq)⟩

/-- A walk in another place records what the walk of its own does, in that place. -/
theorem Frame.Placement.completes_iff (h : Placement root root' tokens keywords 0 f g)
    (hcheck : root.check = .ok ()) (hcheck' : root'.check = .ok ())
    (hdefinitions : root'.definitions = root.definitions) {violations : List Violation} :
    (∃ frames, Completes config root' [.visit g] violations frames) ↔
      ∃ found, (∃ frames, Completes config root [.visit f] found frames) ∧
        violations = found.map (Violation.moved tokens keywords) := by
  have hstep : ∀ f g, Placement root root' tokens keywords 0 f g →
      List.Forall₂
        (Part.Matches (Placement root root' tokens keywords 0) (MovedTo tokens keywords))
        (f.parts config root) (g.parts config root') := fun f g h =>
    h.parts config hcheck hcheck' hdefinitions fun _ _ => by
      rw [h.moved.location, Location.moved, Nat.add_zero]
  obtain ⟨hto, hback⟩ :=
    Completes.simulate_forall₂ movedTo_appendClosed hstep (.cons (.visit h) .nil)
  constructor
  · rintro ⟨frames', h'⟩
    obtain ⟨found, frames, h, hmoved⟩ := hback _ _ h'
    exact ⟨found, ⟨frames, h⟩, hmoved⟩
  · rintro ⟨found, ⟨frames, h⟩, rfl⟩
    obtain ⟨_, frames', h', rfl⟩ := hto _ _ h
    exact ⟨frames', h'⟩

/-- The frames of two walks, the second inside one reference more and not beyond the limit. -/
structure Frame.Deeper (config : Config) (root root' : Schema) (tokens keywords : List String)
    (f g : Frame) : Prop where
  placed : Placement root root' tokens keywords 1 f g
  opened : 0 < f.location.depth
  limited : config.maxDepth = 0 ∨ g.location.depth ≤ config.maxDepth

theorem Frame.Deeper.of_enters {f' g' : Frame} (h : Deeper config root root' tokens keywords f g)
    (hf : f.Enters config root f') (hg : g.Enters config root' g')
    (hplaced : Placement root root' tokens keywords 1 f' g') :
    Deeper config root root' tokens keywords f' g' := by
  refine ⟨hplaced, Nat.lt_of_lt_of_le h.opened hf.depth_le, ?_⟩
  rcases hg.child_or_follow with ⟨hdepth, -⟩ | ⟨name, target, -, -, hdepth, rfl⟩
  · exact hdepth ▸ h.limited
  · refine h.limited.imp id fun hle => ?_
    show _ + 1 ≤ _
    omega

/-- Below the limit on depth a step does the same inside one reference more. -/
theorem Frame.Deeper.parts (h : Deeper config root root' tokens keywords f g)
    (hcheck : root.check = .ok ()) (hcheck' : root'.check = .ok ())
    (hdefinitions : root'.definitions = root.definitions)
    (hhalt : .halt .tooDeep ∉ g.parts config root') :
    List.Forall₂
      (Part.Matches (Deeper config root root' tokens keywords) (MovedTo tokens keywords))
      (f.parts config root) (g.parts config root') := by
  obtain ⟨hplaced, hopened, hlimited⟩ := h
  refine forall₂_imp_of_mem (hplaced.parts config hcheck hcheck' hdefinitions fun name hrule => ?_)
    fun p hp q hq hpq => hpq.imp ?_
  · have href : g.schema.ref = some name := by
      have hread := g.schema.rule_readOff
      rwa [hrule] at hread
    have hne : config.maxDepth ≠ g.location.depth := fun heq =>
      hhalt ((hplaced.right.mem_parts_iff hcheck').mpr (.tooDeep href heq))
    have hdepth : g.location.depth = f.location.depth + 1 := by rw [hplaced.moved.location]; rfl
    omega
  · rintro f' g' rfl rfl h
    exact Deeper.of_enters ⟨hplaced, hopened, hlimited⟩ (hplaced.left.enters_of_goes hcheck hp)
      (hplaced.right.enters_of_goes hcheck' hq) h

/-- A walk that completes inside one reference more completes by itself. -/
theorem Frame.Deeper.completes (h : Deeper config root root' tokens keywords f g)
    (hcheck : root.check = .ok ()) (hcheck' : root'.check = .ok ())
    (hdefinitions : root'.definitions = root.definitions) {violations : List Violation}
    {frames : List Frame} (hg : Completes config root' [.visit g] violations frames) :
    ∃ found frames, Completes config root [.visit f] found frames ∧
      violations = found.map (Violation.moved tokens keywords) := by
  refine Completes.simulate (R := fun g f => Deeper config root root' tokens keywords f g)
    movedTo_appendClosed.flip (fun g f hfg hhalt => ?_) (.cons (.visit h) .nil) _ _ hg
  have hparts := hfg.parts hcheck hcheck' hdefinitions (hhalt .tooDeep)
  exact ⟨_, Part.Matches.flip_forall₂ hparts (fun _ _ => id) fun _ _ => id,
    fun _ found frames h => ⟨found, frames, h, id⟩⟩

end SchemaForms
