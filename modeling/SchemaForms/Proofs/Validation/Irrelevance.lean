import SchemaForms.Proofs.Schema.Neglected
import SchemaForms.Proofs.Schema.Pruned
import SchemaForms.Proofs.Validation.Beside

/-!
# Keywords and definitions that no walk looks at

A walk reads the rules of nodes and looks references up in the definitions of the root. So a change
of keywords without effect leaves every trace as it is (`trace_eq_of_editedOnce`), and so does
leaving out definitions of the root that it does not reach (`trace_eq_of_prunedOf`). A check looks
at all definitions of the root, though: it goes on to pass without those exactly if what is left
does not refer to them (`unlooked_at`).
-/

namespace SchemaForms

open SchemaForms.Frame

variable {config : Config} {root root' : Schema} {f g : Frame} {stack : Nat} {document : Value}
  {deleted : List String}

/-! ## Keywords without effect -/

theorem sameLocation_kept : LocationsKept (· = ·) (· = ·) where
  under h _ := by rw [h]
  enter _ h _ := by rw [h]
  follow _ h := by rw [h]
  violation h := by rw [h]

theorem compositional_eq : Walk.Compositional (· = ·) where
  done := rfl
  andThen h h' := congrArg₂ Walk.andThen h h'

namespace Frame

/-- The two frames judge one value at one location, the second one by the node that the first one's
became. -/
structure Unaffected (root : Schema) (f g : Frame) : Prop where
  beside : Beside (· = ·) (fun s t => s.rule.Alike (Schema.Within Schema.Neglected) t.rule) f g
  left : Regular root f

theorem alike_of_changed {s t : Schema} (h : Schema.Changed Schema.Neglected s t) :
    s.rule.Alike (Schema.Within Schema.Neglected) t.rule := by
  rcases h with h | h
  · exact h.rule_eq ▸ .refl Schema.Within.refl _
  · exact h

theorem Unaffected.parts (h : Unaffected root f g)
    (hedited : root.EditedOnce Schema.Neglected root') (hcheck : root.check = .ok ()) :
    List.Forall₂ (Part.Matches (Unaffected root) (· = ·)) (f.parts config root)
      (g.parts config root') := by
  obtain ⟨hbeside, hf⟩ := h
  have hdepth : config.maxDepth = f.location.depth ↔ config.maxDepth = g.location.depth := by
    rw [hbeside.location]
  have hparts := hbeside.parts sameLocation_kept hbeside.schema hf.json fun name _ =>
    hbeside.refParts sameLocation_kept hedited.definitions hdepth name
  refine forall₂_imp_of_mem hparts fun p hp q _ hpq => hpq.imp ?_
  rintro f' g' rfl rfl ⟨hlocation, htag, hwithin, hvalue⟩
  exact ⟨⟨hlocation, htag, alike_of_changed hwithin.changed, hvalue⟩,
    hf.of_enters (hf.enters_of_goes hcheck hp)⟩

theorem Unaffected.walk_eq (h : Unaffected root f g)
    (hedited : root.EditedOnce Schema.Neglected root') (hcheck : root.check = .ok ()) :
    f.walk config root stack = g.walk config root' stack := by
  induction stack generalizing f g with
  | zero => rw [walk_zero, walk_zero]
  | succ stack ih =>
    rw [walk_succ, walk_succ]
    refine walkParts_of_matches compositional_eq (h.parts hedited hcheck) ?_ (fun _ => rfl)
      fun _ _ => ih
    rintro v w hvw
    cases hvw
    rfl

end Frame

/-- A change of keywords without effect leaves every trace as it is. -/
theorem trace_eq_of_editedOnce (hedited : root.EditedOnce Schema.Neglected root')
    (hcheck : root.check = .ok ()) (hjson : document.isJson) :
    trace stack config root' document = trace stack config root document := by
  have hstart : Unaffected root (start root document) (start root' document) :=
    ⟨⟨rfl, rfl, alike_of_changed hedited.changed, rfl⟩, regular_start root hjson⟩
  rw [trace_eq_walk, trace_eq_walk, hstart.walk_eq hedited hcheck]

/-! ## Definitions that are not reached -/

namespace Frame

/-- A step under a live node looks up no definition that was left out. -/
theorem parts_eq_of_prunedOf (hpruned : root.PrunedOf deleted root') (hcheck : root.check = .ok ())
    (hf : Regular root f) (hlive : root.Live f.schema) :
    f.parts config root' = f.parts config root := by
  have hc := hf.correct hcheck
  have hread := f.schema.rule_readOff
  rw [parts_eq_of_readOff hc.sole hf.json hread, parts_eq_of_readOff hc.sole hf.json hread]
  generalize f.schema.rule = r at hread ⊢
  cases r with
  | definition name =>
    obtain ⟨target, htarget⟩ := exists_lookup_of_mem_keys (hc.ref name hread)
    have htarget' := hpruned.lookup_eq ⟨f.schema, hlive, hread⟩
    rw [htarget] at htarget'
    exact (refParts_eq htarget').trans (refParts_eq htarget).symm
  | _ => rfl

/-- A step depends on no more of a node than what it demands. -/
theorem parts_of_rule_eq {s : Schema} (h : s.rule = f.schema.rule) :
    { f with schema := s }.parts config root = f.parts config root := by
  have hrule : f.resolved.schema.rule = s.rule := h.symm
  rw [parts, parts, partsHere, partsHere, hrule]
  rfl

theorem Enters.live (h : f.Enters config root g) (hlive : root.Live f.schema) :
    root.Live g.schema := by
  rcases h.child_or_follow with ⟨-, hchild⟩ | ⟨name, target, href, htarget, -, rfl⟩
  · exact hlive.child hchild
  · exact hlive.definition href htarget

theorem walk_eq_of_prunedOf (hpruned : root.PrunedOf deleted root') (hcheck : root.check = .ok ())
    (hf : Regular root f) (hlive : root.Live f.schema) :
    f.walk config root' stack = f.walk config root stack := by
  induction stack generalizing f with
  | zero => rw [walk_zero, walk_zero]
  | succ stack ih =>
    rw [walk_succ, walk_succ, parts_eq_of_prunedOf hpruned hcheck hf hlive, walkParts, walkParts]
    congr 1
    refine List.map_congr_left fun p hp => ?_
    cases p with
    | visit g =>
      have henters := hf.enters_of_goes hcheck hp
      exact ih (hf.of_enters henters) (henters.live hlive)
    | _ => rfl

end Frame

/-- Leaving out definitions that the root does not reach leaves every trace as it is. -/
theorem trace_eq_of_prunedOf (hpruned : root.PrunedOf deleted root') (hcheck : root.check = .ok ())
    (hjson : document.isJson) :
    trace stack config root' document = trace stack config root document := by
  have hrule : root'.rule = root.rule := by cases hpruned; rfl
  have hwalk : (start root document).walk config root' stack =
      (start root document).walk config root stack :=
    walk_eq_of_prunedOf hpruned hcheck (regular_start root hjson) .root
  rw [trace_eq_walk, trace_eq_walk, ← hwalk]
  cases stack with
  | zero => rw [walk_zero, walk_zero]
  | succ stack =>
    have hparts : (start root' document).parts config root' =
        (start root document).parts config root' :=
      parts_of_rule_eq (f := start root document) hrule
    rw [walk_succ, walk_succ, hparts]

/-- **What no walk looks at has no effect on one**: changes of keywords without effect, as many as
there may be, and definitions that the root does not reach. The outcome of the check is that of
before without such keywords. Without such definitions a root that passed passes exactly if what is
left does not refer to them, and fails for one of them otherwise. -/
theorem unlooked_at (root : Schema) :
    (∀ root', Relation.ReflTransGen (Schema.EditedOnce Schema.Neglected) root root' →
      root'.check = root.check ∧
        (root.check = .ok () → ∀ (stack : Nat) (config : Config) (document : Value),
          document.isJson →
          trace stack config root' document = trace stack config root document)) ∧
    ∀ (deleted : List String) (root' : Schema), root.check = .ok () →
      root.PrunedOf deleted root' →
      (∀ (stack : Nat) (config : Config) (document : Value), document.isJson →
        trace stack config root' document = trace stack config root document) ∧
      (root'.check = .ok () ↔ root'.KeptApart deleted) ∧
      ∀ fault, root'.check = .error fault → ∃ name ∈ deleted, fault = .noSuchDefinition name := by
  constructor
  · intro root' hedits
    induction hedits with
    | refl => exact ⟨rfl, fun _ _ _ _ _ => rfl⟩
    | tail _ hedited ih =>
      obtain ⟨hsame, htraces⟩ := ih
      refine ⟨hedited.check_eq.trans hsame, fun hcheck stack config document hjson => ?_⟩
      rw [trace_eq_of_editedOnce hedited (hsame.trans hcheck) hjson,
        htraces hcheck stack config document hjson]
  · intro deleted root' hcheck hpruned
    exact ⟨fun stack config document hjson => trace_eq_of_prunedOf hpruned hcheck hjson,
      hpruned.check_iff hcheck, fun fault => hpruned.fault_eq hcheck⟩

/-- A root without the definition of a definition, without both definitions that it does not reach,
and without one of the two, to which the other one refers. -/
theorem withSpares_unlooked_at :
    let count : Schema := { type := some "int8" }
    let nested : Schema := { count with definitions := some [("spare", {})] }
    let trimmed : Schema := { Schema.withSpares with
      definitions := some [("count", count), ("alias", { ref := some "spare" }), ("spare", {})] }
    let pruned : Schema := { Schema.withSpares with definitions := some [("count", nested)] }
    let halved : Schema := { Schema.withSpares with
      definitions := some [("count", nested), ("alias", { ref := some "spare" })] }
    trimmed.check = .ok () ∧
      trace 9 ⟨0, 0, true⟩ trimmed (.int 300) =
        trace 9 ⟨0, 0, true⟩ Schema.withSpares (.int 300) ∧
      trace 9 ⟨0, 0, true⟩ pruned (.int 300) =
        trace 9 ⟨0, 0, true⟩ Schema.withSpares (.int 300) ∧
      pruned.KeptApart ["alias", "spare"] ∧ ¬ halved.KeptApart ["spare"] ∧
      ∃ fault, halved.check = .error fault ∧
        ∃ name ∈ ["spare"], fault = .noSuchDefinition name := by
  intro count nested trimmed pruned halved
  obtain ⟨hneglected, hpruned⟩ := unlooked_at Schema.withSpares
  have hedited : Schema.withSpares.EditedOnce Schema.Neglected trimmed :=
    @Schema.EditedOnce.definition _ _ nested count [] _ "count" rfl (.here (.definitions none))
  have hunreached : ∀ name ∈ ["alias", "spare"], ¬ Schema.withSpares.Reaches name := by
    intro name hname hreaches
    rw [Schema.eq_count_of_withSpares_reaches hreaches] at hname
    exact absurd hname (by decide)
  have hhalved : ∀ name ∈ ["spare"], ¬ Schema.withSpares.Reaches name := fun name hname =>
    hunreached name (List.mem_cons_of_mem _ hname)
  obtain ⟨hcheck, htraces⟩ := hneglected trimmed (.single hedited)
  obtain ⟨htraces', hapart, -⟩ := hpruned ["alias", "spare"] pruned rfl (.mk rfl hunreached)
  obtain ⟨-, hapart', hfault⟩ := hpruned ["spare"] halved rfl (.mk rfl hhalved)
  refine ⟨hcheck.trans rfl, htraces rfl 9 _ _ rfl, htraces' 9 _ _ rfl, hapart.mp rfl, ?_,
    _, rfl, hfault _ rfl⟩
  intro h
  cases hapart'.mpr h

end SchemaForms
