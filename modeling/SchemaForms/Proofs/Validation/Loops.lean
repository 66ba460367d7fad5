import SchemaForms.Proofs.Schema.RefLoop
import SchemaForms.Proofs.Validation.DepthLimit
import SchemaForms.Proofs.Value.Height

/-!
# Runs without a limit on depth

Apart from a reference, a step goes on to a value that is lower, or to the choice of a tagged union,
and that has properties and is no reference itself (`Enters.follow_or_lower`). So the references that
are open at once are, for each level of the document, those that stand directly behind one another;
without a loop of references these are no more than the definitions (`Opens.openRefs_le`). In a loop
the walk has no end (`Regular.halt_of_refLoop`). Hence loops of references, and nothing else, keep a
run from its end (`endless_iff_opens_refLoop`).
-/

namespace SchemaForms

open SchemaForms.Frame

variable {config : Config} {root : Schema} {document : Value} {stack found : Nat} {f g : Frame}
  {c : Call} {around : List Call} {name : String}

/-! ## Loops -/

/-- A reference into a loop exhausts every stack. -/
theorem Frame.Regular.halt_of_refLoop (hcheck : root.check = .ok ()) (hfree : config.maxDepth = 0)
    (hf : Regular root f) (hdepth : 1 ≤ f.location.depth) (href : f.schema.ref = some name)
    (hloop : root.RefLoop name) :
    (f.walk config root stack found).halt = some .stackExhausted := by
  induction stack generalizing f name with
  | zero => rw [walk_zero]; rfl
  | succ stack ih =>
    obtain ⟨next, ⟨target, htarget, hnext⟩, hloop'⟩ := hloop.exists_next
    have hbelow : config.maxDepth ≠ f.location.depth := by omega
    have henters : f.Enters config root (f.follow name target) :=
      .definition href htarget hbelow
    rw [walk_succ, parts_eq_follow (hf.correct hcheck).sole hf.json href htarget hbelow,
      walkParts_visit]
    exact ih (hf.of_enters henters) (hdepth.trans henters.depth_le) hnext hloop'

theorem Opens.endless_of_refLoop (hcheck : root.check = .ok ()) (hjson : document.isJson)
    (hfree : config.maxDepth = 0) (h : Opens config root document c around)
    (href : c.frame.schema.ref = some name) (hloop : root.RefLoop name) :
    Endless config root document := by
  have hf := h.regular hcheck hjson
  have hdepth := h.one_le_depth hcheck hjson
  exact h.endless fun _ => .inr (hf.halt_of_refLoop hcheck hfree hdepth href hloop)

/-! ## References on the way into a document -/

/-- A step follows a reference, or it goes to a lower value, or to a node that is no reference. -/
theorem Frame.Enters.follow_or_lower (hc : f.schema.Correct (keys root.definitions))
    (h : f.Enters config root g) :
    (∃ name target, f.schema.ref = some name ∧
      (entries root.definitions).lookup name = some target ∧ g = f.follow name target) ∨
    f.schema.ref = none ∧ (g.value.height < f.value.height ∨
      g.value.height = f.value.height ∧ g.schema.ref = none) := by
  rcases h.child_or_follow with ⟨_, hchild⟩ | ⟨name, target, href, htarget, _, hg⟩
  · have hnone := hchild.ref_eq_none hc.sole
    refine .inr ⟨hnone, ?_⟩
    cases h with
    | definition href _ _ =>
      rw [hnone] at href
      cases href
    | item _ hv hx =>
      rw [hv]
      exact .inl (Value.height_lt_of_mem_items (List.mem_of_getElem? hx))
    | required _ hv hx =>
      rw [hv]
      exact .inl (Value.height_lt_of_mem_members (mem_of_lookup hx))
    | optional _ hv hx =>
      rw [hv]
      exact .inl (Value.height_lt_of_mem_members (mem_of_lookup hx))
    | member _ hv hx =>
      rw [hv]
      exact .inl (Value.height_lt_of_mem_members hx)
    | @tagged _ _ _ target _ hunion _ _ htarget =>
      -- What a tag chooses has properties and nothing else.
      obtain ⟨_, honly, _, _⟩ := hc.tagged _ _ hunion _ _ (mem_of_lookup htarget)
      refine .inr ⟨rfl, ?_⟩
      by_contra hne
      cases honly .ref (Option.ne_none_iff_exists'.mp hne)
  · exact .inl ⟨name, target, href, htarget, hg⟩

/-- Without a loop, at most so many references are open at a call as there are definitions, for each
level of the document down to its value. -/
theorem Opens.openRefs_le (hcheck : root.check = .ok ()) (hjson : document.isJson)
    (hloop : ∀ c around name, Opens config root document c around →
      c.frame.schema.ref = some name → ¬ root.RefLoop name)
    (h : Opens config root document c around) :
    ∃ n, root.RefLength c.frame.schema n ∧
      openRefs around + n + (entries root.definitions).length * c.frame.value.height ≤
        (entries root.definitions).length * (document.height + 1) := by
  have hlength : ∀ {c around}, Opens config root document c around →
      ∃ n, n ≤ (entries root.definitions).length ∧ root.RefLength c.frame.schema n := fun h =>
    Schema.exists_refLength_le hcheck (h.regular hcheck hjson).checked fun name =>
      hloop _ _ name h
  generalize (entries root.definitions).length = definitions at hlength ⊢
  induction h with
  | start =>
    obtain ⟨n, hn, hrefs⟩ := hlength .start
    refine ⟨n, hrefs, ?_⟩
    show 0 + n + definitions * document.height ≤ definitions * (document.height + 1)
    rw [Nat.mul_succ]
    omega
  | @call c c' around h hc ih =>
    obtain ⟨n, hrefs, hle⟩ := ih
    have hcorrect := (h.regular hcheck hjson).correct hcheck
    rcases (h.enters hcheck hjson hc).follow_or_lower hcorrect with
      ⟨name, target, href, htarget, hfollow⟩ | ⟨hnone, hlower | ⟨hsame, hnext⟩⟩
    · -- One of the references directly behind one another is open now.
      obtain ⟨m, rfl, hm⟩ := hrefs.exists_of_ref href htarget
      have hvalue : c'.frame.value = c.frame.value := by rw [hfollow]; rfl
      rw [openRefs_cons_of_ref href, hvalue]
      refine ⟨m, by rwa [hfollow], ?_⟩
      omega
    · -- The level that is left pays for the references from the lower value on.
      obtain ⟨n', hn', hrefs'⟩ := hlength (h.call hc)
      have hlevel : definitions * (c'.frame.value.height + 1) ≤
          definitions * c.frame.value.height := Nat.mul_le_mul_left _ hlower
      rw [Nat.mul_succ] at hlevel
      rw [openRefs_cons_of_not_ref hnone]
      refine ⟨n', hrefs', ?_⟩
      omega
    · rw [openRefs_cons_of_not_ref hnone, hsame]
      exact ⟨0, .other hnext, by omega⟩

theorem mostOpenRefs_le (hcheck : root.check = .ok ()) (hjson : document.isJson)
    (hloop : ∀ c around name, Opens config root document c around →
      c.frame.schema.ref = some name → ¬ root.RefLoop name) :
    mostOpenRefs config root document ≤
      ((entries root.definitions).length * (document.height + 1) : Nat) := by
  refine iSup₂_le fun c around => iSup_le fun hopens => Nat.cast_le.mpr ?_
  obtain ⟨n, _, hle⟩ := hopens.openRefs_le hcheck hjson hloop
  omega

/-- **Only loops of references keep a run from its end.** A run without a limit on depth has no end
exactly when it gets to a reference from which definitions that are themselves references come back
to one of them. A root without such loops, however its definitions contain each other otherwise,
gives a report on every document, opens no more references at once than it has definitions for each
level of the document, and gives the same report under every limit beyond that number. -/
theorem endless_iff_opens_refLoop (config : Config) (root : Schema) (document : Value)
    (hcheck : root.check = .ok ()) (hjson : document.isJson) (hfree : config.maxDepth = 0) :
    (Endless config root document ↔ ∃ c around name, Opens config root document c around ∧
      c.frame.schema.ref = some name ∧ root.RefLoop name) ∧
    ((∀ name, ¬ root.RefLoop name) →
      mostOpenRefs config root document ≤
        ((entries root.definitions).length * (document.height + 1) : Nat) ∧
      ∃ report, EndsWith config root document (.ok report) ∧
        ∀ limit, 1 + (entries root.definitions).length * (document.height + 1) ≤ limit →
          EndsWith { config with maxDepth := limit } root document (.ok report)) := by
  have hends : (∀ c around name, Opens config root document c around →
      c.frame.schema.ref = some name → ¬ root.RefLoop name) → ¬ Endless config root document := by
    intro hloop hendless
    have hmost := mostOpenRefs_le hcheck hjson hloop
    rw [(endless_iff_mostOpenRefs_eq_top hcheck hjson).mp hendless] at hmost
    exact absurd hmost (not_le_of_gt (ENat.natCast_lt_top _))
  refine ⟨⟨fun hendless => ?_, ?_⟩, fun hnone => ?_⟩
  · by_contra hno
    exact hends (fun c around name hopens href hloop =>
      hno ⟨c, around, name, hopens, href, hloop⟩) hendless
  · rintro ⟨c, around, name, hopens, href, hloop⟩
    exact hopens.endless_of_refLoop hcheck hjson hfree href hloop
  · have hloop : ∀ c around name, Opens config root document c around →
        c.frame.schema.ref = some name → ¬ root.RefLoop name := fun _ _ name _ _ => hnone name
    have hmost := mostOpenRefs_le hcheck hjson hloop
    obtain ⟨report, hreport⟩ := exists_report_of_not_endless hcheck hjson hfree (hends hloop)
    refine ⟨hmost, report, hreport, fun limit hlimit => ?_⟩
    have hlt : mostOpenRefs config root document < limit :=
      hmost.trans_lt (Nat.cast_lt.mpr (by omega))
    exact (endsWith_ok_iff_of_mostOpenRefs_lt hcheck hjson hfree hlt report).mpr hreport

/-- A definition that refers to itself at once has no end where it is reached. Under one that refers
to itself inside an object, a document with three levels opens three references at most. -/
theorem selfReferring_endless :
    Endless ⟨0, 0, false⟩ Schema.selfReferring (.object [("item", .int 1), ("rest", .null)]) ∧
    mostOpenRefs ⟨0, 0, false⟩ Schema.linkedList
      (.object [("item", .int 1), ("next", .object [("item", .int 2)])]) ≤ 3 := by
  constructor
  · refine (endless_iff_opens_refLoop ⟨0, 0, false⟩ Schema.selfReferring
      (.object [("item", .int 1), ("rest", .null)]) rfl rfl rfl).1.mpr ?_
    have hself : Schema.selfReferring.RefersTo "self" "self" := ⟨_, rfl, rfl⟩
    -- The walk of the first member ends, so that of the second one begins.
    have hmakes : (Call.start Schema.selfReferring
        (.object [("item", .int 1), ("rest", .null)])).Makes ⟨0, 0, false⟩ Schema.selfReferring _ :=
      @Call.Makes.intro _ _ _ [_] [] _ 1 [] rfl rfl
    exact ⟨_, _, "self", .call .start hmakes, rfl, "self", .refl, .single hself⟩
  · refine ((endless_iff_opens_refLoop ⟨0, 0, false⟩ Schema.linkedList
      (.object [("item", .int 1), ("next", .object [("item", .int 2)])]) rfl rfl rfl).2 ?_).1
    rintro name ⟨again, _, hround⟩
    obtain ⟨next, ⟨s, hs, href⟩, _⟩ := Relation.TransGen.head'_iff.mp hround
    have hnode := mem_of_lookup hs
    simp only [Schema.linkedList, entries, Option.getD_some, List.mem_singleton,
      Prod.mk.injEq] at hnode
    rw [hnode.2] at href
    cases href

end SchemaForms
