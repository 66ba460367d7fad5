import SchemaForms.Proofs.Validation.Nesting

/-!
# The limit on depth

Steps under a limit on depth are the steps without one, except at a reference at the limit, where
the run is aborted. So up to such an abort both runs do the same (`walk_agreesUnless_tooDeep`); the
abort comes when the run without the limit opens as many references at once as the limit says
(`stops_of_le_mostOpenRefs`), and for nothing less (`le_mostOpenRefs_of_tooDeep`). The limit is
therefore a sharp threshold at the largest number of references open at once
(`tooDeep_iff_le_mostOpenRefs`).
-/

namespace SchemaForms

open SchemaForms.Frame

variable {config : Config} {root : Schema} {document : Value} {stack limit : Nat} {f : Frame}
  {c c' : Call} {around : List Call}

/-! ## Steps under a limit -/

theorem Frame.parts_of_limit {name : String} (href : f.schema.ref = some name)
    (hdepth : f.location.depth = limit) :
    f.parts { config with maxDepth := limit } root = [.halt .tooDeep] := by
  have hrule : f.schema.rule = .definition name := by
    unfold Schema.rule
    rw [href]
  have hparts : f.parts { config with maxDepth := limit } root =
      f.resolved.refParts { config with maxDepth := limit } root name := by
    show f.resolved.partsHere _ root = _
    unfold partsHere
    rw [show f.resolved.schema = f.schema from rfl, hrule]
  rw [hparts, refParts, if_pos (show limit = f.resolved.location.depth from hdepth.symm)]

theorem Frame.parts_of_not_limit (hfree : config.maxDepth = 0) (hdepth : 1 ≤ f.location.depth)
    (h : ∀ name, f.schema.ref = some name → f.location.depth ≠ limit) :
    f.parts { config with maxDepth := limit } root = f.parts config root := by
  have hread := f.schema.rule_readOff
  show f.resolved.partsHere _ root = f.resolved.partsHere _ root
  unfold partsHere
  rw [show f.resolved.schema = f.schema from rfl]
  cases hrule : f.schema.rule with
  | definition name =>
    have hlimit : limit ≠ f.resolved.location.depth := by
      rw [hrule] at hread
      exact (h name hread).symm
    have hnone : config.maxDepth ≠ f.resolved.location.depth := by
      show config.maxDepth ≠ f.location.depth
      omega
    simp only [refParts]
    rw [if_neg hlimit, if_neg hnone]
  | _ => rfl

/-- A step either is at a reference at the limit, or the same as without the limit. -/
theorem Frame.parts_maxDepth (root : Schema) (limit : Nat) (hfree : config.maxDepth = 0)
    (hdepth : 1 ≤ f.location.depth) :
    f.parts { config with maxDepth := limit } root = [.halt .tooDeep] ∨
      f.parts { config with maxDepth := limit } root = f.parts config root := by
  by_cases h : ∃ name, f.schema.ref = some name ∧ f.location.depth = limit
  · obtain ⟨name, href, hlimit⟩ := h
    exact .inl (parts_of_limit href hlimit)
  · exact .inr (parts_of_not_limit hfree hdepth fun name href hlimit => h ⟨name, href, hlimit⟩)

/-- Up to an abort at the limit the run without it does the same. -/
theorem Frame.Regular.walk_agreesUnless_tooDeep (hcheck : root.check = .ok ())
    (hfree : config.maxDepth = 0) (hf : Regular root f) (hdepth : 1 ≤ f.location.depth) :
    Walk.AgreesUnless .tooDeep (f.walk { config with maxDepth := limit } root stack)
      (f.walk config root stack) := by
  induction stack generalizing f with
  | zero =>
    rw [walk_zero, walk_zero]
    exact .refl _
  | succ stack ih =>
    rw [walk_succ, walk_succ]
    rcases parts_maxDepth root limit hfree hdepth with h | h
    · rw [h, walkParts_halt]
      exact .halt _
    · rw [h]
      refine walkParts_agreesUnless rfl fun g hg => ?_
      have henters := hf.enters_of_goes hcheck hg
      exact ih (hf.of_enters henters) (hdepth.trans henters.depth_le)

theorem Opens.agreesUnless_tooDeep (hcheck : root.check = .ok ()) (hjson : document.isJson)
    (hfree : config.maxDepth = 0) (h : Opens config root document c around) (g : Frame)
    (hg : Goes config root c.frame g) :
    Walk.AgreesUnless .tooDeep (g.walk { config with maxDepth := limit } root stack)
      (g.walk config root stack) := by
  have hf := h.regular hcheck hjson
  have henters := hf.enters_of_goes hcheck hg
  exact (hf.of_enters henters).walk_agreesUnless_tooDeep hcheck hfree
    ((h.one_le_depth hcheck hjson).trans henters.depth_le)

/-! ## The abort at the limit -/

theorem Call.stops_of_limit {name : String} (href : c.frame.schema.ref = some name)
    (hdepth : c.frame.location.depth = limit) :
    c.Stops { config with maxDepth := limit } root .tooDeep := by
  refine Call.stops_of_succ fun stack => ?_
  rw [Call.trace, walk_succ, parts_of_limit href hdepth, walkParts_halt]
  exact .inl rfl

/-- An abort inside a call is an abort of the call. -/
theorem Opens.stops_of_makes (hcheck : root.check = .ok ()) (hjson : document.isJson)
    (hfree : config.maxDepth = 0) (h : Opens config root document c around)
    (hc : c.Makes config root c')
    (hstops : c'.Stops { config with maxDepth := limit } root .tooDeep) :
    c.Stops { config with maxDepth := limit } root .tooDeep := by
  by_cases hlimit : ∃ name, c.frame.schema.ref = some name ∧ c.frame.location.depth = limit
  · obtain ⟨name, href, hdepth⟩ := hlimit
    exact Call.stops_of_limit href hdepth
  · have hparts : c.frame.parts { config with maxDepth := limit } root =
        c.frame.parts config root :=
      parts_of_not_limit hfree (h.one_le_depth hcheck hjson) fun name href hl =>
        hlimit ⟨name, href, hl⟩
    exact hc.stops rfl hparts (fun _ => h.agreesUnless_tooDeep hcheck hjson hfree) hstops

theorem Opens.stops_start (hcheck : root.check = .ok ()) (hjson : document.isJson)
    (hfree : config.maxDepth = 0) (h : Opens config root document c around)
    (hstops : c.Stops { config with maxDepth := limit } root .tooDeep) :
    (Call.start root document).Stops { config with maxDepth := limit } root .tooDeep := by
  induction h with
  | start => exact hstops
  | call h hc ih => exact ih (h.stops_of_makes hcheck hjson hfree hc hstops)

/-- Inside as many references as the limit says there is one that was at the limit. -/
theorem Opens.stops_of_le (hcheck : root.check = .ok ()) (hjson : document.isJson)
    (hfree : config.maxDepth = 0) (hlimit : 1 ≤ limit) (h : Opens config root document c around)
    (hle : limit ≤ openRefs around) :
    (Call.start root document).Stops { config with maxDepth := limit } root .tooDeep := by
  induction h with
  | start =>
    have hzero : openRefs [] = 0 := rfl
    omega
  | @call c c' around h hc ih =>
    by_cases hbefore : limit ≤ openRefs around
    · exact ih hbefore
    cases href : c.frame.schema.ref with
    | none =>
      rw [openRefs_cons_of_not_ref href] at hle
      exact absurd hle hbefore
    | some name =>
      rw [openRefs_cons_of_ref href] at hle
      refine h.stops_start hcheck hjson hfree (Call.stops_of_limit href ?_)
      rw [h.depth_eq hcheck hjson]
      omega

theorem stops_of_le_mostOpenRefs (hcheck : root.check = .ok ()) (hjson : document.isJson)
    (hfree : config.maxDepth = 0) (hlimit : 1 ≤ limit)
    (h : (limit : ℕ∞) ≤ mostOpenRefs config root document) :
    (Call.start root document).Stops { config with maxDepth := limit } root .tooDeep := by
  obtain ⟨c, around, hopens, hle⟩ := (le_mostOpenRefs_iff limit).mp h
  exact hopens.stops_of_le hcheck hjson hfree hlimit hle

/-- The run without the limit opens all the calls that the run under it does. -/
theorem Opens.unlimited (hcheck : root.check = .ok ()) (hjson : document.isJson)
    (hfree : config.maxDepth = 0)
    (h : Opens { config with maxDepth := limit } root document c around) :
    Opens config root document c around := by
  induction h with
  | start => exact .start
  | @call c c' around _ hc ih =>
    refine ih.call ?_
    obtain @⟨before, after, g, stack, violations, hsplit, hends⟩ := hc
    have hdepth := ih.one_le_depth hcheck hjson
    have hparts : c.frame.parts config root = before ++ .visit g :: after := by
      rcases parts_maxDepth root limit hfree hdepth with hhalt | hsame
      · rw [hhalt] at hsplit
        have hmem : Part.visit g ∈ [Part.halt .tooDeep] := by simp [hsplit]
        cases List.mem_singleton.mp hmem
      · rw [← hsame, hsplit]
    have hagree : Walk.AgreesUnless .tooDeep
        (walkParts { config with maxDepth := limit } root stack before)
        (walkParts config root stack before) :=
      walkParts_agreesUnless rfl fun g' hg' =>
        ih.agreesUnless_tooDeep hcheck hjson hfree g' (by simp [Goes, hparts, hg'])
    exact .intro hparts ((hagree c.found (by simp [hends])).trans hends)

theorem le_mostOpenRefs_of_tooDeep (hcheck : root.check = .ok ()) (hjson : document.isJson)
    (hfree : config.maxDepth = 0)
    (h : (trace stack { config with maxDepth := limit } root document).halt = some .tooDeep) :
    (limit : ℕ∞) ≤ mostOpenRefs config root document := by
  rcases Opens.start.of_halt h with ⟨hcause, _⟩ | hcause | ⟨c, around, hlimited, hp⟩
  · cases hcause
  · cases hcause
  have hopens := hlimited.unlimited hcheck hjson hfree
  have hf := hopens.regular hcheck hjson
  have hdepth := hopens.depth_eq hcheck hjson
  cases (hf.mem_parts_iff hcheck).mp hp with
  | @tooDeep name href hlimit =>
    -- Without the limit the reference at which the run is aborted is followed.
    obtain ⟨target, htarget⟩ := exists_lookup_of_mem_keys ((hf.correct hcheck).ref name href)
    have hbelow : config.maxDepth ≠ c.frame.location.depth := by omega
    have hparts := parts_eq_follow (hf.correct hcheck).sole hf.json href htarget hbelow
    have hmakes : c.Makes config root ⟨c.frame.follow name target, c.found⟩ :=
      @Call.Makes.intro _ _ _ [] [] _ 0 [] hparts rfl
    refine (le_mostOpenRefs_iff limit).mpr ⟨_, _, hopens.call hmakes, ?_⟩
    rw [openRefs_cons_of_ref href, ← hdepth]
    exact hlimit.le

/-! ## The threshold -/

/-- With more references open at once than the limit allows, the run under it is aborted. -/
theorem endsWith_tooDeep_of_le (hcheck : root.check = .ok ()) (hjson : document.isJson)
    (hfree : config.maxDepth = 0) (hlimit : 1 ≤ limit)
    (h : (limit : ℕ∞) ≤ mostOpenRefs config root document) :
    EndsWith { config with maxDepth := limit } root document (.error (.tooDeep limit)) := by
  let limited : Config := { config with maxDepth := limit }
  refine ⟨limit * (root.topHeight + 1), fun stack hstack => ?_⟩
  have hends : (trace stack limited root document).halt ≠ some .stackExhausted :=
    halt_ne_of_nesting_le hcheck hjson fun c around hopens =>
      (hopens.nesting_le_maxDepth hcheck hjson hlimit).trans hstack
  have hhalt : (trace stack limited root document).halt = some .tooDeep :=
    (stops_of_le_mostOpenRefs hcheck hjson hfree hlimit h stack).resolve_right hends
  rw [Trace.outcome, hhalt]

/-- With fewer, both runs are the same, with any stack. -/
theorem trace_eq_of_mostOpenRefs_lt (hcheck : root.check = .ok ()) (hjson : document.isJson)
    (hfree : config.maxDepth = 0) (h : mostOpenRefs config root document < limit) (stack : Nat) :
    trace stack config root document =
      trace stack { config with maxDepth := limit } root document := by
  have hagree : Walk.AgreesUnless .tooDeep
      ((Frame.start root document).walk { config with maxDepth := limit } root stack)
      ((Frame.start root document).walk config root stack) :=
    (regular_start root hjson).walk_agreesUnless_tooDeep hcheck hfree (Nat.le_refl 1)
  exact hagree 0 fun hhalt =>
    not_le_of_gt h (le_mostOpenRefs_of_tooDeep hcheck hjson hfree hhalt)

theorem endsWith_ok_iff_of_mostOpenRefs_lt (hcheck : root.check = .ok ()) (hjson : document.isJson)
    (hfree : config.maxDepth = 0) (h : mostOpenRefs config root document < limit)
    (report : Report) :
    EndsWith { config with maxDepth := limit } root document (.ok report) ↔
      EndsWith config root document (.ok report) := by
  simp only [EndsWith, Trace.outcome_eq_ok_iff,
    trace_eq_of_mostOpenRefs_lt hcheck hjson hfree h]

theorem mostOpenRefs_lt_of_endsWith_ok {report : Report} (hcheck : root.check = .ok ())
    (hjson : document.isJson) (hfree : config.maxDepth = 0) (hlimit : 1 ≤ limit)
    (h : EndsWith { config with maxDepth := limit } root document (.ok report)) :
    mostOpenRefs config root document < limit := by
  by_contra hnot
  have hends := endsWith_tooDeep_of_le hcheck hjson hfree hlimit (not_lt.mp hnot)
  cases h.unique hends

theorem le_mostOpenRefs_of_endsWith (hcheck : root.check = .ok ()) (hjson : document.isJson)
    (hfree : config.maxDepth = 0)
    (h : EndsWith { config with maxDepth := limit } root document (.error (.tooDeep limit))) :
    (limit : ℕ∞) ≤ mostOpenRefs config root document := by
  obtain ⟨enough, hends⟩ := h
  have houtcome := hends enough (Nat.le_refl _)
  exact le_mostOpenRefs_of_tooDeep hcheck hjson hfree (Trace.outcome_eq_tooDeep_iff.mp houtcome).1

/-- **The limit on depth is a sharp threshold** at the largest number of references open at once in
the run without it. Up to that number it aborts the run; beyond, it changes nothing, and there is
such a number beyond unless the run has no end. So a higher limit keeps a report as it is, and a
lower one keeps an abort. What counts at a call is the references around it: those done with before
do not add up. -/
theorem tooDeep_iff_le_mostOpenRefs (config : Config) (root : Schema) (document : Value)
    (limit : Nat) (hcheck : root.check = .ok ()) (hjson : document.isJson)
    (hfree : config.maxDepth = 0) (hlimit : 1 ≤ limit) :
    (EndsWith { config with maxDepth := limit } root document (.error (.tooDeep limit)) ↔
      (limit : ℕ∞) ≤ mostOpenRefs config root document) ∧
    (mostOpenRefs config root document < limit →
      ∃ report, EndsWith config root document (.ok report) ∧
        EndsWith { config with maxDepth := limit } root document (.ok report)) ∧
    (Endless config root document ↔ mostOpenRefs config root document = ⊤) ∧
    (∀ higher report, limit ≤ higher →
      EndsWith { config with maxDepth := limit } root document (.ok report) →
      EndsWith { config with maxDepth := higher } root document (.ok report)) ∧
    (∀ lower, 1 ≤ lower → lower ≤ limit →
      EndsWith { config with maxDepth := limit } root document (.error (.tooDeep limit)) →
      EndsWith { config with maxDepth := lower } root document (.error (.tooDeep lower))) ∧
    ∀ c around, Opens config root document c around →
      c.frame.location.depth = openRefs around + 1 := by
  have hendless : Endless config root document ↔ mostOpenRefs config root document = ⊤ :=
    endless_iff_mostOpenRefs_eq_top hcheck hjson
  refine ⟨⟨?abort, ?aborted⟩, ?same, hendless, ?higher, ?lower, ?depth⟩
  case abort => exact le_mostOpenRefs_of_endsWith hcheck hjson hfree
  case aborted => exact endsWith_tooDeep_of_le hcheck hjson hfree hlimit
  case same =>
    intro hlt
    have hends : ¬ Endless config root document := by
      rw [hendless]
      exact (lt_of_lt_of_le hlt le_top).ne
    obtain ⟨report, hreport⟩ := exists_report_of_not_endless hcheck hjson hfree hends
    exact ⟨report, hreport,
      (endsWith_ok_iff_of_mostOpenRefs_lt hcheck hjson hfree hlt report).mpr hreport⟩
  case higher =>
    intro higher report hle hreport
    have hlt := mostOpenRefs_lt_of_endsWith_ok hcheck hjson hfree hlimit hreport
    have hlt' : mostOpenRefs config root document < higher :=
      hlt.trans_le (Nat.cast_le.mpr hle)
    rw [endsWith_ok_iff_of_mostOpenRefs_lt hcheck hjson hfree hlt] at hreport
    rwa [endsWith_ok_iff_of_mostOpenRefs_lt hcheck hjson hfree hlt']
  case lower =>
    intro lower hone hle habort
    have hmost := le_mostOpenRefs_of_endsWith hcheck hjson hfree habort
    exact endsWith_tooDeep_of_le hcheck hjson hfree hone ((Nat.cast_le.mpr hle).trans hmost)
  case depth => exact fun c around hopens => hopens.depth_eq hcheck hjson

/-- A list of two nodes: the reference at the root and the one in the first node are open at once. -/
theorem linkedList_mostOpenRefs :
    mostOpenRefs ⟨0, 0, true⟩ Schema.linkedList
      (.object [("item", .int 1), ("next", .object [("item", .int 2)])]) = 2 := by
  let document : Value := .object [("item", .int 1), ("next", .object [("item", .int 2)])]
  have habort : EndsWith ⟨0, 2, true⟩ Schema.linkedList document (.error (.tooDeep 2)) := by
    have hhalt : (trace 4 ⟨0, 2, true⟩ Schema.linkedList document).halt ≠ some .stackExhausted := by
      decide
    exact endsWith_of_halt_ne hhalt
  have hreport : EndsWith ⟨0, 3, true⟩ Schema.linkedList document (.ok ⟨[]⟩) := by
    have hhalt : (trace 6 ⟨0, 3, true⟩ Schema.linkedList document).halt ≠ some .stackExhausted := by
      decide
    exact endsWith_of_halt_ne hhalt
  have htwo := (tooDeep_iff_le_mostOpenRefs ⟨0, 0, true⟩ Schema.linkedList document 2 rfl rfl rfl
    (by decide)).1
  have hthree := (tooDeep_iff_le_mostOpenRefs ⟨0, 0, true⟩ Schema.linkedList document 3 rfl rfl rfl
    (by decide)).1
  refine le_antisymm ?_ (htwo.mp habort)
  have hlt : mostOpenRefs ⟨0, 0, true⟩ Schema.linkedList document < 3 := by
    refine not_le.mp fun hle => ?_
    cases hreport.unique (hthree.mpr hle)
  exact Order.le_of_lt_add_one hlt

end SchemaForms
