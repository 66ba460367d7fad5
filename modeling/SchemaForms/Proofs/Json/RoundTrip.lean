import SchemaForms.Proofs.Json.Scalars
import SchemaForms.Proofs.Value.Sorted

/-!
# Written values read back

A text that is written in a regular style is read as the value it was written from
(`Json.ReadsBack`), and the canonical text of a value as the value with its members in order
(`Json.readWith_canonical`).
-/

namespace SchemaForms.Json

variable {halves : Text.Halves} {style : Style} {level outer fuel : Nat}
  {cs after rest blanks : List Char} {v : Value}

/-! ## White space -/

/-- White space only. -/
def AllSpace (cs : List Char) : Prop := ∀ c ∈ cs, isSpace c = true

theorem skipSpace_append (h : AllSpace blanks) (cs : List Char) :
    skipSpace (blanks ++ cs) = skipSpace cs :=
  List.dropWhile_append_of_pos h

theorem skipSpace_cons {c : Char} (h : isSpace c = false) (cs : List Char) :
    skipSpace (c :: cs) = c :: cs := by
  rw [skipSpace, List.dropWhile_cons_of_neg]
  rw [h]
  exact Bool.false_ne_true

/-- White space may stand behind a number. -/
theorem AllSpace.numberEnds_append (h : AllSpace blanks) (hcs : NumberEnds cs) :
    NumberEnds (blanks ++ cs) := by
  cases blanks with
  | nil => exact hcs
  | cons c blanks =>
    intro d hd
    cases hd
    have hspace := h c List.mem_cons_self
    simp only [isSpace, Bool.or_eq_true, decide_eq_true_eq] at hspace
    rcases hspace with ((rfl | rfl) | rfl) | rfl <;> decide

theorem numberEnds_cons {c : Char} (h : c = ',' ∨ c = ']' ∨ c = '\x7d') (rest : List Char) :
    NumberEnds (c :: rest) := by
  intro d hd
  cases hd
  rcases h with rfl | rfl | rfl <;> decide

namespace Style

/-- A comma and a colon stand where they belong, with nothing but white space behind them. -/
structure Regular (style : Style) : Prop where
  comma : ∃ blanks, AllSpace blanks ∧ style.comma = ',' :: blanks
  colon : ∃ blanks, AllSpace blanks ∧ style.colon = ':' :: blanks

theorem regular_spaced (indent : Option Nat) : (spaced indent).Regular := by
  have hspace : AllSpace [' '] := by simp [AllSpace, isSpace]
  refine ⟨?_, [' '], hspace, rfl⟩
  cases indent with
  | none => exact ⟨[' '], hspace, rfl⟩
  | some width => exact ⟨[], nofun, rfl⟩

theorem allSpace_lineStart (style : Style) (level : Nat) : AllSpace (style.lineStart level) := by
  intro c hc
  rw [lineStart] at hc
  cases hindent : style.indent with
  | none =>
    rw [hindent] at hc
    cases hc
  | some width =>
    rw [hindent] at hc
    rcases List.mem_cons.mp hc with rfl | hc
    · rfl
    · rw [List.eq_of_mem_replicate hc]
      rfl

theorem skipSpace_lineStart (style : Style) (level : Nat) (cs : List Char) :
    skipSpace (style.lineStart level ++ cs) = skipSpace cs :=
  skipSpace_append (style.allSpace_lineStart level) cs

end Style

/-! ## The fronts of values -/

/-- Characters that no value starts with. -/
def strays : List Char := [']', ' ', '\t', '\n', '\r', '\ufeff']

/-- The characters that no value starts with, and those that start a string or a container. -/
def marks : List Char := '\x22' :: '[' :: '\x7b' :: strays

/-- No word and no number starts so. -/
theorem readScalar_marks {c : Char} (hc : c ∈ marks) (after : List Char) :
    readScalar (c :: after) = failAt .expectingValue (c :: after) := by
  simp only [marks, strays, List.mem_cons, List.not_mem_nil, or_false] at hc
  rcases hc with rfl | rfl | rfl | rfl | rfl | rfl | rfl | rfl | rfl <;> rfl

/-- A scalar is read as a value. -/
theorem readValue_of_readScalar (h : readScalar cs = .ok (v, rest)) :
    readValue halves (fuel + 1) cs = .ok (v, rest) := by
  have hfront : ∀ c after, c ∈ marks → cs ≠ c :: after := by
    rintro c after hc rfl
    rw [readScalar_marks hc] at h
    cases h
  rw [readValue]
  · exact h
  · exact fun after => hfront _ after (by decide)
  · exact fun after => hfront _ after (by decide)
  · exact fun after => hfront _ after (by decide)

/-- The text starts with a character that a value may start with. -/
def ValueFront (cs : List Char) : Prop := ∃ c tail, cs = c :: tail ∧ c ∉ strays

/-- What is read as a value starts as one. -/
theorem valueFront_of_readValue (h : readValue halves fuel cs = .ok (v, rest)) : ValueFront cs := by
  cases fuel with
  | zero => cases h
  | succ fuel =>
    cases cs with
    | nil =>
      rw [readValue] at h
      · cases h
      all_goals exact fun _ heq => List.cons_ne_nil _ _ heq.symm
    | cons c tail =>
      refine ⟨c, tail, rfl, fun hc => ?_⟩
      have hopening : c ≠ '\x22' ∧ c ≠ '[' ∧ c ≠ '\x7b' := by
        refine ⟨?_, ?_, ?_⟩
        all_goals
          rintro rfl
          revert hc
          decide
      rw [readValue] at h
      · rw [readScalar_marks (by simp [marks, hc])] at h
        cases h
      · exact fun _ heq => hopening.1 (List.cons.inj heq).1
      · exact fun _ heq => hopening.2.1 (List.cons.inj heq).1
      · exact fun _ heq => hopening.2.2 (List.cons.inj heq).1

theorem valueFront_of_readItems {items : List Value}
    (h : readItems halves fuel cs = .ok (items, rest)) : ValueFront cs := by
  cases fuel with
  | zero => cases h
  | succ fuel =>
    rw [readItems] at h
    obtain ⟨⟨x, after⟩, hx, -⟩ := exists_of_bind_eq_ok h
    exact valueFront_of_readValue hx

theorem ValueFront.skipSpace (h : ValueFront cs) : skipSpace cs = cs := by
  obtain ⟨c, tail, rfl, hc⟩ := h
  refine skipSpace_cons (Bool.eq_false_iff.mpr fun hspace => hc ?_) tail
  simp only [isSpace, Bool.or_eq_true, decide_eq_true_eq] at hspace
  rcases hspace with ((rfl | rfl) | rfl) | rfl <;> decide

/-! ## Containers -/

/-- Whatever else is read, it takes what the three readers need of it with so much fuel. -/
structure ReadsBack (halves : Text.Halves) (style : Style) (fuel : Nat) : Prop where
  value : ∀ level v rest, v.Expressible → (writeValue style level v).length < fuel →
    NumberEnds rest → readValue halves fuel (writeValue style level v ++ rest) = .ok (v, rest)
  items : ∀ level outer items rest, items ≠ [] → (∀ x ∈ items, x.Expressible) →
    (writeItems style level items).length + 1 < fuel →
    readItems halves fuel (writeItems style level items ++ (style.lineStart outer ++ ']' :: rest)) =
      .ok (items, rest)
  members : ∀ level outer members rest, members ≠ [] → (∀ entry ∈ members, entry.2.Expressible) →
    (writeMembers style level members).length + 1 < fuel →
    readMembers halves fuel
        (writeMembers style level members ++ (style.lineStart outer ++ '\x7d' :: rest)) =
      .ok (members, rest)

theorem readKey_writeString (hstyle : style.Regular) (key : String) (hafter : ValueFront after) :
    readKey halves (writeString key ++ (style.colon ++ after)) = .ok (key, after) := by
  obtain ⟨blanks, hblanks, hcolon⟩ := hstyle.colon
  have htext : writeString key ++ (style.colon ++ after) =
      '\x22' :: (key.toList.flatMap writeChar ++ '\x22' :: ':' :: (blanks ++ after)) := by
    simp [writeString, hcolon]
  rw [htext, readKey, readString_flatMap]
  show Except.ok (key, skipSpace (blanks ++ after)) = _
  rw [skipSpace_append hblanks, hafter.skipSpace]

/-! What one step of a reader gives, from what it finds. -/

theorem readItems_last {x : Value} (hx : readValue halves fuel cs = .ok (x, after))
    (hafter : skipSpace after = ']' :: rest) :
    readItems halves (fuel + 1) cs = .ok ([x], rest) := by
  rw [readItems, hx]
  dsimp only [bind, Except.bind]
  rw [hafter]
  rfl

theorem readItems_more {x : Value} {items : List Value} {next : List Char}
    (hx : readValue halves fuel cs = .ok (x, after)) (hafter : skipSpace after = ',' :: next)
    (hmore : readItems halves fuel (skipSpace next) = .ok (items, rest)) :
    readItems halves (fuel + 1) cs = .ok (x :: items, rest) := by
  rw [readItems, hx]
  dsimp only [bind, Except.bind]
  rw [hafter]
  show (readItems halves fuel (skipSpace next) >>= fun read => .ok (x :: read.1, read.2)) = _
  rw [hmore]
  rfl

theorem readMembers_last {key : String} {x : Value} {start : List Char}
    (hkey : readKey halves cs = .ok (key, start))
    (hx : readValue halves fuel start = .ok (x, after))
    (hafter : skipSpace after = '\x7d' :: rest) :
    readMembers halves (fuel + 1) cs = .ok ([(key, x)], rest) := by
  rw [readMembers, hkey]
  dsimp only [bind, Except.bind]
  rw [hx]
  dsimp only
  rw [hafter]
  rfl

theorem readMembers_more {key : String} {x : Value} {members : List (String × Value)}
    {start next : List Char} (hkey : readKey halves cs = .ok (key, start))
    (hx : readValue halves fuel start = .ok (x, after)) (hafter : skipSpace after = ',' :: next)
    (hmore : readMembers halves fuel (skipSpace next) = .ok (members, rest)) :
    readMembers halves (fuel + 1) cs = .ok ((key, x) :: members, rest) := by
  rw [readMembers, hkey]
  dsimp only [bind, Except.bind]
  rw [hx]
  dsimp only
  rw [hafter]
  show (readMembers halves fuel (skipSpace next) >>=
    fun read => .ok ((key, x) :: read.1, read.2)) = _
  rw [hmore]
  rfl

theorem readValue_array {items : List Value} (hfront : ValueFront (skipSpace cs))
    (hitems : readItems halves fuel (skipSpace cs) = .ok (items, rest)) :
    readValue halves (fuel + 1) ('[' :: cs) = .ok (.array items, rest) := by
  obtain ⟨c, tail, hskip, hc⟩ := hfront
  rw [hskip] at hitems
  rw [readValue, hskip]
  split
  · next heq =>
    obtain rfl := (List.cons.inj heq).1
    exact absurd List.mem_cons_self hc
  · rw [hitems]
    rfl

theorem readValue_object {members : List (String × Value)} {tail : List Char}
    (hfront : skipSpace cs = '\x22' :: tail)
    (hmembers : readMembers halves fuel ('\x22' :: tail) = .ok (members, rest)) :
    readValue halves (fuel + 1) ('\x7b' :: cs) = .ok (.object (collectMembers members), rest) := by
  rw [readValue, hfront]
  show (readMembers halves fuel ('\x22' :: tail) >>= fun read =>
    .ok (Value.object (collectMembers read.1), read.2)) = _
  rw [hmembers]
  rfl

/-! ## What a written text is read as -/

theorem exists_writeMembers (style : Style) (level : Nat) (key : String) (x : Value)
    (more : List (String × Value)) :
    ∃ tail, writeMembers style level ((key, x) :: more) = '\x22' :: tail := by
  cases more with
  | nil => exact ⟨_, rfl⟩
  | cons entry more => exact ⟨_, rfl⟩

namespace ReadsBack

/-- Items are read once the items that are left are read with less fuel. -/
theorem items_succ (hstyle : style.Regular) (ih : ReadsBack halves style fuel) {items : List Value}
    (hne : items ≠ []) (hitems : ∀ x ∈ items, x.Expressible)
    (hfuel : (writeItems style level items).length + 1 < fuel + 1) :
    readItems halves (fuel + 1)
        (writeItems style level items ++ (style.lineStart outer ++ ']' :: rest)) =
      .ok (items, rest) := by
  match items with
  | [] => exact absurd rfl hne
  | [x] =>
    rw [writeItems] at hfuel ⊢
    have hends : NumberEnds (style.lineStart outer ++ ']' :: rest) :=
      (style.allSpace_lineStart outer).numberEnds_append (numberEnds_cons (by simp) rest)
    have hx := ih.value _ _ _ (hitems x (by simp)) (Nat.lt_of_succ_lt_succ hfuel) hends
    apply readItems_last hx
    rw [Style.skipSpace_lineStart, skipSpace_cons rfl]
  | x :: y :: more =>
    obtain ⟨blanks, hblanks, hcomma⟩ := hstyle.comma
    rw [writeItems, hcomma] at hfuel ⊢
    simp only [List.length_append, List.length_cons] at hfuel
    simp only [List.append_assoc, List.cons_append]
    have hmore := ih.items level outer _ rest (List.cons_ne_nil y more)
      (fun z hz => hitems z (List.mem_cons_of_mem x hz)) (by omega)
    have hfront := valueFront_of_readItems hmore
    generalize writeItems style level (y :: more) ++ (style.lineStart outer ++ ']' :: rest) =
      left at hmore hfront ⊢
    have hx := ih.value level x _ (hitems x (by simp)) (by omega)
      (numberEnds_cons (.inl rfl) (blanks ++ (style.lineStart level ++ left)))
    refine readItems_more hx (skipSpace_cons rfl _) ?_
    rw [skipSpace_append hblanks, Style.skipSpace_lineStart, hfront.skipSpace]
    exact hmore

/-- Members are read once the members that are left are read with less fuel. -/
theorem members_succ (hstyle : style.Regular) (ih : ReadsBack halves style fuel)
    {members : List (String × Value)} (hne : members ≠ [])
    (hmembers : ∀ entry ∈ members, entry.2.Expressible)
    (hfuel : (writeMembers style level members).length + 1 < fuel + 1) :
    readMembers halves (fuel + 1)
        (writeMembers style level members ++ (style.lineStart outer ++ '\x7d' :: rest)) =
      .ok (members, rest) := by
  match members with
  | [] => exact absurd rfl hne
  | [(key, x)] =>
    rw [writeMembers] at hfuel ⊢
    simp only [List.length_append] at hfuel
    simp only [List.append_assoc]
    have hends : NumberEnds (style.lineStart outer ++ '\x7d' :: rest) :=
      (style.allSpace_lineStart outer).numberEnds_append (numberEnds_cons (by simp) rest)
    have hx := ih.value level x _ (hmembers (key, x) (by simp)) (by omega) hends
    refine readMembers_last (readKey_writeString hstyle key (valueFront_of_readValue hx)) hx ?_
    rw [Style.skipSpace_lineStart, skipSpace_cons rfl]
  | (key, x) :: entry :: more =>
    obtain ⟨blanks, hblanks, hcomma⟩ := hstyle.comma
    rw [writeMembers, hcomma] at hfuel ⊢
    simp only [List.length_append, List.length_cons] at hfuel
    simp only [List.append_assoc, List.cons_append]
    have hmore := ih.members level outer _ rest
      (List.cons_ne_nil entry more) (fun e he => hmembers e (List.mem_cons_of_mem _ he)) (by omega)
    obtain ⟨tail, hfront⟩ := exists_writeMembers style level entry.1 entry.2 more
    rw [hfront, List.cons_append] at hmore ⊢
    generalize tail ++ (style.lineStart outer ++ '\x7d' :: rest) = left at hmore ⊢
    have hx := ih.value level x _ (hmembers (key, x) (by simp)) (by omega)
      (numberEnds_cons (.inl rfl) (blanks ++ (style.lineStart level ++ '\x22' :: left)))
    refine readMembers_more (readKey_writeString hstyle key (valueFront_of_readValue hx)) hx
      (skipSpace_cons rfl _) ?_
    rw [skipSpace_append hblanks, Style.skipSpace_lineStart, skipSpace_cons rfl]
    exact hmore

/-- A value is read once what stands in it is read with less fuel. -/
theorem value_succ (ih : ReadsBack halves style fuel) (hv : v.Expressible)
    (hfuel : (writeValue style level v).length < fuel + 1) (hrest : NumberEnds rest) :
    readValue halves (fuel + 1) (writeValue style level v ++ rest) = .ok (v, rest) := by
  match v with
  | .null => exact readValue_of_readScalar rfl
  | .bool true => exact readValue_of_readScalar rfl
  | .bool false => exact readValue_of_readScalar rfl
  | .number n => exact readValue_of_readScalar (readScalar_writeNumber hv.showable hrest)
  | .string s =>
    have htext : writeValue style level (.string s) ++ rest =
        '\x22' :: (s.toList.flatMap writeChar ++ '\x22' :: rest) := by
      simp [writeValue, writeString]
    rw [htext, readValue, readString_flatMap]
    rfl
  | .array [] =>
    rw [writeValue, List.cons_append, readValue, List.singleton_append, skipSpace_cons rfl]
    rfl
  | .array (x :: more) =>
    have hitems := Value.expressible_array_iff.mp hv
    simp only [writeValue, List.length_cons, List.length_append] at hfuel
    have hread := ih.items (level + 1) level _ rest
      (List.cons_ne_nil x more) hitems (by omega)
    have hfront := valueFront_of_readItems hread
    rw [writeValue]
    simp only [List.append_assoc, List.cons_append, List.nil_append]
    apply readValue_array
    · rw [Style.skipSpace_lineStart, hfront.skipSpace]
      exact hfront
    · rw [Style.skipSpace_lineStart, hfront.skipSpace]
      exact hread
  | .object [] =>
    rw [writeValue, List.cons_append, readValue, List.singleton_append, skipSpace_cons rfl]
    rfl
  | .object (entry :: more) =>
    obtain ⟨hnodup, hmembers⟩ := Value.expressible_object_iff.mp hv
    simp only [writeValue, List.length_cons, List.length_append] at hfuel
    have hread := ih.members (level + 1) level _ rest
      (List.cons_ne_nil entry more) hmembers (by omega)
    obtain ⟨tail, hfront⟩ := exists_writeMembers style (level + 1) entry.1 entry.2 more
    rw [writeValue]
    simp only [List.append_assoc, List.cons_append, List.nil_append]
    rw [hfront, List.cons_append] at hread ⊢
    rw [← collectMembers_of_nodup hnodup]
    apply readValue_object _ hread
    rw [Style.skipSpace_lineStart, skipSpace_cons rfl]
  | .foreign leaf => exact absurd hv.proper.json Bool.false_ne_true

end ReadsBack

/-- **What is written in a regular style is read back**, by every reader with fuel enough. -/
theorem readsBack (hstyle : style.Regular) (fuel : Nat) : ReadsBack halves style fuel := by
  induction fuel with
  | zero =>
    refine ⟨fun _ _ _ _ hfuel _ => ?_, fun _ _ _ _ _ _ hfuel => ?_, fun _ _ _ _ _ _ hfuel => ?_⟩
    all_goals exact absurd hfuel (Nat.not_lt_zero _)
  | succ fuel ih =>
    exact ⟨fun _ _ _ => ih.value_succ, fun _ _ _ _ => ih.items_succ hstyle,
      fun _ _ _ _ => ih.members_succ hstyle⟩

/-! ## Whole texts -/

/-- **A written value is read back**, whatever white space stands behind it. -/
theorem readWith_write (hstyle : style.Regular) (hv : v.Expressible) (hblanks : AllSpace blanks) :
    readWith halves (write style v ++ String.ofList blanks) = .ok v := by
  have htext : (write style v ++ String.ofList blanks).toList = writeValue style 0 v ++ blanks := by
    rw [String.toList_append, write, String.toList_ofList, String.toList_ofList]
  have hvalue : readValue halves ((writeValue style 0 v ++ blanks).length + 1)
      (writeValue style 0 v ++ blanks) = .ok (v, blanks) := by
    have hends : NumberEnds (blanks ++ []) := hblanks.numberEnds_append nofun
    rw [List.append_nil] at hends
    refine (readsBack hstyle _).value 0 v blanks hv ?_ hends
    rw [List.length_append]
    omega
  have hfront := valueFront_of_readValue hvalue
  have hmark : ∀ tail, writeValue style 0 v ++ blanks ≠ '\ufeff' :: tail := by
    intro tail heq
    obtain ⟨c, tail', hfront, hc⟩ := hfront
    obtain rfl := (List.cons.inj (heq.symm.trans hfront)).1
    exact absurd (by decide) hc
  have hdocument : readDocument halves (writeValue style 0 v ++ blanks) = .ok v := by
    rw [readDocument]
    · rw [hfront.skipSpace, hvalue]
      dsimp only [bind, Except.bind]
      rw [show skipSpace blanks = [] from List.dropWhile_eq_nil_iff.mpr hblanks]
    · exact fun tail => hmark tail
  rw [readWith, htext, hdocument]

/-- **The canonical text of a value is read as the value with its members in order.** -/
theorem readWith_canonical (halves : Text.Halves) (indent : Option Nat) (hv : v.Expressible) :
    readWith halves (canonical indent v) = .ok v.sorted := by
  have hsorted : v.sorted.Expressible := (Value.reordered_sorted hv.proper).expressible hv
  have hblanks : AllSpace ['\n'] := by simp [AllSpace, isSpace]
  exact readWith_write (Style.regular_spaced indent) hsorted hblanks

/-- Only values that differ in the order of members have one canonical text. -/
theorem sorted_eq_of_canonical_eq {indent : Option Nat} {w : Value} (hv : v.Expressible)
    (hw : w.Expressible) (h : canonical indent v = canonical indent w) : v.sorted = w.sorted := by
  have hread := readWith_canonical .replaced indent hv
  rw [h, readWith_canonical .replaced indent hw] at hread
  exact (Except.ok.inj hread).symm

end SchemaForms.Json
