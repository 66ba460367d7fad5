import Mathlib.Data.Nat.Digits.Lemmas
import SchemaForms.Json.Reader
import SchemaForms.Proofs.Value.Proper
import SchemaForms.Proofs.Value.Showable

/-!
# What is read from a JSON text

What holds of every word, number and string of JSON, and of a container when it holds of all that
stands in it, holds of every value that is read from a JSON text (`Hereditary.of_readWith`). Such a
value is proper (`Json.proper_of_readWith`), since no rule of the reader gives a foreign leaf and
the members of an object are collected by key, and it can be shown in a message
(`Json.isShowable_of_readWith`), since an integer of too many digits is refused.
-/

namespace SchemaForms

namespace Json

variable {halves : Text.Halves} {cs rest : List Char} {v : Value}

theorem exists_of_bind_eq_ok {ε α β : Type} {first : Except ε α} {next : α → Except ε β} {b : β}
    (h : first >>= next = .ok b) : ∃ a, first = .ok a ∧ next a = .ok b := by
  cases first with
  | error _ => cases h
  | ok a => exact ⟨a, rfl, h⟩

/-! ## From the leaves to the whole text -/

/-- It holds of the scalars that are read, of every string, and of a container when it holds of what
stands in it. -/
structure Hereditary (P : Value → Prop) : Prop where
  scalar : ∀ cs v rest, readScalar cs = .ok (v, rest) → P v
  string : ∀ text, P (.string text)
  array : ∀ items, (∀ x ∈ items, P x) → P (.array items)
  object : ∀ pairs, (∀ pair ∈ pairs, P pair.2) → P (.object (collectMembers pairs))

/-- What the three readers return with so much fuel has the property. -/
structure ReadsOnly (halves : Text.Halves) (P : Value → Prop) (fuel : Nat) : Prop where
  value : ∀ cs v rest, readValue halves fuel cs = .ok (v, rest) → P v
  items : ∀ cs items rest, readItems halves fuel cs = .ok (items, rest) → ∀ x ∈ items, P x
  members : ∀ cs members rest, readMembers halves fuel cs = .ok (members, rest) →
    ∀ entry ∈ members, P entry.2

namespace Hereditary

variable {P : Value → Prop} {fuel : Nat} {items : List Value} {members : List (String × Value)}

theorem value_succ (hP : Hereditary P) (ih : ReadsOnly halves P fuel)
    (h : readValue halves (fuel + 1) cs = .ok (v, rest)) : P v := by
  unfold readValue at h
  split at h
  · obtain ⟨⟨text, after⟩, -, h⟩ := exists_of_bind_eq_ok h
    cases h
    exact hP.string text
  · split at h
    · cases h
      exact hP.array [] (by simp)
    · obtain ⟨⟨items, after⟩, hitems, h⟩ := exists_of_bind_eq_ok h
      cases h
      exact hP.array items (ih.items _ _ _ hitems)
  · split at h
    · cases h
      exact hP.object [] (by simp)
    · obtain ⟨⟨members, after⟩, hmembers, h⟩ := exists_of_bind_eq_ok h
      cases h
      exact hP.object members (ih.members _ _ _ hmembers)
  · exact hP.scalar _ _ _ h

theorem items_succ (ih : ReadsOnly halves P fuel)
    (h : readItems halves (fuel + 1) cs = .ok (items, rest)) : ∀ x ∈ items, P x := by
  unfold readItems at h
  obtain ⟨⟨item, after⟩, hitem, h⟩ := exists_of_bind_eq_ok h
  have hfirst : P item := ih.value _ _ _ hitem
  simp only at h
  split at h
  · cases h
    exact List.forall_mem_singleton.mpr hfirst
  · obtain ⟨⟨more, after⟩, hmore, h⟩ := exists_of_bind_eq_ok h
    cases h
    exact List.forall_mem_cons.mpr ⟨hfirst, ih.items _ _ _ hmore⟩
  · cases h

theorem members_succ (ih : ReadsOnly halves P fuel)
    (h : readMembers halves (fuel + 1) cs = .ok (members, rest)) :
    ∀ entry ∈ members, P entry.2 := by
  unfold readMembers at h
  obtain ⟨⟨key, after⟩, -, h⟩ := exists_of_bind_eq_ok h
  obtain ⟨⟨member, after⟩, hmember, h⟩ := exists_of_bind_eq_ok h
  have hfirst : P member := ih.value _ _ _ hmember
  simp only at h
  split at h
  · cases h
    exact List.forall_mem_singleton.mpr hfirst
  · obtain ⟨⟨more, after⟩, hmore, h⟩ := exists_of_bind_eq_ok h
    cases h
    exact List.forall_mem_cons.mpr ⟨hfirst, ih.members _ _ _ hmore⟩
  · cases h

/-- The readers call each other with less fuel, so it is shown of the three of them at once. -/
theorem readsOnly (hP : Hereditary P) (fuel : Nat) : ReadsOnly halves P fuel := by
  induction fuel with
  | zero => exact ⟨nofun, nofun, nofun⟩
  | succ fuel ih =>
    exact ⟨fun _ _ _ => hP.value_succ ih, fun _ _ _ => items_succ ih, fun _ _ _ => members_succ ih⟩

theorem of_readWith (hP : Hereditary P) {text : String} (h : readWith halves text = .ok v) :
    P v := by
  have hdocument : readDocument halves text.toList = .ok v := by
    unfold readWith at h
    dsimp only at h
    split at h
    · next hread =>
      cases h
      exact hread
    · cases h
    · cases h
  unfold readDocument at hdocument
  split at hdocument
  · cases hdocument
  · obtain ⟨⟨value, after⟩, hvalue, hdocument⟩ := exists_of_bind_eq_ok hdocument
    simp only at hdocument
    split at hdocument
    · cases hdocument
      exact (hP.readsOnly _).value _ _ _ hvalue
    · cases hdocument

end Hereditary

/-! ## Words and numbers -/

/-- A scalar that is read is one of the words, or a number that is read. -/
theorem of_readScalar {P : Value → Prop} (hwords : ∀ entry ∈ words, P entry.2)
    (hnumbers : ∀ negative start cs number rest,
      readUnsigned negative start cs = .ok (number, rest) → P (.number number))
    (h : readScalar cs = .ok (v, rest)) : P v := by
  unfold readScalar at h
  split at h
  · next hword =>
    cases h
    obtain ⟨⟨word, value⟩, hmem, h⟩ := List.exists_of_findSome?_eq_some hword
    dsimp only at h
    split_ifs at h
    cases h
    exact hwords _ hmem
  · dsimp only at h
    split at h <;>
    · obtain ⟨⟨number, after⟩, hnumber, h⟩ := exists_of_bind_eq_ok h
      cases h
      exact hnumbers _ _ _ _ _ hnumber

theorem baseDigit?_lt {base d : Nat} {c : Char} (h : Number.baseDigit? base c = some d) :
    d < base := by
  simpa using Option.filter_eq_some_iff.mp h |>.2

/-- So many digits of a base write a number below that power of it. -/
theorem digitsValue_lt {base : Nat} (hbase : 0 < base) (cs : List Char) :
    Number.digitsValue base cs < base ^ cs.length := by
  induction cs using List.reverseRecOn with
  | nil => simp [Number.digitsValue]
  | append_singleton cs c ih =>
    rw [Number.digitsValue] at ih ⊢
    rw [List.foldl_append, List.length_append, List.length_singleton, pow_succ', List.foldl_cons,
      List.foldl_nil]
    generalize List.foldl _ 0 cs = n at ih ⊢
    split
    · next d hd =>
      have hlt : d < base := baseDigit?_lt hd
      calc base * n + d < base * (n + 1) := by rw [Nat.mul_succ]; omega
        _ ≤ base * base ^ cs.length := Nat.mul_le_mul_left _ ih
    · calc n < base ^ cs.length := ih
        _ ≤ base * base ^ cs.length := Nat.le_mul_of_pos_left _ hbase

/-- An integer of few enough digits can be shown, whatever its sign. -/
theorem isShowable_of_digits {digits : List Char} {n : Int} (hne : digits ≠ [])
    (hlength : digits.length ≤ Number.digitLimit)
    (hn : n.natAbs = Number.digitsValue 10 digits) : (Number.int n).isShowable = true := by
  rw [Number.isShowable, hn, decide_eq_true_eq]
  have hshort : (Nat.repr (Number.digitsValue 10 digits)).length ≤ digits.length :=
    Nat.repr_length _ _ (List.length_pos_iff.mpr hne) (digitsValue_lt (by decide) digits)
  exact hshort.trans hlength

theorem isShowable_of_readUnsigned {negative : Bool} {start : List Char} {number : Number}
    (h : readUnsigned negative start cs = .ok (number, rest)) : number.isShowable = true := by
  unfold readUnsigned at h
  generalize takeWhole cs = w at h
  obtain ⟨whole, after⟩ := w
  dsimp only at h
  split at h
  · cases h
  · next hempty =>
    have hne : whole ≠ [] := by simpa using hempty
    split at h
    · split at h
      · cases h
      · next hlimit =>
        have hlength : whole.length ≤ Number.digitLimit := Nat.not_lt.mp hlimit
        cases h
        refine isShowable_of_digits hne hlength ?_
        split_ifs <;> simp
    · cases h
      rfl

/-! ## Texts -/

theorem hereditary_proper : Hereditary Value.Proper where
  scalar _ _ _ h := by
    have hwords : ∀ entry ∈ words, entry.2.isJson = true ∧ entry.2.distinctKeys = true := by
      decide
    exact of_readScalar (fun entry hmem => ⟨(hwords entry hmem).1, (hwords entry hmem).2⟩)
      (fun _ _ _ _ _ _ => ⟨rfl, rfl⟩) h
  string _ := ⟨rfl, rfl⟩
  array _ := Value.proper_array_iff.mpr
  object _ := Value.proper_collectMembers

theorem hereditary_isShowable : Hereditary fun v => v.isShowable = true where
  scalar _ _ _ h := by
    have hwords : ∀ entry ∈ words, entry.2.isShowable = true := by decide
    exact of_readScalar (P := fun v => v.isShowable = true) hwords
      (fun _ _ _ _ _ => isShowable_of_readUnsigned) h
  string _ := rfl
  array _ := Value.isShowable_array_iff.mpr
  object _ h := Value.isShowable_object_iff.mpr fun _ hentry => by
    obtain ⟨pair, hpair, heq⟩ := exists_mem_of_mem_collectMembers hentry
    exact heq ▸ h pair hpair

/-- **What is read from a JSON text is proper.** -/
theorem proper_of_readWith {text : String} (h : readWith halves text = .ok v) : v.Proper :=
  hereditary_proper.of_readWith h

/-- **What is read from a JSON text can be shown.** -/
theorem isShowable_of_readWith {text : String} (h : readWith halves text = .ok v) :
    v.isShowable = true :=
  hereditary_isShowable.of_readWith h

end Json

end SchemaForms
