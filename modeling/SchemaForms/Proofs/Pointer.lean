import Mathlib.Data.List.Basic
import SchemaForms.Report

/-!
# Reading a pointer

`pointerTokens` reads a pointer: it is taken apart at its slashes, and in each piece `~1` stands for
a slash and `~0` for a tilde, in this order. A path is read back from its pointer
(`pointerTokens_pointer`), so different paths have different pointers, and the pointers are the
texts that look like one (`IsPointer`).
-/

namespace SchemaForms

/-- Every pair of these two characters replaced by one character, from left to right. -/
def replacePairs (first second replacement : Char) : List Char → List Char
  | c :: d :: rest =>
    if c = first ∧ d = second then replacement :: replacePairs first second replacement rest
    else c :: replacePairs first second replacement (d :: rest)
  | cs => cs

/-- The token that a piece of a pointer writes. -/
def pointerPiece (cs : List Char) : String :=
  String.ofList (replacePairs '~' '0' '~' (replacePairs '~' '1' '/' cs))

/-- The path that a pointer writes: what stands behind each of its slashes. -/
def pointerTokens (text : String) : List String :=
  (text.toList.splitOn '/').tail.map pointerPiece

/-! ## One token -/

theorem replacePairs_cons_of_ne {first second replacement c : Char} (h : c ≠ first)
    (cs : List Char) :
    replacePairs first second replacement (c :: cs) =
      c :: replacePairs first second replacement cs := by
  cases cs with
  | nil => simp [replacePairs]
  | cons d rest => rw [replacePairs, if_neg fun hpair => h hpair.1]

theorem replacePairs_pair (first second replacement : Char) (rest : List Char) :
    replacePairs first second replacement (first :: second :: rest) =
      replacement :: replacePairs first second replacement rest := by
  rw [replacePairs, if_pos ⟨rfl, rfl⟩]

/-- The first pass leaves the tildes as they are written, and puts the slashes back. -/
theorem replacePairs_slash (cs : List Char) :
    replacePairs '~' '1' '/' (cs.flatMap pointerChar) =
      cs.flatMap fun c => if c = '~' then ['~', '0'] else [c] := by
  induction cs with
  | nil => rfl
  | cons c rest ih =>
    rw [List.flatMap_cons, List.flatMap_cons, ← ih, pointerChar]
    split_ifs with htilde hslash
    · -- The zero behind the tilde keeps it from being taken for a slash.
      show replacePairs '~' '1' '/' ('~' :: '0' :: _) = _
      rw [replacePairs, if_neg (by decide), replacePairs_cons_of_ne (by decide)]
      rfl
    · rw [hslash]
      exact replacePairs_pair _ _ _ _
    · exact replacePairs_cons_of_ne htilde _

/-- The second pass puts the tildes back. -/
theorem replacePairs_tilde (cs : List Char) :
    replacePairs '~' '0' '~' (cs.flatMap fun c => if c = '~' then ['~', '0'] else [c]) = cs := by
  induction cs with
  | nil => rfl
  | cons c rest ih =>
    rw [List.flatMap_cons]
    split_ifs with htilde
    · rw [htilde]
      exact (replacePairs_pair _ _ _ _).trans (congrArg _ ih)
    · exact (replacePairs_cons_of_ne htilde _).trans (congrArg _ ih)

theorem pointerPiece_pointerChar (token : String) :
    pointerPiece (token.toList.flatMap pointerChar) = token := by
  rw [pointerPiece, replacePairs_slash, replacePairs_tilde, String.ofList_toList]

/-! ## The whole path -/

theorem slash_not_mem (cs : List Char) : '/' ∉ cs.flatMap pointerChar := by
  intro h
  obtain ⟨c, -, hc⟩ := List.mem_flatMap.mp h
  unfold pointerChar at hc
  split_ifs at hc with htilde hslash
  · exact absurd hc (by decide)
  · exact absurd hc (by decide)
  · exact hslash (List.mem_singleton.mp hc).symm

/-- Taken apart at its slashes a pointer gives the written tokens, behind what stands in front of
the first slash. -/
theorem splitOn_append_pointer {cs : List Char} (h : '/' ∉ cs) (path : List String) :
    (cs ++ path.flatMap pointerToken).splitOn '/' =
      cs :: path.map fun token => token.toList.flatMap pointerChar := by
  induction path generalizing cs with
  | nil => simpa using List.splitOn_eq_singleton h
  | cons token rest ih =>
    rw [List.flatMap_cons, pointerToken, List.cons_append,
      List.splitOn_append_cons_self_of_not_mem h, ih (slash_not_mem token.toList)]
    rfl

/-- **A path is read back from its pointer.** -/
theorem pointerTokens_pointer (path : List String) : pointerTokens (pointer path) = path := by
  have hsplit := splitOn_append_pointer (List.not_mem_nil (a := '/')) path
  rw [List.nil_append] at hsplit
  rw [pointerTokens, pointer, String.toList_ofList, hsplit, List.tail_cons, List.map_map]
  simp [Function.comp_def, pointerPiece_pointerChar]

/-- Different paths have different pointers. -/
theorem pointer_injective {p q : List String} (h : pointer p = pointer q) : p = q :=
  Function.LeftInverse.injective pointerTokens_pointer h

/-! ## The texts that are pointers -/

/-- Every tilde has a zero or a one behind it. -/
def TildesEscaped (cs : List Char) : Prop :=
  ∀ before after, cs = before ++ '~' :: after →
    ∃ rest, after = '0' :: rest ∨ after = '1' :: rest

/-- The text is empty, or it starts with a slash and all its tildes are escaped. -/
def IsPointer (text : String) : Prop :=
  text = "" ∨ (∃ rest, text.toList = '/' :: rest) ∧ TildesEscaped text.toList

theorem TildesEscaped.of_append (front : List Char) {cs : List Char}
    (h : TildesEscaped (front ++ cs)) : TildesEscaped cs := by
  intro before after hsplit
  exact h (front ++ before) after (by rw [hsplit, List.append_assoc])

/-- Characters with escaped tildes write the end of a token and the tokens behind it. -/
theorem TildesEscaped.exists_tokens : (cs : List Char) → TildesEscaped cs →
    ∃ (token : List Char) (path : List String),
      cs = token.flatMap pointerChar ++ path.flatMap pointerToken
  | [], _ => ⟨[], [], rfl⟩
  | c :: rest, h => by
    by_cases htilde : c = '~'
    · -- The tilde and the character behind it are read together.
      obtain ⟨rest', rfl | rfl⟩ := h [] rest (by rw [htilde]; rfl)
      · obtain ⟨token, path, hrest⟩ := exists_tokens rest' (of_append [c, '0'] h)
        exact ⟨'~' :: token, path, by simp [htilde, hrest, pointerChar]⟩
      · obtain ⟨token, path, hrest⟩ := exists_tokens rest' (of_append [c, '1'] h)
        exact ⟨'/' :: token, path, by simp [htilde, hrest, pointerChar]⟩
    · obtain ⟨token, path, hrest⟩ := exists_tokens rest (of_append [c] h)
      by_cases hslash : c = '/'
      · -- A slash ends the token, and what follows is the next one.
        refine ⟨[], String.ofList token :: path, ?_⟩
        simp [hslash, hrest, pointerToken]
      · exact ⟨c :: token, path, by simp [htilde, hslash, hrest, pointerChar]⟩

theorem TildesEscaped.cons {c : Char} {cs : List Char} (hc : c ≠ '~') (h : TildesEscaped cs) :
    TildesEscaped (c :: cs) := by
  intro before after hsplit
  cases before with
  | nil => exact absurd (List.cons.inj hsplit).1 hc
  | cons b before => exact h before after (List.cons.inj hsplit).2

theorem TildesEscaped.escape {d : Char} {cs : List Char} (hd : d = '0' ∨ d = '1')
    (h : TildesEscaped cs) : TildesEscaped ('~' :: d :: cs) := by
  have hbehind : TildesEscaped (d :: cs) := h.cons (by rcases hd with rfl | rfl <;> decide)
  intro before after hsplit
  cases before with
  | nil => exact ⟨cs, by rcases hd with rfl | rfl <;> simp_all⟩
  | cons b before => exact hbehind before after (List.cons.inj hsplit).2

theorem tildesEscaped_pointerToken (token : String) {cs : List Char} (h : TildesEscaped cs) :
    TildesEscaped (pointerToken token ++ cs) := by
  rw [pointerToken, List.cons_append]
  apply TildesEscaped.cons (by decide)
  induction token.toList with
  | nil => exact h
  | cons c rest ih =>
    rw [List.flatMap_cons, List.append_assoc, pointerChar]
    split_ifs with htilde hslash
    · exact ih.escape (.inl rfl)
    · exact ih.escape (.inr rfl)
    · exact ih.cons htilde

theorem isPointer_pointer (path : List String) : IsPointer (pointer path) := by
  have htildes : TildesEscaped (path.flatMap pointerToken) := by
    induction path with
    | nil =>
      intro before after hsplit
      simp at hsplit
    | cons token rest ih => exact tildesEscaped_pointerToken token ih
  cases path with
  | nil => exact .inl rfl
  | cons token rest =>
    refine .inr ⟨?_, by simpa [pointer] using htildes⟩
    simp [pointer, pointerToken]

theorem exists_path_of_isPointer {text : String} (h : IsPointer text) :
    ∃ path, pointer path = text := by
  rcases h with rfl | ⟨⟨rest, hslash⟩, htildes⟩
  · exact ⟨[], rfl⟩
  · rw [hslash] at htildes
    obtain ⟨token, path, hrest⟩ := TildesEscaped.exists_tokens rest
      (TildesEscaped.of_append ['/'] htildes)
    refine ⟨String.ofList token :: path, ?_⟩
    rw [← String.ofList_toList (s := text), hslash, hrest, pointer]
    simp [pointerToken]

/-- **Pointers decode back.** Reading undoes writing on every path, writing undoes reading on the
texts that look like a pointer and on no others, and violations with different paths are different
documents. -/
theorem pointer_decodes :
    (∀ path, pointerTokens (pointer path) = path) ∧
    (∀ text, IsPointer text ↔ pointer (pointerTokens text) = text) ∧
    ∀ v w : Violation, v.toValue = w.toValue ↔
      v.instancePath = w.instancePath ∧ v.schemaPath = w.schemaPath := by
  refine ⟨pointerTokens_pointer, fun text => ⟨fun h => ?_, fun h => ?_⟩, fun v w => ⟨?_, ?_⟩⟩
  · obtain ⟨path, rfl⟩ := exists_path_of_isPointer h
    rw [pointerTokens_pointer]
  · rw [← h]
    exact isPointer_pointer _
  · intro h
    simp only [Violation.toValue, Value.object.injEq, List.cons.injEq, Prod.mk.injEq,
      Value.string.injEq, true_and, and_true] at h
    exact ⟨pointer_injective h.1, pointer_injective h.2⟩
  · rintro ⟨hinstance, hschema⟩
    rw [Violation.toValue, Violation.toValue, Violation.instancePointer, Violation.schemaPointer,
      hinstance, hschema]
    rfl

end SchemaForms
