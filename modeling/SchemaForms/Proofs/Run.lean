import SchemaForms.Document.Load

/-!
# What a run comes to

The result of a run of several steps is that of one step after another, and a document that is
loaded is what the reader for its path makes of the text of its file.
-/

namespace SchemaForms

/-! ## One step after another -/

namespace Run

variable {α β ε : Type}

theorem bind_result (first : Run α) (next : α → Run β) :
    (first >>= next).result = first.result >>= fun a => (next a).result := by
  show (first.andThen next).result = _
  unfold andThen
  cases first.result <;> rfl

theorem bind_result_eq_error_iff {first : Run α} {next : α → Run β} {f : Failure} :
    (first >>= next).result = .error f ↔
      first.result = .error f ∨ ∃ a, first.result = .ok a ∧ (next a).result = .error f := by
  rw [bind_result]
  cases first.result with
  | error f' => simp [bind, Except.bind]
  | ok a => simp [bind, Except.bind]

theorem bind_result_eq_ok_iff {first : Run α} {next : α → Run β} {b : β} :
    (first >>= next).result = .ok b ↔
      ∃ a, first.result = .ok a ∧ (next a).result = .ok b := by
  rw [bind_result]
  cases first.result with
  | error f' => simp [bind, Except.bind]
  | ok a => simp [bind, Except.bind]

theorem ofExcept_result_eq_error_iff {r : Except ε α} {cause : ε → Failure} {f : Failure} :
    (ofExcept r cause).result = .error f ↔ ∃ e, r = .error e ∧ cause e = f := by
  cases r with
  | ok a => exact iff_of_false nofun fun ⟨_, h, _⟩ => nomatch h
  | error e =>
    show Except.error (cause e) = .error f ↔ _
    simp

theorem ofExcept_result_eq_ok_iff {r : Except ε α} {cause : ε → Failure} {a : α} :
    (ofExcept r cause).result = .ok a ↔ r = .ok a := by
  cases r with
  | ok b =>
    show Except.ok b = .ok a ↔ _
    simp
  | error e => exact iff_of_false nofun nofun

end Run

/-! ## Documents -/

section documents
variable {files : Files} {path : Path} {content : Content} {text : String}

theorem loadDocument_result_of_isYaml (hyaml : path.isYaml = true)
    (hfile : files.find? path = some content) (htext : content.decode = .ok text) :
    (loadDocument files path).result =
      (Yaml.readWith files.halves text).mapError (.yaml text) := by
  unfold loadDocument
  rw [hfile]
  dsimp only
  rw [htext, hyaml]
  rfl

theorem loadDocument_result_of_json (hjson : path.isYaml = false)
    (hfile : files.find? path = some content) (htext : content.decode = .ok text) :
    (loadDocument files path).result = (Json.readWith files.halves text).mapError .json := by
  unfold loadDocument
  rw [hfile]
  dsimp only
  rw [htext, hjson]
  rfl

end documents

end SchemaForms
