import SchemaForms.Proofs.Json.RoundTrip
import SchemaForms.Proofs.Run
import SchemaForms.Proofs.Text.Utf8

/-!
# Canonical documents

A value that is stored in a file by its canonical text is loaded from there with its members in
order (`loadDocument_canonical`). The file holds octets, and line ends are unified when it is read;
as strings are written without a carriage return, that changes nothing.
-/

namespace SchemaForms

/-! ## Texts without a carriage return -/

namespace Text

variable {cs : List Char}

/-- No carriage return is among the characters. -/
def NoReturn (cs : List Char) : Prop := '\r' ∉ cs

instance (cs : List Char) : Decidable (NoReturn cs) := inferInstanceAs (Decidable ('\r' ∉ cs))

@[simp] theorem noReturn_nil : NoReturn [] := List.not_mem_nil

@[simp] theorem noReturn_cons {c : Char} : NoReturn (c :: cs) ↔ c ≠ '\r' ∧ NoReturn cs := by
  rw [NoReturn, List.mem_cons, not_or, ne_comm]
  rfl

@[simp] theorem noReturn_append {ds : List Char} :
    NoReturn (cs ++ ds) ↔ NoReturn cs ∧ NoReturn ds := by
  rw [NoReturn, List.mem_append, not_or]
  rfl

/-- A text without a carriage return has its line ends unified. -/
theorem unifyLines_of_noReturn (h : NoReturn cs) : unifyLines cs = cs := by
  induction cs with
  | nil => rfl
  | cons c cs ih =>
    obtain ⟨hc, hcs⟩ := noReturn_cons.mp h
    rw [unifyLines, ih hcs]
    · rintro _ rfl
      exact absurd rfl hc
    · exact hc

end Text

namespace Json

open SchemaForms.Number (DecimalText AllDigits)
open SchemaForms.Text (NoReturn noReturn_nil noReturn_cons noReturn_append)

variable {cs : List Char}

/-! ## What the writer writes -/

theorem noReturn_writeChar (c : Char) : NoReturn (writeChar c) := by
  obtain ⟨letter, hletter, htext⟩ | ⟨hcontrol, htext⟩ | ⟨hraw, -, -, htext⟩ := writeChar_cases c
  · have hne : letter ≠ '\r' := by
      rintro rfl
      cases hletter
    rw [htext]
    simp [hne]
  · have hdigits : ∀ n < 0x20, NoReturn (Text.hexPadded 4 n) := by decide
    rw [htext]
    simp [hdigits _ hcontrol]
  · have hne : c ≠ '\r' := by
      rintro rfl
      exact absurd hraw (by decide)
    rw [htext]
    simp [hne]

theorem noReturn_writeString (s : String) : NoReturn (writeString s) := by
  have hchars : NoReturn (s.toList.flatMap writeChar) := by
    intro hmem
    obtain ⟨c, -, hc⟩ := List.mem_flatMap.mp hmem
    exact noReturn_writeChar c hc
  simp [writeString, hchars]

theorem noReturn_of_allDigits (h : AllDigits cs) : NoReturn cs := by
  intro hmem
  have hdigit := h _ hmem
  revert hdigit
  decide

theorem noReturn_decimalText {t : DecimalText} (ht : t.WellFormed) : NoReturn t.chars := by
  have hwhole := noReturn_of_allDigits ht.whole.allDigits
  have hplaces : NoReturn (Number.fractionPart t.places) := by
    have hdigits := noReturn_of_allDigits ht.places
    cases hp : t.places with
    | nil => exact noReturn_nil
    | cons d places =>
      rw [hp] at hdigits
      exact noReturn_cons.mpr ⟨by decide, hdigits⟩
  have hexponent : NoReturn (Number.exponentText t.exponent) := by
    cases t.exponent with
    | none => exact noReturn_nil
    | some exponent =>
      obtain ⟨digits, htext, hall, -⟩ := exists_exponentPart exponent
      rw [Number.exponentText, htext]
      have hdigits := noReturn_of_allDigits hall
      split_ifs <;> simp [hdigits]
  rw [DecimalText.chars]
  simp [hwhole, hplaces, hexponent]

theorem noReturn_signText (negative : Bool) : NoReturn (signText negative) := by
  cases negative <;> simp [signText]

theorem noReturn_writeNumber (n : Number) : NoReturn (writeNumber n) := by
  cases n with
  | int n =>
    have hdigits := noReturn_of_allDigits (Number.allDigits_toDigits n.natAbs)
    rw [writeNumber_int]
    exact noReturn_append.mpr ⟨noReturn_signText _, hdigits⟩
  | double x =>
    cases x with
    | nan => decide
    | infinite negative => cases negative <;> decide
    | finite negative rank =>
      obtain ⟨t, htext, hwell, -⟩ := exists_writeNumber_finite negative rank
      rw [htext]
      exact noReturn_append.mpr ⟨noReturn_signText _, noReturn_decimalText hwell⟩

theorem noReturn_lineStart (style : Style) (level : Nat) : NoReturn (style.lineStart level) := by
  rw [Style.lineStart]
  cases style.indent with
  | none => exact noReturn_nil
  | some width =>
    refine noReturn_cons.mpr ⟨by decide, fun hmem => ?_⟩
    exact absurd (List.eq_of_mem_replicate hmem) (by decide)

mutual
/-- A string hides its carriage returns in escapes, and nothing else is written with one. -/
theorem noReturn_writeValue {style : Style} (h : NoReturn style.comma ∧ NoReturn style.colon)
    (level : Nat) : ∀ v, NoReturn (writeValue style level v)
  | .null => by rw [writeValue]; decide
  | .bool true => by rw [writeValue]; decide
  | .bool false => by rw [writeValue]; decide
  | .number n => by rw [writeValue]; exact noReturn_writeNumber n
  | .string s => by rw [writeValue]; exact noReturn_writeString s
  | .array [] => by rw [writeValue]; decide
  | .array (x :: more) => by
    have hitems := noReturn_writeItems h (level + 1) (x :: more)
    rw [writeValue]
    simp [noReturn_lineStart, hitems]
  | .object [] => by rw [writeValue]; decide
  | .object (entry :: more) => by
    have hmembers := noReturn_writeMembers h (level + 1) (entry :: more)
    rw [writeValue]
    simp [noReturn_lineStart, hmembers]
  | .foreign leaf => by rw [writeValue]; exact noReturn_writeString leaf.display

theorem noReturn_writeItems {style : Style} (h : NoReturn style.comma ∧ NoReturn style.colon)
    (level : Nat) : ∀ items, NoReturn (writeItems style level items)
  | [] => by rw [writeItems]; exact noReturn_nil
  | [x] => by rw [writeItems]; exact noReturn_writeValue h level x
  | x :: y :: more => by
    have hx := noReturn_writeValue h level x
    have hmore := noReturn_writeItems h level (y :: more)
    rw [writeItems]
    simp [hx, h.1, noReturn_lineStart, hmore]

theorem noReturn_writeMembers {style : Style} (h : NoReturn style.comma ∧ NoReturn style.colon)
    (level : Nat) : ∀ members, NoReturn (writeMembers style level members)
  | [] => by rw [writeMembers]; exact noReturn_nil
  | [(key, x)] => by
    have hx := noReturn_writeValue h level x
    rw [writeMembers]
    simp [noReturn_writeString, h.2, hx]
  | (key, x) :: entry :: more => by
    have hx := noReturn_writeValue h level x
    have hmore := noReturn_writeMembers h level (entry :: more)
    rw [writeMembers]
    simp [noReturn_writeString, h.2, hx, h.1, noReturn_lineStart, hmore]
end

theorem noReturn_canonical (indent : Option Nat) (v : Value) :
    NoReturn (canonical indent v).toList := by
  have htext : (canonical indent v).toList =
      writeValue (.spaced indent) 0 v.sorted ++ ['\n'] := by
    rw [canonical, write, String.toList_append, String.toList_ofList]
    rfl
  have hstyle : NoReturn (Style.spaced indent).comma ∧ NoReturn (Style.spaced indent).colon := by
    cases indent <;> simp [Style.spaced]
  rw [htext]
  simp [noReturn_writeValue hstyle]

end Json

/-! ## Files -/

theorem decode_utf8Octets {text : String} (h : Text.NoReturn text.toList) :
    (Content.octets (Text.utf8Octets text)).decode = .ok text := by
  rw [Content.decode, Text.utf8Decode_octets]
  dsimp only [bind, Except.bind]
  rw [Text.unifyLines_of_noReturn h, String.ofList_toList]

/-- **The canonical text of a value is loaded as the value with its members in order**, from a file
in UTF-8 that holds it: the same value but for the order of members, which are in the order of their
keys at every depth. Values that differ in that order alone have one canonical text. -/
theorem loadDocument_canonical {files : Files} {path : Path} {indent : Option Nat} {v : Value}
    (hv : v.Expressible) (hpath : path.isYaml = false)
    (hfile : files.find? path =
      some (.octets (Text.utf8Octets (Json.canonical indent v)))) :
    (loadDocument files path).result = .ok v.sorted ∧ v.Reordered v.sorted ∧ v.sorted.Ordered ∧
      ∀ w, v.Reordered w → Json.canonical indent w = Json.canonical indent v := by
  refine ⟨?_, Value.reordered_sorted hv.proper, Value.ordered_sorted hv.proper, fun w hw => ?_⟩
  · have hdecode := decode_utf8Octets (Json.noReturn_canonical indent v)
    rw [loadDocument_result_of_json hpath hfile hdecode,
      Json.readWith_canonical files.halves indent hv]
    rfl
  · rw [Json.canonical, Json.canonical, hw.sorted_eq hv.proper]

/-- Members out of order, an integer beside a double, and a line end inside a string. -/
theorem loadDocument_canonical_members :
    let v : Value :=
      .object [("b", .array [.int 7, .number (.double .nan)]), ("a", .string "\r\n")]
    let files := Files.ofTree
      [("v.json", .octets (Text.utf8Octets (Json.canonical (some 2) v)))]
    (loadDocument files (Path.ofString "v.json")).result =
      .ok (.object [("a", .string "\r\n"), ("b", .array [.int 7, .number (.double .nan)])]) := by
  intro v files
  have hv : v.Expressible := ⟨⟨rfl, by decide⟩, by decide⟩
  have hpath : (Path.ofString "v.json").isYaml = false := by decide
  have hfile : files.find? (Path.ofString "v.json") =
      some (.octets (Text.utf8Octets (Json.canonical (some 2) v))) := rfl
  have hsorted : v.sorted =
      .object [("a", .string "\r\n"), ("b", .array [.int 7, .number (.double .nan)])] := by
    have hitems : (Value.array [.int 7, .number (.double .nan)]).sorted =
        .array [.int 7, .number (.double .nan)] := Value.sorted_array _
    have htext : (Value.string "\r\n").sorted = .string "\r\n" := rfl
    rw [Value.sorted_object, List.map_cons, List.map_cons, List.map_nil, Value.sortEntry,
      Value.sortEntry, hitems, htext]
    simp [List.mergeSort, keyBefore]
  rw [(loadDocument_canonical hv hpath hfile).1, hsorted]

end SchemaForms
