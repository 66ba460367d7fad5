import SchemaForms.Proofs.Yaml.Keeping
import SchemaForms.Yaml.Tokens

/-!
# Why a text is not taken apart

Taking a text apart into tokens can fail for three reasons only (`Error.IsOfText`): the text is
malformed, an escape asks for what is no character, or a number in a directive has too many digits.
So it is for each function that reads a piece of a text, in the order of the modules that define
them, and then for the whole text (`isOfText_of_tokens`).
-/

namespace SchemaForms.Yaml

open SchemaForms.Text (Halves)

/-- An error that is told before there are nodes. -/
inductive Error.IsOfText : Error → Prop
  | malformed : IsOfText .malformed
  | noSuchCharacter {number : Nat} (h : 0x10FFFF < number) : IsOfText (.noSuchCharacter number)
  | integerTooLong {digits : Nat} (h : Number.digitLimit < digits) :
      IsOfText (.integerTooLong digits)

variable {α β : Type}

/-- A piece of a text can be read, or tells an error of the text. -/
abbrev Told (x : Except Error α) : Prop := Ends Error.IsOfText (fun _ => True) x

namespace Told

theorem ok {a : α} : Told (.ok a) := trivial

theorem malformed : Told (.error .malformed : Except Error α) := Error.IsOfText.malformed

theorem bind {x : Except Error α} (h : Told x) {f : α → Except Error β} (hf : ∀ a, Told (f a)) :
    Told (x >>= f) :=
  Ends.bind h fun a _ => hf a

theorem ite {p : Prop} [Decidable p] {x y : Except Error α} (hx : Told x) (hy : Told y) :
    Told (if p then x else y) := by
  split
  · exact hx
  · exact hy

end Told

/-! ## Names, tags and directives -/

theorem told_nonEmptyRun (c : Cursor) (p : Char → Bool) : Told (nonEmptyRun c p) :=
  .ite .malformed .ok

theorem told_demand (condition : Bool) (c : Cursor) : Told (demand condition c) :=
  .ite .ok .malformed

theorem told_readName (c : Cursor) : Told (readName c) :=
  (told_nonEmptyRun _ _).bind fun _ => (told_demand _ _).bind fun _ => .ok

theorem told_readOctets (fuel : Nat) (c : Cursor) : Told (readOctets fuel c) := by
  induction fuel generalizing c with
  | zero => exact .ok
  | succ fuel ih =>
    unfold readOctets
    split
    · split
      · exact .malformed
      · exact (ih _).bind fun _ => .ok
    · exact .malformed
    · exact .ok

theorem told_readTagChars (fuel : Nat) (c : Cursor) : Told (readTagChars fuel c) := by
  induction fuel generalizing c with
  | zero => exact .ok
  | succ fuel ih =>
    unfold readTagChars
    split
    · exact .ok
    · refine .ite ?_ (.ite ?_ .ok)
      · refine (told_readOctets _ _).bind fun (octets, _) => Told.bind ?_ fun _ => ?_
        · cases Text.utf8Decode octets with
          | ok text => exact .ok
          | error e => exact .malformed
        · exact (ih _).bind fun _ => .ok
      · exact (ih _).bind fun _ => .ok

theorem told_readTagText (c : Cursor) : Told (readTagText c) :=
  (told_demand _ _).bind fun _ => (told_readTagChars _ _).bind fun _ => .ok

theorem told_readHandle (c : Cursor) : Told (readHandle c) :=
  (told_demand _ _).bind fun _ => .ite .ok ((told_demand _ _).bind fun _ => .ok)

theorem told_readTag (c : Cursor) : Told (readTag c) := by
  have hend (kind : TokenKind) (c : Cursor) :
      Told (do let c ← demand (isSpaceGap c.peek) c; .ok (kind, c)) :=
    (told_demand _ _).bind fun _ => .ok
  refine .ite ?_ (.ite (hend _ _) (.ite ?_ ?_))
  · exact (told_readTagText _).bind fun _ => (told_demand _ _).bind fun _ => hend _ _
  · exact (told_readHandle _).bind fun _ => (told_readTagText _).bind fun _ => hend _ _
  · exact (told_readTagText _).bind fun _ => hend _ _

theorem told_readDigits (c : Cursor) : Told (readDigits c) := by
  refine (told_nonEmptyRun _ _).bind fun (digits, _) => ?_
  dsimp only
  split
  · next hlong => exact .integerTooLong hlong
  · exact .ok

theorem told_readVersion (c : Cursor) : Told (readVersion c) := by
  refine (told_readDigits _).bind fun _ => (told_demand _ _).bind fun _ => ?_
  exact (told_readDigits _).bind fun _ => (told_demand _ _).bind fun _ => .ok

theorem told_readTagDirective (c : Cursor) : Told (readTagDirective c) := by
  refine (told_readHandle _).bind fun _ => (told_demand _ _).bind fun _ => ?_
  exact (told_readTagText _).bind fun _ => (told_demand _ _).bind fun _ => .ok

theorem told_readDirective (c : Cursor) : Told (readDirective c) := by
  have hend (directive : Directive) (c : Cursor) :
      Told (do
        let c ← demand (isLineEnd c.skipComment.peek) c.skipComment
        .ok (TokenKind.directive directive, c.skipBreak)) :=
    (told_demand _ _).bind fun _ => .ok
  refine (told_nonEmptyRun _ _).bind fun _ => (told_demand _ _).bind fun _ => ?_
  refine .ite ?_ (.ite ?_ (hend _ _))
  · exact (told_readVersion _).bind fun _ => hend _ _
  · exact (told_readTagDirective _).bind fun _ => hend _ _

/-! ## Scalars -/

theorem told_quotedBreaks (fuel : Nat) (c : Cursor) : Told (quotedBreaks fuel c) := by
  induction fuel generalizing c with
  | zero => exact .malformed
  | succ fuel ih =>
    unfold quotedBreaks
    refine .ite .malformed ?_
    dsimp only
    split
    · exact .ok
    · exact (ih _).bind fun _ => .ok

theorem told_quotedGap (c : Cursor) : Told (quotedGap c) := by
  unfold quotedGap
  dsimp only
  split
  · exact .malformed
  · exact .ok
  · exact (told_quotedBreaks _ _).bind fun _ => .ok

variable (halves : Halves)

theorem told_escapedNumber (n : Nat) : Told (escapedNumber halves n) := by
  unfold escapedNumber
  split
  · next hlarge => exact .noSuchCharacter hlarge
  · exact .ok

theorem told_readEscape (c : Cursor) : Told (readEscape halves c) := by
  unfold readEscape
  split
  · exact .malformed
  · split
    · exact .ok
    · dsimp only
      refine .ite .malformed ?_
      split
      · exact .malformed
      · exact (told_escapedNumber _ _).bind fun _ => .ok
    · exact .ite (told_quotedBreaks _ _) .malformed

theorem told_quotedWord (double : Bool) (fuel : Nat) (c : Cursor) :
    Told (quotedWord halves double fuel c) := by
  induction fuel generalizing c with
  | zero => exact .ok
  | succ fuel ih =>
    unfold quotedWord
    split
    · exact .ok
    · refine .ite .ok (.ite (.ite ?_ .ok) (.ite ?_ ?_))
      · exact (ih _).bind fun _ => .ok
      · exact (told_readEscape _ _).bind fun _ => (ih _).bind fun _ => .ok
      · exact (ih _).bind fun _ => .ok

theorem told_quotedWords (double : Bool) (fuel : Nat) (c : Cursor) :
    Told (quotedWords halves double fuel c) := by
  induction fuel generalizing c with
  | zero => exact .malformed
  | succ fuel ih =>
    refine (told_quotedWord _ _ _ _).bind fun _ => .ite .ok ?_
    exact (told_quotedGap _).bind fun _ => (ih _).bind fun _ => .ok

theorem told_readQuoted (double : Bool) (c : Cursor) : Told (readQuoted halves double c) :=
  told_quotedWords _ _ _ _

theorem told_increment? (c : Option Char) : Told (increment? c) := by
  unfold increment?
  split
  · exact .ite .ok (.ite .malformed .ok)
  · exact .ok

theorem told_readBlockHeader (c : Cursor) : Told (readBlockHeader c) := by
  have hend (header : BlockHeader) (c : Cursor) :
      Told (if !isSpaceGap c.peek then .error .malformed
        else if isLineEnd c.skipComment.peek then .ok (header, c.skipComment.skipBreak)
        else .error .malformed) :=
    .ite .malformed (.ite .ok .malformed)
  unfold readBlockHeader
  dsimp only
  split
  · exact (told_increment? _).bind fun _ => hend _ _
  · refine (told_increment? _).bind fun _ => ?_
    split
    · exact hend _ _
    · exact hend _ _

theorem told_readBlock (folded : Bool) (indent : Int) (c : Cursor) :
    Told (readBlock folded indent c) :=
  (told_readBlockHeader _).bind fun _ => .ok

/-! ## Tokens -/

namespace Scan

variable (s : Scan)

theorem told_dropStaleKeys : Told s.dropStaleKeys := .ite .malformed .ok

theorem told_dropKey : Told s.dropKey := by
  unfold dropKey
  split
  · exact .ok
  · exact .ite .malformed .ok

theorem told_saveKey : Told s.saveKey := .ite .ok ((told_dropKey _).bind fun _ => .ok)

theorem told_demandKeyAllowed : Told s.demandKeyAllowed := .ite .malformed .ok

theorem told_fetchEnd : Told s.fetchEnd := (told_dropKey _).bind fun _ => .ok

theorem told_fetchDirective : Told s.fetchDirective :=
  (told_dropKey _).bind fun _ => (told_readDirective _).bind fun _ => .ok

theorem told_fetchSeparator (kind : TokenKind) : Told (s.fetchSeparator kind) :=
  (told_dropKey _).bind fun _ => .ok

theorem told_fetchOpening (kind : TokenKind) : Told (s.fetchOpening kind) :=
  (told_saveKey _).bind fun _ => .ok

theorem told_fetchClosing (kind : TokenKind) : Told (s.fetchClosing kind) :=
  (told_dropKey _).bind fun _ => .ok

theorem told_fetchFlowEntry : Told s.fetchFlowEntry := (told_dropKey _).bind fun _ => .ok

theorem told_fetchBlockEntry : Told s.fetchBlockEntry :=
  (told_demandKeyAllowed _).bind fun _ => (told_dropKey _).bind fun _ => .ok

theorem told_fetchKey : Told s.fetchKey :=
  (told_demandKeyAllowed _).bind fun _ => (told_dropKey _).bind fun _ => .ok

theorem told_fetchValue : Told s.fetchValue := by
  unfold fetchValue
  split
  · exact .ok
  · exact (told_demandKeyAllowed _).bind fun _ => (told_dropKey _).bind fun _ => .ok

theorem told_fetchProperty {read : Cursor → Except Error (TokenKind × Cursor)}
    (hread : ∀ c, Told (read c)) : Told (s.fetchProperty read) :=
  (told_saveKey _).bind fun _ => (hread _).bind fun _ => .ok

theorem told_fetchQuoted (double : Bool) : Told (s.fetchQuoted halves double) :=
  told_fetchProperty _ fun _ => (told_readQuoted _ _ _).bind fun _ => .ok

theorem told_fetchBlockScalar (folded : Bool) : Told (s.fetchBlockScalar folded) :=
  (told_dropKey _).bind fun _ => (told_readBlock _ _ _).bind fun _ => .ok

theorem told_fetchPlain : Told s.fetchPlain := (told_saveKey _).bind fun _ => .ok

theorem told_fetch : Told (s.fetch halves) := by
  refine (told_dropStaleKeys _).bind fun s => ?_
  dsimp only
  split
  · exact told_fetchEnd _
  · refine .ite (told_fetchDirective _) (.ite (told_fetchSeparator _ _)
      (.ite (told_fetchSeparator _ _) ?_))
    refine .ite (told_fetchOpening _ _) (.ite (told_fetchOpening _ _) ?_)
    refine .ite (told_fetchClosing _ _) (.ite (told_fetchClosing _ _) ?_)
    refine .ite (told_fetchFlowEntry _) (.ite (told_fetchBlockEntry _) ?_)
    refine .ite (told_fetchKey _) (.ite (told_fetchValue _) (.ite ?_ (.ite ?_ ?_)))
    · exact told_fetchProperty _ fun _ => (told_readName _).bind fun _ => .ok
    · exact told_fetchProperty _ fun _ => (told_readName _).bind fun _ => .ok
    · refine .ite (told_fetchProperty _ told_readTag) (.ite (told_fetchBlockScalar _ _) ?_)
      refine .ite (told_fetchBlockScalar _ _) (.ite (told_fetchQuoted _ _ _) ?_)
      exact .ite (told_fetchQuoted _ _ _) (.ite (told_fetchPlain _) .malformed)

theorem isOfText_of_fetchAll (fuel : Nat) {fault : Error}
    (h : (fetchAll halves fuel s).fault = some fault) : fault.IsOfText := by
  induction fuel generalizing s with
  | zero => cases h
  | succ fuel ih =>
    unfold fetchAll at h
    split at h
    · next e hfetch =>
      cases h
      have htold := told_fetch halves s
      rw [hfetch] at htold
      exact htold
    · split at h
      · cases h
      · exact ih _ h

end Scan

theorem isOfText_of_tokens (text : List Char) {fault : Error}
    (h : (tokens halves text).fault = some fault) : fault.IsOfText := by
  unfold tokens at h
  split at h
  · exact Scan.isOfText_of_fetchAll _ _ _ h
  · cases h
    exact .malformed

end SchemaForms.Yaml
