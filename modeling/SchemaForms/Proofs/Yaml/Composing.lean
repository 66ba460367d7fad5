import SchemaForms.Proofs.Yaml.Tokens
import SchemaForms.Yaml.Graph.Reading

/-!
# Why a text is not composed of nodes

What reads nodes from tokens comes to a fault behind the tokens, which is an error of the text
(`Progress.HasTextFault`), or finds the text malformed; so does each step of it (`Composes`).
Content is read by functions that call one another, each with less fuel: one lemma for each of them,
from what all of them do with one step less (`ReadsContent`), then `readsContent` by induction. So a
text is composed of nodes or tells an error of the text (`told_ofTokens`).
-/

namespace SchemaForms.Yaml

open SchemaForms.Text (Halves)

variable {α β : Type}

namespace Graph

/-- The fault behind the tokens that are left, if there is one, is an error of the text. -/
def Progress.HasTextFault (p : Progress) : Prop := ∀ e, p.fault = some e → e.IsOfText

/-- A step that reads tokens goes on, or tells an error of the text. -/
def Composes (m : Build α) : Prop :=
  ∀ p : Progress, p.HasTextFault → Ends Error.IsOfText (fun r => r.2.HasTextFault) (m.run p)

namespace Composes

theorem pure {a : α} : Composes (Pure.pure a) := fun _ hp => hp

theorem malformed : Composes (malformed : Build α) := fun _ _ => Error.IsOfText.malformed

theorem bind {m : Build α} (h : Composes m) {f : α → Build β} (hf : ∀ a, Composes (f a)) :
    Composes (m >>= f) := fun p hp => by
  rw [StateT.run_bind]
  exact (h p hp).bind fun r hr => hf r.1 r.2 hr

theorem map {m : Build α} (h : Composes m) {f : α → β} : Composes (f <$> m) := by
  rw [map_eq_pure_bind]
  exact h.bind fun _ => pure

theorem get_bind {f : Progress → Build β} (hf : ∀ p : Progress, p.HasTextFault → Composes (f p)) :
    Composes (MonadState.get >>= f) :=
  fun p hp => hf p hp p hp

theorem modify {f : Progress → Progress}
    (hf : ∀ p, (f p).fault = p.fault := by exact fun _ => rfl) : Composes (modify f : Build Unit) :=
  fun p hp e he => hp e (hf p ▸ he)

theorem ite {p : Prop} [Decidable p] {m m' : Build α} (h : Composes m) (h' : Composes m') :
    Composes (if p then m else m') := by
  split
  · exact h
  · exact h'

end Composes

/-! ## Tokens and nodes -/

theorem composes_peek : Composes peek := by
  refine .get_bind fun p hp => ?_
  split
  · exact .pure
  · cases hfault : p.fault with
    | none => exact .malformed
    | some e => exact fun _ _ => hp e hfault

theorem composes_take : Composes take :=
  composes_peek.bind fun _ => .bind .modify fun _ => .pure

theorem composes_next (kinds : List TokenKind) : Composes (next kinds) :=
  composes_peek.bind fun _ => .pure

theorem composes_add (node : Node) : Composes (add node) :=
  .get_bind fun _ _ => .bind .modify fun _ => .pure

theorem composes_addNamed (anchor : Option String) (node : Node) :
    Composes (addNamed anchor node) := by
  unfold addNamed
  split
  · exact composes_add node
  · refine .get_bind fun _ _ => .ite (Composes.malformed.bind fun _ => ?_) ?_
    all_goals
      exact (composes_add _).bind fun _ => .bind .modify fun _ => .pure

theorem composes_resolve (name : String) : Composes (resolve name) := by
  refine .get_bind fun _ _ => ?_
  split
  · exact .malformed
  · exact .pure

theorem composes_fullTag (handles : Handles) (handle : Option String) (suffix : String) :
    Composes (fullTag handles handle suffix) := by
  unfold fullTag
  split
  · exact .pure
  · split
    · exact .pure
    · exact .malformed

theorem composes_takeAnchor : Composes takeAnchor := by
  refine composes_peek.bind fun _ => ?_
  split
  · exact composes_take.bind fun _ => .pure
  · exact .pure

theorem composes_takeTag : Composes takeTag := by
  refine composes_peek.bind fun _ => ?_
  split
  · exact composes_take.bind fun _ => .pure
  · exact .pure

theorem composes_takeProperties (handles : Handles) : Composes (takeProperties handles) := by
  refine composes_takeAnchor.bind fun _ => ?_
  split
  all_goals
    refine composes_takeTag.bind fun _ => ?_
    split
  · exact .pure
  · exact (composes_fullTag _ _ _).bind fun _ => .pure
  · exact .pure
  · exact composes_takeAnchor.bind fun _ => (composes_fullTag _ _ _).bind fun _ => .pure

theorem composes_addCollection (p : Properties) (default : String) (place : Mark)
    (empty : Content) {parts : Build Content} (h : Composes parts) :
    Composes (addCollection p default place empty parts) :=
  (composes_addNamed _ _).bind fun _ => h.bind fun _ =>
    .bind .modify fun _ => .pure

theorem composes_addSequence (p : Properties) (place : Mark) {items : Build (List Nat)}
    (h : Composes items) : Composes (addSequence p place items) :=
  composes_addCollection _ _ _ _ h.map

theorem composes_addMapping (p : Properties) (place : Mark) {pairs : Build (List (Nat × Nat))}
    (h : Composes pairs) : Composes (addMapping p place pairs) :=
  composes_addCollection _ _ _ _ h.map

/-! ## Content -/

/-- Every function that reads content goes on with this fuel, or tells an error of the text. -/
structure ReadsContent (handles : Handles) (fuel : Nat) : Prop where
  read : ∀ block indentless, Composes (read handles block indentless fuel)
  readUnless : ∀ ends place block indentless,
    Composes (readUnless ends place handles block indentless fuel)
  readValue : ∀ ends block indentless, Composes (readValue ends handles block indentless fuel)
  readBlockItems : Composes (readBlockItems handles fuel)
  readIndentlessItems : Composes (readIndentlessItems handles fuel)
  readBlockPairs : Composes (readBlockPairs handles fuel)
  readFlowItems : ∀ first, Composes (readFlowItems handles first fuel)
  readFlowPairs : ∀ first, Composes (readFlowPairs handles first fuel)

variable {handles : Handles} {fuel : Nat}

namespace ReadsContent

theorem zero (handles : Handles) : ReadsContent handles 0 where
  read _ _ := .malformed
  readUnless _ _ _ _ := .malformed
  readValue _ _ _ := .malformed
  readBlockItems := .malformed
  readIndentlessItems := .malformed
  readBlockPairs := .malformed
  readFlowItems _ := .malformed
  readFlowPairs _ := .malformed

theorem step_read (h : ReadsContent handles fuel) (block indentless : Bool) :
    Composes (Graph.read handles block indentless (fuel + 1)) := by
  unfold Graph.read
  refine composes_peek.bind fun _ => ?_
  dsimp only
  split
  · exact composes_take.bind fun _ => composes_resolve _
  · refine (composes_takeProperties _).bind fun _ => composes_peek.bind fun _ => ?_
    split
    · exact composes_take.bind fun _ => composes_addNamed _ _
    · exact composes_addSequence _ _ (composes_take.bind fun _ => h.readFlowItems _)
    · exact composes_addMapping _ _ (composes_take.bind fun _ => h.readFlowPairs _)
    · refine .ite (composes_addSequence _ _ h.readIndentlessItems) (.ite ?_ (.ite ?_ ?_))
      · exact composes_addSequence _ _ (composes_take.bind fun _ => h.readBlockItems)
      · exact composes_addMapping _ _ (composes_take.bind fun _ => h.readBlockPairs)
      · exact .ite (composes_addNamed _ _) .malformed

theorem step_readUnless (h : ReadsContent handles fuel) (ends : List TokenKind) (place : Mark)
    (block indentless : Bool) :
    Composes (Graph.readUnless ends place handles block indentless (fuel + 1)) :=
  (composes_next _).bind fun _ => .ite (composes_add _) (h.read _ _)

theorem step_readValue (h : ReadsContent handles fuel) (ends : List TokenKind)
    (block indentless : Bool) :
    Composes (Graph.readValue ends handles block indentless (fuel + 1)) :=
  composes_peek.bind fun _ =>
    .ite (composes_take.bind fun _ => h.readUnless _ _ _ _) (composes_add _)

theorem step_readBlockItems (h : ReadsContent handles fuel) :
    Composes (Graph.readBlockItems handles (fuel + 1)) := by
  refine composes_take.bind fun _ => ?_
  split
  · exact (h.readUnless _ _ _ _).bind fun _ => h.readBlockItems.bind fun _ => .pure
  · exact .pure
  · exact .malformed

theorem step_readIndentlessItems (h : ReadsContent handles fuel) :
    Composes (Graph.readIndentlessItems handles (fuel + 1)) := by
  refine composes_peek.bind fun _ => .ite (composes_take.bind fun _ => ?_) .pure
  exact (h.readUnless _ _ _ _).bind fun _ => h.readIndentlessItems.bind fun _ => .pure

theorem step_readBlockPairs (h : ReadsContent handles fuel) :
    Composes (Graph.readBlockPairs handles (fuel + 1)) := by
  refine composes_take.bind fun _ => ?_
  split
  · refine (h.readUnless _ _ _ _).bind fun _ => (h.readValue _ _ _).bind fun _ => ?_
    exact h.readBlockPairs.bind fun _ => .pure
  · exact .pure
  · exact .malformed

/-- What is read first or behind a comma between brackets, unless they are closed. -/
theorem composes_behindComma {closing : TokenKind} {first : Bool} {m : Build α} (h : Composes m) :
    Composes (do
      let closing ← next [closing]
      unless closing || first do
        let comma ← take
        unless comma.kind = .flowEntry do Graph.malformed
      m) := by
  refine (composes_next _).bind fun _ => .ite h ?_
  exact composes_take.bind fun _ => .ite h (Composes.malformed.bind fun _ => h)

theorem step_readFlowItems (h : ReadsContent handles fuel) (first : Bool) :
    Composes (Graph.readFlowItems handles first (fuel + 1)) := by
  unfold Graph.readFlowItems
  refine composes_behindComma (composes_peek.bind fun _ => ?_)
  refine .ite (composes_take.bind fun _ => .pure) (.ite ?_ ?_)
  · refine (composes_addMapping _ _ (composes_take.bind fun _ => ?_)).bind fun _ => ?_
    · refine (h.readUnless _ _ _ _).bind fun _ => ?_
      exact (h.readValue _ _ _).bind fun _ => .pure
    · exact (h.readFlowItems _).bind fun _ => .pure
  · exact (h.read _ _).bind fun _ => (h.readFlowItems _).bind fun _ => .pure

theorem step_readFlowPairs (h : ReadsContent handles fuel) (first : Bool) :
    Composes (Graph.readFlowPairs handles first (fuel + 1)) := by
  unfold Graph.readFlowPairs
  refine composes_behindComma (composes_peek.bind fun _ => ?_)
  refine .ite (composes_take.bind fun _ => .pure) (.ite (composes_take.bind fun _ => ?_) ?_)
  · refine (h.readUnless _ _ _ _).bind fun _ => (h.readValue _ _ _).bind fun _ => ?_
    exact (h.readFlowPairs _).bind fun _ => .pure
  · refine (h.read _ _).bind fun _ => composes_peek.bind fun _ => ?_
    exact (composes_add _).bind fun _ => (h.readFlowPairs _).bind fun _ => .pure

end ReadsContent

/-- By induction on the fuel: each function calls the others with less. -/
theorem readsContent (handles : Handles) (fuel : Nat) : ReadsContent handles fuel := by
  induction fuel with
  | zero => exact .zero handles
  | succ fuel ih =>
    exact {
      read := ih.step_read
      readUnless := ih.step_readUnless
      readValue := ih.step_readValue
      readBlockItems := ih.step_readBlockItems
      readIndentlessItems := ih.step_readIndentlessItems
      readBlockPairs := ih.step_readBlockPairs
      readFlowItems := ih.step_readFlowItems
      readFlowPairs := ih.step_readFlowPairs }

/-! ## Documents -/

theorem composes_readDirectives (fuel : Nat) (versioned : Bool) (handles : Handles) :
    Composes (readDirectives fuel versioned handles) := by
  induction fuel generalizing versioned handles with
  | zero => exact .malformed
  | succ fuel ih =>
    refine composes_peek.bind fun _ => ?_
    split
    · refine composes_take.bind fun _ => ?_
      split
      · exact .ite .malformed (ih _ _)
      · exact .ite .malformed (ih _ _)
      · exact ih _ _
    · exact .pure

theorem composes_readStart (fuel : Nat) : Composes (readStart fuel) := by
  refine (composes_readDirectives _ _ _).bind fun _ => composes_take.bind fun _ => ?_
  exact .ite .pure (Composes.malformed.bind fun _ => .pure)

theorem composes_skipEnds (fuel : Nat) : Composes (skipEnds fuel) := by
  induction fuel with
  | zero => exact .malformed
  | succ fuel ih =>
    exact (composes_next _).bind fun _ => .ite (composes_take.bind fun _ => ih) .pure

theorem composes_readDocument (fuel : Nat) : Composes (readDocument fuel) := by
  have hmarked : Composes (do
      let handles ← readStart fuel
      let token ← peek
      if endsContent token.kind then addEmpty token.start
      else Graph.read handles true false fuel) :=
    (composes_readStart _).bind fun _ => composes_peek.bind fun _ =>
      .ite (composes_add _) ((readsContent _ _).read _ _)
  refine composes_peek.bind fun _ => ?_
  split
  · exact hmarked
  · exact hmarked
  · exact (readsContent _ _).read _ _

theorem composes_readOnly (fuel : Nat) : Composes (readOnly fuel) := by
  refine (composes_next _).bind fun _ => .ite .pure ?_
  refine (composes_readDocument _).bind fun _ => (composes_skipEnds _).bind fun _ => ?_
  refine (composes_next _).bind fun _ => .ite .pure ?_
  exact (composes_readStart _).bind fun _ => .malformed

/-- **A text is composed of nodes, or tells an error of the text.** -/
theorem told_ofTokens (halves : Halves) (text : List Char) :
    Told (ofTokens (tokens halves text)) := by
  refine (composes_readOnly _ ⟨(tokens halves text).tokens, _, [], #[]⟩ ?_).bind fun _ _ => trivial
  exact fun _ => isOfText_of_tokens halves text

end Graph

end SchemaForms.Yaml
