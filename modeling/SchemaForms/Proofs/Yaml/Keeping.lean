import Mathlib.Order.Basic
import SchemaForms.Yaml.Fault

/-!
# What a step keeps

`Ends E Q` says of a computation that it ends well: in a result with `Q`, or in an error with `E`.

`Keeps I E known Q` says so of a step that reads and changes a state, and that the state it leaves
has `I` again. What is known of a state, on which `I` and `Q` depend, may grow from step to step.
Both pass through the sequence of two steps and through a step for each of many parts.
-/

namespace SchemaForms.Yaml

variable {α β : Type}

/-! ## Computations that can fail -/

/-- A result with `Q`, or an error with `E`. -/
def Ends (E : Error → Prop) (Q : α → Prop) : Except Error α → Prop
  | .ok a => Q a
  | .error e => E e

namespace Ends

variable {E E' : Error → Prop} {Q Q' : α → Prop} {R : β → Prop} {x : Except Error α}

theorem intro (h : ∀ e, x = .error e → E e) : Ends E (fun a => x = .ok a) x := by
  cases x with
  | ok a => rfl
  | error e => exact h e rfl

theorem mono (h : Ends E Q x) (hE : ∀ e, E e → E' e) (hQ : ∀ a, Q a → Q' a) : Ends E' Q' x := by
  cases x with
  | ok a => exact hQ a h
  | error e => exact hE e h

theorem bind (h : Ends E Q x) {f : α → Except Error β} (hf : ∀ a, Q a → Ends E R (f a)) :
    Ends E R (x >>= f) := by
  cases x with
  | ok a => exact hf a h
  | error e => exact h

theorem foldlM {step : β → α → Except Error β} (l : List α)
    (hstep : ∀ b, ∀ a ∈ l, R b → Ends E R (step b a)) (b : β) (hb : R b) :
    Ends E R (l.foldlM step b) := by
  induction l generalizing b with
  | nil => exact hb
  | cons a rest ih =>
    rw [List.foldlM_cons]
    exact bind (hstep b a List.mem_cons_self hb) fun b' hb' =>
      ih (fun c a' ha' => hstep c a' (List.mem_cons_of_mem a ha')) b' hb'

end Ends

/-! ## Steps -/

section

variable {σ κ : Type} [Preorder κ]

/-- From a state that is known to have `I`, the step comes to a result with `Q` and to a state that
has `I` again, of which more may be known, or fails with an error with `E`. -/
def Keeps (I : κ → σ → Prop) (E : Error → Prop) (known : κ) (Q : κ → α → Prop)
    (m : StateT σ (Except Error) α) : Prop :=
  ∀ s, I known s → Ends E (fun (a, s') => ∃ more, known ≤ more ∧ I more s' ∧ Q more a) (m.run s)

namespace Keeps

variable {I : κ → σ → Prop} {E : Error → Prop} {k : κ} {Q Q' : κ → α → Prop} {R : κ → β → Prop}
  {m : StateT σ (Except Error) α}

theorem pure {a : α} (h : Q k a) : Keeps I E k Q (Pure.pure a) := fun _ hs => ⟨k, le_rfl, hs, h⟩

theorem mono (h : Keeps I E k Q m) (hQ : ∀ more, k ≤ more → ∀ a, Q more a → Q' more a) :
    Keeps I E k Q' m := fun s hs =>
  (h s hs).mono (fun _ => id) fun (a, _) ⟨more, hmore, hs', ha⟩ =>
    ⟨more, hmore, hs', hQ more hmore a ha⟩

theorem bind (h : Keeps I E k Q m) {f : α → StateT σ (Except Error) β}
    (hf : ∀ more, k ≤ more → ∀ a, Q more a → Keeps I E more R (f a)) :
    Keeps I E k R (m >>= f) := fun s hs => by
  rw [StateT.run_bind]
  refine (h s hs).bind fun (a, s') ⟨more, hmore, hs', ha⟩ => ?_
  refine (hf more hmore a ha s' hs').mono (fun _ => id) fun _ ⟨most, hmost, hend⟩ => ?_
  exact ⟨most, hmore.trans hmost, hend⟩

theorem map {f : α → β} (h : Keeps I E k (fun more a => R more (f a)) m) :
    Keeps I E k R (f <$> m) := by
  rw [map_eq_pure_bind]
  exact h.bind fun _ _ _ => pure

theorem get : Keeps I E k I MonadState.get := fun _ hs => ⟨k, le_rfl, hs, hs⟩

theorem modify {f : σ → σ} (h : ∀ s, I k s → I k (f s)) :
    Keeps I E k (fun _ _ => True) (modify f : StateT σ (Except Error) PUnit) :=
  fun s hs => ⟨k, le_rfl, h s hs, trivial⟩

theorem throw {e : Error} (h : E e) :
    Keeps I E k Q (MonadExcept.throw e : StateT σ (Except Error) α) := fun _ _ => h

theorem lift {P : α → Prop} {x : Except Error α} (h : Ends E P x) :
    Keeps I E k (fun _ => P) (liftM x : StateT σ (Except Error) α) := fun s hs => by
  cases x with
  | ok a => exact ⟨k, le_rfl, hs, h⟩
  | error e => exact h

theorem foldlM {step : β → α → StateT σ (Except Error) β} (l : List α)
    (hstep : ∀ more, k ≤ more → ∀ b, ∀ a ∈ l, R more b → Keeps I E more R (step b a)) (b : β)
    (hb : R k b) : Keeps I E k R (l.foldlM step b) := by
  induction l generalizing k b with
  | nil => exact pure hb
  | cons a rest ih =>
    rw [List.foldlM_cons]
    refine bind (hstep k le_rfl b a List.mem_cons_self hb) fun more hmore b' hb' => ?_
    refine ih (fun most hmost c a' ha' => ?_) b' hb'
    exact hstep most (hmore.trans hmost) c a' (List.mem_cons_of_mem a ha')

/-- What is known of one result has to be known of it later, when there are others. -/
theorem mapM {f : α → StateT σ (Except Error) β} (l : List α)
    (hR : ∀ k more : κ, k ≤ more → ∀ b, R k b → R more b)
    (hf : ∀ more, k ≤ more → ∀ a ∈ l, Keeps I E more R (f a)) :
    Keeps I E k (fun more bs => ∀ b ∈ bs, R more b) (l.mapM f) := by
  induction l generalizing k with
  | nil => exact pure nofun
  | cons a rest ih =>
    rw [List.mapM_cons]
    refine bind (hf k le_rfl a List.mem_cons_self) fun more hmore b hb => ?_
    refine bind (ih fun most hmost a' ha' => ?_) fun most hmost bs hbs => ?_
    · exact hf most (hmore.trans hmost) a' (List.mem_cons_of_mem a ha')
    · exact pure (List.forall_mem_cons.mpr ⟨hR more most hmost b hb, hbs⟩)

theorem forM {f : α → StateT σ (Except Error) PUnit} (l : List α)
    (hf : ∀ more, k ≤ more → ∀ a ∈ l, Keeps I E more (fun _ _ => True) (f a)) :
    Keeps I E k (fun _ _ => True) (l.forM f) := by
  induction l generalizing k with
  | nil => exact pure trivial
  | cons a rest ih =>
    refine bind (hf k le_rfl a List.mem_cons_self) fun more hmore _ _ => ?_
    exact ih fun most hmost a' ha' =>
      hf most (hmore.trans hmost) a' (List.mem_cons_of_mem a ha')

end Keeps

end

end SchemaForms.Yaml
