import SchemaForms.Proofs.Validation.Visits

/-!
# Depth

The depth of a frame counts the references that are open. It never goes down along a walk, and it
never passes the limit of the configuration (`depth_le_maxDepth`). As long as the depth is bounded,
the references that may still be opened and the height of the schema go down together with every
step (`Enters.measure_lt`).
-/

namespace SchemaForms.Frame

variable {config : Config} {root : Schema} {f g : Frame}

/-! ## Depth -/

theorem Enters.depth_le (h : f.Enters config root g) : f.location.depth ≤ g.location.depth := by
  rcases h.child_or_follow with ⟨hdepth, _⟩ | ⟨name, target, _, _, _, rfl⟩
  · exact hdepth.ge
  · exact Nat.le_succ _

theorem Regular.depth_le (hcheck : root.check = .ok ()) (hf : Regular root f)
    (h : Visits config root f g) : f.location.depth ≤ g.location.depth := by
  induction h with
  | refl => exact Nat.le_refl _
  | tail hvisits hgoes ih =>
    exact ih.trans ((hf.of_visits hcheck hvisits).enters_of_goes hcheck hgoes).depth_le

/-- A limit on depth that is not passed at first is never passed. -/
theorem Regular.depth_le_maxDepth (hcheck : root.check = .ok ()) (hf : Regular root f)
    (hdepth : f.location.depth ≤ config.maxDepth) (h : Visits config root f g) :
    g.location.depth ≤ config.maxDepth := by
  induction h with
  | refl => exact hdepth
  | tail hvisits hgoes ih =>
    have henters := (hf.of_visits hcheck hvisits).enters_of_goes hcheck hgoes
    rcases henters.child_or_follow with ⟨hsame, _⟩ | ⟨name, target, _, _, hbelow, rfl⟩
    · omega
    · show _ + 1 ≤ _
      omega

/-! ## What a step brings down -/

/-- The references that may still be opened and the height of the schema, which a step brings down:
a reference may lead to any of the definitions, and these have height `top` at most. -/
def measure (limit top : Nat) (f : Frame) : Nat :=
  (limit - f.location.depth) * (top + 1) + f.schema.height

theorem Enters.measure_lt {limit top : Nat} (h : f.Enters config root g)
    (hdepth : g.location.depth ≤ limit)
    (htop : ∀ name s, (name, s) ∈ entries root.definitions → s.height ≤ top) :
    g.measure limit top < f.measure limit top := by
  rw [measure, measure]
  rcases h.child_or_follow with ⟨hsame, hchild⟩ | ⟨name, target, _, htarget, _, rfl⟩
  · have := hchild.height_lt
    rw [hsame]
    omega
  · have hheight : target.height ≤ top := htop name target (mem_of_lookup htarget)
    have hbelow : f.location.depth + 1 ≤ limit := hdepth
    obtain ⟨left, rfl⟩ := Nat.exists_eq_add_of_le hbelow
    have hnow : f.location.depth + 1 + left - f.location.depth = left + 1 := by omega
    have hnext : f.location.depth + 1 + left - (f.location.depth + 1) = left := by omega
    show (_ - (f.location.depth + 1)) * _ + target.height < _
    rw [hnow, hnext, Nat.succ_mul]
    omega

end SchemaForms.Frame
