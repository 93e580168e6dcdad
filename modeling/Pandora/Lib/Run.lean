import Mathlib.Data.List.Basic

/-!
# Runs of a deterministic machine

A machine is a step function `step : σ → ω → σ` on states and operations. A run is a list of
operations; `Run.exec` is the state it ends in, and `Run.Steps step P s os` says that `P` holds at
every step of the run (of the state before the step and of the operation). Since every prefix of a
run is a run, "in every reached state" is "after every list of operations".

* `Steps.inv`: an invariant kept by every step satisfying `P` holds after every run of such steps.
* `steps_iff`: where `G` keeps the invariant and decides `S` under it, the runs all of whose steps
  satisfy `S` are exactly the runs all of whose steps satisfy `G` (the first step that fails `G`
  is a step that fails `S`).
* `inv_iff`: the same with `S` the invariant of the state after the step.
-/

namespace Run

variable {σ ω : Type*} {step : σ → ω → σ}

/-- The state after the operations `os` from `s`. -/
def exec (step : σ → ω → σ) : σ → List ω → σ
  | s, [] => s
  | s, o :: os => exec step (step s o) os

/-- `P` holds at every step of the run `os` from `s`. -/
def Steps (step : σ → ω → σ) (P : σ → ω → Prop) : σ → List ω → Prop
  | _, [] => True
  | s, o :: os => P s o ∧ Steps step P (step s o) os

instance decidableSteps {P : σ → ω → Prop} [∀ s o, Decidable (P s o)] :
    (s : σ) → (os : List ω) → Decidable (Steps step P s os)
  | _, [] => inferInstanceAs (Decidable True)
  | s, o :: os =>
    have : Decidable (Steps step P (step s o) os) := decidableSteps (step s o) os
    inferInstanceAs (Decidable (P s o ∧ Steps step P (step s o) os))

@[simp] theorem exec_nil (s : σ) : exec step s [] = s := rfl

@[simp] theorem exec_cons (s : σ) (o : ω) (os : List ω) :
    exec step s (o :: os) = exec step (step s o) os := rfl

@[simp] theorem steps_nil (P : σ → ω → Prop) (s : σ) : Steps step P s [] := trivial

@[simp] theorem steps_cons (P : σ → ω → Prop) (s : σ) (o : ω) (os : List ω) :
    Steps step P s (o :: os) ↔ P s o ∧ Steps step P (step s o) os := Iff.rfl

theorem exec_append (s : σ) (os os' : List ω) :
    exec step s (os ++ os') = exec step (exec step s os) os' := by
  induction os generalizing s with
  | nil => rfl
  | cons o os ih => exact ih (step s o)

theorem steps_of_forall {P : ω → Prop} {s : σ} {os : List ω} (h : ∀ o ∈ os, P o) :
    Steps step (fun _ o => P o) s os := by
  induction os generalizing s with
  | nil => trivial
  | cons o os ih => exact ⟨h o List.mem_cons_self, ih fun o' ho => h o' (List.mem_cons_of_mem _ ho)⟩

theorem Steps.mono {P Q : σ → ω → Prop} {s : σ} {os : List ω} (h : Steps step P s os)
    (hpq : ∀ s o, P s o → Q s o) : Steps step Q s os := by
  induction os generalizing s with
  | nil => trivial
  | cons o os ih => exact ⟨hpq _ _ h.1, ih h.2⟩

theorem Steps.and {P Q : σ → ω → Prop} {s : σ} {os : List ω} (hp : Steps step P s os)
    (hq : Steps step Q s os) : Steps step (fun s o => P s o ∧ Q s o) s os := by
  induction os generalizing s with
  | nil => trivial
  | cons o os ih => exact ⟨⟨hp.1, hq.1⟩, ih hp.2 hq.2⟩

/-- An invariant kept by the steps that satisfy `P` holds after every run of such steps. -/
theorem Steps.inv {P : σ → ω → Prop} {I : σ → Prop}
    (hstep : ∀ s o, I s → P s o → I (step s o)) {s : σ} {os : List ω} (hs : I s)
    (h : Steps step P s os) : I (exec step s os) := by
  induction os generalizing s with
  | nil => exact hs
  | cons o os ih => exact ih (hstep s o hs h.1) h.2

/-- What holds of a `P`-step from an invariant state holds at every step of a run of `P`-steps. -/
theorem Steps.of_inv {P Q : σ → ω → Prop} {I : σ → Prop}
    (hstep : ∀ s o, I s → P s o → I (step s o)) (hq : ∀ s o, I s → P s o → Q s o)
    {s : σ} {os : List ω} (hs : I s) (h : Steps step P s os) : Steps step Q s os := by
  induction os generalizing s with
  | nil => trivial
  | cons o os ih => exact ⟨hq s o hs h.1, ih (hstep s o hs h.1) h.2⟩

/-- Runs of valid steps: every step is `S` exactly when every step is `G`. -/
theorem steps_iff {V S G : σ → ω → Prop} {I : σ → Prop}
    (hstep : ∀ s o, I s → V s o → G s o → I (step s o))
    (hiff : ∀ s o, I s → V s o → (S s o ↔ G s o)) {s : σ} {os : List ω} (hs : I s)
    (hv : Steps step V s os) : Steps step S s os ↔ Steps step G s os := by
  induction os generalizing s with
  | nil => simp
  | cons o os ih =>
    simp only [steps_cons]
    constructor
    · rintro ⟨h1, h2⟩
      have hg := (hiff s o hs hv.1).1 h1
      exact ⟨hg, (ih (hstep s o hs hv.1 hg) hv.2).1 h2⟩
    · rintro ⟨hg, h2⟩
      exact ⟨(hiff s o hs hv.1).2 hg, (ih (hstep s o hs hv.1 hg) hv.2).2 h2⟩

/-- Runs of valid steps: the invariant holds after every step exactly when every step is `G`. -/
theorem inv_iff {V G : σ → ω → Prop} {I : σ → Prop}
    (hiff : ∀ s o, I s → V s o → (I (step s o) ↔ G s o)) {s : σ} {os : List ω} (hs : I s)
    (hv : Steps step V s os) :
    Steps step (fun s o => I (step s o)) s os ↔ Steps step G s os :=
  steps_iff (fun s o hi hv hg => (hiff s o hi hv).2 hg) hiff hs hv

end Run
