/-
# Machines that take one step after another

A machine is driven by inputs.  An input that is enabled makes it take a step, with a
visible event; one that is not enabled is passed over.  So every sequence of inputs is a
run, and a statement about all runs is one about all sequences of inputs: an input may
name a thread that is to move, or an operation with the outcomes of the calls it makes.

Invariants may speak about the events so far.  A rule with a condition on the steps is
there for properties that only hold as long as no step goes wrong.
-/

import Mathlib.Tactic.Common

namespace ZstdJni.Foundation

universe u v w

/-- A machine with states, inputs and events. -/
structure Machine (σ : Type u) (ι : Type v) (ε : Type w) where
  step : σ → ι → Option (ε × σ)

namespace Machine

variable {σ : Type u} {ι : Type v} {ε : Type w} (M : Machine σ ι ε)

/-- Run the machine on a sequence of inputs. -/
def run : σ → List ι → List ε × σ
  | s, [] => ([], s)
  | s, input :: inputs =>
    match M.step s input with
    | none => run s inputs
    | some (event, next) => (event :: (run next inputs).1, (run next inputs).2)

/-- Every step that a run takes meets a condition. -/
def AllSteps (cond : σ → ι → Prop) : σ → List ι → Prop
  | _, [] => True
  | s, input :: inputs =>
    match M.step s input with
    | none => AllSteps cond s inputs
    | some (_, next) => cond s input ∧ AllSteps cond next inputs

variable {M}

theorem run_snd_cons {s next : σ} {input : ι} {event : ε}
    (hstep : M.step s input = some (event, next)) (inputs : List ι) :
    (M.run s (input :: inputs)).2 = (M.run next inputs).2 := by
  rw [run, hstep]

/-- An invariant about the events so far, kept by every step that meets a condition,
holds after every run whose steps meet it. -/
theorem run_inv_of_allSteps (inv : List ε → σ → Prop) {cond : σ → ι → Prop}
    (hstep : ∀ events s input event next, inv events s → cond s input →
      M.step s input = some (event, next) → inv (events ++ [event]) next)
    {events : List ε} {s : σ} (hinv : inv events s) {inputs : List ι}
    (hall : M.AllSteps cond s inputs) :
    inv (events ++ (M.run s inputs).1) (M.run s inputs).2 := by
  induction inputs generalizing events s with
  | nil => simpa [run] using hinv
  | cons input inputs ih =>
      rw [AllSteps] at hall
      rw [run]
      cases hnext : M.step s input with
      | none =>
          rw [hnext] at hall
          exact ih hinv hall
      | some taken =>
          obtain ⟨event, next⟩ := taken
          simp only [hnext] at hall
          have hrest := ih (hstep _ _ _ _ _ hinv hall.1 hnext) hall.2
          simpa using hrest

/-- The same for an invariant about the states alone. -/
theorem run_state_inv_of_allSteps (inv : σ → Prop) {cond : σ → ι → Prop}
    (hstep : ∀ s input event next, inv s → cond s input →
      M.step s input = some (event, next) → inv next)
    {s : σ} (hinv : inv s) {inputs : List ι} (hall : M.AllSteps cond s inputs) :
    inv (M.run s inputs).2 := by
  exact @run_inv_of_allSteps _ _ _ M (fun _ s => inv s) cond
    (fun _ s input event next => hstep s input event next) [] s hinv inputs hall

/-- A condition that looks at the inputs only. -/
theorem allSteps_of_forall {cond : ι → Prop} {inputs : List ι} (h : ∀ input ∈ inputs, cond input)
    (s : σ) : M.AllSteps (fun _ input => cond input) s inputs := by
  induction inputs generalizing s with
  | nil => trivial
  | cons input inputs ih =>
      have hrest := fun s => ih (fun input hmem => h input (List.mem_cons_of_mem _ hmem)) s
      rw [AllSteps]
      split
      · exact hrest s
      · exact ⟨h input List.mem_cons_self, hrest _⟩

/-- An invariant about the events so far, kept by every step, holds after every run. -/
theorem run_inv (inv : List ε → σ → Prop)
    (hstep : ∀ events s input event next, inv events s →
      M.step s input = some (event, next) → inv (events ++ [event]) next)
    {s : σ} (hinv : inv [] s) (inputs : List ι) : inv (M.run s inputs).1 (M.run s inputs).2 := by
  have hall : M.AllSteps (fun _ _ => True) s inputs := allSteps_of_forall (fun _ _ => trivial) s
  have hrun := run_inv_of_allSteps inv
    (fun events s input event next h _ => hstep events s input event next h) hinv hall
  simpa using hrun

/-- A flag that no step clears stays clear exactly in the runs all of whose steps meet the
condition under which a step leaves it clear. -/
theorem run_flag_iff (flag : σ → Bool) {cond : σ → ι → Prop}
    (hkeep : ∀ s input event next, M.step s input = some (event, next) → flag s = true →
      flag next = true)
    (hstep : ∀ s input event next, M.step s input = some (event, next) → flag s = false →
      (flag next = false ↔ cond s input))
    {s : σ} (hs : flag s = false) (inputs : List ι) :
    flag (M.run s inputs).2 = false ↔ M.AllSteps cond s inputs := by
  induction inputs generalizing s with
  | nil => exact iff_of_true hs trivial
  | cons input inputs ih =>
      rw [run, AllSteps]
      cases hnext : M.step s input with
      | none => exact ih hs
      | some taken =>
          obtain ⟨event, next⟩ := taken
          have hiff := hstep s input event next hnext hs
          simp only
          cases hflag : flag next with
          | false =>
              rw [ih hflag]
              exact (and_iff_right (hiff.mp hflag)).symm
          | true =>
              have hlast : flag (M.run next inputs).2 = true := by
                have hrun := run_inv (fun _ s => flag s = true)
                  (fun _ s input event next h hnext => hkeep s input event next hnext h)
                  hflag inputs
                exact hrun
              refine iff_of_false (by simp [hlast]) fun h => ?_
              exact absurd (hiff.mpr h.1) (by simp [hflag])

end Machine

end ZstdJni.Foundation
