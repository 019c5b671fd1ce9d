/-
# Loops with an explicit turn

A `while` loop of an imperative program is a body that either goes round again
with a new state or leaves with a result.  The runner below executes such a body
for a bounded number of turns, so that it stays computable even when the body
calls code whose progress is only known through a contract.

Running out of turns is a visible answer (`none`), never a result.  The total
correctness rule therefore has to produce a result: an invariant that each turn
keeps at a smaller bound shows that any budget above the bound is enough.
-/

import Mathlib.Tactic.Common
import Mathlib.Data.Nat.Notation

namespace ZstdJni.Foundation

universe u v

variable {σ : Type u} {ρ : Type v}

/-- What one turn of a loop body decides: go round again from a new state, or
leave the loop with a result. -/
inductive Turn (σ : Type u) (ρ : Type v)
  | again (state : σ)
  | leave (result : ρ)

/-- A turn meets a pair of conditions when the one for its own decision holds. -/
def Turn.Meets (again : σ → Prop) (leave : ρ → Prop) : Turn σ ρ → Prop
  | .again state => again state
  | .leave result => leave result

theorem Turn.Meets.mono {again again' : σ → Prop} {leave leave' : ρ → Prop} {t : Turn σ ρ}
    (hmeets : t.Meets again leave) (hagain : ∀ next, again next → again' next)
    (hleave : ∀ result, leave result → leave' result) : t.Meets again' leave' := by
  cases t with
  | again next => exact hagain next hmeets
  | leave result => exact hleave result hmeets

/-- Run a loop body for at most `fuel` turns.  The body itself may run out of a
budget of its own, in which case the whole loop does. -/
def iterate (body : σ → Option (Turn σ ρ)) : ℕ → σ → Option ρ
  | 0, _ => none
  | fuel + 1, state =>
    match body state with
    | none => none
    | some (.again next) => iterate body fuel next
    | some (.leave result) => some result

/-- A budgeted computation yields a result: every budget from some point on gives it. -/
def Yields (run : ℕ → Option ρ) (result : ρ) : Prop :=
  ∃ enough, ∀ fuel ≥ enough, run fuel = some result

theorem Yields.unique {run : ℕ → Option ρ} {result result' : ρ} (h : Yields run result)
    (h' : Yields run result') : result = result' := by
  obtain ⟨enough, hall⟩ := h
  obtain ⟨enough', hall'⟩ := h'
  have hrun := hall (max enough enough') (by omega)
  rw [hall' (max enough enough') (by omega)] at hrun
  exact (Option.some.inj hrun).symm

theorem Yields.of_some {run : ℕ → Option ρ} {result : ρ} (h : ∀ fuel, run fuel = some result) :
    Yields run result :=
  ⟨0, fun fuel _ => h fuel⟩

/-- What follows on a budgeted computation. -/
theorem Yields.bind {run : ℕ → Option ρ} {result : ρ} {τ : Type v} {rest : ℕ → ρ → Option τ}
    {last : τ} (h : Yields run result) (hrest : Yields (fun fuel => rest fuel result) last) :
    Yields (fun fuel => (run fuel).bind (rest fuel)) last := by
  obtain ⟨enough, hall⟩ := h
  obtain ⟨enough', hall'⟩ := hrest
  refine ⟨max enough enough', fun fuel hfuel => ?_⟩
  simp only [hall fuel (by omega), Option.bind_some]
  exact hall' fuel (by omega)

theorem Yields.map {run : ℕ → Option ρ} {result : ρ} {τ : Type v} (h : Yields run result)
    (f : ρ → τ) : Yields (fun fuel => (run fuel).map f) (f result) := by
  obtain ⟨enough, hall⟩ := h
  refine ⟨enough, fun fuel hfuel => ?_⟩
  simp only [hall fuel hfuel, Option.map_some]

/-- A loop that leaves at once. -/
theorem Yields.leave {body : σ → Option (Turn σ ρ)} {state : σ} {result : ρ}
    (hbody : body state = some (.leave result)) :
    Yields (fun fuel => iterate body fuel state) result := by
  refine ⟨1, fun fuel hfuel => ?_⟩
  obtain ⟨rest, rfl⟩ : ∃ rest, fuel = rest + 1 := ⟨fuel - 1, by omega⟩
  simp only [iterate, hbody]

/-- A loop that goes round once more yields what it yields from the next state. -/
theorem Yields.again {body : σ → Option (Turn σ ρ)} {state next : σ} {result : ρ}
    (hbody : body state = some (.again next))
    (hrest : Yields (fun fuel => iterate body fuel next) result) :
    Yields (fun fuel => iterate body fuel state) result := by
  obtain ⟨enough, hall⟩ := hrest
  refine ⟨enough + 1, fun fuel hfuel => ?_⟩
  obtain ⟨rest, rfl⟩ : ∃ rest, fuel = rest + 1 := ⟨fuel - 1, by omega⟩
  simp only [iterate, hbody]
  exact hall rest (by omega)

/-- Total correctness of a loop: if every turn from a state of the invariant either
leaves with a good result, or re-establishes the invariant at a smaller bound, then
every budget above the bound produces a good result.  The bound is part of the
invariant, so it may depend on more than the state. -/
theorem iterate_total (inv : ℕ → σ → Prop) {body : σ → Option (Turn σ ρ)} {post : ρ → Prop}
    (turn : ∀ bound state, inv bound state → ∃ t, body state = some t ∧
      t.Meets (fun next => ∃ less < bound, inv less next) post)
    (fuel : ℕ) {bound : ℕ} {state : σ} (hinv : inv bound state) (hfuel : bound < fuel) :
    ∃ result, iterate body fuel state = some result ∧ post result := by
  induction fuel generalizing state bound with
  | zero => exact absurd hfuel (Nat.not_lt_zero _)
  | succ fuel ih =>
      obtain ⟨t, hbody, hmeets⟩ := turn bound state hinv
      cases t with
      | again next =>
          obtain ⟨less, hless, hnext⟩ := hmeets
          obtain ⟨result, hrun, hpost⟩ := ih hnext (by omega)
          exact ⟨result, by rw [iterate, hbody]; exact hrun, hpost⟩
      | leave result =>
          exact ⟨result, by rw [iterate, hbody], hmeets⟩

/-- Total correctness with a bound that is not known in advance: the bound decreases in a
well-founded order, and from some budget on there is a good result. -/
theorem iterate_wellFounded {ι : Type v} {less : ι → ι → Prop} (hwf : WellFounded less)
    (inv : ι → σ → Prop) {body : σ → Option (Turn σ ρ)} {post : ρ → Prop}
    (turn : ∀ bound state, inv bound state → ∃ t, body state = some t ∧
      t.Meets (fun next => ∃ below, less below bound ∧ inv below next) post)
    (bound : ι) {state : σ} (hinv : inv bound state) :
    ∃ result, post result ∧ Yields (fun fuel => iterate body fuel state) result := by
  induction bound using hwf.induction generalizing state with
  | _ bound ih =>
      obtain ⟨t, hbody, hmeets⟩ := turn bound state hinv
      cases t with
      | again next =>
          obtain ⟨below, hbelow, hnext⟩ := hmeets
          obtain ⟨result, hpost, hrun⟩ := ih below hbelow hnext
          exact ⟨result, hpost, Yields.again hbody hrun⟩
      | leave result => exact ⟨result, hmeets, Yields.leave hbody⟩

/-- The states from which a loop takes a turn. -/
inductive Visits (body : σ → Option (Turn σ ρ)) (start : σ) : σ → Prop
  | start : Visits body start start
  | again {state next : σ} (hstate : Visits body start state)
      (hbody : body state = some (.again next)) : Visits body start next

/-- The state that a loop is in after some turns, or the last from which it goes round. -/
def advance (body : σ → Option (Turn σ ρ)) : ℕ → σ → σ
  | 0, state => state
  | turns + 1, state =>
    match body state with
    | some (.again next) => advance body turns next
    | _ => state

/-- What every turn keeps holds after any number of turns. -/
theorem advance_inv (inv : σ → Prop) {body : σ → Option (Turn σ ρ)}
    (hturn : ∀ state next, inv state → body state = some (.again next) → inv next) (turns : ℕ)
    {state : σ} (hinv : inv state) : inv (advance body turns state) := by
  induction turns generalizing state with
  | zero => exact hinv
  | succ turns ih =>
      rw [advance]
      split
      · next hbody => exact ih (hturn _ _ hinv hbody)
      · exact hinv

/-- What holds at the start and after every turn holds in every state that is visited. -/
theorem Visits.inv (inv : σ → Prop) {body : σ → Option (Turn σ ρ)} {start state : σ}
    (hvisits : Visits body start state) (hstart : inv start)
    (hturn : ∀ state next, inv state → body state = some (.again next) → inv next) : inv state := by
  induction hvisits with
  | start => exact hstart
  | again _ hbody ih => exact hturn _ _ ih hbody

/-- The states that are visited from a state: itself, and those that are visited from the next. -/
theorem visits_iff {body : σ → Option (Turn σ ρ)} {start state : σ} :
    Visits body start state ↔
      state = start ∨ ∃ next, body start = some (.again next) ∧ Visits body next state := by
  constructor
  · intro hvisits
    induction hvisits with
    | start => exact .inl rfl
    | again _ hbody ih =>
        rcases ih with rfl | ⟨next, hnext, hvisits⟩
        · exact .inr ⟨_, hbody, .start⟩
        · exact .inr ⟨next, hnext, .again hvisits hbody⟩
  · rintro (rfl | ⟨next, hnext, hvisits⟩)
    · exact .start
    · induction hvisits with
      | start => exact .again .start hnext
      | again _ hbody ih => exact .again ih hbody

/-- A budget only decides whether there is a result, not which: a larger one, with a
body that gives the same turns, gives the same result. -/
theorem iterate_mono {body body' : σ → Option (Turn σ ρ)} {fuel fuel' : ℕ} {state : σ} {result : ρ}
    (hbody : ∀ state t, body state = some t → body' state = some t) (hfuel : fuel ≤ fuel')
    (hrun : iterate body fuel state = some result) : iterate body' fuel' state = some result := by
  induction fuel generalizing fuel' state with
  | zero => simp [iterate] at hrun
  | succ fuel ih =>
      obtain ⟨more, rfl⟩ : ∃ more, fuel' = more + 1 := ⟨fuel' - 1, by omega⟩
      rw [iterate] at hrun ⊢
      cases hturn : body state with
      | none => simp [hturn] at hrun
      | some t =>
          rw [hbody state t hturn]
          cases t with
          | again next => exact ih (by omega) (by simpa [hturn] using hrun)
          | leave left => simpa [hturn] using hrun

/-- Partial correctness of a loop: whatever a run of the body returns satisfies
a postcondition that every turn respects. -/
theorem iterate_sound (inv : σ → Prop) (post : ρ → Prop) {body : σ → Option (Turn σ ρ)}
    (turn : ∀ state t, inv state → body state = some t → t.Meets inv post)
    {fuel : ℕ} {state : σ} {result : ρ} (hinv : inv state)
    (hrun : iterate body fuel state = some result) : post result := by
  induction fuel generalizing state with
  | zero => simp [iterate] at hrun
  | succ fuel ih =>
      rw [iterate] at hrun
      cases hbody : body state with
      | none => simp [hbody] at hrun
      | some t =>
          have hmeets := turn state t hinv hbody
          cases t with
          | again next => exact ih hmeets (by simpa [hbody] using hrun)
          | leave left =>
              simp only [hbody, Option.some.injEq] at hrun
              exact hrun ▸ hmeets

/-- A loop ends badly exactly if it comes to a state from which a turn fails. -/
theorem iterate_bad_iff (inv fails : σ → Prop) (bad : ρ → Prop) {body : σ → Option (Turn σ ρ)}
    (turn : ∀ state t, inv state → body state = some t →
      t.Meets (fun next => inv next ∧ ¬ fails state) fun result => bad result ↔ fails state)
    {fuel : ℕ} {state : σ} {result : ρ} (hinv : inv state)
    (hrun : iterate body fuel state = some result) :
    bad result ↔ ∃ last, Visits body state last ∧ fails last := by
  induction fuel generalizing state with
  | zero => simp [iterate] at hrun
  | succ fuel ih =>
      rw [iterate] at hrun
      cases hbody : body state with
      | none => simp [hbody] at hrun
      | some t =>
          have hmeets := turn state t hinv hbody
          cases t with
          | again next =>
              refine (ih hmeets.1 (by simpa [hbody] using hrun)).trans ⟨?_, ?_⟩
              · rintro ⟨last, hvisits, hfails⟩
                exact ⟨last, visits_iff.mpr (.inr ⟨next, hbody, hvisits⟩), hfails⟩
              · rintro ⟨last, hvisits, hfails⟩
                rcases visits_iff.mp hvisits with rfl | ⟨next', hnext, hvisits⟩
                · exact absurd hfails hmeets.2
                · rw [hbody] at hnext
                  cases hnext
                  exact ⟨last, hvisits, hfails⟩
          | leave left =>
              simp only [hbody, Option.some.injEq] at hrun
              refine (hrun ▸ hmeets : bad result ↔ fails state).trans ⟨?_, ?_⟩
              · exact fun hfails => ⟨state, .start, hfails⟩
              · rintro ⟨last, hvisits, hfails⟩
                rcases visits_iff.mp hvisits with rfl | ⟨next, hnext, -⟩
                · exact hfails
                · rw [hbody] at hnext
                  cases hnext

end ZstdJni.Foundation
