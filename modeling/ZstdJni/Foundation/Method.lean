/-
# Methods that change a state and may throw

A method of an imperative program reads and changes a state, and ends by returning a value
or by throwing.  What it has changed before it throws stays changed.  A `finally` is run
in both cases; an exception of its own takes the place of how the `try` has ended.

What a method does to the state is stated as a relation between the states before and
behind every call.  A preorder passes from the parts of a method to the whole.  A method
keeps a part of the state if every call leaves that part as it was.  A method of a part becomes one
of the whole by zooming in on the part.
-/

import Mathlib.Tactic.Common

namespace ZstdJni.Foundation

/-- Methods over states `σ` that throw exceptions `ε`. -/
abbrev Method (σ ε : Type) := ExceptT ε (StateM σ)

namespace Method

variable {σ τ ε α β : Type}

/-- A call: how it ends, and the state it leaves. -/
def call (m : Method σ ε α) (s : σ) : Except ε α × σ := m.run.run s

@[simp] theorem call_pure (value : α) (s : σ) :
    (pure value : Method σ ε α).call s = (.ok value, s) := rfl

@[simp] theorem call_throw (e : ε) (s : σ) : (throw e : Method σ ε α).call s = (.error e, s) := rfl

@[simp] theorem call_get (s : σ) : (get : Method σ ε σ).call s = (.ok s, s) := rfl

@[simp] theorem call_set (s s' : σ) : (set s' : Method σ ε PUnit).call s = (.ok ⟨⟩, s') := rfl

@[simp] theorem call_modify (f : σ → σ) (s : σ) :
    (modify f : Method σ ε PUnit).call s = (.ok ⟨⟩, f s) := rfl

/-- What follows is only called if the first method returns. -/
theorem call_bind (m : Method σ ε α) (next : α → Method σ ε β) (s : σ) :
    (m >>= next).call s =
      match m.call s with
      | (.ok value, s') => (next value).call s'
      | (.error e, s') => (.error e, s') := by
  unfold call
  simp only [ExceptT.run_bind, StateT.run_bind]
  rcases m.run.run s with ⟨result | result, s'⟩ <;> rfl

theorem call_bind_ok {m : Method σ ε α} {s s' : σ} {value : α} (hm : m.call s = (.ok value, s'))
    (next : α → Method σ ε β) : (m >>= next).call s = (next value).call s' := by
  rw [call_bind, hm]

theorem call_bind_error {m : Method σ ε α} {s s' : σ} {e : ε} (hm : m.call s = (.error e, s'))
    (next : α → Method σ ε β) : (m >>= next).call s = (.error e, s') := by
  rw [call_bind, hm]

/-- A `finally` is called wherever the `try` has ended. -/
theorem call_tryFinally (m : Method σ ε α) (last : Method σ ε β) (s : σ) :
    (tryFinally m last).call s =
      match last.call (m.call s).2 with
      | (.ok _, s') => ((m.call s).1, s')
      | (.error e, s') => (.error e, s') := by
  have hm : m s = ((m.call s).1, (m.call s).2) := rfl
  generalize m.call s = ended at hm ⊢
  obtain ⟨result, s'⟩ := ended
  have hlast : last s' = ((last.call s').1, (last.call s').2) := rfl
  generalize last.call s' = closed at hlast
  simp only [call, tryFinally, MonadFinally.tryFinally', ExceptT.run, StateT.run, Functor.map,
    ExceptT.map, ExceptT.mk, bind, StateT.bind, pure, hm]
  rcases result with e | value <;> rcases closed with ⟨e' | value', s''⟩ <;>
    (simp only [hlast]; rfl)

theorem call_tryFinally_snd (m : Method σ ε α) (last : Method σ ε β) (s : σ) :
    ((tryFinally m last).call s).2 = (last.call (m.call s).2).2 := by
  rw [call_tryFinally]
  rcases last.call (m.call s).2 with ⟨e | value, s'⟩ <;> rfl

/-- A `catch` goes on from the state that the exception was thrown in. -/
theorem call_tryCatch (m : Method σ ε α) (handler : ε → Method σ ε α) (s : σ) :
    (tryCatch m handler).call s =
      match m.call s with
      | (.ok value, s') => (.ok value, s')
      | (.error e, s') => (handler e).call s' := by
  have hm : m s = ((m.call s).1, (m.call s).2) := rfl
  generalize m.call s = ended at hm ⊢
  obtain ⟨result, s'⟩ := ended
  simp only [call, tryCatch, tryCatchThe, MonadExceptOf.tryCatch, ExceptT.tryCatch, ExceptT.run,
    ExceptT.mk, StateT.run, bind, StateT.bind, hm]
  cases result with
  | ok value => rfl
  | error e => rfl

/-- A method of a part of the state. -/
def zoom (part : σ → τ) (put : τ → σ → σ) (m : Method τ ε α) : Method σ ε α :=
  ExceptT.mk fun s => ((m.call (part s)).1, put (m.call (part s)).2 s)

@[simp] theorem call_zoom (part : σ → τ) (put : τ → σ → σ) (m : Method τ ε α) (s : σ) :
    (zoom part put m).call s = ((m.call (part s)).1, put (m.call (part s)).2 s) := rfl

/-- Every call relates the state it leaves to the one it found. -/
def Moves (R : σ → σ → Prop) (m : Method σ ε α) : Prop := ∀ s, R s (m.call s).2

section Moves

variable {R : σ → σ → Prop}

theorem moves_pure (hrefl : ∀ s, R s s) (value : α) : Moves R (pure value : Method σ ε α) := hrefl

theorem moves_throw (hrefl : ∀ s, R s s) (e : ε) : Moves R (throw e : Method σ ε α) := hrefl

theorem moves_get (hrefl : ∀ s, R s s) : Moves R (get : Method σ ε σ) := hrefl

variable (htrans : ∀ {s₁ s₂ s₃}, R s₁ s₂ → R s₂ s₃ → R s₁ s₃)

include htrans

theorem moves_bind {m : Method σ ε α} {next : α → Method σ ε β} (hm : Moves R m)
    (hnext : ∀ value, Moves R (next value)) : Moves R (m >>= next) := by
  intro s
  have hfirst := hm s
  rw [call_bind]
  rcases hcall : m.call s with ⟨e | value, s'⟩
  · rwa [hcall] at hfirst
  · rw [hcall] at hfirst
    exact htrans hfirst (hnext value s')

theorem moves_tryCatch {m : Method σ ε α} {handler : ε → Method σ ε α} (hm : Moves R m)
    (hhandler : ∀ e, Moves R (handler e)) : Moves R (tryCatch m handler) := by
  intro s
  have hfirst := hm s
  rw [call_tryCatch]
  rcases hcall : m.call s with ⟨e | value, s'⟩
  · rw [hcall] at hfirst
    exact htrans hfirst (hhandler e s')
  · rwa [hcall] at hfirst

theorem moves_tryFinally {m : Method σ ε α} {last : Method σ ε β} (hm : Moves R m)
    (hlast : Moves R last) : Moves R (tryFinally m last) := by
  intro s
  have hends := htrans (hm s) (hlast (m.call s).2)
  rw [call_tryFinally]
  rcases hcall : last.call (m.call s).2 with ⟨e | value, s'⟩
  · rwa [hcall] at hends
  · rwa [hcall] at hends

end Moves

/-- Every call leaves a part of the state as it was. -/
def Keeps (view : σ → τ) (m : Method σ ε α) : Prop := Moves (fun s s' => view s' = view s) m

section Keeps

variable {view : σ → τ}

theorem keeps_pure (value : α) : Keeps view (pure value : Method σ ε α) := fun _ => rfl

theorem keeps_throw (e : ε) : Keeps view (throw e : Method σ ε α) := fun _ => rfl

theorem keeps_get : Keeps view (get : Method σ ε σ) := fun _ => rfl

theorem keeps_bind {m : Method σ ε α} {next : α → Method σ ε β} (hm : Keeps view m)
    (hnext : ∀ value, Keeps view (next value)) : Keeps view (m >>= next) :=
  moves_bind (fun h h' => h'.trans h) hm hnext

theorem keeps_tryCatch {m : Method σ ε α} {handler : ε → Method σ ε α} (hm : Keeps view m)
    (hhandler : ∀ e, Keeps view (handler e)) : Keeps view (tryCatch m handler) :=
  moves_tryCatch (fun h h' => h'.trans h) hm hhandler

theorem keeps_tryFinally {m : Method σ ε α} {last : Method σ ε β} (hm : Keeps view m)
    (hlast : Keeps view last) : Keeps view (tryFinally m last) :=
  moves_tryFinally (fun h h' => h'.trans h) hm hlast

/-- Methods of another part of the state keep this one. -/
theorem keeps_zoom {υ : Type} {part : σ → υ} {put : υ → σ → σ}
    (hput : ∀ value s, view (put value s) = view s) (m : Method υ ε α) :
    Keeps view (zoom part put m) := fun s => hput _ s

end Keeps

/-- One method after the other, up to the first that throws. -/
def inOrder : List (Method σ ε PUnit) → Method σ ε PUnit
  | [] => pure ⟨⟩
  | m :: ms => do m; inOrder ms

theorem keeps_inOrder {view : σ → τ} {ms : List (Method σ ε PUnit)} (hms : ∀ m ∈ ms, Keeps view m) :
    Keeps view (inOrder ms) := by
  induction ms with
  | nil => exact keeps_pure _
  | cons m ms ih =>
      apply keeps_bind (hms m List.mem_cons_self)
      exact fun _ => ih fun m' hm' => hms m' (List.mem_cons_of_mem _ hm')

/-- An invariant of the methods of a list. -/
theorem inOrder_inv (inv : σ → Prop) {ms : List (Method σ ε PUnit)}
    (hms : ∀ m ∈ ms, ∀ s, inv s → inv (m.call s).2) {s : σ} (hinv : inv s) :
    inv ((inOrder ms).call s).2 := by
  induction ms generalizing s with
  | nil => exact hinv
  | cons m ms ih =>
      have hfirst := hms m List.mem_cons_self s hinv
      rw [inOrder, call_bind]
      rcases hcall : m.call s with ⟨e | value, s'⟩
      · rwa [hcall] at hfirst
      · rw [hcall] at hfirst
        exact ih (fun m' hm' => hms m' (List.mem_cons_of_mem _ hm')) hfirst

end Method

end ZstdJni.Foundation
