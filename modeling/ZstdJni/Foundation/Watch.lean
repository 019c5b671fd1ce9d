/-
# Watching how a streaming coder is used

A streaming decoder or encoder has a protocol: a call that failed leaves it in a state in
which it must not be called before it is reset, and an encoder that was told to end a frame
must not be given more content before the frame is complete.  A watched coder is the coder
together with a record of what its caller did.  It answers as the coder does, so what drives
it behaves the same, and the record tells whether the protocol was broken.
-/

import ZstdJni.Foundation.FrameEncoder
import ZstdJni.Foundation.Loop

namespace ZstdJni.Foundation

universe u v w x

variable {σ : Type u} {α : Type v} {β : Type w} {π : Type x}

/-- What was done to a coder since it was last reset: a call has failed, the end of a frame
was requested and is not complete; and whether the protocol was ever broken. -/
structure Watch where
  failed : Bool
  ending : Bool
  misused : Bool
  deriving DecidableEq

namespace Watch

/-- Nothing was done yet. -/
def fresh : Watch := ⟨false, false, false⟩

/-- The record after a call that a decoder answered, failing or not. -/
def decoded (w : Watch) (fails : Bool) : Watch :=
  { w with failed := w.failed || fails, misused := w.misused || w.failed }

/-- The record after a call that an encoder answered with `ret`, failing or not.  Only an end
or a flush may follow an end that is not complete. -/
def encoded (w : Watch) (directive : Directive) (ret : ℕ) (fails : Bool) : Watch where
  failed := w.failed || fails
  ending :=
    match directive with
    | .goOn => w.ending
    | .flush => w.ending && decide (ret ≠ 0)
    | .finish => decide (ret ≠ 0)
  misused := w.misused || w.failed || (w.ending && decide (directive = .goOn))

/-- The record after a reset. -/
def reset (w : Watch) : Watch := { w with failed := false, ending := false }

/-- A call may be made without breaking the protocol. -/
def Allows (w : Watch) (directive : Directive) : Prop :=
  w.failed = false ∧ (w.ending = true → directive ≠ .goOn)

theorem misused_encoded_eq_false_iff {w : Watch} {directive : Directive} {ret : ℕ} {fails : Bool}
    (hw : w.misused = false) :
    (w.encoded directive ret fails).misused = false ↔ w.Allows directive := by
  simp [encoded, hw, Allows]

/-- A call that is allowed and does not fail leaves calls with its directive allowed. -/
theorem Allows.encoded {w : Watch} {directive : Directive} (hallows : w.Allows directive)
    (ret : ℕ) :
    (w.encoded directive ret false).Allows directive := by
  obtain ⟨hfailed, hending⟩ := hallows
  refine ⟨by simp [Watch.encoded, hfailed], fun h hgoOn => ?_⟩
  subst hgoOn
  exact hending h rfl

theorem allows_reset (w : Watch) (directive : Directive) : w.reset.Allows directive :=
  ⟨rfl, fun h => nomatch h⟩

/-- One or more calls with a directive, up to the first that fails. -/
structure Calls (w : Watch) (directive : Directive) (next : Watch) : Prop where
  keeps : w.misused = true → next.misused = true
  iff : w.misused = false → (next.misused = false ↔ w.Allows directive)

theorem calls_encoded (w : Watch) (directive : Directive) (ret : ℕ) (fails : Bool) :
    w.Calls directive (w.encoded directive ret fails) :=
  ⟨fun h => by simp [encoded, h], fun h => misused_encoded_eq_false_iff h⟩

/-- A further call with the same directive. -/
theorem Calls.encoded {w next : Watch} {directive : Directive} (hcalls : w.Calls directive next)
    (hallows : w.Allows directive → next.Allows directive) (ret : ℕ) (fails : Bool) :
    w.Calls directive (next.encoded directive ret fails) := by
  refine ⟨fun h => by simp [Watch.encoded, hcalls.keeps h], fun h => ?_⟩
  cases hnext : next.misused with
  | false =>
      have hallowed := (hcalls.iff h).mp hnext
      rw [misused_encoded_eq_false_iff hnext]
      exact iff_of_true (hallows hallowed) hallowed
  | true =>
      have hnot : ¬ w.Allows directive := fun hw => by
        rw [(hcalls.iff h).mpr hw] at hnext
        exact Bool.noConfusion hnext
      exact iff_of_false (by simp [Watch.encoded, hnext]) hnot

/-- The record after one call with a directive, whatever its result. -/
def Encodes (w : Watch) (directive : Directive) (next : Watch) : Prop :=
  ∃ ret fails, next = w.encoded directive ret fails

/-- A loop that goes round again only after a call that did not fail makes calls with its
directive if its first turn makes one. -/
theorem calls_of_iterate {τ : Type u} {ρ : Type v} (watch : τ → Watch) (last : ρ → Watch)
    {directive : Directive} {body : τ → Option (Turn τ ρ)} {start : τ}
    (hfirst : ∀ t, body start = some t →
      t.Meets (fun _ => True) fun result => (watch start).Encodes directive (last result))
    (hturn : ∀ state t, body state = some t →
      t.Meets (fun next => ∃ ret, watch next = (watch state).encoded directive ret false)
        fun result => last result = watch state ∨ (watch state).Encodes directive (last result))
    {fuel : ℕ} {result : ρ} (hrun : iterate body fuel start = some result) :
    (watch start).Calls directive (last result) := by
  refine iterate_sound (fun state => state = start ∨ ((watch start).Calls directive (watch state) ∧
      ((watch start).Allows directive → (watch state).Allows directive)))
    (fun result => (watch start).Calls directive (last result)) ?_ (.inl rfl) hrun
  intro state t hstate hbody
  have hmeets := hturn state t hbody
  rcases hstate with rfl | ⟨hcalls, hallows⟩
  · have hmade := hfirst t hbody
    cases t with
    | again next =>
        obtain ⟨ret, hnext⟩ := hmeets
        rw [Turn.Meets, hnext]
        exact .inr ⟨calls_encoded _ _ _ _, fun h => h.encoded ret⟩
    | leave result =>
        obtain ⟨ret, fails, hresult⟩ := hmade
        rw [Turn.Meets, hresult]
        exact calls_encoded _ _ _ _
  · cases t with
    | again next =>
        obtain ⟨ret, hnext⟩ := hmeets
        rw [Turn.Meets, hnext]
        exact .inr ⟨hcalls.encoded hallows ret false, fun h => (hallows h).encoded ret⟩
    | leave result =>
        rcases hmeets with hsame | ⟨ret, fails, hresult⟩
        · rw [Turn.Meets, hsame]
          exact hcalls
        · rw [Turn.Meets, hresult]
          exact hcalls.encoded hallows ret fails

/-- What an operation does to the record: it makes calls with a directive, or none that
matter. -/
def Effect (w : Watch) : Option Directive → Watch → Prop
  | none, next => next.misused = w.misused
  | some directive, next => w.Calls directive next

theorem Effect.misused {w next : Watch} {directive : Option Directive}
    (heffect : w.Effect directive next) :
    (w.misused = true → next.misused = true) ∧
      (w.misused = false → (next.misused = false ↔ ∀ d ∈ directive, w.Allows d)) := by
  cases directive with
  | none =>
      have hsame : next.misused = w.misused := heffect
      rw [hsame]
      exact ⟨id, fun h => iff_of_true h fun d hd => nomatch hd⟩
  | some directive =>
      have hcalls : w.Calls directive next := heffect
      refine ⟨hcalls.keeps, fun h => (hcalls.iff h).trans ?_⟩
      simp

end Watch

/-- The watched decoder. -/
def Decoder.watched (fails : ℕ → Bool) (D : Decoder σ α β) : Decoder (σ × Watch) α β where
  decode s input room :=
    let (next, reply) := D.decode s.1 input room
    ((next, s.2.decoded (fails reply.ret)), reply)

/-- The watched encoder.  Whether a change of the settings is also a reset depends on the
encoder. -/
def Encoder.watched (fails : ℕ → Bool) (configured : Watch → Watch) (E : Encoder σ π α β) :
    Encoder (σ × Watch) π α β where
  encode s directive input room :=
    let (next, reply) := E.encode s.1 directive input room
    ((next, s.2.encoded directive reply.ret (fails reply.ret)), reply)
  reset s :=
    let (next, result) := E.reset s.1
    ((next, s.2.reset), result)
  configure s setting :=
    let (next, result) := E.configure s.1 setting
    ((next, configured s.2), result)

/-- The encoder with a record of the room that its calls were given. -/
def Encoder.measured (E : Encoder σ π α β) : Encoder (σ × List ℕ) π α β where
  encode s directive input room :=
    let (next, reply) := E.encode s.1 directive input room
    ((next, s.2 ++ [room]), reply)
  reset s :=
    let (next, result) := E.reset s.1
    ((next, s.2), result)
  configure s setting :=
    let (next, result) := E.configure s.1 setting
    ((next, s.2), result)

end ZstdJni.Foundation
