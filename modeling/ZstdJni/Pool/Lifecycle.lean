/-
# The resources of a stream over its life

A stream owns a native stream and a buffer of a pool, and `skip` borrows a second buffer for
the time of a call.  The two classes acquire them in a different order: the output stream
creates its native stream first, and so it is left behind when the pool has no suitable
buffer.  Both give the buffer back before they free the native stream, and so it is left
behind when the pool throws on a release.

The accounts of both classes are kept in the same way, and so what a run settles is shown
once, for any machine whose steps keep them.
-/

import ZstdJni.InputStream.Stable
import ZstdJni.OutputStream.CloseParent
import ZstdJni.Pool.Model

namespace ZstdJni.Pool

open ZstdJni.Foundation ZstdJni.Native

/-! ## Accounts -/

/-- Every native stream that was created was freed once, and every buffer that was obtained
was released once. -/
structure Balanced (events : List Event) : Prop where
  streams : events.count .created = events.count .freed
  buffers : ∀ buffer, events.count (.obtained buffer) = events.count (.released buffer)

/-- A native stream and a buffer are still to be given back. -/
structure Owes (buffer : Buffer) (events : List Event) : Prop where
  streams : events.count .created = events.count .freed + 1
  buffers : ∀ other, events.count (.obtained other) =
    events.count (.released other) + if other = buffer then 1 else 0

theorem balanced_nil : Balanced [] := ⟨rfl, fun _ => rfl⟩

theorem balanced_returned (buffer : Buffer) : Balanced [.obtained buffer, .released buffer] := by
  constructor
  · rfl
  · intro other
    by_cases heq : buffer = other
    · simp [heq]
    · simp [heq]

/-- A request that fails. -/
theorem balanced_refused {events : List Event}
    (hevents : events = [] ∨ ∃ buffer, events = [.obtained buffer, .released buffer]) :
    Balanced events := by
  rcases hevents with rfl | ⟨buffer, rfl⟩
  · exact balanced_nil
  · exact balanced_returned buffer

/-- What the constructor of an output stream leaves to be given back. -/
theorem owes_output (buffer : Buffer) : Owes buffer [.created, .obtained buffer] := by
  constructor
  · rfl
  · intro other
    by_cases heq : buffer = other
    · simp [heq]
    · simp [heq, Ne.symm heq]

/-- What the constructor of an input stream leaves to be given back. -/
theorem owes_input (buffer : Buffer) : Owes buffer [.obtained buffer, .created] := by
  constructor
  · rfl
  · intro other
    by_cases heq : buffer = other
    · simp [heq]
    · simp [heq, Ne.symm heq]

namespace Owes

variable {buffer : Buffer} {events extra : List Event}

theorem append (h : Owes buffer events) (hextra : Balanced extra) :
    Owes buffer (events ++ extra) := by
  constructor
  · rw [List.count_append, List.count_append, h.streams, hextra.streams]
    omega
  · intro other
    rw [List.count_append, List.count_append, h.buffers, hextra.buffers]
    omega

/-- Releasing the buffer and freeing the native stream settles the account. -/
theorem settled (h : Owes buffer events) :
    Balanced (events ++ [.released buffer, .freed]) := by
  constructor
  · simp [List.count_append, h.streams]
  · intro other
    by_cases heq : buffer = other
    · simp [List.count_append, h.buffers, heq]
    · simp [List.count_append, h.buffers, heq, Ne.symm heq]

/-- Releasing the buffer alone does not. -/
theorem not_settled (h : Owes buffer events) : ¬ Balanced (events ++ [.released buffer]) := by
  intro hbalanced
  have hstreams := hbalanced.streams
  simp [List.count_append, h.streams] at hstreams

end Owes

/-! ## Lives -/

/-- What an account looks at: whether the stream is closed, its buffer, what was done with
resources, and what a closed stream must not touch. -/
structure View (τ : Type) where
  isClosed : Bool
  buffer : Buffer
  events : List Event
  contents : τ

/-- What a step does to the account of a stream, by whether the pool takes the buffer back
without an exception. -/
inductive Life {τ : Type} (view : View τ) (fine : Prop) (next : View τ) : Prop
  | rests (hclosed : view.isClosed = true) (hfine : fine) (hnext : next = view)
  | uses {extra : List Event} (hopen : view.isClosed = false) (hfine : fine)
      (hnext : next.isClosed = false) (hbuffer : next.buffer = view.buffer)
      (hextra : Balanced extra) (hevents : next.events = view.events ++ extra)
  | closes (hopen : view.isClosed = false) (hfine : fine) (hnext : next.isClosed = true)
      (hevents : next.events = view.events ++ [.released view.buffer, .freed])
  | leaks (hopen : view.isClosed = false) (hfine : ¬ fine) (hnext : next.isClosed = true)
      (hevents : next.events = view.events ++ [.released view.buffer])

section Runs

variable {κ ι ε τ : Type} {M : Machine κ ι ε} {view : κ → View τ} {fine : κ → ι → Prop}

/-- By the time a stream is closed its account is settled, and from then on no call touches
it. -/
def Settles (M : Machine κ ι ε) (view : κ → View τ) (start : κ) (inputs : List ι) : Prop :=
  (view (M.run start inputs).2).isClosed = true →
    Balanced (view (M.run start inputs).2).events ∧
    ∀ more, view (M.run (M.run start inputs).2 more).2 = view (M.run start inputs).2

variable (hlife : ∀ s input event next, M.step s input = some (event, next) →
  Life (view s) (fine s input) (view next))
include hlife

/-- A closed stream rests. -/
theorem run_closed {s : κ} (hclosed : (view s).isClosed = true) (inputs : List ι) :
    view (M.run s inputs).2 = view s ∧ M.AllSteps fine s inputs := by
  induction inputs generalizing s with
  | nil => exact ⟨rfl, trivial⟩
  | cons input inputs ih =>
      rw [Machine.run, Machine.AllSteps]
      cases hstep : M.step s input with
      | none => exact ih hclosed
      | some taken =>
          obtain ⟨event, next⟩ := taken
          have hstays : view s = view next ∧ fine s input := by
            cases hlife s input event next hstep with
            | rests _ hfine hnext => exact ⟨hnext.symm, hfine⟩
            | uses hopen => simp [hopen] at hclosed
            | closes hopen => simp [hopen] at hclosed
            | leaks hopen => simp [hopen] at hclosed
          obtain ⟨hview, hall⟩ := ih (hstays.1 ▸ hclosed)
          exact ⟨hview.trans hstays.1.symm, hstays.2, hall⟩

/-- A run settles the account exactly if the pool takes the buffer back without an
exception. -/
theorem settles_iff (s : κ) (hopen : (view s).isClosed = false)
    (howes : Owes (view s).buffer (view s).events) (inputs : List ι) : Settles M view s inputs ↔
      M.AllSteps fine s inputs := by
  induction inputs generalizing s with
  | nil =>
      refine iff_of_true (fun hclosed => ?_) trivial
      exact absurd (hclosed.symm.trans hopen) (by simp)
  | cons input inputs ih =>
      rw [Settles, Machine.run, Machine.AllSteps]
      cases hstep : M.step s input with
      | none => exact ih s hopen howes
      | some taken =>
          obtain ⟨event, next⟩ := taken
          simp only
          cases hlife s input event next hstep with
          | rests hclosed => simp [hopen] at hclosed
          | uses _ hfine hnext hbuffer hextra hevents =>
              rw [and_iff_right hfine]
              apply ih next hnext
              rw [hbuffer, hevents]
              exact howes.append hextra
          | closes _ hfine hnext hevents =>
              obtain ⟨hview, hall⟩ := run_closed hlife hnext inputs
              refine iff_of_true (fun hclosed => ⟨?_, ?_⟩) ⟨hfine, hall⟩
              · rw [hview, hevents]
                exact howes.settled
              · intro more
                exact (run_closed hlife hclosed more).1
          | leaks _ hfine hnext hevents =>
              obtain ⟨hview, -⟩ := run_closed hlife hnext inputs
              refine iff_of_false (fun hsettles => ?_) (fun h => hfine h.1)
              have hbalanced := (hsettles (hview ▸ hnext)).1
              rw [hview, hevents] at hbalanced
              exact howes.not_settled hbalanced

end Runs

/-! ## The output stream -/

section Output

open ZstdJni.OutputStream

variable {σ : Type} {E : Encoder σ Setting Byte Byte}

/-- An output stream with its buffer and what was done with its resources. -/
structure OutputLife (σ : Type) where
  buffer : Buffer
  self : OutputStream.State σ
  events : List Event

/-- A call on an output stream, with how the pool takes the buffer back. -/
inductive OutputCall (σ : Type)
  | use (use : Use σ) (fuel : ℕ)
  | close (closeParentStream : Bool) (fuel : ℕ) (release : Outcome Unit)

/-- The end of `close` on an open stream: `bufferPool.release` and `freeCStream`. -/
def finishClose (st : OutputLife σ) (ended : OutputStream.Ended σ) (release : Outcome Unit) :
    Outcome Unit × OutputLife σ :=
  match release with
  | .threw e =>
    (.threw e, { st with self := ended.self, events := st.events ++ [.released st.buffer] })
  | .returned _ =>
    (ended.outcome,
      { st with self := ended.self, events := st.events ++ [.released st.buffer, .freed] })

/-- An output stream under any sequence of calls. -/
def outputMachine (E : Encoder σ Setting Byte Byte) :
    Machine (OutputLife σ) (OutputCall σ) (Outcome Unit) where
  step st
    | .use use fuel => (use.run E fuel st.self).map fun ended =>
        (ended.outcome, { st with self := ended.self })
    | .close closeParentStream fuel release =>
      (close E fuel closeParentStream st.self).map fun ended =>
        if st.self.isClosed then (ended.outcome, { st with self := ended.self })
        else finishClose st ended release

/-- The native stream, the buffer and the wrapped stream are not touched once a stream is
closed. -/
def OutputLife.view (st : OutputLife σ) : View (σ × List Byte × Sink) :=
  ⟨st.self.isClosed, st.buffer, st.events, st.self.stream, st.self.dst, st.self.out⟩

/-- The pool takes the buffer back without an exception. -/
def OutputFine (st : OutputLife σ) : OutputCall σ → Prop
  | .use _ _ => True
  | .close _ _ release => st.self.isClosed = false → ∃ u, release = .returned u

/-- A closed stream refuses every call but the one that sets a flag of Java. -/
theorem op_closed {op : Op} {fuel : ℕ} {st : OutputStream.State σ} {ended : OutputStream.Ended σ}
    (hclosed : st.isClosed = true) (hrun : op.run E fuel st = some ended) :
    ended.self = { st with closeFrameOnFlush := ended.self.closeFrameOnFlush } := by
  cases op with
  | write src offset len =>
      rw [Op.run, write, if_pos hclosed] at hrun
      split at hrun <;> obtain rfl := Option.some.inj hrun <;> rfl
  | writeByte i =>
      rw [Op.run, writeByte, write, if_pos hclosed] at hrun
      split at hrun <;> obtain rfl := Option.some.inj hrun <;> rfl
  | flush =>
      rw [Op.run, flush, if_pos hclosed] at hrun
      obtain rfl := Option.some.inj hrun
      rfl
  | setCloseFrameOnFlush closeOnFlush =>
      obtain rfl := Option.some.inj hrun
      unfold setCloseFrameOnFlush
      split
      · rfl
      · rfl
  | set setting =>
      obtain rfl := Option.some.inj hrun
      rw [setterOf_eq, parameterSetter, if_pos hclosed]

theorem use_closed {use : Use σ} {fuel : ℕ} {st : OutputStream.State σ}
    {ended : OutputStream.Ended σ}
    (hclosed : st.isClosed = true) (hrun : use.run E fuel st = some ended) :
    ended.self = { st with closeFrameOnFlush := ended.self.closeFrameOnFlush } := by
  cases use with
  | op op => exact op_closed hclosed hrun
  | setDict acquired load =>
      obtain rfl := Option.some.inj hrun
      rcases setDict_self acquired load st with hself | ⟨hopen, -⟩
      · rw [hself]
      · rw [hclosed] at hopen
        cases hopen

theorem close_closed {closeParentStream : Bool} {fuel : ℕ} {st : OutputStream.State σ}
    {ended : OutputStream.Ended σ} (hclose : close E fuel closeParentStream st = some ended) :
    ended.self.isClosed = true ∧ (st.isClosed = true → ended.self = st) := by
  unfold close at hclose
  split at hclose
  · next hclosed =>
      obtain rfl := Option.some.inj hclose
      exact ⟨hclosed, fun _ => rfl⟩
  · next hopen =>
      obtain ⟨body, -, rfl⟩ := Option.map_eq_some_iff.mp hclose
      exact ⟨rfl, fun hclosed => absurd hclosed hopen⟩

/-- Every step of an output stream keeps its account. -/
theorem output_life {st next : OutputLife σ} {call : OutputCall σ} {event : Outcome Unit}
    (hstep : (outputMachine E).step st call = some (event, next)) :
    Life st.view (OutputFine st call) next.view := by
  cases call with
  | use use fuel =>
      obtain ⟨ended, hrun, heq⟩ := Option.map_eq_some_iff.mp hstep
      obtain rfl := congrArg Prod.snd heq
      cases hclosed : st.self.isClosed with
      | true =>
          have hself := use_closed hclosed hrun
          apply Life.rests hclosed trivial
          simp only [OutputLife.view]
          rw [hself]
      | false =>
          have hkept := (use_keeps hrun).isClosed_eq
          have hevents : st.view.events = st.view.events ++ [] := (List.append_nil _).symm
          exact Life.uses hclosed trivial (hkept.trans hclosed) rfl balanced_nil hevents
  | close closeParentStream fuel release =>
      obtain ⟨ended, hrun, heq⟩ := Option.map_eq_some_iff.mp hstep
      obtain ⟨hcloses, hsame⟩ := close_closed hrun
      cases hclosed : st.self.isClosed with
      | true =>
          rw [if_pos hclosed] at heq
          obtain rfl := congrArg Prod.snd heq
          apply Life.rests hclosed (fun hopen => absurd (hclosed.symm.trans hopen) (by simp))
          simp only [OutputLife.view]
          rw [hsame hclosed]
      | false =>
          rw [if_neg (by simp [hclosed])] at heq
          obtain rfl := congrArg Prod.snd heq
          cases release with
          | threw e =>
              apply Life.leaks hclosed _ hcloses rfl
              rintro hfine
              obtain ⟨u, hu⟩ := hfine hclosed
              cases hu
          | returned u => exact Life.closes hclosed (fun _ => ⟨u, rfl⟩) hcloses rfl

end Output

/-! ## The input stream -/

section Input

open ZstdJni.InputStream

variable {σ : Type} {D : Decoder σ Byte Byte} {fuel : ℕ} {dst : List Byte} {offset len : ℤ}

/-- What the wrapped stream throws. -/
def upstreamFault : JavaException := .callback false

/-- The outcome of a call without its value. -/
def void : Outcome ℤ → Outcome Unit
  | .returned _ => .returned ()
  | .threw e => .threw e

/-- The object that a call of `read` leaves when the wrapped stream throws, in the given turn of
the given try. -/
def cutRead (D : Decoder σ Byte Byte) (fuel tries turns : ℕ) (dst : List Byte) (offset len : ℤ)
    (self : InputStream.State σ) : InputStream.State σ :=
  let mid := advance (retryBody D fuel offset len) tries ⟨.returned 0, dst, self⟩
  (advance (readBody D offset.toNat (offset + len).toNat) turns
    (readStart mid.self mid.dst offset.toNat)).self

/-- The same for `skip`, in the given call of `read`. -/
def cutSkip (D : Decoder σ Byte Byte) (fuel reads tries turns : ℕ) (data : List Byte)
    (numBytes : ℤ) (self : InputStream.State σ) : InputStream.State σ :=
  let st := advance (skipTurn D fuel numBytes) reads ⟨numBytes, data, self⟩
  cutRead D fuel tries turns st.data 0 (min (skipBufferLen numBytes) st.toSkip) st.self

/-- An input stream with its buffer and what was done with its resources. -/
structure InputLife (σ : Type) where
  buffer : Buffer
  self : InputStream.State σ
  events : List Event

/-- How the body of `skip` ends: by itself, or by an exception of the wrapped stream. -/
inductive SkipEnd
  | runs
  | cut (reads tries turns : ℕ)

/-- A call on an input stream, with the answers of the pool and of the wrapped stream. -/
inductive InputCall (σ : Type)
  | read (dst : List Byte) (offset len : ℤ) (fuel : ℕ)
  | readByte (fuel : ℕ)
  | cutRead (dst : List Byte) (offset len : ℤ) (fuel tries turns : ℕ)
  | skip (numBytes : ℤ) (answer : Answer) (refused release : Outcome Unit) (fuel : ℕ)
      (ends : SkipEnd)
  | setContinuous (b : Bool)
  | set (acquired : Outcome Unit) (configure : σ → σ × ℕ)
  | available
  | close (release parent : Outcome Unit)

namespace InputLife

/-- Go on with an object. -/
def put (st : InputLife σ) (self : InputStream.State σ) : InputLife σ := { st with self := self }

/-- The body of the `try` in `skip`. -/
def skipBody (D : Decoder σ Byte Byte) (fuel : ℕ) (ends : SkipEnd) (numBytes : ℤ)
    (self : InputStream.State σ) (data : List Byte) : Option (Outcome Unit × InputStream.State σ) :=
  match ends with
  | .runs => (InputStream.skip D fuel data numBytes self).map fun ended =>
      (void ended.outcome, ended.self)
  | .cut reads tries turns =>
      some (.threw upstreamFault, cutSkip D fuel reads tries turns data numBytes self)

/-- `skip(numBytes)`: the buffer is given back in the `finally`. -/
def skip (D : Decoder σ Byte Byte) (fuel : ℕ) (ends : SkipEnd) (numBytes : ℤ) (answer : Answer)
    (refused release : Outcome Unit) (st : InputLife σ) : Option (Outcome Unit × InputLife σ) :=
  if st.self.isClosed then some (.threw (.ioException "Stream closed"), st)
  else if numBytes ≤ 0 then some (.returned (), st)
  else
    match getArrayBackedBuffer (skipBufferLen numBytes) answer refused with
    | (.threw e, events) => some (.threw e, { st with events := st.events ++ events })
    | (.returned buffer, events) =>
      (skipBody D fuel ends numBytes st.self buffer.array).map fun (outcome, self) =>
        (match release with
          | .threw e => .threw e
          | .returned _ => outcome,
        { st with self := self, events := st.events ++ (events ++ [.released buffer]) })

/-- `close()`: `bufferPool.release`, `freeDStream` and `in.close()`. -/
def close (release parent : Outcome Unit) (st : InputLife σ) : Outcome Unit × InputLife σ :=
  if st.self.isClosed then (.returned (), st)
  else
    let self := { st.self with isClosed := true }
    match release with
    | .threw e =>
      (.threw e, { st with self := self, events := st.events ++ [.released st.buffer] })
    | .returned _ =>
      (parent, { st with self := self, events := st.events ++ [.released st.buffer, .freed] })

end InputLife

/-- An input stream under any sequence of calls. -/
def inputMachine (D : Decoder σ Byte Byte) : Machine (InputLife σ) (InputCall σ)
    (Outcome Unit) where
  step st
    | .read dst offset len fuel => (InputStream.read D fuel dst offset len st.self).map fun ended =>
        (void ended.outcome, st.put ended.self)
    | .readByte fuel => (InputStream.readByte D fuel st.self).map fun ended =>
        (void ended.outcome, st.put ended.self)
    | .cutRead dst offset len fuel tries turns =>
      if st.self.isClosed then none
      else some (.threw upstreamFault, st.put (cutRead D fuel tries turns dst offset len st.self))
    | .skip numBytes answer refused release fuel ends =>
      st.skip D fuel ends numBytes answer refused release
    | .setContinuous b => some (.returned (), st.put (st.self.setContinuous b))
    | .set acquired configure =>
      let (outcome, self) := st.self.set acquired configure
      some (outcome, st.put self)
    | .available =>
      if st.self.isClosed then some (.threw (.ioException "Stream closed"), st)
      else if st.self.needRead then
        some (.returned (), st.put { st.self with upstream := st.self.upstream.available.2 })
      else some (.returned (), st)
    | .close release parent => some (st.close release parent)

/-- The native stream, the buffer and the wrapped stream are not touched once a stream is
closed. -/
def InputLife.view (st : InputLife σ) : View (σ × List Byte × Upstream) :=
  ⟨st.self.isClosed, st.buffer, st.events, st.self.stream, st.self.src, st.self.upstream⟩

/-- The pool takes the buffer of the stream back without an exception. -/
def InputFine (st : InputLife σ) : InputCall σ → Prop
  | .close release _ => st.self.isClosed = false → ∃ u, release = .returned u
  | _ => True

/-! ### Reading does not close a stream -/

theorem isClosed_stable (closed : Bool) :
    InputStream.Stable D (fun self => self.isClosed = closed) fun _ st =>
      st.self.isClosed = closed := by
  apply InputStream.Stable.of_parts
  · exact fun _ _ h => h
  · exact fun _ h => h
  · intro offset self h
    unfold fetch
    rcases self.upstream.read with ⟨_ | _ | _, up⟩
    · simp only
      split_ifs <;> exact h
    · exact h
    · exact h
  · intro offset dstSize self dst h
    rw [decodeTurn_eq rfl]
    split_ifs <;> exact h

theorem cutRead_isClosed (tries turns : ℕ) (self : InputStream.State σ) :
    (cutRead D fuel tries turns dst offset len self).isClosed = self.isClosed := by
  unfold cutRead
  simp only
  generalize hmid : advance (retryBody D fuel offset len) tries ⟨.returned 0, dst, self⟩ = mid
  have hkept : mid.self.isClosed = self.isClosed := by
    rw [← hmid]
    apply advance_inv (fun st : InputStream.Ended σ => st.self.isClosed = self.isClosed) _ tries rfl
    intro state next hstate hturn
    exact (isClosed_stable self.isClosed).retryBody_meets hstate hturn
  apply advance_inv (fun st : ReadState σ => st.self.isClosed = self.isClosed) _ turns
    (show (readStart mid.self mid.dst offset.toNat).self.isClosed = self.isClosed from hkept)
  intro state next hstate hturn
  have hmeets :=
    (isClosed_stable (D := D) self.isClosed).turn offset.toNat (offset + len).toNat state
    hstate
  rw [Option.some.inj hturn] at hmeets
  exact hmeets

theorem cutSkip_isClosed (reads tries turns : ℕ) (data : List Byte) (numBytes : ℤ)
    (self : InputStream.State σ) :
    (cutSkip D fuel reads tries turns data numBytes self).isClosed = self.isClosed := by
  unfold cutSkip
  simp only
  rw [cutRead_isClosed]
  apply advance_inv (fun st : SkipState σ => st.self.isClosed = self.isClosed) _ reads rfl
  intro state next hstate hturn
  exact (isClosed_stable self.isClosed).skipTurn_meets hstate hturn

/-! ### Calls on a closed stream -/

theorem readLoop_closed {self : InputStream.State σ} {ended : InputStream.Ended σ}
    (hclosed : self.isClosed = true) (hread : readLoop D fuel dst offset len self = some ended) :
    ended.self = self := by
  rw [readLoop_eq] at hread
  apply iterate_sound (fun st : InputStream.Ended σ => st.self = self)
    (fun ended => ended.self = self)
    _ rfl hread
  intro st turn hst hturn
  unfold retryBody at hturn
  split at hturn
  · obtain ⟨ended, hinternal, rfl⟩ := Option.map_eq_some_iff.mp hturn
    rw [readInternal, hst, if_pos hclosed] at hinternal
    obtain rfl := Option.some.inj hinternal
    rfl
  · obtain rfl := Option.some.inj hturn
    exact hst

theorem read_closed {self : InputStream.State σ} {ended : InputStream.Ended σ}
    (hclosed : self.isClosed = true)
    (hread : InputStream.read D fuel dst offset len self = some ended) : ended.self = self := by
  unfold InputStream.read at hread
  split at hread
  · obtain rfl := Option.some.inj hread
    rfl
  · split at hread
    · obtain rfl := Option.some.inj hread
      rfl
    · exact readLoop_closed hclosed hread

/-! ### Steps -/

/-- A call that leaves another object but does nothing with resources. -/
theorem put_life {st : InputLife σ} {self : InputStream.State σ}
    (hsame : self.isClosed = st.self.isClosed)
    (hrests : st.self.isClosed = true → (st.put self).view = st.view) :
    Life st.view True (st.put self).view := by
  cases hclosed : st.self.isClosed with
  | true => exact Life.rests hclosed trivial (hrests hclosed)
  | false =>
      have hevents : (st.put self).view.events =
        st.view.events ++ [] := by simp [InputLife.view, InputLife.put]
      exact Life.uses hclosed trivial (hsame.trans hclosed) rfl balanced_nil hevents

theorem skipBody_isClosed {ends : SkipEnd} {numBytes : ℤ} {data : List Byte}
    {self next : InputStream.State σ} {outcome : Outcome Unit}
    (hbody : InputLife.skipBody D fuel ends numBytes self data = some (outcome, next)) :
    next.isClosed = self.isClosed := by
  cases ends with
  | runs =>
      obtain ⟨last, hlast, hpair⟩ := Option.map_eq_some_iff.mp hbody
      obtain rfl := congrArg Prod.snd hpair
      exact (isClosed_stable _).skip_inv rfl hlast
  | cut reads tries turns =>
      obtain rfl := congrArg Prod.snd (Option.some.inj hbody)
      exact cutSkip_isClosed reads tries turns data numBytes self

theorem skip_life {st next : InputLife σ} {ends : SkipEnd} {numBytes : ℤ} {answer : Answer}
    {refused release outcome : Outcome Unit}
    (hskip : st.skip D fuel ends numBytes answer refused release = some (outcome, next)) :
    Life st.view True next.view := by
  unfold InputLife.skip at hskip
  cases hclosed : st.self.isClosed with
  | true =>
      rw [if_pos hclosed] at hskip
      obtain rfl := congrArg Prod.snd (Option.some.inj hskip)
      exact Life.rests hclosed trivial rfl
  | false =>
      rw [if_neg (by simp [hclosed])] at hskip
      split at hskip
      · obtain rfl := congrArg Prod.snd (Option.some.inj hskip)
        exact Life.uses hclosed trivial hclosed rfl balanced_nil (List.append_nil _).symm
      · rcases getArrayBackedBuffer_cases (skipBufferLen numBytes) answer refused with
          ⟨buffer, -, -, hget⟩ | ⟨-, e, events, hget, hevents⟩
        · rw [hget] at hskip
          obtain ⟨⟨ended, self⟩, hbody, heq⟩ := Option.map_eq_some_iff.mp hskip
          obtain rfl := congrArg Prod.snd heq
          have hsame := skipBody_isClosed hbody
          exact Life.uses hclosed trivial (hsame.trans hclosed) rfl (balanced_returned buffer) rfl
        · rw [hget] at hskip
          obtain rfl := congrArg Prod.snd (Option.some.inj hskip)
          exact Life.uses hclosed trivial hclosed rfl (balanced_refused hevents) rfl

/-- Every step of an input stream keeps its account. -/
theorem input_life {st next : InputLife σ} {call : InputCall σ} {event : Outcome Unit}
    (hstep : (inputMachine D).step st call = some (event, next)) :
    Life st.view (InputFine st call) next.view := by
  cases call with
  | read dst offset len fuel =>
      obtain ⟨ended, hrun, heq⟩ := Option.map_eq_some_iff.mp hstep
      obtain rfl := congrArg Prod.snd heq
      apply put_life ((isClosed_stable _).read_inv rfl hrun)
      intro hclosed
      rw [read_closed hclosed hrun]
      rfl
  | readByte fuel =>
      obtain ⟨ended, hrun, heq⟩ := Option.map_eq_some_iff.mp hstep
      obtain rfl := congrArg Prod.snd heq
      obtain ⟨last, hloop, rfl⟩ := Option.map_eq_some_iff.mp hrun
      rw [byteResult_self]
      apply put_life ((isClosed_stable _).readLoop_inv rfl hloop)
      intro hclosed
      rw [readLoop_closed hclosed hloop]
      rfl
  | cutRead dst offset len fuel tries turns =>
      cases hclosed : st.self.isClosed with
      | true => simp [inputMachine, hclosed] at hstep
      | false =>
          simp only [inputMachine, hclosed, Bool.false_eq_true, if_false] at hstep
          obtain rfl := congrArg Prod.snd (Option.some.inj hstep)
          apply put_life (cutRead_isClosed tries turns st.self)
          intro habsurd
          rw [hclosed] at habsurd
          cases habsurd
  | skip numBytes answer refused release fuel ends => exact skip_life hstep
  | setContinuous b =>
      obtain rfl := congrArg Prod.snd (Option.some.inj hstep)
      exact put_life rfl (fun _ => rfl)
  | set acquired configure =>
      obtain rfl := congrArg Prod.snd (Option.some.inj hstep)
      obtain ⟨stream, hself, hsame⟩ := set_self acquired configure st.self
      change Life st.view True (st.put (st.self.set acquired configure).2).view
      rw [hself]
      refine put_life ?_ fun hclosed => ?_
      · rfl
      · rw [hsame hclosed]
        rfl
  | available =>
      cases hclosed : st.self.isClosed with
      | true =>
          simp only [inputMachine, hclosed, if_true] at hstep
          obtain rfl := congrArg Prod.snd (Option.some.inj hstep)
          exact Life.rests hclosed trivial rfl
      | false =>
          have habsurd : ∀ {p : Prop}, st.self.isClosed = true → p := by simp [hclosed]
          simp only [inputMachine, hclosed, Bool.false_eq_true, if_false] at hstep
          split at hstep
          · obtain rfl := congrArg Prod.snd (Option.some.inj hstep)
            exact put_life hclosed.symm habsurd
          · obtain rfl := congrArg Prod.snd (Option.some.inj hstep)
            exact put_life rfl habsurd
  | close release parent =>
      obtain rfl := congrArg Prod.snd (Option.some.inj hstep)
      unfold InputLife.close
      cases hclosed : st.self.isClosed with
      | true =>
          rw [if_pos rfl]
          exact Life.rests hclosed (fun hopen => absurd (hclosed.symm.trans hopen) (by simp)) rfl
      | false =>
          rw [if_neg (by simp)]
          cases release with
          | threw e =>
              apply Life.leaks hclosed _ rfl rfl
              intro hfine
              obtain ⟨u, hu⟩ := hfine hclosed
              cases hu
          | returned u => exact Life.closes hclosed (fun _ => ⟨u, rfl⟩) rfl rfl

end Input

/-! ## Whole lives -/

section Lives

variable {σ : Type}

/-- A whole life of an output stream, from the answer of the pool to its constructor on. -/
def OutputSettles (E : Encoder σ Setting Byte Byte) (stream : σ) (out : OutputStream.Sink)
    (answer : Answer) (refused : Outcome Unit) (calls : List (OutputCall σ)) : Prop :=
  match constructOutput stream out answer refused with
  | (.threw _, events) => Balanced events
  | (.returned (buffer, self), events) =>
    Settles (outputMachine E) OutputLife.view ⟨buffer, self, events⟩ calls

/-- The condition for it: the pool has a suitable buffer, and takes it back. -/
def OutputLifeFine (E : Encoder σ Setting Byte Byte) (stream : σ) (out : OutputStream.Sink)
    (answer : Answer) (calls : List (OutputCall σ)) : Prop :=
  ∃ buffer, answer = .buffer buffer ∧ buffer.isArrayBacked = true ∧
    (outputMachine E).AllSteps OutputFine
      ⟨buffer, OutputStream.State.create stream out buffer.array, [.created, .obtained buffer]⟩
        calls

/-- A whole life of an input stream. -/
def InputSettles (D : Decoder σ Byte Byte) (stream : σ) (upstream : InputStream.Upstream)
    (answer : Answer) (refused : Outcome Unit) (calls : List (InputCall σ)) : Prop :=
  match constructInput stream upstream answer refused with
  | (.threw _, events) => Balanced events
  | (.returned (buffer, self), events) =>
    Settles (inputMachine D) InputLife.view ⟨buffer, self, events⟩ calls

/-- The condition for it: the pool takes the buffer of the stream back, if it had one. -/
def InputLifeFine (D : Decoder σ Byte Byte) (stream : σ) (upstream : InputStream.Upstream)
    (answer : Answer) (calls : List (InputCall σ)) : Prop :=
  ∀ buffer, answer = .buffer buffer → buffer.isArrayBacked = true →
    (inputMachine D).AllSteps InputFine
      ⟨buffer, { InputStream.State.create stream upstream with src := buffer.array },
        [.obtained buffer, .created]⟩ calls

theorem outputSettles_iff (E : Encoder σ Setting Byte Byte) (stream : σ) (out : OutputStream.Sink)
    (answer : Answer) (refused : Outcome Unit) (calls : List (OutputCall σ)) :
    OutputSettles E stream out answer refused calls ↔ OutputLifeFine E stream out answer calls := by
  unfold OutputSettles constructOutput OutputLifeFine
  rcases getArrayBackedBuffer_cases OutputStream.dstSize answer refused with
    ⟨buffer, hanswer, hbacked, hget⟩ | ⟨hrefused, e, events, hget, hevents⟩
  · have hiff := settles_iff (fun _ _ _ _ => output_life (E := E))
      (⟨buffer, OutputStream.State.create stream out buffer.array, [.created, .obtained buffer]⟩ :
        OutputLife σ) rfl (owes_output buffer) calls
    rw [hget]
    simp only
    rw [hiff]
    constructor
    · intro hall
      exact ⟨buffer, hanswer, hbacked, hall⟩
    · rintro ⟨other, hother, -, hall⟩
      rw [hanswer] at hother
      cases hother
      exact hall
  · rw [hget]
    refine iff_of_false (fun hbalanced => ?_) ?_
    · -- the native stream was created before the pool was asked
      have hstreams := hbalanced.streams
      have hpart := (balanced_refused hevents).streams
      rw [List.count_cons_self, List.count_cons_of_ne (by simp)] at hstreams
      omega
    · rintro ⟨buffer, hanswer, hbacked, -⟩
      rw [hrefused buffer hanswer] at hbacked
      cases hbacked

theorem inputSettles_iff (D : Decoder σ Byte Byte) (stream : σ) (upstream : InputStream.Upstream)
    (answer : Answer) (refused : Outcome Unit) (calls : List (InputCall σ)) :
    InputSettles D stream upstream answer refused calls ↔
      InputLifeFine D stream upstream answer calls := by
  unfold InputSettles constructInput InputLifeFine
  rcases getArrayBackedBuffer_cases InputStream.srcBuffSize answer refused with
    ⟨buffer, hanswer, hbacked, hget⟩ | ⟨hrefused, e, events, hget, hevents⟩
  · have hiff := settles_iff (fun _ _ _ _ => input_life (D := D))
      (⟨buffer, { InputStream.State.create stream upstream with src := buffer.array },
        [.obtained buffer, .created]⟩ : InputLife σ) rfl (owes_input buffer) calls
    rw [hget]
    simp only [List.cons_append, List.nil_append]
    rw [hiff]
    constructor
    · intro hall other hother _
      rw [hanswer] at hother
      cases hother
      exact hall
    · intro hall
      exact hall buffer hanswer hbacked
  · rw [hget]
    refine iff_of_true (balanced_refused hevents) ?_
    intro buffer hanswer hbacked
    rw [hrefused buffer hanswer] at hbacked
    cases hbacked

/-- Over every life of an output stream and of an input stream, the native stream and the
buffers are given back exactly once, and not touched afterwards, exactly if the pool takes
the buffer of the stream back without an exception, and, for an output stream, had a
suitable one. -/
theorem resources_balanced_iff (E : Encoder σ Setting Byte Byte) (D : Decoder σ Byte Byte)
    (stream : σ) (out : OutputStream.Sink) (upstream : InputStream.Upstream) (answer : Answer)
    (refused : Outcome Unit) (writing : List (OutputCall σ)) (reading : List (InputCall σ)) :
    (OutputSettles E stream out answer refused writing ↔
      OutputLifeFine E stream out answer writing) ∧
    (InputSettles D stream upstream answer refused reading ↔
      InputLifeFine D stream upstream answer reading) :=
  ⟨outputSettles_iff E stream out answer refused writing,
    inputSettles_iff D stream upstream answer refused reading⟩

/-- The native stream of an output stream whose pool has no buffer is never freed, and neither
is the one of an output stream whose pool throws when the buffer is given back. -/
theorem native_stream_leaked :
    ¬ OutputSettles OutputStream.oneByte () ⟨[], 0, 0, []⟩ .null (.returned ()) [] ∧
    ¬ OutputSettles OutputStream.oneByte () ⟨[], 0, 0, []⟩ (.buffer ⟨true, 0, []⟩) (.returned ())
        [.close true 1 (.threw (.callback false))] := by
  constructor
  · intro hbalanced
    have hstreams := hbalanced.streams
    simp at hstreams
  · intro hsettles
    have hbalanced := (hsettles rfl).1
    have hstreams := hbalanced.streams
    exact absurd hstreams (by decide)

end Lives

end ZstdJni.Pool
