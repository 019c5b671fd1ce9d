/-
# `RecyclingBufferPool`

The pool that streams share: a queue of soft references to buffers, which any number of
threads poll and add to.  A step is one atomic action: a poll, the look at a reference, an
add, or the end of an operation of a stream; soft references are cleared at any time.  The
methods of one stream are synchronized, so that each stream is in one operation at a time.

A buffer is handed from the queue to an operation, to the stream, to the operation that
gives it back and to the queue again.  On no way is it in two of these places, and so no
two streams work in the same array.
-/

import Mathlib.Data.List.Perm.Subperm
import Mathlib.Data.List.ReduceOption
import ZstdJni.Foundation.Machine
import ZstdJni.Foundation.Ownership
import ZstdJni.InputStream.Model
import ZstdJni.OutputStream.Model

namespace ZstdJni.Pool.Recycling

open ZstdJni.Foundation ZstdJni.Native

/-- `buffSize`, the largest size that a stream asks for. -/
def buffSize : ℕ :=
  max (max OutputStream.dstSize InputStream.srcBuffSize) InputStream.recommendedDOutSize

/-- The attributes of a `ByteBuffer`. -/
structure Attributes where
  hasArray : Bool
  arrayOffset : ℕ
  capacity : ℕ
  position : ℕ
  limit : ℕ
  deriving DecidableEq

/-- `ByteBuffer.allocate(capacity)`. -/
def allocate (capacity : ℕ) : Attributes := ⟨true, 0, capacity, 0, capacity⟩

/-- `buffer.clear()`. -/
def Attributes.clear (buffer : Attributes) : Attributes :=
  { buffer with position := 0, limit := buffer.capacity }

/-- The test of `getArrayBackedBuffer`. -/
def Attributes.isArrayBacked (buffer : Attributes) : Bool :=
  buffer.hasArray && buffer.arrayOffset == 0

/-- What a buffer is asked for: by the constructor of a stream, or by `skip`. -/
inductive Goal
  | construct
  | skip
  deriving DecidableEq

/-- Where the operation of a stream stands.  Buffers are numbered in the order of their
allocation; a reference that is cleared has no buffer. -/
inductive Act
  | idle
  | poll (goal : Goal) (capacity : ℕ)
  | look (goal : Goal) (capacity : ℕ) (reference : Option ℕ)
  | accept (goal : Goal) (buffer : ℕ)
  | skipping (buffer : ℕ)
  | release (buffer : ℕ)
  | add (buffer : ℕ)
  deriving DecidableEq

/-- A stream: its buffer, once it is constructed, and what it is doing. -/
structure Stream where
  buffer : Option ℕ
  isClosed : Bool
  act : Act
  deriving DecidableEq

/-- The buffers that an operation has in its hands. -/
def Act.buffers : Act → List ℕ
  | .look _ _ reference => reference.toList
  | .accept _ buffer => [buffer]
  | .skipping buffer => [buffer]
  | .release buffer => [buffer]
  | .add buffer => [buffer]
  | _ => []

/-- The size that an operation is asking for. -/
def Act.capacity : Act → ℕ
  | .poll _ capacity => capacity
  | .look _ capacity _ => capacity
  | _ => 0

/-- The buffer of a stream.  A closed stream has given it up. -/
def Stream.own (stream : Stream) : List ℕ := if stream.isClosed then [] else stream.buffer.toList

/-- The buffers that a stream and its operation hold. -/
def Stream.held (stream : Stream) : List ℕ := stream.own ++ stream.act.buffers

/-- The pool and the streams that use it. -/
structure State (ι : Type) where
  heap : ℕ → Attributes
  allocated : ℕ
  queue : List (Option ℕ)
  streams : ι → Stream

/-- What a step shows. -/
inductive Event (ι : Type)
  | internal (i : ι)
  | polled (i : ι)
  | handed (i : ι) (buffer : Attributes) (capacity : ℕ)
  | added (i : ι)
  | threw (i : ι) (exception : JavaException)
  | cleared
  deriving DecidableEq

/-- The two kinds of streams. -/
inductive Kind
  | output
  | input

/-- The size that a constructor asks for. -/
def Kind.size : Kind → ℕ
  | .output => OutputStream.dstSize
  | .input => InputStream.srcBuffSize

/-- What happens next: a stream begins an operation, or takes the next action of the one it is
in, or a soft reference is cleared, in the queue or after it was polled. -/
inductive Input (ι : Type)
  | construct (i : ι) (kind : Kind)
  | skip (i : ι) (numBytes : ℤ)
  | close (i : ι) (fails : Option JavaException)
  | next (i : ι)
  | clear (position : ℕ)
  | clearPolled (i : ι)

namespace State

variable {ι : Type} [DecidableEq ι]

/-- No stream is constructed and the pool is empty. -/
def init : State ι := ⟨fun _ => ⟨false, 0, 0, 0, 0⟩, 0, [], fun _ => ⟨none, false, .idle⟩⟩

def setStream (st : State ι) (i : ι) (stream : Stream) : State ι :=
  { st with streams := Function.update st.streams i stream }

def setAct (st : State ι) (i : ι) (act : Act) : State ι :=
  st.setStream i { st.streams i with act := act }

/-- The first lines of `get(capacity)`. -/
def get (st : State ι) (i : ι) (goal : Goal) (capacity : ℕ) : Event ι × State ι :=
  if buffSize < capacity then
    (.threw i
      (.runtimeException
        s!"Unsupported buffer size: {capacity}. Supported buffer sizes: {buffSize} or smaller."),
      st)
  else (.internal i, st.setAct i (.poll goal capacity))

/-- The next action of the operation that a stream is in. -/
def next (st : State ι) (i : ι) : Option (Event ι × State ι) :=
  match (st.streams i).act with
  | .idle => none
  | .poll goal capacity =>
    match st.queue with
    | [] =>
      some (.handed i (allocate buffSize) capacity,
        { st with
          heap := Function.update st.heap st.allocated (allocate buffSize)
          allocated := st.allocated + 1 }.setAct i (.accept goal st.allocated))
    | reference :: rest =>
      some (.polled i, { st with queue := rest }.setAct i (.look goal capacity reference))
  | .look goal capacity none => some (.internal i, st.setAct i (.poll goal capacity))
  | .look goal capacity (some buffer) =>
    some (.handed i (st.heap buffer) capacity, st.setAct i (.accept goal buffer))
  | .accept goal buffer =>
    if (st.heap buffer).isArrayBacked then
      match goal with
      | .construct => some (.internal i,
          st.setStream i { st.streams i with buffer := some buffer, act := .idle })
      | .skip => some (.internal i, st.setAct i (.skipping buffer))
    else some (.internal i, st.setAct i (.release buffer))
  | .skipping buffer => some (.internal i, st.setAct i (.release buffer))
  | .release buffer =>
    if buffSize ≤ (st.heap buffer).capacity then
      some (.internal i,
        { st with heap := Function.update st.heap buffer (st.heap buffer).clear }.setAct i
          (.add buffer))
    else some (.internal i, st.setAct i .idle)
  | .add buffer =>
    some (.added i, { st with queue := st.queue ++ [some buffer] }.setAct i .idle)

end State

/-- The pool under any interleaving of the operations of streams.  A `close()` that fails
before it sets `isClosed` leaves the stream as it is; one that fails earlier, in the `try` of
the output stream, or later, after the release, gives the buffer back like any other. -/
def machine (ι : Type) [DecidableEq ι] : Machine (State ι) (Input ι) (Event ι) where
  step st
    | .construct i kind =>
      if (st.streams i).buffer = none ∧ (st.streams i).act = .idle then
        some (st.get i .construct kind.size)
      else none
    | .skip i numBytes =>
      if (st.streams i).act = .idle ∧ (st.streams i).buffer ≠ none then
        if (st.streams i).isClosed then some (.threw i (.ioException "Stream closed"), st)
        else if numBytes ≤ 0 then some (.internal i, st)
        else some (st.get i .skip (InputStream.skipBufferLen numBytes).toNat)
      else none
    | .close i fails =>
      if (st.streams i).act = .idle then
        match (st.streams i).buffer, fails with
        | none, _ => none
        | some _, some e => some (.threw i e, st)
        | some buffer, none =>
          if (st.streams i).isClosed then some (.internal i, st)
          else some (.internal i, st.setStream i ⟨some buffer, true, .release buffer⟩)
      else none
    | .next i => st.next i
    | .clear position => some (.cleared, { st with queue := st.queue.set position none })
    | .clearPolled i =>
      match (st.streams i).act with
      | .look goal capacity _ => some (.cleared, st.setAct i (.look goal capacity none))
      | _ => none

variable {ι : Type} [DecidableEq ι]

/-- The pool after a sequence of steps. -/
def after (inputs : List (Input ι)) : State ι := ((machine ι).run State.init inputs).2

/-- The events of a sequence of steps. -/
def events (inputs : List (Input ι)) : List (Event ι) := ((machine ι).run State.init inputs).1

/-- The buffers in the queue whose references are not cleared. -/
def State.queued (st : State ι) : List ℕ := st.queue.reduceOption

/-- The buffers that each stream holds. -/
def State.held (st : State ι) (i : ι) : List ℕ := (st.streams i).held

/-- No buffer is in two places, the ones in use are allocated, and every buffer that was
allocated is as it was then. -/
structure Good (st : State ι) : Prop where
  exclusive : Exclusive st.held st.queued
  held_lt : ∀ i, ∀ buffer ∈ st.held i, buffer < st.allocated
  queued_lt : ∀ buffer ∈ st.queued, buffer < st.allocated
  shape : ∀ buffer < st.allocated, st.heap buffer = allocate buffSize
  sizes : ∀ i, (st.streams i).act.capacity ≤ buffSize

theorem held_setStream (st : State ι) (i : ι) (stream : Stream) :
    (st.setStream i stream).held = Function.update st.held i stream.held := by
  ext j
  by_cases hj : j = i
  · simp [State.held, State.setStream, hj]
  · simp [State.held, State.setStream, hj]

omit [DecidableEq ι] in
theorem good_init : Good (State.init : State ι) where
  exclusive := Exclusive.empty
  held_lt _ _ hbuffer :=
    absurd hbuffer (by simp [State.held, State.init, Stream.held, Stream.own, Act.buffers])
  queued_lt _ hbuffer := absurd hbuffer (by simp [State.queued, State.init, List.reduceOption])
  shape _ hlt := absurd hlt (Nat.not_lt_zero _)
  sizes _ := Nat.zero_le _

namespace Good

variable {st : State ι}

/-- A step that only rearranges the buffers of one stream and of the queue. -/
theorem move (h : Good st) (i : ι) {stream : Stream} {queue : List (Option ℕ)}
    (hsub : (stream.held ++ queue.reduceOption).Subperm (st.held i ++ st.queued))
    (hsize : stream.act.capacity ≤ buffSize) :
    Good ({ st with queue := queue }.setStream i stream) := by
  have hlt : ∀ buffer ∈ stream.held ++ queue.reduceOption, buffer < st.allocated := by
    intro buffer hbuffer
    rcases List.mem_append.mp (hsub.subset hbuffer) with hheld | hqueued
    · exact h.held_lt i buffer hheld
    · exact h.queued_lt buffer hqueued
  constructor
  · rw [held_setStream]
    exact h.exclusive.move_subperm i hsub
  · intro j buffer hbuffer
    rw [held_setStream] at hbuffer
    by_cases hj : j = i
    · rw [hj, Function.update_self] at hbuffer
      exact hlt buffer (List.mem_append_left _ hbuffer)
    · rw [Function.update_of_ne hj] at hbuffer
      exact h.held_lt j buffer hbuffer
  · intro buffer hbuffer
    exact hlt buffer (List.mem_append_right _ hbuffer)
  · exact h.shape
  · intro j
    by_cases hj : j = i
    · simpa [State.setStream, hj] using hsize
    · simpa [State.setStream, hj] using h.sizes j

/-- The same for a step that leaves the buffer of the stream alone. -/
theorem act (h : Good st) (i : ι) {act : Act} {queue : List (Option ℕ)}
    (hsub : (act.buffers ++ queue.reduceOption).Subperm ((st.streams i).act.buffers ++ st.queued))
    (hsize : act.capacity ≤ buffSize) : Good ({ st with queue := queue }.setAct i act) := by
  apply h.move i _ hsize
  show ((st.streams i).own ++ act.buffers ++ _).Subperm
    ((st.streams i).own ++ (st.streams i).act.buffers ++ _)
  rw [List.append_assoc, List.append_assoc, List.subperm_append_left]
  exact hsub

/-- A step that only moves on in the operation. -/
theorem moves (h : Good st) (i : ι) {act : Act}
    (hsub : act.buffers.Subperm (st.streams i).act.buffers) (hsize : act.capacity ≤ buffSize) :
    Good (st.setAct i act) := by
  apply h.act i _ hsize
  exact (List.subperm_append_right _).mpr hsub

omit [DecidableEq ι] in
theorem lt_of_act (h : Good st) (i : ι) {buffer : ℕ}
    (hbuffer : buffer ∈ (st.streams i).act.buffers) :
    buffer < st.allocated :=
  h.held_lt i buffer (List.mem_append_right _ hbuffer)

/-- A new buffer. -/
theorem allocated (h : Good st) (i : ι) {goal : Goal} {capacity : ℕ}
    (hact : (st.streams i).act = .poll goal capacity) :
    Good ({ st with
      heap := Function.update st.heap st.allocated (allocate buffSize)
      allocated := st.allocated + 1 }.setAct i (.accept goal st.allocated)) := by
  have hheld : st.held i = (st.streams i).own := by
    simp [State.held, Stream.held, hact, Act.buffers]
  have hnowhere : Nowhere st.held st.queued st.allocated := by
    constructor
    · intro j hmem
      exact Nat.lt_irrefl _ (h.held_lt j _ hmem)
    · intro hmem
      exact Nat.lt_irrefl _ (h.queued_lt _ hmem)
  constructor
  · rw [State.setAct, held_setStream]
    have hinsert := h.exclusive.insert i hnowhere
    rwa [hheld] at hinsert
  · intro j buffer hbuffer
    rw [State.setAct, held_setStream] at hbuffer
    by_cases hj : j = i
    · rw [hj, Function.update_self] at hbuffer
      rcases List.mem_append.mp hbuffer with hold | hnew
      · have hlt := h.held_lt i buffer (hheld ▸ hold)
        exact Nat.lt_succ_of_lt hlt
      · rw [List.mem_singleton.mp hnew]
        exact Nat.lt_succ_self _
    · rw [Function.update_of_ne hj] at hbuffer
      exact Nat.lt_succ_of_lt (h.held_lt j buffer hbuffer)
  · intro buffer hbuffer
    exact Nat.lt_succ_of_lt (h.queued_lt buffer hbuffer)
  · intro buffer hlt
    by_cases hbuffer : buffer = st.allocated
    · simp [State.setAct, State.setStream, hbuffer]
    · have hold : buffer < st.allocated := Nat.lt_of_le_of_ne (Nat.le_of_lt_succ hlt) hbuffer
      simpa [State.setAct, State.setStream, hbuffer] using h.shape buffer hold
  · intro j
    by_cases hj : j = i
    · simp [State.setAct, State.setStream, hj, Act.capacity]
    · simpa [State.setAct, State.setStream, hj] using h.sizes j

end Good

/-- A reference that is cleared. -/
theorem reduceOption_set_sublist (queue : List (Option ℕ)) (position : ℕ) :
    (queue.set position none).reduceOption.Sublist queue.reduceOption := by
  induction queue generalizing position with
  | nil => exact List.Sublist.refl _
  | cons reference rest ih =>
      cases position with
      | zero =>
          cases reference with
          | none => exact List.Sublist.refl _
          | some buffer => exact List.sublist_cons_self _ _
      | succ position =>
          cases reference with
          | none => exact ih position
          | some buffer => exact (ih position).cons_cons buffer

/-- What a buffer that is handed out looks like: it has an array and no offset, is as large as
requested, and is all free. -/
def Event.Fine : Event ι → Prop
  | .handed _ buffer capacity => buffer.hasArray = true ∧ buffer.arrayOffset = 0 ∧
      capacity ≤ buffer.capacity ∧ buffer.position = 0 ∧ buffer.limit = buffer.capacity
  | _ => True

omit [DecidableEq ι] in
theorem fine_handed (i : ι) {capacity : ℕ} (hsize : capacity ≤ buffSize) :
    (Event.handed i (allocate buffSize) capacity).Fine :=
  ⟨rfl, rfl, hsize, rfl, rfl⟩

/-- The number of references that a step takes from the queue. -/
def Event.taken : Event ι → ℕ
  | .polled _ => 1
  | _ => 0

/-- The number of references that a step adds to the queue. -/
def Event.put : Event ι → ℕ
  | .added _ => 1
  | _ => 0

/-- What a step keeps, and what it shows. -/
structure Steps (st : State ι) (event : Event ι) (next : State ι) : Prop where
  good : Good next
  fine : event.Fine
  length : next.queue.length + event.taken = st.queue.length + event.put

variable {st next : State ι} {event : Event ι} {i : ι}

theorem get_steps (h : Good st) {goal : Goal} {capacity : ℕ} (hact : (st.streams i).act = .idle) :
    Steps st (st.get i goal capacity).1 (st.get i goal capacity).2 := by
  unfold State.get
  split
  · exact ⟨h, trivial, rfl⟩
  · next hsize =>
      refine ⟨h.moves i ?_ (Nat.le_of_not_lt hsize), trivial, rfl⟩
      simp [hact, Act.buffers]

theorem next_steps (h : Good st) (hnext : st.next i = some (event, next)) :
    Steps st event next := by
  have hsizes := h.sizes i
  unfold State.next at hnext
  split at hnext
  · cases hnext
  · next goal capacity hact =>
      rw [hact] at hsizes
      split at hnext
      · cases hnext
        exact ⟨h.allocated i hact, fine_handed i hsizes, rfl⟩
      · next reference rest hqueue =>
          cases hnext
          refine ⟨h.act i ?_ hsizes, trivial, ?_⟩
          · rw [hact, State.queued, hqueue]
            cases reference with
            | none => exact List.Subperm.refl _
            | some buffer => exact List.Subperm.refl _
          · simp [State.setAct, State.setStream, Event.taken, Event.put, hqueue]
  · next goal capacity hact =>
      rw [hact] at hsizes
      cases hnext
      refine ⟨h.moves i ?_ hsizes, trivial, rfl⟩
      simp [hact, Act.buffers]
  · next goal capacity buffer hact =>
      rw [hact] at hsizes
      cases hnext
      have hlt : buffer < st.allocated := h.lt_of_act i (by simp [hact, Act.buffers])
      refine ⟨h.moves i ?_ (Nat.zero_le _), ?_, rfl⟩
      · simp [hact, Act.buffers]
      · rw [h.shape buffer hlt]
        exact fine_handed i hsizes
  · next goal buffer hact =>
      split at hnext
      · cases goal with
        | construct =>
            cases hnext
            refine ⟨h.move i ((List.subperm_append_right _).mpr ?_) (Nat.zero_le _), trivial, rfl⟩
            simp only [State.held, Stream.held, hact, Act.buffers, List.append_nil]
            apply List.Sublist.subperm
            unfold Stream.own
            split
            · exact List.nil_sublist _
            · exact List.sublist_append_right _ _
        | skip =>
            cases hnext
            refine ⟨h.moves i ?_ (Nat.zero_le _), trivial, rfl⟩
            simp [hact, Act.buffers]
      · cases hnext
        refine ⟨h.moves i ?_ (Nat.zero_le _), trivial, rfl⟩
        simp [hact, Act.buffers]
  · next buffer hact =>
      cases hnext
      refine ⟨h.moves i ?_ (Nat.zero_le _), trivial, rfl⟩
      simp [hact, Act.buffers]
  · next buffer hact =>
      split at hnext
      · cases hnext
        have hlt : buffer < st.allocated := h.lt_of_act i (by simp [hact, Act.buffers])
        have hheap : Function.update st.heap buffer (st.heap buffer).clear = st.heap := by
          ext other
          by_cases hother : other = buffer
          · rw [hother, Function.update_self, h.shape buffer hlt]
            rfl
          · rw [Function.update_of_ne hother]
        rw [hheap]
        refine ⟨h.moves i ?_ (Nat.zero_le _), trivial, rfl⟩
        simp [hact, Act.buffers]
      · cases hnext
        refine ⟨h.moves i ?_ (Nat.zero_le _), trivial, rfl⟩
        simp [Act.buffers]
  · next buffer hact =>
      cases hnext
      refine ⟨h.act i ?_ (Nat.zero_le _), trivial, ?_⟩
      · rw [hact, List.reduceOption_append]
        have hperm : (st.queued ++ [buffer]).Perm ([buffer] ++ st.queued) := List.perm_append_comm
        exact hperm.subperm
      · simp [State.setAct, State.setStream, Event.taken, Event.put]

/-- Every step of the machine. -/
theorem step_steps {input : Input ι} (h : Good st)
    (hstep : (machine ι).step st input = some (event, next)) : Steps st event next := by
  have hstays : ∀ {event : Event ι}, event.Fine → event.taken = 0 → event.put = 0 →
      Steps st event st := fun hfine htaken hput => ⟨h, hfine, by rw [htaken, hput]⟩
  cases input with
  | construct i kind =>
      simp only [machine] at hstep
      split at hstep
      · next hidle =>
          obtain ⟨rfl, rfl⟩ := Prod.ext_iff.mp (Option.some.inj hstep)
          exact get_steps h hidle.2
      · cases hstep
  | skip i numBytes =>
      simp only [machine] at hstep
      split at hstep
      · next hidle =>
          split at hstep
          · cases hstep
            exact hstays trivial rfl rfl
          · split at hstep
            · cases hstep
              exact hstays trivial rfl rfl
            · obtain ⟨rfl, rfl⟩ := Prod.ext_iff.mp (Option.some.inj hstep)
              exact get_steps h hidle.1
      · cases hstep
  | close i fails =>
      simp only [machine] at hstep
      split at hstep
      · next hidle =>
          split at hstep
          · cases hstep
          · cases hstep
            exact hstays trivial rfl rfl
          · next buffer hbuffer =>
              split at hstep
              · cases hstep
                exact hstays trivial rfl rfl
              · next hopen =>
                  cases hstep
                  refine ⟨h.move i ((List.subperm_append_right _).mpr ?_) (Nat.zero_le _),
                    trivial, rfl⟩
                  simp [State.held, Stream.held, Stream.own, Act.buffers, hidle, hbuffer, hopen]
      · cases hstep
  | next i => exact next_steps h hstep
  | clear position =>
      cases hstep
      refine ⟨⟨h.exclusive.shrink ?_, h.held_lt, ?_, h.shape, h.sizes⟩, trivial, ?_⟩
      · exact reduceOption_set_sublist _ _
      · intro buffer hbuffer
        exact h.queued_lt buffer ((reduceOption_set_sublist _ _).subset hbuffer)
      · simp [Event.taken, Event.put]
  | clearPolled i =>
      have hsizes := h.sizes i
      simp only [machine] at hstep
      split at hstep
      · next goal capacity reference hact =>
          rw [hact] at hsizes
          cases hstep
          refine ⟨h.moves i ?_ hsizes, trivial, rfl⟩
          simp [Act.buffers]
      · cases hstep

/-- The stream is in the loop of `get`. -/
def InGet (stream : Stream) : Prop :=
  (∃ goal capacity, stream.act = .poll goal capacity) ∨
    ∃ goal capacity reference, stream.act = .look goal capacity reference

/-- A stream that is handed a buffer within some steps of its own. -/
def HandedAlone (st : State ι) (i : ι) : Prop :=
  ∃ count goal buffer,
    (((machine ι).run st (List.replicate count (.next i))).2.streams i).act = .accept goal buffer

theorem handedAlone_of_accept {goal : Goal} {buffer : ℕ}
    (hact : (st.streams i).act = .accept goal buffer) : HandedAlone st i :=
  ⟨0, goal, buffer, hact⟩

theorem HandedAlone.of_next (hnext : st.next i = some (event, next)) (h : HandedAlone next i) :
    HandedAlone st i := by
  obtain ⟨count, goal, buffer, hact⟩ := h
  have hstep : (machine ι).step st (.next i) = some (event, next) := hnext
  refine ⟨count + 1, goal, buffer, ?_⟩
  rw [List.replicate_succ, Machine.run_snd_cons hstep]
  exact hact

theorem setAct_act (st : State ι) (i : ι) (act : Act) :
    ((st.setAct i act).streams i).act = act := by
  simp [State.setAct, State.setStream]

/-- The loop of `get`, left to itself: every turn takes a reference from the queue. -/
theorem poll_ends (queue : List (Option ℕ)) {st : State ι} {goal : Goal} {capacity : ℕ}
    (hqueue : st.queue = queue) (hact : (st.streams i).act = .poll goal capacity) :
    HandedAlone st i := by
  induction queue generalizing st with
  | nil =>
      have hnext : st.next i = some (.handed i (allocate buffSize) capacity,
          { st with
            heap := Function.update st.heap st.allocated (allocate buffSize)
            allocated := st.allocated + 1 }.setAct i (.accept goal st.allocated)) := by
        rw [State.next, hact]
        simp only [hqueue]
      apply HandedAlone.of_next hnext
      exact handedAlone_of_accept (setAct_act _ i _)
  | cons reference rest ih =>
      have hnext : st.next i = some (.polled i,
          { st with queue := rest }.setAct i (.look goal capacity reference)) := by
        rw [State.next, hact]
        simp only [hqueue]
      apply HandedAlone.of_next hnext
      generalize hlooking :
        { st with queue := rest }.setAct i (.look goal capacity reference) = looking
      have hlook : (looking.streams i).act = .look goal capacity reference := by
        rw [← hlooking, setAct_act]
      have hrest : looking.queue = rest := by
        rw [← hlooking]
        rfl
      cases reference with
      | none =>
          have hback : looking.next i =
              some (.internal i, looking.setAct i (.poll goal capacity)) := by
            rw [State.next, hlook]
          exact HandedAlone.of_next hback (ih hrest (setAct_act _ i _))
      | some buffer =>
          have hhanded : looking.next i = some (.handed i (looking.heap buffer) capacity,
              looking.setAct i (.accept goal buffer)) := by
            rw [State.next, hlook]
          exact HandedAlone.of_next hhanded (handedAlone_of_accept (setAct_act _ i _))

/-- The loop of `get`, left to itself, is handed a buffer. -/
theorem get_ends (st : State ι) (i : ι) (hget : InGet (st.streams i)) : HandedAlone st i := by
  rcases hget with ⟨goal, capacity, hact⟩ | ⟨goal, capacity, reference, hact⟩
  · exact poll_ends st.queue rfl hact
  · cases reference with
    | none =>
        have hback : st.next i = some (.internal i, st.setAct i (.poll goal capacity)) := by
          rw [State.next, hact]
        exact HandedAlone.of_next hback (poll_ends _ rfl (setAct_act _ i _))
    | some buffer =>
        have hhanded : st.next i = some (.handed i (st.heap buffer) capacity,
            st.setAct i (.accept goal buffer)) := by
          rw [State.next, hact]
        exact HandedAlone.of_next hhanded (handedAlone_of_accept (setAct_act _ i _))

/-- For every interleaving: each buffer is queued at most once and held by nobody, or held by
one stream, once; every buffer that is handed out is good for the request; and `get` takes no
more turns than references were added, and ends when it is left to itself. -/
theorem buffers_not_shared (inputs : List (Input ι)) :
    Exclusive (after inputs).held (after inputs).queued ∧
    (∀ event ∈ events inputs, event.Fine) ∧
    ((events inputs).map Event.taken).sum ≤ ((events inputs).map Event.put).sum ∧
    ∀ i, InGet ((after inputs).streams i) → HandedAlone (after inputs) i := by
  have hrun := Machine.run_inv (M := machine ι)
    (fun events st => Good st ∧ (∀ event ∈ events, event.Fine) ∧
      st.queue.length + (events.map Event.taken).sum = (events.map Event.put).sum)
    (s := State.init) ?_ ⟨good_init, by simp, by simp [State.init]⟩ inputs
  · obtain ⟨hgood, hfine, hcount⟩ := hrun
    refine ⟨hgood.exclusive, hfine, ?_, fun i => get_ends _ i⟩
    exact Nat.le.intro ((Nat.add_comm _ _).trans hcount)
  · rintro events st input event next ⟨hgood, hfine, hcount⟩ hstep
    have hsteps := step_steps hgood hstep
    refine ⟨hsteps.good, ?_, ?_⟩
    · intro other hother
      rcases List.mem_append.mp hother with hold | hnew
      · exact hfine other hold
      · rw [List.mem_singleton.mp hnew]
        exact hsteps.fine
    · have hlength := hsteps.length
      simp only [List.map_append, List.sum_append, List.map_singleton, List.sum_singleton]
      omega

end ZstdJni.Pool.Recycling
