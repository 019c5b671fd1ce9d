/-
# The capacity of buffers from a pool

Native code is told the recommended size of a buffer and not the length of the array that
is there.  `getArrayBackedBuffer` tests what it gets for an array and for its offset, but
not for its length.  So a buffer that a pool hands out too small is accepted, and the
native calls may write behind its end; one that is large enough stays so for every call.
-/

import ZstdJni.Foundation.Watch
import ZstdJni.InputStream.Stable
import ZstdJni.OutputStream.CloseParent
import ZstdJni.Pool.Model

namespace ZstdJni.Pool

open ZstdJni.Foundation ZstdJni.Native

variable {σ : Type}

/-- A buffer that passes the test of `getArrayBackedBuffer` is as large as was requested. -/
def Answer.Suffices (size : ℤ) (answer : Answer) : Prop :=
  ∀ buffer, answer = .buffer buffer → buffer.isArrayBacked = true → size ≤ buffer.array.length

/-- A request fails, or what it accepts is as large as requested and used as `used` says. -/
def Accepts (size : ℤ) (accepted : Outcome Buffer) (used : Buffer → Prop) : Prop :=
  ∀ buffer, accepted = .returned buffer → size ≤ buffer.array.length ∧ used buffer

theorem accepts_iff {size : ℤ} {answer : Answer} {release : Outcome Unit} {used : Buffer → Prop}
    (hused : ∀ buffer, size ≤ buffer.array.length → used buffer) :
    Accepts size (getArrayBackedBuffer size answer release).1 used ↔ answer.Suffices size := by
  constructor
  · intro haccepts buffer hanswer hbacked
    exact (haccepts buffer (getArrayBackedBuffer_eq_returned_iff.mpr ⟨hanswer, hbacked⟩)).1
  · intro hsuffices buffer hreturned
    obtain ⟨hanswer, hbacked⟩ := getArrayBackedBuffer_eq_returned_iff.mp hreturned
    have hsize := hsuffices buffer hanswer hbacked
    exact ⟨hsize, hused buffer hsize⟩

section Output

open ZstdJni.OutputStream

variable {E : Encoder σ Setting Byte Byte}

/-- Every native call was told the recommended size. -/
def Recommended (st : OutputStream.State (σ × List ℕ)) : Prop :=
  ∀ size ∈ st.stream.2, size = dstSize

theorem Recommended.called {st next : OutputStream.State (σ × List ℕ)} (h : Recommended st)
    (hnext : next.stream.2 = st.stream.2 ++ [dstSize]) : Recommended next := by
  intro size hsize
  rw [hnext, List.mem_append, List.mem_singleton] at hsize
  rcases hsize with hold | hnew
  · exact h size hold
  · exact hnew

theorem recommended_stable : Stable E.measured Recommended where
  reset _ h := h
  compress _ _ _ h := h.called rfl
  drain _ _ h := h.called rfl
  configure _ _ h := h
  writeOut _ h := h
  flushOut _ h := h
  assign _ _ _ _ _ h := h

/-- A call on a stream, with the record beside the native stream. -/
def measuredCall : OutputStream.Call σ → OutputStream.Call (σ × List ℕ)
  | .use (.op op) fuel => .use (.op op) fuel
  | .use (.setDict acquired load) fuel =>
    .use (.setDict acquired fun s => (((load s.1).1, s.2), (load s.1).2)) fuel
  | .close closeParentStream fuel => .close closeParentStream fuel

/-- In every run every native call is told the recommended size. -/
theorem run_recommended {st : OutputStream.State (σ × List ℕ)} (hst : Recommended st)
    (calls : List (OutputStream.Call σ)) :
    Recommended ((OutputStream.machine E.measured).run st (calls.map measuredCall)).2 := by
  have hmeasured : ∀ call ∈ calls.map measuredCall, ∃ plain : OutputStream.Call σ,
      call = measuredCall plain := fun call hmem => by
    obtain ⟨plain, -, hplain⟩ := List.mem_map.mp hmem
    exact ⟨plain, hplain.symm⟩
  apply Machine.run_state_inv_of_allSteps Recommended _ hst
    (Machine.allSteps_of_forall hmeasured st)
  rintro st - event next hinv ⟨call, rfl⟩ hstep
  cases call with
  | use use fuel =>
      cases use with
      | op op =>
          obtain ⟨ended, hrun, heq⟩ := Option.map_eq_some_iff.mp hstep
          obtain rfl := congrArg Prod.snd heq
          exact recommended_stable.op_inv hinv hrun
      | setDict acquired load =>
          obtain rfl := congrArg Prod.snd (Option.some.inj hstep)
          rcases OutputStream.setDict_self acquired
            (fun s => (((load s.1).1, s.2), (load s.1).2)) st with hself | ⟨-, hself⟩
          · simp only [hself]
            exact hinv
          · simp only [hself]
            exact hinv
  | close closeParentStream fuel =>
      obtain ⟨ended, hrun, heq⟩ := Option.map_eq_some_iff.mp hstep
      obtain rfl := congrArg Prod.snd heq
      apply recommended_stable.close_inv _ (fun _ h => h) hinv hrun
      intro closeParentStream st h
      unfold closeParent
      split
      · exact h
      · exact h

/-- In every run of an output stream with this array, every size that a native call is told
is at most the length of the array. -/
def OutputUses (E : Encoder σ Setting Byte Byte) (stream : σ) (out : Sink) (buffer : Buffer) :
    Prop :=
  ∀ (calls : List (OutputStream.Call σ)),
    ∀ size ∈ ((OutputStream.machine E.measured).run
      (OutputStream.State.create (stream, []) out buffer.array)
      (calls.map measuredCall)).2.stream.2,
      size ≤ buffer.array.length

theorem outputUses_of_le (stream : σ) (out : Sink) {buffer : Buffer}
    (hsize : (dstSize : ℤ) ≤ buffer.array.length) : OutputUses E stream out buffer := by
  intro calls size hmem
  have hstart : Recommended (OutputStream.State.create (stream, ([] : List ℕ)) out buffer.array) :=
    fun _ h => nomatch h
  rw [run_recommended hstart calls size hmem]
  omega

end Output

section Input

open ZstdJni.InputStream

variable {D : Decoder σ Byte Byte} {fuel : ℕ} {dst : List Byte} {offset len : ℤ}

/-- No answer of a wrapped stream is longer than what was asked for. -/
def Obeys (up : Upstream) : Prop := ∀ chunk, some chunk ∈ up.script → chunk.length ≤ srcBuffSize

theorem Obeys.read {up : Upstream} (h : Obeys up) :
    Obeys up.read.2 ∧ ∀ chunk, up.read.1 = some chunk → chunk.length ≤ srcBuffSize := by
  unfold Upstream.read
  cases hscript : up.script with
  | nil => exact ⟨h, fun _ hchunk => nomatch hchunk⟩
  | cons answer rest =>
      constructor
      · intro chunk hchunk
        apply h
        rw [hscript]
        exact List.mem_cons_of_mem _ hchunk
      · intro chunk hchunk
        apply h
        rw [hscript, show answer = some chunk from hchunk]
        exact List.mem_cons_self

/-- The object at the native call of a turn of the loop in `readInternal`, if there is one. -/
def atNative (offset dstSize : ℕ) (st : ReadState σ) : Option (InputStream.State σ) :=
  if st.self.dstPos < dstSize ∧ st.lastDstPos < st.self.dstPos then
    if st.self.needRead then
      let (available, up) := st.self.upstream.available
      if 0 < available ∨ st.self.dstPos = offset then
        match fetch offset { st.self with upstream := up } with
        | .filled self => some self
        | _ => none
      else some { st.self with upstream := up }
    else some st.self
  else none

/-- A turn without a native call does not depend on the decompressor, and one with a native
call is what follows on it. -/
theorem readTurn_atNative (offset dstSize : ℕ) (st : ReadState σ) :
    match atNative offset dstSize st with
    | none => ∀ D D' : Decoder σ Byte Byte, readTurn D offset dstSize st =
      readTurn D' offset dstSize st
    | some self => ∀ D : Decoder σ Byte Byte,
        readTurn D offset dstSize st = decodeTurn D offset dstSize self st.dst := by
  unfold atNative readTurn
  by_cases hguard : st.self.dstPos < dstSize ∧ st.lastDstPos < st.self.dstPos
  · simp only [if_pos hguard]
    by_cases hneed : st.self.needRead = true
    · simp only [if_pos hneed]
      by_cases hasks : 0 < st.self.upstream.available.1 ∨ st.self.dstPos = offset
      · simp only [if_pos hasks]
        cases fetch offset { st.self with upstream := st.self.upstream.available.2 } with
        | ended outcome next => exact fun _ _ => rfl
        | empty next => exact fun _ _ => rfl
        | filled next => exact fun _ => rfl
      · simp only [if_neg hasks]
        exact fun _ => trivial
    · simp only [if_neg hneed]
      exact fun _ => trivial
  · simp only [if_neg hguard]
    exact fun _ _ => trivial

/-- The loop of `read`, called on an object, comes to a turn of the loop in `readInternal`. -/
def Takes (D : Decoder σ Byte Byte) (fuel : ℕ) (dst : List Byte) (offset len : ℤ)
    (self : InputStream.State σ) (st : ReadState σ) : Prop :=
  ∃ mid, Visits (retryBody D fuel offset len) ⟨.returned 0, dst, self⟩ mid ∧
    mid.outcome = .returned 0 ∧ mid.self.isClosed = false ∧
    outOfBounds mid.dst offset len = false ∧
    Visits (readBody D offset.toNat (offset + len).toNat)
      (readStart mid.self mid.dst offset.toNat) st

/-- `skip`, called on an open object with an array, comes to a call of `read`. -/
def Skips (D : Decoder σ Byte Byte) (fuel : ℕ) (data : List Byte) (numBytes : ℤ)
    (self : InputStream.State σ) (st : SkipState σ) : Prop :=
  Visits (skipTurn D fuel numBytes) ⟨numBytes, data, self⟩ st ∧ 0 < st.toSkip

/-- The length that `skip` passes to `read`. -/
def skipLen (numBytes : ℤ) (st : SkipState σ) : ℤ := min (skipBufferLen numBytes) st.toSkip

/-- The states that a run of an input stream comes to between its calls.  A call may be cut
off by an exception of the wrapped stream. -/
inductive Reached (D : Decoder σ Byte Byte) (start : InputStream.State σ) :
    InputStream.State σ → Prop
  | start : Reached D start start
  | call {self : InputStream.State σ} {ended : InputStream.Ended σ} (h : Reached D start self)
      (call : InputStream.Call) (fuel : ℕ) (hrun : call.run D fuel self = some ended) :
      Reached D start ended.self
  | cutRead {self : InputStream.State σ} {st : ReadState σ} (h : Reached D start self) (fuel : ℕ)
      (dst : List Byte) (offset len : ℤ) (htakes : Takes D fuel dst offset len self st)
      (up : Upstream) (hup : Obeys up) : Reached D start { st.self with upstream := up }
  | cutSkip {self : InputStream.State σ} {sk : SkipState σ} {st : ReadState σ}
      (h : Reached D start self) (fuel : ℕ) (data : List Byte) (numBytes : ℤ)
      (hskips : Skips D fuel data numBytes self sk)
      (htakes : Takes D fuel sk.data 0 (skipLen numBytes sk) sk.self st)
      (up : Upstream) (hup : Obeys up) : Reached D start { st.self with upstream := up }
  | setContinuous {self : InputStream.State σ} (h : Reached D start self) (b : Bool) :
      Reached D start (self.setContinuous b)
  | set {self : InputStream.State σ} (h : Reached D start self) (acquired : Outcome Unit)
      (configure : σ → σ × ℕ) : Reached D start (self.set acquired configure).2
  | available {self : InputStream.State σ} (h : Reached D start self) :
      Reached D start { self with upstream := self.upstream.available.2 }
  | close {self : InputStream.State σ} (h : Reached D start self) :
      Reached D start { self with isClosed := true }

/-- A call of an input stream makes a native call on the object `called`. -/
inductive Decompresses (D : Decoder σ Byte Byte) (self called : InputStream.State σ) : Prop
  | read (fuel : ℕ) (dst : List Byte) (offset len : ℤ) {st : ReadState σ}
      (htakes : Takes D fuel dst offset len self st)
      (hcalled : atNative offset.toNat (offset + len).toNat st = some called)
  | skip (fuel : ℕ) (data : List Byte) (numBytes : ℤ) {sk : SkipState σ} {st : ReadState σ}
      (hskips : Skips D fuel data numBytes self sk)
      (htakes : Takes D fuel sk.data 0 (skipLen numBytes sk) sk.self st)
      (hcalled : atNative 0 (skipLen numBytes sk).toNat st = some called)

/-- Between two calls the source buffer holds no more than was asked for, unless it is filled
before it is looked at. -/
def Fits (self : InputStream.State σ) : Prop :=
  Obeys self.upstream ∧ (self.needRead = true ∨ self.srcSize ≤ srcBuffSize)

/-- The same inside a call, where only the first turn is sure to read. -/
def FitsTurn (offset : ℕ) (st : ReadState σ) : Prop :=
  Obeys st.self.upstream ∧
    ((st.self.needRead = true ∧ st.self.dstPos = offset) ∨ st.self.srcSize ≤ srcBuffSize)

theorem FitsTurn.fits {offset : ℕ} {st : ReadState σ} (h : FitsTurn offset st) : Fits st.self :=
  ⟨h.1, h.2.imp_left And.left⟩

theorem Fits.start {self : InputStream.State σ} (h : Fits self) (dst : List Byte) (offset : ℕ) :
    FitsTurn offset (readStart self dst offset) :=
  ⟨h.1, h.2.imp_left fun hneed => ⟨hneed, rfl⟩⟩

theorem decodeTurn_fits (offset dstSize : ℕ) {self : InputStream.State σ} (dst : List Byte)
    (hup : Obeys self.upstream) (hsize : self.srcSize ≤ srcBuffSize) :
    (decodeTurn D offset dstSize self dst).Meets (FitsTurn offset)
    (fun ended => Fits ended.self) := by
  unfold decodeTurn
  simp only
  split
  · exact ⟨hup, Or.inr hsize⟩
  · split
    · exact ⟨hup, Or.inr hsize⟩
    · exact ⟨hup, Or.inr hsize⟩

/-- Reading from the wrapped stream.  The end of input in continuous mode is the one case in
which `srcSize` is not the size of what is in the buffer. -/
theorem fetch_fits (offset : ℕ) (self : InputStream.State σ) (hup : Obeys self.upstream)
    (hneed : self.needRead = true) :
    match fetch offset self with
    | .ended _ next => Fits next
    | .empty next => Obeys next.upstream ∧ next.srcSize ≤ srcBuffSize
    | .filled next => Obeys next.upstream ∧ next.srcSize ≤ srcBuffSize := by
  obtain ⟨hrest, hchunk⟩ := hup.read
  unfold fetch
  rcases hread : self.upstream.read with ⟨answer, up⟩
  rw [hread] at hrest hchunk
  match answer with
  | none =>
      simp only
      split_ifs
      · exact ⟨hrest, Or.inl hneed⟩
      · exact ⟨hrest, Or.inl hneed⟩
      · exact ⟨hrest, Or.inl hneed⟩
      · exact ⟨hrest, Or.inl hneed⟩
  | some [] => exact ⟨hrest, Nat.zero_le _⟩
  | some (byte :: chunk) => exact ⟨hrest, hchunk _ rfl⟩

/-- One turn of the loop in `readInternal`: its native call, and what it leaves. -/
theorem readTurn_fits (offset dstSize : ℕ) {st : ReadState σ} (h : FitsTurn offset st) :
    (∀ called, atNative offset dstSize st = some called → called.srcSize ≤ srcBuffSize) ∧
    (readTurn D offset dstSize st).Meets (FitsTurn offset) (fun ended => Fits ended.self) := by
  obtain ⟨hup, hsize⟩ := h
  unfold atNative readTurn
  by_cases hguard : st.self.dstPos < dstSize ∧ st.lastDstPos < st.self.dstPos
  · rw [if_pos hguard, if_pos hguard]
    cases hneed : st.self.needRead with
    | false =>
        have hfilled : st.self.srcSize ≤ srcBuffSize := by simpa [hneed] using hsize
        simp only [Bool.false_eq_true, if_false]
        refine ⟨?_, decodeTurn_fits offset dstSize st.dst hup hfilled⟩
        rintro called ⟨⟩
        exact hfilled
    | true =>
        simp only [if_true]
        have hfetch := fetch_fits offset
          { st.self with upstream := st.self.upstream.available.2 } hup hneed
        split_ifs with hasks
        · cases hresult : fetch offset
            { st.self with upstream := st.self.upstream.available.2 } with
          | ended outcome next =>
              rw [hresult] at hfetch
              exact ⟨nofun, hfetch⟩
          | empty next =>
              rw [hresult] at hfetch
              exact ⟨nofun, hfetch.1, Or.inr hfetch.2⟩
          | filled next =>
              rw [hresult] at hfetch
              refine ⟨?_, decodeTurn_fits offset dstSize st.dst hfetch.1 hfetch.2⟩
              rintro called ⟨⟩
              exact hfetch.2
        · have hfilled : st.self.srcSize ≤ srcBuffSize := by
            rcases hsize with ⟨-, hpos⟩ | hsize
            · exact absurd (Or.inr hpos) hasks
            · exact hsize
          refine ⟨?_, decodeTurn_fits offset dstSize st.dst hup hfilled⟩
          rintro called ⟨⟩
          exact hfilled
  · rw [if_neg hguard, if_neg hguard]
    exact ⟨nofun, hup, hsize.imp_left And.left⟩

theorem fits_stable : InputStream.Stable D Fits FitsTurn where
  start _ dst offset h := h.start dst offset
  turn offset dstSize _ h := (readTurn_fits offset dstSize h).2

theorem retry_fits {start st : InputStream.Ended σ} (h : Fits start.self)
    (hvisits : Visits (retryBody D fuel offset len) start st) : Fits st.self := by
  apply hvisits.inv (fun st => Fits st.self) h
  intro state next hstate hturn
  exact fits_stable.retryBody_meets hstate hturn

theorem Takes.fits {self : InputStream.State σ} {st : ReadState σ}
    (htakes : Takes D fuel dst offset len self st) (h : Fits self) : FitsTurn offset.toNat st := by
  obtain ⟨mid, hmid, -, -, -, hst⟩ := htakes
  have hfits : Fits mid.self := retry_fits h hmid
  apply hst.inv (FitsTurn offset.toNat) (hfits.start mid.dst offset.toNat)
  intro state next hstate hturn
  have hmeets := (readTurn_fits (D := D) offset.toNat (offset + len).toNat hstate).2
  rwa [Option.some.inj hturn] at hmeets

theorem Skips.fits {data : List Byte} {numBytes : ℤ} {self : InputStream.State σ} {st : SkipState σ}
    (hskips : Skips D fuel data numBytes self st) (h : Fits self) : Fits st.self := by
  apply hskips.1.inv (fun st => Fits st.self) h
  intro state next hstate hturn
  exact fits_stable.skipTurn_meets hstate hturn

/-- Every state that a run comes to. -/
theorem Reached.fits {start self : InputStream.State σ} (hreached : Reached D start self)
    (h : Fits start) : Fits self := by
  induction hreached with
  | start => exact h
  | call _ call fuel hrun ih => exact fits_stable.call_inv ih hrun
  | cutRead _ fuel dst offset len htakes up hup ih => exact ⟨hup, (htakes.fits ih).fits.2⟩
  | cutSkip _ fuel data numBytes hskips htakes up hup ih =>
      exact ⟨hup, (htakes.fits (hskips.fits ih)).fits.2⟩
  | setContinuous _ b ih => exact ih
  | @set self _ acquired configure ih =>
      obtain ⟨stream, hself, -⟩ := InputStream.set_self acquired configure self
      rw [hself]
      exact ih
  | available _ ih => exact ih
  | close _ ih => exact ih

theorem Decompresses.srcSize_le {self called : InputStream.State σ}
    (hcalls : Decompresses D self called) (h : Fits self) : called.srcSize ≤ srcBuffSize := by
  cases hcalls with
  | read fuel dst offset len htakes hcalled =>
      exact (readTurn_fits (D := D) _ _ (htakes.fits h)).1 called hcalled
  | skip fuel data numBytes hskips htakes hcalled =>
      exact (readTurn_fits (D := D) _ _ (htakes.fits (hskips.fits h))).1 called hcalled

/-- In every run of an input stream with this array, every size that a native call is told is
at most the length of the array. -/
def InputUses (D : Decoder σ Byte Byte) (stream : σ) (upstream : Upstream) (buffer : Buffer) :
    Prop :=
  ∀ self called,
    Reached D { InputStream.State.create stream upstream with src := buffer.array } self →
    Decompresses D self called → called.srcSize ≤ buffer.array.length

theorem inputUses_of_le (stream : σ) {upstream : Upstream} (hup : Obeys upstream) {buffer : Buffer}
    (hsize : (srcBuffSize : ℤ) ≤ buffer.array.length) : InputUses D stream upstream buffer := by
  intro self called hreached hcalls
  have hle := hcalls.srcSize_le (hreached.fits ⟨hup, Or.inl rfl⟩)
  omega

/-- Every window that `skip` passes to `read` lies inside of the array it has borrowed. -/
def SkipUses (D : Decoder σ Byte Byte) (numBytes : ℤ) (self : InputStream.State σ)
    (buffer : Buffer) : Prop :=
  ∀ fuel st, Skips D fuel buffer.array numBytes self st →
    0 ≤ skipLen numBytes st ∧ skipLen numBytes st ≤ buffer.array.length

theorem skipUses_of_le {numBytes : ℤ} (hpos : 0 < numBytes) (self : InputStream.State σ)
    {buffer : Buffer} (hsize : skipBufferLen numBytes ≤ buffer.array.length) :
    SkipUses D numBytes self buffer := by
  intro fuel st hskips
  have htoSkip := hskips.2
  unfold skipLen
  unfold skipBufferLen at hsize ⊢
  omega

end Input

section Requests

variable (E : Encoder σ Setting Byte Byte) (D : Decoder σ Byte Byte)

/-- A request to a pool: by the constructor of an output stream, by the one of an input
stream, or by a call of `skip` on one.  The wrapped streams do not return more than they
are asked for. -/
inductive Request (σ : Type)
  | output (stream : σ) (out : OutputStream.Sink)
  | input (stream : σ) (upstream : InputStream.Upstream) (hobeys : Obeys upstream)
  | skip (self : InputStream.State σ) (numBytes : ℤ) (hpos : 0 < numBytes)

namespace Request

/-- The size that is requested. -/
def size : Request σ → ℤ
  | output _ _ => OutputStream.dstSize
  | input _ _ _ => InputStream.srcBuffSize
  | skip _ numBytes _ => InputStream.skipBufferLen numBytes

/-- What the buffer has to be good for. -/
def Uses : Request σ → Buffer → Prop
  | output stream out => OutputUses E stream out
  | input stream upstream _ => InputUses D stream upstream
  | skip self numBytes _ => SkipUses D numBytes self

end Request

/-- A request is safe, whatever happens later, exactly if the pool does not hand out an array
with no offset that is shorter than requested. -/
theorem buffer_accepted_iff (request : Request σ) (answer : Answer) (release : Outcome Unit) :
    Accepts request.size (getArrayBackedBuffer request.size answer release).1 (request.Uses E D) ↔
      answer.Suffices request.size := by
  apply accepts_iff
  intro buffer hsize
  cases request with
  | output stream out => exact outputUses_of_le stream out hsize
  | input stream upstream hobeys => exact inputUses_of_le stream hobeys hsize
  | skip self numBytes hpos => exact skipUses_of_le hpos self hsize

end Requests

/-- A buffer of ten bytes is accepted by the constructor of the output stream, and the native
call behind the first `close()` is told that it may write more than that. -/
theorem small_buffer_accepted :
    ¬ Accepts OutputStream.dstSize (getArrayBackedBuffer OutputStream.dstSize
        (.buffer ⟨true, 0, List.replicate 10 0⟩) (.returned ())).1
        (OutputUses OutputStream.oneByte () ⟨[], 0, 0, []⟩) ∧
    ¬ OutputUses OutputStream.oneByte () ⟨[], 0, 0, []⟩ ⟨true, 0, List.replicate 10 0⟩ := by
  constructor
  · intro haccepts
    have hsize := (haccepts _ rfl).1
    simp [OutputStream.dstSize] at hsize
  · intro huses
    have hsize := huses [.close true 1] OutputStream.dstSize (by decide)
    simp [OutputStream.dstSize] at hsize

end ZstdJni.Pool
