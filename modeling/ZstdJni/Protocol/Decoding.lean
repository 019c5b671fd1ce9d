/-
# The decompressor after an error

`ZSTD_decompressStream` must not be called on a stream whose last call failed, unless the
stream was reset.  The wrappers throw on an error and stay open: neither the input stream
nor the buffer streams remember that the native stream has failed, and no operation of them
resets it.  So the next call that gets as far as the decompressor breaks the rule.

The decompressor is watched.  Which calls get as far is said by a condition on the object
before the call, and a run keeps the rule exactly if none of its calls does so after an
error.
-/

import ZstdJni.BufferDecompress.Spec
import ZstdJni.Foundation.Machine
import ZstdJni.Foundation.Watch
import ZstdJni.InputStream.Complete
import ZstdJni.InputStream.Stable

namespace ZstdJni.Protocol

open ZstdJni.Foundation ZstdJni.Native

variable {σ : Type}

/-- A native decompressor: its results are of type `size_t`. -/
structure NativeDecoder (σ : Type) where
  decoder : Decoder σ Byte Byte
  ret_lt : ∀ s input room, (decoder.decode s input room).2.ret < 2 ^ 64

/-- The decompressor with the record of how it was used. -/
def NativeDecoder.watched (D : NativeDecoder σ) : Decoder (σ × Watch) Byte Byte :=
  D.decoder.watched zstdIsError

/-! ## The input stream -/

section InputStream

open ZstdJni.InputStream

variable {D : NativeDecoder σ} {self : State (σ × Watch)} {offset dstSize : ℕ} {dst : List Byte}

/-- The record of a stream after a call of the decompressor, by whether it failed.  A method
that returns made no call that failed. -/
def Called (w : Watch) (ended : Ended (σ × Watch)) : Prop :=
  ∃ fails, ended.self.stream.2 = w.decoded fails ∧ ∀ n, ended.outcome = .returned n → fails = false

/-- The part of a turn from the native call on makes one call. -/
theorem decodeTurn_watched :
    (decodeTurn D.watched offset dstSize self dst).Meets
      (fun next => next.self.stream.2 = self.stream.2.decoded false) (Called self.stream.2) := by
  rw [decodeTurn_eq rfl]
  have hlt : (nextReply D.watched self (dstSize - self.dstPos)).ret < 2 ^ 64 :=
    D.ret_lt self.stream.1 self.pending (dstSize - self.dstPos)
  have hcalled : (called D.watched self (dstSize - self.dstPos)).stream.2 =
      self.stream.2.decoded (zstdIsError (nextReply D.watched self (dstSize - self.dstPos)).ret) :=
        rfl
  have hhidden : isError (jint (nextReply D.watched self (dstSize - self.dstPos)).ret) = false →
      zstdIsError (nextReply D.watched self (dstSize - self.dstPos)).ret = false := by
    intro hfine
    by_contra herror
    rw [Bool.not_eq_false] at herror
    rw [isError_jint_of_zstdIsError hlt herror] at hfine
    exact Bool.noConfusion hfine
  split_ifs with herror hzero
  · exact ⟨_, hcalled, fun n hn => nomatch hn⟩
  · exact ⟨_, hcalled, fun _ _ => hhidden (Bool.not_eq_true _ ▸ herror)⟩
  · rw [hhidden (Bool.not_eq_true _ ▸ herror)] at hcalled
    exact hcalled

/-- The same with the record of an earlier state, when only other fields have changed since. -/
theorem decodeTurn_watched_of {called : State (σ × Watch)} (hcalled : called.stream = self.stream) :
    (decodeTurn D.watched offset dstSize called dst).Meets
      (fun next => next.self.stream.2 = self.stream.2.decoded false) (Called self.stream.2) := by
  rw [← hcalled]
  exact decodeTurn_watched

/-- One turn makes one call of the decompressor, or none. -/
theorem readTurn_watched {st : ReadState (σ × Watch)} :
    (readTurn D.watched offset dstSize st).Meets
      (fun next => next.self.stream.2 = st.self.stream.2 ∨
        next.self.stream.2 = st.self.stream.2.decoded false)
      (fun ended => ended.self.stream.2 = st.self.stream.2 ∨ Called st.self.stream.2 ended) := by
  have hdecode (called : State (σ × Watch)) (hcalled : called.stream = st.self.stream) :
      (decodeTurn D.watched offset dstSize called st.dst).Meets
        (fun next => next.self.stream.2 = st.self.stream.2 ∨
          next.self.stream.2 = st.self.stream.2.decoded false)
        (fun ended => ended.self.stream.2 = st.self.stream.2 ∨ Called st.self.stream.2 ended) :=
    (decodeTurn_watched_of hcalled).mono (fun _ h => .inr h) fun _ h => .inr h
  by_cases hrunning : st.self.dstPos < dstSize ∧ st.lastDstPos < st.self.dstPos
  · cases hneed : st.self.needRead with
    | true =>
        rw [readTurn_of_needRead hrunning hneed]
        split_ifs
        · rw [fetch]
          rcases st.self.upstream.available.2.read with ⟨_ | _ | _, up⟩
          · simp only
            split_ifs <;> exact .inl rfl
          · exact .inl rfl
          · exact hdecode _ rfl
        · exact hdecode _ rfl
    | false =>
        rw [readTurn, if_pos hrunning, if_neg (by simp [hneed])]
        exact hdecode _ rfl
  · rw [readTurn, if_neg hrunning]
    exact .inl rfl

/-- What an operation does to the record of a stream that has not failed, and to the mark of
a misuse. -/
structure Calm (w : Watch) (ended : Ended (σ × Watch)) : Prop where
  keeps : w.misused = true → ended.self.stream.2.misused = true
  spares : w.failed = false → ended.self.stream.2.misused = w.misused
  returned : w.failed = false → ∀ n, ended.outcome = .returned n → ended.self.stream.2 = w

theorem Watch.decoded_false {w : Watch} (hw : w.failed = false) : w.decoded false = w := by
  cases w
  simp_all [Watch.decoded]

theorem Calm.of_stream {w : Watch} {ended : Ended (σ × Watch)} (hstream : ended.self.stream.2 = w) :
    Calm w ended :=
  ⟨fun h => by rw [hstream, h], fun _ => by rw [hstream], fun _ _ _ => hstream⟩

theorem Called.calm {w : Watch} {ended : Ended (σ × Watch)} (hcalled : Called w ended) :
    Calm w ended := by
  obtain ⟨fails, hstream, hreturned⟩ := hcalled
  refine ⟨fun h => ?_, fun h => ?_, fun h n hn => ?_⟩
  · simp [hstream, Watch.decoded, h]
  · simp [hstream, Watch.decoded, h]
  · rw [hstream, hreturned n hn, Watch.decoded_false h]

/-- What follows on an operation that returned. -/
theorem Calm.trans {w : Watch} {first last : Ended (σ × Watch)} {n : ℤ} (hfirst : Calm w first)
    (hn : first.outcome = .returned n) (hlast : Calm first.self.stream.2 last) : Calm w last := by
  refine ⟨fun h => hlast.keeps (hfirst.keeps h), fun h => ?_, fun h => ?_⟩
  · have hsame := hfirst.returned h n hn
    rw [hsame] at hlast
    exact hlast.spares h
  · have hsame := hfirst.returned h n hn
    rw [hsame] at hlast
    exact hlast.returned h

theorem readInternal_calm {offset len : ℤ} {fuel : ℕ} {ended : Ended (σ × Watch)}
    (hrun : readInternal D.watched fuel dst offset len self = some ended) :
    Calm self.stream.2 ended := by
  unfold readInternal at hrun
  split_ifs at hrun
  · rw [← Option.some.inj hrun]
    exact .of_stream rfl
  · rw [← Option.some.inj hrun]
    exact .of_stream rfl
  · generalize hw : self.stream.2 = w
    refine iterate_sound (fun st => (w.misused = true → st.self.stream.2.misused = true) ∧
      (w.failed = false → st.self.stream.2 = w)) (Calm w) ?_ ?_ hrun
    · rintro st t ⟨hkeeps, hsame⟩ hturn
      obtain rfl := Option.some.inj hturn
      refine readTurn_watched.mono ?_ ?_
      · rintro next (hnext | hnext)
        · rw [hnext]
          exact ⟨hkeeps, hsame⟩
        · rw [hnext]
          refine ⟨fun h => by simp [Watch.decoded, hkeeps h], fun h => ?_⟩
          rw [hsame h, Watch.decoded_false h]
      · intro ended hended
        have hcalm : Calm st.self.stream.2 ended := hended.elim .of_stream Called.calm
        refine ⟨fun h => hcalm.keeps (hkeeps h), fun h => ?_, fun h => ?_⟩
        · have hspares := hcalm.spares
          rw [hsame h] at hspares
          exact hspares h
        · have hreturned := hcalm.returned
          rw [hsame h] at hreturned
          exact hreturned h
    · exact ⟨fun h => hw ▸ h, fun _ => hw⟩

theorem readLoop_calm {offset len : ℤ} {fuel : ℕ} {ended : Ended (σ × Watch)}
    (hrun : readLoop D.watched fuel dst offset len self = some ended) :
    Calm self.stream.2 ended := by
  refine iterate_sound (Calm self.stream.2) (Calm self.stream.2) ?_ (.of_stream rfl) hrun
  intro st t hst hturn
  split_ifs at hturn with hzero
  · obtain ⟨next, hnext, rfl⟩ := Option.map_eq_some_iff.mp hturn
    exact hst.trans hzero (readInternal_calm hnext)
  · rw [← Option.some.inj hturn]
    exact hst

theorem read_calm {offset len : ℤ} {fuel : ℕ} {ended : Ended (σ × Watch)}
    (hrun : InputStream.read D.watched fuel dst offset len self = some ended) : Calm
      self.stream.2 ended := by
  unfold InputStream.read at hrun
  split_ifs at hrun
  · rw [← Option.some.inj hrun]
    exact .of_stream rfl
  · rw [← Option.some.inj hrun]
    exact .of_stream rfl
  · exact readLoop_calm hrun

theorem Calm.byteResult {w : Watch} {ended : Ended (σ × Watch)} (hcalm : Calm w ended) :
    Calm w (byteResult ended) := by
  obtain ⟨outcome, dst, next⟩ := ended
  cases outcome with
  | returned n => exact ⟨hcalm.keeps, hcalm.spares, fun h _ _ => hcalm.returned h n rfl⟩
  | threw e => exact hcalm

/-- The record after the turns of `skip` so far. -/
theorem skip_calm {data : List Byte} {numBytes : ℤ} {fuel : ℕ} {ended : Ended (σ × Watch)}
    (hrun : skip D.watched fuel data numBytes self = some ended) : Calm self.stream.2 ended := by
  unfold skip at hrun
  split_ifs at hrun
  · rw [← Option.some.inj hrun]
    exact .of_stream rfl
  · rw [← Option.some.inj hrun]
    exact .of_stream rfl
  · refine iterate_sound (fun st => Calm self.stream.2 ⟨.returned 0, st.data, st.self⟩)
      (Calm self.stream.2) ?_ (.of_stream rfl) hrun
    intro st t hst hturn
    unfold skipTurn at hturn
    split_ifs at hturn
    · obtain ⟨next, hnext, rfl⟩ := Option.map_eq_some_iff.mp hturn
      have hcalm := hst.trans rfl (read_calm hnext)
      obtain ⟨outcome, data', last⟩ := next
      cases outcome with
      | returned n =>
          have hreturned := hcalm.returned
          simp only
          split_ifs
          · exact ⟨hcalm.keeps, hcalm.spares, fun h _ _ => hreturned h n rfl⟩
          · exact ⟨hcalm.keeps, hcalm.spares, fun h _ _ => hreturned h n rfl⟩
      | threw e => exact hcalm
    · rw [← Option.some.inj hturn]
      exact ⟨hst.keeps, hst.spares, fun h _ _ => hst.returned h 0 rfl⟩

/-- Every call keeps the mark of a misuse, and makes none on a stream that has not failed. -/
theorem call_calm {call : Call} {fuel : ℕ} {ended : Ended (σ × Watch)}
    (hrun : call.run D.watched fuel self = some ended) : Calm self.stream.2 ended := by
  cases call with
  | readByte =>
      obtain ⟨inner, hinner, rfl⟩ := Option.map_eq_some_iff.mp hrun
      exact (readLoop_calm hinner).byteResult
  | read dst offset len => exact read_calm hrun
  | skip numBytes data => exact skip_calm hrun

/-! ### Which calls get as far as the decompressor -/

/-- The next answer with bytes, or with the end of the input, is one with bytes. -/
def feeds : List (Option (List Byte)) → Bool
  | [] => false
  | none :: _ => false
  | some [] :: rest => feeds rest
  | some (_ :: _) :: _ => true

/-- There is something to decompress: input is left over, or the wrapped stream supplies
some. -/
def Feeds (st : State σ) : Prop := st.needRead = false ∨ feeds st.upstream.script = true

/-- The loop of `readInternal` has not produced anything yet. -/
structure AtStart (offset dstSize : ℕ) (st : ReadState σ) : Prop where
  dstPos_eq : st.self.dstPos = offset
  window : offset < dstSize
  progress : st.lastDstPos < st.self.dstPos

theorem AtStart.running {st : ReadState σ} (hstart : AtStart offset dstSize st) :
    st.self.dstPos < dstSize ∧ st.lastDstPos < st.self.dstPos :=
  ⟨hstart.dstPos_eq ▸ hstart.window, hstart.progress⟩

/-- With something to decompress the decompressor is called, now or in a later turn. -/
theorem readTurn_feeds {st : ReadState (σ × Watch)} (hstart : AtStart offset dstSize st)
    (hfeeds : Feeds st.self) :
    (readTurn D.watched offset dstSize st).Meets
      (fun next => next.self.stream.2 = st.self.stream.2.decoded false ∨
        (next.self.stream = st.self.stream ∧ AtStart offset dstSize next ∧ Feeds next.self))
      (Called st.self.stream.2) := by
  have hdecode (called : State (σ × Watch)) (hcalled : called.stream = st.self.stream) :
      (decodeTurn D.watched offset dstSize called st.dst).Meets
        (fun next => next.self.stream.2 = st.self.stream.2.decoded false ∨
          (next.self.stream = st.self.stream ∧ AtStart offset dstSize next ∧ Feeds next.self))
        (Called st.self.stream.2) :=
    (decodeTurn_watched_of hcalled).mono (fun _ h => .inl h) fun _ h => h
  cases hneed : st.self.needRead with
  | false =>
      rw [readTurn, if_pos hstart.running, if_neg (by simp [hneed])]
      exact hdecode _ rfl
  | true =>
      have hsupplies := hfeeds.resolve_left (by simp [hneed])
      rw [readTurn_of_needRead hstart.running hneed, if_pos (.inr hstart.dstPos_eq), fetch,
        Upstream.available, Upstream.read]
      simp only
      rcases hscript : st.self.upstream.script with _ | ⟨_ | _ | ⟨b, bytes⟩, rest⟩
      · simp [hscript, feeds] at hsupplies
      · simp [hscript, feeds] at hsupplies
      · rw [hscript] at hsupplies
        exact .inr ⟨rfl, ⟨hstart.dstPos_eq, hstart.window, hstart.progress⟩, .inr hsupplies⟩
      · exact hdecode _ rfl

/-- With nothing to decompress the decompressor is not called, and the end of the input is
met. -/
theorem readTurn_starved {E : Decoder σ Byte Byte} {st : ReadState σ}
    (hstart : AtStart offset dstSize st) (hstarved : ¬ Feeds st.self) :
    (readTurn E offset dstSize st).Meets
      (fun next => next.self.stream = st.self.stream ∧ AtStart offset dstSize next ∧
        ¬ Feeds next.self)
      (fun ended => ended.self.stream = st.self.stream ∧ ∀ n ≥ 0, ended.outcome ≠ .returned n) := by
  rw [Feeds, not_or, Bool.not_eq_false, Bool.not_eq_true] at hstarved
  obtain ⟨hneed, hnone⟩ := hstarved
  have hended (up : Upstream) (hread : ({ st.self with upstream := st.self.upstream.available.2 } :
      State σ).upstream.read = (none, up)) :
      ∃ outcome next, fetch offset { st.self with upstream := st.self.upstream.available.2 } =
        .ended outcome next ∧ next.stream = st.self.stream ∧ ∀ n ≥ 0, outcome ≠ .returned n := by
    obtain ⟨next, hfetch, hdrained, -⟩ := fetch_none offset hread
    have hstream : next.drained.stream = st.self.stream := by rw [hdrained]; rfl
    refine ⟨_, next, hfetch, hstream, fun n hn => ?_⟩
    have hcount : st.self.dstPos - offset = 0 := by rw [hstart.dstPos_eq, Nat.sub_self]
    simp only [hcount, endOutcome]
    split_ifs <;> simp only [ne_eq, Outcome.returned.injEq, reduceCtorEq, not_false_eq_true] <;>
      omega
  rw [readTurn_of_needRead hstart.running hneed, if_pos (.inr hstart.dstPos_eq)]
  rcases hscript : st.self.upstream.script with _ | ⟨_ | _ | ⟨b, bytes⟩, rest⟩
  · obtain ⟨outcome, next, hfetch, hstream, hne⟩ :=
      hended st.self.upstream.available.2 (by simp [Upstream.read, Upstream.available, hscript])
    rw [hfetch]
    exact ⟨hstream, hne⟩
  · obtain ⟨outcome, next, hfetch, hstream, hne⟩ :=
      hended { st.self.upstream.available.2 with script := rest }
        (by simp [Upstream.read, Upstream.available, hscript])
    rw [hfetch]
    exact ⟨hstream, hne⟩
  · rw [hscript] at hnone
    simp only [fetch, Upstream.read, Upstream.available, hscript]
    refine ⟨rfl, ⟨hstart.dstPos_eq, hstart.window, hstart.progress⟩, ?_⟩
    rw [Feeds, not_or, Bool.not_eq_false, Bool.not_eq_true]
    exact ⟨hneed, hnone⟩
  · simp [hscript, feeds] at hnone

theorem atStart_readStart (self : State σ) (dst : List Byte) {offset len : ℤ} (hlen : 0 < len)
    (hbounds : outOfBounds dst offset len = false) :
    AtStart offset.toNat (offset + len).toNat (readStart self dst offset.toNat) := by
  simp only [InputStream.outOfBounds, decide_eq_false_iff_not] at hbounds
  refine ⟨rfl, by omega, ?_⟩
  simp only [readStart]
  omega

section Calls

variable {offset len : ℤ} {fuel : ℕ}

/-- A call that gets as far as a decompressor that has failed misuses it. -/
theorem readInternal_misuses {ended : Ended (σ × Watch)} (hopen : self.isClosed = false)
    (hlen : 0 < len) (hbounds : outOfBounds dst offset len = false) (hfeeds : Feeds self)
    (hfailed : self.stream.2.failed = true)
    (hrun : readInternal D.watched fuel dst offset len self = some ended) :
    ended.self.stream.2.misused = true := by
  rw [readInternal_eq hopen hbounds] at hrun
  refine iterate_sound (fun st => st.self.stream.2.misused = true ∨
    (st.self.stream.2.failed = true ∧ AtStart offset.toNat (offset + len).toNat st ∧
      Feeds st.self)) (fun ended => ended.self.stream.2.misused = true) ?_
    (.inr ⟨hfailed, atStart_readStart self dst hlen hbounds, hfeeds⟩) hrun
  rintro st t hst hturn
  obtain rfl := Option.some.inj hturn
  rcases hst with hmisused | ⟨hfailed, hstart, hfeeds⟩
  · refine readTurn_watched.mono ?_ ?_
    · rintro next (hnext | hnext)
      · exact .inl (hnext ▸ hmisused)
      · exact .inl (by simp [hnext, Watch.decoded, hmisused])
    · rintro ended (hended | ⟨fails, hended, -⟩)
      · exact hended ▸ hmisused
      · simp [hended, Watch.decoded, hmisused]
  · refine (readTurn_feeds hstart hfeeds).mono ?_ ?_
    · rintro next (hnext | ⟨hstream, hnext, hmore⟩)
      · exact .inl (by simp [hnext, Watch.decoded, hfailed])
      · exact .inr ⟨hstream ▸ hfailed, hnext, hmore⟩
    · rintro ended ⟨fails, hended, -⟩
      simp [hended, Watch.decoded, hfailed]

theorem readLoop_misuses {ended : Ended (σ × Watch)} (hopen : self.isClosed = false)
    (hlen : 0 < len) (hbounds : outOfBounds dst offset len = false) (hfeeds : Feeds self)
    (hfailed : self.stream.2.failed = true)
    (hrun : readLoop D.watched fuel dst offset len self = some ended) :
    ended.self.stream.2.misused = true := by
  refine iterate_sound
    (fun st => st = ⟨.returned 0, dst, self⟩ ∨ st.self.stream.2.misused = true)
    (fun ended => ended.self.stream.2.misused = true) ?_ (.inl rfl) hrun
  intro st t hst hturn
  rcases hst with rfl | hmisused
  · rw [if_pos rfl] at hturn
    obtain ⟨next, hnext, rfl⟩ := Option.map_eq_some_iff.mp hturn
    exact .inr (readInternal_misuses hopen hlen hbounds hfeeds hfailed hnext)
  · split_ifs at hturn
    · obtain ⟨next, hnext, rfl⟩ := Option.map_eq_some_iff.mp hturn
      exact .inr ((readInternal_calm hnext).keeps hmisused)
    · rw [← Option.some.inj hturn]
      exact hmisused

/-- A call that does not get as far as the decompressor, and does not return bytes. -/
def Quiet (st : State σ) (ended : Ended σ) : Prop :=
  ended.self.stream = st.stream ∧ ∀ n ≥ 0, ended.outcome ≠ .returned n

/-- Why a call does not get as far. -/
def Idle (st : State σ) (dst : List Byte) (offset len : ℤ) : Prop :=
  st.isClosed = true ∨ outOfBounds dst offset len = true ∨ ¬ Feeds st

theorem readInternal_quiet {E : Decoder σ Byte Byte} {st : State σ} {ended : Ended σ}
    (hlen : 0 < len) (hidle : Idle st dst offset len)
    (hrun : readInternal E fuel dst offset len st = some ended) : Quiet st ended := by
  by_cases hclosed : st.isClosed = true
  · rw [readInternal, if_pos hclosed] at hrun
    rw [← Option.some.inj hrun]
    exact ⟨rfl, fun n _ h => by cases h⟩
  · by_cases hbounds : outOfBounds dst offset len = true
    · rw [readInternal, if_neg hclosed, if_pos hbounds] at hrun
      rw [← Option.some.inj hrun]
      exact ⟨rfl, fun n _ h => by cases h⟩
    · have hstarved := (hidle.resolve_left hclosed).resolve_left hbounds
      rw [Bool.not_eq_true] at hclosed hbounds
      rw [readInternal_eq hclosed hbounds] at hrun
      refine iterate_sound (fun loop => loop.self.stream = st.stream ∧
        AtStart offset.toNat (offset + len).toNat loop ∧ ¬ Feeds loop.self) (Quiet st) ?_
        ⟨rfl, atStart_readStart st dst hlen hbounds, hstarved⟩ hrun
      rintro loop t ⟨hstream, hstart, hstarved⟩ hturn
      obtain rfl := Option.some.inj hturn
      exact (readTurn_starved hstart hstarved).mono (fun next h => ⟨h.1.trans hstream, h.2⟩)
        fun ended h => ⟨h.1.trans hstream, h.2⟩

theorem readLoop_quiet {E : Decoder σ Byte Byte} {st : State σ} {ended : Ended σ}
    (hlen : 0 < len) (hidle : Idle st dst offset len)
    (hrun : readLoop E fuel dst offset len st = some ended) : Quiet st ended := by
  refine iterate_sound (fun loop => loop = ⟨.returned 0, dst, st⟩ ∨ Quiet st loop) (Quiet st) ?_
    (.inl rfl) hrun
  intro loop t hloop hturn
  rcases hloop with rfl | hquiet
  · rw [if_pos rfl] at hturn
    obtain ⟨next, hnext, rfl⟩ := Option.map_eq_some_iff.mp hturn
    exact .inr (readInternal_quiet hlen hidle hnext)
  · rw [if_neg (hquiet.2 0 (Int.le_refl 0))] at hturn
    rw [← Option.some.inj hturn]
    exact hquiet

theorem read_quiet {E : Decoder σ Byte Byte} {st : State σ} {ended : Ended σ}
    (hlen : 0 < len) (hidle : Idle st dst offset len)
    (hrun : InputStream.read E fuel dst offset len st = some ended) : Quiet st ended := by
  unfold InputStream.read at hrun
  split_ifs at hrun
  · rw [← Option.some.inj hrun]
    exact ⟨rfl, fun n _ h => by cases h⟩
  · omega
  · exact readLoop_quiet hlen hidle hrun

theorem read_misuses {ended : Ended (σ × Watch)} (hopen : self.isClosed = false)
    (hlen : 0 < len) (hbounds : outOfBounds dst offset len = false) (hfeeds : Feeds self)
    (hfailed : self.stream.2.failed = true)
    (hrun : InputStream.read D.watched fuel dst offset len self = some ended) :
    ended.self.stream.2.misused = true := by
  rw [InputStream.read, if_neg (by simp [hbounds]), if_neg (by omega)] at hrun
  exact readLoop_misuses hopen hlen hbounds hfeeds hfailed hrun

end Calls

/-- The first read of `skip` fills as much of the borrowed array as was asked for. -/
theorem min_skipBufferLen (numBytes : ℤ) :
    min (skipBufferLen numBytes) numBytes = skipBufferLen numBytes := by
  simp only [skipBufferLen]
  omega

/-- The call gets as far as the decompressor. -/
def Call.Drives (st : State σ) (call : Call) : Prop :=
  st.isClosed = false ∧ call.Valid ∧ Feeds st

theorem call_misuses {call : Call} {fuel : ℕ} {ended : Ended (σ × Watch)}
    (hdrives : Call.Drives self call) (hfailed : self.stream.2.failed = true)
    (hrun : call.run D.watched fuel self = some ended) : ended.self.stream.2.misused = true := by
  obtain ⟨hopen, hvalid, hfeeds⟩ := hdrives
  cases call with
  | readByte =>
      obtain ⟨inner, hinner, rfl⟩ := Option.map_eq_some_iff.mp hrun
      rw [byteResult_self]
      exact readLoop_misuses hopen Int.one_pos rfl hfeeds hfailed hinner
  | read dst offset len =>
      obtain ⟨hoffset, hlen, hfits⟩ := hvalid
      exact read_misuses hopen hlen (outOfBounds_eq_false hoffset hlen hfits) hfeeds hfailed hrun
  | skip numBytes data =>
      obtain ⟨hpositive, hfits⟩ := hvalid
      have hlen : 0 < skipBufferLen numBytes := by
        simp only [skipBufferLen, recommendedDOutSize]
        omega
      rw [Call.run, InputStream.skip, if_neg (by simp [hopen]), if_neg (by omega)] at hrun
      refine iterate_sound
        (fun loop => loop = ⟨numBytes, data, self⟩ ∨ loop.self.stream.2.misused = true)
        (fun ended => ended.self.stream.2.misused = true) ?_ (.inl rfl) hrun
      intro loop t hloop hturn
      have hmisuses (next : Ended (σ × Watch)) (hnext : InputStream.read D.watched fuel loop.data 0
          (min (skipBufferLen numBytes) loop.toSkip) loop.self = some next) :
          next.self.stream.2.misused = true := by
        rcases hloop with rfl | hmisused
        · rw [min_skipBufferLen] at hnext
          exact read_misuses hopen hlen
            (outOfBounds_eq_false (Int.le_refl 0) hlen (by simpa using hfits))
            hfeeds hfailed hnext
        · exact (read_calm hnext).keeps hmisused
      unfold skipTurn at hturn
      split_ifs at hturn with hmore
      · obtain ⟨⟨outcome, data', last⟩, hnext, rfl⟩ := Option.map_eq_some_iff.mp hturn
        have hlast := hmisuses _ hnext
        cases outcome with
        | returned n =>
            simp only
            split_ifs
            · exact hlast
            · exact .inr hlast
        | threw e => exact hlast
      · rw [← Option.some.inj hturn]
        rcases hloop with rfl | hmisused
        · exact absurd hpositive hmore
        · exact hmisused

theorem call_idle {E : Decoder σ Byte Byte} {st : State σ} {call : Call} {fuel : ℕ}
    {ended : Ended σ} (hidle : ¬ Call.Drives st call) (hrun : call.run E fuel st = some ended) :
    ended.self.stream = st.stream := by
  rw [Call.Drives, not_and_or, not_and_or, Bool.not_eq_false] at hidle
  cases call with
  | readByte =>
      obtain ⟨inner, hinner, rfl⟩ := Option.map_eq_some_iff.mp hrun
      rw [byteResult_self]
      refine (readLoop_quiet Int.one_pos ?_ hinner).1
      exact hidle.imp_right fun h => .inr (h.resolve_left (not_not_intro trivial))
  | read dst offset len =>
      by_cases hbounds : outOfBounds dst offset len = true
      · rw [Call.run, InputStream.read, if_pos hbounds] at hrun
        rw [← Option.some.inj hrun]
      · by_cases hlen : len = 0
        · rw [Call.run, InputStream.read, if_neg hbounds, if_pos hlen] at hrun
          rw [← Option.some.inj hrun]
        · simp only [InputStream.outOfBounds, decide_eq_true_iff] at hbounds
          refine (read_quiet (by omega) ?_ hrun).1
          refine hidle.imp_right fun h => .inr (h.resolve_left (not_not_intro ?_))
          exact ⟨by omega, by omega, by omega⟩
  | skip numBytes data =>
      rw [Call.run, InputStream.skip] at hrun
      split_ifs at hrun with hclosed hzero
      · rw [← Option.some.inj hrun]
      · rw [← Option.some.inj hrun]
      · have hlen : 0 < skipBufferLen numBytes := by
          simp only [skipBufferLen, recommendedDOutSize]
          omega
        have hfirst : Idle st data 0 (skipBufferLen numBytes) := by
          refine hidle.imp_right fun h => ?_
          rcases h with hvalid | hstarved
          · refine .inl ?_
            simp only [InputStream.outOfBounds, decide_eq_true_iff]
            simp only [Call.Valid] at hvalid
            omega
          · exact .inr hstarved
        refine iterate_sound (fun loop => loop = ⟨numBytes, data, st⟩)
          (fun ended => ended.self.stream = st.stream) ?_ rfl hrun
        rintro loop t rfl hturn
        rw [skipTurn, if_pos (show 0 < numBytes by omega), min_skipBufferLen] at hturn
        obtain ⟨⟨outcome, data', last⟩, hnext, rfl⟩ := Option.map_eq_some_iff.mp hturn
        obtain ⟨hstream, hne⟩ := read_quiet hlen hfirst hnext
        cases outcome with
        | returned n =>
            simp only
            split_ifs with hnegative
            · exact hstream
            · exact absurd rfl (hne n (by omega))
        | threw e => exact hstream

/-! ### Runs of an input stream -/

/-- The operations on an input stream.  A setter changes the native stream in any way that is
not a reset: what it configures does not matter here. -/
inductive InputOp (σ : Type)
  | call (call : Call) (fuel : ℕ)
  | setContinuous (b : Bool)
  | configure (effect : σ → σ)
  | close

/-- One operation.  A setter of a closed stream throws; a call that does not end takes no
step. -/
def inputStep (D : NativeDecoder σ) (st : State (σ × Watch)) :
    InputOp σ → Option (Unit × State (σ × Watch))
  | .call call fuel => (call.run D.watched fuel st).map fun ended => ((), ended.self)
  | .setContinuous b => some ((), st.setContinuous b)
  | .configure effect =>
    some ((), if st.isClosed then st else { st with stream := (effect st.stream.1, st.stream.2) })
  | .close => some ((), { st with isClosed := true })

/-- An input stream over a watched decompressor. -/
def inputMachine (D : NativeDecoder σ) : Machine (State (σ × Watch)) (InputOp σ) Unit where
  step := inputStep D

/-- The operation does not get as far as a decompressor that has failed. -/
def InputOp.Spares (st : State (σ × Watch)) : InputOp σ → Prop
  | .call reading _ => ¬ (st.stream.2.failed = true ∧ Call.Drives st reading)
  | _ => True

theorem inputStep_misused {st next : State (σ × Watch)} {op : InputOp σ}
    (hstep : inputStep D st op = some ((), next)) :
    (st.stream.2.misused = true → next.stream.2.misused = true) ∧
      (st.stream.2.misused = false → (next.stream.2.misused = false ↔ op.Spares st)) := by
  cases op with
  | call call fuel =>
      obtain ⟨ended, hrun, hnext⟩ := Option.map_eq_some_iff.mp hstep
      obtain rfl : ended.self = next := congrArg Prod.snd hnext
      have hcalm := call_calm hrun
      refine ⟨hcalm.keeps, fun hclear => ?_⟩
      rw [InputOp.Spares]
      by_cases hfailed : st.stream.2.failed = true
      · by_cases hdrives : Call.Drives st call
        · have hmisused := call_misuses hdrives hfailed hrun
          simp [hmisused, hfailed, hdrives]
        · rw [call_idle hdrives hrun]
          exact iff_of_true hclear fun h => hdrives h.2
      · rw [hcalm.spares (Bool.not_eq_true _ ▸ hfailed)]
        exact iff_of_true hclear fun h => hfailed h.1
  | setContinuous b =>
      obtain rfl := congrArg Prod.snd (Option.some.inj hstep)
      exact ⟨id, fun h => iff_of_true h trivial⟩
  | configure effect =>
      obtain rfl := congrArg Prod.snd (Option.some.inj hstep)
      have hsame : (if st.isClosed then st else
          { st with stream := (effect st.stream.1, st.stream.2) }).stream.2 = st.stream.2 := by
        split_ifs <;> rfl
      rw [hsame]
      exact ⟨id, fun h => iff_of_true h trivial⟩
  | close =>
      obtain rfl := congrArg Prod.snd (Option.some.inj hstep)
      exact ⟨id, fun h => iff_of_true h trivial⟩

end InputStream

/-! ## The buffer streams -/

section BufferDecompress

open ZstdJni.BufferDecompress

variable {D : NativeDecoder σ} {refill : Refill} {direct : Bool} {target source : Buffer}

theorem afterDecode_stream {decoded : Decoded σ} {st : State σ} :
    (afterDecode refill direct decoded source st).object.stream = st.stream := by
  unfold afterDecode
  split
  · rfl
  · simp only
    split
    · rfl
    · split
      · split
        · rfl
        · split_ifs <;> rfl
      · rfl

/-- The read gets as far as the decompressor. -/
def DrivesBuffer (direct : Bool) (target : Buffer) (st : State σ) : Prop :=
  target.Serves direct ∧ st.closed = false ∧ st.streamEnd = false ∧
    ∃ source, st.source = some source ∧ source.Serves direct

/-- Buffers of the wrong kind are refused before the decompressor is called. -/
theorem decompressStream_refused {E : Decoder σ Byte Byte} {stream : σ} {decoded : Decoded σ}
    (hkinds : ¬ (target.Serves direct ∧ source.Serves direct))
    (htarget : direct = true → target.kind = .direct)
    (hdecoded : decompressStream E stream target source direct = .ok decoded) :
    decoded.stream = stream := by
  cases direct with
  | true =>
      have hsource : source.kind ≠ .direct := fun h => hkinds ⟨htarget rfl, h⟩
      simp only [decompressStream, if_true, Except.ok.injEq] at hdecoded
      rw [← hdecoded, decompressStreamDirect]
      have hcapacity : source.directCapacity = -1 := if_neg hsource
      have hposition := source.position_le
      rw [hcapacity]
      split_ifs
      · rfl
      · rfl
      · omega
  | false =>
      simp only [decompressStream, Bool.false_eq_true, if_false] at hdecoded
      split_ifs at hdecoded with hsource htargetKind
      rw [not_not] at hsource htargetKind
      exact absurd ⟨htargetKind, hsource⟩ hkinds

/-- One read calls the decompressor once if it gets as far, else not. -/
theorem read_watched (D : NativeDecoder σ) (refill : Refill) (direct : Bool) (target : Buffer)
    (st : State (σ × Watch)) :
    (DrivesBuffer direct target st → ∃ fails,
      (BufferDecompress.read D.watched refill direct target st).object.stream.2 =
        st.stream.2.decoded fails) ∧
    (¬ DrivesBuffer direct target st →
      (BufferDecompress.read D.watched refill direct target st).object.stream = st.stream) := by
  constructor
  · rintro ⟨htarget, hopen, hmore, source, hsource, hserves⟩
    rw [read_eq D.watched htarget, readInternal, if_neg (by simp [hopen]), if_neg (by simp [hmore])]
    simp only [hsource, decompressStream_eq D.watched st.stream htarget hserves]
    refine ⟨zstdIsError (D.decoder.decode st.stream.1 source.remaining target.room).2.ret, ?_⟩
    split_ifs
    · rfl
    · rw [afterDecode_stream]
      rfl
  · intro hidle
    have hinternal (htarget : direct = true → target.kind = .direct) :
        (readInternal D.watched refill direct target st).object.stream = st.stream := by
      unfold readInternal
      split_ifs with hclosed hend
      · rfl
      · rfl
      · split
        · rfl
        · rename_i source hsource
          split
          · rfl
          · rename_i decoded hdecoded
            have hstream :=
              decompressStream_refused (fun h => hidle ⟨h.1, Bool.not_eq_true _ ▸ hclosed,
              Bool.not_eq_true _ ▸ hend, source, hsource, h.2⟩) htarget hdecoded
            simp only
            split_ifs
            · exact hstream
            · rw [afterDecode_stream]
              exact hstream
    unfold BufferDecompress.read
    split_ifs with hdirect hkind hkind
    · rfl
    · exact hinternal fun _ => not_not.mp hkind
    · rfl
    · exact hinternal fun h => absurd h hdirect

/-- The operations on a buffer stream. -/
inductive BufferOp (σ : Type)
  | read (target : Buffer)
  | configure (effect : σ → σ)
  | close

/-- One operation on a buffer stream. -/
def bufferStep (D : NativeDecoder σ) (refill : Refill) (direct : Bool) (st : State (σ × Watch)) :
    BufferOp σ → State (σ × Watch)
  | .read target => (BufferDecompress.read D.watched refill direct target st).object
  | .configure effect =>
    if st.closed then st else { st with stream := (effect st.stream.1, st.stream.2) }
  | .close => BufferDecompress.close st

/-- A buffer stream over a watched decompressor. -/
def bufferMachine (D : NativeDecoder σ) (refill : Refill) (direct : Bool) :
    Machine (State (σ × Watch)) (BufferOp σ) Unit where
  step st op := some ((), bufferStep D refill direct st op)

/-- The operation does not get as far as a decompressor that has failed. -/
def BufferOp.Spares (direct : Bool) (st : State (σ × Watch)) : BufferOp σ → Prop
  | .read target => ¬ (st.stream.2.failed = true ∧ DrivesBuffer direct target st)
  | _ => True

theorem bufferStep_misused {st : State (σ × Watch)} {op : BufferOp σ} :
    (st.stream.2.misused = true → (bufferStep D refill direct st op).stream.2.misused = true) ∧
      (st.stream.2.misused = false →
        ((bufferStep D refill direct st op).stream.2.misused = false ↔ op.Spares direct st)) := by
  cases op with
  | read target =>
      obtain ⟨hcalled, hsame⟩ := read_watched D refill direct target st
      rw [bufferStep, BufferOp.Spares]
      by_cases hdrives : DrivesBuffer direct target st
      · obtain ⟨fails, hstream⟩ := hcalled hdrives
        rw [hstream]
        refine ⟨fun h => by simp [Watch.decoded, h], fun h => ?_⟩
        simp [Watch.decoded, h, hdrives]
      · rw [hsame hdrives]
        exact ⟨id, fun h => iff_of_true h fun hspares => hdrives hspares.2⟩
  | configure effect =>
      have hsame : (bufferStep D refill direct st (.configure effect)).stream.2 = st.stream.2 := by
        rw [bufferStep]
        split_ifs <;> rfl
      rw [hsame]
      exact ⟨id, fun h => iff_of_true h trivial⟩
  | close =>
      have hsame : (bufferStep D refill direct st .close).stream = st.stream := by
        rw [bufferStep, BufferDecompress.close]
        split_ifs <;> rfl
      rw [hsame]
      exact ⟨id, fun h => iff_of_true h trivial⟩

end BufferDecompress

/-! ## Whole runs -/

/-- On every run of either kind of stream, over any input, the decompressor is used as
documented exactly if no operation gets as far as a decompressor that has failed. -/
theorem decoder_spared_iff (D : NativeDecoder σ) (s : σ) :
    (∀ (upstream : InputStream.Upstream) (ops : List (InputOp σ)),
      ((inputMachine D).run (InputStream.State.create (s, .fresh) upstream) ops).2.stream.2.misused
          = false ↔
        (inputMachine D).AllSteps (fun st op => op.Spares st)
          (InputStream.State.create (s, .fresh) upstream) ops) ∧
    (∀ (refill : BufferDecompress.Refill) (direct : Bool) (source : BufferDecompress.Buffer)
      (ops : List (BufferOp σ)),
      ((bufferMachine D refill direct).run
          (BufferDecompress.State.create (s, .fresh) source) ops).2.stream.2.misused = false ↔
        (bufferMachine D refill direct).AllSteps (fun st op => op.Spares direct st)
          (BufferDecompress.State.create (s, .fresh) source) ops) := by
  constructor
  · intro upstream ops
    exact Machine.run_flag_iff (fun st : InputStream.State (σ × Watch) => st.stream.2.misused)
      (fun st op _ next hstep => (inputStep_misused hstep).1)
      (fun st op _ next hstep => (inputStep_misused hstep).2) rfl ops
  · intro refill direct source ops
    refine Machine.run_flag_iff
      (fun st : BufferDecompress.State (σ × Watch) => st.stream.2.misused) ?_ ?_ rfl ops
    · intro st op _ next hstep
      obtain rfl := congrArg Prod.snd (Option.some.inj hstep)
      exact bufferStep_misused.1
    · intro st op _ next hstep
      obtain rfl := congrArg Prod.snd (Option.some.inj hstep)
      exact bufferStep_misused.2

/-! ## A retry after an error -/

/-- A decompressor on input that does not begin with a magic number. -/
def unknownInput : NativeDecoder Unit where
  decoder := ⟨fun _ input _ =>
    ((), ⟨0, [], if input.length < 4 then 1 else ErrorCode.prefixUnknown.result⟩)⟩
  ret_lt := by
    intro s input room
    simp only
    split
    · exact (show 1 < 2 ^ 64 by decide)
    · exact (show ErrorCode.prefixUnknown.result < 2 ^ 64 by decide)

/-- Four bytes of something else, and four more. -/
def unknownUpstream : InputStream.Upstream :=
  ⟨[some [0, 0, 0, 0], some [0, 0, 0, 0]], fun _ => 0⟩

/-- A caller that reads, catches the exception and reads again misuses the decompressor. -/
theorem misused_of_retry :
    ((inputMachine unknownInput).run (InputStream.State.create ((), .fresh) unknownUpstream)
      [.call .readByte 3, .call .readByte 3]).2.stream.2.misused = true := rfl

end ZstdJni.Protocol
