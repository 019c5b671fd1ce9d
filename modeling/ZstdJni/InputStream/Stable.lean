/-
# What every reading method of the input stream preserves

The reading methods are loops around loops, with one turn of `readInternal` at the bottom.
A property of the object that such a turn keeps is kept by every method, whether it returns
or throws.  Inside of the loop another property may hold, which the first turn starts with.
-/

import ZstdJni.InputStream.Read

namespace ZstdJni.InputStream

open ZstdJni.Foundation ZstdJni.Native

variable {σ : Type} {D : Decoder σ Byte Byte}

/-- A property of the object, and the one that a call with the given offset keeps instead of it
inside of the loop. -/
structure Stable (D : Decoder σ Byte Byte) (inv : State σ → Prop)
    (inside : ℕ → ReadState σ → Prop) : Prop where
  start : ∀ self dst offset, inv self → inside offset (readStart self dst offset)
  turn : ∀ offset dstSize st, inside offset st →
    (readTurn D offset dstSize st).Meets (inside offset) (fun ended => inv ended.self)

/-- The object behind the block that reads. -/
def Fetch.self : Fetch σ → State σ
  | .ended _ self => self
  | .empty self => self
  | .filled self => self

/-- What the parts of a turn keep is kept by every method. -/
theorem Stable.of_parts {inv : State σ → Prop}
    (hstart : ∀ self dstPos, inv self → inv { self with dstPos := dstPos })
    (hasked : ∀ self, inv self → inv { self with upstream := self.upstream.available.2 })
    (hfetch : ∀ offset self, inv self → inv (fetch offset self).self)
    (hdecode : ∀ offset dstSize self dst, inv self →
      (decodeTurn D offset dstSize self dst).Meets (fun next => inv next.self)
        (fun ended => inv ended.self)) :
    Stable D inv fun _ st => inv st.self where
  start self _ offset h := hstart self offset h
  turn offset dstSize st h := by
    unfold readTurn
    split
    · split
      · have hup := hasked _ h
        have hread := hfetch offset _ hup
        simp only
        split
        · revert hread
          cases fetch offset { st.self with upstream := st.self.upstream.available.2 } with
          | ended outcome next => exact id
          | empty next => exact id
          | filled next => exact hdecode offset dstSize next st.dst
        · exact hdecode offset dstSize _ st.dst hup
      · exact hdecode offset dstSize st.self st.dst h
    · exact h

theorem byteResult_self (ended : Ended σ) : (byteResult ended).self = ended.self := by
  unfold byteResult
  split
  · rfl
  · rfl

/-- A setter changes nothing but the native stream, and that only if the stream is open. -/
theorem set_self (acquired : Outcome Unit) (configure : σ → σ × ℕ) (self : State σ) :
    ∃ stream, (self.set acquired configure).2 = { self with stream := stream } ∧
      (self.isClosed = true → stream = self.stream) := by
  unfold State.set
  split
  · exact ⟨self.stream, rfl, fun _ => rfl⟩
  · next hopen =>
      split
      · exact ⟨self.stream, rfl, fun _ => rfl⟩
      · refine ⟨(configure self.stream).1, ?_, fun hclosed => absurd hclosed hopen⟩
        simp only
        split
        · rfl
        · rfl

namespace Stable

variable {inv : State σ → Prop} {inside : ℕ → ReadState σ → Prop} {fuel : ℕ} {dst : List Byte}
  {offset len : ℤ} {self : State σ} {ended : Ended σ} (hstable : Stable D inv inside)
include hstable

theorem readInternal_inv (hinv : inv self)
    (hread : readInternal D fuel dst offset len self = some ended) : inv ended.self := by
  unfold readInternal at hread
  split at hread
  · obtain rfl := Option.some.inj hread
    exact hinv
  · split at hread
    · obtain rfl := Option.some.inj hread
      exact hinv
    · apply iterate_sound (inside offset.toNat) (fun ended => inv ended.self) _
        (hstable.start self dst offset.toNat hinv) hread
      intro st turn hst hturn
      obtain rfl := Option.some.inj hturn
      exact hstable.turn _ _ st hst

theorem retryBody_meets {st : Ended σ} {turn : Turn (Ended σ) (Ended σ)} (hinv : inv st.self)
    (hturn : retryBody D fuel offset len st = some turn) :
    turn.Meets (fun next => inv next.self) (fun ended => inv ended.self) := by
  unfold retryBody at hturn
  split at hturn
  · obtain ⟨ended, hread, rfl⟩ := Option.map_eq_some_iff.mp hturn
    exact hstable.readInternal_inv hinv hread
  · obtain rfl := Option.some.inj hturn
    exact hinv

theorem readLoop_inv (hinv : inv self)
    (hread : readLoop D fuel dst offset len self = some ended) : inv ended.self := by
  rw [readLoop_eq] at hread
  apply iterate_sound (fun st : Ended σ => inv st.self) (fun ended => inv ended.self) _ hinv hread
  intro st turn hst hturn
  exact hstable.retryBody_meets hst hturn

theorem read_inv (hinv : inv self)
    (hread : InputStream.read D fuel dst offset len self = some ended) : inv ended.self := by
  unfold InputStream.read at hread
  split at hread
  · obtain rfl := Option.some.inj hread
    exact hinv
  · split at hread
    · obtain rfl := Option.some.inj hread
      exact hinv
    · exact hstable.readLoop_inv hinv hread

theorem skipTurn_meets {numBytes : ℤ} {st : SkipState σ} {turn : Turn (SkipState σ) (Ended σ)}
    (hinv : inv st.self) (hturn : skipTurn D fuel numBytes st = some turn) :
    turn.Meets (fun next => inv next.self) (fun ended => inv ended.self) := by
  unfold skipTurn at hturn
  split at hturn
  · obtain ⟨ended, hread, rfl⟩ := Option.map_eq_some_iff.mp hturn
    have hended := hstable.read_inv hinv hread
    split
    · split
      · exact hended
      · exact hended
    · exact hended
  · obtain rfl := Option.some.inj hturn
    exact hinv

theorem skip_inv {numBytes : ℤ} {data : List Byte} (hinv : inv self)
    (hskip : InputStream.skip D fuel data numBytes self = some ended) : inv ended.self := by
  unfold InputStream.skip at hskip
  split at hskip
  · obtain rfl := Option.some.inj hskip
    exact hinv
  · split at hskip
    · obtain rfl := Option.some.inj hskip
      exact hinv
    · apply iterate_sound (fun st : SkipState σ => inv st.self) (fun ended => inv ended.self) _ hinv
        hskip
      intro st turn hst hturn
      exact hstable.skipTurn_meets hst hturn

theorem call_inv {call : Call} (hinv : inv self) (hrun : call.run D fuel self = some ended) :
    inv ended.self := by
  cases call with
  | readByte =>
      obtain ⟨last, hread, rfl⟩ := Option.map_eq_some_iff.mp hrun
      rw [byteResult_self]
      exact hstable.readLoop_inv hinv hread
  | read dst offset len => exact hstable.read_inv hinv hrun
  | skip numBytes data => exact hstable.skip_inv hinv hrun

end Stable

end ZstdJni.InputStream
