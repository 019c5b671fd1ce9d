/-
# Windows in range, in the streams

`write` of the compressing stream and `read` of the decompressing one test their window once,
in 32-bit arithmetic, and then hand parts of it to zstd in a loop.  The parts begin where the
last one ended, and the loop is only entered as long as something is left, so that every part
is inside of the window.

The last section puts together what all entry points guarantee.
-/

import ZstdJni.Context.Windows
import ZstdJni.InputStream.Model
import ZstdJni.OneShot.Model
import ZstdJni.OutputStream.Loops

namespace ZstdJni.Context

open ZstdJni.Foundation ZstdJni.Native ZstdJni.CompressCtx ZstdJni.OneShot

section Test

/-- The test `offset < 0 || len < 0 || len > array.length - offset` of the streams. -/
def checkStream (length offset len : JInt) : Check JavaException :=
  { checkDict length offset len with reason := .indexOutOfBounds }

variable (array : JavaArray) (offset len : JInt)

/-- The length of an array, as an `int`. -/
def arrayLength : JInt := BitVec.ofNat 32 array.bytes.length

theorem arrayLength_toInt : (arrayLength array).toInt = array.bytes.length :=
  toInt_ofNat_of_lt array.length_lt

/-- The test in 32-bit arithmetic, and the sum that follows it. -/
theorem checkStream_spec :
    ((checkStream (arrayLength array) offset len).refuses = true ↔
      ¬ Inside offset.toInt len.toInt array.bytes.length) ∧
    (Inside offset.toInt len.toInt array.bytes.length →
      ∀ a ∈ Arith.sum offset len :: (checkStream (arrayLength array) offset len).ariths,
        a.Fits) := by
  have hlength := arrayLength_toInt array
  have hlt := array.length_lt
  have hpos : 0 ≤ (arrayLength array).toInt := by omega
  obtain ⟨hrefuses, hfits⟩ := checkDict_spec hpos offset len
  rw [hlength] at hrefuses
  refine ⟨hrefuses, fun hinside => ?_⟩
  obtain ⟨hoffset, hlen, hend⟩ := hinside
  simp only [List.forall_mem_cons]
  exact ⟨Arith.fits_sum (by omega) (by omega), hfits⟩

/-- The test over the integers. -/
theorem not_inside_iff (offset len : ℤ) (length : ℕ) :
    ¬ Inside offset len length ↔ offset < 0 ∨ len < 0 ∨ length - offset < len := by
  unfold Inside
  omega

end Test

section Writing

variable {σ : Type} {E : Encoder σ Setting Byte Byte}

/-- A turn of the loop in `write` does not go back, and no index is out of bounds. -/
theorem writeTurn_forward (src : List Byte) (srcSize : ℕ) (self : OutputStream.State σ) :
    (OutputStream.writeTurn E src srcSize self).Meets (fun next => self.srcPos ≤ next.srcPos)
      (fun ended => ended.outcome ≠ .threw .indexOutOfBounds) := by
  have hforward : self.srcPos ≤ (OutputStream.compressStream E src srcSize self).2.srcPos :=
    Nat.le_add_right _ _
  unfold OutputStream.writeTurn
  split
  · simp only
    split
    · exact nofun
    · split
      · rcases OutputStream.writeOut_cases (OutputStream.compressStream E src srcSize self).2 with
          ⟨out, hwrite, -⟩ | ⟨out, hwrite, -⟩
        · rw [hwrite]
          exact hforward
        · rw [hwrite]
          exact nofun
      · exact hforward
  · exact nofun

theorem beginFrame_ne (self : OutputStream.State σ) :
    (OutputStream.beginFrame E self).outcome ≠ .threw .indexOutOfBounds := by
  unfold OutputStream.beginFrame
  split
  · simp only
    split
    · exact nofun
    · exact nofun
  · exact nofun

/-- `write` of a window that is inside finds no index out of bounds. -/
theorem write_passed {src : List Byte} {offset len : ℤ} (hinside : Inside offset len src.length)
    {fuel : ℕ} {self : OutputStream.State σ} {ended : OutputStream.Ended σ}
    (hwrite : OutputStream.write E fuel src offset len self = some ended) :
    ended.outcome ≠ .threw .indexOutOfBounds := by
  have htest : ¬ (offset < 0 ∨ len < 0 ∨ src.length - offset < len) := fun h =>
    (not_inside_iff offset len src.length).mpr h hinside
  rw [OutputStream.write, if_neg htest] at hwrite
  split at hwrite
  · obtain rfl := Option.some.inj hwrite
    exact nofun
  · have hbegin := beginFrame_ne (E := E) self
    unfold OutputStream.Ended.andThen at hwrite
    split at hwrite
    · next e he =>
        obtain rfl := Option.some.inj hwrite
        exact he ▸ hbegin
    · refine iterate_sound (fun _ => True) (fun ended => ended.outcome ≠ .threw .indexOutOfBounds)
        (fun state t _ hturn => ?_) trivial hwrite
      obtain rfl := Option.some.inj hturn
      exact (writeTurn_forward src _ state).mono (fun _ _ => trivial) fun _ h => h

/-- Every window of the source that the loop in `write` hands to zstd begins where the window
of the caller begins, or later. -/
theorem write_forward {src : List Byte} {offset srcSize : ℕ} {start self : OutputStream.State σ}
    (hstart : start.srcPos = offset)
    (hvisits : Visits (fun self => some (OutputStream.writeTurn E src srcSize self)) start self) :
    offset ≤ self.srcPos := by
  refine hvisits.inv (fun self => offset ≤ self.srcPos)
    (Nat.le_of_eq hstart.symm) fun state next hstate hturn => ?_
  have hmeets := writeTurn_forward (E := E) src srcSize state
  rw [Option.some.inj hturn] at hmeets
  exact Nat.le_trans hstate hmeets

end Writing

section Reading

variable {σ : Type} {D : Decoder σ Byte Byte}

/-- The block that reads from the wrapped stream leaves the position in the array alone, and
finds no index out of bounds. -/
theorem fetch_forward (offset : ℕ) (self : InputStream.State σ) :
    (∃ outcome next, InputStream.fetch offset self = .ended outcome next ∧
      outcome ≠ .threw .indexOutOfBounds) ∨
    (∃ next, InputStream.fetch offset self = .empty next ∧ next.dstPos = self.dstPos) ∨
    ∃ next, InputStream.fetch offset self = .filled next ∧ next.dstPos = self.dstPos := by
  unfold InputStream.fetch
  rcases self.upstream.read with ⟨answer, up⟩
  cases answer with
  | none =>
      refine .inl ?_
      simp only
      by_cases hfinished : self.frameFinished = true
      · exact ⟨_, _, if_pos hfinished, nofun⟩
      · rw [if_neg hfinished]
        by_cases hcontinuous : self.isContinuous = true
        · rw [if_pos hcontinuous]
          by_cases hsize : 0 < self.dstPos - offset
          · exact ⟨_, _, if_pos hsize, nofun⟩
          · exact ⟨_, _, if_neg hsize, nofun⟩
        · exact ⟨_, _, if_neg hcontinuous, nofun⟩
  | some chunk =>
      cases chunk with
      | nil => exact .inr (.inl ⟨_, rfl, rfl⟩)
      | cons byte chunk => exact .inr (.inr ⟨_, rfl, rfl⟩)

variable (hbounded : ∀ s input room, (D.decode s input room).2.emitted.length ≤ room)
include hbounded

/-- The part of a turn from the native call on. -/
theorem decodeTurn_forward (offset : ℕ) {dstSize : ℕ} {self : InputStream.State σ} {dst : List Byte}
    (hroom : self.dstPos < dstSize) (hsize : dstSize ≤ dst.length) :
    (InputStream.decodeTurn D offset dstSize self dst).Meets
      (fun next => self.dstPos ≤ next.self.dstPos ∧ next.dst.length = dst.length)
      (fun ended => ended.outcome ≠ .threw .indexOutOfBounds ∧ ended.dst.length = dst.length) := by
  have hemitted := hbounded self.stream self.pending (dstSize - self.dstPos)
  have hfits : self.dstPos +
      (D.decode self.stream self.pending (dstSize - self.dstPos)).2.emitted.length ≤
        dst.length := by
    omega
  have hlength : (InputStream.decompressStream D self dst dstSize).2.1.length = dst.length :=
    length_overwrite hfits
  unfold InputStream.decodeTurn
  simp only
  split
  · exact ⟨nofun, hlength⟩
  · split
    · exact ⟨nofun, hlength⟩
    · exact ⟨Nat.le_add_right _ _, hlength⟩

/-- A turn of the loop in `readInternal` does not go back, keeps the length of the array, and no
index is out of bounds. -/
theorem readTurn_forward (offset : ℕ) {dstSize : ℕ} {st : InputStream.ReadState σ}
    (hsize : dstSize ≤ st.dst.length) :
    (InputStream.readTurn D offset dstSize st).Meets
      (fun next => st.self.dstPos ≤ next.self.dstPos ∧ next.dst.length = st.dst.length)
      (fun ended => ended.outcome ≠ .threw .indexOutOfBounds ∧
        ended.dst.length = st.dst.length) := by
  unfold InputStream.readTurn
  split
  · next hguard =>
      split
      · simp only
        split
        · rcases fetch_forward offset
            { st.self with upstream := (st.self.upstream.available).2 } with
            ⟨outcome, next, hfetch, hne⟩ | ⟨next, hfetch, hpos⟩ | ⟨next, hfetch, hpos⟩
          · rw [hfetch]
            exact ⟨hne, rfl⟩
          · rw [hfetch]
            exact ⟨Nat.le_of_eq hpos.symm, rfl⟩
          · rw [hfetch]
            have hroom : next.dstPos < dstSize := hpos ▸ hguard.1
            exact (decodeTurn_forward hbounded offset hroom hsize).mono
              (fun _ h => ⟨Nat.le_trans (Nat.le_of_eq hpos.symm) h.1, h.2⟩) fun _ h => h
        · exact decodeTurn_forward hbounded offset hguard.1 hsize
      · exact decodeTurn_forward hbounded offset hguard.1 hsize
  · exact ⟨nofun, rfl⟩

/-- `readInternal` of a window that is inside finds no index out of bounds. -/
theorem readInternal_passed {dst : List Byte} {offset len : ℤ}
    (hinside : Inside offset len dst.length)
    {fuel : ℕ} {self : InputStream.State σ} {ended : InputStream.Ended σ}
    (hread : InputStream.readInternal D fuel dst offset len self = some ended) :
    ended.outcome ≠ .threw .indexOutOfBounds ∧ ended.dst.length = dst.length := by
  have htest : ¬ InputStream.outOfBounds dst offset len = true := fun h =>
    (not_inside_iff offset len dst.length).mpr (of_decide_eq_true h) hinside
  rw [InputStream.readInternal, if_neg htest] at hread
  split at hread
  · obtain rfl := Option.some.inj hread
    exact ⟨nofun, rfl⟩
  · obtain ⟨hoffset, hlen, hend⟩ := hinside
    refine iterate_sound (fun st => st.dst.length = dst.length)
      (fun ended => ended.outcome ≠ .threw .indexOutOfBounds ∧ ended.dst.length = dst.length)
      (fun st t hst hturn => ?_) rfl hread
    obtain rfl := Option.some.inj hturn
    exact (readTurn_forward hbounded _ (by omega)).mono (fun _ h => h.2.trans hst)
      fun _ h => ⟨h.1, h.2.trans hst⟩

/-- `read` of a window that is inside finds no index out of bounds. -/
theorem read_passed {dst : List Byte} {offset len : ℤ} (hinside : Inside offset len dst.length)
    {fuel : ℕ} {self : InputStream.State σ} {ended : InputStream.Ended σ}
    (hread : InputStream.read D fuel dst offset len self = some ended) :
    ended.outcome ≠ .threw .indexOutOfBounds := by
  have htest : ¬ InputStream.outOfBounds dst offset len = true := fun h =>
    (not_inside_iff offset len dst.length).mpr (of_decide_eq_true h) hinside
  rw [InputStream.read, if_neg htest] at hread
  split at hread
  · obtain rfl := Option.some.inj hread
    exact nofun
  · refine iterate_sound
      (fun st => st.outcome ≠ .threw .indexOutOfBounds ∧ st.dst.length = dst.length)
      (fun ended => ended.outcome ≠ .threw .indexOutOfBounds) (fun st t hst hturn => ?_)
      ⟨by simp, rfl⟩ hread
    split at hturn
    · obtain ⟨next, hnext, rfl⟩ := Option.map_eq_some_iff.mp hturn
      obtain ⟨hne, hlength⟩ := readInternal_passed hbounded (by rw [hst.2]; exact hinside) hnext
      exact ⟨hne, hlength.trans hst.2⟩
    · obtain rfl := Option.some.inj hturn
      exact hst.1

/-- Every window of the array that the loop in `readInternal` hands to zstd begins where the
window of the caller begins, or later. -/
theorem read_forward {offset dstSize : ℕ} {start st : InputStream.ReadState σ}
    (hstart : start.self.dstPos = offset) (hsize : dstSize ≤ start.dst.length)
    (hvisits : Visits (fun st => some (InputStream.readTurn D offset dstSize st)) start st) :
    offset ≤ st.self.dstPos ∧ st.dst.length = start.dst.length := by
  refine hvisits.inv (fun st => offset ≤ st.self.dstPos ∧ st.dst.length = start.dst.length)
    ⟨Nat.le_of_eq hstart.symm, rfl⟩ fun state next hstate hturn => ?_
  have hmeets := readTurn_forward hbounded offset (hstate.2.symm ▸ hsize)
  rw [Option.some.inj hturn] at hmeets
  exact ⟨Nat.le_trans hstate.1 hmeets.1, hmeets.2.trans hstate.2⟩

end Reading

/-- What `write` of the compressing stream guarantees for a window of an array. -/
structure WriteGuarded (src : JavaArray) (offset len : JInt) : Prop where
  test : (checkStream (arrayLength src) offset len).refuses = true ↔
    ¬ Inside offset.toInt len.toInt src.bytes.length
  fits : Inside offset.toInt len.toInt src.bytes.length →
    ∀ a ∈ Arith.sum offset len :: (checkStream (arrayLength src) offset len).ariths, a.Fits
  refused : ¬ Inside offset.toInt len.toInt src.bytes.length →
    ∀ {σ : Type} (E : Encoder σ Setting Byte Byte) (fuel : ℕ) (self : OutputStream.State σ),
      OutputStream.write E fuel src.bytes offset.toInt len.toInt self =
        some ⟨.threw .indexOutOfBounds, self⟩
  passed : Inside offset.toInt len.toInt src.bytes.length →
    ∀ {σ : Type} (E : Encoder σ Setting Byte Byte) (fuel : ℕ) (self : OutputStream.State σ)
      (ended : OutputStream.Ended σ),
      OutputStream.write E fuel src.bytes offset.toInt len.toInt self = some ended →
        ended.outcome ≠ .threw .indexOutOfBounds
  windows : Inside offset.toInt len.toInt src.bytes.length →
    ∀ {σ : Type} (E : Encoder σ Setting Byte Byte) (start self : OutputStream.State σ),
      start.srcPos = offset.toInt.toNat →
      Visits (fun self => some (OutputStream.writeTurn E src.bytes
        (offset.toInt + len.toInt).toNat self)) start self →
      self.srcPos < (offset.toInt + len.toInt).toNat →
        offset.toInt ≤ self.srcPos ∧
        Inside self.srcPos (offset.toInt + len.toInt - self.srcPos) src.bytes.length

/-- What `read` of the decompressing stream guarantees for a window of an array, given that zstd
does not write behind the end of its output. -/
structure ReadGuarded (dst : JavaArray) (offset len : JInt) : Prop where
  test : (checkStream (arrayLength dst) offset len).refuses = true ↔
    ¬ Inside offset.toInt len.toInt dst.bytes.length
  fits : Inside offset.toInt len.toInt dst.bytes.length →
    ∀ a ∈ Arith.sum offset len :: (checkStream (arrayLength dst) offset len).ariths, a.Fits
  refused : ¬ Inside offset.toInt len.toInt dst.bytes.length →
    ∀ {σ : Type} (D : Decoder σ Byte Byte) (fuel : ℕ) (self : InputStream.State σ),
      InputStream.read D fuel dst.bytes offset.toInt len.toInt self =
        some ⟨.threw .indexOutOfBounds, dst.bytes, self⟩
  passed : Inside offset.toInt len.toInt dst.bytes.length →
    ∀ {σ : Type} (D : Decoder σ Byte Byte),
      (∀ s input room, (D.decode s input room).2.emitted.length ≤ room) →
      ∀ (fuel : ℕ) (self : InputStream.State σ) (ended : InputStream.Ended σ),
      InputStream.read D fuel dst.bytes offset.toInt len.toInt self = some ended →
        ended.outcome ≠ .threw .indexOutOfBounds
  windows : Inside offset.toInt len.toInt dst.bytes.length →
    ∀ {σ : Type} (D : Decoder σ Byte Byte),
      (∀ s input room, (D.decode s input room).2.emitted.length ≤ room) →
      ∀ (start st : InputStream.ReadState σ), start.self.dstPos = offset.toInt.toNat →
      start.dst.length = dst.bytes.length →
      Visits (fun st => some (InputStream.readTurn D offset.toInt.toNat
        (offset.toInt + len.toInt).toNat st)) start st →
      st.self.dstPos < (offset.toInt + len.toInt).toNat →
        offset.toInt ≤ st.self.dstPos ∧
        Inside st.self.dstPos (offset.toInt + len.toInt - st.self.dstPos) st.dst.length

theorem writeGuarded (src : JavaArray) (offset len : JInt) : WriteGuarded src offset len where
  test := (checkStream_spec src offset len).1
  fits := (checkStream_spec src offset len).2
  refused hout _ _ _ _ := if_pos ((not_inside_iff _ _ _).mp hout)
  passed hinside _ _ _ _ _ hwrite := write_passed hinside hwrite
  windows hinside _ _ _ _ hstart hvisits hleft := by
    have hforward := write_forward hstart hvisits
    obtain ⟨hoffset, hlen, hend⟩ := hinside
    unfold Inside
    omega

theorem readGuarded (dst : JavaArray) (offset len : JInt) : ReadGuarded dst offset len where
  test := (checkStream_spec dst offset len).1
  fits := (checkStream_spec dst offset len).2
  refused hout _ _ _ _ := if_pos (decide_eq_true ((not_inside_iff _ _ _).mp hout))
  passed hinside _ _ hbounded _ _ _ hread := read_passed hbounded hinside hread
  windows hinside _ _ hbounded _ _ hstart hlength hvisits hleft := by
    obtain ⟨hoffset, hlen, hend⟩ := hinside
    obtain ⟨hforward, hkept⟩ := read_forward hbounded hstart (by omega) hvisits
    unfold Inside
    omega

/-- Every entry point hands windows to zstd only if they are inside, throws and leaves all
storage alone if they are not, and computes nothing that wraps around if they are. -/
theorem windows_in_range {σ : Type} (Z : Codec σ) (isOpen : Bool) (context : σ)
    (prepare : Outcome Unit × σ) (ops : Operands) (w : Windows) (array : JavaArray)
    (dict : ByteBuffer) (offset length : JInt) (succeeds : Bool) :
    Guarded (InsideAll ops w) (ReachesDirect isOpen ops) False ops.memory w
      (compressDirectByteBuffer Z isOpen context ops w) ∧
    Guarded (InsideAll ops w) (isOpen = true) False ops.memory w
      (compressByteArray Z isOpen context ops w) ∧
    Guarded (InsideAll ops w) (ReachesDirect isOpen ops) False ops.memory w
      (decompressDirectByteBuffer Z isOpen context ops w) ∧
    Guarded (InsideAll ops w) (isOpen = true) False ops.memory w
      (decompressByteArray Z isOpen context ops w) ∧
    Guarded (InsideAll ops w) (isOpen = true ∧ ops.dst.isDirect = true) False ops.memory w
      (decompressByteArrayToDirectByteBuffer Z isOpen context ops w) ∧
    Guarded (InsideAll ops w) (isOpen = true ∧ ops.src.isDirect = true) False ops.memory w
      (decompressDirectByteBufferToByteArray Z isOpen context ops w) ∧
    (∀ size : Option JInt,
      Guarded (HelperInside ops w.dstOffset w.srcOffset size) (∃ u, prepare.1 = .returned u)
        (prepare.1 = .threw .indexOutOfBounds) ops.memory
        (helperWindows ops w.dstOffset w.srcOffset size)
        (compressUsingDict Z prepare ops w.dstOffset w.srcOffset size) ∧
      Guarded (HelperInside ops w.dstOffset w.srcOffset size) (∃ u, prepare.1 = .returned u)
        (prepare.1 = .threw .indexOutOfBounds) ops.memory
        (helperWindows ops w.dstOffset w.srcOffset size)
        (compressFastDict Z prepare ops w.dstOffset w.srcOffset size)) ∧
    Guarded (HelperInside ops w.dstOffset w.srcOffset (some length))
      (∃ u, prepare.1 = .returned u) (prepare.1 = .threw .indexOutOfBounds) ops.memory
      (helperWindows ops w.dstOffset w.srcOffset (some length))
      (decompressUsingDict Z prepare ops w.dstOffset w.srcOffset length) ∧
    Guarded (HelperInside ops w.dstOffset w.srcOffset (some length))
      (∃ u, prepare.1 = .returned u) (prepare.1 = .threw .indexOutOfBounds) ops.memory
      (helperWindows ops w.dstOffset w.srcOffset (some length))
      (decompressFastDict Z prepare ops w.dstOffset w.srcOffset length) ∧
    DictGuarded (Inside offset.toInt length.toInt array.bytes.length) offset length succeeds
      (createDictCompress (arrayLength array) offset length succeeds) ∧
    DictGuarded (Inside offset.toInt length.toInt array.bytes.length) offset length succeeds
      (createDictDecompress (arrayLength array) offset length succeeds) ∧
    (∀ message, DictGuarded (dict.kind = .direct) (BitVec.ofNat 32 dict.position)
      (BitVec.ofNat 32 dict.limit - BitVec.ofNat 32 dict.position) succeeds
      (createDictDirect dict succeeds message)) ∧
    WriteGuarded array offset length ∧ ReadGuarded array offset length := by
  have hlength := arrayLength_toInt array
  have hpos : 0 ≤ (arrayLength array).toInt := by omega
  have hcompress := createDictCompress_guarded hpos offset length succeeds
  have hdecompress := createDictDecompress_guarded hpos offset length succeeds
  rw [hlength] at hcompress hdecompress
  have hcompressHelper (size : Option JInt) :=
    withDict_guarded ops w.dstOffset w.srcOffset prepare size
      (guarded_array_open ops Z compressionClosed)
  have hdecompressHelper :=
    withDict_guarded ops w.dstOffset w.srcOffset prepare (some length)
      (guarded_array_open ops Z decompressionClosed)
  exact ⟨guarded_direct Z isOpen context ops w _, guarded_array Z isOpen context ops w _,
    guarded_direct Z isOpen context ops w _, guarded_array Z isOpen context ops w _,
    guarded_toDirect Z isOpen context ops w, guarded_fromDirect Z isOpen context ops w,
    fun size => ⟨hcompressHelper size, hcompressHelper size⟩, hdecompressHelper, hdecompressHelper,
    hcompress, hdecompress, createDictDirect_guarded dict succeeds,
    writeGuarded array offset length,
    readGuarded array offset length⟩

end ZstdJni.Context
