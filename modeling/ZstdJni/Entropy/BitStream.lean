/-
# The bit streams of the entropy coders

`BIT_CStream_t` collects bits in a register and writes whole bytes of it to memory when it
is told to; `BIT_DStream_t` reads from the end of the bytes, through a register that it
reloads.  Both are driven by code that counts the bits in the register itself: adding more
bits than there is room for, or reading more than were loaded, goes wrong silently.

Both stand for a stack of bits.  As long as the register is not overrun, adding is pushing
and reading is popping, whatever the register holds; flushing and reloading change nothing
but the room in the register.  A stream that did not fit into memory says so when it is
closed.
-/

import ZstdJni.Foundation.BitStack
import ZstdJni.Native.LittleEndian

namespace ZstdJni.Entropy

open ZstdJni.Foundation ZstdJni.Native

/-- `sizeof(BitContainerType)`. -/
def registerBytes : WordSize → ℕ
  | .bits32 => 4
  | .bits64 => 8

theorem bits_eq (w : WordSize) : w.bits = 8 * registerBytes w := by
  cases w <;> rfl

/-- `ZSTD_highbit32` of a number that is not zero. -/
def highbit (v : ℕ) : ℕ := v.log2

/-- A number lies between the powers of two around its highest bit. -/
theorem highbit_spec {v : ℕ} (hv : v ≠ 0) : 2 ^ highbit v ≤ v ∧ v < 2 ^ (highbit v + 1) :=
  (Nat.log2_eq_iff hv).mp rfl

theorem highbit_lt {v n : ℕ} (hv : v ≠ 0) (hlt : v < 2 ^ n) : highbit v < n := by
  rw [← Nat.pow_lt_pow_iff_right (a := 2) (by decide)]
  exact Nat.lt_of_le_of_lt (highbit_spec hv).1 hlt

theorem le_highbit {v n : ℕ} (hle : 2 ^ n ≤ v) : n ≤ highbit v := by
  have hpos := Nat.two_pow_pos n
  have hv := (highbit_spec (v := v) (by omega)).2
  rw [← Nat.lt_succ_iff, ← Nat.pow_lt_pow_iff_right (a := 2) (by decide)]
  exact Nat.lt_of_le_of_lt hle hv

/-- What is left of a number below its highest bit. -/
theorem mod_highbit {v : ℕ} (hv : v ≠ 0) : v % 2 ^ highbit v = v - 2 ^ highbit v := by
  obtain ⟨hle, hlt⟩ := highbit_spec hv
  rw [Nat.pow_succ] at hlt
  rw [Nat.mod_eq_sub_mod hle, Nat.mod_eq_of_lt (by omega)]

/-- `BIT_CStream_t`.  The pointers are offsets in the destination. -/
structure BitCStream where
  bitContainer : ℕ
  bitPos : ℕ
  ptr : ℕ
  endPtr : ℕ
  dst : List Byte

section Writing

variable (w : WordSize) (c : BitCStream) (value nbBits : ℕ)

/-- `BIT_initCStream`. -/
def initCStream (dst : List Byte) : Except ErrorCode BitCStream :=
  if dst.length ≤ registerBytes w then .error .dstSizeTooSmall
  else .ok ⟨0, 0, 0, dst.length - registerBytes w, dst⟩

/-- `BIT_addBits`: the value is masked, moved to its place and set by an `or`. -/
def addBits : BitCStream :=
  { c with
    bitContainer := (c.bitContainer ||| ((value % 2 ^ nbBits) <<< c.bitPos)) % 2 ^ w.bits
    bitPos := c.bitPos + nbBits }

/-- `BIT_flushBits`: the whole register is written, and the pointer moves behind the bytes
that are complete, but not behind the end. -/
def flushBits : BitCStream :=
  let nbBytes := c.bitPos >>> 3
  { c with
    dst := overwrite c.dst c.ptr (bytesLE (registerBytes w) c.bitContainer)
    ptr := min (c.ptr + nbBytes) c.endPtr
    bitPos := c.bitPos &&& 7
    bitContainer := c.bitContainer >>> (nbBytes * 8) }

/-- `BIT_closeCStream`: the stream after the end mark, and its size, zero if it did not
fit. -/
def closeCStream : BitCStream × ℕ :=
  let c := flushBits w (addBits w c 1 1)
  if c.endPtr ≤ c.ptr then (c, 0) else (c, c.ptr + if 0 < c.bitPos then 1 else 0)

end Writing

/-- What a stream for writing stands for.  Once the pointer is at the end of the destination
the bits are lost, and nothing is said about them. -/
structure Holds (w : WordSize) (c : BitCStream) (s : BitStack) : Prop where
  container_lt : c.bitContainer < 2 ^ c.bitPos
  length_dst : c.dst.length = c.endPtr + registerBytes w
  ptr_le : c.ptr ≤ c.endPtr
  length_le : 8 * c.ptr + c.bitPos ≤ s.length
  length_eq : c.ptr < c.endPtr → s.length = 8 * c.ptr + c.bitPos
  value_eq : c.ptr < c.endPtr →
    s.value = littleEndian (c.dst.take c.ptr) + 2 ^ (8 * c.ptr) * c.bitContainer

/-- Bytes that are a stack of bits with the end mark above them. -/
structure IsClosed (bytes : List Byte) (s : BitStack) : Prop where
  length_eq : bytes.length = s.length / 8 + 1
  value_eq : littleEndian bytes = s.value + 2 ^ s.length

section Holds

variable {w : WordSize} {c : BitCStream} {s : BitStack}

theorem holds_initCStream {dst : List Byte} (hinit : initCStream w dst = .ok c) :
    Holds w c .empty ∧ c.bitPos = 0 ∧ c.endPtr + registerBytes w = dst.length := by
  unfold initCStream at hinit
  split_ifs at hinit with hsmall
  obtain rfl := Except.ok.inj hinit
  refine ⟨⟨Nat.one_pos, ?_, Nat.zero_le _, Nat.le_refl _, fun _ => rfl, fun _ => rfl⟩, rfl, ?_⟩
  · simp only
    omega
  · simp only
    omega

/-- Adding bits for which there is room is pushing. -/
theorem Holds.push (h : Holds w c s) (v : ℕ) {n : ℕ} (hroom : c.bitPos + n < w.bits) :
    Holds w (addBits w c v n) (s.push v n) := by
  have hor : (v % 2 ^ n) <<< c.bitPos + c.bitContainer =
      c.bitContainer ||| (v % 2 ^ n) <<< c.bitPos := by
    rw [Nat.or_comm]
    exact Nat.shiftLeft_add_eq_or_of_lt h.container_lt _
  have hfield : v % 2 ^ n + 1 ≤ 2 ^ n := Nat.mod_lt v (Nat.two_pow_pos n)
  have hsum : (v % 2 ^ n) <<< c.bitPos + c.bitContainer < 2 ^ (c.bitPos + n) := by
    have hmul := Nat.mul_le_mul_right (2 ^ c.bitPos) hfield
    rw [Nat.shiftLeft_eq, Nat.pow_add, Nat.mul_comm (2 ^ c.bitPos)]
    rw [Nat.add_mul, Nat.one_mul] at hmul
    have hlt := h.container_lt
    omega
  have hword : 2 ^ (c.bitPos + n) ≤ 2 ^ w.bits := Nat.pow_le_pow_right (by decide) (by omega)
  have hcontainer : (addBits w c v n).bitContainer =
      (v % 2 ^ n) <<< c.bitPos + c.bitContainer := by
    simp only [addBits, ← hor]
    exact Nat.mod_eq_of_lt (by omega)
  refine ⟨by rwa [hcontainer], h.length_dst, h.ptr_le, ?_, fun hptr => ?_, fun hptr => ?_⟩
  · have hlength := h.length_le
    simp only [addBits, BitStack.length_push]
    omega
  · have hlength := h.length_eq hptr
    simp only [addBits, BitStack.length_push]
    omega
  · rw [hcontainer, BitStack.value_push, h.value_eq hptr, h.length_eq hptr, Nat.shiftLeft_eq,
      Nat.pow_add]
    simp only [addBits]
    ring

theorem pow_bytes (count : ℕ) : 256 ^ count = 2 ^ (8 * count) := by
  rw [Nat.pow_mul]

/-- The number in front of a place behind some bytes that were just written. -/
theorem littleEndian_take_overwrite {dst : List Byte} {ptr count k : ℕ} (v : ℕ)
    (hfits : ptr + count ≤ dst.length) (hk : k ≤ count) :
    littleEndian ((overwrite dst ptr (bytesLE count v)).take (ptr + k)) =
      littleEndian (dst.take ptr) + 2 ^ (8 * ptr) * (v % 2 ^ (8 * k)) := by
  have hptr : (dst.take ptr).length = ptr := by
    rw [List.length_take]
    omega
  have htake : (overwrite dst ptr (bytesLE count v)).take (ptr + k) =
      dst.take ptr ++ (bytesLE count v).take k := by
    have hinside : k ≤ (bytesLE count v).length := by rwa [length_bytesLE]
    rw [overwrite, List.append_assoc]
    nth_rewrite 1 [← hptr]
    rw [List.take_length_add_append, List.take_append_of_le_length hinside]
  have hmod : v % 256 ^ count % 256 ^ k = v % 2 ^ (8 * k) := by
    rw [Nat.mod_mod_of_dvd _ (Nat.pow_dvd_pow 256 hk), pow_bytes]
  rw [htake, littleEndian_append, hptr, pow_bytes, littleEndian_take (bytesLE count v),
    littleEndian_bytesLE, hmod]

/-- Flushing keeps the bits and leaves at most seven of them in the register. -/
theorem Holds.flush (h : Holds w c s) (hroom : c.bitPos < w.bits) :
    Holds w (flushBits w c) s ∧ (flushBits w c).bitPos ≤ 7 := by
  obtain ⟨hcontainer, hlength, hle, hlengthLe, hlengthEq, hvalueEq⟩ := h
  have hbytes := bits_eq w
  have hnbBytes : c.bitPos >>> 3 = c.bitPos / 8 := Nat.shiftRight_eq_div_pow _ 3
  have hleft : c.bitPos &&& 7 = c.bitPos % 8 := Nat.and_two_pow_sub_one_eq_mod _ 3
  have hparts : c.bitPos = c.bitPos % 8 + c.bitPos / 8 * 8 := by omega
  simp only [flushBits, hnbBytes, hleft, Nat.shiftRight_eq_div_pow]
  refine ⟨⟨?_, ?_, Nat.min_le_right _ _, ?_, fun hptr => ?_, fun hptr => ?_⟩, by omega⟩
  · simp only
    rw [Nat.div_lt_iff_lt_mul (Nat.two_pow_pos _), ← Nat.pow_add, ← hparts]
    exact hcontainer
  · simp only
    rw [length_overwrite (by rw [length_bytesLE]; omega)]
    exact hlength
  · simp only
    omega
  · simp only at hptr ⊢
    rw [hlengthEq (by omega)]
    omega
  · simp only at hptr ⊢
    have hmin : min (c.ptr + c.bitPos / 8) c.endPtr = c.ptr + c.bitPos / 8 := by omega
    have hdiv := Nat.mod_add_div c.bitContainer (2 ^ (8 * (c.bitPos / 8)))
    rw [hmin, littleEndian_take_overwrite _ (by omega) (by omega), hvalueEq (by omega),
      Nat.mul_comm (c.bitPos / 8) 8]
    calc littleEndian (c.dst.take c.ptr) + 2 ^ (8 * c.ptr) * c.bitContainer
        = littleEndian (c.dst.take c.ptr) + 2 ^ (8 * c.ptr) *
            (c.bitContainer % 2 ^ (8 * (c.bitPos / 8)) +
              2 ^ (8 * (c.bitPos / 8)) * (c.bitContainer / 2 ^ (8 * (c.bitPos / 8)))) := by
          rw [hdiv]
      _ = _ := by
          rw [Nat.mul_add 8, Nat.pow_add]
          ring

/-- A stream that is closed with a size is its bits and the end mark.  The register held the
last byte, of which the rest is zero. -/
theorem Holds.isClosed (h : Holds w c s) (hroom : c.bitPos + 1 < w.bits)
    (hsize : (closeCStream w c).2 ≠ 0) :
    IsClosed ((closeCStream w c).1.dst.take (closeCStream w c).2) s := by
  have hmarked := h.push 1 hroom
  have hvalue : (s.push 1 1).value = s.value + 2 ^ s.length := by
    rw [BitStack.value_push, show 1 % 2 ^ 1 = 1 from rfl, Nat.mul_one]
  have hlength : (s.push 1 1).length = s.length + 1 := rfl
  have hmarkedRoom : (addBits w c 1 1).bitPos < w.bits := hroom
  unfold closeCStream at hsize ⊢
  generalize addBits w c 1 1 = marked at hmarked hmarkedRoom hsize ⊢
  obtain ⟨hcontainer, hdst, hle, -, hlengthEq, hvalueEq⟩ := hmarked
  have hbytes := bits_eq w
  have hnbBytes : marked.bitPos >>> 3 = marked.bitPos / 8 := Nat.shiftRight_eq_div_pow _ 3
  have hleft : marked.bitPos &&& 7 = marked.bitPos % 8 := Nat.and_two_pow_sub_one_eq_mod _ 3
  simp only [flushBits, hnbBytes, hleft] at hsize ⊢
  have hopen : ¬ marked.endPtr ≤ min (marked.ptr + marked.bitPos / 8) marked.endPtr := by
    intro hfull
    rw [if_pos hfull] at hsize
    exact hsize rfl
  rw [if_neg hopen]
  have hmin : min (marked.ptr + marked.bitPos / 8) marked.endPtr =
    marked.ptr + marked.bitPos / 8 := by
    omega
  have hcount : marked.ptr + marked.bitPos / 8 + (if 0 < marked.bitPos % 8 then 1 else 0) =
      marked.ptr + (marked.bitPos + 7) / 8 := by
    split_ifs <;> omega
  have hwhole : marked.bitContainer % 2 ^ (8 * ((marked.bitPos + 7) / 8)) = marked.bitContainer :=
    Nat.mod_eq_of_lt (Nat.lt_of_lt_of_le hcontainer (Nat.pow_le_pow_right (by decide) (by omega)))
  have hbefore : marked.ptr < marked.endPtr := by omega
  have hbits := hlengthEq hbefore
  simp only [hmin, hcount]
  constructor
  · rw [List.length_take, length_overwrite (by rw [length_bytesLE]; omega)]
    omega
  · rw [littleEndian_take_overwrite _ (by omega) (by omega), hwhole, ← hvalueEq hbefore, hvalue]

/-- Closing only gives no size if the destination is too short for the bits. -/
theorem Holds.fits (h : Holds w c s) (hroom : c.bitPos + 1 < w.bits)
    (hfits : s.length + 1 < 8 * c.endPtr) : (closeCStream w c).2 ≠ 0 := by
  have hflushed := ((h.push 1 hroom).flush hroom).1
  have hlength := hflushed.length_le
  have hend : (flushBits w (addBits w c 1 1)).endPtr = c.endPtr := rfl
  have hpush : (s.push 1 1).length = s.length + 1 := rfl
  unfold closeCStream
  generalize flushBits w (addBits w c 1 1) = closed at hflushed hlength hend ⊢
  simp only
  rw [if_neg (by omega)]
  have hbits := hflushed.length_eq (by omega)
  by_cases hpartial : 0 < closed.bitPos
  · simp only [if_pos hpartial]
    omega
  · simp only [if_neg hpartial]
    omega

end Holds

/-- `BIT_DStream_t`.  The pointers are offsets in the source. -/
structure BitDStream where
  bitContainer : ℕ
  bitsConsumed : ℕ
  ptr : ℕ
  src : List Byte

/-- `BIT_DStream_status`. -/
inductive DStreamStatus
  | unfinished
  | endOfBuffer
  | completed
  | overflow
  deriving DecidableEq

section Reading

variable (w : WordSize) (d : BitDStream) (nbBits : ℕ)

/-- `BIT_initDStream`. -/
def initDStream (src : List Byte) : Except ErrorCode BitDStream :=
  if src.length < 1 then .error .srcSizeWrong
  else
    let lastByte := (src.getLast?.getD 0).toNat
    if registerBytes w ≤ src.length then
      let ptr := src.length - registerBytes w
      if lastByte = 0 then .error .generic
      else .ok ⟨readLE src ptr (registerBytes w), 8 - highbit lastByte, ptr, src⟩
    else if lastByte = 0 then .error .corruptionDetected
    else
      .ok ⟨littleEndian src, 8 - highbit lastByte + (registerBytes w - src.length) * 8, 0, src⟩

/-- `BIT_lookBits`, which is `BIT_getMiddleBits`: the place of the field is masked to the
width of the register. -/
def lookBits : ℕ :=
  (d.bitContainer >>> (((w.bits : ℤ) - d.bitsConsumed - nbBits) % w.bits).toNat) % 2 ^ nbBits

/-- `BIT_lookBitsFast`. -/
def lookBitsFast : ℕ :=
  ((d.bitContainer <<< (d.bitsConsumed % w.bits)) % 2 ^ w.bits) >>>
    ((w.bits - nbBits) % w.bits)

/-- `BIT_skipBits`. -/
def skipBits : BitDStream := { d with bitsConsumed := d.bitsConsumed + nbBits }

/-- `BIT_readBits`. -/
def readBits : ℕ × BitDStream := (lookBits w d nbBits, skipBits d nbBits)

/-- `BIT_readBitsFast`. -/
def readBitsFast : ℕ × BitDStream := (lookBitsFast w d nbBits, skipBits d nbBits)

/-- `BIT_reloadDStream`.  Once too many bits are consumed nothing is reloaded any more, and
the pointer, which the code then diverts, does not matter. -/
def reloadDStream : DStreamStatus × BitDStream :=
  if w.bits < d.bitsConsumed then (.overflow, d)
  else if registerBytes w ≤ d.ptr then
    let ptr := d.ptr - d.bitsConsumed >>> 3
    (.unfinished, { d with
      ptr := ptr
      bitsConsumed := d.bitsConsumed &&& 7
      bitContainer := readLE d.src ptr (registerBytes w) })
  else if d.ptr = 0 then
    (if d.bitsConsumed < w.bits then .endOfBuffer else .completed, d)
  else
    let nbBytes := if d.ptr < d.bitsConsumed >>> 3 then d.ptr else d.bitsConsumed >>> 3
    let ptr := d.ptr - nbBytes
    (if d.ptr < d.bitsConsumed >>> 3 then .endOfBuffer else .unfinished, { d with
      ptr := ptr
      bitsConsumed := d.bitsConsumed - nbBytes * 8
      bitContainer := readLE d.src ptr (registerBytes w) })

/-- `BIT_endOfDStream`. -/
def endOfDStream : Bool := d.ptr == 0 && d.bitsConsumed == w.bits

end Reading

/-- The unread bits of a stream, of which `loaded` at least are in the register, or all of
them. -/
structure Unread (w : WordSize) (d : BitDStream) (s : BitStack) (loaded : ℕ) : Prop where
  length_eq : s.length + d.bitsConsumed = w.bits + 8 * d.ptr
  consumed_le : d.bitsConsumed ≤ w.bits
  container_eq : d.bitContainer = readLE d.src d.ptr (registerBytes w)
  value_eq : s.value = littleEndian d.src % 2 ^ s.length
  loaded_le : min loaded s.length + d.bitsConsumed ≤ w.bits

section Unread

variable {w : WordSize} {d : BitDStream} {s : BitStack} {loaded n : ℕ}

theorem registerBytes_pos (w : WordSize) : 0 < registerBytes w := by
  cases w <;> decide

/-- The number in the register, as a part of the number that all the bytes are. -/
theorem Unread.container (h : Unread w d s loaded) :
    d.bitContainer = littleEndian d.src / 2 ^ (8 * d.ptr) % 2 ^ w.bits := by
  rw [h.container_eq, readLE_eq, pow_bytes, pow_bytes, ← bits_eq]

/-- Bits that are loaded are read from the register. -/
theorem Unread.middle (h : Unread w d s loaded) (hn : n ≤ s.length) (hloaded : n ≤ loaded) :
    d.bitContainer / 2 ^ (w.bits - d.bitsConsumed - n) % 2 ^ n = s.top n := by
  have hle := h.loaded_le
  have hlength := h.length_eq
  have hbelow : s.length = s.length - n + n := by omega
  have hword : w.bits = (w.bits - d.bitsConsumed - n) + (n + d.bitsConsumed) := by omega
  have hplace : 8 * d.ptr + (w.bits - d.bitsConsumed - n) = s.length - n := by omega
  have htop : s.top n = littleEndian d.src / 2 ^ (s.length - n) % 2 ^ n := by
    rw [BitStack.top, h.value_eq]
    nth_rewrite 1 [hbelow]
    rw [Nat.pow_add, Nat.mod_mul_right_div_self]
  rw [h.container, htop, ← hplace, Nat.pow_add, ← Nat.div_div_eq_div_mul]
  nth_rewrite 1 [hword]
  rw [Nat.pow_add, Nat.mod_mul_right_div_self,
    Nat.mod_mod_of_dvd _ (Nat.pow_dvd_pow 2 (Nat.le_add_right n _))]

theorem Unread.lookBits (h : Unread w d s loaded) (hn : n ≤ s.length) (hloaded : n ≤ loaded) :
    lookBits w d n = s.top n := by
  have hle := h.loaded_le
  by_cases hzero : n = 0
  · subst hzero
    rw [Entropy.lookBits, Nat.pow_zero, Nat.mod_one, BitStack.top_zero]
  · have hshift : (((w.bits : ℤ) - d.bitsConsumed - n) % w.bits).toNat =
        w.bits - d.bitsConsumed - n := by
      rw [Int.emod_eq_of_lt (by omega) (by omega)]
      omega
    rw [Entropy.lookBits, hshift, Nat.shiftRight_eq_div_pow, h.middle hn hloaded]

theorem Unread.lookBitsFast (h : Unread w d s loaded) (hpos : 0 < n) (hn : n ≤ s.length)
    (hloaded : n ≤ loaded) : lookBitsFast w d n = s.top n := by
  have hle := h.loaded_le
  have hword : w.bits = (w.bits - d.bitsConsumed) + d.bitsConsumed := by omega
  have hplace : w.bits - n = d.bitsConsumed + (w.bits - d.bitsConsumed - n) := by omega
  have hfield : w.bits - d.bitsConsumed = (w.bits - d.bitsConsumed - n) + n := by omega
  have hup : d.bitsConsumed % w.bits = d.bitsConsumed := Nat.mod_eq_of_lt (by omega)
  have hdown : (w.bits - n) % w.bits = w.bits - n := Nat.mod_eq_of_lt (by omega)
  rw [Entropy.lookBitsFast, hup, hdown, Nat.shiftLeft_eq, Nat.shiftRight_eq_div_pow, hplace,
    Nat.pow_add 2 d.bitsConsumed, ← Nat.div_div_eq_div_mul]
  nth_rewrite 1 [hword]
  rw [Nat.pow_add, Nat.mul_mod_mul_right, Nat.mul_div_cancel _ (Nat.two_pow_pos _)]
  nth_rewrite 1 [hfield]
  rw [Nat.pow_add, Nat.mod_mul_right_div_self, h.middle hn hloaded]

/-- Skipping bits that are loaded is popping. -/
theorem Unread.skipBits (h : Unread w d s loaded) (hn : n ≤ s.length) (hloaded : n ≤ loaded) :
    Unread w (skipBits d n) (s.pop n) (loaded - n) := by
  have hlength := h.length_eq
  have hle := h.loaded_le
  refine ⟨?_, ?_, h.container_eq, ?_, ?_⟩
  · simp only [Entropy.skipBits, BitStack.length_pop]
    omega
  · simp only [Entropy.skipBits]
    omega
  · rw [BitStack.value_pop, h.value_eq, BitStack.length_pop,
      Nat.mod_mod_of_dvd _ (Nat.pow_dvd_pow 2 (Nat.sub_le _ _))]
    rfl
  · simp only [Entropy.skipBits, BitStack.length_pop]
    omega

/-- Reading pops a field, if it is loaded. -/
theorem Unread.readBits (h : Unread w d s loaded) (hn : n ≤ s.length) (hloaded : n ≤ loaded) :
    (readBits w d n).1 = s.top n ∧ Unread w (readBits w d n).2 (s.pop n) (loaded - n) :=
  ⟨h.lookBits hn hloaded, h.skipBits hn hloaded⟩

theorem Unread.readBitsFast (h : Unread w d s loaded) (hpos : 0 < n) (hn : n ≤ s.length)
    (hloaded : n ≤ loaded) :
    (readBitsFast w d n).1 = s.top n ∧ Unread w (readBitsFast w d n).2 (s.pop n) (loaded - n) :=
  ⟨h.lookBitsFast hpos hn hloaded, h.skipBits hn hloaded⟩

/-- A field that was pushed is read, if it is loaded. -/
theorem Unread.readPushed {v : ℕ} (h : Unread w d (s.push v n) loaded) (hn : n ≤ loaded) :
    (Entropy.readBits w d n).1 = v % 2 ^ n ∧
      Unread w (Entropy.readBits w d n).2 s (loaded - n) := by
  have hread := h.readBits (n := n) (by rw [BitStack.length_push]; omega) hn
  rwa [BitStack.top_push, BitStack.pop_push] at hread

theorem Unread.readPushedFast {v : ℕ} (h : Unread w d (s.push v n) loaded) (hpos : 0 < n)
    (hn : n ≤ loaded) :
    (Entropy.readBitsFast w d n).1 = v % 2 ^ n ∧
      Unread w (Entropy.readBitsFast w d n).2 s (loaded - n) := by
  have hread := h.readBitsFast (n := n) hpos (by rw [BitStack.length_push]; omega) hn
  rwa [BitStack.top_push, BitStack.pop_push] at hread

theorem Unread.mono (h : Unread w d s loaded) {m : ℕ} (hle : m ≤ loaded) : Unread w d s m := by
  have hloaded := h.loaded_le
  exact ⟨h.length_eq, h.consumed_le, h.container_eq, h.value_eq, by omega⟩

/-- Reloading keeps the unread bits and loads all but seven bits of a register, or all that
are left. -/
theorem Unread.reload (h : Unread w d s loaded) :
    Unread w (reloadDStream w d).2 s (w.bits - 7) := by
  obtain ⟨hlength, hconsumed, hcontainer, hvalue, hle⟩ := h
  have hbytes := bits_eq w
  have hnbBytes : d.bitsConsumed >>> 3 = d.bitsConsumed / 8 := Nat.shiftRight_eq_div_pow _ 3
  have hleft : d.bitsConsumed &&& 7 = d.bitsConsumed % 8 := Nat.and_two_pow_sub_one_eq_mod _ 3
  unfold reloadDStream
  rw [hnbBytes, hleft, if_neg (by omega)]
  by_cases hnormal : registerBytes w ≤ d.ptr
  · rw [if_pos hnormal]
    exact ⟨by simp only; omega, by simp only; omega, rfl, hvalue, by simp only; omega⟩
  · rw [if_neg hnormal]
    by_cases hstart : d.ptr = 0
    · rw [if_pos hstart]
      exact ⟨hlength, hconsumed, hcontainer, hvalue, by simp only; omega⟩
    · rw [if_neg hstart]
      by_cases hshort : d.ptr < d.bitsConsumed / 8
      · simp only [if_pos hshort]
        exact ⟨by simp only; omega, by simp only; omega, rfl, hvalue, by simp only; omega⟩
      · simp only [if_neg hshort]
        exact ⟨by simp only; omega, by simp only; omega, rfl, hvalue, by simp only; omega⟩

/-- A stream is at its end exactly if no bits are unread. -/
theorem Unread.endOfDStream (h : Unread w d s loaded) :
    endOfDStream w d = true ↔ s = .empty := by
  have hlength := h.length_eq
  have hconsumed := h.consumed_le
  rw [Entropy.endOfDStream, Bool.and_eq_true, beq_iff_eq, beq_iff_eq]
  constructor
  · rintro ⟨hptr, hall⟩
    exact BitStack.eq_empty_of_length (by omega)
  · rintro rfl
    simp only [BitStack.length_empty] at hlength
    omega

/-- The last byte is the highest part of the number. -/
theorem toNat_getLast {bytes : List Byte} (hne : bytes ≠ []) :
    (bytes.getLast?.getD 0).toNat = littleEndian bytes / 2 ^ (8 * (bytes.length - 1)) := by
  have hsplit := List.dropLast_append_getLast hne
  have hlt := littleEndian_lt bytes.dropLast
  rw [List.length_dropLast, pow_bytes] at hlt
  rw [List.getLast?_eq_some_getLast hne, Option.getD_some]
  nth_rewrite 2 [← hsplit]
  rw [littleEndian_append, List.length_dropLast, pow_bytes,
    Nat.add_mul_div_left _ _ (Nat.two_pow_pos _), Nat.div_eq_of_lt hlt, Nat.zero_add, littleEndian,
    littleEndian, Nat.mul_zero, Nat.add_zero]

/-- The end mark is the highest bit of the last byte. -/
theorem highbit_endMark {s : BitStack} :
    (s.value + 2 ^ s.length) / 2 ^ (8 * (s.length / 8)) ≠ 0 ∧
      highbit ((s.value + 2 ^ s.length) / 2 ^ (8 * (s.length / 8))) = s.length % 8 := by
  have hlength : 2 ^ s.length = 2 ^ (8 * (s.length / 8)) * 2 ^ (s.length % 8) := by
    rw [← Nat.pow_add, Nat.div_add_mod]
  have hvalue : s.value / 2 ^ (8 * (s.length / 8)) < 2 ^ (s.length % 8) := by
    rw [Nat.div_lt_iff_lt_mul (Nat.two_pow_pos _), Nat.mul_comm, ← hlength]
    exact s.value_lt
  have hmark : (s.value + 2 ^ s.length) / 2 ^ (8 * (s.length / 8)) =
      s.value / 2 ^ (8 * (s.length / 8)) + 2 ^ (s.length % 8) := by
    rw [hlength, Nat.add_mul_div_left _ _ (Nat.two_pow_pos _)]
  have hpos := Nat.two_pow_pos (s.length % 8)
  rw [hmark]
  generalize s.value / 2 ^ (8 * (s.length / 8)) = high at hvalue
  refine ⟨by omega, ?_⟩
  rw [highbit, Nat.log2_eq_iff (by omega), Nat.pow_succ]
  omega

/-- A stream that was closed is read from its topmost bit on. -/
theorem IsClosed.unread {bytes : List Byte} (h : IsClosed bytes s) :
    ∃ d, initDStream w bytes = .ok d ∧ Unread w d s (w.bits - 8) := by
  have hpos := registerBytes_pos w
  have hbytes := bits_eq w
  have hlength := h.length_eq
  have hne : bytes ≠ [] := by
    rintro rfl
    simp only [List.length_nil] at hlength
    omega
  have hlast : (bytes.getLast?.getD 0).toNat =
      (s.value + 2 ^ s.length) / 2 ^ (8 * (s.length / 8)) := by
    rw [toNat_getLast hne, h.value_eq, hlength, Nat.add_sub_cancel]
  have hvalue : s.value = littleEndian bytes % 2 ^ s.length := by
    rw [h.value_eq, Nat.add_mod_right, Nat.mod_eq_of_lt s.value_lt]
  obtain ⟨hmark, hhigh⟩ := highbit_endMark (s := s)
  have hwhole : littleEndian bytes = readLE bytes 0 (registerBytes w) ∨
      registerBytes w ≤ bytes.length := by
    by_cases hlarge : registerBytes w ≤ bytes.length
    · exact .inr hlarge
    · refine .inl ?_
      rw [readLE_eq, Nat.pow_zero, Nat.div_one, Nat.mod_eq_of_lt]
      exact Nat.lt_of_lt_of_le (littleEndian_lt bytes) (Nat.pow_le_pow_right (by decide) (by omega))
  unfold initDStream
  simp only [hlast, hhigh, hmark, if_false]
  rw [if_neg (by omega)]
  by_cases hlarge : registerBytes w ≤ bytes.length
  · rw [if_pos hlarge]
    exact ⟨_, rfl, by simp only; omega, by simp only; omega, rfl, hvalue, by simp only; omega⟩
  · rw [if_neg hlarge]
    exact ⟨_, rfl, by simp only; omega, by simp only; omega, hwhole.resolve_right hlarge, hvalue,
      by simp only; omega⟩

end Unread

end ZstdJni.Entropy
