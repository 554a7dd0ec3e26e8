-- SUMMARY: The ring buffer refines a bounded queue of bytes.
import ZigbeeGateway.Lib.Ring
import ZigbeeGateway.Lib.Run
import ZigbeeGateway.Kernel.Timer
import ZigbeeGateway.Kernel.Kservice

/-!
# Ring buffers of the device drivers

The model of `components/drivers/src/ringbuffer.c`. The two indices have 15 bits, and a
mirror bit beside each of them flips whenever the index goes back to zero, so that a full
buffer differs from an empty one. A copy that would leave the pool has no result.

`Refines` relates a buffer to the bytes it holds. Every call is defined and does what the
bounded queue `Fifo` does, so every sequence of calls does.
-/

namespace RtThread

open Run

/-- `enum rt_ringbuffer_state`. -/
inductive RingbufferState where
  | empty
  | full
  | halffull
  deriving DecidableEq, Repr

/-- `struct rt_ringbuffer`. `bufferPtr` holds the bytes of the pool, which has `poolSize` bytes;
the struct itself does not keep that number. -/
structure Ringbuffer where
  bufferPtr : Nat → UInt8
  poolSize : Nat
  readMirror : Bool
  readIndex : Nat
  writeMirror : Bool
  writeIndex : Nat
  bufferSize : Nat

namespace Ringbuffer

/-- `memcpy` into the pool, from slot `i` on. -/
def copyTo (rb : Ringbuffer) (i : Nat) (l : List UInt8) : Option Ringbuffer :=
  if i + l.length ≤ rb.poolSize then
    some { rb with bufferPtr := Ring.store rb.bufferPtr i l }
  else
    none

/-- `memcpy` of `n` bytes out of the pool, from slot `i` on. -/
def copyFrom (rb : Ringbuffer) (i n : Nat) : Option (List UInt8) :=
  if i + n ≤ rb.poolSize then some (Ring.load rb.bufferPtr i n) else none

/-- `rt_ringbuffer_init` on a pool of `size` bytes. -/
def rtRingbufferInit (pool : Nat → UInt8) (size : Nat) : Option Ringbuffer := do
  rtAssert (0 < size)
  return {
    bufferPtr := pool
    poolSize := size
    readMirror := false
    readIndex := 0
    writeMirror := false
    writeIndex := 0
    bufferSize := rtAlignDown size }

def rtRingbufferStatus (rb : Ringbuffer) : RingbufferState :=
  if rb.readIndex = rb.writeIndex then
    if rb.readMirror = rb.writeMirror then .empty else .full
  else
    .halffull

def rtRingbufferDataLen (rb : Ringbuffer) : Nat :=
  match rb.rtRingbufferStatus with
  | .empty => 0
  | .full => rb.bufferSize
  | .halffull =>
    if rb.readIndex < rb.writeIndex then
      rb.writeIndex - rb.readIndex
    else
      rb.bufferSize - (rb.readIndex - rb.writeIndex)

def rtRingbufferSpaceLen (rb : Ringbuffer) : Nat := rb.bufferSize - rb.rtRingbufferDataLen

/-- `rt_ringbuffer_put` of the block `ptr`. -/
def rtRingbufferPut (rb : Ringbuffer) (ptr : List UInt8) : Option (Ringbuffer × Nat) :=
  let size := rb.rtRingbufferSpaceLen
  if size = 0 then
    some (rb, 0)
  else
    -- drop some data
    let length := if size < ptr.length then size else ptr.length
    let first := rb.bufferSize - rb.writeIndex
    if length < first then do
      let rb ← rb.copyTo rb.writeIndex (ptr.take length)
      return ({ rb with writeIndex := (rb.writeIndex + length) % 32768 }, length)
    else do
      let rb ← rb.copyTo rb.writeIndex (ptr.take first)
      let rb ← rb.copyTo 0 ((ptr.drop first).take (length - first))
      -- we are going into the other side of the mirror
      return ({ rb with
        writeMirror := !rb.writeMirror
        writeIndex := (length - first) % 32768 }, length)

/-- `rt_ringbuffer_put_force` of the block `ptr`. -/
def rtRingbufferPutForce (rb : Ringbuffer) (ptr : List UInt8) : Option (Ringbuffer × Nat) :=
  let oldState := rb.rtRingbufferStatus
  let length := if rb.bufferSize < ptr.length then rb.bufferSize else ptr.length
  let first := rb.bufferSize - rb.writeIndex
  if length < first then do
    let rb ← rb.copyTo rb.writeIndex (ptr.take length)
    let rb := { rb with writeIndex := (rb.writeIndex + length) % 32768 }
    if oldState = .full then
      return ({ rb with readIndex := rb.writeIndex }, length)
    else
      return (rb, length)
  else do
    let rb ← rb.copyTo rb.writeIndex (ptr.take first)
    let rb ← rb.copyTo 0 ((ptr.drop first).take (length - first))
    -- we are going into the other side of the mirror
    let rb := { rb with
      writeMirror := !rb.writeMirror
      writeIndex := (length - first) % 32768 }
    if oldState = .full then
      return ({ rb with readMirror := !rb.readMirror, readIndex := rb.writeIndex }, length)
    else
      return (rb, length)

/-- `rt_ringbuffer_get` of at most `length` bytes. -/
def rtRingbufferGet (rb : Ringbuffer) (length : Nat) :
    Option (Ringbuffer × Nat × List UInt8) :=
  let size := rb.rtRingbufferDataLen
  if size = 0 then
    some (rb, 0, [])
  else
    -- less data
    let length := if size < length then size else length
    let first := rb.bufferSize - rb.readIndex
    if length < first then do
      let data ← rb.copyFrom rb.readIndex length
      return ({ rb with readIndex := (rb.readIndex + length) % 32768 }, length, data)
    else do
      let front ← rb.copyFrom rb.readIndex first
      let back ← rb.copyFrom 0 (length - first)
      return ({ rb with
        readMirror := !rb.readMirror
        readIndex := (length - first) % 32768 }, length, front ++ back)

/-- `rt_ringbuffer_putchar`. -/
def rtRingbufferPutchar (rb : Ringbuffer) (ch : UInt8) : Option (Ringbuffer × Nat) :=
  if rb.rtRingbufferSpaceLen = 0 then
    some (rb, 0)
  else do
    let rb ← rb.copyTo rb.writeIndex [ch]
    if rb.writeIndex = rb.bufferSize - 1 then
      return ({ rb with writeMirror := !rb.writeMirror, writeIndex := 0 }, 1)
    else
      return ({ rb with writeIndex := (rb.writeIndex + 1) % 32768 }, 1)

/-- `rt_ringbuffer_putchar_force`. -/
def rtRingbufferPutcharForce (rb : Ringbuffer) (ch : UInt8) : Option (Ringbuffer × Nat) := do
  let oldState := rb.rtRingbufferStatus
  let rb ← rb.copyTo rb.writeIndex [ch]
  if rb.writeIndex = rb.bufferSize - 1 then
    let rb := { rb with writeMirror := !rb.writeMirror, writeIndex := 0 }
    if oldState = .full then
      return ({ rb with readMirror := !rb.readMirror, readIndex := rb.writeIndex }, 1)
    else
      return (rb, 1)
  else
    let rb := { rb with writeIndex := (rb.writeIndex + 1) % 32768 }
    if oldState = .full then
      return ({ rb with readIndex := rb.writeIndex }, 1)
    else
      return (rb, 1)

/-- `rt_ringbuffer_getchar`. -/
def rtRingbufferGetchar (rb : Ringbuffer) : Option (Ringbuffer × Nat × List UInt8) :=
  if rb.rtRingbufferDataLen = 0 then
    some (rb, 0, [])
  else do
    let ch ← rb.copyFrom rb.readIndex 1
    if rb.readIndex = rb.bufferSize - 1 then
      return ({ rb with readMirror := !rb.readMirror, readIndex := 0 }, 1, ch)
    else
      return ({ rb with readIndex := (rb.readIndex + 1) % 32768 }, 1, ch)

/-! ## How many bytes a call moves -/

section Count

variable {rb rb' : Ringbuffer} {ptr l : List UInt8} {n m : Nat}

theorem ite_lt_eq_min (m n : Nat) : (if m < n then m else n) = min m n := by
  split <;> omega

theorem rtRingbufferGet_count (h : rb.rtRingbufferGet n = some (rb', m, l)) :
    m = min rb.rtRingbufferDataLen n := by
  simp only [rtRingbufferGet, ite_lt_eq_min] at h
  split at h
  next hzero =>
    cases h
    rw [hzero, Nat.zero_min]
  next =>
    split at h
    next =>
      obtain ⟨data, -, ⟨⟩⟩ := Option.bind_eq_some_iff.mp h
      rfl
    next =>
      obtain ⟨front, -, h⟩ := Option.bind_eq_some_iff.mp h
      obtain ⟨back, -, ⟨⟩⟩ := Option.bind_eq_some_iff.mp h
      rfl

theorem rtRingbufferPut_count (h : rb.rtRingbufferPut ptr = some (rb', m)) :
    m = min rb.rtRingbufferSpaceLen ptr.length := by
  simp only [rtRingbufferPut, ite_lt_eq_min] at h
  split at h
  next hzero =>
    cases h
    rw [hzero, Nat.zero_min]
  next =>
    split at h
    next =>
      obtain ⟨rb1, -, ⟨⟩⟩ := Option.bind_eq_some_iff.mp h
      rfl
    next =>
      obtain ⟨rb1, -, h⟩ := Option.bind_eq_some_iff.mp h
      obtain ⟨rb2, -, ⟨⟩⟩ := Option.bind_eq_some_iff.mp h
      rfl

end Count

/-! ## Moving the indices -/

/-- Both indices are in the pool. -/
structure Valid (rb : Ringbuffer) : Prop where
  pool : rb.bufferSize ≤ rb.poolSize
  size_lt : rb.bufferSize < 32768
  read_lt : rb.readIndex < rb.bufferSize
  write_lt : rb.writeIndex < rb.bufferSize

/-- The buffer after the bytes `bs` were written at the write index. -/
def wrote (rb : Ringbuffer) (bs : List UInt8) : Ringbuffer :=
  { rb with
    bufferPtr := Ring.fill rb.bufferPtr rb.bufferSize rb.writeIndex bs
    writeMirror := rb.writeMirror ^^ decide (rb.bufferSize ≤ rb.writeIndex + bs.length)
    writeIndex := (rb.writeIndex + bs.length) % rb.bufferSize }

/-- The buffer after `n` bytes were read. -/
def skipped (rb : Ringbuffer) (n : Nat) : Ringbuffer :=
  { rb with
    readMirror := rb.readMirror ^^ decide (rb.bufferSize ≤ rb.readIndex + n)
    readIndex := (rb.readIndex + n) % rb.bufferSize }

variable {rb : Ringbuffer} {l ptr : List UInt8} {n first : Nat}

theorem mod_around {size i : Nat} (hle : size ≤ i) (hlt : i - size < size) : i % size = i - size := by
  rw [Nat.mod_eq_sub_mod hle, Nat.mod_eq_of_lt hlt]

/-- An index that moves on by one goes around from the last slot. -/
theorem index_succ {size i : Nat} (hsize : size < 32768) (hi : i < size) :
    (size ≤ i + 1 ↔ i = size - 1) ∧ (i + 1) % size = if i = size - 1 then 0 else (i + 1) % 32768 := by
  refine ⟨by omega, ?_⟩
  split
  · have hnext : i + 1 = size := by omega
    rw [hnext, Nat.mod_self]
  · rw [Nat.mod_eq_of_lt (by omega), Nat.mod_eq_of_lt (by omega)]

theorem copyTo_eq {i : Nat} {bs : List UInt8} (hi : i + bs.length ≤ rb.poolSize) :
    rb.copyTo i bs = some { rb with bufferPtr := Ring.store rb.bufferPtr i bs } := if_pos hi

theorem copyFrom_eq {i n : Nat} (hi : i + n ≤ rb.poolSize) :
    rb.copyFrom i n = some (Ring.load rb.bufferPtr i n) := if_pos hi

namespace Valid

variable (h : Valid rb)

include h

theorem wrote_nil : rb.wrote [] = rb := by
  have hnot := h.write_lt.not_ge
  simp [wrote, Ring.fill, hnot, Nat.mod_eq_of_lt h.write_lt]

theorem skipped_zero : rb.skipped 0 = rb := by
  have hnot := h.read_lt.not_ge
  simp [skipped, hnot, Nat.mod_eq_of_lt h.read_lt]

theorem dataLen_le : rb.rtRingbufferDataLen ≤ rb.bufferSize := by
  have hwrite := h.write_lt
  unfold rtRingbufferDataLen
  split
  · exact Nat.zero_le _
  · exact le_rfl
  · split <;> omega

/-- A block of `n` bytes that ends before the end of the pool. -/
theorem write_near {β : Type} (hlen : n ≤ ptr.length) (hn : n < rb.bufferSize - rb.writeIndex)
    (k : Ringbuffer → Option β) :
    (do
      let rb ← rb.copyTo rb.writeIndex (ptr.take n)
      k { rb with writeIndex := (rb.writeIndex + n) % 32768 }) = k (rb.wrote (ptr.take n)) := by
  have hpool := h.pool
  have hsize := h.size_lt
  have hbs : (ptr.take n).length = n := List.length_take_of_le hlen
  have hnot : ¬ rb.bufferSize ≤ rb.writeIndex + n := by omega
  have hfill : Ring.store rb.bufferPtr rb.writeIndex (ptr.take n) =
      Ring.fill rb.bufferPtr rb.bufferSize rb.writeIndex (ptr.take n) :=
    Ring.store_eq_fill (by omega)
  rw [copyTo_eq (by omega), hfill]
  simp [wrote, hbs, hnot, Nat.mod_eq_of_lt (show rb.writeIndex + n < 32768 by omega),
    Nat.mod_eq_of_lt (Nat.not_le.mp hnot)]

/-- A block in two parts: up to the end of the pool, and from its start. -/
theorem write_around {β : Type} (hlen : n ≤ ptr.length) (hle : n ≤ rb.bufferSize)
    (hf : rb.bufferSize - rb.writeIndex = first) (hn : ¬ n < first) (k : Ringbuffer → Option β) :
    (do
      let rb ← rb.copyTo rb.writeIndex (ptr.take first)
      let rb ← rb.copyTo 0 ((ptr.drop first).take (n - first))
      k { rb with writeMirror := !rb.writeMirror, writeIndex := (n - first) % 32768 }) =
      k (rb.wrote (ptr.take n)) := by
  have hpool := h.pool
  have hsize := h.size_lt
  have hwrite := h.write_lt
  have hbs : (ptr.take n).length = n := List.length_take_of_le hlen
  have hfront : (ptr.take first).length = first := List.length_take_of_le (by omega)
  have hback : ((ptr.drop first).take (n - first)).length = n - first :=
    List.length_take_of_le (by rw [List.length_drop]; omega)
  have haround : rb.bufferSize ≤ rb.writeIndex + n := by omega
  have hfill : Ring.fill rb.bufferPtr rb.bufferSize rb.writeIndex (ptr.take n) =
      Ring.store (Ring.store rb.bufferPtr rb.writeIndex (ptr.take first)) 0
        ((ptr.drop first).take (n - first)) := by
    have hparts : ptr.take n = ptr.take first ++ (ptr.drop first).take (n - first) := by
      rw [← List.take_add, Nat.add_sub_cancel' (by omega)]
    have hend : (rb.writeIndex + first) % rb.bufferSize = 0 := by
      rw [← hf, Nat.add_sub_cancel' hwrite.le, Nat.mod_self]
    rw [hparts, Ring.fill_append hwrite, hfront, hend, ← Ring.store_eq_fill (by omega),
      ← Ring.store_eq_fill (by omega)]
  have hindex : (rb.writeIndex + n) % rb.bufferSize = n - first := by
    rw [mod_around haround (by omega)]
    omega
  rw [copyTo_eq (by omega), Option.bind_eq_bind, Option.bind_some, copyTo_eq (by simp only; omega)]
  simp [wrote, hbs, hfill, haround, hindex, Nat.mod_eq_of_lt (show n - first < 32768 by omega)]

/-- As many bytes are written as there is room for. -/
theorem put_eq (ptr : List UInt8) : rb.rtRingbufferPut ptr =
    some (rb.wrote (ptr.take rb.rtRingbufferSpaceLen), min ptr.length rb.rtRingbufferSpaceLen) := by
  have hspace : rb.rtRingbufferSpaceLen ≤ rb.bufferSize := Nat.sub_le ..
  unfold rtRingbufferPut
  generalize rb.rtRingbufferSpaceLen = space at *
  by_cases hzero : space = 0
  · simp [hzero, h.wrote_nil]
  · have hcut : (if space < ptr.length then space else ptr.length) = min ptr.length space := by
      split <;> omega
    have htake : ptr.take space = ptr.take (min ptr.length space) := by
      rw [Nat.min_comm, ← List.take_eq_take_min]
    rw [htake]
    simp only [if_neg hzero, hcut]
    split
    next hn => exact h.write_near (by omega) hn fun rb => some (rb, _)
    next hn => exact h.write_around (by omega) (by omega) rfl hn fun rb => some (rb, _)

/-- The bytes from the read index on are read, as many as there are. -/
theorem get_eq (n : Nat) : rb.rtRingbufferGet n =
    some (rb.skipped (min n rb.rtRingbufferDataLen), min n rb.rtRingbufferDataLen,
      Ring.contents rb.bufferPtr rb.bufferSize rb.readIndex (min n rb.rtRingbufferDataLen)) := by
  have hpool := h.pool
  have hsize := h.size_lt
  have hread := h.read_lt
  have hle := h.dataLen_le
  unfold rtRingbufferGet
  generalize rb.rtRingbufferDataLen = size at *
  by_cases hzero : size = 0
  · simp [hzero, h.skipped_zero, Ring.contents]
  · have hcut : (if size < n then size else n) = min n size := by
      split <;> omega
    simp only [if_neg hzero, hcut]
    generalize hm : min n size = m
    by_cases hn : m < rb.bufferSize - rb.readIndex
    · have hnot : ¬ rb.bufferSize ≤ rb.readIndex + m := by omega
      rw [if_pos hn, copyFrom_eq (by omega), Ring.contents_eq_load (by omega)]
      simp [skipped, hnot, Nat.mod_eq_of_lt (show rb.readIndex + m < 32768 by omega),
        Nat.mod_eq_of_lt (Nat.not_le.mp hnot)]
    · generalize hf : rb.bufferSize - rb.readIndex = first at hn
      have haround : rb.bufferSize ≤ rb.readIndex + m := by omega
      have hindex : (rb.readIndex + m) % rb.bufferSize = m - first := by
        rw [mod_around haround (by omega)]
        omega
      have hparts : Ring.contents rb.bufferPtr rb.bufferSize rb.readIndex m =
          Ring.load rb.bufferPtr rb.readIndex first ++ Ring.load rb.bufferPtr 0 (m - first) := by
        have hend : (rb.readIndex + first) % rb.bufferSize = 0 := by
          rw [← hf, Nat.add_sub_cancel' hread.le, Nat.mod_self]
        rw [← Nat.add_sub_cancel' (show first ≤ m by omega), Ring.contents_add, hend,
          Ring.contents_eq_load (by omega), Ring.contents_eq_load (by omega), Nat.add_sub_cancel_left]
      rw [if_neg hn, copyFrom_eq (by omega), Option.bind_eq_bind, Option.bind_some,
        copyFrom_eq (by omega), hparts]
      simp [skipped, haround, hindex, Nat.mod_eq_of_lt (show m - first < 32768 by omega)]

theorem putchar_eq (ch : UInt8) : rb.rtRingbufferPutchar ch = rb.rtRingbufferPut [ch] := by
  have hpool := h.pool
  have hwrite := h.write_lt
  obtain ⟨haround, hindex⟩ := index_succ h.size_lt hwrite
  rw [h.put_eq]
  unfold rtRingbufferPutchar
  split
  next hzero => simp [hzero, h.wrote_nil]
  next hzero =>
    have htake : [ch].take rb.rtRingbufferSpaceLen = [ch] := List.take_of_length_le (by simp; omega)
    have hone : min [ch].length rb.rtRingbufferSpaceLen = 1 := by simp; omega
    rw [copyTo_eq (by simp; omega), htake, hone]
    simp only [Option.bind_eq_bind, Option.bind_some, wrote, List.length_singleton, haround, hindex]
    split <;> simp [*, Ring.fill, Ring.store]

theorem getchar_eq : rb.rtRingbufferGetchar = rb.rtRingbufferGet 1 := by
  have hpool := h.pool
  have hread := h.read_lt
  obtain ⟨haround, hindex⟩ := index_succ h.size_lt hread
  rw [h.get_eq]
  unfold rtRingbufferGetchar
  split
  next hzero => simp [hzero, h.skipped_zero, Ring.contents]
  next hzero =>
    have hone : min 1 rb.rtRingbufferDataLen = 1 := by omega
    rw [hone, copyFrom_eq (by omega), Ring.contents_eq_load (by omega)]
    simp only [Option.bind_eq_bind, Option.bind_some, skipped, haround, hindex]
    split <;> simp [*]

end Valid

/-- The buffer after a forced write of a block of at most `buffer_size` bytes. -/
def forced (rb : Ringbuffer) (ptr : List UInt8) : Ringbuffer :=
  let around := decide (rb.bufferSize ≤ rb.writeIndex + ptr.length)
  let index := (rb.writeIndex + ptr.length) % rb.bufferSize
  let full := rb.rtRingbufferStatus = .full
  { rb with
    bufferPtr := Ring.fill rb.bufferPtr rb.bufferSize rb.writeIndex ptr
    writeMirror := rb.writeMirror ^^ around
    writeIndex := index
    readMirror := if full then rb.readMirror ^^ around else rb.readMirror
    readIndex := if full then index else rb.readIndex }

theorem Valid.putcharForce_eq (h : Valid rb) (ch : UInt8) :
    rb.rtRingbufferPutcharForce ch = some (rb.forced [ch], 1) := by
  have hpool := h.pool
  have hwrite := h.write_lt
  obtain ⟨haround, hindex⟩ := index_succ h.size_lt hwrite
  unfold rtRingbufferPutcharForce
  rw [copyTo_eq (by simp; omega)]
  simp only [Option.bind_eq_bind, Option.bind_some, forced, List.length_singleton, haround, hindex]
  split <;> split <;> simp [*, Ring.fill, Ring.store]

/-- In a full buffer the oldest bytes are read away before the new ones are written. -/
theorem forced_of_full {bs : List UInt8} (hfull : rb.rtRingbufferStatus = .full)
    (hsame : rb.readIndex = rb.writeIndex) : rb.forced bs = (rb.skipped bs.length).wrote bs := by
  simp [forced, wrote, skipped, hfull, hsame]

theorem forced_of_room {bs : List UInt8} (hstate : rb.rtRingbufferStatus ≠ .full) :
    rb.forced bs = rb.wrote bs := by
  simp [forced, wrote, hstate]

/-! ## The bytes of a buffer -/

/-- The buffer holds the bytes `l`, oldest first. The write index is past the end of the pool
exactly when the mirror bits differ. -/
structure Refines (rb : Ringbuffer) (l : List UInt8) : Prop where
  pool : rb.bufferSize ≤ rb.poolSize
  size_lt : rb.bufferSize < 32768
  read_lt : rb.readIndex < rb.bufferSize
  le : l.length ≤ rb.bufferSize
  write : rb.readMirror = rb.writeMirror ∧ rb.writeIndex = rb.readIndex + l.length ∧
      rb.writeIndex < rb.bufferSize ∨
    rb.readMirror ≠ rb.writeMirror ∧ rb.writeIndex + rb.bufferSize = rb.readIndex + l.length
  contents : Ring.contents rb.bufferPtr rb.bufferSize rb.readIndex l.length = l

namespace Refines

variable (h : Refines rb l)

include h

theorem write_lt : rb.writeIndex < rb.bufferSize := by
  have := h.read_lt
  have := h.le
  rcases h.write with ⟨-, -, hlt⟩ | ⟨-, hw⟩ <;> omega

theorem write_eq : rb.writeIndex = (rb.readIndex + l.length) % rb.bufferSize := by
  rcases h.write with ⟨-, hw, hlt⟩ | ⟨-, hw⟩
  · rw [← hw, Nat.mod_eq_of_lt hlt]
  · rw [← hw, Nat.add_mod_right, Nat.mod_eq_of_lt h.write_lt]

theorem status_full : rb.rtRingbufferStatus = .full ↔ l.length = rb.bufferSize := by
  unfold rtRingbufferStatus
  rcases h.write with ⟨hm, hw, hlt⟩ | ⟨hm, hw⟩
  · rw [if_pos hm]
    split <;> simp <;> omega
  · rw [if_neg hm]
    split <;> simp <;> omega

/-- The number of stored bytes, from the indices and the mirror bits. -/
theorem dataLen : rb.rtRingbufferDataLen = l.length := by
  have := h.le
  unfold rtRingbufferDataLen rtRingbufferStatus
  rcases h.write with ⟨hm, hw, -⟩ | ⟨hm, hw⟩
  · rw [if_pos hm]
    by_cases heq : rb.readIndex = rb.writeIndex
    · simp only [heq, if_true]
      omega
    · simp only [heq, if_false]
      split <;> omega
  · rw [if_neg hm]
    by_cases heq : rb.readIndex = rb.writeIndex
    · simp only [heq, if_true]
      omega
    · simp only [heq, if_false]
      split <;> omega

theorem spaceLen : rb.rtRingbufferSpaceLen = rb.bufferSize - l.length := by
  rw [rtRingbufferSpaceLen, h.dataLen]

theorem valid : Valid rb := ⟨h.pool, h.size_lt, h.read_lt, h.write_lt⟩

theorem holds : Ring.Holds rb.bufferPtr rb.bufferSize rb.writeIndex rb.readIndex l.length l :=
  ⟨h.le, fun _ => h.read_lt, h.write_eq, h.contents⟩

/-- Bytes are stored behind the ones that are there, and the write index moves on. -/
theorem wrote {bs : List UInt8} (hfit : l.length + bs.length ≤ rb.bufferSize) :
    Refines (rb.wrote bs) (l ++ bs) := by
  have hwrite := h.write_lt
  have hread := h.read_lt
  refine ⟨h.pool, h.size_lt, hread, by rw [List.length_append]; exact hfit, ?_, ?_⟩
  · simp only [Ringbuffer.wrote, List.length_append]
    by_cases haround : rb.bufferSize ≤ rb.writeIndex + bs.length
    · rw [mod_around haround (by omega)]
      rcases h.write with ⟨hm, hold, -⟩ | ⟨-, hold⟩
      · exact .inr ⟨by simp [haround, hm], by omega⟩
      · -- the write index goes around at most once more than the read index
        omega
    · rw [Nat.mod_eq_of_lt (by omega)]
      rcases h.write with ⟨hm, hold, -⟩ | ⟨hm, hold⟩
      · exact .inl ⟨by simp [haround, hm], by omega, by omega⟩
      · exact .inr ⟨by simpa [haround] using hm, by omega⟩
  · rw [List.length_append]
    exact (h.holds.fill bs hfit).contents

/-- The read index moves over the first `n` bytes. -/
theorem skipped (hn : n ≤ l.length) : Refines (rb.skipped n) (l.drop n) := by
  have hread := h.read_lt
  have hle := h.le
  have hwrite := h.write_lt
  refine ⟨h.pool, h.size_lt, Nat.mod_lt _ (by omega), ?_, ?_, ?_⟩
  · exact (List.drop_sublist n l).length_le.trans hle
  · simp only [Ringbuffer.skipped, List.length_drop]
    by_cases haround : rb.bufferSize ≤ rb.readIndex + n
    · rw [mod_around haround (by omega)]
      rcases h.write with ⟨-, hold, -⟩ | ⟨hm, hold⟩
      · omega
      · exact .inl ⟨by simpa [haround] using Bool.eq_not.mpr hm, by omega, by omega⟩
    · rw [Nat.mod_eq_of_lt (by omega)]
      rcases h.write with ⟨hm, hold, hlt⟩ | ⟨hm, hold⟩
      · exact .inl ⟨by simp [haround, hm], by omega, hlt⟩
      · exact .inr ⟨by simpa [haround] using hm, by omega⟩
  · rw [List.length_drop]
    exact (h.holds.drop hn).contents

theorem put (ptr : List UInt8) :
    ∃ rb', rb.rtRingbufferPut ptr = some (rb', min ptr.length (rb.bufferSize - l.length)) ∧
      rb'.bufferSize = rb.bufferSize ∧
      Refines rb' (l ++ ptr.take (rb.bufferSize - l.length)) := by
  have hle := h.le
  rw [h.valid.put_eq, h.spaceLen]
  refine ⟨_, rfl, rfl, h.wrote ?_⟩
  rw [List.length_take]
  omega

theorem get (n : Nat) :
    ∃ rb', rb.rtRingbufferGet n = some (rb', min n l.length, l.take n) ∧
      rb'.bufferSize = rb.bufferSize ∧ Refines rb' (l.drop n) := by
  have hmin : min n l.length ≤ l.length := Nat.min_le_right ..
  have hfirst : Ring.contents rb.bufferPtr rb.bufferSize rb.readIndex (min n l.length) = l.take n := by
    have hsplit := h.contents
    rw [← Nat.add_sub_cancel' hmin, Ring.contents_add] at hsplit
    rw [List.take_eq_take_min, ← hsplit]
    simp
  rw [h.valid.get_eq, h.dataLen, hfirst, List.drop_eq_drop_min]
  exact ⟨_, rfl, rfl, h.skipped hmin⟩

/-- In a full buffer the new byte takes the slot of the oldest one. -/
theorem putcharForce (ch : UInt8) :
    ∃ rb', rb.rtRingbufferPutcharForce ch = some (rb', 1) ∧ rb'.bufferSize = rb.bufferSize ∧
      Refines rb' ((l ++ [ch]).drop (l.length + 1 - rb.bufferSize)) := by
  have hread := h.read_lt
  refine ⟨_, h.valid.putcharForce_eq ch, rfl, ?_⟩
  rcases Nat.lt_or_eq_of_le h.le with hlt | hfull
  · rw [forced_of_room (fun hstate => hlt.ne (h.status_full.mp hstate)), Nat.sub_eq_zero_of_le hlt]
    exact h.wrote hlt
  · have hsame : rb.readIndex = rb.writeIndex := by
      rcases h.write with ⟨-, hw, hlt⟩ | ⟨-, hw⟩ <;> omega
    have hone : l.length + 1 - rb.bufferSize = 1 := by omega
    rw [forced_of_full (h.status_full.mpr hfull) hsame, hone,
      List.drop_append_of_le_length (by omega)]
    refine (h.skipped (n := 1) (by omega)).wrote ?_
    rw [List.length_drop]
    change l.length - 1 + 1 ≤ rb.bufferSize
    omega

end Refines

/-! ## Sequences of calls -/

inductive Op where
  | put (ptr : List UInt8)
  | get (length : Nat)
  | putchar (ch : UInt8)
  | getchar
  | putcharForce (ch : UInt8)
  deriving DecidableEq, Repr

/-- What a call returns, and the bytes it stores for its caller. -/
structure Result where
  ret : Nat
  data : List UInt8
  deriving DecidableEq, Repr

def exec (rb : Ringbuffer) : Op → Option (Ringbuffer × Result)
  | .put ptr => (rb.rtRingbufferPut ptr).map fun (rb, ret) => (rb, ⟨ret, []⟩)
  | .get length => (rb.rtRingbufferGet length).map fun (rb, ret, data) => (rb, ⟨ret, data⟩)
  | .putchar ch => (rb.rtRingbufferPutchar ch).map fun (rb, ret) => (rb, ⟨ret, []⟩)
  | .getchar => rb.rtRingbufferGetchar.map fun (rb, ret, data) => (rb, ⟨ret, data⟩)
  | .putcharForce ch => (rb.rtRingbufferPutcharForce ch).map fun (rb, ret) => (rb, ⟨ret, []⟩)

/-- The calls on a bounded queue of bytes. -/
def spec {cap : Nat} (q : Fifo UInt8 cap) : Op → Fifo UInt8 cap × Result
  | .put ptr => (q.put ptr, ⟨min ptr.length q.space, []⟩)
  | .get length => (q.drop length, ⟨min length q.items.length, q.items.take length⟩)
  | .putchar ch => (q.put [ch], ⟨min 1 q.space, []⟩)
  | .getchar => (q.drop 1, ⟨min 1 q.items.length, q.items.take 1⟩)
  | .putcharForce ch => (q.force ch, ⟨1, []⟩)

theorem exec_refines {cap : Nat} (rb : Ringbuffer) (q : Fifo UInt8 cap) (op : Op)
    (h : rb.bufferSize = cap ∧ Refines rb q.items) :
    ∃ rb', rb.exec op = some (rb', (spec q op).2) ∧
      rb'.bufferSize = cap ∧ Refines rb' (spec q op).1.items := by
  obtain ⟨rfl, h⟩ := h
  cases op with
  | put ptr =>
    obtain ⟨rb', hrb', hsize, hq⟩ := h.put ptr
    exact ⟨rb', by rw [exec, hrb']; rfl, hsize, hq⟩
  | get length =>
    obtain ⟨rb', hrb', hsize, hq⟩ := h.get length
    exact ⟨rb', by rw [exec, hrb']; rfl, hsize, hq⟩
  | putchar ch =>
    obtain ⟨rb', hrb', hsize, hq⟩ := h.put [ch]
    exact ⟨rb', by rw [exec, h.valid.putchar_eq, hrb']; rfl, hsize, hq⟩
  | getchar =>
    obtain ⟨rb', hrb', hsize, hq⟩ := h.get 1
    exact ⟨rb', by rw [exec, h.valid.getchar_eq, hrb']; rfl, hsize, hq⟩
  | putcharForce ch =>
    obtain ⟨rb', hrb', hsize, hq⟩ := h.putcharForce ch
    exact ⟨rb', by rw [exec, hrb']; rfl, hsize, hq⟩

/-- A new buffer is empty. -/
theorem rtRingbufferInit_refines (pool : Nat → UInt8) {size : Nat} (hmin : 4 ≤ size)
    (hmax : size ≤ 32767) :
    ∃ rb, rtRingbufferInit pool size = some rb ∧ rb.bufferSize = size / 4 * 4 ∧ Refines rb [] := by
  have halign : rtAlignDown size = size / 4 * 4 := by
    rw [rtAlignDown_eq, Nat.mod_eq_of_lt (by unfold Word.size32; omega)]
  refine ⟨_, rtAssert_bind_eq_some.mpr ⟨by omega, rfl⟩, halign, ?_, ?_, ?_, ?_, .inl ⟨rfl, rfl, ?_⟩,
    rfl⟩
  all_goals
    simp only [halign, List.length_nil]
    omega

/-- Every sequence of calls on a buffer of 4 to 32767 bytes is defined, returns what a queue
of the aligned size returns, and leaves a buffer whose data length is that of the queue. -/
theorem ringbuffer_refines_fifo (pool : Nat → UInt8) (size : Nat) (hmin : 4 ≤ size)
    (hmax : size ≤ 32767) (ops : List Op) :
    ∃ rb0 rb, rtRingbufferInit pool size = some rb0 ∧ rb0.bufferSize = size / 4 * 4 ∧
      trace exec rb0 ops =
        some (rb, (specTrace spec (Fifo.empty : Fifo UInt8 (size / 4 * 4)) ops).2) ∧
      rb.rtRingbufferDataLen =
        (specTrace spec (Fifo.empty : Fifo UInt8 (size / 4 * 4)) ops).1.items.length := by
  obtain ⟨rb0, hinit, hsize, hempty⟩ := rtRingbufferInit_refines pool hmin hmax
  obtain ⟨rb, htrace, -, hrb⟩ := trace_refines
    (R := fun rb (q : Fifo UInt8 (size / 4 * 4)) => rb.bufferSize = size / 4 * 4 ∧
      Refines rb q.items) (t := Fifo.empty) (fun rb q op => exec_refines rb q op)
    ⟨hsize, hempty⟩ ops
  exact ⟨rb0, rb, hinit, hsize, htrace, hrb.dataLen⟩

/-- Five bytes are offered to a buffer of four; the forced byte then drops the oldest one. -/
theorem ringbuffer_refines_fifo_six :
    ∃ rb0 rb, rtRingbufferInit (fun _ => 0) 6 = some rb0 ∧ rb0.bufferSize = 4 ∧
      trace exec rb0 [.put [1, 2, 3, 4, 5], .putcharForce 6, .putchar 7, .get 9] =
        some (rb, [⟨4, []⟩, ⟨1, []⟩, ⟨0, []⟩, ⟨4, [2, 3, 4, 6]⟩]) ∧
      rb.rtRingbufferDataLen = 0 :=
  ringbuffer_refines_fifo (fun _ => 0) 6 (by decide) (by decide)
    [.put [1, 2, 3, 4, 5], .putcharForce 6, .putchar 7, .get 9]

end Ringbuffer

end RtThread
