-- SUMMARY: The receive ring of a serial device.
import ZigbeeGateway.Lib.Ring
import ZigbeeGateway.Lib.Run

/-!
# Receiving on a serial device

The model of the receive side of `components/drivers/serial/serial.c` with
`RT_DEVICE_FLAG_INT_RX`. The interrupt stores a character whether there is room or not: when the
put index runs into the get index, it moves the get index on. `rt_serial_read` takes one byte per
critical section, so characters arrive between any two bytes of a read, and the reads of several
threads interleave.

`unread` lists the bytes between the indices. The history variables of `Sys` keep the characters
that arrived and the bytes in the order in which the reads took them.
-/

namespace RtThread

open Run Function

/-- `RT_SERIAL_RB_BUFSZ`. -/
def rtSerialRbBufsz : Nat := 64

/-- `struct serial_ringbuffer`. -/
structure SerialRingbuffer where
  buffer : Nat → UInt8
  putIndex : Nat
  getIndex : Nat

namespace SerialRingbuffer

/-- `serial_ringbuffer_init`. -/
def serialRingbufferInit : SerialRingbuffer where
  buffer := fun _ => 0
  putIndex := 0
  getIndex := 0

/-- `serial_ringbuffer_putc`. -/
def serialRingbufferPutc (rb : SerialRingbuffer) (ch : UInt8) : SerialRingbuffer :=
  let rb := { rb with
    buffer := update rb.buffer rb.putIndex ch
    putIndex := (rb.putIndex + 1) &&& (rtSerialRbBufsz - 1) }
  -- if the next position is read index, discard this 'read char'
  if rb.putIndex = rb.getIndex then
    { rb with getIndex := (rb.getIndex + 1) &&& (rtSerialRbBufsz - 1) }
  else
    rb

/-- `serial_ringbuffer_getc`; `none` stands for -1. -/
def serialRingbufferGetc (rb : SerialRingbuffer) : SerialRingbuffer × Option UInt8 :=
  if rb.getIndex ≠ rb.putIndex then
    ({ rb with getIndex := (rb.getIndex + 1) &&& (rtSerialRbBufsz - 1) },
      some (rb.buffer rb.getIndex))
  else
    (rb, none)

/-- `serial_ringbuffer_size`. The difference may be negative; the mask keeps its low bits, which
are those of the sum. -/
def serialRingbufferSize (rb : SerialRingbuffer) : Nat :=
  (rb.putIndex + rtSerialRbBufsz - rb.getIndex) &&& (rtSerialRbBufsz - 1)

/-- The bytes between the indices, oldest first. -/
def unread (rb : SerialRingbuffer) : List UInt8 :=
  Ring.contents rb.buffer rtSerialRbBufsz rb.getIndex rb.serialRingbufferSize

/-- Both indices are in the buffer. -/
structure InRange (rb : SerialRingbuffer) : Prop where
  put_lt : rb.putIndex < rtSerialRbBufsz
  get_lt : rb.getIndex < rtSerialRbBufsz

theorem and_mask (i : Nat) : i &&& (rtSerialRbBufsz - 1) = i % rtSerialRbBufsz :=
  Nat.and_two_pow_sub_one_eq_mod i 6

@[simp] theorem length_unread (rb : SerialRingbuffer) : rb.unread.length = rb.serialRingbufferSize :=
  Ring.length_contents

theorem size_lt (rb : SerialRingbuffer) : rb.serialRingbufferSize < rtSerialRbBufsz := by
  rw [serialRingbufferSize, and_mask]
  exact Nat.mod_lt _ (by decide)

variable {rb : SerialRingbuffer}

theorem put_eq (h : InRange rb) :
    rb.putIndex = (rb.getIndex + rb.serialRingbufferSize) % rtSerialRbBufsz := by
  have hput := h.put_lt
  have hget := h.get_lt
  rw [serialRingbufferSize, and_mask]
  unfold rtSerialRbBufsz at *
  omega

/-- A character goes behind the unread bytes. Only when the buffer is full does the oldest of
them go. -/
theorem putc_unread (h : InRange rb) (ch : UInt8) :
    (rb.serialRingbufferPutc ch).InRange ∧
      (rb.serialRingbufferPutc ch).unread =
        (if rb.unread.length = rtSerialRbBufsz - 1 then rb.unread.tail else rb.unread) ++ [ch] := by
  have hput := h.put_lt
  have hget := h.get_lt
  have hlt := rb.size_lt
  have hsize : rb.serialRingbufferSize =
      (rb.putIndex + rtSerialRbBufsz - rb.getIndex) % rtSerialRbBufsz := and_mask _
  have hnew : Ring.contents (update rb.buffer rb.putIndex ch) rtSerialRbBufsz rb.getIndex
      (rb.serialRingbufferSize + 1) = rb.unread ++ [ch] := by
    rw [put_eq h, Ring.contents_push rb.size_lt, unread]
  unfold rtSerialRbBufsz at hput hget hlt hsize
  by_cases hfull : (rb.putIndex + 1) % rtSerialRbBufsz = rb.getIndex
  · have hcount : rb.serialRingbufferSize = rtSerialRbBufsz - 1 := by
      unfold rtSerialRbBufsz at hfull ⊢
      omega
    have hputc : rb.serialRingbufferPutc ch = { rb with
        buffer := update rb.buffer rb.putIndex ch
        putIndex := (rb.putIndex + 1) % rtSerialRbBufsz
        getIndex := (rb.getIndex + 1) % rtSerialRbBufsz } := by
      simp only [serialRingbufferPutc, and_mask, hfull, if_true]
    have hcount' : (rb.serialRingbufferPutc ch).serialRingbufferSize = rb.serialRingbufferSize := by
      rw [hputc, serialRingbufferSize, and_mask]
      unfold rtSerialRbBufsz at hfull hcount ⊢
      dsimp only
      omega
    refine ⟨?_, ?_⟩
    · rw [hputc]
      exact ⟨Nat.mod_lt _ (by decide), Nat.mod_lt _ (by decide)⟩
    · have htail := congrArg List.tail hnew
      rw [Ring.contents_pop, List.tail_cons, List.tail_append_of_ne_nil] at htail
      · rw [if_pos (by rw [length_unread, hcount]), ← htail, unread, hcount', hputc]
      · rw [← List.length_pos_iff, length_unread, hcount]
        decide
  · have hcount : rb.serialRingbufferSize ≠ rtSerialRbBufsz - 1 := by
      unfold rtSerialRbBufsz at hfull ⊢
      omega
    have hputc : rb.serialRingbufferPutc ch = { rb with
        buffer := update rb.buffer rb.putIndex ch
        putIndex := (rb.putIndex + 1) % rtSerialRbBufsz } := by
      simp only [serialRingbufferPutc, and_mask, hfull, if_false]
    have hcount' : (rb.serialRingbufferPutc ch).serialRingbufferSize =
        rb.serialRingbufferSize + 1 := by
      rw [hputc, serialRingbufferSize, and_mask]
      unfold rtSerialRbBufsz at hfull ⊢
      dsimp only
      omega
    refine ⟨?_, ?_⟩
    · rw [hputc]
      exact ⟨Nat.mod_lt _ (by decide), h.get_lt⟩
    · rw [if_neg (by rw [length_unread]; exact hcount), ← hnew, unread, hcount', hputc]

/-- `serial_ringbuffer_getc` takes the oldest unread byte, if there is one. -/
theorem getc_unread (h : InRange rb) :
    (rb.unread = [] ∧ rb.serialRingbufferGetc = (rb, none)) ∨
    ∃ ch rb', rb.serialRingbufferGetc = (rb', some ch) ∧ rb'.InRange ∧ rb.unread = ch :: rb'.unread := by
  have hput := h.put_lt
  have hget := h.get_lt
  have hsize : rb.serialRingbufferSize =
      (rb.putIndex + rtSerialRbBufsz - rb.getIndex) % rtSerialRbBufsz := and_mask _
  unfold rtSerialRbBufsz at hput hget hsize
  by_cases hempty : rb.getIndex = rb.putIndex
  · refine .inl ⟨?_, if_neg (not_not.mpr hempty)⟩
    rw [← List.length_eq_zero_iff, length_unread]
    omega
  · refine .inr ⟨_, _, if_pos hempty, ⟨h.put_lt, ?_⟩, ?_⟩
    · rw [and_mask]
      exact Nat.mod_lt _ (by decide)
    · have hcount : rb.serialRingbufferSize =
          { rb with getIndex := (rb.getIndex + 1) &&& (rtSerialRbBufsz - 1) }.serialRingbufferSize + 1 := by
        simp only [serialRingbufferSize, and_mask]
        unfold rtSerialRbBufsz
        omega
      rw [unread, hcount, Ring.contents_pop, Nat.mod_eq_of_lt h.get_lt, unread, and_mask]

end SerialRingbuffer

namespace Serial

/-! ## Runs -/

/-- A call of `rt_serial_read`: the number of bytes it still wants, and the ones it has stored. -/
structure Read where
  size : Nat
  buffer : List UInt8
  deriving DecidableEq, Repr

/-- A character that `rt_hw_serial_isr` gets from the device, the call of `rt_serial_read` by a
reader, and one turn of its loop. -/
inductive Event where
  | putc (ch : UInt8)
  | read (reader size : Nat)
  | getc (reader : Nat)
  deriving DecidableEq, Repr

structure Sys where
  intRx : SerialRingbuffer
  reading : Nat → Option Read
  /-- The buffers of the reads that returned, with their readers. -/
  returned : List (Nat × List UInt8)
  /-- The characters that arrived, and the bytes that were taken, with their readers. -/
  arrived : List UInt8
  taken : List (Nat × UInt8)

namespace Sys

/-- The read of `reader` goes on, or returns what it has stored. -/
def goOn (s : Sys) (reader : Nat) (call : Read) : Sys :=
  if call.size = 0 then
    { s with
      reading := update s.reading reader none
      returned := s.returned ++ [(reader, call.buffer)] }
  else
    { s with reading := update s.reading reader (some call) }

/-- The concatenation of the bytes that the reads of a reader have returned and stored. -/
def bytesOf (s : Sys) (reader : Nat) : List UInt8 :=
  ((s.returned.filter (·.1 = reader)).map (·.2)).flatten ++ ((s.reading reader).map Read.buffer).getD []

/-- The bytes that were taken for a reader, in order. -/
def takenBy (s : Sys) (reader : Nat) : List UInt8 := (s.taken.filter (·.1 = reader)).map (·.2)

end Sys

def step (s : Sys) : Event → Option Sys
  | .putc ch =>
    some { s with intRx := s.intRx.serialRingbufferPutc ch, arrived := s.arrived ++ [ch] }
  | .read reader size =>
    match s.reading reader with
    | none => some (s.goOn reader ⟨size, []⟩)
    | some _ => none
  | .getc reader =>
    match s.reading reader with
    | none => none
    | some call =>
      match s.intRx.serialRingbufferGetc with
      | (_, none) => some (s.goOn reader { call with size := 0 })
      | (rb, some ch) =>
        some ({ s with intRx := rb, taken := s.taken ++ [(reader, ch)] }.goOn reader
          ⟨call.size - 1, call.buffer ++ [ch]⟩)

/-- A device that was just opened. -/
structure Initial (s : Sys) : Prop where
  intRx : s.intRx = SerialRingbuffer.serialRingbufferInit
  reading : ∀ reader, s.reading reader = none
  returned : s.returned = []
  arrived : s.arrived = []
  taken : s.taken = []

/-! ## What every step keeps -/

variable {s s' : Sys} {reader : Nat}

@[simp] theorem goOn_intRx (s : Sys) (reader : Nat) (call : Read) :
    (s.goOn reader call).intRx = s.intRx := by
  unfold Sys.goOn
  split <;> rfl

@[simp] theorem goOn_arrived (s : Sys) (reader : Nat) (call : Read) :
    (s.goOn reader call).arrived = s.arrived := by
  unfold Sys.goOn
  split <;> rfl

@[simp] theorem goOn_taken (s : Sys) (reader : Nat) (call : Read) :
    (s.goOn reader call).taken = s.taken := by
  unfold Sys.goOn
  split <;> rfl

/-- Whether the read goes on or returns, its reader has its earlier bytes and those stored. -/
theorem goOn_bytesOf (s : Sys) (reader : Nat) (call : Read) (other : Nat) :
    (s.goOn reader call).bytesOf other =
      if other = reader then
        ((s.returned.filter (·.1 = reader)).map (·.2)).flatten ++ call.buffer
      else
        s.bytesOf other := by
  unfold Sys.goOn Sys.bytesOf
  by_cases hother : other = reader
  · subst hother
    split <;> simp
  · split <;> simp [hother, Ne.symm hother]

/-- Every byte that was taken is stored for its reader. The arrived bytes end with the unread
ones, and the bytes that were taken are among the others, in order. -/
structure Inv (s : Sys) : Prop where
  range : s.intRx.InRange
  stored : ∀ reader, s.bytesOf reader = s.takenBy reader
  suffix : ∃ gone, s.arrived = gone ++ s.intRx.unread ∧ (s.taken.map (·.2)).Sublist gone

theorem Initial.inv (h : Initial s) : Inv s := by
  refine ⟨?_, fun reader => ?_, [], ?_, ?_⟩
  · rw [h.intRx]
    exact ⟨by decide, by decide⟩
  · simp [Sys.bytesOf, Sys.takenBy, h.returned, h.reading, h.taken]
  · rw [h.arrived, h.intRx]
    rfl
  · simp [h.taken]

theorem Inv.putc (h : Inv s) (ch : UInt8) :
    Inv { s with intRx := s.intRx.serialRingbufferPutc ch, arrived := s.arrived ++ [ch] } := by
  obtain ⟨hrange, hunread⟩ := s.intRx.putc_unread h.range ch
  obtain ⟨gone, harrived, htaken⟩ := h.suffix
  refine ⟨hrange, h.stored, ?_⟩
  rw [hunread, harrived]
  split
  next hfull =>
    -- the oldest unread byte joins those that are gone
    obtain ⟨b, rest, hcons⟩ : ∃ b rest, s.intRx.unread = b :: rest :=
      List.exists_cons_of_length_pos (by rw [hfull]; decide)
    refine ⟨gone ++ [b], by simp [hcons], htaken.trans (List.sublist_append_left gone [b])⟩
  next => exact ⟨gone, List.append_assoc .., htaken⟩

/-- A step of a read that takes no byte. -/
theorem Inv.goOn {call : Read} (h : Inv s)
    (hcall : call.buffer = ((s.reading reader).map Read.buffer).getD []) :
    Inv (s.goOn reader call) := by
  refine ⟨by simpa using h.range, fun other => ?_, by simpa using h.suffix⟩
  have htaken : (s.goOn reader call).takenBy other = s.takenBy other := by simp [Sys.takenBy]
  rw [htaken, goOn_bytesOf]
  split
  next heq =>
    subst heq
    rw [hcall]
    exact h.stored other
  next => exact h.stored other

theorem Inv.take {call : Read} {ch : UInt8} {rb : SerialRingbuffer} {n : Nat} (h : Inv s)
    (hcall : s.reading reader = some call) (hrange : rb.InRange)
    (hunread : s.intRx.unread = ch :: rb.unread) :
    Inv ({ s with intRx := rb, taken := s.taken ++ [(reader, ch)] }.goOn reader
      ⟨n, call.buffer ++ [ch]⟩) := by
  obtain ⟨gone, harrived, htaken⟩ := h.suffix
  refine ⟨by simpa using hrange, fun other => ?_, gone ++ [ch], ?_, ?_⟩
  · have hstored := h.stored other
    rw [goOn_bytesOf]
    unfold Sys.takenBy at hstored ⊢
    rw [goOn_taken]
    split
    next heq =>
      subst heq
      simp only [Sys.bytesOf, hcall, Option.map_some, Option.getD_some] at hstored
      simp [← hstored]
    next hne =>
      rw [List.filter_append, List.filter_cons_of_neg (by simpa using Ne.symm hne),
        List.filter_nil, List.append_nil]
      exact hstored
  · simp [harrived, hunread]
  · simpa using htaken.append (List.Sublist.refl [ch])

/-- What an event does to the unread bytes: a character goes behind them and pushes the oldest out
only if there are `RT_SERIAL_RB_BUFSZ - 1`, and a turn of a read takes the oldest. -/
def Effect (s s' : Sys) : Event → Prop
  | .putc ch => s'.taken = s.taken ∧ s'.intRx.unread =
      (if s.intRx.unread.length = rtSerialRbBufsz - 1 then s.intRx.unread.tail
        else s.intRx.unread) ++ [ch]
  | .read _ _ => s'.taken = s.taken ∧ s'.intRx.unread = s.intRx.unread
  | .getc reader => s.intRx.unread = [] ∧ s'.taken = s.taken ∧ s'.intRx.unread = [] ∨
      ∃ ch, s'.taken = s.taken ++ [(reader, ch)] ∧ s.intRx.unread = ch :: s'.intRx.unread

theorem Inv.step {e : Event} (h : Inv s) (hs' : step s e = some s') : Inv s' ∧ Effect s s' e := by
  cases e with
  | putc ch =>
    cases hs'
    exact ⟨h.putc ch, rfl, (s.intRx.putc_unread h.range ch).2⟩
  | read reader size =>
    cases hcall : s.reading reader with
    | some call => simp [Serial.step, hcall] at hs'
    | none =>
      simp only [Serial.step, hcall, Option.some.injEq] at hs'
      subst hs'
      exact ⟨h.goOn (by simp [hcall]), by simp [Effect]⟩
  | getc reader =>
    cases hcall : s.reading reader with
    | none => simp [Serial.step, hcall] at hs'
    | some call =>
      obtain ⟨hnil, hgetc⟩ | ⟨ch, rb, hgetc, hrange, hunread⟩ := s.intRx.getc_unread h.range
      · simp only [Serial.step, hcall, hgetc, Option.some.injEq] at hs'
        subst hs'
        exact ⟨h.goOn (by simp [hcall]), .inl ⟨hnil, by simp, by simp [hnil]⟩⟩
      · simp only [Serial.step, hcall, hgetc, Option.some.injEq] at hs'
        subst hs'
        exact ⟨h.take hcall hrange hunread, .inr ⟨ch, by simp, by simp [hunread]⟩⟩

/-- The receive ring in every run, with any number of readers. The arrived bytes end with the
unread ones, at most `RT_SERIAL_RB_BUFSZ - 1`; the bytes that the reads took are in order among
the others, so that none is taken twice, and the reads of each reader return those that were
taken for it. The oldest unread byte is dropped exactly when a character arrives while
`RT_SERIAL_RB_BUFSZ - 1` bytes are unread. -/
theorem serial_receive_in_order {es : List Event} (h : Initial s) (hrun : run step s es = some s') :
    (∃ gone, s'.arrived = gone ++ s'.intRx.unread ∧ (s'.taken.map (·.2)).Sublist gone) ∧
    s'.intRx.unread.length ≤ rtSerialRbBufsz - 1 ∧
    (∀ reader, s'.bytesOf reader = s'.takenBy reader ∧ (s'.bytesOf reader).Sublist s'.arrived) ∧
    ∀ e s'', step s' e = some s'' → Effect s' s'' e := by
  have hinv : Inv s' := run_invariant (fun _ _ _ h hs => (h.step hs).1) h.inv hrun
  refine ⟨hinv.suffix, ?_, fun reader => ⟨hinv.stored reader, ?_⟩, fun e s'' hs => (hinv.step hs).2⟩
  · rw [SerialRingbuffer.length_unread]
    exact Nat.le_sub_one_of_lt s'.intRx.size_lt
  · obtain ⟨gone, harrived, htaken⟩ := hinv.suffix
    rw [hinv.stored reader, harrived]
    have hmine : (s'.takenBy reader).Sublist (s'.taken.map (·.2)) := List.filter_sublist.map _
    exact (hmine.trans htaken).trans (List.sublist_append_left gone _)

/-- An open device, before anything arrives. -/
def opened : Sys where
  intRx := SerialRingbuffer.serialRingbufferInit
  reading := fun _ => none
  returned := []
  arrived := []
  taken := []

/-- A character arrives in the middle of a read. -/
theorem serial_receive_in_order_interrupted :
    ∃ s, run step opened [.putc 7, .read 0 2, .getc 0, .putc 8, .getc 0, .putc 9] = some s ∧
      s.bytesOf 0 = [7, 8] ∧ (s.bytesOf 0).Sublist s.arrived ∧
      s.intRx.unread.length ≤ rtSerialRbBufsz - 1 := by
  have hinit : Initial opened := ⟨rfl, fun _ => rfl, rfl, rfl, rfl⟩
  refine run_exists (Q := fun s => s.bytesOf 0 = [7, 8]) (by decide) fun s hrun hbytes => ?_
  obtain ⟨-, hlength, hreader, -⟩ := serial_receive_in_order hinit hrun
  exact ⟨hbytes, (hreader 0).2, hlength⟩

end Serial

end RtThread
