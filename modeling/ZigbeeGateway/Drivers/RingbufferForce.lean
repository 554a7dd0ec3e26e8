-- SUMMARY: The forced block write of the ring buffer.
import ZigbeeGateway.Drivers.Ringbuffer

/-!
# Forced writes of blocks

`rt_ringbuffer_put_force` writes a block whether or not there is room, and is meant to discard the oldest
bytes. It moves the read index only in a buffer that was full before. A block that does not fit into a
buffer that was not full overtakes the reader: the data length is then what the block is too long by,
and the other bytes are lost.

After such a write the mirror bits no longer tell how often the indices went around, so the results are
about every buffer with both indices in the pool. The bytes that it holds are the ones that the data length
and the read index give.
-/

namespace RtThread.Ringbuffer

open Run
open Option (map_eq_some_iff)

variable {rb rb' : Ringbuffer} {ptr : List UInt8}

/-- The bytes that reads deliver, oldest first. -/
def stored (rb : Ringbuffer) : List UInt8 :=
  Ring.contents rb.bufferPtr rb.bufferSize rb.readIndex rb.rtRingbufferDataLen

/-- The mirror bits differ exactly when the write index went around once more than the read index. -/
def Mirrored (rb : Ringbuffer) : Prop :=
  rb.readIndex ≤ rb.writeIndex ↔ rb.readMirror = rb.writeMirror

instance (rb : Ringbuffer) : Decidable rb.Mirrored := by
  unfold Mirrored
  infer_instance

/-! ## The data length -/

theorem status_eq_full : rb.rtRingbufferStatus = .full ↔
    rb.readIndex = rb.writeIndex ∧ rb.readMirror ≠ rb.writeMirror := by
  unfold rtRingbufferStatus
  split
  next heq => by_cases hm : rb.readMirror = rb.writeMirror <;> simp [heq, hm]
  next hne => simp [hne]

theorem dataLen_of_full (h : rb.rtRingbufferStatus = .full) : rb.rtRingbufferDataLen = rb.bufferSize := by
  rw [rtRingbufferDataLen, h]

/-- In a buffer that is not full the data length is the distance from the read to the write index. -/
theorem Valid.distance (h : Valid rb) (hstate : rb.rtRingbufferStatus ≠ .full) :
    rb.readIndex ≤ rb.writeIndex ∧ rb.readIndex + rb.rtRingbufferDataLen = rb.writeIndex ∨
    rb.writeIndex < rb.readIndex ∧
      rb.readIndex + rb.rtRingbufferDataLen = rb.writeIndex + rb.bufferSize := by
  have hread := h.read_lt
  unfold rtRingbufferDataLen
  cases hstatus : rb.rtRingbufferStatus with
  | full => exact absurd hstatus hstate
  | empty =>
    have hsame : rb.readIndex = rb.writeIndex := by
      by_contra hne
      simp [rtRingbufferStatus, hne] at hstatus
    exact .inl ⟨hsame.le, hsame⟩
  | halffull =>
    have hne : rb.readIndex ≠ rb.writeIndex := by
      intro hsame
      rw [rtRingbufferStatus, if_pos hsame] at hstatus
      split at hstatus <;> cases hstatus
    dsimp only
    split <;> omega

theorem Valid.dataLen_lt (h : Valid rb) (hstate : rb.rtRingbufferStatus ≠ .full) :
    rb.rtRingbufferDataLen < rb.bufferSize := by
  have hwrite := h.write_lt
  rcases h.distance hstate with ⟨-, hn⟩ | ⟨hlt, hn⟩ <;> omega

theorem Valid.holds (h : Valid rb) :
    Ring.Holds rb.bufferPtr rb.bufferSize rb.writeIndex rb.readIndex rb.rtRingbufferDataLen
      rb.stored := by
  have hread := h.read_lt
  have hwrite := h.write_lt
  by_cases hstate : rb.rtRingbufferStatus = .full
  · refine ⟨(dataLen_of_full hstate).le, fun _ => hread, ?_, rfl⟩
    rw [dataLen_of_full hstate, Nat.add_mod_right, Nat.mod_eq_of_lt hread]
    exact (status_eq_full.mp hstate).1.symm
  · refine ⟨?_, fun _ => hread, ?_, rfl⟩
    · exact (h.dataLen_lt hstate).le
    · rcases h.distance hstate with ⟨-, hn⟩ | ⟨-, hn⟩
      · rw [hn, Nat.mod_eq_of_lt hwrite]
      · rw [hn, Nat.add_mod_right, Nat.mod_eq_of_lt hwrite]

/-! ## What a forced write does -/

theorem Valid.putForce_eq (h : Valid rb) (hlen : ptr.length ≤ rb.bufferSize) :
    rb.rtRingbufferPutForce ptr = some (rb.forced ptr, ptr.length) := by
  have hwrite := h.write_lt
  have hcut : (if rb.bufferSize < ptr.length then rb.bufferSize else ptr.length) = ptr.length :=
    if_neg (by omega)
  simp only [rtRingbufferPutForce, hcut]
  split
  next hfirst =>
    have hnot : ¬ rb.bufferSize ≤ rb.writeIndex + ptr.length := by omega
    refine (h.write_near le_rfl hfirst fun rb1 => if rb.rtRingbufferStatus = .full then
      some ({ rb1 with readIndex := rb1.writeIndex }, ptr.length) else some (rb1, ptr.length)).trans ?_
    rw [List.take_length]
    split <;> simp [*, forced, wrote]
  next hfirst =>
    have haround : rb.bufferSize ≤ rb.writeIndex + ptr.length := by omega
    refine (h.write_around le_rfl hlen rfl hfirst fun rb1 => if rb.rtRingbufferStatus = .full then
      some ({ rb1 with readMirror := !rb1.readMirror, readIndex := rb1.writeIndex }, ptr.length)
      else some (rb1, ptr.length)).trans ?_
    rw [List.take_length]
    split <;> simp [*, forced, wrote]

/-- In a full buffer the block takes the place of as many of the oldest bytes. -/
theorem Valid.stored_forced_full (h : Valid rb) (hlen : ptr.length ≤ rb.bufferSize)
    (hfull : rb.rtRingbufferStatus = .full) :
    (rb.forced ptr).stored = rb.stored.drop ptr.length ++ ptr := by
  have hold := h.holds
  have hn := dataLen_of_full hfull
  obtain ⟨hsame, hm⟩ := status_eq_full.mp hfull
  rw [hn] at hold
  have hnew : Ring.Holds _ _ _ _ (rb.bufferSize - ptr.length + ptr.length) _ :=
    (hold.drop hlen).fill ptr (by omega)
  rw [Nat.sub_add_cancel hlen] at hnew
  have hfull' : (rb.forced ptr).rtRingbufferStatus = .full := by
    simp only [status_eq_full, forced, hfull, if_true, true_and]
    intro heq
    exact hm (by simpa using heq)
  rw [stored, dataLen_of_full hfull']
  simp only [forced, hfull, if_true, ← hsame]
  exact hsame ▸ hnew.contents

theorem Valid.wrote (h : Valid rb) (bs : List UInt8) : Valid (rb.wrote bs) :=
  ⟨h.pool, h.size_lt, h.read_lt, Nat.mod_lt _ (Nat.zero_lt_of_lt h.write_lt)⟩

theorem Valid.skipped (h : Valid rb) (n : Nat) : Valid (rb.skipped n) :=
  ⟨h.pool, h.size_lt, Nat.mod_lt _ (Nat.zero_lt_of_lt h.write_lt), h.write_lt⟩

theorem Valid.forced (h : Valid rb) (ptr : List UInt8) : Valid (rb.forced ptr) := by
  by_cases hfull : rb.rtRingbufferStatus = .full
  · rw [forced_of_full hfull (status_eq_full.mp hfull).1]
    exact (h.skipped _).wrote ptr
  · rw [forced_of_room hfull]
    exact h.wrote ptr

/-- The write index moves on and goes around at most once. -/
theorem Valid.writeIndex_forced (h : Valid rb) (hlen : ptr.length ≤ rb.bufferSize) :
    rb.writeIndex + ptr.length < rb.bufferSize ∧
      (rb.forced ptr).writeIndex = rb.writeIndex + ptr.length ∧
      (rb.forced ptr).writeMirror = rb.writeMirror ∨
    (rb.forced ptr).writeIndex + rb.bufferSize = rb.writeIndex + ptr.length ∧
      (rb.forced ptr).writeMirror = !rb.writeMirror := by
  have hwrite := h.write_lt
  by_cases haround : rb.bufferSize ≤ rb.writeIndex + ptr.length
  · refine .inr ⟨?_, by simp [Ringbuffer.forced, haround]⟩
    simp only [Ringbuffer.forced]
    rw [mod_around haround (by omega), Nat.sub_add_cancel haround]
  · refine .inl ⟨by omega, ?_, by simp [Ringbuffer.forced, haround]⟩
    exact Nat.mod_eq_of_lt (by omega)

/-- A buffer that was not full is full afterwards if the block fills it up and the mirror bits were
right. -/
theorem Valid.forced_full_iff (h : Valid rb) (hlen : ptr.length ≤ rb.bufferSize)
    (hstate : rb.rtRingbufferStatus ≠ .full) :
    (rb.forced ptr).rtRingbufferStatus = .full ↔
      rb.rtRingbufferDataLen + ptr.length = rb.bufferSize ∧ rb.Mirrored := by
  have hread := h.read_lt
  have hreadIndex : (rb.forced ptr).readIndex = rb.readIndex := if_neg hstate
  have hreadMirror : (rb.forced ptr).readMirror = rb.readMirror := if_neg hstate
  rw [status_eq_full, hreadIndex, hreadMirror, Mirrored]
  rcases h.distance hstate with ⟨hle, hn⟩ | ⟨hlt, hn⟩ <;>
    rcases h.writeIndex_forced hlen with ⟨hroom, hindex, hmirror⟩ | ⟨hindex, hmirror⟩ <;>
    rw [hmirror]
  · constructor
    · rintro ⟨hmeet, hm⟩
      exact absurd (status_eq_full.mpr ⟨by omega, hm⟩) hstate
    · rintro ⟨hfill, -⟩
      omega
  · simp only [hle, true_iff, ne_eq, Bool.eq_not, not_not]
    exact and_congr_left fun _ => by omega
  · have hnot : ¬ rb.readIndex ≤ rb.writeIndex := by omega
    simp only [hnot, false_iff]
    exact and_congr_left fun _ => by omega
  · constructor
    · rintro ⟨hmeet, -⟩
      omega
    · rintro ⟨hfill, -⟩
      omega

/-- A block that leaves room or overtakes the reader moves the data length around. -/
theorem Valid.dataLen_forced (h : Valid rb) (hlen : ptr.length ≤ rb.bufferSize)
    (hstate : rb.rtRingbufferStatus ≠ .full)
    (hstate' : (rb.forced ptr).rtRingbufferStatus ≠ .full) :
    (rb.forced ptr).rtRingbufferDataLen =
      if rb.rtRingbufferDataLen + ptr.length < rb.bufferSize then
        rb.rtRingbufferDataLen + ptr.length
      else
        rb.rtRingbufferDataLen + ptr.length - rb.bufferSize := by
  have hreadIndex : (rb.forced ptr).readIndex = rb.readIndex := if_neg hstate
  have hsize : (rb.forced ptr).bufferSize = rb.bufferSize := rfl
  have hnew := (h.forced ptr).distance hstate'
  rcases h.distance hstate with ⟨hle, hn⟩ | ⟨hlt, hn⟩ <;>
    rcases h.writeIndex_forced hlen with ⟨hroom, hindex, -⟩ | ⟨hindex, -⟩ <;>
    split <;> omega

/-- When a forced write of at most `buffer_size` bytes keeps the newest bytes. -/
def KeepsNewest (rb : Ringbuffer) (ptr : List UInt8) : Prop :=
  rb.rtRingbufferStatus = .full ∨
  rb.rtRingbufferDataLen + ptr.length < rb.bufferSize ∨
  rb.rtRingbufferDataLen + ptr.length = rb.bufferSize ∧ rb.Mirrored

theorem Valid.stored_forced_iff (h : Valid rb) (hlen : ptr.length ≤ rb.bufferSize) :
    (rb.forced ptr).stored = (rb.stored ++ ptr).drop (rb.stored.length + ptr.length - rb.bufferSize) ↔
      rb.KeepsNewest ptr := by
  have hold := h.holds
  have hlength : rb.stored.length = rb.rtRingbufferDataLen := hold.length
  rw [hlength]
  by_cases hstate : rb.rtRingbufferStatus = .full
  · refine iff_of_true ?_ (.inl hstate)
    have hn := dataLen_of_full hstate
    rw [h.stored_forced_full hlen hstate, hn, Nat.add_sub_cancel_left,
      List.drop_append_of_le_length (by omega)]
  · have hreadIndex : (rb.forced ptr).readIndex = rb.readIndex := if_neg hstate
    have hfits : rb.rtRingbufferDataLen + ptr.length ≤ rb.bufferSize →
        (rb.forced ptr).rtRingbufferDataLen = rb.rtRingbufferDataLen + ptr.length →
        (rb.forced ptr).stored =
          (rb.stored ++ ptr).drop (rb.rtRingbufferDataLen + ptr.length - rb.bufferSize) := by
      intro hfit hnew
      rw [Nat.sub_eq_zero_of_le hfit, List.drop_zero, stored, hnew, hreadIndex]
      exact (hold.fill ptr hfit).contents
    by_cases hstate' : (rb.forced ptr).rtRingbufferStatus = .full
    · obtain ⟨hfill, hmirror⟩ := (h.forced_full_iff hlen hstate).mp hstate'
      refine iff_of_true (hfits hfill.le ?_) (.inr (.inr ⟨hfill, hmirror⟩))
      rw [dataLen_of_full hstate', hfill]
      rfl
    · have hnew := h.dataLen_forced hlen hstate hstate'
      by_cases hroom : rb.rtRingbufferDataLen + ptr.length < rb.bufferSize
      · rw [if_pos hroom] at hnew
        exact iff_of_true (hfits hroom.le hnew) (.inr (.inl hroom))
      · rw [if_neg hroom] at hnew
        refine iff_of_false (fun heq => ?_) ?_
        · -- a full buffer was to be left, and the data length is less than that
          have hcount := congrArg List.length heq
          rw [(h.forced ptr).holds.length, hnew, List.length_drop, List.length_append, hlength] at hcount
          have hlt := h.dataLen_lt hstate
          omega
        · rintro (hfull | hlt | hboth)
          · exact hstate hfull
          · exact hroom hlt
          · exact hstate' ((h.forced_full_iff hlen hstate).mpr hboth)

/-! ## Reachable buffers -/

/-- The block is cut to `buffer_size` bytes before anything else is done. -/
theorem rtRingbufferPutForce_take (rb : Ringbuffer) (ptr : List UInt8) :
    rb.rtRingbufferPutForce ptr = rb.rtRingbufferPutForce (ptr.take rb.bufferSize) := by
  by_cases hlong : rb.bufferSize < ptr.length
  · have hcut : (ptr.take rb.bufferSize).length = rb.bufferSize := by
      rw [List.length_take]
      omega
    have hnot : ¬ rb.bufferSize < rb.bufferSize - rb.writeIndex := by omega
    have hfront : (ptr.take rb.bufferSize).take (rb.bufferSize - rb.writeIndex) =
        ptr.take (rb.bufferSize - rb.writeIndex) := by
      rw [List.take_take, Nat.min_eq_left (Nat.sub_le ..)]
    have hback : ((ptr.take rb.bufferSize).drop (rb.bufferSize - rb.writeIndex)).take
        (rb.bufferSize - (rb.bufferSize - rb.writeIndex)) =
        (ptr.drop (rb.bufferSize - rb.writeIndex)).take
          (rb.bufferSize - (rb.bufferSize - rb.writeIndex)) := by
      rw [List.drop_take, List.take_take, Nat.min_self]
    simp only [rtRingbufferPutForce, hcut, if_pos hlong, lt_irrefl, if_false, if_neg hnot, hfront,
      hback]
  · rw [List.take_of_length_le (Nat.not_lt.mp hlong)]

/-- The calls of `Op`, and the forced write of a block. -/
inductive Call where
  | op (op : Op)
  | putForce (ptr : List UInt8)
  deriving DecidableEq, Repr

def step (rb : Ringbuffer) : Call → Option Ringbuffer
  | .op op => (rb.exec op).map Prod.fst
  | .putForce ptr => (rb.rtRingbufferPutForce ptr).map Prod.fst

theorem step_valid {c : Call} (h : Valid rb) (hstep : rb.step c = some rb') : Valid rb' := by
  cases c with
  | putForce ptr =>
    rw [step, rtRingbufferPutForce_take, h.putForce_eq (List.length_take_le ..)] at hstep
    cases hstep
    exact h.forced _
  | op op =>
    cases op with
    | put ptr =>
      rw [step, exec, h.put_eq] at hstep
      cases hstep
      exact h.wrote _
    | get n =>
      rw [step, exec, h.get_eq] at hstep
      cases hstep
      exact h.skipped _
    | putchar ch =>
      rw [step, exec, h.putchar_eq, h.put_eq] at hstep
      cases hstep
      exact h.wrote _
    | getchar =>
      rw [step, exec, h.getchar_eq, h.get_eq] at hstep
      cases hstep
      exact h.skipped _
    | putcharForce ch =>
      rw [step, exec, h.putcharForce_eq] at hstep
      cases hstep
      exact h.forced _

/-- A buffer that `rt_ringbuffer_init` makes, after any calls. A pool of less than four bytes gives a
buffer without bytes. -/
def Formed (rb : Ringbuffer) : Prop :=
  Valid rb ∨ rb.bufferSize = 0 ∧ rb.readIndex = 0 ∧ rb.writeIndex = 0

theorem rtRingbufferInit_formed {pool : Nat → UInt8} {size : Nat} (hmax : size ≤ 32767)
    (hinit : rtRingbufferInit pool size = some rb) : Formed rb ∧ rb.Mirrored := by
  obtain ⟨-, ⟨⟩⟩ := rtAssert_bind_eq_some.mp hinit
  refine ⟨?_, iff_of_true le_rfl rfl⟩
  rw [rtAlignDown_eq, Nat.mod_eq_of_lt (show size < Word.size32 by unfold Word.size32; omega)]
  by_cases hsmall : size < 4
  · exact .inr ⟨by dsimp only; omega, rfl, rfl⟩
  · refine .inl ⟨?_, ?_, ?_, ?_⟩
    all_goals
      dsimp only
      omega

/-- The mirror bits are right. -/
def Consistent (rb : Ringbuffer) : Prop := rb.rtRingbufferStatus = .full ∨ rb.Mirrored

/-- With the mirror bits right, the stored bytes are those of a queue. -/
theorem Valid.refines (h : Valid rb) (hm : rb.Consistent) : Refines rb rb.stored := by
  have hlength := h.holds.length
  refine ⟨h.pool, h.size_lt, h.read_lt, hlength.trans_le h.holds.le, ?_, hlength.symm ▸ rfl⟩
  rw [hlength]
  by_cases hfull : rb.rtRingbufferStatus = .full
  · obtain ⟨hsame, hne⟩ := status_eq_full.mp hfull
    exact .inr ⟨hne, by rw [dataLen_of_full hfull, hsame]⟩
  · have hm : rb.Mirrored := hm.resolve_left hfull
    obtain ⟨hle, hn⟩ | ⟨hlt, hn⟩ := h.distance hfull
    · exact .inl ⟨hm.mp hle, hn.symm, h.write_lt⟩
    · exact .inr ⟨fun heq => hlt.not_ge (hm.mpr heq), hn.symm⟩

theorem Refines.consistent {l : List UInt8} (h : Refines rb l) : rb.Consistent := by
  have hle := h.le
  rw [Consistent, status_eq_full, Mirrored]
  obtain ⟨heq, hw, -⟩ | ⟨hne, hw⟩ := h.write
  · exact .inr (iff_of_true (by omega) heq)
  · rcases Nat.lt_or_eq_of_le (show rb.writeIndex ≤ rb.readIndex by omega) with hlt | hsame
    · exact .inr (iff_of_false (by omega) hne)
    · exact .inl ⟨hsame.symm, hne⟩

/-- A buffer without bytes is empty and full. -/
theorem dataLen_of_no_bytes (h : rb.bufferSize = 0 ∧ rb.readIndex = 0 ∧ rb.writeIndex = 0) :
    rb.rtRingbufferDataLen = 0 := by
  obtain ⟨hsize, hread, hwrite⟩ := h
  unfold rtRingbufferDataLen rtRingbufferStatus
  by_cases hm : rb.readMirror = rb.writeMirror <;> simp [hm, hsize, hread, hwrite]

theorem Formed.get {n m : Nat} {l : List UInt8} (h : Formed rb)
    (hget : rb.rtRingbufferGet n = some (rb', m, l)) :
    Formed rb' ∧ (m = 0 → rb' = rb) ∧ (rb.Consistent → rb'.Consistent ∧
      rb'.rtRingbufferDataLen = rb.rtRingbufferDataLen - n) := by
  obtain hv | hzero := h
  · rw [hv.get_eq] at hget
    cases hget
    refine ⟨.inl (hv.skipped _), fun hm => by rw [hm, hv.skipped_zero], fun hc => ?_⟩
    have hlength := hv.holds.length
    have href := (hv.refines hc).skipped (n := min n rb.rtRingbufferDataLen) (by omega)
    refine ⟨href.consistent, ?_⟩
    rw [href.dataLen, List.length_drop, hlength]
    omega
  · have hempty := dataLen_of_no_bytes hzero
    rw [rtRingbufferGet, if_pos hempty] at hget
    cases hget
    exact ⟨.inr hzero, fun _ => rfl, fun hc => ⟨hc, by omega⟩⟩

theorem Formed.put {m : Nat} (h : Formed rb) (hput : rb.rtRingbufferPut ptr = some (rb', m)) :
    Formed rb' ∧ (m = 0 → rb' = rb) ∧ (rb.Consistent → rb'.Consistent ∧
      rb'.rtRingbufferSpaceLen = rb.rtRingbufferSpaceLen - ptr.length) := by
  obtain hv | hzero := h
  · have hspace : rb.rtRingbufferSpaceLen = rb.bufferSize - rb.rtRingbufferDataLen := rfl
    have hlength := hv.holds.length
    have htake := List.length_take (i := rb.rtRingbufferSpaceLen) (l := ptr)
    rw [hv.put_eq] at hput
    cases hput
    refine ⟨.inl (hv.wrote _), fun hm => ?_, fun hc => ?_⟩
    · rw [List.eq_nil_of_length_eq_zero (htake.trans ((Nat.min_comm ..).trans hm)), hv.wrote_nil]
    · have hle := hv.holds.le
      have href : Refines _ (_ ++ ptr.take rb.rtRingbufferSpaceLen) := (hv.refines hc).wrote (by omega)
      refine ⟨href.consistent, ?_⟩
      rw [href.spaceLen, List.length_append, hlength, htake]
      change rb.bufferSize - _ = _
      omega
  · have hfull : rb.rtRingbufferSpaceLen = 0 := by
      rw [rtRingbufferSpaceLen, hzero.1, Nat.zero_sub]
    rw [rtRingbufferPut, if_pos hfull] at hput
    cases hput
    exact ⟨.inr hzero, fun _ => rfl, fun hc => ⟨hc, by omega⟩⟩

theorem Formed.putForce {m : Nat} (h : Formed rb)
    (hput : rb.rtRingbufferPutForce ptr = some (rb', m)) : Formed rb' := by
  rw [rtRingbufferPutForce_take] at hput
  obtain hv | hzero := h
  · rw [hv.putForce_eq (List.length_take_le ..)] at hput
    cases hput
    exact .inl (hv.forced _)
  · obtain ⟨hsize, hread, hwrite⟩ := hzero
    simp only [rtRingbufferPutForce, hsize, hwrite, List.take_zero, List.length_nil, Nat.sub_self,
      lt_irrefl, if_false] at hput
    obtain ⟨rb1, hrb1, hput⟩ := Option.bind_eq_some_iff.mp hput
    obtain ⟨rb2, hrb2, hput⟩ := Option.bind_eq_some_iff.mp hput
    obtain ⟨-, ⟨⟩⟩ := Option.ite_none_right_eq_some.mp hrb1
    obtain ⟨-, ⟨⟩⟩ := Option.ite_none_right_eq_some.mp hrb2
    split at hput
    · cases hput
      exact .inr ⟨hsize, rfl, rfl⟩
    · cases hput
      exact .inr ⟨hsize, hread, rfl⟩

/-- After any calls on a buffer of 4 to 32767 bytes, a forced write of a block of at most `buffer_size`
bytes leaves the last `buffer_size` of the old and the new bytes exactly when the buffer was full,
the block leaves room, or it just fits and the mirror bits are right. -/
theorem putForce_keeps_newest_iff (pool : Nat → UInt8) (size : Nat) (hmin : 4 ≤ size)
    (hmax : size ≤ 32767) (calls : List Call) (rb0 rb : Ringbuffer)
    (hinit : rtRingbufferInit pool size = some rb0) (hrun : run step rb0 calls = some rb)
    (ptr : List UInt8) (hlen : ptr.length ≤ rb.bufferSize) :
    ∃ rb', rb.rtRingbufferPutForce ptr = some (rb', ptr.length) ∧
      (rb'.stored = (rb.stored ++ ptr).drop (rb.stored.length + ptr.length - rb.bufferSize) ↔
        rb.KeepsNewest ptr) := by
  obtain ⟨rb1, hinit', -, hempty⟩ := rtRingbufferInit_refines pool hmin hmax
  obtain rfl := Option.some.inj (hinit'.symm.trans hinit)
  have hvalid : Valid rb := run_invariant (fun _ _ _ => step_valid) hempty.valid hrun
  exact ⟨rb.forced ptr, hvalid.putForce_eq hlen, hvalid.stored_forced_iff hlen⟩

/-- A new buffer of six bytes, of which four are used. -/
def sixBytes : Ringbuffer := ⟨fun _ => 0, 6, false, 0, false, 0, 4⟩

def fillUp : List Call := [.op (.put [1, 2, 3]), .op (.get 2), .op (.put [4, 5, 6])]

/-- A full buffer of four bytes takes three more, which go around the end of the pool. -/
theorem putForce_keeps_newest_full :
    ∃ rb rb', run step sixBytes fillUp = some rb ∧ rb.rtRingbufferPutForce [7, 8, 9] = some (rb', 3) ∧
      rb'.stored = (rb.stored ++ [7, 8, 9]).drop (rb.stored.length + 3 - rb.bufferSize) := by
  obtain ⟨rb, hrun, hsize, hfull⟩ :
      ∃ rb ∈ run step sixBytes fillUp, rb.bufferSize = 4 ∧ rb.rtRingbufferStatus = .full := by
    decide +kernel
  obtain ⟨rb', hput, hiff⟩ := putForce_keeps_newest_iff (fun _ => 0) 6 (by decide) (by decide) fillUp
    sixBytes rb rfl hrun [7, 8, 9] (by rw [hsize]; decide)
  exact ⟨rb, rb', hrun, hput, hiff.mpr (.inl hfull)⟩

/-- Three bytes and three more in a buffer of four, which was not full: two of them are left, where the
last four were to be kept. -/
theorem putForce_overtakes_reader :
    ∃ rb rb', rtRingbufferInit (fun _ => 0) 6 = some sixBytes ∧
      run step sixBytes [.op (.put [1, 2, 3])] = some rb ∧
      rb.rtRingbufferPutForce [4, 5, 6] = some (rb', 3) ∧ rb'.stored = [5, 6] ∧
      (rb.stored ++ [4, 5, 6]).drop (rb.stored.length + 3 - rb.bufferSize) = [3, 4, 5, 6] :=
  ⟨_, _, rfl, rfl, rfl, by decide +kernel, by decide +kernel⟩

end RtThread.Ringbuffer
