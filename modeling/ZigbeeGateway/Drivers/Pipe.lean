-- SUMMARY: Pipes: when no reader sleeps over bytes, no writer over space.
import ZigbeeGateway.Drivers.RingbufferForce
import ZigbeeGateway.Kernel.Ipc

/-!
# Pipe devices

The model of `rt_pipe_read` and `rt_pipe_write` in `components/drivers/src/pipe.c`. A call is cut
into its critical sections: a blocked call runs its loop again when it is resumed. A transfer
resumes one thread of the other side, however many bytes it moved, and none of its own side.

The ring buffer takes a 16-bit length, so a size is reduced modulo `2 ^ 16` there. `Inv` says that
while a thread is suspended, the buffer is empty or full, or a resumed thread of the same side is
waiting to run.
-/

namespace RtThread

open Run Function
open Option (bind_eq_some_iff map_eq_some_iff)

/-- `struct rt_pipe_device`. `blockRd`, `blockWr` and `forceWr` are the bits of `flag`, the number
`obj` stands for the address of the object. -/
structure PipeDevice where
  obj : Nat
  ringbuffer : Ringbuffer
  blockRd : Bool
  blockWr : Bool
  forceWr : Bool

namespace PipeDevice

/-- The list heads `suspended_read_list` and `suspended_write_list`. -/
def suspendedReadList (p : PipeDevice) : ListHead := .suspendThread p.obj

def suspendedWriteList (p : PipeDevice) : ListHead := .suspendSenderThread p.obj

/-- `_rt_pipe_resume_writer` up to its call of `rt_schedule`. -/
def rtPipeResumeWriter (k : Kernel) (p : PipeDevice) : Option Kernel :=
  match k.tlist p.suspendedWriteList with
  | [] => some k
  | thread :: _ => do
    rtAssert p.blockWr
    return (k.rtThreadResume thread).1

/-- `_rt_pipe_resume_reader` up to its call of `rt_schedule`, without the callback `rx_indicate`. -/
def rtPipeResumeReader (k : Kernel) (p : PipeDevice) : Option Kernel :=
  match k.tlist p.suspendedReadList with
  | [] => some k
  | thread :: _ => do
    rtAssert p.blockRd
    return (k.rtThreadResume thread).1

/-- The critical section of `rt_pipe_read`, which is run again after every wake-up. The result is
`none` when the thread is suspended, and the bytes that were read otherwise. -/
def rtPipeRead (k : Kernel) (p : PipeDevice) (t : Tid) (size : Nat) :
    Option (Kernel × PipeDevice × Option (List UInt8)) := do
  let (rb, readNbytes, buffer) ← p.ringbuffer.rtRingbufferGet (size % 65536)
  let p := { p with ringbuffer := rb }
  if readNbytes = 0 then
    if p.blockRd then
      let (k, _) := k.rtThreadSuspend t
      return (k.rtListInsertBefore p.suspendedReadList t, p, none)
    else
      -- if the ringbuffer is empty, there won't be any writer waiting
      return (k, p, some buffer)
  else
    let k ← rtPipeResumeWriter k p
    return (k, p, some buffer)

/-- The critical section of `rt_pipe_write` of the bytes `buffer`. The result is `none` when the
thread is suspended, and the number of bytes that were written otherwise. -/
def rtPipeWrite (k : Kernel) (p : PipeDevice) (t : Tid) (buffer : List UInt8) :
    Option (Kernel × PipeDevice × Option Nat) :=
  let ptr := buffer.take (buffer.length % 65536)
  if p.forceWr ∨ ¬ p.blockWr then
    let put :=
      if p.forceWr then p.ringbuffer.rtRingbufferPutForce ptr else p.ringbuffer.rtRingbufferPut ptr
    do
      let (rb, writeNbytes) ← put
      let p := { p with ringbuffer := rb }
      let k ← rtPipeResumeReader k p
      return (k, p, some writeNbytes)
  else do
    let (rb, writeNbytes) ← p.ringbuffer.rtRingbufferPut ptr
    let p := { p with ringbuffer := rb }
    if writeNbytes = 0 then
      let (k, _) := k.rtThreadSuspend t
      return (k.rtListInsertBefore p.suspendedWriteList t, p, none)
    else
      let k ← rtPipeResumeReader k p
      return (k, p, some writeNbytes)

/-! ## Runs -/

/-- A call with its arguments. -/
inductive Call where
  | read (size : Nat)
  | write (buffer : List UInt8)
  deriving DecidableEq, Repr

def Call.IsRead : Call → Prop
  | .read _ => True
  | .write _ => False

def Call.IsWrite : Call → Prop
  | .read _ => False
  | .write _ => True

/-- The first critical section of a call, and the next one of a blocked call. -/
inductive Event where
  | call (t : Tid) (c : Call)
  | resume (t : Tid)
  deriving DecidableEq, Repr

structure Sys where
  kernel : Kernel
  pipe : PipeDevice
  /-- The blocked call of each thread. -/
  blocked : Tid → Option Call

/-- The critical section of a call, and whether the call ends with it. -/
def Call.section (c : Call) (k : Kernel) (p : PipeDevice) (t : Tid) :
    Option (Kernel × PipeDevice × Bool) :=
  match c with
  | .read size => (rtPipeRead k p t size).map fun (k, p, r) => (k, p, r.isSome)
  | .write buffer => (rtPipeWrite k p t buffer).map fun (k, p, r) => (k, p, r.isSome)

namespace Sys

def readers (s : Sys) : List Tid := s.kernel.tlist s.pipe.suspendedReadList

def writers (s : Sys) : List Tid := s.kernel.tlist s.pipe.suspendedWriteList

/-- The number of bytes in the ring buffer and the number of free ones. -/
def dataLen (s : Sys) : Nat := s.pipe.ringbuffer.rtRingbufferDataLen

def spaceLen (s : Sys) : Nat := s.pipe.ringbuffer.rtRingbufferSpaceLen

def after (s : Sys) (t : Tid) (c : Call) : Kernel × PipeDevice × Bool → Sys
  | (k, p, ended) =>
    { kernel := k, pipe := p, blocked := update s.blocked t (if ended then none else some c) }

/-- The thread and the call of an event. -/
def enters (s : Sys) : Event → Option (Tid × Call)
  | .call t c => if s.blocked t = none then some (t, c) else none
  | .resume t => (s.blocked t).map fun c => (t, c)

/-- A resumed thread with a call of the kind `Mine` is waiting to run. -/
def Pending (s : Sys) (Mine : Call → Prop) : Prop :=
  ∃ t c, s.blocked t = some c ∧ Mine c ∧ (s.kernel.thread t).stat = .ready

/-- And it is not the thread `t`. -/
def OtherPending (s : Sys) (t : Tid) (Mine : Call → Prop) : Prop :=
  ∃ u c, u ≠ t ∧ s.blocked u = some c ∧ Mine c ∧ (s.kernel.thread u).stat = .ready

/-- The bytes that a call could move, the threads that are suspended on its side, and whether it
can be suspended itself. -/
def movable (s : Sys) : Call → Nat
  | .read _ => s.dataLen
  | .write _ => s.spaceLen

def asleep (s : Sys) : Call → List Tid
  | .read _ => s.readers
  | .write _ => s.writers

def blocks (s : Sys) : Call → Bool
  | .read _ => s.pipe.blockRd
  | .write _ => s.pipe.blockWr && !s.pipe.forceWr

end Sys

def step (s : Sys) (e : Event) : Option Sys := do
  let (t, c) ← s.enters e
  rtAssert ((s.kernel.thread t).stat = .ready)
  (c.section s.kernel s.pipe t).map (s.after t c)

/-- A pipe nobody has used yet, among threads in any state. -/
structure Initial (s : Sys) : Prop where
  wf : s.kernel.WF
  ring : ∃ pool, ∃ size ≤ 32767, Ringbuffer.rtRingbufferInit pool size = some s.pipe.ringbuffer
  readers : s.readers = []
  writers : s.writers = []
  blocked : ∀ t, s.blocked t = none

/-- The length of a call, as the ring buffer gets it. -/
def Call.length : Call → Nat
  | .read size => size % 65536
  | .write buffer => buffer.length % 65536

/-- The calls of the same side. -/
def Call.Side : Call → Call → Prop
  | .read _ => IsRead
  | .write _ => IsWrite

/-- A call that could move bytes and can be suspended has a length. If a thread of its side is
suspended and no other one is waiting to run, then the length covers all these bytes, and the
mirror bits are right. -/
def Regular (s : Sys) (e : Event) : Prop :=
  ∀ t c, s.enters e = some (t, c) → s.movable c ≠ 0 →
    (s.blocks c → c.length ≠ 0) ∧
    (s.asleep c ≠ [] → s.OtherPending t c.Side ∨
      s.movable c ≤ c.length ∧ (s.pipe.forceWr → s.pipe.ringbuffer.Consistent))

/-! ## What the critical sections do -/

variable {k k' : Kernel} {p p' : PipeDevice} {t : Tid}

/-- The list that a call suspends its thread on. -/
def mine (p : PipeDevice) : Call → ListHead
  | .read _ => p.suspendedReadList
  | .write _ => p.suspendedWriteList

/-- A call of the other side, whose threads a call resumes. -/
def Call.other : Call → Call
  | .read _ => .write []
  | .write _ => .read 0

theorem mine_isWait (p : PipeDevice) (c : Call) : (p.mine c).IsWait := by
  cases c <;> trivial

theorem mine_other (p : PipeDevice) (c : Call) : p.mine c.other ≠ p.mine c := by
  cases c <;> nofun

/-- The first thread of a list is resumed. -/
theorem resumes_of_match {hd : ListHead} {block : Bool} (h : k.WF) (hw : hd.IsWait)
    (hk : (match k.tlist hd with
      | [] => some k
      | thread :: _ => do
        rtAssert block
        return (k.rtThreadResume thread).1) = some k') : k.Resumes k' hd := by
  split at hk
  next hnil =>
    cases hk
    exact .inl ⟨hnil, rfl⟩
  next u rest hlist =>
    obtain ⟨-, ⟨⟩⟩ := rtAssert_bind_eq_some.mp hk
    exact h.resumes hw hlist

/-- What a section does: it suspends the thread, a read that cannot be suspended gets nothing, or
the first thread of the other side is resumed. A write resumes it even if it stores nothing. -/
inductive Does (s : Sys) (t : Tid) (c : Call) : Kernel × PipeDevice × Bool → Prop
  | suspended {k' : Kernel} (hblocks : s.blocks c = true) (hnothing : s.movable c ≠ 0 → c.length = 0)
      (hparks : s.kernel.Parks k' t (s.pipe.mine c) (s.kernel.tlist (s.pipe.mine c) ++ [t])) :
      Does s t c (k', s.pipe, false)
  | nothing (hblocks : s.blocks c = false) : Does s t c (s.kernel, s.pipe, true)
  | moved {k' : Kernel} {rb : Ringbuffer} (hres : s.kernel.Resumes k' (s.pipe.mine c.other))
      (hsome : s.movable c ≠ 0 ∨ c.IsWrite) (hformed : rb.Formed)
      (hcount : (c.IsWrite → s.pipe.forceWr = false) → s.pipe.ringbuffer.Consistent →
        rb.Consistent ∧ (s.after t c (k', { s.pipe with ringbuffer := rb }, true)).movable c =
          s.movable c - c.length) :
      Does s t c (k', { s.pipe with ringbuffer := rb }, true)

section Sections

variable {s : Sys} (h : s.kernel.WF) (hring : s.pipe.ringbuffer.Formed)
  (hready : (s.kernel.thread t).stat = .ready)

include h hring hready

theorem does_read {size : Nat} {r : Option (List UInt8)}
    (hr : rtPipeRead s.kernel s.pipe t size = some (k', p', r)) :
    Does s t (.read size) (k', p', r.isSome) := by
  obtain ⟨⟨rb, n, l⟩, hget, hr⟩ := bind_eq_some_iff.mp hr
  obtain ⟨hformed, hsame, hcount⟩ := hring.get hget
  have hn : n = min s.dataLen (size % 65536) := Ringbuffer.rtRingbufferGet_count hget
  dsimp only at hr
  split at hr
  next hzero =>
    obtain rfl := hsame hzero
    split at hr
    next hblock =>
      cases hr
      exact .suspended hblock (fun hne : s.dataLen ≠ 0 => show size % 65536 = 0 by omega)
        (h.parks_last hready (mine_isWait s.pipe (.read size)))
    next hblock =>
      cases hr
      exact .nothing (Bool.eq_false_iff.mpr hblock)
  next hpos =>
    obtain ⟨k1, hk1, hr⟩ := bind_eq_some_iff.mp hr
    cases hr
    exact .moved (resumes_of_match h (mine_isWait s.pipe (.write [])) hk1)
      (.inl (show s.dataLen ≠ 0 by omega)) hformed fun _ => hcount

theorem does_write {buffer : List UInt8} {r : Option Nat}
    (hr : rtPipeWrite s.kernel s.pipe t buffer = some (k', p', r)) :
    Does s t (.write buffer) (k', p', r.isSome) := by
  have hptr : (buffer.take (buffer.length % 65536)).length = buffer.length % 65536 :=
    List.length_take_of_le (Nat.mod_le ..)
  have hread := mine_isWait s.pipe (.read 0)
  unfold rtPipeWrite at hr
  split at hr
  next hflags =>
    obtain ⟨⟨rb, n⟩, hput, hr⟩ := bind_eq_some_iff.mp hr
    obtain ⟨k1, hk1, hr⟩ := bind_eq_some_iff.mp hr
    cases hr
    refine .moved (resumes_of_match h hread hk1) (.inr trivial) ?_ fun hforce hc => ?_
    all_goals split at hput
    · exact hring.putForce hput
    · exact (hring.put hput).1
    next hforced => cases hforced.symm.trans (hforce trivial)
    · have hcount := (hring.put hput).2.2 hc
      rwa [hptr] at hcount
  next hflags =>
    obtain ⟨⟨rb, n⟩, hput, hr⟩ := bind_eq_some_iff.mp hr
    obtain ⟨hformed, hsame, hcount⟩ := hring.put hput
    have hn : n = min s.spaceLen _ := Ringbuffer.rtRingbufferPut_count hput
    rw [hptr] at hn hcount
    dsimp only at hr
    split at hr
    next hzero =>
      obtain rfl := hsame hzero
      cases hr
      exact .suspended (by simpa [Sys.blocks, and_comm] using hflags)
        (fun hne : s.spaceLen ≠ 0 => show buffer.length % 65536 = 0 by omega)
        (h.parks_last hready (mine_isWait s.pipe (.write buffer)))
    next hpos =>
      obtain ⟨k1, hk1, hr⟩ := bind_eq_some_iff.mp hr
      cases hr
      exact .moved (resumes_of_match h hread hk1) (.inr trivial) hformed fun _ => hcount

theorem section_does {c : Call} {r : Kernel × PipeDevice × Bool}
    (hr : c.section s.kernel s.pipe t = some r) : Does s t c r := by
  cases c with
  | read size =>
    obtain ⟨⟨k', p', r⟩, hread, rfl⟩ := map_eq_some_iff.mp hr
    exact does_read h hring hready hread
  | write buffer =>
    obtain ⟨⟨k', p', r⟩, hwrite, rfl⟩ := map_eq_some_iff.mp hr
    exact does_write h hring hready hwrite

end Sections

/-! ## The invariant -/

/-- One side of the pipe: a thread that is suspended on the list `hd` has a blocked call of the kind
`Mine`, and either nothing can be moved (`stuck`), or a resumed thread of this side is waiting
to run. Only a pipe with the flag of the side (`block`) suspends. -/
structure SideOk (s : Sys) (hd : ListHead) (Mine : Call → Prop) (stuck block : Prop) : Prop where
  block : s.kernel.tlist hd ≠ [] → block
  call : ∀ t ∈ s.kernel.tlist hd, ∃ c, s.blocked t = some c ∧ Mine c
  pending : s.kernel.tlist hd ≠ [] → stuck ∨ s.Pending Mine

structure Inv (s : Sys) : Prop where
  wf : s.kernel.WF
  formed : s.pipe.ringbuffer.Formed
  consistent : s.pipe.forceWr = false → s.pipe.ringbuffer.Consistent
  side : ∀ c, SideOk s (s.pipe.mine c) c.Side (s.movable c = 0) (s.blocks c = true)

variable {s s' : Sys} {c : Call}

theorem Initial.inv (h : Initial s) : Inv s := by
  have hreaders : s.kernel.tlist s.pipe.suspendedReadList = [] := h.readers
  have hwriters : s.kernel.tlist s.pipe.suspendedWriteList = [] := h.writers
  obtain ⟨pool, size, hmax, hinit⟩ := h.ring
  obtain ⟨hformed, hmirror⟩ := Ringbuffer.rtRingbufferInit_formed hmax hinit
  refine ⟨h.wf, hformed, fun _ => .inr hmirror, fun c => ⟨?_, ?_, ?_⟩⟩
  all_goals cases c <;> simp [mine, hreaders, hwriters]

/-- What a step does: the section of the call that it enters, by a ready thread. -/
theorem step_cases {e : Event} (hs' : step s e = some s') :
    ∃ t c r, s.enters e = some (t, c) ∧ (s.kernel.thread t).stat = .ready ∧
      (∀ c', s.blocked t = some c' → c' = c) ∧
      c.section s.kernel s.pipe t = some r ∧ s' = s.after t c r := by
  obtain ⟨⟨t, c⟩, henters, hs'⟩ := bind_eq_some_iff.mp hs'
  obtain ⟨hready, hs'⟩ := rtAssert_bind_eq_some.mp hs'
  obtain ⟨r, hr, rfl⟩ := map_eq_some_iff.mp hs'
  refine ⟨t, c, r, henters, hready, fun c' hc' => ?_, hr, rfl⟩
  cases e with
  | call u c1 =>
    obtain ⟨hnone, ⟨⟩⟩ := Option.ite_none_right_eq_some.mp henters
    simp [hnone] at hc'
  | resume u =>
    obtain ⟨c1, hc1, heq⟩ := map_eq_some_iff.mp henters
    cases heq
    exact Option.some.inj (hc'.symm.trans hc1)

section Side

variable {hd hd' : ListHead} {Mine : Call → Prop} {stuck stuck' block : Prop} {ended : Bool}

variable (h : SideOk s hd Mine stuck block)

include h

/-- The thread of another side takes a step that leaves the list and the other threads. -/
theorem SideOk.frame (hother : ∀ c', s.blocked t = some c' → ¬ Mine c')
    (hlist : k'.tlist hd = s.kernel.tlist hd)
    (hthread : ∀ u ≠ t, (s.kernel.thread u).stat = .ready → (k'.thread u).stat = .ready) :
    SideOk (s.after t c (k', p', ended)) hd Mine stuck block := by
  have hmine_ne {u : Tid} {c' : Call} (hu : s.blocked u = some c') (hc' : Mine c') : u ≠ t := by
    rintro rfl
    exact hother c' hu hc'
  have hblocked {u : Tid} (hu : u ≠ t) : (s.after t c (k', p', ended)).blocked u = s.blocked u :=
    update_of_ne hu _ _
  refine ⟨fun hne => h.block (hlist ▸ hne), fun u hu => ?_, fun hne => ?_⟩
  · have hu : u ∈ k'.tlist hd := hu
    rw [hlist] at hu
    obtain ⟨c', hc', hmine⟩ := h.call u hu
    exact ⟨c', (hblocked (hmine_ne hc' hmine)).trans hc', hmine⟩
  · refine (h.pending (hlist ▸ hne)).imp_right ?_
    rintro ⟨u, c', hc', hmine, hready⟩
    have hut := hmine_ne hc' hmine
    exact ⟨u, c', (hblocked hut).trans hc', hmine, hthread u hut hready⟩

/-- A thread is suspended because nothing can be moved. -/
theorem SideOk.suspend (hstuck : stuck') (hblock : block) (hmine : Mine c)
    (hlist : k'.tlist hd = s.kernel.tlist hd ++ [t]) :
    SideOk (s.after t c (k', p', false)) hd Mine stuck' block := by
  refine ⟨fun _ => hblock, fun u hu => ?_, fun _ => .inl hstuck⟩
  have hu : u ∈ k'.tlist hd := hu
  rw [hlist, List.mem_append, List.mem_singleton] at hu
  by_cases hut : u = t
  · subst hut
    exact ⟨c, update_self .., hmine⟩
  · obtain ⟨c', hc', hmine'⟩ := h.call u (hu.resolve_right hut)
    exact ⟨c', (update_of_ne hut _ _).trans hc', hmine'⟩

/-- A running thread resumes another one, and the threads of this side stay suspended or wait to run. -/
theorem SideOk.resumes (hwf : s.kernel.WF) (hw : hd.IsWait)
    (hready : (s.kernel.thread t).stat = .ready) (hres : s.kernel.Resumes k' hd')
    (hpending : k'.tlist hd ≠ [] → s.kernel.tlist hd ≠ [] →
      stuck' ∨ (s.after t c (k', p', ended)).Pending Mine) :
    SideOk (s.after t c (k', p', ended)) hd Mine stuck' block := by
  have hsub : k'.tlist hd ⊆ s.kernel.tlist hd := hres.subset hw
  have hne (hne : k'.tlist hd ≠ []) : s.kernel.tlist hd ≠ [] :=
    fun hnil => hne (List.subset_nil.mp (hnil ▸ hsub))
  refine ⟨fun h' => h.block (hne h'), fun u hu => ?_, fun h' => hpending h' (hne h')⟩
  have hut : u ≠ t := by
    rintro rfl
    exact hwf.notMem_wait hready hw (hsub hu)
  obtain ⟨c', hc', hmine⟩ := h.call u (hsub hu)
  exact ⟨c', (update_of_ne hut _ _).trans hc', hmine⟩

/-- The other side has moved bytes and resumes the first thread: if there are more, that one is
waiting to run. -/
theorem SideOk.resume (hwf : s.kernel.WF) (hw : hd.IsWait)
    (hready : (s.kernel.thread t).stat = .ready) (hres : s.kernel.Resumes k' hd) :
    SideOk (s.after t c (k', p', ended)) hd Mine stuck' block := by
  refine h.resumes hwf hw hready hres fun hne _ => .inr ?_
  obtain ⟨hnil, rfl⟩ | ⟨u, rest, hlist, hwk⟩ := hres
  · exact absurd hnil hne
  · have hmem : u ∈ s.kernel.tlist hd := hlist ▸ List.mem_cons_self
    have hut : u ≠ t := by
      rintro rfl
      exact hwf.notMem_wait hready hw hmem
    obtain ⟨c', hc', hmine⟩ := h.call u hmem
    exact ⟨u, c', (update_of_ne hut _ _).trans hc', hmine, congrArg Thread.stat hwk.thread_same⟩

/-- This side has moved bytes, and all of them if one of its threads is suspended and no other one
is waiting to run. -/
theorem SideOk.move (hwf : s.kernel.WF) (hw : hd.IsWait)
    (hready : (s.kernel.thread t).stat = .ready) (hres : s.kernel.Resumes k' hd')
    (hstuck : s.kernel.tlist hd ≠ [] → s.OtherPending t Mine ∨ stuck') :
    SideOk (s.after t c (k', p', ended)) hd Mine stuck' block := by
  refine h.resumes hwf hw hready hres fun _ hne => (hstuck hne).symm.imp_right ?_
  rintro ⟨u, c', hut, hc', hmine, hu⟩
  exact ⟨u, c', (update_of_ne hut _ _).trans hc', hmine, hres.ready hu⟩

end Side

/-- A thread joins a list of suspended threads only while its own condition holds. -/
def SuspendsStuck (s s' : Sys) : Prop :=
  (∀ t ∈ s'.readers, t ∉ s.readers → s'.dataLen = 0) ∧
    ∀ t ∈ s'.writers, t ∉ s.writers → s'.spaceLen = 0

/-- What a step does to the side of `c`. -/
structure SideStep (s s' : Sys) (c : Call) : Prop where
  ok : SideOk s' (s'.pipe.mine c) c.Side (s'.movable c = 0) (s'.blocks c = true)
  joins : ∀ t ∈ s'.kernel.tlist (s'.pipe.mine c), t ∉ s.kernel.tlist (s.pipe.mine c) → s'.movable c = 0

theorem SideStep.both (hmine : SideStep s s' c) (htheirs : SideStep s s' c.other) (d : Call) :
    SideStep s s' d := by
  obtain ⟨hok, hjoins⟩ := hmine
  obtain ⟨hok', hjoins'⟩ := htheirs
  cases c <;> cases d
  · exact ⟨hok, hjoins⟩
  · exact ⟨hok', hjoins'⟩
  · exact ⟨hok', hjoins'⟩
  · exact ⟨hok, hjoins⟩

theorem not_force_of_blocks (h : s.blocks c = true) (hc : c.IsWrite) : s.pipe.forceWr = false := by
  cases c with
  | read => exact hc.elim
  | write => exact (by simpa [Sys.blocks] using h : s.pipe.blockWr = true ∧ _).2

/-- A section keeps the invariant, and the lists as `SuspendsStuck` says. -/
theorem Inv.section {r : Kernel × PipeDevice × Bool} (h : Inv s)
    (hready : (s.kernel.thread t).stat = .ready) (hcall : ∀ c', s.blocked t = some c' → c' = c)
    (hr : c.section s.kernel s.pipe t = some r)
    (hreg : s.movable c ≠ 0 → (s.blocks c → c.length ≠ 0) ∧
      (s.asleep c ≠ [] → s.OtherPending t c.Side ∨
        s.movable c ≤ c.length ∧ (s.pipe.forceWr → s.pipe.ringbuffer.Consistent))) :
    Inv (s.after t c r) ∧ ∀ d, SideStep s (s.after t c r) d := by
  suffices hsides : (s.after t c r).kernel.WF ∧ (s.after t c r).pipe.ringbuffer.Formed ∧
      ((s.after t c r).pipe.forceWr = false → (s.after t c r).pipe.ringbuffer.Consistent) ∧
      SideStep s (s.after t c r) c ∧ SideStep s (s.after t c r) c.other by
    obtain ⟨hwf, hformed, hconsistent, hmine, htheirs⟩ := hsides
    exact ⟨⟨hwf, hformed, hconsistent, fun d => (hmine.both htheirs d).ok⟩, hmine.both htheirs⟩
  have hother : ∀ c', s.blocked t = some c' → ¬ c.other.Side c' := by
    intro c' hc'
    rw [hcall c' hc']
    cases c <;> exact id
  have hmine := mine_isWait s.pipe c
  have htheirs := mine_isWait s.pipe c.other
  cases section_does h.wf h.formed hready hr with
  | suspended hblocks hnothing hparks =>
    have hstuck : s.movable c = 0 := by
      by_contra hne
      exact (hreg hne).1 hblocks (hnothing hne)
    have hlist := hparks.other _ htheirs (mine_other s.pipe c)
    have hside : c.Side c := by cases c <;> trivial
    refine ⟨hparks.wf, h.formed, h.consistent, ⟨?_, fun _ _ _ => hstuck⟩, ?_,
      fun u hu hnot => absurd (hlist ▸ hu) hnot⟩
    · exact (h.side c).suspend hstuck hblocks hside hparks.list
    · refine (h.side c.other).frame hother hlist fun u hut hu => ?_
      rw [hparks.thread, update_of_ne hut]
      exact hu
  | nothing hblocks =>
    -- without the flag there is no suspended thread
    have hnil : s.kernel.tlist (s.pipe.mine c) = [] := by
      by_contra hne
      cases hblocks.symm.trans ((h.side c).block hne)
    refine ⟨h.wf, h.formed, h.consistent, ⟨⟨?_, ?_, ?_⟩, ?_⟩,
      (h.side c.other).frame hother rfl fun _ _ hu => hu, fun u hu hnot => absurd hu hnot⟩
    all_goals simp [Sys.after, hnil]
  | @moved k' rb hres hsome hformed hcount =>
    refine ⟨hres.wf h.wf, hformed, fun hforce => (hcount (fun _ => hforce) (h.consistent hforce)).1,
      ⟨?_, fun u hu hnot => absurd (hres.subset hmine hu) hnot⟩,
      (h.side c.other).resume h.wf htheirs hready hres,
      fun u hu hnot => absurd (hres.subset htheirs hu) hnot⟩
    refine (h.side c).move h.wf hmine hready hres fun hne => ?_
    have hforce := not_force_of_blocks ((h.side c).block hne)
    by_cases hzero : s.movable c = 0
    · have hconsistent := h.consistent (hforce (hsome.resolve_left (not_not.mpr hzero)))
      exact .inr ((hcount hforce hconsistent).2.trans (by rw [hzero, Nat.zero_sub]))
    · have hasleep : s.asleep c ≠ [] := by cases c <;> exact hne
      refine ((hreg hzero).2 hasleep).imp_right ?_
      rintro ⟨hle, hforced⟩
      have hconsistent : s.pipe.ringbuffer.Consistent := by
        cases hforce : s.pipe.forceWr with
        | false => exact h.consistent hforce
        | true => exact hforced hforce
      exact (hcount hforce hconsistent).2.trans (Nat.sub_eq_zero_of_le hle)

theorem Inv.step {e : Event} (h : Inv s) (hreg : Regular s e) (hs' : step s e = some s') :
    Inv s' ∧ SuspendsStuck s s' := by
  obtain ⟨t, c, r, henters, hready, hcall, hr, rfl⟩ := step_cases hs'
  obtain ⟨hinv, hsides⟩ := h.section hready hcall hr (hreg t c henters)
  exact ⟨hinv, (hsides (.read 0)).joins, (hsides (.write [])).joins⟩

/-- In every run in which a call that could move bytes and can be suspended has a length, and covers
all these bytes if a thread of its side is suspended and no other one is waiting to run: when no
resumed reader is waiting to run, a reader is suspended only if the buffer is empty, and the same
for writers and a full buffer. A step suspends a thread only while the buffer is empty, or full. -/
theorem pipe_nobody_left_asleep {es : List Event} (h : Initial s) (hreg : Along step Regular s es)
    (hrun : run step s es = some s') :
    (¬ s'.Pending Call.IsRead → s'.readers ≠ [] → s'.dataLen = 0) ∧
    (¬ s'.Pending Call.IsWrite → s'.writers ≠ [] → s'.spaceLen = 0) ∧
    ∀ e s'', Regular s' e → step s' e = some s'' → SuspendsStuck s' s'' := by
  have hinv : Inv s' := run_invariant_along (fun _ _ _ h hreg hs => (h.step hreg hs).1) h.inv hreg hrun
  refine ⟨fun hnone hne => ?_, fun hnone hne => ?_, fun e s'' hreg hs => (hinv.step hreg hs).2⟩
  · exact ((hinv.side (.read 0)).pending hne).resolve_right hnone
  · exact ((hinv.side (.write [])).pending hne).resolve_right hnone

/-! ## Two suspended readers -/

def Event.tid : Event → Tid
  | .call t _ | .resume t => t

theorem step_blocked {e : Event} {u : Tid} (hu : e.tid ≠ u) (hs' : step s e = some s') :
    s'.blocked u = s.blocked u := by
  obtain ⟨t, c, ⟨k', p', ended⟩, henters, -, -, -, rfl⟩ := step_cases hs'
  have ht : t = e.tid := by
    cases e with
    | call v c1 =>
      simp only [Sys.enters] at henters
      split at henters <;> cases henters
      rfl
    | resume v =>
      obtain ⟨c1, -, heq⟩ := map_eq_some_iff.mp henters
      cases heq
      rfl
  exact update_of_ne (fun heq => hu (ht.symm.trans heq.symm)) _ _

/-- An empty pipe of eight bytes with `RT_PIPE_FLAG_BLOCK_RD`, and three ready threads. -/
def emptyPipe : Sys where
  kernel := Kernel.bootThreads (fun _ => 10) [0, 1, 2]
  pipe :=
    { obj := 0
      ringbuffer :=
        { bufferPtr := fun _ => 0, poolSize := 8, readMirror := false, readIndex := 0,
          writeMirror := false, writeIndex := 0, bufferSize := 8 }
      blockRd := true
      blockWr := false
      forceWr := false }
  blocked := fun _ => none

theorem emptyPipe_initial : Initial emptyPipe :=
  ⟨Kernel.bootThreads_wf _ _, ⟨fun _ => 0, 8, by decide, rfl⟩, rfl, rfl, fun _ => rfl⟩

/-- The condition without threads that wait to run and without forced writes. -/
def covers (s : Sys) (e : Event) : Bool :=
  (s.enters e).all fun (_, c) =>
    c.length != 0 && (decide (s.movable c ≤ c.length) || (s.asleep c).isEmpty) && !s.pipe.forceWr

theorem regular_of_covers (s : Sys) (e : Event) (h : covers s e = true) : Regular s e := by
  intro t c henters _
  rw [covers, henters, Option.all_some] at h
  simp only [Bool.and_eq_true, bne_iff_ne, Bool.or_eq_true, decide_eq_true_eq, Bool.not_eq_true',
    List.isEmpty_iff] at h
  obtain ⟨⟨hlen, hall⟩, hforce⟩ := h
  exact ⟨fun _ => hlen, fun hne => .inr ⟨hall.resolve_right hne, fun hf => by simp [hforce] at hf⟩⟩

/-- Two readers are suspended, and the one that a write resumes takes both bytes. -/
theorem pipe_nobody_left_asleep_one :
    ∃ s, run step emptyPipe
        [.call 0 (.read 2), .call 1 (.read 1), .call 2 (.write [5, 6]), .resume 0] = some s ∧
      s.readers = [1] ∧ (¬ s.Pending Call.IsRead → s.readers ≠ [] → s.dataLen = 0) := by
  refine run_exists (Q := fun s => s.readers = [1]) (by decide +kernel) fun s hrun hone => ⟨hone, ?_⟩
  exact (pipe_nobody_left_asleep emptyPipe_initial
    (along_of_check regular_of_covers (by decide +kernel)) hrun).1

def twoReaders : List Event :=
  [.call 0 (.read 1), .call 1 (.read 1), .call 2 (.write [5, 6]), .resume 0]

/-- Two readers are suspended. A write of two bytes resumes the first one, which takes one byte:
the other one stays suspended over the second byte, and nobody is waiting to run. And a read of
no bytes is suspended although there are some. -/
theorem second_reader_left_asleep :
    Initial emptyPipe ∧
    (∃ s, run step emptyPipe twoReaders = some s ∧ s.readers = [1] ∧ s.dataLen = 1 ∧
      ∀ Mine, ¬ s.Pending Mine) ∧
    ∃ s, run step emptyPipe [.call 2 (.write [5, 6]), .call 0 (.read 0)] = some s ∧
      s.readers = [0] ∧ s.dataLen = 2 := by
  refine ⟨emptyPipe_initial, run_exists (Q := fun s => s.readers = [1] ∧ s.dataLen = 1 ∧ s.blocked 0 = none ∧
    s.blocked 2 = none ∧ (s.kernel.thread 1).stat = .suspend) (by decide +kernel) ?_,
    run_exists (by decide +kernel) fun _ _ => id⟩
  rintro s hrun ⟨hreaders, hdata, h0, h2, hstat⟩
  refine ⟨hreaders, hdata, ?_⟩
  rintro Mine ⟨t, c, hc, -, hready⟩
  obtain rfl | rfl | rfl | hgt : t = 0 ∨ t = 1 ∨ t = 2 ∨ 2 < t := by
    unfold Tid at *
    omega
  · cases hc.symm.trans h0
  · cases hstat.symm.trans hready
  · cases hc.symm.trans h2
  · -- the events are about the threads 0, 1 and 2
    have hle : ∀ e ∈ twoReaders, e.tid ≤ 2 := by decide
    have hnone := run_frame (f := fun s => s.blocked t) (fun _ _ _ => step_blocked)
      (fun e he => Nat.ne_of_lt (Nat.lt_of_le_of_lt (hle e he) hgt)) hrun
    cases hc.symm.trans hnone

end PipeDevice

end RtThread
