-- SUMMARY: Event objects, and when a waiter may stay suspended.
import ZigbeeGateway.Lib.Run
import ZigbeeGateway.Kernel.Ipc

/-!
# Event objects

A waiter on an event object asks for all bits of its mask or for some of them, and may ask
to clear the bits it gets. One send walks the wait list once, while the bits that satisfied
waiters clear disappear from the set. The walk is right because the set only shrinks on
the way: a waiter that was examined without success stays unsatisfied.
-/

namespace RtThread

open Run Function

/-- `struct rt_event`. -/
structure RtEvent where
  parent : IpcObject
  set : BitVec 32
  deriving DecidableEq, Repr

namespace RtEvent

/-- `RT_EVENT_FLAG_AND`. -/
def flagAnd : BitVec 8 := 0x01#8

/-- `RT_EVENT_FLAG_OR`. -/
def flagOr : BitVec 8 := 0x02#8

/-- `RT_EVENT_FLAG_CLEAR`. -/
def flagClear : BitVec 8 := 0x04#8

/-- `rt_event_init`. -/
def rtEventInit (obj : Nat) (flag : IpcFlag) : RtEvent where
  parent := { obj := obj, flag := flag }
  set := 0

/-- The test of one waiter in `rt_event_send`. The result is the thread with the event set it
received, and nothing when the status stays `-RT_ERROR`. -/
def received (th : Thread) (set : BitVec 32) : Option Thread :=
  if th.eventInfo &&& flagAnd ≠ 0 then
    if th.eventSet &&& set = th.eventSet then some th else none
  else if th.eventInfo &&& flagOr ≠ 0 then
    if th.eventSet &&& set ≠ 0 then
      some { th with eventSet := th.eventSet &&& set }
    else
      none
  else
    none

/-- The loop of `rt_event_send` over the rest of the wait list. The next node is read before
a thread is resumed, so the loop visits every thread that waited when it began. -/
def sendLoop : Kernel → BitVec 32 → List Tid → Kernel × BitVec 32
  | k, set, [] => (k, set)
  | k, set, t :: rest =>
    match received (k.thread t) set with
    | none => sendLoop k set rest
    | some th =>
      let k := k.setThread t th
      let set := if th.eventInfo &&& flagClear ≠ 0 then set &&& ~~~th.eventSet else set
      sendLoop (k.rtThreadResume t).1 set rest

/-- `rt_event_send`. -/
def rtEventSend (k : Kernel) (event : RtEvent) (set : BitVec 32) : Kernel × RtEvent × Err :=
  if set = 0 then
    (k, event, .error)
  else
    let (k, set) := sendLoop k (event.set ||| set) (k.tlist event.parent.suspendThread)
    (k, { event with set := set }, .eok)

/-- The test of `rt_event_recv`: it asserts that one of the two flags is given. -/
def recvStatus (event : RtEvent) (set : BitVec 32) (option : BitVec 8) : Option Bool :=
  if option &&& flagAnd ≠ 0 then
    some (decide (event.set &&& set = set))
  else if option &&& flagOr ≠ 0 then
    some (decide (event.set &&& set ≠ 0))
  else
    none

/-- What `rt_event_recv` returns: the error number, and `*recved` when it was written. -/
structure Recv where
  result : Err
  recved : Option (BitVec 32)
  deriving DecidableEq, Repr

/-- `rt_event_recv` of thread `t` up to its call of `rt_schedule`. The result is `none` when the
thread is suspended. -/
def rtEventRecv (k : Kernel) (event : RtEvent) (t : Tid) (set : BitVec 32) (option : BitVec 8)
    (timeout : Int) : Option (Kernel × RtEvent × Option Recv) :=
  if set = 0 then
    some (k, event, some ⟨.error, none⟩)
  else do
    let k := k.setThread t { k.thread t with error := .eok }
    let status ← recvStatus event set option
    if status then
      let recved := event.set &&& set
      let cleared := if option &&& flagClear ≠ 0 then event.set &&& ~~~set else event.set
      return (k, { event with set := cleared }, some ⟨(k.thread t).error, some recved⟩)
    else if timeout = 0 then
      let k := k.setThread t { k.thread t with error := .etimeout }
      return (k, event, some ⟨(k.thread t).error, none⟩)
    else
      let k := k.setThread t
        { k.thread t with
          eventSet := set
          eventInfo := option }
      let k := k.rtIpcListSuspend event.parent.suspendThread t event.parent.flag
      let k ← k.startThreadTimer t timeout
      return (k, event, none)

/-- The end of a blocked `rt_event_recv`, when the thread runs again. -/
def rtEventRecvReturn (k : Kernel) (t : Tid) : Recv where
  result := (k.thread t).error
  recved := if (k.thread t).error ≠ .eok then none else some (k.thread t).eventSet

/-- `rt_event_control` with `RT_IPC_CMD_RESET`. -/
def rtEventReset (k : Kernel) (event : RtEvent) : Option (Kernel × RtEvent) := do
  let k ← k.rtIpcListResumeAll event.parent.suspendThread
  return (k, { event with set := 0 })

/-! ## Runs -/

/-- The calls, the return of a blocked receive, and the expiry of a thread timer. A send may
come from any context. -/
inductive Event where
  | send (set : BitVec 32)
  | recv (t : Tid) (set : BitVec 32) (option : BitVec 8) (timeout : Int)
  | recvReturn (t : Tid)
  | expire (t : Tid)
  deriving DecidableEq, Repr

structure Sys where
  kernel : Kernel
  event : RtEvent
  /-- The threads in a receive that was suspended and has not returned. -/
  inRecv : Tid → Bool
  /-- What the receives returned so far. -/
  returned : List Recv

namespace Sys

def waiters (s : Sys) : List Tid := s.kernel.tlist s.event.parent.suspendThread

/-- A call of `rt_event_recv`. -/
def afterRecv (s : Sys) (t : Tid) : Kernel × RtEvent × Option Recv → Sys
  | (k, event, none) =>
    { s with
      kernel := k
      event := event
      inRecv := update s.inRecv t true }
  | (k, event, some r) =>
    { s with
      kernel := k
      event := event
      returned := s.returned ++ [r] }

end Sys

def step (s : Sys) : Event → Option Sys
  | .send set =>
    let (k, event, _) := rtEventSend s.kernel s.event set
    some { s with
      kernel := k
      event := event }
  | .recv t set option timeout =>
    if (s.kernel.thread t).stat = .ready ∧ s.inRecv t = false then
      (rtEventRecv s.kernel s.event t set option timeout).map (s.afterRecv t)
    else
      none
  | .recvReturn t =>
    if (s.kernel.thread t).stat = .ready ∧ s.inRecv t = true then
      some { s with
        inRecv := update s.inRecv t false
        returned := s.returned ++ [rtEventRecvReturn s.kernel t] }
    else
      none
  | .expire t => (s.kernel.expire t).map fun k => { s with kernel := k }

/-- An event object that nobody waits on, among threads in any state. -/
structure Initial (s : Sys) : Prop where
  wf : s.kernel.WF
  waiters : s.waiters = []

/-! ## Conditions -/

/-- The bits of `a` are bits of `b`. -/
def Sub (a b : BitVec 32) : Prop := ∀ i, a.getLsbD i = true → b.getLsbD i = true

theorem Sub.refl (a : BitVec 32) : Sub a a := fun _ h => h

theorem Sub.trans {a b c : BitVec 32} (h1 : Sub a b) (h2 : Sub b c) : Sub a c :=
  fun i h => h2 i (h1 i h)

theorem sub_and_not (a b : BitVec 32) : Sub (a &&& ~~~b) a := by
  intro i hi
  simp only [BitVec.getLsbD_and, Bool.and_eq_true] at hi
  exact hi.1

/-- The condition of a receiver on the set: all bits of its mask, or some of them. -/
def Satisfied (th : Thread) (set : BitVec 32) : Prop :=
  if th.eventInfo &&& flagAnd ≠ 0 then
    Sub th.eventSet set
  else if th.eventInfo &&& flagOr ≠ 0 then
    ∃ i, th.eventSet.getLsbD i = true ∧ set.getLsbD i = true
  else
    False

variable {th : Thread} {set : BitVec 32} {event : RtEvent} {option : BitVec 8} {hd : ListHead}
  {k : Kernel} {t : Tid} {s : Sys} {timeout : Int}

/-- The condition depends on the mask and the option only. -/
theorem Satisfied.congr {th' : Thread} (h : Satisfied th set)
    (hmask : th.eventSet = th'.eventSet) (hinfo : th.eventInfo = th'.eventInfo) :
    Satisfied th' set := by
  unfold Satisfied at h ⊢
  rwa [hmask, hinfo] at h

/-- What is satisfied by fewer bits is satisfied by more. -/
theorem Satisfied.mono {a b : BitVec 32} (h : Satisfied th a) (hab : Sub a b) : Satisfied th b := by
  unfold Satisfied at h ⊢
  split
  next hand =>
    rw [if_pos hand] at h
    exact h.trans hab
  next hand =>
    rw [if_neg hand] at h
    split
    next hor =>
      rw [if_pos hor] at h
      obtain ⟨i, hi, ha⟩ := h
      exact ⟨i, hi, hab i ha⟩
    next hor =>
      rw [if_neg hor] at h
      exact h

theorem and_eq_left_iff (a b : BitVec 32) : a &&& b = a ↔ Sub a b := by
  constructor
  · intro h i hi
    rw [← h, BitVec.getLsbD_and, Bool.and_eq_true] at hi
    exact hi.2
  · intro h
    apply BitVec.eq_of_getLsbD_eq
    intro i _
    rw [BitVec.getLsbD_and]
    cases ha : a.getLsbD i with
    | false => rfl
    | true => rw [h i ha]; rfl

theorem and_ne_zero_iff (a b : BitVec 32) :
    a &&& b ≠ 0 ↔ ∃ i, a.getLsbD i = true ∧ b.getLsbD i = true := by
  constructor
  · intro h
    by_contra hno
    apply h
    apply BitVec.eq_of_getLsbD_eq
    intro i _
    simp only [not_exists, not_and, Bool.not_eq_true] at hno
    cases ha : a.getLsbD i with
    | false => simp [ha]
    | true => simp [ha, hno i ha]
  · rintro ⟨i, ha, hb⟩ h0
    have hbit := congrArg (BitVec.getLsbD · i) h0
    simp [ha, hb] at hbit

/-- The test in `rt_event_send` finds out whether the waiter is satisfied. It hands on the mask,
or the part of it that is there. -/
theorem received_spec (th : Thread) (set : BitVec 32) :
    (received th set = none ∧ ¬ Satisfied th set) ∨
    ∃ bits, received th set = some { th with eventSet := bits } ∧ Satisfied th set ∧
      Sub bits th.eventSet ∧ Sub bits set := by
  unfold received Satisfied
  split
  · split
    next hall =>
      have hsub := (and_eq_left_iff _ _).mp hall
      exact .inr ⟨th.eventSet, rfl, hsub, .refl _, hsub⟩
    next hall => exact .inl ⟨rfl, fun h => hall ((and_eq_left_iff _ _).mpr h)⟩
  · split
    · split
      next hsome =>
        refine .inr ⟨_, rfl, (and_ne_zero_iff _ _).mp hsome, fun i hi => ?_, fun i hi => ?_⟩ <;>
          simp_all
      next hsome => exact .inl ⟨rfl, fun h => hsome ((and_ne_zero_iff _ _).mpr h)⟩
    · exact .inl ⟨rfl, id⟩

/-- The test in `rt_event_recv` is the same condition. -/
theorem recvStatus_spec {status : Bool}
    (th : Thread) (h : recvStatus event set option = some status) :
    status = true ↔ Satisfied { th with eventSet := set, eventInfo := option } event.set := by
  unfold recvStatus at h
  unfold Satisfied
  split at h
  next hand =>
    cases h
    rw [if_pos hand, decide_eq_true_iff, BitVec.and_comm, and_eq_left_iff]
  next hand =>
    rw [if_neg hand]
    obtain ⟨hor, ⟨⟩⟩ := Option.ite_none_right_eq_some.mp h
    rw [if_pos hor, decide_eq_true_iff, BitVec.and_comm, and_ne_zero_iff]

/-! ## The walk of rt_event_send -/

/-- A satisfied receiver with the clear option takes bit `i` out of the set. -/
structure Clears (th : Thread) (set : BitVec 32) (i : Nat) : Prop where
  clear : th.eventInfo &&& flagClear ≠ 0
  mask : th.eventSet.getLsbD i = true
  bit : set.getLsbD i = true
  satisfied : Satisfied th set

/-- What the walk over the threads `l` of the wait list `hd` does. -/
structure Walk (hd : ListHead) (k : Kernel) (set : BitVec 32) (l : List Tid) (k' : Kernel)
    (set' : BitVec 32) : Prop where
  wf : k'.WF
  sub : Sub set' set
  stay : ∀ t ∈ k'.tlist hd, t ∈ k.tlist hd ∧ k'.thread t = k.thread t
  unsatisfied : ∀ t ∈ k'.tlist hd, t ∈ l → ¬ Satisfied (k.thread t) set'
  cleared : ∀ i, set.getLsbD i = true → set'.getLsbD i = false →
    ∃ t ∈ l, t ∉ k'.tlist hd ∧ ∃ set1, Sub set1 set ∧ Clears (k.thread t) set1 i

/-- A waiter that is not satisfied now is not satisfied by what the walk leaves. -/
theorem Walk.pass {k' : Kernel} {set' : BitVec 32}
    {rest : List Tid} (h : Walk hd k set rest k' set') (hun : ¬ Satisfied (k.thread t) set) :
    Walk hd k set (t :: rest) k' set' := by
  refine ⟨h.wf, h.sub, h.stay, fun u hu hmem => ?_, fun i hi hi' => ?_⟩
  · rcases List.mem_cons.mp hmem with rfl | hmem
    · exact fun hsat => hun (hsat.mono h.sub)
    · exact h.unsatisfied u hu hmem
  · obtain ⟨u, hu, hrest⟩ := h.cleared i hi hi'
    exact ⟨u, .tail _ hu, hrest⟩

/-- A satisfied waiter is resumed with the bits it received. -/
theorem Walk.resume {k2 k' : Kernel} {set1 set' bits : BitVec 32}
    {rest : List Tid} {err : Err} (hwf : k.WF) (hw : hd.IsWait)
    (hwk : (k.setThread t { k.thread t with eventSet := bits }).Wakes k2 t err)
    (hset : set1 = if (k.thread t).eventInfo &&& flagClear ≠ 0 then set &&& ~~~bits else set)
    (hsat : Satisfied (k.thread t) set) (hbits : Sub bits (k.thread t).eventSet)
    (hnot : t ∉ rest) (h : Walk hd k2 set1 rest k' set') : Walk hd k set (t :: rest) k' set' := by
  have hwf1 : (k.setThread t { k.thread t with eventSet := bits }).WF :=
    hwf.setThread_of_same rfl rfl rfl rfl
  have hmem : ∀ u, u ∈ k2.tlist hd ↔ u ≠ t ∧ u ∈ k.tlist hd := by
    intro u
    rw [hwk.mem hwf1 hw, Kernel.setThread_tlist]
  have hthread : ∀ u, u ≠ t → k2.thread u = k.thread u := fun u hu =>
    (hwk.thread_of_ne hu).trans (Kernel.setThread_of_ne k _ hu)
  have hsub : Sub set1 set := by
    rw [hset]
    split
    · exact sub_and_not set bits
    · exact .refl set
  have hgone : t ∉ k'.tlist hd := fun ht => ((hmem t).mp (h.stay t ht).1).1 rfl
  refine ⟨h.wf, h.sub.trans hsub, fun u hu => ?_, fun u hu hl => ?_, fun i hi hi' => ?_⟩
  · obtain ⟨hu2, hth⟩ := h.stay u hu
    obtain ⟨hut, hu1⟩ := (hmem u).mp hu2
    exact ⟨hu1, hth.trans (hthread u hut)⟩
  · rcases List.mem_cons.mp hl with rfl | hl
    · exact absurd hu hgone
    · rw [← hthread u fun hut => hnot (hut ▸ hl)]
      exact h.unsatisfied u hu hl
  · cases hbit : set1.getLsbD i with
    | true =>
      obtain ⟨u, hu, hout, set2, hsub2, hclears⟩ := h.cleared i hbit hi'
      rw [hthread u fun hut => hnot (hut ▸ hu)] at hclears
      exact ⟨u, .tail _ hu, hout, set2, hsub2.trans hsub, hclears⟩
    | false =>
      -- the bit goes with this waiter
      rw [hset] at hbit
      split at hbit
      next hclear =>
        have hbit' : bits.getLsbD i = true := by
          have hlt := BitVec.lt_of_getLsbD hi
          simpa [hi, hlt] using hbit
        exact ⟨t, .head _, hgone, set, .refl set, hclear, hbits i hbit', hi, hsat⟩
      · rw [hi] at hbit
        cases hbit

theorem sendLoop_walk (hw : hd.IsWait) {l : List Tid} {k : Kernel}
    (set : BitVec 32) (hwf : k.WF) (hnodup : l.Nodup) (hl : ∀ t ∈ l, t ∈ k.tlist hd) :
    Walk hd k set l (sendLoop k set l).1 (sendLoop k set l).2 := by
  induction l generalizing k set with
  | nil =>
    refine ⟨hwf, .refl set, fun t ht => ⟨ht, rfl⟩, fun t _ ht => absurd ht (by simp), ?_⟩
    intro i hi hi'
    cases hi.symm.trans hi'
  | cons t rest ih =>
    obtain ⟨hnot, hnodup⟩ := List.nodup_cons.mp hnodup
    have hrest : ∀ u ∈ rest, u ∈ k.tlist hd := fun u hu => hl u (.tail _ hu)
    rcases received_spec (k.thread t) set with ⟨hrec, hun⟩ | ⟨bits, hrec, hsat, hbits, -⟩
    · rw [sendLoop, hrec]
      exact (ih set hwf hnodup hrest).pass hun
    · rw [sendLoop, hrec]
      have hwf1 : (k.setThread t { k.thread t with eventSet := bits }).WF :=
        hwf.setThread_of_same rfl rfl rfl rfl
      have hstat : (k.thread t).stat = .suspend := hwf.stat_of_mem_wait hw (hl t (.head _))
      have hwk := hwf1.wakes_resume (t := t) (by simpa using hstat)
      refine (ih _ hwk.wf hnodup fun u hu => ?_).resume hwf hw hwk rfl hsat hbits hnot
      exact (hwk.mem hwf1 hw).mpr ⟨fun hut => hnot (hut ▸ hu), hrest u hu⟩

/-! ## Steps and runs -/

structure Inv (s : Sys) : Prop where
  wf : s.kernel.WF
  unsatisfied : ∀ t ∈ s.waiters, ¬ Satisfied (s.kernel.thread t) s.event.set

theorem Initial.inv (h : Initial s) : Inv s := ⟨h.wf, by simp [h.waiters]⟩

/-- The bits that are in the set at some point of a call before anything is cleared. -/
def bitsOf (s : Sys) : Event → BitVec 32
  | .send set => s.event.set ||| set
  | _ => s.event.set

/-- The receiver that took bit `i` out of the set in a step from `s` to `s'`. For a send this is
a thread that waited before and was resumed; the set it was examined with is part of the
bits that were there. -/
def Taken (s s' : Sys) (i : Nat) : Event → Prop
  | .send set => ∃ t ∈ s.waiters, t ∉ s'.waiters ∧
      ∃ set1, Sub set1 (s.event.set ||| set) ∧ Clears (s.kernel.thread t) set1 i
  | .recv t set option _ =>
    Clears { s.kernel.thread t with eventSet := set, eventInfo := option } s.event.set i
  | .recvReturn _ | .expire _ => False

/-- The two claims about one step. -/
def StepOk (s : Sys) (e : Event) (s' : Sys) : Prop :=
  Inv s' ∧ ∀ i, (bitsOf s e).getLsbD i = true → s'.event.set.getLsbD i = false → Taken s s' i e

/-- A step that leaves the set alone and lets no new thread wait. -/
theorem Inv.quiet {s' : Sys} {e : Event} (h : Inv s) (hwf : s'.kernel.WF)
    (hset : s'.event.set = bitsOf s e) (hsame : bitsOf s e = s.event.set)
    (hwait : ∀ t ∈ s'.waiters, t ∈ s.waiters ∧
      (s'.kernel.thread t).eventSet = (s.kernel.thread t).eventSet ∧
      (s'.kernel.thread t).eventInfo = (s.kernel.thread t).eventInfo) : StepOk s e s' := by
  refine ⟨⟨hwf, fun t ht hsat => ?_⟩, fun i hi hi' => ?_⟩
  · obtain ⟨hmem, hmask, hinfo⟩ := hwait t ht
    rw [hset, hsame] at hsat
    exact h.unsatisfied t hmem (hsat.congr hmask hinfo)
  · rw [hset, hi] at hi'
    cases hi'

theorem Inv.send {s' : Sys} (h : Inv s)
    (hs' : step s (.send set) = some s') : StepOk s (.send set) s' := by
  by_cases hzero : set = 0
  · subst hzero
    simp only [step, rtEventSend, if_true, Option.some.injEq] at hs'
    subst hs'
    exact h.quiet h.wf (by simp [bitsOf]) (by simp [bitsOf]) fun t ht => ⟨ht, rfl, rfl⟩
  · simp only [step, rtEventSend, if_neg hzero, Option.some.injEq] at hs'
    have hw : s.event.parent.suspendThread.IsWait := trivial
    have hwalk := sendLoop_walk hw (s.event.set ||| set) h.wf (h.wf.exclusive.nodup _)
      fun t ht => ht
    subst hs'
    refine ⟨⟨hwalk.wf, fun t ht => ?_⟩, hwalk.cleared⟩
    obtain ⟨hmem, hth⟩ := hwalk.stay t ht
    exact hth ▸ hwalk.unsatisfied t ht hmem

/-- The four ways through `rt_event_recv`. -/
theorem rtEventRecv_cases {k1 : Kernel} {r : Kernel × RtEvent × Option Recv}
    (hk1 : k1 = k.setError t .eok) (hr : rtEventRecv k event t set option timeout = some r) :
    (∃ ret, r = (k, event, some ret)) ∨
    (∃ ret, recvStatus event set option = some true ∧
      r = (k1, { event with
        set := if option &&& flagClear ≠ 0 then event.set &&& ~~~set else event.set },
        some ret)) ∨
    (∃ ret, r = (k1.setError t .etimeout, event, some ret)) ∨
    (∃ k', recvStatus event set option = some false ∧ timeout ≠ 0 ∧
      ((k1.setThread t { k1.thread t with eventSet := set, eventInfo := option }).rtIpcListSuspend
        event.parent.suspendThread t event.parent.flag).startThreadTimer t timeout = some k' ∧
      r = (k', event, none)) := by
  subst hk1
  unfold rtEventRecv at hr
  split at hr
  · exact .inl ⟨_, (Option.some.inj hr).symm⟩
  · obtain ⟨status, hstatus, hr⟩ := Option.bind_eq_some_iff.mp hr
    split at hr
    next htrue => exact .inr (.inl ⟨_, htrue ▸ hstatus, (Option.some.inj hr).symm⟩)
    next hfalse =>
      split at hr
      · exact .inr (.inr (.inl ⟨_, (Option.some.inj hr).symm⟩))
      next htime =>
        obtain ⟨k', hk', hr⟩ := Option.bind_eq_some_iff.mp hr
        have hfalse : status = false := by simpa using hfalse
        exact .inr (.inr (.inr ⟨k', hfalse ▸ hstatus, htime, hk', (Option.some.inj hr).symm⟩))

/-- Setting the error number of a thread does not change what it waits for. -/
theorem setError_event (k : Kernel) (t u : Tid) (err : Err) :
    ((k.setError t err).thread u).eventSet = (k.thread u).eventSet ∧
      ((k.setError t err).thread u).eventInfo =
        (k.thread u).eventInfo := by
  by_cases hut : u = t
  · subst hut
    simp
  · simp [Kernel.setThread_of_ne k _ hut]

/-- A receive that is satisfied at once. -/
theorem Inv.recv_satisfied
    {ret : Recv} (h : Inv s) (hstatus : recvStatus s.event set option = some true) :
    StepOk s (.recv t set option timeout) (s.afterRecv t
      (s.kernel.setError t .eok,
        { s.event with
          set := if option &&& flagClear ≠ 0 then s.event.set &&& ~~~set else s.event.set },
        some ret)) := by
  have hsat := (recvStatus_spec (s.kernel.thread t) hstatus).mp rfl
  have hsub : Sub (if option &&& flagClear ≠ 0 then s.event.set &&& ~~~set else s.event.set)
      s.event.set := by
    split
    · exact sub_and_not _ _
    · exact .refl _
  refine ⟨⟨h.wf.setError t .eok, fun u hu hsat' => ?_⟩, fun i hi hi' => ?_⟩
  · obtain ⟨hmask, hinfo⟩ := setError_event s.kernel t u .eok
    exact h.unsatisfied u hu ((hsat'.congr hmask hinfo).mono hsub)
  · simp only [Sys.afterRecv] at hi'
    split at hi'
    next hclear =>
      have hi : s.event.set.getLsbD i = true := hi
      have hbit : set.getLsbD i = true := by
        have hlt := BitVec.lt_of_getLsbD hi
        simpa [hi, hlt] using hi'
      exact ⟨hclear, hbit, hi, hsat⟩
    · cases hi.symm.trans hi'

/-- A receive that has to wait is not satisfied. -/
theorem Inv.recv_blocks
    {k1 k' : Kernel} (h : Inv s) (hstat : (s.kernel.thread t).stat = .ready)
    (hk1 : k1 = s.kernel.setError t .eok) (hstatus : recvStatus s.event set option = some false)
    (hk' : ((k1.setThread t
        { k1.thread t with eventSet := set, eventInfo := option }).rtIpcListSuspend
      s.event.parent.suspendThread t s.event.parent.flag).startThreadTimer t timeout = some k') :
    StepOk s (.recv t set option timeout) (s.afterRecv t (k', s.event, none)) := by
  have hwf1 : k1.WF := hk1 ▸ h.wf.setError t .eok
  have hstat1 : (k1.thread t).stat = .ready := by
    rw [hk1]
    simpa using hstat
  have hwf2 : (k1.setThread t { k1.thread t with eventSet := set, eventInfo := option }).WF :=
    hwf1.setThread_of_same rfl rfl rfl rfl
  have hw : s.event.parent.suspendThread.IsWait := trivial
  have hsus := hwf2.block (by simpa using hstat1) hw hk'
  refine ⟨⟨hsus.wf, fun u hu hsat => ?_⟩, fun i hi hi' => ?_⟩
  · by_cases hut : u = t
    · subst hut
      have hth : (k'.thread u).eventSet = set ∧ (k'.thread u).eventInfo = option := by
        simp [hsus.thread_same]
      cases (recvStatus_spec (k1.thread u) hstatus).mpr (hsat.congr hth.1 hth.2)
    · have hmem : u ∈ s.waiters := by
        have hmem := (hsus.mem.mp hu).resolve_left hut
        rwa [Kernel.setThread_tlist, hk1] at hmem
      have hth : (s.afterRecv t (k', s.event, none)).kernel.thread u = s.kernel.thread u := by
        simp only [Sys.afterRecv, hsus.thread_of_ne hut, Kernel.setThread_of_ne _ _ hut, hk1]
      rw [hth] at hsat
      exact h.unsatisfied u hmem hsat
  · cases hi.symm.trans hi'

theorem Inv.recv {s' : Sys} (h : Inv s) (hs' : step s (.recv t set option timeout) = some s') :
    StepOk s (.recv t set option timeout) s' := by
  obtain ⟨hif, hs'⟩ := Option.ite_none_right_eq_some.mp hs'
  obtain ⟨r, hr, rfl⟩ := Option.map_eq_some_iff.mp hs'
  rcases rtEventRecv_cases rfl hr with ⟨ret, rfl⟩ | ⟨ret, hstatus, rfl⟩ | ⟨ret, rfl⟩ |
    ⟨k', hstatus, -, hk', rfl⟩
  · exact h.quiet h.wf rfl rfl fun u hu => ⟨hu, rfl, rfl⟩
  · exact h.recv_satisfied hstatus
  · refine h.quiet ((h.wf.setError t .eok).setError t .etimeout) rfl rfl fun u hu => ⟨hu, ?_⟩
    obtain ⟨hmask, hinfo⟩ := setError_event s.kernel t u .eok
    obtain ⟨hmask', hinfo'⟩ := setError_event
      (s.kernel.setError t .eok) t u .etimeout
    exact ⟨hmask'.trans hmask, hinfo'.trans hinfo⟩
  · exact h.recv_blocks hif.1 rfl hstatus hk'

theorem step_ok {s' : Sys} {e : Event} (h : Inv s) (hs' : step s e = some s') : StepOk s e s' := by
  cases e with
  | send set => exact h.send hs'
  | recv t set option timeout => exact h.recv hs'
  | recvReturn t =>
    obtain ⟨-, ⟨⟩⟩ := Option.ite_none_right_eq_some.mp hs'
    exact h.quiet h.wf rfl rfl fun u hu => ⟨hu, rfl, rfl⟩
  | expire t =>
    obtain ⟨k', hk', rfl⟩ := Option.map_eq_some_iff.mp hs'
    have hwk := h.wf.wakes_expire hk'
    have hw : s.event.parent.suspendThread.IsWait := trivial
    refine h.quiet hwk.wf rfl rfl fun u hu => ?_
    obtain ⟨hut, hmem⟩ := (hwk.mem h.wf hw).mp hu
    refine ⟨hmem, ?_⟩
    rw [hwk.thread_of_ne hut]
    exact ⟨rfl, rfl⟩

/-- In every run no thread waits for a condition that is true, and whatever call comes next, a bit
leaves the set only through a satisfied receiver with the clear option and the bit in its
mask. -/
theorem no_satisfied_waiter {s0 s : Sys} {es : List Event} (hinit : Initial s0)
    (hrun : run step s0 es = some s) :
    (∀ t ∈ s.waiters, ¬ Satisfied (s.kernel.thread t) s.event.set) ∧
    ∀ e s', step s e = some s' → ∀ i, (bitsOf s e).getLsbD i = true →
      s'.event.set.getLsbD i = false → Taken s s' i e := by
  have hinv : Inv s := run_invariant (fun _ _ _ h hs' => (step_ok h hs').1) hinit.inv hrun
  exact ⟨hinv.unsatisfied, fun e s' hs' => (step_ok hinv hs').2⟩

/-- An event object and two ready threads. -/
def twoReceivers : Sys where
  kernel := Kernel.bootThreads (fun _ => 10) [0, 1]
  event := rtEventInit 0 .fifo
  inRecv := fun _ => false
  returned := []

/-- Thread 0 waits for both bits of `0b11` and clears them, thread 1 waits for bit 2; bit 0 has
been sent. -/
def halfSent : List Event :=
  [.recv 0 0b11 (flagAnd ||| flagClear) (-1), .recv 1 0b100 flagOr 50, .send 0b01]

/-- Thread 0 still waits, and when bit 1 comes it takes bit 0 with it. -/
theorem no_satisfied_waiter_halfSent :
    ∃ s s', run step twoReceivers halfSent = some s ∧ s.waiters = [0, 1] ∧
      ¬ Satisfied (s.kernel.thread 0) s.event.set ∧
      step s (.send 0b10) = some s' ∧ Taken s s' 0 (.send 0b10) := by
  have hrun : run step twoReceivers halfSent = some _ := run_endState (by decide)
  have hlist : (endState step twoReceivers halfSent).waiters = [0, 1] := by
    decide +kernel
  obtain ⟨hwait, htaken⟩ :=
    no_satisfied_waiter ⟨Kernel.bootThreads_wf (fun _ => 10) [0, 1], rfl⟩ hrun
  exact ⟨_, _, hrun, hlist, hwait 0 (by simp [hlist]), rfl,
    htaken (.send 0b10) _ rfl 0 (by decide +kernel) (by decide +kernel)⟩

/-! ## A send before and after a receive -/

/-- Clearing the bits that a receiver got is clearing its mask. -/
theorem and_not_received (a b : BitVec 32) : a &&& ~~~(a &&& b) = a &&& ~~~b := by
  apply BitVec.eq_of_getLsbD_eq
  intro i hi
  cases ha : a[i] <;> simp [ha, hi]

/-- A waiter whose condition is true receives what a call of `rt_event_recv` would return at once. -/
theorem received_of_status
    (hmask : th.eventSet = set) (hinfo : th.eventInfo = option)
    (h : recvStatus event set option = some true) :
    received th event.set = some { th with eventSet := event.set &&& set } := by
  subst hmask hinfo
  unfold recvStatus at h
  unfold received
  split at h
  next hand =>
    have hall : event.set &&& th.eventSet = th.eventSet := by simpa using h
    have hall' : th.eventSet &&& event.set = th.eventSet := (BitVec.and_comm ..).trans hall
    rw [if_pos hand, if_pos hall', hall]
  next hand =>
    obtain ⟨hor, h⟩ := Option.ite_none_right_eq_some.mp h
    have hsome : th.eventSet &&& event.set ≠ 0 := by
      rw [BitVec.and_comm]
      simpa using h
    rw [if_neg hand, if_pos hor, if_pos hsome, BitVec.and_comm]

/-- A receive whose condition is false waits with its mask and option, alone in the list. -/
theorem rtEventRecv_waits
    (hwf : k.WF) (hwait : k.tlist event.parent.suspendThread = [])
    (hready : (k.thread t).stat = .ready) (hset : set ≠ 0)
    (hstatus : recvStatus event set option = some false) (htimeout : timeout ≠ 0)
    (hmax : timeout < (rtTickMax / 2 : Nat)) :
    ∃ k', rtEventRecv k event t set option timeout = some (k', event, none) ∧ k'.WF ∧
      k'.tlist event.parent.suspendThread = [t] ∧
      k'.thread t = { k.thread t with
        stat := .suspend, error := .eok, eventSet := set, eventInfo := option } := by
  have hw : event.parent.suspendThread.IsWait := trivial
  obtain ⟨asked, hasked⟩ : ∃ m, m = (k.setError t .eok).setThread t
      { (k.setError t .eok).thread t with
        eventSet := set, eventInfo := option } := ⟨_, rfl⟩
  have hself : asked.thread t =
      { k.thread t with error := .eok, eventSet := set, eventInfo := option } := by
    simp [hasked]
  have hwf' : asked.WF := hasked ▸ (hwf.setError t .eok).setThread_of_same rfl rfl rfl rfl
  have hnone : asked.tlist event.parent.suspendThread = [] := hasked ▸ hwait
  obtain ⟨k', hk'⟩ := (asked.rtIpcListSuspend event.parent.suspendThread t
    event.parent.flag).exists_startThreadTimer t hmax
  have hsus := hwf'.block (by rw [hself]; exact hready) hw hk'
  refine ⟨k', ?_, hsus.wf, ?_, by rw [hsus.thread_same, hself]⟩
  · simp only [rtEventRecv, if_neg hset, hstatus, if_neg htimeout, ← hasked, hk']
    rfl
  · rw [hsus.list, hnone]
    cases event.parent.flag <;> rfl

/-- A send wakes a receiver that waits alone with the result that the receive has when it comes after
the send: the same bits, the same error number, and the same set is left. -/
theorem send_recv_commute (s : Sys) (t : Tid) (set m : BitVec 32) (option : BitVec 8) (timeout : Int)
    (hwf : s.kernel.WF) (hwait : s.waiters = []) (hready : (s.kernel.thread t).stat = .ready)
    (hfree : s.inRecv t = false) (hset : set ≠ 0) (hm : m ≠ 0)
    (hbefore : recvStatus s.event set option = some false)
    (hafter : recvStatus { s.event with set := s.event.set ||| m } set option = some true)
    (htimeout : timeout ≠ 0) (hmax : timeout < (rtTickMax / 2 : Nat)) :
    ∃ blocked woken atOnce ret, step s (.recv t set option timeout) = some blocked ∧
      blocked.waiters = [t] ∧ blocked.returned = s.returned ∧
      run step blocked [.send m, .recvReturn t] = some woken ∧
      run step s [.send m, .recv t set option timeout] = some atOnce ∧
      woken.returned = s.returned ++ [ret] ∧ atOnce.returned = s.returned ++ [ret] ∧
      ret.result = .eok ∧ ret.recved.isSome = true ∧ woken.event = atOnce.event := by
  obtain ⟨k, hblock, hwf', hlist, hthread⟩ :=
    rtEventRecv_waits hwf hwait hready hset hbefore htimeout hmax
  obtain ⟨given, hgiven⟩ : ∃ g, g = k.setThread t
      { k.thread t with eventSet := (s.event.set ||| m) &&& set } := ⟨_, rfl⟩
  obtain ⟨left, hleft⟩ : ∃ e : RtEvent, e = { s.event with
      set := if option &&& flagClear ≠ 0 then (s.event.set ||| m) &&& ~~~set
        else s.event.set ||| m } := ⟨_, rfl⟩
  -- the blocked receiver is woken with the bits that are there after the send
  have hsend : rtEventSend k s.event m = ((given.rtThreadResume t).1, left, .eok) := by
    have hinfo : (k.thread t).eventInfo = option := by rw [hthread]
    have hreceived := received_of_status (by rw [hthread]) hinfo hafter
    simp only [rtEventSend, if_neg hm, hlist, sendLoop, hreceived, hinfo, and_not_received, hgiven, hleft]
  have hself : given.thread t = { s.kernel.thread t with
      stat := .suspend, error := .eok, eventSet := (s.event.set ||| m) &&& set,
      eventInfo := option } := by
    rw [hgiven, Kernel.setThread_same, hthread]
  have hwakes := (show given.WF from hgiven ▸ hwf'.setThread_of_same rfl rfl rfl rfl).wakes_resume
    (t := t) (by rw [hself])
  have hwoken := hwakes.thread_same
  rw [hself] at hwoken
  have hret : rtEventRecvReturn (given.rtThreadResume t).1 t =
      ⟨.eok, some ((s.event.set ||| m) &&& set)⟩ := by
    simp [rtEventRecvReturn, hwoken]
  -- nobody waits when the send comes first
  have hnone : s.kernel.tlist s.event.parent.suspendThread = [] := hwait
  have hsend' : rtEventSend s.kernel s.event m =
      (s.kernel, { s.event with set := s.event.set ||| m }, .eok) := by
    simp only [rtEventSend, if_neg hm, hnone, sendLoop]
  have hrecv : rtEventRecv s.kernel { s.event with set := s.event.set ||| m } t set option timeout =
      some (s.kernel.setError t .eok, left,
        some ⟨.eok, some ((s.event.set ||| m) &&& set)⟩) := by
    simp only [rtEventRecv, if_neg hset, hafter, hleft]
    simp
  have hrun : run step (s.afterRecv t (k, s.event, none)) [.send m, .recvReturn t] = some
      { kernel := (given.rtThreadResume t).1
        event := left
        inRecv := update (update s.inRecv t true) t false
        returned := s.returned ++ [⟨.eok, some ((s.event.set ||| m) &&& set)⟩] } := by
    simp [run_cons, step, Sys.afterRecv, hsend, hwoken, hret]
  have hrun' : run step s [.send m, .recv t set option timeout] = some
      { s with
        kernel := s.kernel.setError t .eok
        event := left
        returned := s.returned ++ [⟨.eok, some ((s.event.set ||| m) &&& set)⟩] } := by
    simp [run_cons, step, Sys.afterRecv, hsend', hrecv, hready, hfree]
  refine ⟨s.afterRecv t (k, s.event, none), _, _, ⟨.eok, some ((s.event.set ||| m) &&& set)⟩,
    ?_, hlist, rfl, hrun, hrun', rfl, rfl, rfl, rfl, rfl⟩
  simp only [step, hready, hfree, and_self, if_true, hblock, Option.map_some]

/-- Thread 0 asks for two bits of which one is there, and clears them. -/
def oneSent : Sys where
  kernel := Kernel.bootThreads (fun _ => 10) [0, 1]
  event := { rtEventInit 0 .prio with set := 0b1001 }
  inRecv := fun _ => false
  returned := []

theorem send_recv_commute_oneSent :
    ∃ blocked woken atOnce ret,
      step oneSent (.recv 0 0b0011 (flagAnd ||| flagClear) 20) = some blocked ∧
      blocked.waiters = [0] ∧ blocked.returned = [] ∧
      run step blocked [.send 0b0110, .recvReturn 0] = some woken ∧
      run step oneSent [.send 0b0110, .recv 0 0b0011 (flagAnd ||| flagClear) 20] = some atOnce ∧
      woken.returned = [ret] ∧ atOnce.returned = [ret] ∧ ret.result = .eok ∧
      ret.recved.isSome = true ∧ woken.event = atOnce.event :=
  send_recv_commute oneSent 0 0b0011 0b0110 (flagAnd ||| flagClear) 20
    (Kernel.bootThreads_wf (fun _ => 10) [0, 1]) rfl (by decide +kernel) rfl (by decide) (by decide)
    (by decide) (by decide) (by decide) (by decide)

end RtEvent

end RtThread
