-- SUMMARY: The data queue: its 16-bit indices and its order.
import ZigbeeGateway.Lib.Ring
import ZigbeeGateway.Lib.Run
import ZigbeeGateway.Kernel.Ipc

/-!
# Data queues of the device drivers

The model of `rt_data_queue_push` and `rt_data_queue_pop` in
`components/drivers/src/dataqueue.c`. The indices are free-running 16-bit counters, and a
mask picks the slot. A call is cut into its critical sections: a blocked call runs its loop
again when it is resumed. The history variables of `Sys` keep the items that were stored
and the ones that were handed out.

`InOrder` relates the indices to the items between them and to the histories. The test for a
full queue compares the difference of the promoted indices with the size, which is the number
of items only as long as `put_index` has not wrapped past `get_index`.
-/

namespace RtThread

open Run Function

/-- `struct rt_data_item`. -/
structure DataItem where
  dataPtr : Nat
  dataSize : Nat
  deriving DecidableEq, Repr

/-- The events that the queue reports through `evt_notify`. -/
inductive DataqueueEvent where
  | pop
  | push
  | lwm
  deriving DecidableEq, Repr

/-- `struct rt_data_queue`. The number `obj` stands for the address of the object, `evtNotify`
says that the callback is not `RT_NULL`. -/
structure Dataqueue where
  obj : Nat
  size : Nat
  lwm : Nat
  waitingLwm : Bool
  getIndex : Nat
  putIndex : Nat
  queue : Nat → DataItem
  evtNotify : Bool

namespace Dataqueue

/-- The list heads `suspended_push_list` and `suspended_pop_list`. -/
def suspendedPushList (q : Dataqueue) : ListHead := .suspendSenderThread q.obj

def suspendedPopList (q : Dataqueue) : ListHead := .suspendThread q.obj

/-- `rt_data_queue_init`, with the memory that `rt_malloc` returned. -/
def rtDataQueueInit (obj size lwm : Nat) (evtNotify : Bool) (queue : Nat → DataItem) :
    Dataqueue where
  obj := obj
  size := size
  lwm := lwm
  waitingLwm := false
  getIndex := 0
  putIndex := 0
  queue := queue
  evtNotify := evtNotify

/-- The slot of an index; `mask` is an `rt_uint16_t`. -/
def slot (q : Dataqueue) (index : Nat) : Nat := index &&& ((q.size + 65535) % 65536)

/-- How a call ends: its return value, the item it hands out, the event it reports, and whether
the interrupts are enabled again. -/
structure Exit where
  result : Err
  item : Option DataItem
  notify : Option DataqueueEvent
  enabled : Bool
  deriving DecidableEq, Repr

/-- The critical section of `rt_data_queue_push`, which is run again after every wake-up. The
result is `none` when the thread is suspended. -/
def rtDataQueuePush (k : Kernel) (q : Dataqueue) (t : Tid) (item : DataItem) (timeout : Int) :
    Option (Kernel × Dataqueue × Option Exit) :=
  -- the indices are promoted to int
  if (q.putIndex : Int) - q.getIndex = q.size then
    let q := { q with waitingLwm := true }
    if timeout = 0 then
      some (k, q, some ⟨.etimeout, none, none, true⟩)
    else do
      let k := k.setThread t { k.thread t with error := .eok }
      let (k, _) := k.rtThreadSuspend t
      let k := k.rtListInsertBefore q.suspendedPushList t
      let k ← k.startThreadTimer t timeout
      return (k, q, none)
  else
    let q := { q with
      queue := update q.queue (q.slot q.putIndex) item
      putIndex := (q.putIndex + 1) % 65536 }
    match k.tlist q.suspendedPopList with
    | thread :: _ =>
      let (k, _) := k.rtThreadResume thread
      some (k, q, some ⟨.eok, none, none, true⟩)
    | [] => some (k, q, some ⟨.eok, none, if q.evtNotify then some .push else none, true⟩)

/-- The critical section of `rt_data_queue_pop`. Below the low-water mark it leaves the
interrupts disabled when no thread waits to push. -/
def rtDataQueuePop (k : Kernel) (q : Dataqueue) (t : Tid) (timeout : Int) :
    Option (Kernel × Dataqueue × Option Exit) :=
  if q.getIndex = q.putIndex then
    if timeout = 0 then
      some (k, q, some ⟨.etimeout, none, none, true⟩)
    else do
      let k := k.setThread t { k.thread t with error := .eok }
      let (k, _) := k.rtThreadSuspend t
      let k := k.rtListInsertBefore q.suspendedPopList t
      let k ← k.startThreadTimer t timeout
      return (k, q, none)
  else
    let item := q.queue (q.slot q.getIndex)
    let q := { q with getIndex := (q.getIndex + 1) % 65536 }
    if q.waitingLwm ∧ (q.putIndex : Int) - q.getIndex ≤ q.lwm then
      let q := { q with waitingLwm := false }
      let notify := if q.evtNotify then some .lwm else none
      match k.tlist q.suspendedPushList with
      | thread :: _ =>
        let (k, _) := k.rtThreadResume thread
        some (k, q, some ⟨.eok, some item, notify, true⟩)
      | [] => some (k, q, some ⟨.eok, some item, notify, false⟩)
    else
      some (k, q, some ⟨.eok, some item, if q.evtNotify then some .pop else none, true⟩)

/-- `rt_data_queue_peak`; `none` stands for `-RT_EEMPTY`. -/
def rtDataQueuePeak (q : Dataqueue) : Option DataItem :=
  if q.getIndex = q.putIndex then none else some (q.queue (q.slot q.getIndex))

/-- A resumed call leaves with the error number of its thread, if that is not `RT_EOK`. -/
def exitOnError (k : Kernel) (t : Tid) : Option Exit :=
  if (k.thread t).error ≠ .eok then some ⟨(k.thread t).error, none, none, true⟩ else none

/-! ## Runs -/

/-- A call with its arguments. -/
inductive Call where
  | push (item : DataItem) (timeout : Int)
  | pop (timeout : Int)
  deriving DecidableEq, Repr

/-- The first critical section of a call, the next one of a blocked call, and the expiry of a
thread timer. -/
inductive Event where
  | call (t : Tid) (c : Call)
  | resume (t : Tid)
  | expire (t : Tid)
  deriving DecidableEq, Repr

structure Sys where
  kernel : Kernel
  queue : Dataqueue
  /-- The blocked call of each thread. -/
  blocked : Tid → Option Call
  /-- The items that were stored and the ones that were handed out, in order. -/
  pushed : List DataItem
  popped : List DataItem

/-- The critical section of a call. -/
def Call.section (c : Call) (k : Kernel) (q : Dataqueue) (t : Tid) :
    Option (Kernel × Dataqueue × Option Exit) :=
  match c with
  | .push item timeout => rtDataQueuePush k q t item timeout
  | .pop timeout => rtDataQueuePop k q t timeout

/-- The item that a finished call stored. -/
def Call.stored (c : Call) (exit : Exit) : List DataItem :=
  match c with
  | .push item _ => if exit.result = .eok then [item] else []
  | .pop _ => []

def Sys.after (s : Sys) (t : Tid) (c : Call) : Kernel × Dataqueue × Option Exit → Sys
  | (k, q, none) =>
    { s with kernel := k, queue := q, blocked := update s.blocked t (some c) }
  | (k, q, some exit) =>
    { s with
      kernel := k
      queue := q
      blocked := update s.blocked t none
      pushed := s.pushed ++ c.stored exit
      popped := s.popped ++ exit.item.toList }

def step (s : Sys) : Event → Option Sys
  | .call t c =>
    if (s.kernel.thread t).stat = .ready ∧ s.blocked t = none then
      (c.section s.kernel s.queue t).map (s.after t c)
    else
      none
  | .resume t =>
    match s.blocked t with
    | some c =>
      if (s.kernel.thread t).stat = .ready then
        match exitOnError s.kernel t with
        | some exit => some (s.after t c (s.kernel, s.queue, some exit))
        | none => (c.section s.kernel s.queue t).map (s.after t c)
      else
        none
    | none => none
  | .expire t => (s.kernel.expire t).map fun k => { s with kernel := k }

theorem after_blocked (s : Sys) {t : Tid} (c : Call) (r : Kernel × Dataqueue × Option Exit) {u : Tid}
    (hu : u ≠ t) : (s.after t c r).blocked u = s.blocked u := by
  obtain ⟨k, q, _ | _⟩ := r <;> exact update_of_ne hu _ _

/-- A queue of `2 ^ j` slots that was just initialised, among threads in any state. -/
structure Initial (s : Sys) : Prop where
  queue : ∃ obj j lwm evtNotify items, j ≤ 15 ∧
    s.queue = rtDataQueueInit obj (2 ^ j) lwm evtNotify items
  blocked : ∀ t, s.blocked t = none
  pushed : s.pushed = []
  popped : s.popped = []

/-! ## What the critical sections do -/

/-- `put_index - get_index == size`, on the promoted indices. -/
def TestsFull (q : Dataqueue) : Prop := (q.putIndex : Int) - q.getIndex = q.size

/-- The queue with one more item, and the queue with one less. -/
def put (q : Dataqueue) (item : DataItem) : Dataqueue :=
  { q with
    queue := update q.queue (q.slot q.putIndex) item
    putIndex := (q.putIndex + 1) % 65536 }

def get (q : Dataqueue) : Dataqueue := { q with getIndex := (q.getIndex + 1) % 65536 }

def setWaitingLwm (q : Dataqueue) (b : Bool) : Dataqueue := { q with waitingLwm := b }

variable {k k' : Kernel} {q q' : Dataqueue} {t : Tid} {r : Option Exit}

/-- The next pop reaches the low-water mark while a push has asked for it. -/
def ReachesLwm (q : Dataqueue) : Prop :=
  q.waitingLwm ∧ (q.putIndex : Int) - q.get.getIndex ≤ q.lwm

/-- The thread is suspended on the list `hd`. -/
def Suspends (k k' : Kernel) (t : Tid) (timeout : Int) (hd : ListHead) : Prop :=
  (((k.setThread t { k.thread t with error := .eok }).rtThreadSuspend t).1.rtListInsertBefore
    hd t).startThreadTimer t timeout = some k'

/-- What the section of a push does. -/
inductive Pushes (k : Kernel) (q : Dataqueue) (t : Tid) (item : DataItem) (timeout : Int) :
    Kernel → Dataqueue → Option Exit → Prop
  | full (hfull : q.TestsFull) :
    Pushes k q t item timeout k (q.setWaitingLwm true) (some ⟨.etimeout, none, none, true⟩)
  | waits {k' : Kernel} (hfull : q.TestsFull) (hk : Suspends k k' t timeout q.suspendedPushList) :
    Pushes k q t item timeout k' (q.setWaitingLwm true) none
  | resumes {u : Tid} {rest : List Tid} (hroom : ¬ q.TestsFull) (hlist : k.tlist q.suspendedPopList = u :: rest) :
    Pushes k q t item timeout (k.rtThreadResume u).1 (q.put item) (some ⟨.eok, none, none, true⟩)
  | stores (hroom : ¬ q.TestsFull) (hlist : k.tlist q.suspendedPopList = []) :
    Pushes k q t item timeout k (q.put item)
      (some ⟨.eok, none, if q.evtNotify then some .push else none, true⟩)

/-- What the section of a pop does. -/
inductive Pops (k : Kernel) (q : Dataqueue) (t : Tid) (timeout : Int) :
    Kernel → Dataqueue → Option Exit → Prop
  | empty (hempty : q.getIndex = q.putIndex) : Pops k q t timeout k q (some ⟨.etimeout, none, none, true⟩)
  | waits {k' : Kernel} (hempty : q.getIndex = q.putIndex) (hk : Suspends k k' t timeout q.suspendedPopList) :
    Pops k q t timeout k' q none
  | takes {notify : Option DataqueueEvent} (hitem : q.getIndex ≠ q.putIndex) (hlwm : ¬ q.ReachesLwm) :
    Pops k q t timeout k q.get (some ⟨.eok, some (q.queue (q.slot q.getIndex)), notify, true⟩)
  | resumes {u : Tid} {rest : List Tid} {notify : Option DataqueueEvent} (hitem : q.getIndex ≠ q.putIndex)
      (hlwm : q.ReachesLwm) (hlist : k.tlist q.suspendedPushList = u :: rest) :
    Pops k q t timeout (k.rtThreadResume u).1 (q.get.setWaitingLwm false)
      (some ⟨.eok, some (q.queue (q.slot q.getIndex)), notify, true⟩)
  | stale {notify : Option DataqueueEvent} (hitem : q.getIndex ≠ q.putIndex) (hlwm : q.ReachesLwm)
      (hlist : k.tlist q.suspendedPushList = []) :
    Pops k q t timeout k (q.get.setWaitingLwm false)
      (some ⟨.eok, some (q.queue (q.slot q.getIndex)), notify, false⟩)

theorem rtDataQueuePush_cases {item : DataItem} {timeout : Int}
    (h : rtDataQueuePush k q t item timeout = some (k', q', r)) : Pushes k q t item timeout k' q' r := by
  unfold rtDataQueuePush at h
  split at h
  next hfull =>
    split at h
    next =>
      cases h
      exact .full hfull
    next =>
      obtain ⟨k1, hk1, ⟨⟩⟩ := Option.bind_eq_some_iff.mp h
      exact .waits hfull hk1
  next hroom =>
    dsimp only at h
    split at h
    next u rest hlist =>
      cases h
      exact .resumes hroom hlist
    next hlist =>
      cases h
      exact .stores hroom hlist

theorem rtDataQueuePop_cases {timeout : Int}
    (h : rtDataQueuePop k q t timeout = some (k', q', r)) : Pops k q t timeout k' q' r := by
  unfold rtDataQueuePop at h
  split at h
  next hempty =>
    split at h
    next =>
      cases h
      exact .empty hempty
    next =>
      obtain ⟨k1, hk1, ⟨⟩⟩ := Option.bind_eq_some_iff.mp h
      exact .waits hempty hk1
  next hitem =>
    dsimp only at h
    split at h
    next hlwm =>
      split at h
      next u rest hlist =>
        cases h
        exact .resumes hitem hlwm hlist
      next hlist =>
        cases h
        exact .stale hitem hlwm hlist
    next hlwm =>
      cases h
      exact .takes hitem hlwm

/-! ## The items between the indices -/

/-- The number of items that were stored and not handed out, and these items. -/
def unreadCount (q : Dataqueue) : Nat := (q.putIndex + 65536 - q.getIndex) % 65536

def unread (q : Dataqueue) : List DataItem :=
  Ring.contents q.queue q.size q.getIndex q.unreadCount

/-- The items that were stored are the ones that were handed out, and after them the ones in
the queue. -/
structure InOrder (q : Dataqueue) (pushed popped : List DataItem) : Prop where
  size : ∃ j ≤ 15, q.size = 2 ^ j
  get_lt : q.getIndex < 65536
  put_lt : q.putIndex < 65536
  le : q.unreadCount ≤ q.size
  order : pushed = popped ++ q.unread

variable {pushed popped : List DataItem} {item : DataItem}

namespace InOrder

variable (h : InOrder q pushed popped)

include h

theorem size_dvd : q.size ∣ 65536 := by
  obtain ⟨j, hj, hsize⟩ := h.size
  rw [hsize]
  exact pow_dvd_pow 2 (by omega : j ≤ 16)

theorem slot_eq (i : Nat) : q.slot i = i % q.size := by
  obtain ⟨j, hj, hsize⟩ := h.size
  have hle : 2 ^ j ≤ 2 ^ 15 := Nat.pow_le_pow_right (by omega) hj
  have hpos : 0 < 2 ^ j := Nat.two_pow_pos j
  have hmask : (2 ^ j + 65535) % 65536 = 2 ^ j - 1 := by omega
  rw [slot, hsize, hmask, Nat.and_two_pow_sub_one_eq_mod]

/-- A 16-bit index and its value before it was reduced have the same slot. -/
theorem modEq (i : Nat) : i % 65536 ≡ i [MOD q.size] :=
  (Nat.mod_modEq i 65536).of_dvd h.size_dvd

theorem put_slot : q.slot q.putIndex = (q.getIndex + q.unreadCount) % q.size := by
  have hget := h.get_lt
  have hput := h.put_lt
  have hindex : (q.getIndex + q.unreadCount) % 65536 = q.putIndex := by
    unfold unreadCount
    omega
  rw [h.slot_eq, ← hindex]
  exact h.modEq _

theorem setWaitingLwm (b : Bool) :
    InOrder (q.setWaitingLwm b) pushed popped where
  size := h.size
  get_lt := h.get_lt
  put_lt := h.put_lt
  le := h.le
  order := h.order

theorem put (item : DataItem) (hroom : q.unreadCount < q.size) :
    InOrder (q.put item) (pushed ++ [item]) popped := by
  have hget := h.get_lt
  obtain ⟨j, hj, hsize⟩ := h.size
  have hle : 2 ^ j ≤ 2 ^ 15 := Nat.pow_le_pow_right (by omega) hj
  have hcount : (q.put item).unreadCount = q.unreadCount + 1 := by
    simp only [Dataqueue.put, unreadCount] at hroom ⊢
    omega
  refine ⟨h.size, hget, Nat.mod_lt _ (by omega), hcount.trans_le hroom, ?_⟩
  rw [unread, hcount]
  simp only [Dataqueue.put]
  rw [h.put_slot, Ring.contents_push hroom, h.order, List.append_assoc, unread]

theorem get (hitem : q.getIndex ≠ q.putIndex) :
    InOrder q.get pushed (popped ++ [q.queue (q.slot q.getIndex)]) := by
  have hget := h.get_lt
  have hput := h.put_lt
  have hcount : q.unreadCount = q.get.unreadCount + 1 := by
    simp only [Dataqueue.get, unreadCount]
    omega
  refine ⟨h.size, Nat.mod_lt _ (by omega), hput, ?_, ?_⟩
  · have hle := h.le
    rw [hcount] at hle
    exact Nat.le_of_succ_le hle
  · have hnext : (q.getIndex + 1) % q.size ≡ (q.getIndex + 1) % 65536 [MOD q.size] :=
      (Nat.mod_modEq _ _).trans (h.modEq _).symm
    rw [h.order, unread, hcount, Ring.contents_pop, h.slot_eq, List.append_assoc,
      Ring.contents_congr hnext]
    rfl

/-- `rt_data_queue_peak` reads the oldest item. -/
theorem peak : q.rtDataQueuePeak = q.unread.head? := by
  have hget := h.get_lt
  have hput := h.put_lt
  unfold rtDataQueuePeak
  split
  next hempty =>
    have hcount : q.unreadCount = 0 := by
      unfold unreadCount
      omega
    rw [unread, hcount]
    rfl
  next hitem =>
    obtain ⟨n, hcount⟩ : ∃ n, q.unreadCount = n + 1 := by
      refine Nat.exists_eq_succ_of_ne_zero ?_
      unfold unreadCount
      omega
    rw [unread, hcount, Ring.contents_pop, List.head?_cons, h.slot_eq]

/-- As long as `put_index` has not wrapped past `get_index`, the test sees a full queue. -/
theorem room_of_not_testsFull (hfull : ¬ q.TestsFull)
    (hwrap : q.putIndex < q.getIndex → q.unreadCount ≠ q.size) : q.unreadCount < q.size := by
  have hput := h.put_lt
  refine Nat.lt_of_le_of_ne h.le fun heq => ?_
  by_cases hlt : q.putIndex < q.getIndex
  · exact hwrap hlt heq
  · apply hfull
    unfold TestsFull
    unfold unreadCount at heq
    omega

end InOrder

/-! ## What every step keeps -/

/-- The step runs the critical section of `rt_data_queue_push`. -/
def Sys.EntersPush (s : Sys) : Event → Prop
  | .call _ c => ∃ item timeout, c = .push item timeout
  | .resume t => (∃ item timeout, s.blocked t = some (.push item timeout)) ∧
      (s.kernel.thread t).error = .eok
  | .expire _ => False

/-- A push that meets a full queue meets it before `put_index` has wrapped past `get_index`. -/
def NotWrapped (s : Sys) (e : Event) : Prop :=
  s.EntersPush e → s.queue.putIndex < s.queue.getIndex → s.queue.unreadCount ≠ s.queue.size

def Sys.Ordered (s : Sys) : Prop := InOrder s.queue s.pushed s.popped

variable {s s' : Sys} {c : Call}

theorem Initial.ordered (h : Initial s) : s.Ordered := by
  obtain ⟨obj, j, lwm, evtNotify, items, hj, hq⟩ := h.queue
  have hcount : (rtDataQueueInit obj (2 ^ j) lwm evtNotify items).unreadCount = 0 := by
    simp [unreadCount, rtDataQueueInit]
  unfold Sys.Ordered
  rw [hq, h.pushed, h.popped]
  refine ⟨⟨j, hj, rfl⟩, by simp [rtDataQueueInit], by simp [rtDataQueueInit], ?_, ?_⟩
  · rw [hcount]
    exact Nat.zero_le _
  · rw [unread, hcount]
    rfl

/-- A call that hands out no item and stores none. -/
theorem Sys.Ordered.exit {exit : Exit} (h : InOrder q s.pushed s.popped)
    (hresult : exit.result ≠ .eok) (hitem : exit.item = none) :
    (s.after t c (k, q, some exit)).Ordered := by
  have hstored : c.stored exit = [] := by
    cases c with
    | push item timeout => exact if_neg hresult
    | pop timeout => rfl
  simp only [Sys.after, hstored, hitem, Option.toList_none, List.append_nil]
  exact h

theorem Sys.Ordered.push {item : DataItem} {timeout : Int} {r : Kernel × Dataqueue × Option Exit}
    (h : s.Ordered) (hwrap : s.queue.putIndex < s.queue.getIndex → s.queue.unreadCount ≠ s.queue.size)
    (hr : rtDataQueuePush s.kernel s.queue t item timeout = some r) :
    (s.after t (.push item timeout) r).Ordered := by
  obtain ⟨k', q', r⟩ := r
  have hput (hroom : ¬ s.queue.TestsFull) := h.put item (h.room_of_not_testsFull hroom hwrap)
  cases rtDataQueuePush_cases hr with
  | full => exact Sys.Ordered.exit (h.setWaitingLwm true) (by simp) rfl
  | waits => exact h.setWaitingLwm true
  | resumes hroom | stores hroom => simpa [Sys.Ordered, Sys.after, Call.stored] using hput hroom

theorem Sys.Ordered.pop {timeout : Int} {r : Kernel × Dataqueue × Option Exit} (h : s.Ordered)
    (hr : rtDataQueuePop s.kernel s.queue t timeout = some r) :
    (s.after t (.pop timeout) r).Ordered := by
  obtain ⟨k', q', r⟩ := r
  cases rtDataQueuePop_cases hr with
  | empty => simpa [Sys.Ordered, Sys.after, Call.stored] using h
  | waits => exact h
  | takes hitem => simpa [Sys.Ordered, Sys.after, Call.stored] using h.get hitem
  | resumes hitem | stale hitem =>
    simpa [Sys.Ordered, Sys.after, Call.stored] using (h.get hitem).setWaitingLwm false

/-- The step runs the section of the call `c` of thread `t`. -/
def Sys.Enters (s : Sys) (e : Event) (t : Tid) (c : Call) : Prop :=
  e = .call t c ∨ e = .resume t ∧ s.blocked t = some c ∧ (s.kernel.thread t).error = .eok

/-- What a step does: the section of a call, the exit of a resumed call with an error, or an expiry. -/
theorem step_cases {e : Event} (hstep : step s e = some s') :
    (∃ t c r, s.Enters e t c ∧ (s.kernel.thread t).stat = .ready ∧ c.section s.kernel s.queue t = some r ∧
      s' = s.after t c r) ∨
    (∃ t c exit, e = .resume t ∧ s.blocked t = some c ∧ exit.result ≠ .eok ∧ exit.item = none ∧
      s' = s.after t c (s.kernel, s.queue, some exit)) ∨
    ∃ t k, e = .expire t ∧ s.kernel.expire t = some k ∧ s' = { s with kernel := k } := by
  cases e with
  | call t c =>
    simp only [step, Option.ite_none_right_eq_some, Option.map_eq_some_iff] at hstep
    obtain ⟨⟨hready, -⟩, r, hr, rfl⟩ := hstep
    exact .inl ⟨t, c, r, .inl rfl, hready, hr, rfl⟩
  | resume t =>
    cases hc : s.blocked t with
    | none => simp [step, hc] at hstep
    | some c =>
      simp only [step, hc, Option.ite_none_right_eq_some] at hstep
      obtain ⟨hready, hstep⟩ := hstep
      by_cases herror : (s.kernel.thread t).error = .eok
      · simp only [exitOnError, herror, ne_eq, not_true_eq_false, if_false,
          Option.map_eq_some_iff] at hstep
        obtain ⟨r, hr, rfl⟩ := hstep
        exact .inl ⟨t, c, r, .inr ⟨rfl, hc, herror⟩, hready, hr, rfl⟩
      · simp only [exitOnError, ne_eq, herror, not_false_eq_true, if_true,
          Option.some.injEq] at hstep
        exact .inr (.inl ⟨t, c, _, rfl, hc, herror, rfl, hstep.symm⟩)
  | expire t =>
    obtain ⟨k, hk, rfl⟩ := Option.map_eq_some_iff.mp hstep
    exact .inr (.inr ⟨t, k, rfl, hk, rfl⟩)

theorem Sys.Enters.push {e : Event} (h : s.Enters e t c) (hc : ∃ item timeout, c = .push item timeout) :
    s.EntersPush e := by
  obtain ⟨item, timeout, rfl⟩ := hc
  rcases h with rfl | ⟨rfl, hblocked, herror⟩
  · exact ⟨item, timeout, rfl⟩
  · exact ⟨⟨item, timeout, hblocked⟩, herror⟩

theorem step_ordered {e : Event} (h : s.Ordered) (hwrap : NotWrapped s e)
    (hstep : step s e = some s') : s'.Ordered := by
  obtain ⟨t, c, r, henters, -, hr, rfl⟩ | ⟨t, c, exit, -, -, hresult, hitem, rfl⟩ | ⟨t, k, -, -, rfl⟩ :=
    step_cases hstep
  · cases c with
    | push item timeout => exact h.push (hwrap (henters.push ⟨item, timeout, rfl⟩)) hr
    | pop timeout => exact h.pop hr
  · exact Sys.Ordered.exit h hresult hitem
  · exact h

/-- In every run in which no push meets a full queue after `put_index` has wrapped past
`get_index`, the queue holds at most `size` items, and the items that were stored are the
ones that were handed out followed by the ones in the queue. -/
theorem dataqueue_in_order {es : List Event} (h : Initial s) (hwrap : Along step NotWrapped s es)
    (hrun : run step s es = some s') :
    s'.pushed = s'.popped ++ s'.queue.unread ∧ s'.queue.unreadCount ≤ s'.queue.size := by
  have hord : s'.Ordered :=
    run_invariant_along (fun s e s' => step_ordered) h.ordered hwrap hrun
  exact ⟨hord.order, hord.le⟩

/-! ## A queue of one slot -/

/-- A queue of one slot, which holds `item`. -/
def oneSlot (item : DataItem) (getIndex putIndex : Nat) : Dataqueue where
  obj := 0
  size := 1
  lwm := 0
  waitingLwm := false
  getIndex := getIndex
  putIndex := putIndex
  queue := update (fun _ => ⟨0, 0⟩) 0 item
  evtNotify := false

/-- One ready thread and the queue. -/
def oneThread (q : Dataqueue) (pushed popped : List DataItem) : Sys where
  kernel := Kernel.bootThreads (fun _ => 10) [0]
  queue := q
  blocked := fun _ => none
  pushed := pushed
  popped := popped

theorem oneThread_initial (item : DataItem) : Initial (oneThread (oneSlot item 0 0) [] []) :=
  ⟨⟨0, 0, 0, false, update (fun _ => ⟨0, 0⟩) 0 item, by decide, rfl⟩, fun _ => rfl, rfl, rfl⟩

variable {item item' : DataItem} {getIndex putIndex : Nat} {pushed popped : List DataItem}

theorem oneThread_ready : ((Kernel.bootThreads (fun _ => 10) [0]).thread 0).stat = .ready := by decide

theorem oneSlot_slot (item : DataItem) (getIndex putIndex i : Nat) : (oneSlot item getIndex putIndex).slot i = 0 := by
  have hsize : (oneSlot item getIndex putIndex).size = 1 := rfl
  have hmask : (1 + 65535) % 65536 = 0 := by decide
  rw [slot, hsize, hmask, Nat.and_zero]

theorem oneSlot_push (hroom : (putIndex : Int) - getIndex ≠ 1) :
    step (oneThread (oneSlot item getIndex putIndex) pushed popped) (.call 0 (.push item' 0)) =
      some (oneThread (oneSlot item' getIndex ((putIndex + 1) % 65536)) (pushed ++ [item']) popped) := by
  have hslot := oneSlot_slot item getIndex putIndex
  have hpop : (Kernel.bootThreads (fun _ => 10) [0]).tlist (.suspendThread 0) = [] := by decide
  simp only [oneSlot] at hslot
  simp [step, oneThread, oneSlot, Call.section, rtDataQueuePush, suspendedPopList, Sys.after, Call.stored, hroom,
    oneThread_ready, hpop, hslot]

theorem oneSlot_pop (hitem : getIndex ≠ putIndex) :
    step (oneThread (oneSlot item getIndex putIndex) pushed popped) (.call 0 (.pop 0)) =
      some (oneThread (oneSlot item ((getIndex + 1) % 65536) putIndex) pushed (popped ++ [item])) := by
  have hslot := oneSlot_slot item getIndex putIndex
  simp only [oneSlot] at hslot
  simp [step, oneThread, oneSlot, Call.section, rtDataQueuePop, Sys.after, Call.stored, hitem, oneThread_ready, hslot]

theorem notWrapped_of_le {e : Event} (h : s.queue.getIndex ≤ s.queue.putIndex) : NotWrapped s e :=
  fun _ hlt => absurd hlt (Nat.not_lt.mpr h)

/-- The second push meets a full queue, and the third one follows a pop. -/
theorem dataqueue_in_order_full :
    ∃ s, run step (oneThread (oneSlot ⟨0, 0⟩ 0 0) [] [])
        [.call 0 (.push ⟨1, 1⟩ 0), .call 0 (.push ⟨2, 2⟩ 0), .call 0 (.pop 0),
          .call 0 (.push ⟨3, 3⟩ 0)] = some s ∧ s.popped = [⟨1, 1⟩] ∧
      s.pushed = s.popped ++ s.queue.unread ∧ s.queue.unreadCount ≤ s.queue.size := by
  refine run_exists (Q := fun s => s.popped = [⟨1, 1⟩]) (by decide) fun s hrun hpop => ⟨hpop, ?_⟩
  have hcheck (s : Sys) (e : Event) (h : decide (s.queue.getIndex ≤ s.queue.putIndex) = true) : NotWrapped s e :=
    notWrapped_of_le (of_decide_eq_true h)
  exact dataqueue_in_order (oneThread_initial _) (along_of_check hcheck (by decide)) hrun

/-- An item is pushed and popped `n` times. -/
def rounds (item : DataItem) : Nat → List Event
  | 0 => []
  | n + 1 => rounds item n ++ [.call 0 (.push item 0), .call 0 (.pop 0)]

theorem run_rounds {n : Nat} (hn : n < 65536) :
    run step (oneThread (oneSlot item 0 0) [] []) (rounds item n) =
      some (oneThread (oneSlot item n n) (List.replicate n item) (List.replicate n item)) := by
  induction n with
  | zero => rfl
  | succ n ih =>
    have hindex : (n + 1) % 65536 = n + 1 := Nat.mod_eq_of_lt hn
    refine run_append.mpr ⟨_, ih (by omega), ?_⟩
    refine run_cons.mpr ⟨_, oneSlot_push (by omega), run_cons.mpr ⟨_, oneSlot_pop (by omega), ?_⟩⟩
    rw [hindex, List.replicate_succ', run_nil]

/-- When `put_index` wraps to 0, the full queue passes the test, and the second push overwrites
the item `(1, 1)` before it is read. -/
theorem unread_overwritten_wrapped :
    Initial (oneThread (oneSlot ⟨0, 0⟩ 0 0) [] []) ∧
      ∃ s, run step (oneThread (oneSlot ⟨0, 0⟩ 0 0) [] []) (rounds ⟨0, 0⟩ 65535 ++
          [.call 0 (.push ⟨1, 1⟩ 0), .call 0 (.push ⟨2, 2⟩ 0), .call 0 (.pop 0)]) = some s ∧
        s.pushed = List.replicate 65535 ⟨0, 0⟩ ++ [⟨1, 1⟩, ⟨2, 2⟩] ∧
        s.popped = List.replicate 65535 ⟨0, 0⟩ ++ [⟨2, 2⟩] ∧ ¬ s.popped <+: s.pushed := by
  refine ⟨oneThread_initial _, oneThread (oneSlot ⟨2, 2⟩ 0 1)
    (List.replicate 65535 ⟨0, 0⟩ ++ [⟨1, 1⟩] ++ [⟨2, 2⟩]) (List.replicate 65535 ⟨0, 0⟩ ++ [⟨2, 2⟩]),
    run_append.mpr ⟨_, run_rounds (by omega), ?_⟩, ?_, ?_, ?_⟩
  · exact run_cons.mpr ⟨_, oneSlot_push (by omega), run_cons.mpr ⟨_, oneSlot_push (by omega),
      run_cons.mpr ⟨_, oneSlot_pop (by omega), rfl⟩⟩⟩
  · exact List.append_assoc ..
  · rfl
  · simp only [oneThread, List.append_assoc, List.singleton_append]
    rw [List.prefix_append_right_inj]
    decide

end Dataqueue

end RtThread
