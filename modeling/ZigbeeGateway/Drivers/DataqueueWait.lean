-- SUMMARY: Data queues and their suspended pushers.
import ZigbeeGateway.Drivers.Dataqueue

/-!
# Suspended pushers of a data queue

A pop resumes a pusher only when it reaches the low-water mark while `waiting_lwm` is set. It
resumes the first one and clears the flag for all of them.

`Covered` is the invariant: while a thread is suspended on `suspended_push_list`,
the flag is set and the queue is not empty.
-/

namespace RtThread.Dataqueue

open Run

variable {k k' : Kernel} {q q' : Dataqueue} {t : Tid} {r : Option Exit} {item : DataItem} {timeout : Int}

theorem suspendedPushList_isWait (q : Dataqueue) : q.suspendedPushList.IsWait := trivial

theorem suspendedPopList_isWait (q : Dataqueue) : q.suspendedPopList.IsWait := trivial

/-! ## The invariant -/

/-- The threads that are suspended on `suspended_push_list`. -/
def Sys.pushers (s : Sys) : List Tid := s.kernel.tlist s.queue.suspendedPushList

/-- The step runs the critical section of `rt_data_queue_pop`. -/
def Sys.EntersPop (s : Sys) : Event → Prop
  | .call _ c => ∃ timeout, c = .pop timeout
  | .resume t => (∃ timeout, s.blocked t = some (.pop timeout)) ∧ (s.kernel.thread t).error = .eok
  | .expire _ => False

/-- A pop that reaches the low-water mark finds at most one suspended pusher. -/
def OnePusher (s : Sys) (e : Event) : Prop :=
  s.EntersPop e → s.queue.getIndex ≠ s.queue.putIndex → s.queue.ReachesLwm → s.pushers.length ≤ 1

/-- A push that stores an item while a pusher is suspended does not bring `put_index` around to
`get_index`. -/
def NotAround (s : Sys) (e : Event) : Prop :=
  s.EntersPush e → s.pushers ≠ [] → ¬ s.queue.TestsFull → s.queue.unreadCount ≠ 65535

/-- A fresh queue with at least one slot, among threads in any state: nobody waits for it yet. -/
structure Unused (s : Sys) : Prop where
  queue : ∃ obj size lwm evtNotify items, size ≠ 0 ∧ s.queue = rtDataQueueInit obj size lwm evtNotify items
  wf : s.kernel.WF
  pushers : s.pushers = []

/-- A queue with slots and 16-bit indices. -/
structure Indexed (q : Dataqueue) : Prop where
  size : q.size ≠ 0
  get_lt : q.getIndex < 65536
  put_lt : q.putIndex < 65536

structure Covered (s : Sys) : Prop where
  indexed : s.queue.Indexed
  wf : s.kernel.WF
  lwm : s.pushers ≠ [] → s.queue.waitingLwm = true ∧ s.queue.getIndex ≠ s.queue.putIndex

theorem Unused.covered {s : Sys} (h : Unused s) : Covered s := by
  obtain ⟨obj, size, lwm, evtNotify, items, hsize, hq⟩ := h.queue
  refine ⟨?_, h.wf, fun hne => absurd h.pushers hne⟩
  rw [hq]
  exact ⟨hsize, by simp [rtDataQueueInit], by simp [rtDataQueueInit]⟩

variable {s s' : Sys} {c : Call}

theorem Covered.of_section {r : Option Exit} (hindexed : q'.Indexed) (hwf : k'.WF)
    (hlwm : k'.tlist q'.suspendedPushList ≠ [] → q'.waitingLwm = true ∧ q'.getIndex ≠ q'.putIndex) :
    Covered (s.after t c (k', q', r)) := by
  -- a finished or blocked call leaves the kernel and the queue of its section
  obtain ⟨hkernel, hqueue⟩ : (s.after t c (k', q', r)).kernel = k' ∧
      (s.after t c (k', q', r)).queue = q' := by
    cases r <;> exact ⟨rfl, rfl⟩
  refine ⟨hqueue.symm ▸ hindexed, hkernel.symm ▸ hwf, ?_⟩
  rw [Sys.pushers, hkernel, hqueue]
  exact hlwm

namespace Indexed

variable (h : Indexed q)

include h

theorem setWaitingLwm (b : Bool) : Indexed (q.setWaitingLwm b) := ⟨h.size, h.get_lt, h.put_lt⟩

theorem put (item : DataItem) : Indexed (q.put item) := ⟨h.size, h.get_lt, Nat.mod_lt _ (by omega)⟩

theorem get : Indexed q.get := ⟨h.size, Nat.mod_lt _ (by omega), h.put_lt⟩

/-- A full queue is not empty. -/
theorem ne_of_testsFull (hfull : q.TestsFull) : q.getIndex ≠ q.putIndex := by
  have hsize := h.size
  unfold TestsFull at hfull
  omega

/-- A queue is not empty after a push that does not bring the index around. -/
theorem ne_of_put (hroom : q.unreadCount ≠ 65535) (item : DataItem) :
    (q.put item).getIndex ≠ (q.put item).putIndex := by
  have hget := h.get_lt
  simp only [Dataqueue.put, unreadCount] at hroom ⊢
  omega

end Indexed

theorem Covered.push (h : Covered s)
    (haround : s.pushers ≠ [] → ¬ s.queue.TestsFull → s.queue.unreadCount ≠ 65535)
    (hready : (s.kernel.thread t).stat = .ready)
    (hr : rtDataQueuePush s.kernel s.queue t item timeout = some (k', q', r)) :
    Covered (s.after t (.push item timeout) (k', q', r)) := by
  have hfull := h.indexed.setWaitingLwm true
  have hput := h.indexed.put item
  -- whoever is suspended after a push with room was suspended before
  have hroom {k1 : Kernel} (hroom : ¬ s.queue.TestsFull) (hres : s.kernel.Resumes k1 s.queue.suspendedPopList)
      (hne : k1.tlist s.queue.suspendedPushList ≠ []) : s.queue.waitingLwm = true ∧
        (s.queue.put item).getIndex ≠ (s.queue.put item).putIndex := by
    have hold : s.pushers ≠ [] := fun hnil => by
      have hsub := hres.subset (suspendedPushList_isWait s.queue)
      rw [show s.kernel.tlist s.queue.suspendedPushList = [] from hnil] at hsub
      exact hne (List.subset_nil.mp hsub)
    exact ⟨(h.lwm hold).1, h.indexed.ne_of_put (haround hold hroom) item⟩
  cases rtDataQueuePush_cases hr with
  | full hfull' => exact .of_section hfull h.wf fun _ => ⟨rfl, h.indexed.ne_of_testsFull hfull'⟩
  | waits hfull' hk =>
    exact .of_section hfull (h.wf.waits hready (suspendedPushList_isWait _) hk).wf
      fun _ => ⟨rfl, h.indexed.ne_of_testsFull hfull'⟩
  | resumes hnot hlist =>
    have hres := h.wf.resumes (suspendedPopList_isWait _) hlist
    exact .of_section hput (hres.wf h.wf) (hroom hnot hres)
  | stores hnot hlist => exact .of_section hput h.wf (hroom hnot (.inl ⟨hlist, rfl⟩))

theorem Covered.pop (h : Covered s)
    (hone : s.queue.getIndex ≠ s.queue.putIndex → s.queue.ReachesLwm → s.pushers.length ≤ 1)
    (hready : (s.kernel.thread t).stat = .ready)
    (hr : rtDataQueuePop s.kernel s.queue t timeout = some (k', q', r)) :
    Covered (s.after t (.pop timeout) (k', q', r)) := by
  have hget := h.indexed.get
  cases rtDataQueuePop_cases hr with
  | empty => exact .of_section h.indexed h.wf h.lwm
  | waits _ hk =>
    have hwaits := h.wf.waits hready (suspendedPopList_isWait _) hk
    refine .of_section h.indexed hwaits.wf fun hne => h.lwm ?_
    rwa [hwaits.other _ (suspendedPushList_isWait _) (by simp [suspendedPushList, suspendedPopList])] at hne
  | takes _ hnot =>
    refine .of_section hget h.wf fun hne => ?_
    have hold := h.lwm hne
    refine ⟨hold.1, fun hempty => hnot ⟨hold.1, ?_⟩⟩
    -- an empty queue is below every mark
    rw [show s.queue.get.getIndex = s.queue.putIndex from hempty]
    omega
  | resumes hitem hlwm hlist =>
    have hres := h.wf.resumes (suspendedPushList_isWait s.queue) hlist
    refine .of_section (hget.setWaitingLwm false) (hres.wf h.wf) fun hne => absurd ?_ hne
    have htail := hres.tail (suspendedPushList_isWait s.queue)
    have hlen : (s.kernel.tlist s.queue.suspendedPushList).length ≤ 1 := hone hitem hlwm
    refine htail.trans (List.length_eq_zero_iff.mp ?_)
    rw [List.length_tail]
    omega
  | stale _ _ hlist => exact .of_section (hget.setWaitingLwm false) h.wf fun hne => absurd hlist hne

theorem step_covered {e : Event} (h : Covered s) (haround : NotAround s e) (hone : OnePusher s e)
    (hstep : step s e = some s') : Covered s' := by
  obtain ⟨t, c, r, henters, hready, hr, rfl⟩ | ⟨t, c, exit, -, -, -, -, rfl⟩ | ⟨t, k', -, hk', rfl⟩ :=
    step_cases hstep
  · cases c with
    | push item timeout => exact h.push (haround (henters.push ⟨item, timeout, rfl⟩)) hready hr
    | pop timeout =>
      refine h.pop (hone ?_) hready hr
      rcases henters with rfl | ⟨rfl, hc, herror⟩
      · exact ⟨timeout, rfl⟩
      · exact ⟨⟨timeout, hc⟩, herror⟩
  · exact .of_section h.indexed h.wf h.lwm
  · have hwk := h.wf.wakes_expire hk'
    refine ⟨h.indexed, hwk.wf, fun hne => h.lwm fun hnil => hne ?_⟩
    change k'.tlist s.queue.suspendedPushList = []
    rw [hwk.wait _ (suspendedPushList_isWait _),
      show s.kernel.tlist s.queue.suspendedPushList = [] from hnil]
    rfl

/-- In every run on a queue of at least one slot in which a pop that reaches the low-water mark finds
at most one suspended pusher, and no push beside a suspended pusher brings `put_index` around to
`get_index`, an empty queue has no suspended pusher. -/
theorem empty_queue_no_pusher {es : List Event} (h : Unused s) (haround : Along step NotAround s es)
    (hone : Along step OnePusher s es) (hrun : run step s es = some s') :
    s'.queue.getIndex = s'.queue.putIndex → s'.pushers = [] := by
  have hcov : Covered s' := by
    refine run_invariant_along (P := fun s e => NotAround s e ∧ OnePusher s e) ?_ h.covered ?_ hrun
    · exact fun s e s' hs he => step_covered hs he.1 he.2
    · exact along_and haround hone
  intro hempty
  by_contra hne
  exact (hcov.lwm hne).2 hempty

/-! ## Two suspended pushers -/

/-- A fresh queue with the low-water mark 0, and three ready threads. -/
def threeThreads (size : Nat) : Sys where
  kernel := Kernel.bootThreads (fun _ => 10) [0, 1, 2]
  queue := rtDataQueueInit 0 size 0 false fun _ => ⟨0, 0⟩
  blocked := fun _ => none
  pushed := []
  popped := []

theorem threeThreads_unused {size : Nat} (hsize : size ≠ 0) : Unused (threeThreads size) where
  queue := ⟨0, size, 0, false, fun _ => ⟨0, 0⟩, hsize, rfl⟩
  wf := Kernel.bootThreads_wf _ _
  pushers := rfl

/-- A pusher is suspended on a queue of three slots, and the third pop resumes it. -/
theorem empty_queue_no_pusher_resumed :
    ∃ s, run step (threeThreads 3)
        [.call 0 (.push ⟨1, 1⟩ 0), .call 0 (.push ⟨1, 1⟩ 0), .call 0 (.push ⟨1, 1⟩ 0),
          .call 1 (.push ⟨2, 2⟩ (-1)), .call 0 (.pop 0), .call 0 (.pop 0), .call 0 (.pop 0)] = some s ∧
      s.queue.getIndex = s.queue.putIndex ∧ s.pushers = [] := by
  refine run_exists (Q := fun s => s.queue.getIndex = s.queue.putIndex) (by decide) fun s hrun hempty => ?_
  have haround (s : Sys) (e : Event) (h : (s.queue.unreadCount != 65535) = true) : NotAround s e :=
    fun _ _ _ => bne_iff_ne.mp h
  have hone (s : Sys) (e : Event) (h : decide (s.pushers.length ≤ 1) = true) : OnePusher s e :=
    fun _ _ _ => of_decide_eq_true h
  exact ⟨hempty, empty_queue_no_pusher (threeThreads_unused (by decide)) (along_of_check haround (by decide))
    (along_of_check hone (by decide)) hrun hempty⟩

/-- The thread of an event, which is the only one whose blocked call changes. -/
def Event.tid : Event → Tid
  | .call t _ | .resume t | .expire t => t

theorem step_blocked {e : Event} {u : Tid} (hu : e.tid ≠ u) (hstep : step s e = some s') :
    s'.blocked u = s.blocked u := by
  obtain ⟨t, c, r, henters, -, -, rfl⟩ | ⟨t, c, exit, rfl, -, -, -, rfl⟩ | ⟨t, k', -, -, rfl⟩ := step_cases hstep
  · obtain rfl : e.tid = t := by rcases henters with rfl | ⟨rfl, -⟩ <;> rfl
    exact after_blocked s c r hu.symm
  · exact after_blocked s c _ hu.symm
  · rfl

def twoPushers : List Event :=
  [.call 0 (.push ⟨1, 1⟩ 0), .call 1 (.push ⟨2, 2⟩ (-1)), .call 2 (.push ⟨3, 3⟩ (-1)),
    .call 0 (.pop 0), .resume 1, .call 0 (.pop 0)]

/-- Two pushers are suspended. The pop that empties the queue resumes the first one and clears
`waiting_lwm`. That one pushes its item, and the pop that takes it resumes nobody. And a queue
without slots is full and empty. -/
theorem second_pusher_left_asleep :
    (Unused (threeThreads 1) ∧ ∃ s, run step (threeThreads 1) twoPushers = some s ∧
      s.queue.getIndex = s.queue.putIndex ∧ s.pushers = [2] ∧ ∀ t, s.blocked t ≠ none → t ∈ s.pushers) ∧
    ∃ s, run step (threeThreads 0) [.call 0 (.push ⟨1, 1⟩ (-1))] = some s ∧
      s.queue.getIndex = s.queue.putIndex ∧ s.pushers = [0] := by
  refine ⟨⟨threeThreads_unused (by decide), run_exists (Q := fun s => s.queue.getIndex = s.queue.putIndex ∧
    s.pushers = [2] ∧ s.blocked 0 = none ∧ s.blocked 1 = none) (by decide) ?_⟩,
    run_exists (by decide) fun _ _ => id⟩
  rintro s hrun ⟨hindex, hpushers, h0, h1⟩
  refine ⟨hindex, hpushers, fun t ht => ?_⟩
  rw [hpushers, List.mem_singleton]
  by_contra hne
  obtain rfl | rfl | hgt : t = 0 ∨ t = 1 ∨ 2 < t := by
    unfold Tid at *
    omega
  · exact ht h0
  · exact ht h1
  · -- the events are about the threads 0, 1 and 2
    have hle : ∀ e ∈ twoPushers, e.tid ≤ 2 := by decide
    exact ht (run_frame (f := fun s => s.blocked t) (fun _ _ _ => step_blocked)
      (fun e he => Nat.ne_of_lt (Nat.lt_of_le_of_lt (hle e he) hgt)) hrun)

end RtThread.Dataqueue
