-- SUMMARY: Message queue runs: messages arrive in link order.
import ZigbeeGateway.Kernel.MessageSlots

/-!
# Runs of the message queue calls

The invariant adds the payload to `Slots`: a call that holds a slot is the only one that writes
to it, so what it has copied stays, and a message that is linked stays as it was sent until a
receive has copied it.
-/

namespace RtThread.MessageQueue

open Run Linked Function
open Option (bind_eq_some_iff ite_none_right_eq_some map_eq_some_iff)

/-! ## The payload -/

/-- The bytes of a message are in its slot. -/
structure Stored (mq : MessageQueue) (m : Message) : Prop where
  size : m.bytes.length ≤ mq.msgSize
  bytes : ∀ {i byte}, m.bytes[i]? = some byte → mq.payload m.slot i = byte

/-- What a call knows about the slot it holds. -/
def Call.Ok (mq : MessageQueue) (taken : Option Message) : Call → Prop
  | .idle => True
  | .fetched _ buffer => buffer.length ≤ mq.msgSize
  | .filling urgent msg buffer n =>
    buffer.length ≤ mq.msgSize ∧ n ≤ buffer.length ∧
    (∀ i byte, i < n → buffer[i]? = some byte → mq.payload msg i = byte) ∧
    (urgent = false → mq.next msg = none)
  | .waiting .. => True
  | .draining msg size copied =>
    copied.length ≤ mq.copySize size ∧
    (∀ i byte, copied[i]? = some byte → mq.payload msg i = byte) ∧
    ∃ m, taken = some m ∧ m.slot = msg ∧ Stored mq m

/-- The buffer of a receive begins with the message, as far as both of them go. -/
def Receipt.Ok (r : Receipt) : Prop :=
  ∃ m, r.message = some m ∧
    r.bytes.take (min m.bytes.length r.size) = m.bytes.take (min m.bytes.length r.size)

variable {mq mq' : MessageQueue} {taken : Option Message} {call : Call} {s : Sys} {c : Context}
  {msg size : Nat} {k' : Kernel} {timeout : Int}
  {r : Kernel × MessageQueue × Outcome (Except Err Nat)} {buffer : List UInt8}

theorem Stored.frame {m : Message} (h : Stored mq m)
    (hsize : mq'.msgSize = mq.msgSize) (hpayload : mq'.payload m.slot = mq.payload m.slot) :
    Stored mq' m := by
  refine ⟨hsize ▸ h.size, fun hbyte => ?_⟩
  rw [hpayload]
  exact h.bytes hbyte

/-- A call that holds a slot is the only one that writes to it. -/
theorem Call.Ok.frame
    (h : call.Ok mq taken) (hsize : mq'.msgSize = mq.msgSize)
    (hslot : ∀ {msg}, call.slot = some msg →
      mq'.payload msg = mq.payload msg ∧ mq'.next msg = mq.next msg) : call.Ok mq' taken := by
  cases call with
  | idle | waiting => trivial
  | fetched msg buffer =>
    simp only [Call.Ok] at h ⊢
    omega
  | filling urgent msg buffer n =>
    obtain ⟨hpayload, hnext⟩ := hslot rfl
    simpa only [Call.Ok, hsize, hpayload, hnext] using h
  | draining msg size copied =>
    obtain ⟨hpayload, hnext⟩ := hslot rfl
    obtain ⟨hlen, hcopied, m, hm, rfl, hstored⟩ := h
    refine ⟨?_, ?_, m, hm, rfl, hstored.frame hsize hpayload⟩
    · simpa only [copySize, hsize] using hlen
    · simpa only [hpayload] using hcopied

/-! ## The invariant -/

structure Inv (s : Sys) : Prop where
  wf : s.kernel.WF
  bound : s.mq.maxMsgs < 65536
  slots : ∃ free, Slots s.mq s.held free (s.queue.map Message.slot)
  entry : s.mq.entry = s.queue.length
  stored : ∀ m ∈ s.queue, Stored s.mq m
  calls : ∀ c, (s.call c).Ok s.mq (s.taken c)
  received : ∀ r ∈ s.received, r.Ok

theorem Initial.inv (h : Initial s) : Inv s := by
  obtain ⟨obj, next, payload, msgSize, poolSize, flag, hmq⟩ := h.mq
  have hinit : s.mq.maxMsgs < 65536 ∧ s.mq.entry = 0 := by
    rw [hmq, rtMqInit, (initLoop_spec _ _ rfl).2]
    exact ⟨Nat.mod_lt _ (by decide), rfl⟩
  constructor
  · exact h.wf
  · exact hinit.1
  · rw [h.queue, hmq]
    exact rtMqInit_slots obj next payload msgSize poolSize flag fun c => by simp [Sys.held, h.call, Call.slot]
  · rw [hinit.2, h.queue, List.length_nil]
  · simp [h.queue]
  · intro c
    rw [h.call c]
    trivial
  · simp [h.received]

theorem held_setCall (s : Sys) (c : Context) (call : Call) :
    (s.setCall c call).held = update s.held c call.slot := by
  funext d
  by_cases hdc : d = c
  · subst hdc
    simp [Sys.held, Sys.setCall]
  · simp [Sys.held, Sys.setCall, hdc]

/-- The call keeps its slot. -/
theorem held_setCall_same (s : Sys) {c : Context} {call : Call} (hslot : call.slot = s.held c) :
    (s.setCall c call).held = s.held := by
  rw [held_setCall, hslot, update_eq_self]

/-- Only the call of the context `c` changes, and no other call's slot is written. -/
theorem Inv.calls_update
    {taken' : Context → Option Message} (h : Inv s) (hsize : mq'.msgSize = s.mq.msgSize)
    (hcall : call.Ok mq' (taken' c)) (htaken : ∀ d, d ≠ c → taken' d = s.taken d)
    (hslot : ∀ d msg, d ≠ c → s.held d = some msg →
      mq'.payload msg = s.mq.payload msg ∧ mq'.next msg = s.mq.next msg) (d : Context) :
    (update s.call c call d).Ok mq' (taken' d) := by
  by_cases hdc : d = c
  · subst hdc
    rwa [update_self]
  · rw [update_of_ne hdc, htaken d hdc]
    exact (h.calls d).frame hsize fun hmsg => hslot d _ hdc hmsg

/-- The slot of another call. -/
theorem Slots.ne_of_held {held : Context → Option Nat} {free list : List Nat}
    {d : Context} {msg' : Nat} (h : Slots mq held free list) (hc : held c = some msg)
    (hd : held d = some msg') (hdc : d ≠ c) : msg' ≠ msg := by
  rintro rfl
  exact hdc (h.held_inj hd hc)

/-! ## The order of the messages -/

/-- What a step may do to the message list: a send links at the end, an urgent send at the front, a
receive takes the first slot, and a reset takes all of them. -/
def ListStep (s s' : Sys) (list list' : List Nat) : Event → Prop
  | .finish c =>
    match s.call c with
    | .filling urgent msg _ _ => list' = if urgent then msg :: list else list ++ [msg]
    | _ => list' = list
  | .recv c _ _ => Takes c
  | .resume t => Takes (.thread t)
  | .reset => list' = []
  | _ => list' = list
where
  Takes (c : Context) : Prop :=
    match s'.call c with
    | .draining msg _ _ => list = msg :: list'
    | _ => list' = list

section

variable (h : Inv s)

include h

/-- Only the kernel changes. -/
theorem Inv.setKernel (hwf : k'.WF) : Inv { s with kernel := k' } :=
  ⟨hwf, h.bound, h.slots, h.entry, h.stored, h.calls, h.received⟩

/-- A call without a slot goes to another state without a slot. -/
theorem Inv.setCall_of_none
    (hheld : s.held c = none) (hslot : call.slot = none) (hok : call.Ok s.mq (s.taken c)) :
    Inv (s.setCall c call) := by
  obtain ⟨free, hslots⟩ := h.slots
  refine ⟨h.wf, h.bound, ⟨free, ?_⟩, h.entry, h.stored, ?_, h.received⟩
  · rw [held_setCall_same s (hslot.trans hheld.symm)]
    exact hslots
  · exact h.calls_update rfl hok (fun _ _ => rfl) fun _ _ _ _ => ⟨rfl, rfl⟩

/-! ## The critical sections -/

/-- The first critical section of a send. -/
theorem Inv.fetch {next : Nat → Call} {r : MessageQueue × Except Err Nat} (hheld : s.held c = none)
    (hslot : ∀ msg, (next msg).slot = some msg)
    (hok : ∀ msg (mq : MessageQueue), size ≤ mq.msgSize → (next msg).Ok mq (s.taken c))
    (hr : s.mq.fetchFree size = some r) : Inv (s.afterFetch c next r) := by
  obtain ⟨-, hr⟩ := rtAssert_bind_eq_some.mp hr
  split at hr
  next hsize =>
    cases hr
    exact h
  next hsize =>
    split at hr
    next =>
      cases hr
      exact h
    next msg hfree =>
      cases hr
      obtain ⟨free, hslots⟩ := h.slots
      obtain ⟨rest, hrest⟩ := hslots.fetch hheld hfree
      refine ⟨h.wf, h.bound, ⟨rest, ?_⟩, h.entry, fun m hm => (h.stored m hm).frame rfl rfl, ?_,
        h.received⟩
      · rw [Sys.afterFetch, held_setCall, hslot]
        exact hrest
      · exact h.calls_update rfl (hok msg _ (Nat.le_of_not_lt hsize)) (fun _ _ => rfl)
          fun _ _ _ _ => ⟨rfl, rfl⟩

/-- A receive takes the first message of the queue. -/
theorem Inv.take (hheld : s.held c = none) (hhead : s.mq.msgQueueHead = some msg) :
    Inv (s.afterRecv c size (s.kernel, { s.mq.unlinkHead msg with entry := s.mq.entry - 1 },
      .returned (.ok msg))) := by
  obtain ⟨free, hslots⟩ := h.slots
  obtain ⟨rest, hrest, hslots⟩ := hslots.take hheld hhead (s.mq.entry - 1)
  obtain ⟨m, queue, hqueue, rfl, rfl⟩ := List.map_eq_cons_iff.mp hrest
  have hentry := h.entry
  have hstored := h.stored
  rw [hqueue] at hentry hstored
  simp only [Sys.afterRecv, hqueue, List.tail_cons, List.head?_cons]
  constructor
  · exact h.wf
  · exact h.bound
  · refine ⟨free, ?_⟩
    rw [held_setCall]
    exact hslots
  · change s.mq.entry - 1 = queue.length
    rw [hentry, List.length_cons, Nat.add_sub_cancel]
  · exact fun m' hm' => (hstored m' (List.mem_cons_of_mem m hm')).frame rfl rfl
  · refine h.calls_update rfl ?_ (fun d hdc => update_of_ne hdc ..)
      fun _ _ _ _ => ⟨rfl, rfl⟩
    refine ⟨Nat.zero_le _, by simp, m, update_self .., rfl, ?_⟩
    exact (hstored m List.mem_cons_self).frame rfl rfl
  · exact h.received

/-- A message that was received is the first one of the list. -/
def FromHead (s : Sys) (outcome : Outcome (Except Err Nat)) : Prop :=
  ∀ msg, outcome = .returned (.ok msg) → s.mq.msgQueueHead = some msg

theorem Inv.takes (hhead : FromHead s r.2.2) :
    ListStep.Takes (s.afterRecv c size r) (s.queue.map Message.slot)
      ((s.afterRecv c size r).queue.map Message.slot) c := by
  obtain ⟨k, mq, outcome⟩ := r
  cases outcome with
  | blocked timeout tickDelta => simp [ListStep.Takes, Sys.afterRecv, Sys.setCall]
  | returned result =>
    cases result with
    | error err => simp [ListStep.Takes, Sys.afterRecv, Sys.setCall]
    | ok msg =>
      obtain ⟨free, hslots⟩ := h.slots
      obtain ⟨rest, hrest, -⟩ := (hhead msg rfl ▸ hslots.messages).uncons
      simp [ListStep.Takes, Sys.afterRecv, Sys.setCall, List.map_tail, hrest]

theorem Inv.rtMqRecvLoop {tickDelta : Nat} (hruns : s.Runs c)
    (hheld : s.held c = none) (hr : rtMqRecvLoop s.kernel s.mq c timeout tickDelta = some r) :
    Inv (s.afterRecv c size r) ∧ FromHead s r.2.2 := by
  unfold MessageQueue.rtMqRecvLoop at hr
  split at hr
  next hempty =>
    obtain ⟨t, ht, hr⟩ := bind_eq_some_iff.mp hr
    have hready : (s.kernel.thread t).stat = .ready := by
      cases c with
      | thread u =>
        cases ht
        exact hruns
      | isr n => cases ht
    have hwf := h.wf.setError t .eok
    split at hr
    next htimeout =>
      cases hr
      exact ⟨(h.setKernel (hwf.setError t .etimeout)).setCall_of_none hheld rfl trivial, nofun⟩
    next htimeout =>
      obtain ⟨k', hk', ⟨⟩⟩ := bind_eq_some_iff.mp hr
      have hw : s.mq.parent.suspendThread.IsWait := trivial
      have hsus := hwf.block (by simpa using hready) hw hk'
      exact ⟨(h.setKernel hsus.wf).setCall_of_none hheld rfl trivial, nofun⟩
  next hmail =>
    obtain ⟨msg, hhead, ⟨⟩⟩ := bind_eq_some_iff.mp hr
    refine ⟨h.take hheld hhead, ?_⟩
    rintro msg' ⟨⟩
    exact hhead

theorem Inv.rtMqRecv
    (hruns : s.Runs c)
    (hheld : s.held c = none) (hr : rtMqRecv s.kernel s.mq c size timeout = some r) :
    Inv (s.afterRecv c size r) ∧ FromHead s r.2.2 := by
  obtain ⟨-, hr⟩ := rtAssert_bind_eq_some.mp hr
  split at hr
  next hempty =>
    cases hr
    exact ⟨h.setCall_of_none hheld rfl trivial, nofun⟩
  next hwait => exact h.rtMqRecvLoop hruns hheld hr

theorem Inv.rtMqRecvResume {t : Tid} {tickDelta : Nat} (hruns : s.Runs (.thread t))
    (hheld : s.held (.thread t) = none)
    (hr : rtMqRecvResume s.kernel s.mq t timeout tickDelta = some r) :
    Inv (s.afterRecv (.thread t) size r) ∧ FromHead s r.2.2 := by
  unfold MessageQueue.rtMqRecvResume at hr
  split at hr
  next herr =>
    cases hr
    exact ⟨h.setCall_of_none hheld rfl trivial, nofun⟩
  next herr => exact h.rtMqRecvLoop hruns hheld hr

/-- One instruction of a copy writes to the slot of its own call only. -/
theorem Inv.copy {s' : Sys} (hs' : s.copy c = some s') : Inv s' ∧ s'.queue = s.queue := by
  obtain ⟨free, hslots⟩ := h.slots
  have hok := h.calls c
  unfold Sys.copy at hs'
  cases hcall : s.call c with
  | idle | waiting => simp [hcall] at hs'
  | fetched msg buffer =>
    rw [hcall] at hs' hok
    cases hs'
    have hheld : s.held c = some msg := by simp [Sys.held, hcall, Call.slot]
    refine ⟨⟨h.wf, h.bound, ⟨free, ?_⟩, h.entry, fun m hm => (h.stored m hm).frame rfl rfl, ?_,
      h.received⟩, rfl⟩
    · rw [held_setCall_same _ (by exact hheld.symm)]
      exact hslots.clearNext hheld
    · refine h.calls_update rfl ⟨hok, Nat.zero_le _, by simp, ?_⟩ (fun _ _ => rfl) ?_
      · exact fun _ => update_self ..
      · intro d msg' hdc hd
        exact ⟨rfl, update_of_ne (hslots.ne_of_held hheld hd hdc) ..⟩
  | filling urgent msg buffer n =>
    rw [hcall] at hs' hok
    obtain ⟨byte, hbyte, rfl⟩ := map_eq_some_iff.mp hs'
    have hheld : s.held c = some msg := by simp [Sys.held, hcall, Call.slot]
    obtain ⟨hsize, hn, hcopied, hnext⟩ := hok
    obtain ⟨hlt, -⟩ := List.getElem?_eq_some_iff.mp hbyte
    refine ⟨⟨h.wf, h.bound, ⟨free, ?_⟩, h.entry, fun m hm => (h.stored m hm).frame rfl ?_, ?_,
      h.received⟩, rfl⟩
    · rw [held_setCall_same _ (by exact hheld.symm)]
      exact ⟨hslots.messages, hslots.freeList, hslots.tail, hslots.exclusive, hslots.total⟩
    · have hne : m.slot ≠ msg := fun heq =>
        hslots.held_notMem_list hheld (heq ▸ List.mem_map_of_mem hm)
      exact update_of_ne hne ..
    · refine h.calls_update rfl ⟨hsize, hlt, fun i byte' hi hbyte' => ?_, hnext⟩ (fun _ _ => rfl) ?_
      · change update s.mq.payload msg _ msg i = byte'
        rw [update_self]
        rcases Nat.lt_succ_iff_lt_or_eq.mp hi with hi | rfl
        · rw [update_of_ne hi.ne]
          exact hcopied i byte' hi hbyte'
        · rw [update_self]
          exact Option.some.inj (hbyte.symm.trans hbyte')
      · intro d msg' hdc hd
        exact ⟨update_of_ne (hslots.ne_of_held hheld hd hdc) .., rfl⟩
  | draining msg size copied =>
    rw [hcall] at hs' hok
    obtain ⟨hlt, ⟨⟩⟩ := ite_none_right_eq_some.mp hs'
    have hheld : s.held c = some msg := by simp [Sys.held, hcall, Call.slot]
    obtain ⟨-, hcopied, hm⟩ := hok
    refine ⟨⟨h.wf, h.bound, ⟨free, ?_⟩, h.entry, h.stored, ?_, h.received⟩, rfl⟩
    · rw [held_setCall_same _ (by exact hheld.symm)]
      exact hslots
    · refine h.calls_update rfl ⟨?_, fun i byte hbyte => ?_, hm⟩ (fun _ _ => rfl)
        fun _ _ _ _ => ⟨rfl, rfl⟩
      · rw [List.length_append, List.length_singleton]
        exact hlt
      · obtain ⟨hi, -⟩ := List.getElem?_eq_some_iff.mp hbyte
        rw [List.length_append, List.length_singleton] at hi
        rcases Nat.lt_succ_iff_lt_or_eq.mp hi with hi | rfl
        · rw [List.getElem?_append_left hi] at hbyte
          exact hcopied i byte hbyte
        · rw [List.getElem?_concat_length] at hbyte
          exact Option.some.inj hbyte

end

theorem resumeReceiver_wf {k : Kernel} (h : k.WF) (hk : resumeReceiver k mq = some k') : k'.WF := by
  unfold resumeReceiver at hk
  split at hk
  next hne =>
    obtain ⟨t, rest, hlist⟩ := List.exists_cons_of_ne_nil hne
    have hw : mq.parent.suspendThread.IsWait := trivial
    obtain ⟨k1, hk1, hwk⟩ := h.rtIpcListResume hw hlist
    obtain rfl : k' = k1 := Option.some.inj (hk.symm.trans hk1)
    exact hwk.wf
  next hnil =>
    cases hk
    exact h

/-- The message of a send whose copy is complete. -/
theorem Call.Ok.stored {urgent : Bool}
    (h : (Call.filling urgent msg buffer buffer.length).Ok mq taken) : Stored mq ⟨msg, buffer⟩ := by
  obtain ⟨hsize, -, hcopied, -⟩ := h
  refine ⟨hsize, fun {i byte} hbyte => hcopied i byte ?_ hbyte⟩
  exact (List.getElem?_eq_some_iff.mp hbyte).1

/-- A message is linked: at the end by a send, at the front by an urgent send. -/
theorem Inv.linked {m : Message}
    {queue : List Message} (h : Inv s) (hwf : k'.WF) (hheld : s.held c = some m.slot)
    (hm : Stored s.mq m) (hqueue : queue.Perm (m :: s.queue))
    (hslots : ∃ free, Slots mq' (update s.held c none) free (queue.map Message.slot))
    (hsize : mq'.msgSize = s.mq.msgSize) (hmax : mq'.maxMsgs = s.mq.maxMsgs)
    (hentry : mq'.entry = (s.mq.entry + 1) % 65536) (hpayload : mq'.payload = s.mq.payload)
    (hnext : ∀ d slot, d ≠ c → s.held d = some slot → mq'.next slot = s.mq.next slot) :
    Inv ({ s with kernel := k', mq := mq', queue := queue }.setCall c .idle) := by
  constructor
  · exact hwf
  · exact hmax ▸ h.bound
  · rw [held_setCall]
    exact hslots
  · -- the slot was not on the list, so the list was not full
    obtain ⟨free, hold⟩ := h.slots
    have hlt := hold.length_lt hheld
    have hbound := h.bound
    rw [List.length_map] at hlt
    change mq'.entry = queue.length
    rw [hentry, hqueue.length_eq, h.entry, List.length_cons]
    exact Nat.mod_eq_of_lt (by omega)
  · intro m' hm'
    rcases List.mem_cons.mp (hqueue.mem_iff.mp hm') with rfl | hm'
    · exact hm.frame hsize (congrFun hpayload _)
    · exact (h.stored m' hm').frame hsize (congrFun hpayload _)
  · refine h.calls_update hsize (by trivial) (fun _ _ => rfl) fun d slot hdc hd => ?_
    exact ⟨congrFun hpayload slot, hnext d slot hdc hd⟩
  · exact h.received

/-- The bytes that a complete receive has copied. -/
theorem Call.Ok.receipt
    {copied : List UInt8} (h : (Call.draining msg size copied).Ok mq taken)
    (hdone : mq.copySize size ≤ copied.length) : Receipt.Ok ⟨taken, size, copied⟩ := by
  obtain ⟨-, hcopied, m, hm, rfl, hstored⟩ := h
  refine ⟨m, hm, List.ext_getElem? fun i => ?_⟩
  simp only [List.getElem?_take]
  split
  next hi =>
    have hsize := hstored.size
    have hi' : i < copied.length := by
      unfold copySize at hdone
      split at hdone <;> omega
    have hcopied := hcopied i _ (List.getElem?_eq_getElem hi')
    have hbytes := hstored.bytes (List.getElem?_eq_getElem (by omega : i < m.bytes.length))
    rw [List.getElem?_eq_getElem hi', List.getElem?_eq_getElem (by omega), ← hcopied, ← hbytes]
  · rfl

/-- The second critical section of a receive. -/
theorem Inv.finish_recv {copied : List UInt8} (h : Inv s)
    (hcall : s.call c = .draining msg size copied) (hdone : s.mq.copySize size ≤ copied.length) :
    Inv ({ s with
      mq := s.mq.putFree msg
      taken := update s.taken c none
      received := s.received ++ [(⟨s.taken c, size, copied⟩ : Receipt)] }.setCall c .idle) := by
  have hheld : s.held c = some msg := by simp [Sys.held, hcall, Call.slot]
  obtain ⟨free, hslots⟩ := h.slots
  constructor
  · exact h.wf
  · exact h.bound
  · rw [held_setCall]
    exact ⟨_, hslots.putFree hheld⟩
  · exact h.entry
  · exact fun m hm => (h.stored m hm).frame rfl rfl
  · refine h.calls_update rfl (by trivial) (fun d hdc => update_of_ne hdc ..)
      fun d slot hdc hd => ⟨rfl, ?_⟩
    exact update_of_ne (hslots.ne_of_held hheld hd hdc) ..
  · intro r hr
    rcases List.mem_append.mp hr with hr | hr
    · exact h.received r hr
    · cases List.mem_singleton.mp hr
      exact (hcall ▸ h.calls c).receipt hdone

theorem Inv.finish {s' : Sys} (h : Inv s) (hs' : s.finish c = some s') :
    Inv s' ∧ ListStep s s' (s.queue.map Message.slot) (s'.queue.map Message.slot) (.finish c) := by
  unfold Sys.finish at hs'
  rw [ListStep]
  cases hcall : s.call c with
  | idle | fetched | waiting => simp [hcall] at hs'
  | filling urgent msg buffer n =>
    rw [hcall] at hs'
    obtain ⟨rfl, hlink⟩ := ite_none_right_eq_some.mp hs'
    have hheld : s.held c = some msg := by simp [Sys.held, hcall, Call.slot]
    have hok := hcall ▸ h.calls c
    obtain ⟨free, hslots⟩ := h.slots
    cases urgent with
    | true =>
      obtain ⟨⟨k', mq'⟩, hr, rfl⟩ := map_eq_some_iff.mp hlink
      obtain ⟨k', hk', ⟨⟩⟩ := map_eq_some_iff.mp hr
      refine ⟨h.linked (m := ⟨msg, buffer⟩) (resumeReceiver_wf h.wf hk') hheld hok.stored (.refl _)
        ⟨free, hslots.linkHead hheld⟩ rfl rfl rfl rfl fun d slot hdc hd => ?_, rfl⟩
      exact update_of_ne (hslots.ne_of_held hheld hd hdc) ..
    | false =>
      obtain ⟨⟨k', mq'⟩, hr, rfl⟩ := map_eq_some_iff.mp hlink
      obtain ⟨k', hk', ⟨⟩⟩ := map_eq_some_iff.mp hr
      refine ⟨h.linked (m := ⟨msg, buffer⟩) (resumeReceiver_wf h.wf hk') hheld hok.stored
        (List.perm_append_singleton _ _) ⟨free, ?_⟩ rfl rfl rfl rfl fun d slot _ hd =>
          hslots.linkTail_next hd, List.map_append⟩
      rw [List.map_append]
      exact hslots.linkTail hheld (hok.2.2.2 rfl)
  | draining msg size copied =>
    rw [hcall] at hs'
    obtain ⟨hdone, ⟨⟩⟩ := Option.ite_none_left_eq_some.mp hs'
    exact ⟨h.finish_recv hcall (Nat.le_of_not_lt hdone), rfl⟩

/-- A reset frees all messages and leaves the calls in progress alone. -/
theorem Inv.rtMqReset {r : Kernel × MessageQueue} (h : Inv s)
    (hr : rtMqReset s.kernel s.mq = some r) :
    Inv { s with kernel := r.1, mq := r.2, queue := [] } := by
  obtain ⟨free, hslots⟩ := h.slots
  have hw : s.mq.parent.suspendThread.IsWait := trivial
  obtain ⟨k', hk', hwf, -⟩ := h.wf.rtIpcListResumeAll hw
  obtain ⟨mq', free', hmq', hslots', hsize, hmax, hpayload, hnext⟩ :=
    hslots.resetLoop hslots.length_le
  obtain rfl : r = (k', { mq' with entry := 0 }) := by
    simpa [MessageQueue.rtMqReset, hk', hmq'] using hr.symm
  constructor
  · exact hwf
  · exact hmax ▸ h.bound
  · exact ⟨free', hslots'.messages, hslots'.freeList, hslots'.tail, hslots'.exclusive, hslots'.total⟩
  · rfl
  · simp
  · exact fun c => (h.calls c).frame hsize fun hc => ⟨congrFun hpayload _, hnext hc⟩
  · exact h.received

/-! ## Steps and runs -/

theorem held_of_idle (h : s.call c = .idle) : s.held c = none := by
  rw [Sys.held, h, Call.slot]

theorem Inv.step {s' : Sys} {e : Event} (h : Inv s) (hs' : step s e = some s') :
    Inv s' ∧ ListStep s s' (s.queue.map Message.slot) (s'.queue.map Message.slot) e := by
  cases e with
  | send c buffer =>
    obtain ⟨⟨-, hidle⟩, hs'⟩ := ite_none_right_eq_some.mp hs'
    obtain ⟨⟨mq, result⟩, hr, rfl⟩ := map_eq_some_iff.mp hs'
    refine ⟨h.fetch (held_of_idle hidle) (fun _ => rfl) (fun _ _ hsize => hsize) hr, ?_⟩
    cases result <;> rfl
  | urgent c buffer =>
    obtain ⟨⟨-, hidle⟩, hs'⟩ := ite_none_right_eq_some.mp hs'
    obtain ⟨⟨mq, result⟩, hr, rfl⟩ := map_eq_some_iff.mp hs'
    refine ⟨h.fetch (held_of_idle hidle) (fun _ => rfl)
      (fun _ _ hsize => ⟨hsize, Nat.zero_le _, by simp, by simp⟩) hr, ?_⟩
    cases result <;> rfl
  | recv c size timeout =>
    obtain ⟨⟨hruns, hidle⟩, hs'⟩ := ite_none_right_eq_some.mp hs'
    obtain ⟨r, hr, rfl⟩ := map_eq_some_iff.mp hs'
    exact (h.rtMqRecv hruns (held_of_idle hidle) hr).imp_right h.takes
  | resume t =>
    obtain ⟨hruns, hs'⟩ := ite_none_right_eq_some.mp hs'
    cases hcall : s.call (.thread t) with
    | idle | fetched | filling | draining => simp [hcall] at hs'
    | waiting size timeout tickDelta =>
      rw [hcall] at hs'
      obtain ⟨r, hr, rfl⟩ := map_eq_some_iff.mp hs'
      exact (h.rtMqRecvResume hruns (by rw [Sys.held, hcall, Call.slot]) hr).imp_right h.takes
  | copy c => exact (h.copy (ite_none_right_eq_some.mp hs').2).imp_right (congrArg (List.map Message.slot))
  | finish c => exact h.finish (ite_none_right_eq_some.mp hs').2
  | reset =>
    obtain ⟨r, hr, rfl⟩ := map_eq_some_iff.mp hs'
    exact ⟨h.rtMqReset hr, rfl⟩
  | expire t =>
    obtain ⟨k', hk', rfl⟩ := map_eq_some_iff.mp hs'
    exact ⟨h.setKernel (h.wf.wakes_expire hk').wf, rfl⟩
  | tick =>
    cases hs'
    exact ⟨h.setKernel (h.wf.congr rfl rfl rfl), rfl⟩

/-- Every slot of the pool is in exactly one place: on the free list, on the message list, or held
by one call. -/
structure Partition (s : Sys) (free list : List Nat) : Prop where
  freeList : Chain s.mq.next s.mq.msgQueueFree free
  messages : Chain s.mq.next s.mq.msgQueueHead list
  nodup : (free ++ list).Nodup
  total : ∀ slot, slot < s.mq.maxMsgs ↔ slot ∈ free ∨ slot ∈ list ∨ ∃ c, s.held c = some slot
  held : ∀ c slot, s.held c = some slot → slot ∉ free ∧ slot ∉ list
  heldOnce : ∀ c d slot, s.held c = some slot → s.held d = some slot → c = d

theorem Slots.partition {free list : List Nat} (h : Slots s.mq s.held free list) :
    Partition s free list where
  freeList := h.freeList
  messages := h.messages
  nodup := List.nodup_append.mpr ⟨h.exclusive.nodup .free, h.nodup_list,
    fun slot hfree slot' hlist heq => h.list_notMem_free hlist (heq ▸ hfree)⟩
  total slot := by
    rw [← h.total slot]
    constructor
    · rintro ⟨p, hp⟩
      cases p with
      | free => exact .inl hp
      | queued => exact .inr (.inl hp)
      | held c => exact .inr (.inr ⟨c, Option.mem_toList.mp hp⟩)
    · rintro (hp | hp | ⟨c, hc⟩)
      · exact ⟨.free, hp⟩
      · exact ⟨.queued, hp⟩
      · exact ⟨.held c, mem_held hc⟩
  held c slot hc := ⟨h.held_notMem_free hc, h.held_notMem_list hc⟩
  heldOnce c d slot hc hd := h.held_inj hc hd

/-- In every run the slots are partitioned, the entry counts the messages, the tail is the last one,
every step changes the list as its call says, and a receive gets the message it took. -/
theorem slots_partitioned {s0 s : Sys} {es : List Event} (hinit : Initial s0)
    (hrun : run step s0 es = some s) :
    (∃ free list, Partition s free list ∧ s.mq.entry = list.length ∧
      (s.mq.msgQueueTail = none ↔ list = []) ∧ s.mq.msgQueueTail = list.getLast? ∧
      list = s.queue.map Message.slot ∧
      ∀ e s' list', step s e = some s' → Chain s'.mq.next s'.mq.msgQueueHead list' →
        ListStep s s' list list' e) ∧
    ∀ r ∈ s.received, ∃ m, r.message = some m ∧
      r.bytes.take (min m.bytes.length r.size) = m.bytes.take (min m.bytes.length r.size) := by
  have hinv : Inv s := run_invariant (fun _ _ _ h hs => (h.step hs).1) hinit.inv hrun
  obtain ⟨free, hslots⟩ := hinv.slots
  refine ⟨⟨free, s.queue.map Message.slot, hslots.partition, ?_, ?_, hslots.tail, rfl, ?_⟩,
    hinv.received⟩
  · rw [List.length_map, hinv.entry]
  · rw [hslots.tail, List.getLast?_eq_none_iff]
  · intro e s' list' hs' hlist'
    obtain ⟨free', hslots'⟩ := (hinv.step hs').1.slots
    rw [hlist'.unique hslots'.messages]
    exact (hinv.step hs').2

/-- A queue with two slots of four bytes and two ready threads. -/
def twoMessages : Sys where
  kernel := Kernel.bootThreads (fun _ => 10) [0, 1]
  mq := rtMqInit 0 (fun _ => none) (fun _ _ => 0) 3 16 .fifo
  call := fun _ => .idle
  queue := []
  taken := fun _ => none
  received := []

/-- Thread 1 waits, thread 0 sends two bytes, and before it links them an interrupt sends an urgent
one. Thread 1 gets the urgent byte, into a buffer of eight. -/
def overtaken : List Event :=
  [.recv (.thread 1) 8 (-1), .send (.thread 0) [1, 2], .copy (.thread 0), .copy (.thread 0),
    .urgent (.isr 0) [9], .copy (.isr 0), .finish (.isr 0), .copy (.thread 0),
    .finish (.thread 0), .resume 1, .copy (.thread 1), .copy (.thread 1), .copy (.thread 1),
    .copy (.thread 1), .finish (.thread 1)]

theorem slots_partitioned_overtaken :
    ∃ s, run step twoMessages overtaken = some s ∧ s.queue = [⟨1, [1, 2]⟩] ∧
      s.received = [⟨some ⟨0, [9]⟩, 8, [9, 0, 0, 0]⟩] ∧
      ∃ free list, Partition s free list ∧ s.mq.entry = list.length ∧
        s.mq.msgQueueTail = list.getLast? := by
  refine run_exists (Q := fun s => s.queue = [⟨1, [1, 2]⟩] ∧
    s.received = [⟨some ⟨0, [9]⟩, 8, [9, 0, 0, 0]⟩]) (by decide +kernel) ?_
  rintro s hrun ⟨hqueue, hreceived⟩
  have hinit : Initial twoMessages :=
    ⟨Kernel.bootThreads_wf (fun _ => 10) [0, 1], ⟨_, _, _, _, _, _, rfl⟩, rfl, fun _ => rfl, rfl, rfl⟩
  obtain ⟨⟨free, list, hpartition, hentry, -, htail, -⟩, -⟩ := slots_partitioned hinit hrun
  exact ⟨hqueue, hreceived, free, list, hpartition, hentry, htail⟩

end RtThread.MessageQueue
