-- SUMMARY: Mailboxes are queues, and no wake-up is lost.
import ZigbeeGateway.Kernel.Mailbox

/-!
# Runs of the mailbox calls

The invariant ties the ring to the history of accepted and delivered mails, and bounds the
mails that wait for a receiver by the receivers that are on their way. When a resumed
thread runs again it leaves the count of those on their way before it has taken its mail,
so the invariant has a slack for each direction: `Inv s r w` allows `r` mails and `w` free
slots beyond the count.
-/

namespace RtThread.Mailbox

open Run Function
open Option (bind_eq_some_iff ite_none_right_eq_some map_eq_some_iff)

def Call.IsSend : Call → Prop
  | .send _ _ _ => True
  | _ => False

def Call.IsRecv : Call → Prop
  | .recv _ _ => True
  | _ => False

variable {c : Call} {s : Sys} {k k' : Kernel} {hd : ListHead} {t : Tid} {value : BitVec 32}
  {timeout : Int} {tickDelta : Nat} {r : Kernel × Mailbox × Outcome Received}

theorem Call.IsSend.not_isRecv (h : c.IsSend) : ¬ c.IsRecv := by
  cases c with
  | send => exact id
  | idle | recv => exact h.elim

/-! ## One side of the mailbox -/

/-- The threads on one side of the mailbox: those on the wait list `hd` and those that were
resumed and did not run since. All of them are in a call of the kind `is`. -/
structure Side (is : Call → Prop) (hd : ListHead) (k : Kernel) (call : Tid → Call)
    (resumed : List Tid) : Prop where
  waiting : ∀ t ∈ k.tlist hd, is (call t) ∧ (k.thread t).error = .eok
  onWay : ∀ t ∈ resumed, is (call t) ∧ (k.thread t).stat = .ready ∧ (k.thread t).error = .eok
  nodup : resumed.Nodup

namespace Side

variable {is : Call → Prop} {hd : ListHead} {k k' : Kernel} {call : Tid → Call}
  {resumed : List Tid} {t : Tid} {err : Err}

variable (h : Side is hd k call resumed)

include h

/-- A thread wakes up, by a resume or by a timeout. -/
theorem wakes (hwf : k.WF) (hw : hd.IsWait)
    (hwk : k.Wakes k' t err) : Side is hd k' call resumed := by
  refine ⟨fun u hu => ?_, fun u hu => ?_, h.nodup⟩
  · obtain ⟨hut, hmem⟩ := (hwk.mem hwf hw).mp hu
    rw [hwk.thread_of_ne hut]
    exact h.waiting u hmem
  · obtain ⟨hcall, hstat, herr⟩ := h.onWay u hu
    -- a thread on its way is ready, so it is not the one that wakes up
    have hut : u ≠ t := by
      rintro rfl
      cases hstat.symm.trans hwk.suspended
    rw [hwk.thread_of_ne hut]
    exact ⟨hcall, hstat, herr⟩

/-- A waiting thread is resumed and is now on its way. -/
theorem resumes (hwf : k.WF) (hw : hd.IsWait)
    (hmem : t ∈ k.tlist hd) (hwk : k.Wakes k' t (k.thread t).error) :
    Side is hd k' call (resumed ++ [t]) := by
  obtain ⟨hwaiting, honWay, hnodup⟩ := h.wakes hwf hw hwk
  obtain ⟨hcall, herr⟩ := h.waiting t hmem
  have hself := hwk.thread_same
  have hnot : t ∉ resumed := fun ht => by
    cases (h.onWay t ht).2.1.symm.trans hwk.suspended
  refine ⟨hwaiting, fun u hu => ?_, ?_⟩
  · rcases List.mem_append.mp hu with hu | hu
    · exact honWay u hu
    · cases List.mem_singleton.mp hu
      rw [hself]
      exact ⟨hcall, rfl, herr⟩
  · exact List.nodup_append.mpr ⟨hnodup, by simp, by grind⟩

/-- An edit of a thread that is not on this side. -/
theorem edits (hlist : k'.tlist hd = k.tlist hd)
    (hthread : ∀ u, u ≠ t → k'.thread u = k.thread u) (hnot : t ∉ k.tlist hd)
    (hfree : t ∉ resumed) : Side is hd k' call resumed := by
  refine ⟨fun u hu => ?_, fun u hu => ?_, h.nodup⟩
  · rw [hlist] at hu
    rw [hthread u fun hut => hnot (hut ▸ hu)]
    exact h.waiting u hu
  · rw [hthread u fun hut => hfree (hut ▸ hu)]
    exact h.onWay u hu

/-- The calls of the threads on this side stay. -/
theorem calls {call' : Tid → Call} (hcall : ∀ u, u ∈ k.tlist hd ∨ u ∈ resumed → call' u = call u) :
    Side is hd k call' resumed := by
  refine ⟨fun u hu => ?_, fun u hu => ?_, h.nodup⟩
  · rw [hcall u (.inl hu)]
    exact h.waiting u hu
  · rw [hcall u (.inr hu)]
    exact h.onWay u hu

/-- A ready thread without a call begins to wait on this side. -/
theorem suspends {flag : IpcFlag}
    (hsus : k.Suspends k' t hd flag) (herr : (k.thread t).error = .eok) (hc : is c)
    (hfree : t ∉ resumed) : Side is hd k' (update call t c) resumed := by
  refine ⟨fun u hu => ?_, fun u hu => ?_, h.nodup⟩
  · by_cases hut : u = t
    · subst hut
      rw [update_self, hsus.thread_same]
      exact ⟨hc, herr⟩
    · rw [update_of_ne hut, hsus.thread_of_ne hut]
      exact h.waiting u ((hsus.mem.mp hu).resolve_left hut)
  · have hut : u ≠ t := fun hut => hfree (hut ▸ hu)
    rw [update_of_ne hut, hsus.thread_of_ne hut]
    exact h.onWay u hu

/-- A thread that waits on the other side does not show on this one. -/
theorem suspends_other {flag : IpcFlag} {hd' : ListHead} (hwf : k.WF) (hw : hd.IsWait)
    (hready : (k.thread t).stat = .ready) (hsus : k.Suspends k' t hd' flag) (hne : hd ≠ hd')
    (hfree : t ∉ resumed) : Side is hd k' (update call t c) resumed := by
  have hlist := hsus.other hd hw hne
  have hnot : t ∉ k.tlist hd := hwf.notMem_wait hready hw
  refine (h.edits hlist (fun u hu => hsus.thread_of_ne hu) hnot hfree).calls fun u hu => ?_
  apply update_of_ne
  rintro rfl
  rw [hlist] at hu
  exact hu.elim hnot hfree

/-- The thread runs again. -/
theorem leave (hnot : t ∉ k.tlist hd) : Side is hd k (update call t .idle) (resumed.erase t) := by
  refine ⟨fun u hu => ?_, fun u hu => ?_, h.nodup.erase t⟩
  · have hut : u ≠ t := fun hut => hnot (hut ▸ hu)
    rw [update_of_ne hut]
    exact h.waiting u hu
  · obtain ⟨hut, hu⟩ := h.nodup.mem_erase_iff.mp hu
    rw [update_of_ne hut]
    exact h.onWay u hu

end Side

/-! ## The invariant -/

theorem receivers_isWait (mb : Mailbox) : mb.parent.suspendThread.IsWait := trivial

theorem senders_isWait (mb : Mailbox) : mb.suspendSenderThread.IsWait := trivial

structure Inv (s : Sys) (r w : Nat) : Prop where
  wf : s.kernel.WF
  size : s.mb.size < 65536
  ring : ∃ queue, s.accepted = s.delivered ++ queue ∧
    Ring.Holds s.mb.msgPool s.mb.size s.mb.inOffset s.mb.outOffset s.mb.entry queue
  recvSide : Side Call.IsRecv s.mb.parent.suspendThread s.kernel s.call s.resumedReceivers
  sendSide : Side Call.IsSend s.mb.suspendSenderThread s.kernel s.call s.resumedSenders
  mails : s.receivers ≠ [] → s.mb.entry ≤ s.resumedReceivers.length + r
  slots : s.senders ≠ [] → s.mb.size - s.mb.entry ≤ s.resumedSenders.length + w

theorem Initial.inv (h : Initial s) : Inv s 0 0 := by
  obtain ⟨obj, msgpool, size, flag, hmb⟩ := h.mb
  have hreceivers := h.receivers
  have hsenders := h.senders
  rw [Sys.receivers] at hreceivers
  rw [Sys.senders] at hsenders
  constructor
  · exact h.wf
  · rw [hmb]
    exact Nat.mod_lt _ (by omega)
  · refine ⟨[], by simp [h.accepted, h.delivered], ?_⟩
    rw [hmb]
    exact ⟨Nat.zero_le _, fun h => h, (Nat.zero_mod _).symm, rfl⟩
  · constructor <;> simp [hreceivers, h.resumedReceivers]
  · constructor <;> simp [hsenders, h.resumedSenders]
  · exact fun hne => absurd h.receivers hne
  · exact fun hne => absurd h.senders hne

theorem Inv.entry_le {r w : Nat} (h : Inv s r w) : s.mb.entry ≤ s.mb.size := by
  obtain ⟨queue, -, hring⟩ := h.ring
  exact hring.le

theorem nextOffset_eq {size offset : Nat} (hsize : size < 65536) (hlt : offset < size) :
    nextOffset size offset = Ring.next size offset := by
  rw [nextOffset, Ring.next, Nat.mod_eq_of_lt (by omega : offset + 1 < 65536)]

/-- Nobody left the list. -/
theorem woken_same {l : List Tid} (h : k.tlist hd = l) : Sys.woken l k hd = [] := by
  simp [Sys.woken, h]

theorem afterSend_failed {err : Err}
    (hlist : k.tlist s.mb.parent.suspendThread = s.receivers) (herr : err ≠ .eok) :
    s.afterSend t value (k, s.mb, .returned err) = { s with kernel := k } := by
  simp [Sys.afterSend, woken_same hlist, herr]

theorem afterRecv_failed {err : Err} (hlist : k.tlist s.mb.suspendSenderThread = s.senders) :
    s.afterRecv t (k, s.mb, .returned ⟨err, none⟩) = { s with kernel := k } := by
  simp [Sys.afterRecv, woken_same hlist]

/-- The first thread of a wait list is resumed, if there is one. -/
theorem resumeFirst_cases (hwf : k.WF) (hw : hd.IsWait) (hk : resumeFirst k hd = some k') :
    (k.tlist hd = [] ∧ k' = k) ∨
    ∃ t rest, k.tlist hd = t :: rest ∧ k.Wakes k' t (k.thread t).error := by
  unfold resumeFirst at hk
  split at hk
  next hne =>
    obtain ⟨t, rest, hlist⟩ := List.exists_cons_of_ne_nil hne
    obtain ⟨k1, hk1, hwk⟩ := hwf.rtIpcListResume hw hlist
    obtain rfl : k' = k1 := Option.some.inj (hk.symm.trans hk1)
    exact .inr ⟨t, rest, hlist, hwk⟩
  next hnil => exact .inl ⟨not_not.mp hnil, (Option.some.inj hk).symm⟩

/-- What resuming the first waiter does to the two sides: the side `hd` passes one thread on, the
other one stays. -/
theorem resumeFirst_spec {is is' : Call → Prop} {hd' : ListHead}
    {call : Tid → Call} {resumed resumed' : List Tid} (hwf : k.WF) (hw : hd.IsWait)
    (hw' : hd'.IsWait) (h : Side is hd k call resumed) (h' : Side is' hd' k call resumed')
    (hne : ∀ c, is c → ¬ is' c) (hk : resumeFirst k hd = some k') :
    k'.WF ∧ Side is hd k' call (resumed ++ Sys.woken (k.tlist hd) k' hd) ∧
      Side is' hd' k' call resumed' ∧ k'.tlist hd' = k.tlist hd' ∧
      (k'.tlist hd ≠ [] → k.tlist hd ≠ [] ∧ (Sys.woken (k.tlist hd) k' hd).length = 1) := by
  rcases resumeFirst_cases hwf hw hk with ⟨hnil, rfl⟩ | ⟨t, rest, hlist, hwk⟩
  · rw [woken_same rfl, List.append_nil]
    exact ⟨hwf, h, h', rfl, fun hne => absurd hnil hne⟩
  · have hmem : t ∈ k.tlist hd := by simp [hlist]
    have hwoken : Sys.woken (k.tlist hd) k' hd = [t] := hwk.filter_woken hwf hw hmem
    rw [hwoken]
    refine ⟨hwk.wf, h.resumes hwf hw hmem hwk, h'.wakes hwf hw' hwk, ?_, ?_⟩
    · rw [hwk.wait hd' hw']
      apply List.erase_of_not_mem
      intro ht
      exact hne _ (h.waiting t hmem).1 (h'.waiting t ht).1
    · exact fun _ => ⟨List.ne_nil_of_mem hmem, rfl⟩

/-! ## The critical sections -/

/-- A ready thread that is not in a call. -/
structure Free (s : Sys) (t : Tid) : Prop where
  ready : (s.kernel.thread t).stat = .ready
  notReceiver : t ∉ s.resumedReceivers
  notSender : t ∉ s.resumedSenders

theorem Free.setError (h : Free s t) (err : Err) :
    Free { s with kernel := s.kernel.setError t err } t :=
  ⟨by simpa using h.ready, h.notReceiver, h.notSender⟩

theorem Inv.mono {r w r' w' : Nat} (h : Inv s r w) (hr : r ≤ r') (hw : w ≤ w') :
    Inv s r' w' where
  wf := h.wf
  size := h.size
  ring := h.ring
  recvSide := h.recvSide
  sendSide := h.sendSide
  mails hne := (h.mails hne).trans (by omega)
  slots hne := (h.slots hne).trans (by omega)

/-- The error number of a free thread is nobody's business. -/
theorem Inv.setError {r w : Nat} (h : Inv s r w) (hfree : Free s t) (err : Err) :
    Inv { s with kernel := s.kernel.setError t err } r w where
  wf := h.wf.setError t err
  size := h.size
  ring := h.ring
  recvSide := h.recvSide.edits rfl (fun _ hu => Kernel.setThread_of_ne _ _ hu)
    (h.wf.notMem_wait hfree.ready (receivers_isWait s.mb)) hfree.notReceiver
  sendSide := h.sendSide.edits rfl (fun _ hu => Kernel.setThread_of_ne _ _ hu)
    (h.wf.notMem_wait hfree.ready (senders_isWait s.mb)) hfree.notSender
  mails := h.mails
  slots := h.slots

/-- A sender begins to wait, at a full mailbox. -/
theorem Inv.send_blocks {w : Nat} (h : Inv s 0 w)
    (hfree : Free s t) (herr : (s.kernel.thread t).error = .eok) (hfull : s.mb.entry = s.mb.size)
    (hsus : s.kernel.Suspends k' t s.mb.suspendSenderThread s.mb.parent.flag) :
    Inv (s.afterSend t value (k', s.mb, .blocked timeout tickDelta)) 0 0 := by
  have hsame : k'.tlist s.mb.parent.suspendThread = s.receivers :=
    hsus.other _ (receivers_isWait s.mb) nofun
  simp only [Sys.afterSend, woken_same hsame, List.append_nil]
  refine ⟨hsus.wf, h.size, h.ring, ?_, h.sendSide.suspends hsus herr trivial hfree.notSender,
    fun hne => h.mails (hsame ▸ hne), fun _ => by simp [hfull]⟩
  exact h.recvSide.suspends_other h.wf (receivers_isWait s.mb) hfree.ready hsus nofun hfree.notReceiver

/-- A receiver begins to wait, at an empty mailbox. -/
theorem Inv.recv_blocks {r : Nat} (h : Inv s r 0)
    (hfree : Free s t) (herr : (s.kernel.thread t).error = .eok) (hempty : s.mb.entry = 0)
    (hsus : s.kernel.Suspends k' t s.mb.parent.suspendThread s.mb.parent.flag) :
    Inv (s.afterRecv t (k', s.mb, .blocked timeout tickDelta)) 0 0 := by
  have hsame : k'.tlist s.mb.suspendSenderThread = s.senders :=
    hsus.other _ (senders_isWait s.mb) nofun
  simp only [Sys.afterRecv, woken_same hsame, List.append_nil]
  refine ⟨hsus.wf, h.size, h.ring, h.recvSide.suspends hsus herr trivial hfree.notReceiver, ?_,
    fun _ => by simp [hempty], fun hne => h.slots (hsame ▸ hne)⟩
  exact h.sendSide.suspends_other h.wf (senders_isWait s.mb) hfree.ready hsus nofun hfree.notSender

/-- A mail is put into a free slot: one of the free slots is gone, and a waiting receiver, if
there is one, is on its way to the new mail. -/
theorem Inv.enqueue (h : Inv s 0 1) (hroom : s.mb.entry ≠ s.mb.size)
    (hk : resumeFirst s.kernel s.mb.parent.suspendThread = some k') (t : Tid) :
    Inv (s.afterSend t value (k', { s.mb with
      msgPool := update s.mb.msgPool s.mb.inOffset value
      inOffset := nextOffset s.mb.size s.mb.inOffset
      entry := (s.mb.entry + 1) % 65536 }, .returned .eok)) 0 0 := by
  obtain ⟨queue, hqueue, hring⟩ := h.ring
  have hsize := h.size
  have hlt : s.mb.entry < s.mb.size := Nat.lt_of_le_of_ne hring.le hroom
  have hin : s.mb.inOffset < s.mb.size := by
    rw [hring.in_eq]
    exact Nat.mod_lt _ (by omega)
  have hentry : (s.mb.entry + 1) % 65536 = s.mb.entry + 1 := Nat.mod_eq_of_lt (by omega)
  obtain ⟨hwf, hrecv, hsend, hsenders, hwoken⟩ := resumeFirst_spec h.wf (receivers_isWait s.mb)
    (senders_isWait s.mb) h.recvSide h.sendSide (fun _ hc hc' => hc'.not_isRecv hc) hk
  rw [nextOffset_eq hsize hin, hentry]
  constructor
  · exact hwf
  · exact hsize
  · refine ⟨queue ++ [value], ?_, hring.push hlt value⟩
    simp [Sys.afterSend, hqueue]
  · exact hrecv
  · exact hsend
  · intro hne
    obtain ⟨hne, hone⟩ := hwoken hne
    have hmails := h.mails hne
    simp only [Sys.afterSend, if_true, List.length_append, Sys.receivers]
    omega
  · intro hne
    have hslots := h.slots (by rwa [Sys.senders, ← hsenders])
    simp only [Sys.afterSend, if_true]
    omega

/-- A mail is taken: one mail is gone, and a waiting sender, if there is one, is on its way to
the new slot. -/
theorem Inv.dequeue (h : Inv s 1 0) (hmail : s.mb.entry ≠ 0)
    (hk : resumeFirst s.kernel s.mb.suspendSenderThread = some k') (t : Tid) :
    Inv (s.afterRecv t (k', { s.mb with
      outOffset := nextOffset s.mb.size s.mb.outOffset
      entry := s.mb.entry - 1 }, .returned ⟨.eok, some (s.mb.msgPool s.mb.outOffset)⟩)) 0 0 := by
  obtain ⟨queue, hqueue, hring⟩ := h.ring
  have hsize := h.size
  have hle := hring.le
  have hout : s.mb.outOffset < s.mb.size := hring.out_lt (by omega)
  obtain ⟨hwf, hsend, hrecv, hreceivers, hwoken⟩ := resumeFirst_spec h.wf (senders_isWait s.mb)
    (receivers_isWait s.mb) h.sendSide h.recvSide (fun _ hc => hc.not_isRecv) hk
  obtain ⟨n, hn⟩ := Nat.exists_eq_succ_of_ne_zero hmail
  rw [hn] at hring
  obtain ⟨rest, hcons, hring⟩ := hring.pop
  rw [nextOffset_eq hsize hout, hn, Nat.succ_sub_one]
  constructor
  · exact hwf
  · exact hsize
  · refine ⟨rest, ?_, hring⟩
    simp [Sys.afterRecv, hqueue, hcons]
  · exact hrecv
  · exact hsend
  · intro hne
    have hmails := h.mails (by rwa [Sys.receivers, ← hreceivers])
    simp only [Sys.afterRecv]
    omega
  · intro hne
    obtain ⟨hne, hone⟩ := hwoken hne
    have hslots := h.slots hne
    simp only [Sys.afterRecv, List.length_append, Sys.senders]
    omega

/-- The loop of a send by a thread that is free, if it has to wait. -/
theorem Inv.rtMbSendLoop
    {r : Kernel × Mailbox × Outcome Err} (h : Inv s 0 1) (hfree : s.mb.entry = s.mb.size → Free s t)
    (hr : rtMbSendLoop s.kernel s.mb t value timeout tickDelta = some r) :
    Inv (s.afterSend t value r) 0 0 := by
  unfold Mailbox.rtMbSendLoop at hr
  split at hr
  next hfull =>
    have hfree := hfree hfull
    have herr := h.setError hfree .eok
    split at hr
    next htimeout =>
      cases hr
      rw [afterSend_failed (by rfl) (by simp)]
      exact { herr with slots := fun _ => by simp [hfull] }
    next htimeout =>
      obtain ⟨k', hk', ⟨⟩⟩ := bind_eq_some_iff.mp hr
      have hready := hfree.setError .eok
      have hsus := herr.wf.block hready.ready (senders_isWait s.mb) hk'
      exact herr.send_blocks hready (by simp) hfull hsus
  next hroom =>
    obtain ⟨k', hk', ⟨⟩⟩ := bind_eq_some_iff.mp hr
    exact h.enqueue hroom hk' t

theorem Inv.rtMbRecvLoop
    (h : Inv s 1 0) (hfree : s.mb.entry = 0 → Free s t)
    (hr : rtMbRecvLoop s.kernel s.mb t timeout tickDelta = some r) : Inv (s.afterRecv t r) 0 0 := by
  unfold Mailbox.rtMbRecvLoop at hr
  split at hr
  next hempty =>
    have hfree := hfree hempty
    have herr := h.setError hfree .eok
    have hready := hfree.setError .eok
    split at hr
    next htimeout =>
      cases hr
      rw [afterRecv_failed (by rfl)]
      exact { herr.setError hready .etimeout with mails := fun _ => by simp [hempty] }
    next htimeout =>
      obtain ⟨k', hk', ⟨⟩⟩ := bind_eq_some_iff.mp hr
      have hsus := herr.wf.block hready.ready (receivers_isWait s.mb) hk'
      exact herr.recv_blocks hready (by simp) hempty hsus
  next hmail =>
    obtain ⟨k', hk', ⟨⟩⟩ := bind_eq_some_iff.mp hr
    exact h.dequeue hmail hk' t

/-! ## Steps and runs -/

theorem Inv.free_of_idle {r w : Nat} (h : Inv s r w)
    (hready : (s.kernel.thread t).stat = .ready) (hidle : s.call t = .idle) : Free s t where
  ready := hready
  notReceiver ht := by simpa [hidle, Call.IsRecv] using (h.recvSide.onWay t ht).1
  notSender ht := by simpa [hidle, Call.IsSend] using (h.sendSide.onWay t ht).1

theorem Inv.free_leave {r w : Nat} (h : Inv s r w)
    (hready : (s.kernel.thread t).stat = .ready) : Free (s.leave t) t where
  ready := hready
  notReceiver := h.recvSide.nodup.not_mem_erase
  notSender := h.sendSide.nodup.not_mem_erase

/-- A thread runs again: it may have been on its way on one of the two sides. -/
theorem Inv.leave {r w : Nat} (h : Inv s 0 0) (hready : (s.kernel.thread t).stat = .ready)
    (hr : s.resumedReceivers.length ≤ (s.resumedReceivers.erase t).length + r)
    (hw : s.resumedSenders.length ≤ (s.resumedSenders.erase t).length + w) :
    Inv (s.leave t) r w where
  wf := h.wf
  size := h.size
  ring := h.ring
  recvSide := h.recvSide.leave (h.wf.notMem_wait hready (receivers_isWait s.mb))
  sendSide := h.sendSide.leave (h.wf.notMem_wait hready (senders_isWait s.mb))
  mails hne := (h.mails hne).trans hr
  slots hne := (h.slots hne).trans hw

theorem length_le_length_erase (l : List Tid) (t : Tid) : l.length ≤ (l.erase t).length + 1 := by
  rw [List.length_erase]
  split <;> omega

theorem Inv.rtMbSendResume
    {r : Kernel × Mailbox × Outcome Err} (h : Inv s 0 0)
    (hready : (s.kernel.thread t).stat = .ready) (hcall : (s.call t).IsSend)
    (hr : rtMbSendResume s.kernel s.mb t value timeout tickDelta = some r) :
    Inv ((s.leave t).afterSend t value r) 0 0 := by
  have hnot : t ∉ s.resumedReceivers := fun ht =>
    hcall.not_isRecv (h.recvSide.onWay t ht).1
  have hrecv : s.resumedReceivers.length ≤ (s.resumedReceivers.erase t).length := by
    rw [List.erase_of_not_mem hnot]
  unfold Mailbox.rtMbSendResume at hr
  split at hr
  next herr =>
    -- a call that ends with an error was not resumed by a receive
    cases hr
    have hnot : t ∉ s.resumedSenders := fun ht => herr (h.sendSide.onWay t ht).2.2
    have hsame : (s.leave t).afterSend t value (s.kernel, s.mb, .returned _) = s.leave t :=
      afterSend_failed rfl herr
    rw [hsame]
    exact h.leave hready hrecv (by simp [List.erase_of_not_mem hnot])
  next herr =>
    exact (h.leave hready hrecv (length_le_length_erase _ t)).rtMbSendLoop
      (fun _ => h.free_leave hready) hr

theorem Inv.rtMbRecvResume
    (h : Inv s 0 0) (hready : (s.kernel.thread t).stat = .ready) (hcall : (s.call t).IsRecv)
    (hr : rtMbRecvResume s.kernel s.mb t timeout tickDelta = some r) :
    Inv ((s.leave t).afterRecv t r) 0 0 := by
  have hnot : t ∉ s.resumedSenders := fun ht =>
    (h.sendSide.onWay t ht).1.not_isRecv hcall
  have hsend : s.resumedSenders.length ≤ (s.resumedSenders.erase t).length := by
    rw [List.erase_of_not_mem hnot]
  unfold Mailbox.rtMbRecvResume at hr
  split at hr
  next herr =>
    cases hr
    have hnot : t ∉ s.resumedReceivers := fun ht => herr (h.recvSide.onWay t ht).2.2
    have hsame : (s.leave t).afterRecv t
        (s.kernel, s.mb, .returned ⟨(s.kernel.thread t).error, none⟩) = s.leave t :=
      afterRecv_failed rfl
    rw [hsame]
    exact h.leave hready (by simp [List.erase_of_not_mem hnot]) hsend
  next herr =>
    exact (h.leave hready (length_le_length_erase _ t) hsend).rtMbRecvLoop
      (fun _ => h.free_leave hready) hr

/-- A new send touches its thread only if it has to wait. -/
theorem Inv.rtMbSendWait
    {r : Kernel × Mailbox × Outcome Err} (h : Inv s 0 0) (hmay : s.MayCall t timeout)
    (hr : rtMbSendWait s.kernel s.mb t value timeout = some r) :
    Inv (s.afterSend t value r) 0 0 := by
  unfold Mailbox.rtMbSendWait at hr
  split at hr
  next hfull =>
    cases hr
    rw [afterSend_failed rfl (by simp)]
    exact h
  next hwait =>
    refine (h.mono le_rfl zero_le_one).rtMbSendLoop (fun hfull => ?_) hr
    obtain ⟨hready, hidle⟩ := hmay.resolve_left fun htimeout => hwait ⟨hfull, htimeout⟩
    exact h.free_of_idle hready hidle

theorem Inv.rtMbRecv
    (h : Inv s 0 0) (hmay : s.MayCall t timeout)
    (hr : rtMbRecv s.kernel s.mb t timeout = some r) : Inv (s.afterRecv t r) 0 0 := by
  unfold Mailbox.rtMbRecv at hr
  split at hr
  next hempty =>
    cases hr
    rw [afterRecv_failed rfl]
    exact h
  next hwait =>
    refine (h.mono zero_le_one le_rfl).rtMbRecvLoop (fun hempty => ?_) hr
    obtain ⟨hready, hidle⟩ := hmay.resolve_left fun htimeout => hwait ⟨hempty, htimeout⟩
    exact h.free_of_idle hready hidle

/-- A timer expires: its thread may leave one of the wait lists, and nothing else changes. -/
theorem Inv.expire (h : Inv s 0 0)
    (hk : s.kernel.expire t = some k') : Inv { s with kernel := k' } 0 0 := by
  have hwk := h.wf.wakes_expire hk
  have hrecv := receivers_isWait s.mb
  have hsend := senders_isWait s.mb
  refine ⟨hwk.wf, h.size, h.ring, h.recvSide.wakes h.wf hrecv hwk, h.sendSide.wakes h.wf hsend hwk,
    fun hne => h.mails fun hnil => hne ?_, fun hne => h.slots fun hnil => hne ?_⟩
  · change k'.tlist s.mb.parent.suspendThread = []
    rw [hwk.wait _ hrecv, ← Sys.receivers, hnil, List.erase_nil]
  · change k'.tlist s.mb.suspendSenderThread = []
    rw [hwk.wait _ hsend, ← Sys.senders, hnil, List.erase_nil]

theorem step_inv (s : Sys) (e : Event) (s' : Sys) (h : Inv s 0 0) (hs' : step s e = some s') :
    Inv s' 0 0 := by
  cases e with
  | send t value timeout =>
    obtain ⟨hmay, hs'⟩ := ite_none_right_eq_some.mp hs'
    obtain ⟨r, hr, rfl⟩ := map_eq_some_iff.mp hs'
    exact h.rtMbSendWait hmay hr
  | recv t timeout =>
    obtain ⟨hmay, hs'⟩ := ite_none_right_eq_some.mp hs'
    obtain ⟨r, hr, rfl⟩ := map_eq_some_iff.mp hs'
    exact h.rtMbRecv hmay hr
  | resume t =>
    obtain ⟨hready, hs'⟩ := ite_none_right_eq_some.mp hs'
    cases hcall : s.call t with
    | idle => simp [hcall] at hs'
    | send value timeout tickDelta =>
      rw [hcall] at hs'
      obtain ⟨r, hr, rfl⟩ := map_eq_some_iff.mp hs'
      exact h.rtMbSendResume hready (by rw [hcall]; trivial) hr
    | recv timeout tickDelta =>
      rw [hcall] at hs'
      obtain ⟨r, hr, rfl⟩ := map_eq_some_iff.mp hs'
      exact h.rtMbRecvResume hready (by rw [hcall]; trivial) hr
  | expire t =>
    obtain ⟨k', hk', rfl⟩ := map_eq_some_iff.mp hs'
    exact h.expire hk'
  | tick =>
    cases hs'
    exact ⟨h.wf.congr rfl rfl rfl, h.size, h.ring, ⟨h.recvSide.waiting, h.recvSide.onWay,
      h.recvSide.nodup⟩, ⟨h.sendSide.waiting, h.sendSide.onWay, h.sendSide.nodup⟩, h.mails, h.slots⟩

theorem run_inv {s' : Sys} {es : List Event} (hinit : Initial s)
    (hrun : run step s es = some s') : Inv s' 0 0 :=
  run_invariant (I := fun s => Inv s 0 0) step_inv hinit.inv hrun

/-- The mailbox is a queue: the receivers got what the senders put in, in this order, and the
rest is in the ring. -/
theorem delivered_in_order {s0 s : Sys} {es : List Event} (hinit : Initial s0)
    (hrun : run step s0 es = some s) :
    s.mb.entry ≤ s.mb.size ∧ s.mb.inOffset = (s.mb.outOffset + s.mb.entry) % s.mb.size ∧
    s.delivered <+: s.accepted ∧
    s.accepted =
      s.delivered ++ Ring.contents s.mb.msgPool s.mb.size s.mb.outOffset s.mb.entry := by
  obtain ⟨queue, hqueue, hring⟩ := (run_inv hinit hrun).ring
  refine ⟨hring.le, hring.in_eq, ⟨queue, hqueue.symm⟩, ?_⟩
  rw [hring.contents, hqueue]

/-- A mailbox with two slots and three ready threads. -/
def twoSlots : Sys where
  kernel := Kernel.bootThreads (fun _ => 10) [0, 1, 2]
  mb := rtMbInit 0 (fun _ => 0) 2 .fifo
  call := fun _ => .idle
  accepted := []
  delivered := []
  resumedReceivers := []
  resumedSenders := []

theorem twoSlots_initial : Initial twoSlots where
  wf := Kernel.bootThreads_wf (fun _ => 10) [0, 1, 2]
  mb := ⟨0, fun _ => 0, 2, .fifo, rfl⟩
  receivers := rfl
  senders := rfl
  call _ := rfl
  accepted := rfl
  delivered := rfl
  resumedReceivers := rfl
  resumedSenders := rfl

/-- Thread 2 takes the mail that thread 1 was resumed for; thread 1 waits once more and gets the
next one. -/
def stolen : List Event :=
  [.recv 1 (-1), .send 0 7 0, .recv 2 0, .resume 1, .send 0 8 0, .send 0 9 0, .resume 1]

theorem delivered_in_order_stolen :
    ∃ s, run step twoSlots stolen = some s ∧ s.accepted = [7, 8, 9] ∧ s.delivered = [7, 8] ∧
      s.mb.entry ≤ s.mb.size ∧ s.mb.inOffset = (s.mb.outOffset + s.mb.entry) % s.mb.size ∧
      s.delivered <+: s.accepted := by
  refine run_exists (Q := fun s => s.accepted = [7, 8, 9] ∧ s.delivered = [7, 8]) (by decide +kernel) ?_
  rintro s hrun ⟨haccepted, hreceived⟩
  obtain ⟨hle, hin, hdelivered, -⟩ := delivered_in_order twoSlots_initial hrun
  exact ⟨haccepted, hreceived, hle, hin, hdelivered⟩

/-- No wake-up is lost: while a receiver waits, every mail has a receiver on its way, and while a
sender waits, every free slot has a sender on its way. -/
theorem no_lost_wakeup {s0 s : Sys} {es : List Event} (hinit : Initial s0)
    (hrun : run step s0 es = some s) :
    (s.receivers ≠ [] → s.mb.entry ≤ s.resumedReceivers.length) ∧
    (s.senders ≠ [] → s.mb.size - s.mb.entry ≤ s.resumedSenders.length) ∧
    (s.resumedReceivers.Nodup ∧ ∀ t ∈ s.resumedReceivers,
      (s.call t).IsRecv ∧ (s.kernel.thread t).stat = .ready) ∧
    (s.resumedSenders.Nodup ∧ ∀ t ∈ s.resumedSenders,
      (s.call t).IsSend ∧ (s.kernel.thread t).stat = .ready) ∧
    (s.resumedReceivers = [] → s.receivers ≠ [] → s.mb.entry = 0) ∧
    (s.resumedSenders = [] → s.senders ≠ [] → s.mb.entry = s.mb.size) := by
  have hinv := run_inv hinit hrun
  have hle := hinv.entry_le
  refine ⟨hinv.mails, hinv.slots, ⟨hinv.recvSide.nodup, fun t ht => ?_⟩,
    ⟨hinv.sendSide.nodup, fun t ht => ?_⟩, fun hnil hne => ?_, fun hnil hne => ?_⟩
  · obtain ⟨hcall, hready, -⟩ := hinv.recvSide.onWay t ht
    exact ⟨hcall, hready⟩
  · obtain ⟨hcall, hready, -⟩ := hinv.sendSide.onWay t ht
    exact ⟨hcall, hready⟩
  · have hmails := hinv.mails hne
    simp only [hnil, List.length_nil] at hmails
    omega
  · have hslots := hinv.slots hne
    simp only [hnil, List.length_nil] at hslots
    omega

/-- Two receivers wait and one mail comes. -/
def oneMail : List Event := [.recv 1 (-1), .recv 2 (-1), .send 0 7 0]

/-- Thread 2 still waits, and thread 1 is on its way to the mail. -/
theorem no_lost_wakeup_oneMail :
    ∃ s, run step twoSlots oneMail = some s ∧ s.receivers = [2] ∧ s.mb.entry = 1 ∧
      s.resumedReceivers = [1] ∧ s.mb.entry ≤ s.resumedReceivers.length := by
  refine run_exists (Q := fun s => s.receivers = [2] ∧ s.mb.entry = 1 ∧ s.resumedReceivers = [1])
    (by decide +kernel) ?_
  rintro s hrun ⟨hwait, hentry, hresumed⟩
  obtain ⟨hmails, -⟩ := no_lost_wakeup twoSlots_initial hrun
  exact ⟨hwait, hentry, hresumed, hmails (by simp [hwait])⟩

end RtThread.Mailbox
