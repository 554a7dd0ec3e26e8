-- SUMMARY: The ready-queue invariant and its preservation.
import ZigbeeGateway.Kernel.Thread

/-!
# The ready-queue invariant

Every kernel function takes one thread out of the lists, edits its object, and puts
it back. `WFOut k out` is the invariant of the kernel while the thread `out` is taken
out: it is in no list and nothing is said about its object. `WF` is the invariant
with no thread taken out. The lemmas of this file are one rule for taking a thread
out, one for editing it and one for each way of putting it back; the functions are
chains of these rules.
-/

namespace RtThread

/-- What a list head says about the threads linked in its list. -/
def ListHead.Holds : ListHead → Thread → Prop
  | .priorityTable p, th => th.stat = .ready ∧ th.currentPriority = p
  | .defunct, th => th.stat = .close
  | .suspendThread _, th => th.stat = .suspend
  | .suspendSenderThread _, th => th.stat = .suspend

/-- The wait lists of IPC objects. -/
def ListHead.IsWait : ListHead → Prop
  | .priorityTable _ => False
  | .defunct => False
  | .suspendThread _ => True
  | .suspendSenderThread _ => True

/-- `number_mask` is the bit of `current_priority`. -/
def Thread.MaskOk (th : Thread) : Prop := th.numberMask = 1#32 <<< th.currentPriority

theorem Thread.MaskOk.eq {th : Thread} (h : th.MaskOk) : th.numberMask = 1#32 <<< th.currentPriority :=
  h

/-- The fields of a thread object that the scheduler relies on. Nothing sets `number_mask`
before `rt_thread_startup`, and a thread may be closed without it. -/
structure Thread.WF (th : Thread) : Prop where
  mask : th.stat = .ready ∨ th.stat = .suspend → th.MaskOk
  currentPriority : th.currentPriority < 32
  initPriority : th.initPriority < 32

namespace Kernel

structure WFOut (k : Kernel) (out : Option Tid) : Prop where
  exclusive : Lanes.Exclusive k.tlist
  unlinked : ∀ t ∈ out, ∀ h, t ∉ k.tlist h
  linked : ∀ {h t}, t ∈ k.tlist h → h.Holds (k.thread t)
  ready : ∀ {t}, t ∉ out → (k.thread t).stat = .ready →
    t ∈ k.tlist (.priorityTable (k.thread t).currentPriority)
  group : ∀ p < 32, k.rtThreadReadyPriorityGroup.getLsbD p = true ↔
    k.tlist (.priorityTable p) ≠ []
  thread : ∀ {t}, t ∉ out → (k.thread t).WF

/-- The ready-queue invariant. -/
abbrev WF (k : Kernel) : Prop := WFOut k none

abbrev setError (k : Kernel) (t : Tid) (err : Err) : Kernel :=
  k.setThread t { k.thread t with error := err }

variable {k : Kernel} {t u : Tid} {out : Option Tid}

section Fields

variable (k t) (th : Thread) (h : ListHead)

theorem setThread_thread : (k.setThread t th).thread = Function.update k.thread t th := rfl
@[simp] theorem setThread_same : (k.setThread t th).thread t = th := Function.update_self ..
@[simp] theorem setThread_tlist : (k.setThread t th).tlist = k.tlist := rfl
@[simp] theorem setThread_threadTimer : (k.setThread t th).threadTimer = k.threadTimer := rfl
@[simp] theorem setThread_group :
    (k.setThread t th).rtThreadReadyPriorityGroup = k.rtThreadReadyPriorityGroup := rfl
@[simp] theorem rtListRemove_thread : (k.rtListRemove t).thread = k.thread := rfl
@[simp] theorem rtListRemove_tlist : (k.rtListRemove t).tlist = Lanes.remove k.tlist t := rfl
@[simp] theorem rtListRemove_group :
    (k.rtListRemove t).rtThreadReadyPriorityGroup = k.rtThreadReadyPriorityGroup := rfl

theorem setThread_setThread (th' : Thread) :
    (k.setThread t th).setThread t th' = k.setThread t th' := by
  simp [setThread]

variable {t} in
theorem setThread_of_ne (hu : u ≠ t) : (k.setThread t th).thread u = k.thread u :=
  Function.update_of_ne hu ..

@[simp] theorem rtScheduleRemoveThread_thread : (k.rtScheduleRemoveThread t).thread = k.thread := by
  unfold rtScheduleRemoveThread
  dsimp only
  split <;> rfl

@[simp] theorem rtScheduleRemoveThread_tlist :
    (k.rtScheduleRemoveThread t).tlist = Lanes.remove k.tlist t := by
  unfold rtScheduleRemoveThread
  dsimp only
  split <;> rfl

theorem rtScheduleRemoveThread_current :
    (k.rtScheduleRemoveThread t).rtCurrentThread = k.rtCurrentThread := by
  unfold rtScheduleRemoveThread
  dsimp only
  split <;> rfl

theorem rtScheduleInsertThread_tlist :
    (k.rtScheduleInsertThread t).tlist =
      Lanes.put k.tlist (.priorityTable (k.thread t).currentPriority)
        (k.tlist (.priorityTable (k.thread t).currentPriority) ++ [t]) := by
  simp [rtScheduleInsertThread, rtListInsertBefore]

@[simp] theorem rtScheduleRemoveThread_threadTimer :
    (k.rtScheduleRemoveThread t).threadTimer = k.threadTimer := by
  unfold rtScheduleRemoveThread
  dsimp only
  split <;> rfl

end Fields

/-- The order of the two does not matter, as long as the priority stays. -/
theorem rtScheduleRemoveThread_setThread {th : Thread}
    (hp : th.currentPriority = (k.thread t).currentPriority)
    (hm : th.numberMask = (k.thread t).numberMask) :
    (k.setThread t th).rtScheduleRemoveThread t = (k.rtScheduleRemoveThread t).setThread t th := by
  by_cases hempty : Lanes.remove k.tlist t (.priorityTable (k.thread t).currentPriority) = []
  all_goals
    simp only [rtScheduleRemoveThread, rtListRemove_tlist, rtListRemove_thread, setThread_same,
      setThread_tlist, hp, hm, hempty, if_true, if_false]
    rfl

theorem getLsbD_mask {p q : Nat} (hq : q < 32) : (1#32 <<< p).getLsbD q = decide (q = p) := by
  grind

theorem getLsbD_clear_mask {g : BitVec 32} {p q : Nat} (hq : q < 32) :
    (g &&& ~~~(1#32 <<< p)).getLsbD q = (g.getLsbD q && !decide (q = p)) := by
  rw [BitVec.getLsbD_and, BitVec.getLsbD_not, getLsbD_mask hq, decide_eq_true hq, Bool.true_and]

/-! ## Taking a thread out -/

namespace WFOut

variable {k' : Kernel}

theorem congr (h : WFOut k out) (hthread : k'.thread = k.thread) (htlist : k'.tlist = k.tlist)
    (hgroup : k'.rtThreadReadyPriorityGroup = k.rtThreadReadyPriorityGroup) : WFOut k' out := by
  constructor
  · rw [htlist]; exact h.exclusive
  · rw [htlist]; exact h.unlinked
  · rw [htlist, hthread]; exact h.linked
  · rw [htlist, hthread]; exact h.ready
  · rw [htlist, hgroup]; exact h.group
  · rw [hthread]; exact h.thread

theorem notMem_table (h : WFOut k out) {p : Nat}
    (hp : (k.thread t).stat ≠ .ready ∨ (k.thread t).currentPriority ≠ p) :
    t ∉ k.tlist (.priorityTable p) := by
  intro hmem
  obtain ⟨hstat, hcur⟩ := h.linked hmem
  exact hp.elim (absurd hstat) (absurd hcur)

/-- A ready list that still has a thread other than `t` keeps it when `t` is removed. -/
theorem remove_table_of_ne (h : WFOut k out) {p : Nat}
    (hp : (k.thread t).stat ≠ .ready ∨ (k.thread t).currentPriority ≠ p) :
    Lanes.remove k.tlist t (.priorityTable p) = k.tlist (.priorityTable p) :=
  Lanes.remove_of_not_mem (h.notMem_table hp)

/-- The part of the invariant after a removal that does not depend on the priority group. -/
theorem of_remove (h : WF k) (hthread : k'.thread = k.thread)
    (htlist : k'.tlist = Lanes.remove k.tlist t)
    (hgroup : ∀ p < 32, k'.rtThreadReadyPriorityGroup.getLsbD p = true ↔
      Lanes.remove k.tlist t (.priorityTable p) ≠ []) : WFOut k' (some t) := by
  constructor
  · rw [htlist]
    exact h.exclusive.remove t
  · rintro u ⟨⟩ hd hmem
    rw [htlist] at hmem
    exact (h.exclusive.mem_remove.mp hmem).1 rfl
  · intro hd u hmem
    rw [htlist] at hmem
    rw [hthread]
    exact h.linked (h.exclusive.mem_remove.mp hmem).2
  · intro u hu hstat
    rw [hthread] at hstat ⊢
    rw [htlist]
    exact h.exclusive.mem_remove.mpr ⟨by grind, h.ready (by simp) hstat⟩
  · rw [htlist]
    exact hgroup
  · intro u _
    rw [hthread]
    exact h.thread (by simp)

theorem rtScheduleRemoveThread (h : WF k) (hmask : (k.thread t).MaskOk) :
    WFOut (k.rtScheduleRemoveThread t) (some t) := by
  refine of_remove h (rtScheduleRemoveThread_thread k t) (rtScheduleRemoveThread_tlist k t) ?_
  intro p hp
  rw [Kernel.rtScheduleRemoveThread, rtListRemove_tlist, rtListRemove_thread]
  by_cases hcur : (k.thread t).currentPriority = p
  · subst hcur
    split
    next hempty =>
      -- the last thread of the list leaves: its bit is cleared
      rw [hmask.eq, getLsbD_clear_mask hp]
      simp [hempty]
    next hne =>
      have hne' : k.tlist (.priorityTable (k.thread t).currentPriority) ≠ [] := by
        intro hnil
        simp [Lanes.remove, hnil] at hne
      simpa [hne, hne'] using h.group _ hp
  · -- no other list changes, and the mask does not touch their bits
    rw [h.remove_table_of_ne (.inr hcur), ← h.group p hp]
    split
    · rw [hmask.eq, getLsbD_clear_mask hp]
      simp [Ne.symm hcur]
    · rfl

theorem rtListRemove (h : WF k) (hstat : (k.thread t).stat ≠ .ready) :
    WFOut (k.rtListRemove t) (some t) := by
  refine of_remove h rfl rfl fun p hp => ?_
  rw [h.remove_table_of_ne (.inl hstat)]
  exact h.group p hp

/-- A thread that is in no list is out already. -/
theorem of_unlinked (h : WF k) (hfree : ∀ hd, t ∉ k.tlist hd) : WFOut k (some t) := by
  constructor
  · exact h.exclusive
  · rintro u ⟨⟩
    exact hfree
  · exact h.linked
  · intro u _
    exact h.ready (by simp)
  · exact h.group
  · intro u _
    exact h.thread (by simp)

/-! ## Editing it and putting it back -/

variable (h : WFOut k (some t))

include h

theorem setThread (th : Thread) : WFOut (k.setThread t th) (some t) := by
  have hne : ∀ {u}, u ∉ some t → (k.setThread t th).thread u = k.thread u :=
    fun hu => setThread_of_ne k th (by grind)
  constructor
  · exact h.exclusive
  · exact h.unlinked
  · intro hd u hmem
    rw [hne fun hu => h.unlinked u hu hd hmem]
    exact h.linked hmem
  · intro u hu
    rw [hne hu]
    exact h.ready hu
  · exact h.group
  · intro u hu
    rw [hne hu]
    exact h.thread hu

/-- A thread that is not ready may stay out of every list. -/
theorem leave (hstat : (k.thread t).stat ≠ .ready) (hth : (k.thread t).WF) : WF k := by
  constructor
  · exact h.exclusive
  · simp
  · exact h.linked
  · intro u _ hu
    exact h.ready (by grind) hu
  · exact h.group
  · intro u _
    by_cases hut : u = t
    · exact hut ▸ hth
    · exact h.thread (by grind)

/-- Linking the thread into a list that says the truth about it, at any place of the list. -/
theorem of_link {hd : ListHead} {l : List Tid}
    (hl : l.Perm (t :: k.tlist hd)) (hholds : hd.Holds (k.thread t)) (hth : (k.thread t).WF)
    (hthread : k'.thread = k.thread) (htlist : k'.tlist = Lanes.put k.tlist hd l)
    (hgroup : ∀ p < 32, k'.rtThreadReadyPriorityGroup.getLsbD p = true ↔
      Lanes.put k.tlist hd l (.priorityTable p) ≠ []) : WF k' := by
  have hmem : ∀ {hd' u}, u ∈ k'.tlist hd' ↔ (hd' = hd ∧ u = t) ∨ u ∈ k.tlist hd' := by
    intro hd' u
    rw [htlist]
    exact Lanes.mem_put_of_perm hl
  constructor
  · rw [htlist]
    exact h.exclusive.put (h.unlinked t rfl) hl
  · simp
  · intro hd' u hu
    rw [hthread]
    rcases hmem.mp hu with ⟨rfl, rfl⟩ | hu
    · exact hholds
    · exact h.linked hu
  · intro u _ hstat
    rw [hthread] at hstat ⊢
    apply hmem.mpr
    by_cases hut : u = t
    · subst hut
      cases hd with
      | priorityTable p => exact .inl ⟨by rw [hholds.2], rfl⟩
      | defunct | suspendThread | suspendSenderThread => cases hstat.symm.trans hholds
    · exact .inr (h.ready (by grind) hstat)
  · rw [htlist]
    exact hgroup
  · intro u _
    rw [hthread]
    by_cases hut : u = t
    · exact hut ▸ hth
    · exact h.thread (by grind)

/-- Linking the thread into a list that is not a ready list. -/
theorem link {hd : ListHead} {l : List Tid}
    (hl : l.Perm (t :: k.tlist hd)) (hholds : hd.Holds (k.thread t)) (hth : (k.thread t).WF)
    (hstat : (k.thread t).stat ≠ .ready) : WF { k with tlist := Lanes.put k.tlist hd l } := by
  refine h.of_link hl hholds hth rfl rfl fun p hp => ?_
  rw [Lanes.put_of_ne]
  · exact h.group p hp
  · rintro rfl
    exact hstat hholds.1

theorem rtScheduleInsertThread (hmask : (k.thread t).MaskOk)
    (hcur : (k.thread t).currentPriority < 32) (hinit : (k.thread t).initPriority < 32) :
    WF (k.rtScheduleInsertThread t) := by
  have hready := h.setThread { k.thread t with stat := .ready }
  refine hready.of_link (List.perm_append_singleton t (k.tlist (.priorityTable (k.thread t).currentPriority)))
    ?_ ?_ rfl ?_ fun p hp => ?_
  · rw [setThread_same]
    exact ⟨rfl, rfl⟩
  · rw [setThread_same]
    exact ⟨fun _ => hmask, hcur, hinit⟩
  · exact k.rtScheduleInsertThread_tlist t
  · have hgroup : (k.rtScheduleInsertThread t).rtThreadReadyPriorityGroup =
        k.rtThreadReadyPriorityGroup ||| 1#32 <<< (k.thread t).currentPriority := by
      simp [Kernel.rtScheduleInsertThread, rtListInsertBefore, hmask.eq]
    rw [hgroup, BitVec.getLsbD_or, getLsbD_mask hp, setThread_tlist]
    by_cases hpc : p = (k.thread t).currentPriority
    · simp [hpc]
    · rw [Lanes.put_of_ne _ _ (by simpa using hpc)]
      simpa [hpc] using h.group p hp

end WFOut

/-! ## The functions of thread.c -/

theorem WF.mask (h : WF k) (hstat : (k.thread t).stat = .ready ∨ (k.thread t).stat = .suspend) :
    (k.thread t).MaskOk :=
  (h.thread (by simp)).mask hstat

theorem WF.currentPriority (h : WF k) (t : Tid) : (k.thread t).currentPriority < 32 :=
  (h.thread (by simp)).currentPriority

theorem WF.initPriority (h : WF k) (t : Tid) : (k.thread t).initPriority < 32 :=
  (h.thread (by simp)).initPriority

theorem rtThreadSuspend_of_ready (hstat : (k.thread t).stat = .ready) :
    k.rtThreadSuspend t =
      ((k.rtScheduleRemoveThread t).setThread t { k.thread t with stat := .suspend }, .eok) := by
  rw [rtThreadSuspend, if_neg (not_not.mpr hstat)]
  exact congrArg (·, Err.eok) (rtScheduleRemoveThread_setThread rfl rfl)

/-- A thread taken out of the ready queue to wait. -/
theorem WF.suspended (h : WF k) (hstat : (k.thread t).stat = .ready) :
    WFOut (k.rtThreadSuspend t).1 (some t) := by
  rw [rtThreadSuspend_of_ready hstat]
  exact (WFOut.rtScheduleRemoveThread h (h.mask (by simp [hstat]))).setThread _

/-- Editing a thread where it is linked. Only its ready list depends on the priority. -/
theorem WF.setThread (h : WF k) {th : Thread} (hstat : th.stat = (k.thread t).stat)
    (hcur : th.stat = .ready → th.currentPriority = (k.thread t).currentPriority)
    (hth : th.WF) : WF (k.setThread t th) := by
  have hsame : ∀ u, ((k.setThread t th).thread u).stat = (k.thread u).stat ∧
      ((k.thread u).stat = .ready →
        ((k.setThread t th).thread u).currentPriority = (k.thread u).currentPriority) := by
    intro u
    by_cases hut : u = t
    · subst hut
      rw [setThread_same]
      exact ⟨hstat, fun hready => hcur (hstat.trans hready)⟩
    · simp [setThread_of_ne k th hut]
  constructor
  · exact h.exclusive
  · exact h.unlinked
  · intro hd u hmem
    have hold := h.linked hmem
    cases hd with
    | priorityTable p => exact ⟨(hsame u).1.trans hold.1, ((hsame u).2 hold.1).trans hold.2⟩
    | defunct | suspendThread | suspendSenderThread => exact (hsame u).1.trans hold
  · intro u hu hready
    rw [(hsame u).1] at hready
    rw [(hsame u).2 hready]
    exact h.ready hu hready
  · exact h.group
  · intro u hu
    by_cases hut : u = t
    · subst hut
      rwa [setThread_same]
    · rw [setThread_of_ne k th hut]
      exact h.thread hu

/-- Editing fields of a thread that the invariant does not mention. -/
theorem WF.setThread_of_same (h : WF k) {th : Thread} (hstat : th.stat = (k.thread t).stat)
    (hcur : th.currentPriority = (k.thread t).currentPriority)
    (hinit : th.initPriority = (k.thread t).initPriority)
    (hmask : th.numberMask = (k.thread t).numberMask) : WF (k.setThread t th) := by
  refine h.setThread hstat (fun _ => hcur) ⟨?_, ?_, ?_⟩
  · rw [hstat, Thread.MaskOk, hmask, hcur]
    exact h.mask
  · rw [hcur]
    exact h.currentPriority t
  · rw [hinit]
    exact h.initPriority t

theorem WF.rtThreadSuspend (h : WF k) (t : Tid) : WF (k.rtThreadSuspend t).1 := by
  by_cases hstat : (k.thread t).stat = .ready
  · have hout := h.suspended hstat
    have hmask := h.mask (t := t) (by simp [hstat])
    rw [rtThreadSuspend_of_ready hstat] at hout ⊢
    refine hout.leave (by simp) ?_
    rw [setThread_same]
    exact ⟨fun _ => hmask, h.currentPriority t, h.initPriority t⟩
  · rw [Kernel.rtThreadSuspend, if_pos hstat]
    exact h

theorem WF.rtThreadResume (h : WF k) (t : Tid) : WF (k.rtThreadResume t).1 := by
  unfold Kernel.rtThreadResume
  split
  · exact h
  next hstat =>
    have hstat := not_not.mp hstat
    have hout : WFOut { k.rtListRemove t with
        threadTimer := ((k.rtListRemove t).threadTimer.rtTimerStop t).1 } (some t) :=
      (WFOut.rtListRemove h (by simp [hstat])).congr rfl rfl rfl
    exact hout.rtScheduleInsertThread (h.mask (by simp [hstat])) (h.currentPriority t)
      (h.initPriority t)

variable {k' : Kernel}

theorem WF.rtThreadTimeout (h : WF k) (hk : k.rtThreadTimeout t = some k') : WF k' := by
  obtain ⟨hstat, ⟨⟩⟩ := rtAssert_bind_eq_some.mp hk
  have herr : WF (k.setThread t { k.thread t with error := .etimeout }) :=
    h.setThread_of_same rfl rfl rfl rfl
  have hout := WFOut.rtListRemove (t := t) herr (by simp [hstat])
  refine hout.rtScheduleInsertThread ?_ ?_ ?_
  · simpa [Thread.MaskOk] using (h.mask (.inr hstat)).eq
  · simpa using h.currentPriority t
  · simpa using h.initPriority t

theorem expire_eq_some (hk : k.expire t = some k') :
    ∃ k1 timers, k.rtThreadTimeout t = some k1 ∧ t ∈ k.threadTimer.timerList ∧
      k' = { k1 with threadTimer := timers } := by
  obtain ⟨hmem, hk⟩ := rtAssert_bind_eq_some.mp hk
  obtain ⟨k1, hto, hk⟩ := Option.bind_eq_some_iff.mp hk
  obtain ⟨timers, -, ⟨⟩⟩ := Option.bind_eq_some_iff.mp hk
  obtain ⟨hstat, ⟨⟩⟩ := rtAssert_bind_eq_some.mp hto
  exact ⟨_, timers, rtAssert_bind_eq_some.mpr ⟨hstat, rfl⟩, hmem, rfl⟩

theorem WF.expire (h : WF k) (hk : k.expire t = some k') : WF k' := by
  obtain ⟨k1, timers, hto, -, rfl⟩ := expire_eq_some hk
  exact (h.rtThreadTimeout hto).congr rfl rfl rfl

theorem WF.unlinked_of_init (h : WF k) (hstat : (k.thread t).stat = .init) (hd : ListHead) :
    t ∉ k.tlist hd := by
  intro hmem
  have hholds := h.linked hmem
  cases hd <;> simp [ListHead.Holds, hstat] at hholds

theorem WF.rtThreadStartup {b : Bool} (h : WF k)
    (hk : k.rtThreadStartup t = some (k', b)) : WF k' := by
  obtain ⟨hstat, ⟨⟩⟩ := rtAssert_bind_eq_some.mp hk
  -- a thread that was never started is in no list, so its object may be edited
  have hout := WFOut.of_unlinked h (h.unlinked_of_init hstat)
  refine WF.rtThreadResume ?_ t
  refine (((hout.setThread _).setThread _).setThread _).leave (by simp) ?_
  constructor <;> simp [Thread.MaskOk, h.initPriority t]

theorem WF.rtThreadYield (h : WF k) (t : Tid) : WF (k.rtThreadYield t).1 := by
  unfold Kernel.rtThreadYield
  dsimp only
  split
  next hif =>
    obtain ⟨hstat, hlen⟩ := hif
    have hmem := h.ready (by simp) hstat
    have hgroup : ∀ p < 32, k.rtThreadReadyPriorityGroup.getLsbD p = true ↔
        Lanes.remove k.tlist t (.priorityTable p) ≠ [] := by
      intro p hp
      rw [h.group p hp]
      by_cases hcur : (k.thread t).currentPriority = p
      · subst hcur
        have hlen' := List.length_erase_of_mem hmem
        constructor <;> intro _ hnil
        · rw [Lanes.remove] at hnil
          simp [hnil] at hlen'
          omega
        · simp [hnil] at hmem
      · rw [h.remove_table_of_ne (.inr hcur)]
    have hout : WFOut (k.rtListRemove t) (some t) := WFOut.of_remove h rfl rfl hgroup
    have hholds : (ListHead.priorityTable (k.thread t).currentPriority).Holds (k.thread t) :=
      ⟨hstat, rfl⟩
    refine hout.of_link (List.perm_append_singleton t _) hholds (h.thread (by simp)) rfl rfl ?_
    intro p hp
    by_cases hcur : p = (k.thread t).currentPriority
    · subst hcur
      exact iff_of_true ((h.group _ hp).mpr (List.ne_nil_of_mem hmem)) (by simp)
    · rw [Lanes.put_of_ne _ _ (by simpa using hcur)]
      exact hout.group p hp
  · exact h

theorem WF.rtThreadSleep {tick : Nat} (h : WF k)
    (hk : k.rtThreadSleep t tick = some k') : WF k' := by
  obtain ⟨timers, -, ⟨⟩⟩ := Option.bind_eq_some_iff.mp hk
  exact (h.rtThreadSuspend t).congr rfl rfl rfl

theorem WF.rtThreadSleepReturn (h : WF k) (t : Tid) : WF (k.rtThreadSleepReturn t) := by
  unfold Kernel.rtThreadSleepReturn
  split
  · exact h.setThread_of_same rfl rfl rfl rfl
  · exact h

theorem WF.rtThreadChangePriority (h : WF k) (t : Tid) {arg : Nat} (harg : arg < 32) :
    WF (k.rtThreadChangePriority t arg) := by
  unfold Kernel.rtThreadChangePriority
  split
  next hstat =>
    have hout := WFOut.rtScheduleRemoveThread (t := t) h (h.mask (by simp [hstat]))
    refine (hout.setThread _).rtScheduleInsertThread ?_ ?_ ?_ <;>
      simp [Thread.MaskOk, harg, h.initPriority t]
  next hstat =>
    -- a waiting thread keeps its place in the wait list
    exact h.setThread rfl (fun hready => absurd hready hstat) ⟨fun _ => rfl, harg, h.initPriority t⟩

/-- A removed thread is closed, and may be linked into the list of defunct threads. -/
theorem WFOut.close (h : WFOut k (some t)) (th : Thread) (hstat : th.stat = .close)
    (hcur : th.currentPriority < 32) (hinit : th.initPriority < 32) :
    WF (k.setThread t th) ∧ WF ((k.setThread t th).rtListInsertAfter .defunct t) := by
  have hself : (k.setThread t th).thread t = th := setThread_same k t th
  have hth : th.WF := ⟨by simp [hstat], hcur, hinit⟩
  have hready : th.stat ≠ .ready := by simp [hstat]
  rw [← hself] at hstat hth hready
  constructor
  · exact (h.setThread th).leave hready hth
  · exact (h.setThread th).link (.refl _) hstat hth hready

theorem WF.rtThreadExit (h : WF k) (hmask : (k.thread t).MaskOk) : WF (k.rtThreadExit t) := by
  have hout := WFOut.rtScheduleRemoveThread h hmask
  obtain ⟨hclosed, hdefunct⟩ := hout.close { k.thread t with stat := .close } rfl
    (h.currentPriority t) (h.initPriority t)
  unfold Kernel.rtThreadExit
  simp only [rtScheduleRemoveThread_thread]
  split
  · exact hclosed.congr rfl rfl rfl
  · exact WFOut.congr hdefunct rfl rfl rfl

/-! ## A system after start-up -/

/-- A priority may be written as a number. -/
instance priority_neZero : NeZero 32 := ⟨by decide⟩

/-- The kernel after `rt_system_scheduler_init`, with every thread `t` initialised by
`rt_thread_init` with the priority `prio t`. -/
def boot (prio : Tid → Fin 32) : Kernel where
  thread := fun t => {
    isSystemObject := false
    cleanup := false
    error := .eok
    stat := .init
    currentPriority := prio t
    initPriority := prio t
    numberMask := 0
    eventSet := 0
    eventInfo := 0 }
  tlist := fun _ => []
  rtThreadReadyPriorityGroup := 0
  rtCurrentThread := none
  rtCurrentPriority := 31
  rtSchedulerLockNest := 0
  threadTimer := {
    rtTick := 0
    timer := fun _ => ⟨false, false, 0, 0⟩
    timerList := [] }

theorem boot_wf (prio : Tid → Fin 32) : WF (boot prio) := by
  constructor
  · constructor <;> simp [boot]
  · simp
  · simp [boot]
  · simp [boot]
  · simp [boot]
  · intro t _
    exact ⟨by simp [boot], (prio t).isLt, (prio t).isLt⟩

/-- The threads `ts` are started in this order. -/
def bootThreads (prio : Tid → Fin 32) (ts : List Tid) : Kernel :=
  ts.foldl (fun k t => ((k.rtThreadStartup t).map Prod.fst).getD k) (boot prio)

theorem bootThreads_wf (prio : Tid → Fin 32) (ts : List Tid) : WF (bootThreads prio ts) := by
  refine List.foldlRecOn ts _ (boot_wf prio) fun k hk t _ => ?_
  cases hs : k.rtThreadStartup t with
  | none => exact hk
  | some r => exact hk.rtThreadStartup hs

end Kernel

end RtThread
