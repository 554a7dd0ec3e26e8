-- SUMMARY: Termination of rt_timer_check.
import ZigbeeGateway.Kernel.TimerCallbacks
import ZigbeeGateway.Kernel.TimerSkip

/-!
# The end of a timer check

`rt_timer_check` drains a list into which it puts the periodic timers back. Here the timeout functions
are any sequences of calls that start no timer. Each round fires a timer that was due when the check began:
a periodic timer comes back with a timeout after the current tick, as long as its period is not zero.

A period of zero ticks is accepted by `rt_timer_start`. Such a timer is due again as soon as it is put
back, and the check never returns.
-/

namespace RtThread.TimerCheck

open Word

variable {ι : Type} [DecidableEq ι] {s s' : Timers ι} {i : ι}

/-! ## Timeout functions that start no timer -/

/-- The calls of such a timeout function. -/
inductive Op (ι : Type) where
  | stop (i : ι)
  | detach (i : ι)
  | control (i : ι) (cmd : Timers.Ctrl)
  deriving DecidableEq

def Op.run (s : Timers ι) : Op ι → Timers ι
  | .stop i => (s.rtTimerStop i).1
  | .detach i => s.rtTimerDetach i
  | .control i cmd => (s.rtTimerControl i cmd).1

/-- The timeout function that makes the calls `calls i s` when timer `i` fires in the state `s`. -/
def timeoutFunc (calls : ι → Timers ι → List (Op ι)) (i : ι) (s : Timers ι) : Timers ι :=
  (calls i s).foldl Op.run s

/-- What calls without a start do: they keep the tick and the timeouts and link no timer. -/
structure Quiet (s s' : Timers ι) : Prop where
  rtTick : s'.rtTick = s.rtTick
  timeoutTick : ∀ j, (s'.timer j).timeoutTick = (s.timer j).timeoutTick
  sublist : s'.timerList.Sublist s.timerList

omit [DecidableEq ι] in
theorem Quiet.refl (s : Timers ι) : Quiet s s := ⟨rfl, fun _ => rfl, .refl _⟩

omit [DecidableEq ι] in
theorem Quiet.trans {s'' : Timers ι} (h : Quiet s s') (h' : Quiet s' s'') : Quiet s s'' :=
  ⟨h'.rtTick.trans h.rtTick, fun j => (h'.timeoutTick j).trans (h.timeoutTick j),
    h'.sublist.trans h.sublist⟩

theorem Quiet.setTimer {t : Timer} (ht : t.timeoutTick = (s.timer i).timeoutTick) :
    Quiet s (s.setTimer i t) := by
  refine ⟨rfl, fun j => ?_, .refl _⟩
  rcases eq_or_ne j i with rfl | hne
  · rw [Timers.setTimer_same, ht]
  · rw [Timers.setTimer_of_ne _ _ hne]

theorem Quiet.rtTimerRemove (s : Timers ι) (i : ι) : Quiet s (s.rtTimerRemove i) :=
  ⟨rfl, fun _ => rfl, List.erase_sublist⟩

theorem Quiet.op (s : Timers ι) (op : Op ι) : Quiet s (op.run s) := by
  cases op with
  | stop i =>
    rw [Op.run, Timers.rtTimerStop]
    split
    · exact (Quiet.rtTimerRemove s i).trans (.setTimer rfl)
    · exact .refl s
  | detach i => exact .rtTimerRemove s i
  | control i cmd =>
    cases cmd with
    | getTime => exact .refl s
    | setTime tick => exact .setTimer rfl
    | setOneshot => exact .setTimer rfl
    | setPeriodic => exact .setTimer rfl

theorem Quiet.foldl (s : Timers ι) (ops : List (Op ι)) : Quiet s (ops.foldl Op.run s) := by
  induction ops generalizing s with
  | nil => exact .refl s
  | cons op ops ih => exact (Quiet.op s op).trans (ih _)

/-! ## The due timers -/

/-- The timer is due at the current tick. -/
def isDue (s : Timers ι) (j : ι) : Bool := decide (TimerCallbacks.Due s s.rtTick j)

def dueCount (s : Timers ι) : Nat := s.timerList.countP (isDue s)

/-- The timers that the check fires next have a delay that `rt_timer_start` accepts, the periodic ones
one of at least a tick. -/
def DueFit (s : Timers ι) : Prop :=
  ∀ j ∈ s.timerList, isDue s j = true → TimerRun.Startable (s.timer j)

/-- The same in the timeout function of timer `i`. -/
def Fit (i : ι) (s : Timers ι) : Prop := TimerRun.Startable (s.timer i) ∧ DueFit s

omit [DecidableEq ι] in
theorem isDue_congr {j : ι} (htick : s'.rtTick = s.rtTick)
    (htimeout : (s'.timer j).timeoutTick = (s.timer j).timeoutTick) : isDue s' j = isDue s j := by
  rw [isDue, isDue, decide_eq_decide, TimerCallbacks.Due, TimerCallbacks.Due, htick, htimeout]

omit [DecidableEq ι] in
theorem Quiet.dueCount_le (h : Quiet s s') : dueCount s' ≤ dueCount s := by
  have hsame : isDue s' = isDue s := funext fun j => isDue_congr h.rtTick (h.timeoutTick j)
  rw [dueCount, hsame]
  exact h.sublist.countP_le

/-- A timer that is put back with a delay of at least one tick is not due. -/
theorem not_due_started (hfit : (s.timer i).initTick < rtTickMax / 2)
    (hpos : 1 ≤ (s.timer i).initTick) : isDue (TimerRun.started s i) i = false := by
  refine decide_eq_false ?_
  simp only [TimerCallbacks.Due, TimerRun.started_same, TimerRun.started_rtTick]
  unfold sub32 add32 rtTickMax size32 at *
  omega

theorem dueCount_started (hfit : (s.timer i).initTick < rtTickMax / 2)
    (hpos : 1 ≤ (s.timer i).initTick) : dueCount (TimerRun.started s i) ≤ dueCount s := by
  have hnot := not_due_started hfit hpos
  have hperm : (TimerRun.started s i).timerList.Perm (i :: s.timerList) :=
    TimerRun.insertRow_perm ..
  rw [dueCount, hperm.countP_eq, List.countP_cons_of_neg (by rw [hnot]; exact Bool.false_ne_true)]
  refine List.countP_mono_left fun j _ hdue => ?_
  have hne : j ≠ i := by
    rintro rfl
    rw [hnot] at hdue
    cases hdue
  rwa [isDue_congr (TimerRun.started_rtTick s i) (by rw [TimerRun.started_of_ne hne])] at hdue

/-- After its timeout function a timer is put back or its flag is cleared; either way no timer
becomes due. -/
theorem rearm_spec (hfit : Fit i s) :
    ∃ s', s.rearm i = some s' ∧ s'.rtTick = s.rtTick ∧ dueCount s' ≤ dueCount s ∧ DueFit s' := by
  obtain ⟨stopped, hstopped⟩ :
      ∃ m, m = s.setTimer i { s.timer i with activated := false } := ⟨_, rfl⟩
  have hquiet : Quiet s stopped := hstopped ▸ .setTimer rfl
  have hself : stopped.timer i = { s.timer i with activated := false } := by
    rw [hstopped, Timers.setTimer_same]
  have hi : TimerRun.Startable (stopped.timer i) := by
    rw [hself]
    exact hfit.1
  have hkeep : DueFit stopped := by
    intro j hj hdue
    rcases eq_or_ne j i with rfl | hne
    · exact hi
    · rw [isDue_congr hquiet.rtTick (hquiet.timeoutTick j)] at hdue
      rw [hstopped, Timers.setTimer_of_ne _ _ hne]
      exact hfit.2 j (hquiet.sublist.subset hj) hdue
  by_cases hcond : (s.timer i).periodic = true ∧ (s.timer i).activated = true
  · have hpos : 1 ≤ (stopped.timer i).initTick := hi.2 (by rw [hself]; exact hcond.1)
    have hstart := TimerRun.rtTimerStart_eq (by rw [hself]) hi.1
    refine ⟨TimerRun.started stopped i, ?_, hquiet.rtTick,
      (dueCount_started hi.1 hpos).trans hquiet.dueCount_le, fun j hj hdue => ?_⟩
    · rw [Timers.rearm, if_pos hcond, ← hstopped, hstart]
      rfl
    · have hne : j ≠ i := by
        rintro rfl
        rw [not_due_started hi.1 hpos] at hdue
        cases hdue
      have hsame := TimerRun.started_of_ne (s := stopped) hne
      rw [isDue_congr (TimerRun.started_rtTick stopped i) (by rw [hsame])] at hdue
      rw [hsame]
      exact hkeep j ((TimerRun.mem_started.mp hj).resolve_left hne) hdue
  · refine ⟨stopped, ?_, hquiet.rtTick, hquiet.dueCount_le, hkeep⟩
    rw [Timers.rearm, if_neg hcond, ← hstopped]

/-! ## The loop -/

/-- The loop returns within one round more than there are due timers: each round takes one of them
off the list. -/
theorem rtTimerCheckLoop_returns {calls : ι → Timers ι → List (Op ι)}
    (hcalls : ∀ i s, Fit i s → Fit i (timeoutFunc calls i s)) {fuel : Nat}
    (hfit : DueFit s) (hfuel : dueCount s < fuel) :
    ∃ s' fired, s.rtTimerCheckLoop (timeoutFunc calls) fuel s.rtTick = some (s', fired) ∧
      fired.length ≤ dueCount s := by
  induction fuel generalizing s with
  | zero => omega
  | succ fuel ih =>
    rw [Timers.rtTimerCheckLoop]
    cases hlist : s.timerList with
    | nil => exact ⟨s, [], rfl, Nat.zero_le _⟩
    | cons t rest =>
      dsimp only
      by_cases hdue : sub32 s.rtTick (s.timer t).timeoutTick < rtTickMax / 2
      · rw [if_pos hdue]
        obtain ⟨removed, hremoved⟩ : ∃ m, m = s.rtTimerRemove t := ⟨_, rfl⟩
        have hrest : removed.timerList = rest := by simp [hremoved, hlist]
        have hcount : dueCount s = dueCount removed + 1 := by
          have hhead : isDue s t = true := decide_eq_true hdue
          have hsame : isDue removed = isDue s := hremoved ▸ rfl
          rw [dueCount, dueCount, hlist, hrest, hsame, List.countP_cons_of_pos hhead]
        have hround : Fit t removed := by
          rw [Fit, hremoved, Timers.rtTimerRemove_timer]
          refine ⟨hfit t (by rw [hlist]; exact List.mem_cons_self) (decide_eq_true hdue), ?_⟩
          exact fun j hj => hfit j (List.mem_of_mem_erase hj)
        have hquiet : Quiet removed (timeoutFunc calls t removed) := .foldl ..
        obtain ⟨s1, hrearm, htick, hle, hfit1⟩ := rearm_spec (hcalls t removed hround)
        have hless : dueCount s1 ≤ dueCount removed := hle.trans hquiet.dueCount_le
        obtain ⟨s', fired, hloop, hfired⟩ := ih hfit1 (by omega)
        refine ⟨s', t :: fired, ?_, by rw [List.length_cons]; omega⟩
        rw [← hremoved, hrearm, Option.bind_eq_bind, Option.bind_some, ← htick, hloop]
        rfl
      · rw [if_neg hdue]
        exact ⟨s, [], rfl, Nat.zero_le _⟩

/-! ## A period of zero ticks -/

/-- The list as `rt_tick_increase` hands it to the check: no timeout has passed, and the timers that
time out now come first. -/
structure OnTime (s : Timers ι) : Prop where
  nodup : s.timerList.Nodup
  activated : ∀ j ∈ s.timerList, (s.timer j).activated = true
  initTick : ∀ j ∈ s.timerList, (s.timer j).initTick < rtTickMax / 2
  timeoutTick : ∀ j ∈ s.timerList, sub32 (s.timer j).timeoutTick s.rtTick < rtTickMax / 2
  dueFirst : SkipList.Splits (isDue s) s.timerList

/-- A linked timer that is due and has a period of zero ticks. -/
structure ZeroPeriod (s : Timers ι) (j : ι) : Prop where
  mem : j ∈ s.timerList
  due : isDue s j = true
  periodic : (s.timer j).periodic = true
  initTick : (s.timer j).initTick = 0

section

omit [DecidableEq ι]

/-- Of the timers whose timeout has not passed, those are due that time out now. -/
theorem isDue_iff {j : ι} (h : sub32 (s.timer j).timeoutTick s.rtTick < rtTickMax / 2) :
    isDue s j = true ↔ sub32 (s.timer j).timeoutTick s.rtTick = 0 := by
  rw [isDue, decide_eq_true_iff, TimerCallbacks.Due]
  unfold sub32 rtTickMax size32 at *
  omega

theorem ZeroPeriod.congr {j : ι} (h : ZeroPeriod s j) (hmem : j ∈ s'.timerList)
    (htick : s'.rtTick = s.rtTick) (hsame : s'.timer j = s.timer j) : ZeroPeriod s' j := by
  refine ⟨hmem, ?_, hsame ▸ h.periodic, hsame ▸ h.initTick⟩
  rw [isDue_congr htick (by rw [hsame])]
  exact h.due

theorem OnTime.dueFit_iff (h : OnTime s) : DueFit s ↔ ∀ j, ¬ ZeroPeriod s j := by
  constructor
  · intro hfit j hzero
    have hpos := (hfit j hzero.mem hzero.due).2 hzero.periodic
    rw [hzero.initTick] at hpos
    omega
  · intro hnone j hj hdue
    refine ⟨h.initTick j hj, fun hper => ?_⟩
    by_contra hpos
    exact hnone j ⟨hj, hdue, hper, by omega⟩

theorem OnTime.sublist (h : OnTime s) (hsub : s'.timerList.Sublist s.timerList)
    (hsame : ∀ j ∈ s'.timerList, s'.timer j = s.timer j) (htick : s'.rtTick = s.rtTick) :
    OnTime s' := by
  refine ⟨hsub.nodup h.nodup, fun j hj => ?_, fun j hj => ?_, fun j hj => ?_, ?_⟩
  · rw [hsame j hj]
    exact h.activated j (hsub.subset hj)
  · rw [hsame j hj]
    exact h.initTick j (hsub.subset hj)
  · rw [hsame j hj, htick]
    exact h.timeoutTick j (hsub.subset hj)
  · refine (h.dueFirst.sublist hsub).imp_of_mem fun ha hb hab => ?_
    rwa [isDue_congr htick (congrArg Timer.timeoutTick (hsame _ ha)),
      isDue_congr htick (congrArg Timer.timeoutTick (hsame _ hb))]

end

/-- A timer that is started stays behind the due ones unless it is due itself. -/
theorem OnTime.started (h : OnTime s) (hnew : i ∉ s.timerList)
    (hinit : (s.timer i).initTick < rtTickMax / 2) : OnTime (TimerRun.started s i) := by
  have hself := TimerRun.started_same s i
  have hsame : ∀ j ∈ s.timerList, (TimerRun.started s i).timer j = s.timer j := fun j hj =>
    TimerRun.started_of_ne fun heq => hnew (heq ▸ hj)
  have hdueSame : ∀ j ∈ s.timerList, isDue (TimerRun.started s i) j = isDue s j := fun j hj =>
    isDue_congr rfl (by rw [hsame j hj])
  have hself' : sub32 ((TimerRun.started s i).timer i).timeoutTick s.rtTick =
      (s.timer i).initTick := by
    rw [hself]
    unfold sub32 add32 rtTickMax size32 at *
    dsimp only
    omega
  have hall {p : ι → Prop} (hi : p i) (hrest : ∀ j ∈ s.timerList, p j) :
      ∀ j ∈ (TimerRun.started s i).timerList, p j := by
    intro j hj
    rcases TimerRun.mem_started.mp hj with rfl | hj
    · exact hi
    · exact hrest j hj
  have htime : ∀ j ∈ (TimerRun.started s i).timerList,
      sub32 ((TimerRun.started s i).timer j).timeoutTick s.rtTick < rtTickMax / 2 :=
    hall (by rw [hself']; exact hinit) fun j hj => by
      rw [hsame j hj]
      exact h.timeoutTick j hj
  refine ⟨?_, hall (by rw [hself]) ?_, hall (by rw [hself]; exact hinit) ?_, htime, ?_⟩
  · exact (TimerRun.insertRow_perm ..).nodup_iff.mpr (List.nodup_cons.mpr ⟨hnew, h.nodup⟩)
  · intro j hj
    rw [hsame j hj]
    exact h.activated j hj
  · intro j hj
    rw [hsame j hj]
    exact h.initTick j hj
  · have hbefore : SkipList.Splits (isDue (TimerRun.started s i)) s.timerList :=
      h.dueFirst.imp_of_mem fun ha hb hab => by rwa [hdueSame _ ha, hdueSame _ hb]
    have hself_iff := isDue_iff (htime i (TimerRun.mem_started.mpr (.inl rfl)))
    rw [TimerRun.started_rtTick, hself'] at hself_iff
    have hrow : (TimerRun.started s i).timerList =
        SkipList.insertAt (SkipTimers.passes (TimerRun.started s i).timer i) i s.timerList :=
      TimerSkip.insertRow_eq ..
    rw [hrow]
    refine hbefore.insertAt (fun _ j hj hdue => ?_) fun hi j hj hpass => ?_
    · -- a due timer times out before one that is put back with a delay
      have hzero : sub32 (s.timer j).timeoutTick s.rtTick = 0 :=
        (isDue_iff (h.timeoutTick j hj)).mp (hdueSame j hj ▸ hdue)
      rw [SkipTimers.passes, decide_eq_true_iff, hsame j hj, hself]
      unfold sub32 add32 rtTickMax size32 at *
      dsimp only
      omega
    · have hzero : (s.timer i).initTick = 0 := hself_iff.mp hi
      have hlt := h.timeoutTick j hj
      rw [SkipTimers.passes, decide_eq_true_iff, hsame j hj, hself] at hpass
      rw [hdueSame j hj, isDue_iff hlt]
      unfold sub32 add32 rtTickMax size32 at *
      dsimp only at hpass
      omega

/-- A round in which the timeout function changes no timer leaves a timer with a period of zero ticks
linked and due: another timer is put back behind it, and the timer itself times out now again. -/
theorem OnTime.rearm_head {t j : ι} {rest : List ι} (h : OnTime s) (hlist : s.timerList = t :: rest)
    (hzero : ZeroPeriod s j) :
    ∃ s', (s.rtTimerRemove t).rearm t = some s' ∧ s'.rtTick = s.rtTick ∧ OnTime s' ∧
      ZeroPeriod s' j := by
  have hmem : t ∈ s.timerList := hlist ▸ List.mem_cons_self
  have hfresh : t ∉ rest := (List.nodup_cons.mp (hlist ▸ h.nodup)).1
  have hrow : (TimerRun.stopped s t).timerList = rest := by simp [hlist]
  have hinit : ((TimerRun.stopped s t).timer t).initTick < rtTickMax / 2 := by
    simpa using h.initTick t hmem
  have hontime : OnTime (TimerRun.stopped s t) := by
    refine h.sublist ?_ (fun k hk => TimerRun.stopped_of_ne ?_) rfl
    · rw [hrow, hlist]
      exact List.sublist_cons_self t rest
    · rintro rfl
      exact hfresh (hrow ▸ hk)
  have hrest : j ≠ t → j ∈ rest := fun hne =>
    (List.mem_cons.mp (hlist ▸ hzero.mem)).resolve_left hne
  refine ⟨_, TimerRun.rearm_eq (h.activated t hmem) (h.initTick t hmem), ?_⟩
  split
  · refine ⟨rfl, hontime.started (hrow ▸ hfresh) hinit, ?_⟩
    rcases eq_or_ne j t with rfl | hne
    · refine ⟨TimerRun.mem_started.mpr (.inl rfl), decide_eq_true ?_, ?_, ?_⟩
      · simp only [TimerCallbacks.Due, TimerRun.started_same, TimerRun.stopped_same, hzero.initTick,
          TimerRun.started_rtTick]
        unfold sub32 add32 rtTickMax size32
        omega
      · simpa using hzero.periodic
      · simpa using hzero.initTick
    · have hkeep : (TimerRun.started (TimerRun.stopped s t) t).timer j = s.timer j := by
        rw [TimerRun.started_of_ne hne, TimerRun.stopped_of_ne hne]
      exact hzero.congr (TimerRun.mem_started.mpr (.inr (hrow ▸ hrest hne))) rfl hkeep
  next hper =>
    have hne : j ≠ t := by
      rintro rfl
      exact hper hzero.periodic
    exact ⟨rfl, hontime, hzero.congr (hrow ▸ hrest hne) rfl (TimerRun.stopped_of_ne hne)⟩

/-- With such a timer the loop takes any number of rounds. -/
theorem rtTimerCheckLoop_spins {j : ι} (h : OnTime s) (hzero : ZeroPeriod s j) (fuel : Nat) :
    s.rtTimerCheckLoop TimerRun.keepTimers fuel s.rtTick = none := by
  induction fuel generalizing s with
  | zero => rfl
  | succ fuel ih =>
    rw [Timers.rtTimerCheckLoop]
    cases hlist : s.timerList with
    | nil => exact absurd hzero.mem (by simp [hlist])
    | cons t rest =>
      have hdue : isDue s t = true := by
        have hsplit := h.dueFirst
        rw [hlist] at hsplit
        rcases List.mem_cons.mp (hlist ▸ hzero.mem) with rfl | hj
        · exact hzero.due
        · exact (List.pairwise_cons.mp hsplit).1 j hj hzero.due
      obtain ⟨s', hrearm, htick, hontime, hzero'⟩ := h.rearm_head hlist hzero
      have hloop := ih hontime hzero'
      rw [htick] at hloop
      dsimp only
      have hbranch : sub32 s.rtTick (s.timer t).timeoutTick < rtTickMax / 2 := of_decide_eq_true hdue
      rw [if_pos hbranch, TimerRun.keepTimers, hrearm, Option.bind_eq_bind,
        Option.bind_some, Timers.rtTimerRemove_rtTick, hloop]
      rfl

/-! ## Termination -/

/-- A check returns and fires no more timers than were linked, if no timer that is due has a period of
zero ticks and the timeout functions start no timer and leave the timers so. With timeout functions
that change no timer this is also needed. -/
theorem rtTimerCheck_returns (s : Timers ι) :
    (∀ calls : ι → Timers ι → List (Op ι), (∀ i s, Fit i s → Fit i (timeoutFunc calls i s)) →
      DueFit s → ∃ s' fired, s.rtTimerCheck (timeoutFunc calls) = some (s', fired) ∧
        fired.length ≤ s.timerList.length) ∧
    (OnTime s → ((∃ fuel s' fired,
      s.rtTimerCheckLoop TimerRun.keepTimers fuel s.rtTick = some (s', fired)) ↔ DueFit s)) := by
  have hreturns : ∀ calls : ι → Timers ι → List (Op ι),
      (∀ i s, Fit i s → Fit i (timeoutFunc calls i s)) → DueFit s →
      ∃ s' fired, s.rtTimerCheck (timeoutFunc calls) = some (s', fired) ∧
        fired.length ≤ s.timerList.length := by
    intro calls hcalls hfit
    have hcount : dueCount s ≤ s.timerList.length := List.countP_le_length
    obtain ⟨s', fired, hloop, hfired⟩ :=
      rtTimerCheckLoop_returns hcalls hfit (Nat.lt_succ_of_le hcount)
    exact ⟨s', fired, hloop, hfired.trans hcount⟩
  refine ⟨hreturns, fun hontime => ⟨?_, fun hfit => ?_⟩⟩
  · rintro ⟨fuel, s', fired, hloop⟩
    refine hontime.dueFit_iff.mpr fun j hzero => ?_
    rw [rtTimerCheckLoop_spins hontime hzero] at hloop
    cases hloop
  · obtain ⟨s', fired, hcheck, -⟩ := hreturns (fun _ _ => []) (fun _ _ hfit => hfit) hfit
    exact ⟨_, s', fired, hcheck⟩

/-- Three due timers, two of them periodic. The first one's timeout function stops the third and makes
the second a one-shot timer. -/
def threeDue : Timers (Fin 3) where
  rtTick := 10
  timer i := ⟨true, i ≠ 2, 5, 8 + i.val⟩
  timerList := [0, 1, 2]

def threeDueCalls : Fin 3 → Timers (Fin 3) → List (Op (Fin 3))
  | 0, _ => [.stop 2, .control 1 .setOneshot]
  | _, _ => []

theorem threeDueCalls_fit (i : Fin 3) (s : Timers (Fin 3)) (h : Fit i s) :
    Fit i (timeoutFunc threeDueCalls i s) := by
  have hsame : ∀ j, ((timeoutFunc threeDueCalls i s).timer j).initTick = (s.timer j).initTick ∧
      (((timeoutFunc threeDueCalls i s).timer j).periodic = true → (s.timer j).periodic = true) := by
    intro j
    match i with
    | 0 =>
      cases hact : (s.timer 2).activated <;> match j with
        | 0 | 1 | 2 =>
          simp [timeoutFunc, threeDueCalls, Op.run, Timers.rtTimerStop, Timers.rtTimerControl,
            Timers.setTimer, hact]
    | 1 => exact ⟨rfl, id⟩
    | 2 => exact ⟨rfl, id⟩
  have hquiet : Quiet s (timeoutFunc threeDueCalls i s) := .foldl ..
  have hstartable : ∀ j, TimerRun.Startable (s.timer j) →
      TimerRun.Startable ((timeoutFunc threeDueCalls i s).timer j) := by
    rintro j ⟨hlt, hpos⟩
    obtain ⟨hinit, hper⟩ := hsame j
    exact ⟨hinit ▸ hlt, fun hp => hinit ▸ hpos (hper hp)⟩
  refine ⟨hstartable i h.1, fun j hj hdue => hstartable j (h.2 j (hquiet.sublist.subset hj) ?_)⟩
  rwa [isDue_congr hquiet.rtTick (hquiet.timeoutTick j)] at hdue

theorem threeDue_dueFit : DueFit threeDue := by
  have hall : ∀ j ∈ threeDue.timerList, TimerRun.Startable (threeDue.timer j) := by decide
  exact fun j hj _ => hall j hj

theorem rtTimerCheck_returns_threeDue :
    ∃ s' fired, threeDue.rtTimerCheck (timeoutFunc threeDueCalls) = some (s', fired) ∧
      fired.length ≤ 3 :=
  (rtTimerCheck_returns threeDue).1 threeDueCalls threeDueCalls_fit threeDue_dueFit

/-- A periodic timer with a delay of zero, before it is started. -/
def zeroPeriod : Timers Unit where
  rtTick := 7
  timer _ := ⟨false, true, 0, 0⟩
  timerList := []

/-- `rt_timer_start` accepts the timer, and the next check never returns. -/
theorem rtTimerCheck_spins :
    ∃ s, zeroPeriod.rtTimerStart () = some (s, .eok) ∧
      (∀ j ∈ s.timerList, (s.timer j).initTick < rtTickMax / 2) ∧
      ∀ fuel, s.rtTimerCheckLoop TimerRun.keepTimers fuel s.rtTick = none := by
  have hempty : OnTime zeroPeriod := by
    constructor <;> simp [zeroPeriod, SkipList.Splits]
  have hontime : OnTime (TimerRun.started zeroPeriod ()) :=
    hempty.started (by simp [zeroPeriod]) (by decide)
  have hzero : ZeroPeriod (TimerRun.started zeroPeriod ()) () :=
    ⟨TimerRun.mem_started.mpr (.inl rfl), by decide, rfl, rfl⟩
  exact ⟨_, TimerRun.rtTimerStart_eq rfl (by decide), hontime.initTick, rtTimerCheckLoop_spins hontime hzero⟩

end RtThread.TimerCheck
