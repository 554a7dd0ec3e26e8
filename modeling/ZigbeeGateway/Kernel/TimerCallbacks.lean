-- SUMMARY: Timeout functions that call the timer functions.
import ZigbeeGateway.Kernel.TimerRun

/-!
# Timeout functions that use timers

`rt_timer_check` unlinks a due timer, calls its timeout function and then clears or renews
the timer's flag. Here the timeout function is any sequence of calls of `rt_timer_start`,
`rt_timer_stop` and `rt_timer_control`, so a check is cut at the call-out: it begins, fires
the head of the list, goes on when the timeout function returns, and ends.

While a timer is being fired it is activated and not linked. When its timeout function has
linked it again, the code that follows clears the flag of a linked timer, or links it twice.
-/

namespace RtThread.TimerCallbacks

open Word Run Function

variable {ι : Type} [DecidableEq ι]

/-! ## The system -/

/-- The calls of threads and of timeout functions. -/
inductive Call (ι : Type) where
  | start (i : ι)
  | stop (i : ι)
  | control (i : ι) (cmd : Timers.Ctrl)
  deriving DecidableEq

/-- Where `rt_timer_check` is: not running, at the head of its loop with `current_tick`, or
in the timeout function of a timer. -/
inductive Phase (ι : Type) where
  | idle
  | checking (currentTick : Nat)
  | firing (i : ι)
  deriving DecidableEq

inductive Event (ι : Type) where
  | call (c : Call ι)
  | tick
  | check
  | fire
  | timeoutFuncReturn
  | checkReturn
  deriving DecidableEq

/-- `pending` remembers the timers that were started with success and neither stopped nor
fired since. -/
structure Sys (ι : Type) where
  timers : Timers ι
  phase : Phase ι
  pending : ι → Bool

def Sys.call (s : Sys ι) : Call ι → Option (Sys ι)
  | .start i => do
    let (timers, err) ← s.timers.rtTimerStart i
    if err = .eok then
      return { s with timers := timers, pending := update s.pending i true }
    else
      return { s with timers := timers }
  | .stop i =>
    some { s with
      timers := (s.timers.rtTimerStop i).1
      pending := update s.pending i false }
  | .control i cmd => some { s with timers := (s.timers.rtTimerControl i cmd).1 }

/-- The test of `rt_timer_check`. -/
def Due (s : Timers ι) (currentTick : Nat) (i : ι) : Prop :=
  sub32 currentTick (s.timer i).timeoutTick < rtTickMax / 2

instance (s : Timers ι) (currentTick : Nat) (i : ι) : Decidable (Due s currentTick i) :=
  inferInstanceAs (Decidable (_ < _))

def step (s : Sys ι) : Event ι → Option (Sys ι)
  | .call c =>
    match s.phase with
    | .checking _ => none
    | _ => s.call c
  | .tick =>
    match s.phase with
    | .idle => some { s with timers := { s.timers with rtTick := add32 s.timers.rtTick 1 } }
    | _ => none
  | .check =>
    match s.phase with
    | .idle => some { s with phase := .checking s.timers.rtTick }
    | _ => none
  | .fire =>
    match s.phase, s.timers.timerList with
    | .checking currentTick, t :: _ =>
      if Due s.timers currentTick t then
        some {
          timers := s.timers.rtTimerRemove t
          phase := .firing t
          pending := update s.pending t false }
      else
        none
    | _, _ => none
  | .timeoutFuncReturn =>
    match s.phase with
    | .firing t => do
      let timers ← s.timers.rearm t
      -- re-get tick
      return {
        timers := timers
        phase := .checking s.timers.rtTick
        pending :=
          if (s.timers.timer t).periodic ∧ (s.timers.timer t).activated then
            update s.pending t true
          else
            s.pending }
    | _ => none
  | .checkReturn =>
    match s.phase, s.timers.timerList with
    | .checking _, [] => some { s with phase := .idle }
    | .checking currentTick, t :: _ =>
      if Due s.timers currentTick t then none else some { s with phase := .idle }
    | _, _ => none

/-- Any tick and any timers that were initialised and not started yet. -/
structure Initial (s : Sys ι) : Prop where
  phase : s.phase = .idle
  timerList : s.timers.timerList = []
  activated : ∀ i, (s.timers.timer i).activated = false
  pending : ∀ i, s.pending i = false

/-! ## The invariant -/

/-- Linked timers are activated and linked once; an activated timer is linked unless it is
being fired. -/
structure Inv (s : Sys ι) : Prop where
  nodup : s.timers.timerList.Nodup
  linked : ∀ i ∈ s.timers.timerList, (s.timers.timer i).activated = true
  activated : ∀ i, (s.timers.timer i).activated = true →
    i ∈ s.timers.timerList ∨ s.phase = .firing i
  pending : ∀ i, s.pending i = true → i ∈ s.timers.timerList

variable {s s' : Sys ι} {i : ι}

omit [DecidableEq ι] in
theorem Initial.inv (h : Initial s) : Inv s := by
  constructor
  · simp [h.timerList]
  · simp [h.timerList]
  · simp [h.activated]
  · simp [h.pending]

omit [DecidableEq ι] in
theorem Inv.not_mem (h : Inv s) (hact : (s.timers.timer i).activated = false) :
    i ∉ s.timers.timerList := by
  intro hmem
  rw [h.linked i hmem] at hact
  cases hact

theorem pending_of_clear {pending : ι → Bool} {j : ι}
    (h : update pending i false j = true) : j ≠ i ∧ pending j = true := by
  rcases eq_or_ne j i with rfl | hne
  · simp at h
  · exact ⟨hne, by rwa [update_of_ne hne] at h⟩

/-- A timer that is not activated is started. -/
theorem Inv.started {phase : Phase ι} (h : Inv s) (hact : (s.timers.timer i).activated = false)
    (hphase : ∀ j, j ≠ i → s.phase = .firing j → phase = .firing j) :
    Inv ⟨TimerRun.started s.timers i, phase, update s.pending i true⟩ := by
  have hperm : (TimerRun.started s.timers i).timerList.Perm (i :: s.timers.timerList) :=
    TimerRun.insertRow_perm ..
  constructor
  · exact hperm.nodup_iff.mpr (List.nodup_cons.mpr ⟨h.not_mem hact, h.nodup⟩)
  · intro j hj
    rcases eq_or_ne j i with rfl | hne
    · simp
    · rw [TimerRun.started_of_ne hne]
      exact h.linked j ((List.mem_cons.mp (hperm.mem_iff.mp hj)).resolve_left hne)
  · intro j hj
    rcases eq_or_ne j i with rfl | hne
    · exact .inl (hperm.mem_iff.mpr List.mem_cons_self)
    · rw [TimerRun.started_of_ne hne] at hj
      exact (h.activated j hj).imp (fun hmem => hperm.mem_iff.mpr (List.mem_cons_of_mem i hmem))
        (hphase j hne)
  · intro j hj
    rcases eq_or_ne j i with rfl | hne
    · exact hperm.mem_iff.mpr List.mem_cons_self
    · have hpending : s.pending j = true := by simpa [hne] using hj
      exact hperm.mem_iff.mpr (List.mem_cons_of_mem i (h.pending j hpending))

/-- The flag of a timer is cleared after it was unlinked. -/
theorem Inv.cleared {phase : Phase ι} {pending : ι → Bool} (h : Inv s)
    (hphase : ∀ j, j ≠ i → s.phase = .firing j → phase = .firing j)
    (hpending : ∀ j, pending j = true → j ≠ i ∧ s.pending j = true) :
    Inv ⟨(s.timers.rtTimerRemove i).setTimer i { s.timers.timer i with activated := false },
      phase, pending⟩ := by
  have hmem : ∀ j, j ∈ s.timers.timerList.erase i ↔ j ≠ i ∧ j ∈ s.timers.timerList :=
    fun j => h.nodup.mem_erase_iff
  constructor
  · exact h.nodup.erase i
  · intro j hj
    obtain ⟨hne, hj⟩ := (hmem j).mp hj
    rw [Timers.setTimer_of_ne _ _ hne]
    exact h.linked j hj
  · intro j hj
    rcases eq_or_ne j i with rfl | hne
    · simp at hj
    · rw [Timers.setTimer_of_ne _ _ hne] at hj
      exact (h.activated j hj).imp (fun hj => (hmem j).mpr ⟨hne, hj⟩) (hphase j hne)
  · intro j hj
    obtain ⟨hne, hj⟩ := hpending j hj
    exact (hmem j).mpr ⟨hne, h.pending j hj⟩

/-- The options of a timer do not change its flag or the list. -/
theorem rtTimerControl_frame (timers : Timers ι) (cmd : Timers.Ctrl) (j : ι) :
    (timers.rtTimerControl i cmd).1.timerList = timers.timerList ∧
      ((timers.rtTimerControl i cmd).1.timer j).activated = (timers.timer j).activated := by
  rcases eq_or_ne j i with rfl | hne
  · cases cmd <;> simp [Timers.rtTimerControl, Timers.rtTimerSetTime]
  · cases cmd <;>
      simp [Timers.rtTimerControl, Timers.rtTimerSetTime, Timers.setTimer_of_ne _ _ hne]

theorem Inv.call {c : Call ι} (h : Inv s) (hcall : s.call c = some s') : Inv s' := by
  cases c with
  | start i =>
    obtain ⟨⟨timers, err⟩, hstart, hs'⟩ := Option.bind_eq_some_iff.mp hcall
    obtain ⟨-, rfl, rfl⟩ | ⟨hact, rfl, rfl⟩ := TimerRun.rtTimerStart_cases hstart
    · cases hs'
      exact h
    · cases hs'
      exact h.started hact fun _ _ => id
  | stop i =>
    cases hcall
    cases hact : (s.timers.timer i).activated with
    | true =>
      rw [Timers.rtTimerStop, if_pos hact]
      exact h.cleared (fun _ _ => id) fun j hj => pending_of_clear hj
    | false =>
      have hstop : (s.timers.rtTimerStop i).1 = s.timers := by simp [Timers.rtTimerStop, hact]
      rw [hstop]
      exact ⟨h.nodup, h.linked, h.activated, fun j hj => h.pending j (pending_of_clear hj).2⟩
  | control i cmd =>
    cases hcall
    have hframe := rtTimerControl_frame (i := i) s.timers cmd
    have hlist : (s.timers.rtTimerControl i cmd).1.timerList = s.timers.timerList := (hframe i).1
    refine ⟨?_, fun j hj => ?_, fun j hj => ?_, fun j hj => ?_⟩
    · rw [hlist]
      exact h.nodup
    · rw [(hframe j).2]
      exact h.linked j (hlist ▸ hj)
    · rw [hlist]
      exact h.activated j ((hframe j).2 ▸ hj)
    · rw [hlist]
      exact h.pending j hj

/-- The head of the list is unlinked and being fired. -/
theorem Inv.fire {tail : List ι} {currentTick : Nat} (h : Inv s)
    (hphase : s.phase = .checking currentTick) (hlist : s.timers.timerList = i :: tail) :
    Inv ⟨s.timers.rtTimerRemove i, .firing i, update s.pending i false⟩ := by
  have hmem : ∀ j, j ∈ s.timers.timerList.erase i ↔ j ≠ i ∧ j ∈ s.timers.timerList :=
    fun j => h.nodup.mem_erase_iff
  constructor
  · exact h.nodup.erase i
  · exact fun j hj => h.linked j ((hmem j).mp hj).2
  · intro j hj
    rcases eq_or_ne j i with rfl | hne
    · exact .inr rfl
    · rcases h.activated j hj with hj | hfiring
      · exact .inl ((hmem j).mpr ⟨hne, hj⟩)
      · rw [hphase] at hfiring
        cases hfiring
  · intro j hj
    obtain ⟨hne, hj⟩ := pending_of_clear hj
    exact (hmem j).mpr ⟨hne, h.pending j hj⟩

/-- What `rt_timer_check` does after the timeout function of a timer that it did not link. -/
theorem Inv.rearm {timers : Timers ι} (h : Inv s) (hphase : s.phase = .firing i)
    (hunlinked : i ∉ s.timers.timerList) (hrearm : s.timers.rearm i = some timers) :
    Inv ⟨timers, .checking s.timers.rtTick,
      if (s.timers.timer i).periodic ∧ (s.timers.timer i).activated then
        update s.pending i true
      else
        s.pending⟩ := by
  have hother : ∀ (p : Phase ι) j, j ≠ i → s.phase = .firing j → p = .firing j := by
    intro p j hne hj
    rw [hphase] at hj
    cases hj
    exact absurd rfl hne
  have hremove : s.timers.rtTimerRemove i = s.timers := by
    rw [Timers.rtTimerRemove, List.erase_of_not_mem hunlinked]
  have hcleared : Inv ⟨s.timers.setTimer i { s.timers.timer i with activated := false },
      .checking s.timers.rtTick, s.pending⟩ := by
    have := h.cleared (hother (.checking s.timers.rtTick))
      fun j hj => ⟨fun heq => hunlinked (heq ▸ h.pending j hj), hj⟩
    rwa [hremove] at this
  unfold Timers.rearm at hrearm
  split at hrearm
  next hperiodic =>
    obtain ⟨⟨timers', err⟩, hstart, hs⟩ := Option.bind_eq_some_iff.mp hrearm
    cases hs
    rw [if_pos hperiodic]
    obtain ⟨hact, -, -⟩ | ⟨hact, rfl, -⟩ := TimerRun.rtTimerStart_cases hstart
    · simp at hact
    · exact hcleared.started hact fun _ _ => id
  next hstopped =>
    cases hrearm
    rw [if_neg hstopped]
    exact hcleared

/-- When a timeout function returns, its timer is not linked: it was not started again in the
function after it was stopped there. -/
def NotRestarted (s : Sys ι) (e : Event ι) : Prop :=
  ∀ i, e = .timeoutFuncReturn → s.phase = .firing i → i ∉ s.timers.timerList

theorem step_inv {e : Event ι} (h : Inv s) (hret : NotRestarted s e) (hstep : step s e = some s') :
    Inv s' := by
  cases e with
  | call c =>
    simp only [step] at hstep
    split at hstep
    · cases hstep
    · exact h.call hstep
  | tick =>
    simp only [step] at hstep
    split at hstep
    · cases hstep
      exact ⟨h.nodup, h.linked, h.activated, h.pending⟩
    · cases hstep
  | check =>
    simp only [step] at hstep
    split at hstep
    next hphase =>
      cases hstep
      refine ⟨h.nodup, h.linked, fun i hi => ?_, h.pending⟩
      exact (h.activated i hi).imp_right fun hfiring => by simp [hphase] at hfiring
    next => cases hstep
  | fire =>
    simp only [step] at hstep
    split at hstep
    next currentTick t tail hphase hlist =>
      obtain ⟨-, hs⟩ := Option.ite_none_right_eq_some.mp hstep
      cases hs
      exact h.fire hphase hlist
    next => cases hstep
  | timeoutFuncReturn =>
    simp only [step] at hstep
    split at hstep
    next t hphase =>
      obtain ⟨timers, hrearm, hs⟩ := Option.bind_eq_some_iff.mp hstep
      cases hs
      exact h.rearm hphase (hret t rfl hphase) hrearm
    next => cases hstep
  | checkReturn =>
    have hdone : ∀ currentTick, s.phase = .checking currentTick → Inv { s with phase := .idle } := by
      intro currentTick hphase
      refine ⟨h.nodup, h.linked, fun i hi => ?_, h.pending⟩
      exact (h.activated i hi).imp_right fun hfiring => by simp [hphase] at hfiring
    simp only [step] at hstep
    split at hstep
    next currentTick hphase _ =>
      cases hstep
      exact hdone currentTick hphase
    next currentTick t tail hphase _ =>
      obtain ⟨-, hs⟩ := Option.ite_none_left_eq_some.mp hstep
      cases hs
      exact hdone currentTick hphase
    next => cases hstep

/-- In every run in which no timeout function leaves its own timer started again, every timer
is activated exactly when it is linked, no timer is linked twice, and a timer that was
started and neither stopped nor fired since is linked, in every state outside
`rt_timer_check`. -/
theorem flag_agrees {es : List (Event ι)} (h : Initial s) (hret : Along step NotRestarted s es)
    (hrun : run step s es = some s') (hidle : s'.phase = .idle) :
    (∀ i, (s'.timers.timer i).activated = true ↔ i ∈ s'.timers.timerList) ∧
      s'.timers.timerList.Nodup ∧ ∀ i, s'.pending i = true → i ∈ s'.timers.timerList := by
  have hinv : Inv s' := run_invariant_along (fun _ _ _ => step_inv) h.inv hret hrun
  refine ⟨fun i => ⟨fun hact => ?_, hinv.linked i⟩, hinv.nodup, hinv.pending⟩
  exact (hinv.activated i hact).resolve_right (by simp [hidle])

/-! ## The loop of rt_timer_check -/

theorem call_phase {c : Call ι} (h : s.call c = some s') : s'.phase = s.phase := by
  cases c with
  | start i =>
    obtain ⟨⟨timers, err⟩, -, hs'⟩ := Option.bind_eq_some_iff.mp h
    dsimp only at hs'
    split at hs'
    all_goals
      cases hs'
      rfl
  | stop i | control i cmd =>
    cases h
    rfl

/-- The calls of a timeout function. -/
theorem run_calls {cs : List (Call ι)} (hphase : s.phase = .firing i)
    (h : run Sys.call s cs = some s') :
    run step s (cs.map .call) = some s' ∧ s'.phase = .firing i := by
  induction cs generalizing s with
  | nil =>
    cases h
    exact ⟨rfl, hphase⟩
  | cons c cs ih =>
    obtain ⟨m, hm, hrest⟩ := run_cons.mp h
    obtain ⟨hrun, hphase'⟩ := ih ((call_phase hm).trans hphase) hrest
    refine ⟨run_cons.mpr ⟨m, ?_, hrun⟩, hphase'⟩
    simpa only [step, hphase] using hm

/-- The events `es` are those of the loop of `rt_timer_check` from `s` to its end in `s'`: it fires
the timers `fired` one after the other, and each timeout function is a sequence of calls. -/
inductive Checks (timeoutFunc : ι → Timers ι → Timers ι) :
    Sys ι → List (Event ι) → List ι → Sys ι → Prop where
  | done {s s' : Sys ι} (hstep : step s .checkReturn = some s') :
    Checks timeoutFunc s [.checkReturn] [] s'
  | round {s f m r s' : Sys ι} {t : ι} {cs : List (Call ι)} {es : List (Event ι)} {fired : List ι}
    (hfire : step s .fire = some f) (hphase : f.phase = .firing t)
    (hcalls : run step f (cs.map .call) = some m) (hfunc : m.timers = timeoutFunc t f.timers)
    (hreturn : step m .timeoutFuncReturn = some r) (hrest : Checks timeoutFunc r es fired s') :
    Checks timeoutFunc s (.fire :: (cs.map .call ++ .timeoutFuncReturn :: es)) (t :: fired) s'

variable {timeoutFunc : ι → Timers ι → Timers ι}

theorem Checks.run {es : List (Event ι)} {fired : List ι} (h : Checks timeoutFunc s es fired s') :
    run step s es = some s' := by
  induction h with
  | done hstep => exact run_cons.mpr ⟨_, hstep, rfl⟩
  | round hfire _ hcalls _ hreturn _ ih =>
    exact run_cons.mpr ⟨_, hfire, run_append.mpr ⟨_, hcalls, run_cons.mpr ⟨_, hreturn, ih⟩⟩⟩

/-- The loop of `rt_timer_check` is a run of these steps that fires the same timers, if every
timeout function is a sequence of calls. -/
theorem run_rtTimerCheckLoop {fuel currentTick : Nat} {timers : Timers ι} {fired : List ι}
    (hfunc : ∀ i (s : Sys ι), ∃ cs m, run Sys.call s cs = some m ∧
      m.timers = timeoutFunc i s.timers) (hphase : s.phase = .checking currentTick)
    (h : s.timers.rtTimerCheckLoop timeoutFunc fuel currentTick = some (timers, fired)) :
    ∃ es s', Checks timeoutFunc s es fired s' ∧ run step s es = some s' ∧ s'.timers = timers ∧
      s'.phase = .idle := by
  suffices hchecks : ∃ es s', Checks timeoutFunc s es fired s' ∧ s'.timers = timers ∧
      s'.phase = .idle by
    obtain ⟨es, s', hes, hend⟩ := hchecks
    exact ⟨es, s', hes, hes.run, hend⟩
  induction fuel generalizing s currentTick fired with
  | zero => cases h
  | succ fuel ih =>
    rw [Timers.rtTimerCheckLoop] at h
    cases hlist : s.timers.timerList with
    | nil =>
      rw [hlist] at h
      cases h
      refine ⟨[.checkReturn], { s with phase := .idle }, .done ?_, rfl, rfl⟩
      simp only [step, hphase, hlist]
    | cons t tail =>
      rw [hlist] at h
      dsimp only at h
      split at h
      next hdue =>
        obtain ⟨rearmed, hrearm, h⟩ := Option.bind_eq_some_iff.mp h
        obtain ⟨⟨timers', fired'⟩, hloop, hs⟩ := Option.bind_eq_some_iff.mp h
        cases hs
        let firing : Sys ι :=
          ⟨s.timers.rtTimerRemove t, .firing t, update s.pending t false⟩
        obtain ⟨cs, m, hcs, hm⟩ := hfunc t firing
        obtain ⟨hcalls, hmphase⟩ := run_calls rfl hcs
        have hfire : step s .fire = some firing := by
          simp only [step, hphase, hlist]
          exact if_pos hdue
        rw [← hm] at hrearm hloop
        obtain ⟨r, hr, rfl, hrphase⟩ : ∃ r, step m .timeoutFuncReturn = some r ∧ r.timers = rearmed ∧
            r.phase = .checking m.timers.rtTick := by
          simp only [step, hmphase, hrearm]
          exact ⟨_, rfl, rfl, rfl⟩
        obtain ⟨es, s', hes, hend⟩ := ih hrphase hloop
        exact ⟨_, s', .round hfire rfl hcalls hm hr hes, hend⟩
      next hdue =>
        cases h
        refine ⟨[.checkReturn], { s with phase := .idle }, .done ?_, rfl, rfl⟩
        simp only [step, hphase, hlist]
        exact if_neg hdue

/-! ## A timer that is started in its own timeout function -/

/-- Two one-shot timers of one tick. -/
def twoTimers : Sys Bool where
  timers := {
    rtTick := 0
    timer := fun _ => ⟨false, false, 1, 0⟩
    timerList := [] }
  phase := .idle
  pending := fun _ => false

theorem twoTimers_initial : Initial twoTimers := ⟨rfl, rfl, fun _ => rfl, fun _ => rfl⟩

/-- The first timer was started, and the check after the next tick has begun. -/
def due : Sys Bool := endState step twoTimers [.call (.start false), .tick, .check]

/-- The timeout function of the first timer starts the second one. -/
def startSecond (i : Bool) (timers : Timers Bool) : Timers Bool :=
  if i then timers else ((timers.rtTimerStart true).map Prod.fst).getD timers

theorem startSecond_calls (i : Bool) (s : Sys Bool) :
    ∃ cs m, run Sys.call s cs = some m ∧ m.timers = startSecond i s.timers := by
  cases i with
  | true => exact ⟨[], s, rfl, rfl⟩
  | false =>
    cases hstart : s.timers.rtTimerStart true with
    | none => exact ⟨[], s, rfl, by simp [startSecond, hstart]⟩
    | some r =>
      obtain ⟨m, hm, htimers⟩ : ∃ m, s.call (.start true) = some m ∧ m.timers = r.1 := by
        simp only [Sys.call, hstart]
        obtain herr | herr := eq_or_ne r.2 .eok
        · exact ⟨_, if_pos herr, rfl⟩
        · exact ⟨_, if_neg herr, rfl⟩
      exact ⟨[.start true], m, run_cons.mpr ⟨m, hm, rfl⟩, by simp [startSecond, hstart, htimers]⟩

theorem run_rtTimerCheckLoop_chained :
    ∃ es s', Checks startSecond due es [false] s' ∧ run step due es = some s' ∧
      s'.timers.timerList = [true] ∧ s'.phase = .idle := by
  obtain ⟨⟨timers, _⟩, hloop, rfl, hlist⟩ :
      ∃ r ∈ due.timers.rtTimerCheckLoop startSecond 2 1, r.2 = [false] ∧ r.1.timerList = [true] := by
    decide
  obtain ⟨es, s', hes, hrun, rfl, hidle⟩ := run_rtTimerCheckLoop startSecond_calls (by decide) hloop
  exact ⟨es, s', hes, hrun, hlist, hidle⟩

/-- The first timer is fired, and its timeout function makes the calls `cs`. -/
def firedWith (cs : List (Call Bool)) : List (Event Bool) :=
  [.call (.start false), .tick, .check, .fire] ++ cs.map .call

def chained : Sys Bool := endState step twoTimers (firedWith [.start true])

theorem chained_eq : run step twoTimers (firedWith [.start true]) = some chained :=
  run_endState (by decide)

def ended : Sys Bool := endState step chained [.timeoutFuncReturn, .checkReturn]

theorem ended_eq : run step chained [.timeoutFuncReturn, .checkReturn] = some ended :=
  run_endState (by decide)

/-- The timeout function of the first timer starts the second one. -/
theorem flag_agrees_chained :
    ended.pending true = true ∧
      (∀ i, (ended.timers.timer i).activated = true ↔ i ∈ ended.timers.timerList) ∧
      ended.timers.timerList.Nodup ∧ ∀ i, ended.pending i = true → i ∈ ended.timers.timerList := by
  have hfired : Along step NotRestarted twoTimers (firedWith [.start true]) :=
    along_of_forall (by simp [firedWith, NotRestarted])
  have hreturn : ∀ i, i ∈ chained.timers.timerList → i = true := by decide
  have hlast : Along step NotRestarted chained [.timeoutFuncReturn, .checkReturn] := by
    refine ⟨fun i _ hi hmem => ?_, fun _ _ => along_of_forall (by simp [NotRestarted])⟩
    cases hi
    exact absurd (hreturn false hmem) (by decide)
  exact ⟨by decide, flag_agrees twoTimers_initial (along_append hfired chained_eq hlast)
    (run_append.mpr ⟨chained, chained_eq, ended_eq⟩) (by decide)⟩

/-- The timeout function of a one-shot timer stops the timer and starts it again. The timer is
then linked and not activated. -/
theorem flag_disagrees_restarted :
    Initial twoTimers ∧ ∃ s, run step twoTimers (firedWith [.stop false, .start false] ++
        [.timeoutFuncReturn, .checkReturn]) = some s ∧ s.phase = .idle ∧
      false ∈ s.timers.timerList ∧ (s.timers.timer false).activated = false :=
  ⟨twoTimers_initial, run_exists (by decide) fun _ _ => id⟩

end RtThread.TimerCallbacks
