-- SUMMARY: The timer list with any number of skip-list levels.
import ZigbeeGateway.Lib.SkipList
import ZigbeeGateway.Kernel.TimerExact

/-!
# Skip-list timers

The model of `src/timer.c` for any `RT_TIMER_SKIP_LIST_LEVEL`: a bottom row that links every timer of
the list, and the rows above it. The source numbers the rows from the top, so its row
`RT_TIMER_SKIP_LIST_LEVEL - 1` is `bottom` and its row 0 is the last one of `upper`. How high a timer's
tower is depends on the counter `random_nr`.

As long as the deadlines of the linked timers fit in half the tick range, the wrapped comparison orders
them. The descent then ends in every row at the last timer that is not later, and the bottom row is the
list that the one-level version keeps.
-/

namespace RtThread

open Word Run Function

/-- The timers with the rows of the skip list, and `random_nr` of `rt_timer_start`. -/
structure SkipTimers (ι : Type) where
  rtTick : Nat
  timer : ι → Timer
  bottom : List ι
  upper : List (List ι)
  randomNr : Nat

namespace SkipTimers

variable {ι : Type} [DecidableEq ι]

def rows (s : SkipTimers ι) : List (List ι) := s.bottom :: s.upper

def setTimer (s : SkipTimers ι) (i : ι) (t : Timer) : SkipTimers ι :=
  { s with timer := update s.timer i t }

/-- `_rt_timer_remove`: the timer is unlinked from every row. -/
def rtTimerRemove (s : SkipTimers ι) (i : ι) : SkipTimers ι :=
  { s with bottom := s.bottom.erase i, upper := s.upper.map (·.erase i) }

/-- The search loop of `rt_timer_start` goes on over timers with an equal or an earlier timeout. -/
def passes (timer : ι → Timer) (i t : ι) : Bool :=
  sub32 (timer t).timeoutTick (timer i).timeoutTick = 0 ∨
    ¬ sub32 (timer t).timeoutTick (timer i).timeoutTick < rtTickMax / 2

/-- The number of rows above the bottom one, among `rows` of them, in which the timer is linked. -/
def towerHeight (mask : Nat) : Nat → Nat → Nat
  | 0, _ => 0
  | rows + 1, tstNr =>
    if tstNr &&& mask = 0 then
      -- shift over the bits we have tested
      towerHeight mask rows (tstNr >>> ((mask + 1) >>> 1)) + 1
    else
      0

/-- `rt_timer_start` with `RT_TIMER_SKIP_LIST_MASK`. -/
def rtTimerStart (mask : Nat) (s : SkipTimers ι) (i : ι) : Option (SkipTimers ι × Err) :=
  if (s.timer i).activated then
    some (s, .error)
  else do
    rtAssert ((s.timer i).initTick < rtTickMax / 2)
    let s := s.setTimer i
      { s.timer i with timeoutTick := add32 s.rtTick (s.timer i).initTick }
    let rowHead ← SkipList.descend (passes s.timer i) s.rows
    let s := { s with randomNr := add32 s.randomNr 1 }
    match rowHead with
    | [] => none
    | head :: heads =>
      let s := { s with
        bottom := SkipList.insertAfter i head s.bottom
        upper := SkipList.insertRows i (towerHeight mask s.upper.length s.randomNr) s.upper heads }
      let s := s.setTimer i { s.timer i with activated := true }
      return (s, .eok)

/-- `rt_timer_stop`. -/
def rtTimerStop (s : SkipTimers ι) (i : ι) : SkipTimers ι × Err :=
  if (s.timer i).activated then
    let s := s.rtTimerRemove i
    (s.setTimer i { s.timer i with activated := false }, .eok)
  else
    (s, .error)

/-- `rt_timer_control`. -/
def rtTimerControl (s : SkipTimers ι) (i : ι) : Timers.Ctrl → SkipTimers ι × Option Nat
  | .getTime => (s, some (s.timer i).initTick)
  | .setTime tick => (s.setTimer i { s.timer i with initTick := tick }, none)
  | .setOneshot => (s.setTimer i { s.timer i with periodic := false }, none)
  | .setPeriodic => (s.setTimer i { s.timer i with periodic := true }, none)

/-- The timers as the one-level version has them. -/
def plain (s : SkipTimers ι) : Timers ι := ⟨s.rtTick, s.timer, s.bottom⟩

end SkipTimers

namespace TimerSkip

variable {ι : Type} [DecidableEq ι] {s s' : SkipTimers ι} {i : ι}

/-! ## The two systems -/

inductive Event (ι : Type) where
  | start (i : ι)
  | stop (i : ι)
  | control (i : ι) (cmd : Timers.Ctrl)
  | tick
  deriving DecidableEq

def skipStep (mask : Nat) (s : SkipTimers ι) : Event ι → Option (SkipTimers ι)
  | .start i => (s.rtTimerStart mask i).map Prod.fst
  | .stop i => some (s.rtTimerStop i).1
  | .control i cmd => some (s.rtTimerControl i cmd).1
  | .tick => some { s with rtTick := add32 s.rtTick 1 }

/-- The same events with one level. -/
def plainStep (s : Timers ι) : Event ι → Option (Timers ι)
  | .start i => (s.rtTimerStart i).map Prod.fst
  | .stop i => some (s.rtTimerStop i).1
  | .control i cmd => some (s.rtTimerControl i cmd).1
  | .tick => some { s with rtTick := add32 s.rtTick 1 }

/-- Any tick and any counter, any number of rows, and timers that were initialised and not started. -/
structure Initial (s : SkipTimers ι) : Prop where
  rows : ∀ row ∈ s.rows, row = []
  activated : ∀ i, (s.timer i).activated = false

/-- The deadlines of the linked timers lie in a window of less than `RT_TICK_MAX / 2` ticks. -/
def Windowed (s : Timers ι) : Prop :=
  ∃ w, ∀ i ∈ s.timerList, sub32 (s.timer i).timeoutTick w < rtTickMax / 2

/-- They do so after the step. -/
def StaysWindowed (s : Timers ι) (e : Event ι) : Prop := ∀ s', plainStep s e = some s' → Windowed s'

/-! ## The wrapped order in a window -/

theorem sub32_lt_iff {w a b : Nat} (ha : sub32 a w < rtTickMax / 2) (hb : sub32 b w < rtTickMax / 2) :
    sub32 b a < rtTickMax / 2 ↔ sub32 a w ≤ sub32 b w := by
  unfold sub32 rtTickMax size32 at *
  omega

omit [DecidableEq ι] in
/-- In a window the search goes on over exactly the timers that are not later. -/
theorem passes_iff {timer : ι → Timer} {w : Nat} {i t : ι}
    (hi : sub32 (timer i).timeoutTick w < rtTickMax / 2)
    (ht : sub32 (timer t).timeoutTick w < rtTickMax / 2) :
    SkipTimers.passes timer i t = true ↔
      sub32 (timer t).timeoutTick w ≤ sub32 (timer i).timeoutTick w := by
  rw [SkipTimers.passes, decide_eq_true_iff, sub32_lt_iff hi ht]
  unfold sub32 rtTickMax size32 at *
  omega

omit [DecidableEq ι] in
/-- The one-level insertion. -/
theorem insertRow_eq (timer : ι → Timer) (i : ι) (l : List ι) :
    Timers.insertRow timer i l = SkipList.insertAt (SkipTimers.passes timer i) i l := by
  induction l with
  | nil => rfl
  | cons t rest ih =>
    rw [Timers.insertRow, ih]
    by_cases hpass : SkipTimers.passes timer i t = true
    · rw [SkipList.insertAt_cons_of_pos hpass]
      rw [SkipTimers.passes, decide_eq_true_iff] at hpass
      split_ifs with h0 hlt
      · rfl
      · exact absurd hpass (by simp [h0, hlt])
      · rfl
    · rw [SkipList.insertAt_cons_of_neg hpass]
      rw [SkipTimers.passes, decide_eq_true_iff, not_or, not_not] at hpass
      rw [if_neg hpass.1, if_pos hpass.2]

/-! ## The invariant -/

/-- The bottom row links the activated timers once each, in the wrapped order of their timeouts, and
every row is a subsequence of the one below it. -/
structure SkipInv (s : SkipTimers ι) : Prop where
  linked : ∀ i, i ∈ s.bottom ↔ (s.timer i).activated = true
  nodup : s.bottom.Nodup
  sorted : s.bottom.Pairwise fun a b =>
    sub32 (s.timer b).timeoutTick (s.timer a).timeoutTick < rtTickMax / 2
  stacked : SkipList.Stacked s.rows

section

omit [DecidableEq ι]

theorem Initial.inv (h : Initial s) : SkipInv s := by
  have hbottom : s.bottom = [] := h.rows s.bottom List.mem_cons_self
  have hrows : s.rows = List.replicate s.rows.length [] :=
    List.eq_replicate_iff.mpr ⟨rfl, h.rows⟩
  constructor
  · simp [hbottom, h.activated]
  · simp [hbottom]
  · simp [hbottom]
  · rw [hrows]
    exact List.isChain_replicate_of_rel _ (.refl [])

theorem SkipInv.row_nodup (h : SkipInv s) {row : List ι} (hrow : row ∈ s.rows) : row.Nodup :=
  h.nodup.sublist (h.stacked.sublist hrow)

/-- The invariant reads the flags and the timeouts of the timers. -/
theorem SkipInv.congr (h : SkipInv s) (hrows : s'.bottom = s.bottom ∧ s'.upper = s.upper)
    (htimer : ∀ j, (s'.timer j).activated = (s.timer j).activated ∧
      (s'.timer j).timeoutTick = (s.timer j).timeoutTick) : SkipInv s' := by
  obtain ⟨hbottom, hupper⟩ := hrows
  constructor
  · intro j
    rw [hbottom, (htimer j).1]
    exact h.linked j
  · rw [hbottom]
    exact h.nodup
  · rw [hbottom]
    simpa only [(htimer _).2] using h.sorted
  · rw [SkipTimers.rows, hbottom, hupper]
    exact h.stacked

end

theorem SkipInv.setTimer (h : SkipInv s) {t : Timer}
    (ht : t.activated = (s.timer i).activated ∧ t.timeoutTick = (s.timer i).timeoutTick) :
    SkipInv (s.setTimer i t) := by
  refine h.congr ⟨rfl, rfl⟩ fun j => ?_
  rcases eq_or_ne j i with rfl | hne
  · simpa only [SkipTimers.setTimer, update_self] using ht
  · simp only [SkipTimers.setTimer, update_of_ne hne, and_self]

theorem SkipInv.control (h : SkipInv s) (cmd : Timers.Ctrl) : SkipInv (s.rtTimerControl i cmd).1 := by
  cases cmd with
  | getTime => exact h
  | setTime tick => exact h.setTimer ⟨rfl, rfl⟩
  | setOneshot => exact h.setTimer ⟨rfl, rfl⟩
  | setPeriodic => exact h.setTimer ⟨rfl, rfl⟩

theorem SkipInv.stop (h : SkipInv s) : SkipInv (s.rtTimerStop i).1 := by
  rw [SkipTimers.rtTimerStop]
  split
  · constructor
    · intro j
      have hmem : j ∈ s.bottom.erase i ↔ j ≠ i ∧ j ∈ s.bottom := h.nodup.mem_erase_iff
      refine hmem.trans ?_
      rcases eq_or_ne j i with rfl | hne
      · simp [SkipTimers.setTimer]
      · simp [SkipTimers.setTimer, SkipTimers.rtTimerRemove, hne, h.linked j]
    · exact h.nodup.erase i
    · refine (h.sorted.sublist List.erase_sublist).imp_of_mem fun {a b} ha hb hab => ?_
      have hne : ∀ j ∈ s.bottom.erase i, j ≠ i := fun j hj => (h.nodup.mem_erase_iff.mp hj).1
      simpa only [SkipTimers.setTimer, SkipTimers.rtTimerRemove, update_of_ne (hne a ha),
        update_of_ne (hne b hb)] using hab
    · exact (List.isChain_map (List.erase · i)).mpr (h.stacked.imp fun _ _ hsub => hsub.erase i)
  · exact h

/-- A stopped timer is in no row. -/
theorem SkipInv.stop_not_mem (h : SkipInv s) (i : ι) :
    ∀ row ∈ (s.rtTimerStop i).1.rows, i ∉ row := by
  intro row hrow hi
  have hbottom := (h.stop (i := i)).stacked.sublist hrow |>.subset hi
  have hact := ((h.stop (i := i)).linked i).mp hbottom
  rw [SkipTimers.rtTimerStop] at hact
  split at hact
  · simp [SkipTimers.setTimer] at hact
  next hnot => exact hnot hact

/-! ## Starting a timer -/

omit [DecidableEq ι] in
theorem passes_congr {timer timer' : ι → Timer}
    (h : ∀ j, (timer' j).timeoutTick = (timer j).timeoutTick) (i : ι) :
    SkipTimers.passes timer' i = SkipTimers.passes timer i := by
  funext t
  simp only [SkipTimers.passes, h]

/-- The rows after an accepted start. -/
def raised (mask : Nat) (s : SkipTimers ι) (i : ι) : SkipTimers ι :=
  let t := TimerRun.started s.plain i
  { rtTick := s.rtTick
    timer := t.timer
    bottom := t.timerList
    upper := SkipList.insertRows i
      (SkipTimers.towerHeight mask s.upper.length (add32 s.randomNr 1)) s.upper
      (s.upper.map fun row => (row.takeWhile (SkipTimers.passes t.timer i)).getLast?)
    randomNr := add32 s.randomNr 1 }

section Started

variable (h : SkipInv s) (hact : (s.timer i).activated = false)
  (hwin : Windowed (TimerRun.started s.plain i))
include h hact

omit [DecidableEq ι] in
theorem SkipInv.ne_of_mem {j : ι} (hj : j ∈ s.bottom) : j ≠ i := by
  rintro rfl
  rw [(h.linked j).mp hj] at hact
  cases hact

include hwin

/-- In the window the timers that the search passes come first in every row. -/
theorem SkipInv.splits :
    SkipList.Splits (SkipTimers.passes (TimerRun.started s.plain i).timer i) s.bottom := by
  obtain ⟨w, hw⟩ := hwin
  have hi := hw i (TimerRun.mem_started.mpr (.inl rfl))
  refine h.sorted.imp_of_mem fun {a b} ha hb hab => ?_
  have hwa := hw a (TimerRun.mem_started.mpr (.inr ha))
  have hwb := hw b (TimerRun.mem_started.mpr (.inr hb))
  rw [passes_iff hi hwa, passes_iff hi hwb]
  rw [TimerRun.started_of_ne (h.ne_of_mem hact ha)] at hwa ⊢
  rw [TimerRun.started_of_ne (h.ne_of_mem hact hb)] at hwb ⊢
  exact ((sub32_lt_iff hwa hwb).mp hab).trans

theorem SkipInv.raised_sorted (mask : Nat) :
    (raised mask s i).bottom.Pairwise fun a b =>
      sub32 ((raised mask s i).timer b).timeoutTick ((raised mask s i).timer a).timeoutTick <
        rtTickMax / 2 := by
  have hsplits := h.splits hact hwin
  obtain ⟨w, hw⟩ := hwin
  have hi := hw i (TimerRun.mem_started.mpr (.inl rfl))
  have hin : ∀ {j}, j ∈ s.bottom →
      sub32 ((TimerRun.started s.plain i).timer j).timeoutTick w < rtTickMax / 2 :=
    fun hj => hw _ (TimerRun.mem_started.mpr (.inr hj))
  have hold : s.bottom.Pairwise fun a b =>
      sub32 ((TimerRun.started s.plain i).timer b).timeoutTick
        ((TimerRun.started s.plain i).timer a).timeoutTick < rtTickMax / 2 := by
    refine h.sorted.imp_of_mem fun {a b} ha hb hab => ?_
    rwa [TimerRun.started_of_ne (h.ne_of_mem hact ha), TimerRun.started_of_ne (h.ne_of_mem hact hb)]
  have hlist : (raised mask s i).bottom =
      SkipList.insertAt (SkipTimers.passes (TimerRun.started s.plain i).timer i) i s.bottom :=
    insertRow_eq ..
  rw [hlist]
  refine List.pairwise_append.mpr ⟨hold.sublist (List.takeWhile_sublist _),
    List.pairwise_cons.mpr ⟨fun b hb => ?_, hold.sublist (List.dropWhile_sublist _)⟩, fun a ha b hb => ?_⟩
  · -- the search stopped before `b`, so it is later
    obtain ⟨hb, hpass⟩ := hsplits.mem_dropWhile.mp hb
    rw [← Bool.not_eq_true, passes_iff hi (hin hb)] at hpass
    exact (sub32_lt_iff hi (hin hb)).mpr (by omega)
  · obtain ⟨ha, hpass⟩ := hsplits.mem_takeWhile.mp ha
    rw [passes_iff hi (hin ha)] at hpass
    rcases List.mem_cons.mp hb with heq | hb
    · rw [heq]
      exact (sub32_lt_iff (hin ha) hi).mpr hpass
    · obtain ⟨hb, hpass'⟩ := hsplits.mem_dropWhile.mp hb
      rw [← Bool.not_eq_true, passes_iff hi (hin hb)] at hpass'
      exact (sub32_lt_iff (hin ha) (hin hb)).mpr (by omega)

theorem SkipInv.raised (mask : Nat) : SkipInv (raised mask s i) := by
  have hsplits := h.splits hact hwin
  have hperm : (TimerSkip.raised mask s i).bottom.Perm (i :: s.bottom) := TimerRun.insertRow_perm ..
  constructor
  · intro j
    rw [hperm.mem_iff, List.mem_cons]
    rcases eq_or_ne j i with rfl | hne
    · simp [TimerSkip.raised]
    · have hj := TimerRun.started_of_ne (s := s.plain) hne
      simp only [hne, false_or, TimerSkip.raised, hj]
      exact h.linked j
  · refine hperm.nodup_iff.mpr (List.nodup_cons.mpr ⟨fun hmem => ?_, h.nodup⟩)
    exact h.ne_of_mem hact hmem rfl
  · exact h.raised_sorted hact hwin mask
  · have hstack := h.stacked.insertRows (x := i)
      (SkipTimers.towerHeight mask s.upper.length (add32 s.randomNr 1) + 1)
      (fun row hrow => hsplits.sublist (h.stacked.sublist hrow)) fun row hrow => h.row_nodup hrow
    rw [SkipTimers.rows, List.map_cons, SkipList.insertRows, SkipList.insertAfter_last h.nodup,
      ← insertRow_eq] at hstack
    exact hstack

theorem SkipInv.start_eq (mask : Nat) (hinit : (s.timer i).initTick < rtTickMax / 2) :
    s.rtTimerStart mask i = some (TimerSkip.raised mask s i, .eok) := by
  have hsplits := h.splits hact hwin
  have hdescend := SkipList.descend_eq h.stacked
    (fun row hrow => hsplits.sublist (h.stacked.sublist hrow)) fun row hrow => h.row_nodup hrow
  -- the search runs before the flag is set, and does not read it
  have hpasses : SkipTimers.passes (update s.timer i
        { s.timer i with timeoutTick := add32 s.rtTick (s.timer i).initTick }) i =
      SkipTimers.passes (TimerRun.started s.plain i).timer i := by
    refine passes_congr (fun j => ?_) i
    rcases eq_or_ne j i with rfl | hne
    · simp [SkipTimers.plain]
    · rw [TimerRun.started_of_ne hne, update_of_ne hne]
      rfl
  simp only [SkipTimers.rtTimerStart, hact, rtAssert, if_pos hinit, SkipTimers.setTimer,
    update_self, update_idem]
  simp only [hact] at hpasses
  rw [SkipTimers.rows, List.map_cons] at hdescend
  simp only [SkipTimers.rows, hpasses, hdescend, Bool.false_eq_true, if_false, Option.bind_eq_bind,
    Option.bind_some, SkipList.insertAfter_last h.nodup, ← insertRow_eq]
  rfl

end Started

/-! ## The refinement -/

theorem plain_stop (s : SkipTimers ι) (i : ι) :
    (s.rtTimerStop i).1.plain = (s.plain.rtTimerStop i).1 := by
  rw [SkipTimers.rtTimerStop, Timers.rtTimerStop]
  cases hact : (s.timer i).activated with
  | true =>
    simp [SkipTimers.plain, hact]
    rfl
  | false => simp [SkipTimers.plain, hact]

theorem length_upper_stop (s : SkipTimers ι) (i : ι) :
    (s.rtTimerStop i).1.upper.length = s.upper.length := by
  rw [SkipTimers.rtTimerStop]
  split
  · exact List.length_map _
  · rfl

/-- A start in the two systems. -/
theorem SkipInv.start (h : SkipInv s) (mask : Nat) (hwin : StaysWindowed s.plain (.start i)) :
    (skipStep mask s (.start i)).map SkipTimers.plain = plainStep s.plain (.start i) ∧
      ∀ s', skipStep mask s (.start i) = some s' →
        SkipInv s' ∧ s'.upper.length = s.upper.length := by
  cases hact : (s.timer i).activated with
  | true =>
    have hskip : skipStep mask s (.start i) = some s := by
      simp [skipStep, SkipTimers.rtTimerStart, hact]
    have hplain : plainStep s.plain (.start i) = some s.plain := by
      rw [plainStep, TimerRun.rtTimerStart_activated hact]
      rfl
    rw [hskip, hplain]
    refine ⟨rfl, fun s' hs' => ?_⟩
    cases hs'
    exact ⟨h, rfl⟩
  | false =>
    by_cases hinit : (s.timer i).initTick < rtTickMax / 2
    · have hplain : plainStep s.plain (.start i) = some (TimerRun.started s.plain i) := by
        rw [plainStep, TimerRun.rtTimerStart_eq hact hinit]
        rfl
      have hwin' := hwin _ hplain
      have hskip : skipStep mask s (.start i) = some (TimerSkip.raised mask s i) := by
        rw [skipStep, h.start_eq hact hwin' mask hinit]
        rfl
      rw [hskip, hplain]
      refine ⟨rfl, fun s' hs' => ?_⟩
      cases hs'
      exact ⟨h.raised hact hwin' mask, SkipList.length_insertRows ..⟩
    · -- the assertion fails in both
      have hskip : skipStep mask s (.start i) = none := by
        simp [skipStep, SkipTimers.rtTimerStart, hact, rtAssert, hinit]
      have hplain : plainStep s.plain (.start i) = none := by
        simp [plainStep, Timers.rtTimerStart, SkipTimers.plain, hact, rtAssert, hinit]
      rw [hskip, hplain]
      exact ⟨rfl, fun s' hs' => by cases hs'⟩

theorem step_map {mask levels : Nat} {e : Event ι} (h : SkipInv s ∧ s.upper.length = levels)
    (hwin : StaysWindowed s.plain e) :
    (skipStep mask s e).map SkipTimers.plain = plainStep s.plain e ∧
      ∀ s', skipStep mask s e = some s' → SkipInv s' ∧ s'.upper.length = levels := by
  obtain ⟨hinv, rfl⟩ := h
  cases e with
  | start i => exact hinv.start mask hwin
  | stop i =>
    refine ⟨congrArg some (plain_stop s i), fun s' hs' => ?_⟩
    cases hs'
    exact ⟨hinv.stop, length_upper_stop s i⟩
  | control i cmd =>
    refine ⟨congrArg some (by cases cmd <;> rfl), fun s' hs' => ?_⟩
    cases hs'
    exact ⟨hinv.control cmd, by cases cmd <;> rfl⟩
  | tick =>
    refine ⟨rfl, fun s' hs' => ?_⟩
    cases hs'
    exact ⟨hinv.congr ⟨rfl, rfl⟩ fun _ => ⟨rfl, rfl⟩, rfl⟩

/-- The skip list is the plain list: with any number of rows, any mask and any counter, a run has the
timers of the one-level version and its list as the bottom row, every row is a subsequence of the
one below it, and a stop takes the timer out of all of them. -/
theorem skip_list_refines (mask : Nat) {s0 : SkipTimers ι} {es : List (Event ι)} (hinit : Initial s0)
    (hwin : Along plainStep StaysWindowed s0.plain es) :
    (run (skipStep mask) s0 es).map SkipTimers.plain = run plainStep s0.plain es ∧
      ∀ s, run (skipStep mask) s0 es = some s →
        (∀ i, i ∈ s.bottom ↔ (s.timer i).activated = true) ∧
        s.upper.length = s0.upper.length ∧
        SkipList.Stacked s.rows ∧
        ∀ i, ∀ row ∈ (s.rtTimerStop i).1.rows, i ∉ row := by
  obtain ⟨hmap, hinv⟩ := run_map (fun s e => step_map) ⟨hinit.inv, rfl⟩ hwin
  refine ⟨hmap, fun s hs => ?_⟩
  obtain ⟨h, hlevels⟩ := hinv s hs
  exact ⟨h.linked, hlevels, h.stacked, h.stop_not_mem⟩

/-- Four timers before the tick wraps around, with three levels. -/
def fourTimers : SkipTimers (Fin 4) where
  rtTick := 0xfffffff0
  timer i := ⟨false, false, 40 - 10 * i.val, 0⟩
  bottom := []
  upper := [[], []]
  randomNr := 0

def fourStarts : List (Event (Fin 4)) :=
  [.start 0, .start 1, .tick, .start 2, .control 3 (.setTime 20), .stop 1, .start 3, .start 1]

/-- The deadlines after a step lie in the window that begins at `w`. -/
def checkWindow (w : Nat) (s : Timers ι) (e : Event ι) : Bool :=
  (plainStep s e).all fun s' =>
    decide (∀ i ∈ s'.timerList, sub32 (s'.timer i).timeoutTick w < rtTickMax / 2)

theorem staysWindowed_of_check {w : Nat} (t : Timers ι) (e : Event ι)
    (hcheck : checkWindow w t e = true) : StaysWindowed t e := by
  intro t' ht'
  rw [checkWindow, ht', Option.all_some] at hcheck
  exact ⟨w, of_decide_eq_true hcheck⟩

theorem fourTimers_windowed : Along plainStep StaysWindowed fourTimers.plain fourStarts :=
  along_of_check (staysWindowed_of_check (w := 0xfffffff0)) (by decide +kernel)

theorem skip_list_refines_fourTimers :
    (run (skipStep 1) fourTimers fourStarts).map SkipTimers.rows =
        some [[2, 3, 1, 0], [3], [3]] ∧
      (run (skipStep 1) fourTimers fourStarts).map SkipTimers.plain =
        run plainStep fourTimers.plain fourStarts :=
  ⟨by decide +kernel, (skip_list_refines 1 ⟨by decide, by decide⟩ fourTimers_windowed).1⟩

end TimerSkip

end RtThread
