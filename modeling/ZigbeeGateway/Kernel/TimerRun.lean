-- SUMMARY: Runs of the hard timers and their deadlines.
import ZigbeeGateway.Lib.Run
import ZigbeeGateway.Kernel.Timer

/-!
# Timer runs

The system of hard timers under `rt_timer_start`, `rt_timer_stop`,
`rt_timer_detach` and ticks, each atomic, with timeout functions that touch no
timer. A history is kept beside the timers: a clock that does not wrap, when and
as which start each timer was last (re)started, and what every check fired.

The proofs read every wrapped comparison of the code on the unwrapped clock. All
linked deadlines lie in a window of `RT_TICK_MAX / 2` ticks from the clock, so
the list is sorted by deadline and start number, and a check fires exactly the
timers whose deadline has come.
-/

namespace RtThread.TimerRun

open Word Run Function

variable {ι : Type} [DecidableEq ι]

/-! ## The system -/

inductive Event (ι : Type) where
  | start (i : ι)
  | stop (i : ι)
  | detach (i : ι)
  | tick
  deriving DecidableEq

def Event.isTick : Event ι → Bool
  | .tick => true
  | _ => false

/-- The history of the (re)starts: `now` is the tick without the wrap-around,
`startedAt` and `startNo` are the clock and the number of the last (re)start
of a timer, and `starts` is the number of the next one. -/
structure History (ι : Type) where
  now : Nat
  startedAt : ι → Nat
  startNo : ι → Nat
  starts : Nat

def History.restart (g : History ι) (i : ι) : History ι :=
  { g with
    startedAt := update g.startedAt i g.now
    startNo := update g.startNo i g.starts
    starts := g.starts + 1 }

/-- The restarts of one check: the periodic ones among the fired timers, in order. -/
def History.refire (periodic : ι → Bool) (g : History ι) (fired : List ι) : History ι :=
  fired.foldl (fun g i => if periodic i then g.restart i else g) g

/-- The timers, their history and the checks so far: the tick of each check and the
timers it fired, in order. -/
structure Sys (ι : Type) where
  timers : Timers ι
  history : History ι
  checks : List (Nat × List ι)

/-- The timers that `rt_timer_start` is given. -/
def Startable (t : Timer) : Prop :=
  t.initTick < rtTickMax / 2 ∧ (t.periodic = true → 1 ≤ t.initTick)

instance (t : Timer) : Decidable (Startable t) := by
  unfold Startable
  exact inferInstance

/-- A timeout function that touches no timer. -/
def keepTimers : ι → Timers ι → Timers ι := fun _ s => s

def step (s : Sys ι) : Event ι → Option (Sys ι)
  | .start i =>
    if Startable (s.timers.timer i) then do
      let (timers, err) ← s.timers.rtTimerStart i
      if err = .eok then
        return { s with timers := timers, history := s.history.restart i }
      else
        return { s with timers := timers }
    else
      none
  | .stop i => some { s with timers := (s.timers.rtTimerStop i).1 }
  | .detach i => some { s with timers := s.timers.rtTimerDetach i }
  | .tick => do
    let (timers, fired) ← s.timers.rtTickIncrease keepTimers
    let clock := { s.history with now := s.history.now + 1 }
    return {
      timers := timers
      history := clock.refire (fun i => (s.timers.timer i).periodic) fired
      checks := s.checks ++ [(timers.rtTick, fired)] }

/-- Any tick, any timers that are not activated, and no check yet. -/
def Initial (s : Sys ι) : Prop :=
  s.timers.rtTick < size32 ∧ s.history.now = s.timers.rtTick ∧ s.timers.timerList = [] ∧
    (∀ i, (s.timers.timer i).activated = false) ∧ s.checks = []

/-! ## Deadlines -/

/-- The deadline of a timer on the unwrapped clock. -/
def deadline (s : Timers ι) (g : History ι) (i : ι) : Nat :=
  g.startedAt i + (s.timer i).initTick

/-- `i` comes before `j`: an earlier deadline, or the same deadline and an earlier start. -/
def Before (s : Timers ι) (g : History ι) (i j : ι) : Prop :=
  deadline s g i < deadline s g j ∨
    (deadline s g i = deadline s g j ∧ g.startNo i < g.startNo j)

/-- What holds of a linked timer. `lo` bounds the deadlines from below: it is the clock
between two steps, and one less while a check has not fired everything yet. -/
structure Linked (s : Timers ι) (g : History ι) (lo : Nat) (i : ι) : Prop where
  activated : (s.timer i).activated = true
  startable : Startable (s.timer i)
  timeoutTick : (s.timer i).timeoutTick = deadline s g i % size32
  lo_le : lo ≤ deadline s g i
  startedAt_le : g.startedAt i ≤ g.now
  startNo_lt : g.startNo i < g.starts

structure Inv (s : Timers ι) (g : History ι) (lo : Nat) : Prop where
  rtTick : s.rtTick = g.now % size32
  linked : ∀ i ∈ s.timerList, Linked s g lo i
  sorted : s.timerList.Pairwise (Before s g)

variable {s : Timers ι} {g : History ι} {lo : Nat} {i j t : ι} {timer : ι → Timer} {l rest : List ι}

section

omit [DecidableEq ι]

theorem Before.irrefl (i : ι) : ¬ Before s g i i := by
  simp [Before]

theorem Inv.nodup (h : Inv s g lo) : s.timerList.Nodup := by
  refine h.sorted.imp ?_
  rintro i j hij rfl
  exact Before.irrefl i hij

/-- A timer that is not activated is not linked. -/
theorem Inv.not_mem (h : Inv s g lo) {i : ι}
    (hi : (s.timer i).activated = false) : i ∉ s.timerList := by
  intro hmem
  have := (h.linked i hmem).activated
  simp [hi] at this

/-- Deadlines, orders and links of one timer read nothing but its delay and its history. -/
theorem deadline_congr {s' : Timers ι} {g' : History ι}
    (ht : (s'.timer i).initTick = (s.timer i).initTick) (hg : g'.startedAt i = g.startedAt i) :
    deadline s' g' i = deadline s g i := by
  simp [deadline, ht, hg]

theorem Linked.congr {s' : Timers ι} {g' : History ι}
    (h : Linked s g lo i) (ht : s'.timer i = s.timer i)
    (ha : g'.startedAt i = g.startedAt i) (hn : g'.startNo i = g.startNo i)
    (hnow : g.now ≤ g'.now) (hstarts : g.starts ≤ g'.starts) : Linked s' g' lo i := by
  have hd : deadline s' g' i = deadline s g i := deadline_congr (by rw [ht]) ha
  exact {
    activated := by rw [ht]; exact h.activated
    startable := by rw [ht]; exact h.startable
    timeoutTick := by rw [ht, hd]; exact h.timeoutTick
    lo_le := by rw [hd]; exact h.lo_le
    startedAt_le := by rw [ha]; exact h.startedAt_le.trans hnow
    startNo_lt := by rw [hn]; exact h.startNo_lt.trans_le hstarts }

theorem Before.congr {s' : Timers ι} {g' : History ι} (h : Before s g i j)
    (hi : deadline s' g' i = deadline s g i) (hj : deadline s' g' j = deadline s g j)
    (hni : g'.startNo i = g.startNo i) (hnj : g'.startNo j = g.startNo j) : Before s' g' i j := by
  simpa [Before, hi, hj, hni, hnj] using h

end

/-! ## The sorted insertion -/

section

omit [DecidableEq ι]

theorem insertRow_perm (timer : ι → Timer) (i : ι) (l : List ι) :
    (Timers.insertRow timer i l).Perm (i :: l) := by
  induction l with
  | nil => exact .refl _
  | cons t rest ih =>
    unfold Timers.insertRow
    split_ifs
    · exact (ih.cons t).trans (.swap i t rest)
    · exact .refl _
    · exact (ih.cons t).trans (.swap i t rest)

theorem mem_insertRow : j ∈ Timers.insertRow timer i l ↔ j = i ∨ j ∈ l :=
  (insertRow_perm timer i l).mem_iff.trans List.mem_cons

/-- Inserting a timer that fails `p` does not change what `p` selects. -/
theorem filter_insertRow {p : ι → Bool} (hi : p i = false)
    (l : List ι) : (Timers.insertRow timer i l).filter p = l.filter p := by
  induction l with
  | nil => simp [Timers.insertRow, hi]
  | cons t rest ih =>
    unfold Timers.insertRow
    split_ifs <;> simp [List.filter_cons, ih, hi]

/-- The insertion keeps the order when the wrapped comparison with each linked timer reads
as the comparison of the deadlines, and the new timer has the latest start. -/
theorem insertRow_sorted
    (hl : l.Pairwise (Before s g)) (hno : ∀ t ∈ l, g.startNo t < g.startNo i)
    (hle : ∀ t ∈ l, deadline s g t ≤ deadline s g i →
      sub32 (s.timer t).timeoutTick (s.timer i).timeoutTick = 0 ∨
        rtTickMax / 2 ≤ sub32 (s.timer t).timeoutTick (s.timer i).timeoutTick)
    (hlt : ∀ t ∈ l, deadline s g i < deadline s g t →
      sub32 (s.timer t).timeoutTick (s.timer i).timeoutTick ≠ 0 ∧
        sub32 (s.timer t).timeoutTick (s.timer i).timeoutTick < rtTickMax / 2) :
    (Timers.insertRow s.timer i l).Pairwise (Before s g) := by
  induction l with
  | nil => simp [Timers.insertRow]
  | cons t rest ih =>
    obtain ⟨ht, hrest⟩ := List.pairwise_cons.mp hl
    have hih := ih hrest (fun x hx => hno x (by simp [hx])) (fun x hx => hle x (by simp [hx]))
      (fun x hx => hlt x (by simp [hx]))
    rcases Nat.lt_or_ge (deadline s g i) (deadline s g t) with hcmp | hcmp
    · -- the loop stops at `t`, and everything behind `t` is even later
      obtain ⟨hne, hhalf⟩ := hlt t (by simp) hcmp
      rw [Timers.insertRow, if_neg hne, if_pos hhalf]
      refine List.pairwise_cons.mpr ⟨?_, hl⟩
      intro x hx
      rcases List.mem_cons.mp hx with rfl | hx
      · exact Or.inl hcmp
      · have := ht x hx
        unfold Before at this ⊢
        omega
    · have hpass : Timers.insertRow s.timer i (t :: rest) = t :: Timers.insertRow s.timer i rest := by
        rw [Timers.insertRow]
        rcases hle t (by simp) hcmp with h0 | hfar
        · rw [if_pos h0]
        · have h0 : sub32 (s.timer t).timeoutTick (s.timer i).timeoutTick ≠ 0 := by
            unfold rtTickMax at hfar
            omega
          rw [if_neg h0, if_neg (Nat.not_lt.mpr hfar)]
      rw [hpass]
      refine List.pairwise_cons.mpr ⟨?_, hih⟩
      intro x hx
      rcases mem_insertRow.mp hx with rfl | hx
      · have := hno t (by simp)
        unfold Before
        omega
      · exact ht x hx

/-- The insertion reads only the timeout ticks. -/
theorem insertRow_congr {timer' : ι → Timer}
    (h : ∀ j, (timer' j).timeoutTick = (timer j).timeoutTick) :
    Timers.insertRow timer' i l = Timers.insertRow timer i l := by
  induction l with
  | nil => rfl
  | cons t rest ih => simp only [Timers.insertRow, h, ih]

end

/-! ## Starting a timer -/

/-- The timers after an accepted `rt_timer_start`. -/
def started (s : Timers ι) (i : ι) : Timers ι :=
  let timer := update s.timer i
    { s.timer i with
      activated := true
      timeoutTick := add32 s.rtTick (s.timer i).initTick }
  { s with timer := timer, timerList := Timers.insertRow timer i s.timerList }

section Started

variable (s : Timers ι) (i : ι)

@[simp] theorem started_rtTick : (started s i).rtTick = s.rtTick := rfl

@[simp] theorem started_same : (started s i).timer i =
    { s.timer i with
      activated := true
      timeoutTick := add32 s.rtTick (s.timer i).initTick } := update_self ..

variable {s i} in
theorem started_of_ne (h : j ≠ i) : (started s i).timer j = s.timer j :=
  update_of_ne h ..

theorem started_initTick (j : ι) : ((started s i).timer j).initTick = (s.timer j).initTick := by
  rcases eq_or_ne j i with rfl | h
  · simp
  · rw [started_of_ne h]

variable {s i} in
theorem mem_started : j ∈ (started s i).timerList ↔ j = i ∨ j ∈ s.timerList := mem_insertRow

end Started

theorem rtTimerStart_eq (hact : (s.timer i).activated = false)
    (hinit : (s.timer i).initTick < rtTickMax / 2) :
    s.rtTimerStart i = some (started s i, .eok) := by
  -- the insertion runs before the flag is set, and does not read it
  have hrow : Timers.insertRow
      (update s.timer i
        { s.timer i with timeoutTick := add32 s.rtTick (s.timer i).initTick }) i s.timerList =
      (started s i).timerList := by
    refine (insertRow_congr fun j => ?_).symm
    rcases eq_or_ne j i with rfl | h
    · simp
    · simp [update_of_ne h]
  simp only [Timers.rtTimerStart, hact, rtAssert, if_pos hinit, Timers.setTimer,
    update_self, update_idem]
  simp only [hact] at hrow
  rw [hrow]
  rfl

theorem rtTimerStart_cases {timers timers' : Timers ι} {err : Err}
    (h : timers.rtTimerStart i = some (timers', err)) :
    ((timers.timer i).activated = true ∧ timers' = timers ∧ err = .error) ∨
    ((timers.timer i).activated = false ∧ timers' = started timers i ∧ err = .eok) := by
  cases hact : (timers.timer i).activated with
  | true =>
    rw [Timers.rtTimerStart, if_pos hact] at h
    cases h
    exact .inl ⟨rfl, rfl, rfl⟩
  | false =>
    by_cases hinit : (timers.timer i).initTick < rtTickMax / 2
    · rw [rtTimerStart_eq hact hinit] at h
      cases h
      exact .inr ⟨rfl, rfl, rfl⟩
    · simp [Timers.rtTimerStart, hact, rtAssert, hinit] at h

theorem rtTimerStart_activated (hact : (s.timer i).activated = true) :
    s.rtTimerStart i = some (s, .error) := by
  simp [Timers.rtTimerStart, hact]

section Restart

variable (g : History ι) (i : ι)

@[simp] theorem restart_now : (g.restart i).now = g.now := rfl
@[simp] theorem restart_starts : (g.restart i).starts = g.starts + 1 := rfl
@[simp] theorem restart_startedAt_same : (g.restart i).startedAt i = g.now := update_self ..
@[simp] theorem restart_startNo_same : (g.restart i).startNo i = g.starts := update_self ..

variable {g i} in
theorem restart_startedAt_of_ne (h : j ≠ i) :
    (g.restart i).startedAt j = g.startedAt j := update_of_ne h ..

variable {g i} in
theorem restart_startNo_of_ne (h : j ≠ i) : (g.restart i).startNo j = g.startNo j :=
  update_of_ne h ..

end Restart

theorem deadline_started (s : Timers ι) (g : History ι) (i : ι) :
    deadline (started s i) (g.restart i) i = g.now + (s.timer i).initTick := by
  simp [deadline]

theorem deadline_started_of_ne (h : j ≠ i) :
    deadline (started s i) (g.restart i) j = deadline s g j :=
  deadline_congr (started_initTick s i j) (restart_startedAt_of_ne h)

/-- An accepted start keeps the invariant: the deadlines are within half the tick range of
each other, so every wrapped comparison of the insertion is the right one. -/
theorem Inv.started (h : Inv s g lo)
    (hlo : lo ≤ g.now) (hnow : g.now ≤ lo + 1) (hi : i ∉ s.timerList)
    (hstart : Startable (s.timer i)) : Inv (TimerRun.started s i) (g.restart i) lo := by
  have hne : ∀ j ∈ s.timerList, j ≠ i := fun j hj hji => hi (hji ▸ hj)
  have htick : ((TimerRun.started s i).timer i).timeoutTick =
      (g.now + (s.timer i).initTick) % size32 := by
    simp only [started_same, add32, h.rtTick, size32]
    omega
  have hlinked : ∀ j ∈ s.timerList, Linked (TimerRun.started s i) (g.restart i) lo j := by
    intro j hj
    exact (h.linked j hj).congr (started_of_ne (hne j hj))
      (restart_startedAt_of_ne (hne j hj)) (restart_startNo_of_ne (hne j hj)) le_rfl
      (Nat.le_succ _)
  -- every linked deadline lies in the window `[lo, now + RT_TICK_MAX / 2)`
  have hwindow : ∀ j ∈ s.timerList, lo ≤ deadline s g j ∧
      deadline s g j < g.now + rtTickMax / 2 := by
    intro j hj
    have hl := h.linked j hj
    have h1 := hl.startedAt_le
    have h2 := hl.startable.1
    exact ⟨hl.lo_le, by unfold deadline; omega⟩
  refine ⟨by simpa using h.rtTick, ?_, ?_⟩
  · intro j hj
    rcases mem_started.mp hj with rfl | hj
    · exact {
        activated := by simp
        startable := by simpa [Startable] using hstart
        timeoutTick := by rw [htick, deadline_started]
        lo_le := by rw [deadline_started]; omega
        startedAt_le := by simp
        startNo_lt := by simp }
    · exact hlinked j hj
  · have hd := hstart.1
    refine insertRow_sorted ?_ ?_ ?_ ?_
    · refine h.sorted.imp_of_mem fun {a b} ha hb hab => ?_
      exact hab.congr (deadline_started_of_ne (hne a ha)) (deadline_started_of_ne (hne b hb))
        (restart_startNo_of_ne (hne a ha)) (restart_startNo_of_ne (hne b hb))
    · intro t ht
      rw [restart_startNo_same, restart_startNo_of_ne (hne t ht)]
      exact (h.linked t ht).startNo_lt
    · intro t ht hle
      rw [(hlinked t ht).timeoutTick, htick]
      rw [deadline_started, deadline_started_of_ne (hne t ht)] at *
      obtain ⟨h1, h2⟩ := hwindow t ht
      rcases Nat.eq_or_lt_of_le hle with heq | hlt
      · left
        rw [heq, sub32_mod_of_le le_rfl (by simp [size32]), Nat.sub_self]
      · right
        unfold rtTickMax at *
        rw [sub32_mod_of_lt hlt (by unfold size32; omega)]
        unfold size32
        omega
    · intro t ht hlt
      rw [(hlinked t ht).timeoutTick, htick]
      rw [deadline_started, deadline_started_of_ne (hne t ht)] at *
      obtain ⟨h1, h2⟩ := hwindow t ht
      unfold rtTickMax at *
      rw [sub32_mod_of_le hlt.le (by unfold size32; omega)]
      omega

/-! ## Unlinking a timer -/

/-- The timers after `rt_timer_stop` of an activated timer. -/
def stopped (s : Timers ι) (i : ι) : Timers ι :=
  (s.rtTimerRemove i).setTimer i { s.timer i with activated := false }

theorem stopped_of_ne (h : j ≠ i) : (stopped s i).timer j = s.timer j :=
  Timers.setTimer_of_ne _ _ h

@[simp] theorem stopped_same (s : Timers ι) (i : ι) :
    (stopped s i).timer i = { s.timer i with activated := false } := Timers.setTimer_same ..

@[simp] theorem stopped_timerList (s : Timers ι) (i : ι) :
    (stopped s i).timerList = s.timerList.erase i := rfl

/-- A linked timer after its timeout function, which changed no timer. -/
theorem rearm_eq (hact : (s.timer i).activated = true) (hinit : (s.timer i).initTick < rtTickMax / 2) :
    (s.rtTimerRemove i).rearm i =
      some (if (s.timer i).periodic then started (stopped s i) i else stopped s i) := by
  cases hp : (s.timer i).periodic with
  | false => simp [Timers.rearm, hp, stopped]
  | true =>
    have heq := rtTimerStart_eq (s := stopped s i) (i := i) (by simp) (by simpa using hinit)
    rw [Timers.rearm, if_pos ⟨hp, hact⟩]
    change ((stopped s i).rtTimerStart i).bind _ = _
    rw [heq]
    rfl

theorem Inv.removed (h : Inv s g lo) (i : ι) :
    Inv (s.rtTimerRemove i) g lo where
  rtTick := h.rtTick
  linked := by
    intro j hj
    exact (h.linked j (List.mem_of_mem_erase hj)).congr rfl rfl rfl le_rfl le_rfl
  sorted := h.sorted.sublist List.erase_sublist

theorem Inv.stopped (h : Inv s g lo) (i : ι) : Inv (stopped s i) g lo := by
  have hne : ∀ j ∈ s.timerList.erase i, j ≠ i := fun j hj => (h.nodup.mem_erase_iff.mp hj).1
  refine ⟨h.rtTick, ?_, ?_⟩
  · intro j hj
    exact (h.linked j (List.mem_of_mem_erase hj)).congr (stopped_of_ne (hne j hj)) rfl rfl le_rfl
      le_rfl
  · refine (h.sorted.sublist List.erase_sublist).imp_of_mem fun {a b} ha hb hab => ?_
    exact hab.congr (deadline_congr (by rw [stopped_of_ne (hne a ha)]) rfl)
      (deadline_congr (by rw [stopped_of_ne (hne b hb)]) rfl) rfl rfl

/-! ## The check -/

/-- The deadline of `i` has come. -/
def due (s : Timers ι) (g : History ι) (i : ι) : Bool := decide (deadline s g i ≤ g.now)

omit [DecidableEq ι] in
theorem filter_due_congr {s' : Timers ι} {g' : History ι} (hnow : g'.now = g.now)
    (h : ∀ j ∈ l, deadline s' g' j = deadline s g j) :
    l.filter (due s' g') = l.filter (due s g) := by
  refine List.filter_congr fun j hj => ?_
  simp only [due, h j hj, hnow]

section Refire

variable (periodic : ι → Bool)

@[simp] theorem refire_nil (g : History ι) : g.refire periodic [] = g := rfl

@[simp] theorem refire_cons (g : History ι) (t : ι) (fired : List ι) :
    g.refire periodic (t :: fired) =
      (if periodic t then g.restart t else g).refire periodic fired := rfl

@[simp] theorem refire_now (g : History ι) (fired : List ι) :
    (g.refire periodic fired).now = g.now := by
  induction fired generalizing g with
  | nil => rfl
  | cons t fired ih =>
    rw [refire_cons, ih]
    split <;> rfl

theorem refire_startedAt (g : History ι) (fired : List ι) (j : ι) :
    (g.refire periodic fired).startedAt j =
      if j ∈ fired ∧ periodic j then g.now else g.startedAt j := by
  induction fired generalizing g with
  | nil => simp
  | cons t fired ih =>
    rw [refire_cons, ih]
    rcases eq_or_ne j t with rfl | h
    · by_cases hp : periodic j = true <;> simp [hp]
    · by_cases hp : periodic t = true <;> simp [hp, h, restart_startedAt_of_ne h]

end Refire

/-- The history after timer `t` fired. -/
def History.fire (g : History ι) (s : Timers ι) (t : ι) : History ι :=
  if (s.timer t).periodic then g.restart t else g

@[simp] theorem History.fire_now (g : History ι) (s : Timers ι) (t : ι) :
    (g.fire s t).now = g.now := by
  unfold History.fire
  split <;> rfl

/-- What one round of the check does when it fires the head `t` of the list. -/
structure Fired (s : Timers ι) (g : History ι) (lo : Nat) (t : ι) (rest : List ι)
    (s' : Timers ι) : Prop where
  inv : Inv s' (g.fire s t) lo
  other : ∀ j, j ≠ t → s'.timer j = s.timer j
  periodic : (s'.timer t).periodic = (s.timer t).periodic
  initTick : (s'.timer t).initTick = (s.timer t).initTick
  activated : (s'.timer t).activated = (s.timer t).periodic
  due : s'.timerList.filter (TimerRun.due s' (g.fire s t)) = rest.filter (TimerRun.due s g)
  mem : ∀ j, j ∈ s'.timerList ↔ j ∈ rest ∨ (j = t ∧ (s.timer t).periodic)

/-- A fired timer is stopped, or started again with a deadline past the clock. -/
theorem rearm_fired
    (h : Inv s g lo) (hlist : s.timerList = t :: rest) (hlo : lo + 1 = g.now) :
    ∃ s', (s.rtTimerRemove t).rearm t = some s' ∧ Fired s g lo t rest s' := by
  have hl := h.linked t (by simp [hlist])
  have hstop := h.stopped t
  have htrest : t ∉ rest := (List.nodup_cons.mp (hlist ▸ h.nodup)).1
  have herase : (TimerRun.stopped s t).timerList = rest := by simp [hlist]
  have hne : ∀ j ∈ rest, j ≠ t := fun j hj hjt => htrest (hjt ▸ hj)
  refine ⟨_, rearm_eq hl.activated hl.startable.1, ?_⟩
  cases hp : (s.timer t).periodic with
  | false =>
    have hg : g.fire s t = g := by simp [History.fire, hp]
    rw [if_neg nofun]
    exact {
      inv := by rw [hg]; exact hstop
      other := fun j hj => stopped_of_ne hj
      periodic := by simp
      initTick := by simp
      activated := by simp [hp]
      due := by
        rw [hg, herase]
        exact filter_due_congr rfl fun j hj => deadline_congr (by rw [stopped_of_ne (hne j hj)]) rfl
      mem := by
        intro j
        rw [herase]
        simp [hp] }
  | true =>
    have hg : g.fire s t = g.restart t := by simp [History.fire, hp]
    have hstart : Startable ((TimerRun.stopped s t).timer t) := by
      simpa [Startable] using hl.startable
    have hpos : 1 ≤ (s.timer t).initTick := hl.startable.2 hp
    have hinv := hstop.started (by omega) (by omega) (by rw [herase]; exact htrest) hstart
    rw [if_pos rfl]
    exact {
      inv := by rw [hg]; exact hinv
      other := fun j hj => (started_of_ne hj).trans (stopped_of_ne hj)
      periodic := by simp
      initTick := by simp
      activated := by simp [hp]
      due := by
        rw [hg]
        have hnot : TimerRun.due (TimerRun.started (TimerRun.stopped s t) t) (g.restart t) t =
            false := by
          simp only [TimerRun.due, deadline_started, restart_now, stopped_same]
          exact decide_eq_false (by omega)
        change List.filter _ (Timers.insertRow _ t (TimerRun.stopped s t).timerList) = _
        rw [filter_insertRow hnot, herase]
        refine filter_due_congr rfl fun j hj => ?_
        rw [deadline_started_of_ne (hne j hj)]
        exact deadline_congr (by rw [stopped_of_ne (hne j hj)]) rfl
      mem := by
        intro j
        rw [mem_started, herase]
        tauto }

omit [DecidableEq ι] in
/-- The expiry test of the loop reads as the comparison of the clock with the deadline. -/
theorem Linked.expired_iff
    (hl : Linked s g lo i) (htick : s.rtTick = g.now % size32) (hlo : lo + 1 = g.now) :
    sub32 s.rtTick (s.timer i).timeoutTick < rtTickMax / 2 ↔ due s g i = true := by
  have h1 := hl.lo_le
  have h2 : deadline s g i < g.now + rtTickMax / 2 := by
    have := hl.startedAt_le
    have := hl.startable.1
    unfold deadline
    omega
  rw [htick, hl.timeoutTick, due, decide_eq_true_eq]
  unfold rtTickMax at *
  rcases Nat.lt_or_ge g.now (deadline s g i) with hlt | hle
  · rw [sub32_mod_of_lt hlt (by unfold size32; omega)]
    unfold size32
    omega
  · rw [sub32_mod_of_le hle (by unfold size32; omega)]
    omega

/-- What a whole check does, from timers `s` to timers `s'`. -/
structure Checked (s : Timers ι) (g : History ι) (fired : List ι) (s' : Timers ι) : Prop where
  inv : Inv s' (g.refire (fun i => (s.timer i).periodic) fired) g.now
  other : ∀ j, j ∉ fired → s'.timer j = s.timer j
  periodic : ∀ j, (s'.timer j).periodic = (s.timer j).periodic
  initTick : ∀ j, (s'.timer j).initTick = (s.timer j).initTick
  activated : ∀ j ∈ fired, (s'.timer j).activated = (s.timer j).periodic
  mem : ∀ j, j ∈ s'.timerList ↔ j ∈ s.timerList ∧ (j ∈ fired → (s.timer j).periodic)

omit [DecidableEq ι] in
theorem Before.deadline_le (h : Before s g i j) : deadline s g i ≤ deadline s g j := by
  unfold Before at h
  omega

omit [DecidableEq ι] in
/-- When the head of the list is not due, nothing is. -/
theorem Inv.none_due
    (h : Inv s g lo) (hlist : s.timerList = t :: rest) (hd : due s g t = false) :
    ∀ j ∈ s.timerList, g.now < deadline s g j := by
  have ht : g.now < deadline s g t := by simpa [due] using hd
  intro j hj
  rw [hlist] at hj
  rcases List.mem_cons.mp hj with rfl | hj
  · exact ht
  · have hsorted := h.sorted
    rw [hlist] at hsorted
    exact ht.trans_le ((List.pairwise_cons.mp hsorted).1 j hj).deadline_le

/-- A check that fires nothing. -/
theorem Checked.of_none_due (h : Inv s g lo)
    (hnone : ∀ j ∈ s.timerList, g.now < deadline s g j) : Checked s g [] s where
  inv := ⟨h.rtTick, fun j hj => { h.linked j hj with lo_le := (hnone j hj).le }, h.sorted⟩
  other := fun _ _ => rfl
  periodic := fun _ => rfl
  initTick := fun _ => rfl
  activated := by simp
  mem := by simp

/-- One fired timer followed by the rest of the check. -/
theorem Checked.cons {s1 s' : Timers ι}
    {fired : List ι} (hlist : s.timerList = t :: rest) (hnodup : s.timerList.Nodup)
    (hsub : ∀ j ∈ fired, j ∈ rest) (hf : Fired s g lo t rest s1)
    (hc : Checked s1 (g.fire s t) fired s') : Checked s g (t :: fired) s' := by
  have htrest : t ∉ rest := (List.nodup_cons.mp (hlist ▸ hnodup)).1
  have hper : ∀ j, (s1.timer j).periodic = (s.timer j).periodic := by
    intro j
    rcases eq_or_ne j t with rfl | hj
    · exact hf.periodic
    · rw [hf.other j hj]
  have hne : ∀ j ∈ fired, j ≠ t := fun j hj hjt => htrest (hjt ▸ hsub j hj)
  exact {
    inv := by
      have := hc.inv
      simp only [hper, History.fire_now] at this
      exact this
    other := by
      intro j hj
      simp only [List.mem_cons, not_or] at hj
      rw [hc.other j hj.2, hf.other j hj.1]
    periodic := fun j => (hc.periodic j).trans (hper j)
    initTick := by
      intro j
      rw [hc.initTick j]
      rcases eq_or_ne j t with rfl | hj
      · exact hf.initTick
      · rw [hf.other j hj]
    activated := by
      intro j hj
      rcases List.mem_cons.mp hj with rfl | hj
      · rw [hc.other j (fun hjf => hne j hjf rfl), hf.activated]
      · rw [hc.activated j hj, hper]
    mem := by
      intro j
      rw [hc.mem j, hf.mem j, hper j, hlist]
      rcases eq_or_ne j t with rfl | hj
      · have hjf : j ∉ fired := fun h => hne j h rfl
        simp [htrest, hjf]
      · simp [hj] }

/-- The loop of `rt_timer_check` fires exactly the due timers, in list order, and returns. -/
theorem rtTimerCheckLoop_spec (fuel : Nat) {s : Timers ι} {g : History ι} {lo : Nat}
    (h : Inv s g lo) (hlo : lo + 1 = g.now) (hfuel : (s.timerList.filter (due s g)).length < fuel) :
    ∃ s', Timers.rtTimerCheckLoop keepTimers fuel s.rtTick s =
        some (s', s.timerList.filter (due s g)) ∧
      Checked s g (s.timerList.filter (due s g)) s' := by
  induction fuel generalizing s g with
  | zero => omega
  | succ fuel ih =>
    cases hlist : s.timerList with
    | nil =>
      refine ⟨s, by simp [Timers.rtTimerCheckLoop, hlist], ?_⟩
      exact Checked.of_none_due h (by simp [hlist])
    | cons t rest =>
      have hiff := (h.linked t (by simp [hlist])).expired_iff h.rtTick hlo
      cases hd : due s g t with
      | false =>
        have hnone := h.none_due hlist hd
        have hfilter : (t :: rest).filter (due s g) = [] := by
          rw [← hlist, List.filter_eq_nil_iff]
          intro j hj
          simpa [due] using hnone j hj
        rw [hfilter]
        refine ⟨s, ?_, Checked.of_none_due h hnone⟩
        have hnot : ¬ sub32 s.rtTick (s.timer t).timeoutTick < rtTickMax / 2 := by
          rw [hiff, hd]
          simp
        simp only [Timers.rtTimerCheckLoop, hlist, if_neg hnot]
      | true =>
        obtain ⟨s1, hre, hf⟩ := rearm_fired h hlist hlo
        have hfilter : (t :: rest).filter (due s g) = t :: rest.filter (due s g) :=
          List.filter_cons_of_pos hd
        rw [hlist, hfilter, List.length_cons] at hfuel
        obtain ⟨s', hrun, hc⟩ := ih hf.inv (by simpa using hlo) (by rw [hf.due]; omega)
        rw [hf.due] at hrun hc
        rw [hfilter]
        refine ⟨s', ?_, hc.cons hlist h.nodup (fun j hj => (List.mem_filter.mp hj).1) hf⟩
        have htick : s1.rtTick = s.rtTick := by
          rw [hf.inv.rtTick, h.rtTick, History.fire_now]
        have hpos : sub32 s.rtTick (s.timer t).timeoutTick < rtTickMax / 2 := hiff.mpr hd
        rw [htick] at hrun
        simp [Timers.rtTimerCheckLoop, hlist, hpos, keepTimers, hre, hrun]

end RtThread.TimerRun
