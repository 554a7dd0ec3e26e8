-- SUMMARY: Every started timer fires exactly on time, and in order.
import ZigbeeGateway.Kernel.TimerRun

/-!
# Exactness of the timers

One timer is followed through a run, from the start that was accepted to the last
step. `Track` says where it stands after `k` checks; every step keeps it, and a
check fires the timer exactly when the schedule says so.
-/

namespace RtThread.TimerRun

open Word Run

variable {ι : Type} [DecidableEq ι]

/-! ## What each event does between two checks -/

/-- The invariant of a run, between two steps. -/
def SysInv (s : Sys ι) : Prop := Inv s.timers s.history s.history.now

variable {s : Sys ι} {i : ι} {e : Event ι} {periodic : Bool} {k : Nat}

omit [DecidableEq ι] in
theorem Initial.inv (h : Initial s) : SysInv s := by
  obtain ⟨htick, hnow, hlist, -, -⟩ := h
  refine ⟨by rw [hnow, Nat.mod_eq_of_lt htick], ?_, ?_⟩ <;> simp [hlist]

/-- The clock that a tick moves on. -/
def clock (s : Sys ι) : History ι := { s.history with now := s.history.now + 1 }

/-- The timers that the check of the next tick fires, in order. -/
def dueNext (s : Sys ι) : List ι := s.timers.timerList.filter (due s.timers (clock s))

/-- A tick is always defined, and fires exactly the timers whose deadline has come. -/
theorem tick_spec (h : SysInv s) :
    ∃ timers, step s .tick = some {
        timers := timers
        history := (clock s).refire (fun i => (s.timers.timer i).periodic) (dueNext s)
        checks := s.checks ++ [((s.history.now + 1) % size32, dueNext s)] } ∧
      Checked { s.timers with rtTick := add32 s.timers.rtTick 1 } (clock s) (dueNext s) timers := by
  have hinv : Inv { s.timers with rtTick := add32 s.timers.rtTick 1 } (clock s) s.history.now := by
    refine ⟨?_, ?_, h.sorted⟩
    · simp only [clock, add32, h.rtTick, size32]
      omega
    · intro i hi
      exact (h.linked i hi).congr rfl rfl rfl (Nat.le_succ _) le_rfl
  obtain ⟨timers, hrun, hc⟩ := rtTimerCheckLoop_spec (s.timers.timerList.length + 1) hinv rfl
    (Nat.lt_succ_of_le (List.length_filter_le _ _))
  refine ⟨timers, ?_, hc⟩
  have htick : timers.rtTick = (s.history.now + 1) % size32 := by
    rw [hc.inv.rtTick]
    simp [clock]
  change (Timers.rtTimerCheckLoop keepTimers (s.timers.timerList.length + 1) _ _).bind _ = _
  rw [hrun]
  change some _ = some _
  rw [htick]
  rfl

/-- Inversion of a start: it is refused and changes nothing, or it is accepted. -/
theorem start_cases {s' : Sys ι} (hstep : step s (.start i) = some s') :
    Startable (s.timers.timer i) ∧
      (((s.timers.timer i).activated = true ∧ s' = s) ∨
        ((s.timers.timer i).activated = false ∧
          s' = { s with timers := started s.timers i, history := s.history.restart i })) := by
  simp only [step] at hstep
  split at hstep
  · rename_i hst
    refine ⟨hst, ?_⟩
    cases hact : (s.timers.timer i).activated with
    | true =>
      rw [rtTimerStart_activated hact] at hstep
      left
      simpa using hstep.symm
    | false =>
      rw [rtTimerStart_eq hact hst.1] at hstep
      right
      simpa using hstep.symm
  · cases hstep

theorem rtTimerStop_cases (s : Timers ι) (i : ι) :
    (s.rtTimerStop i).1 = s ∨ (s.rtTimerStop i).1 = stopped s i := by
  unfold Timers.rtTimerStop
  split
  · exact .inr rfl
  · exact .inl rfl

/-- Every step keeps the invariant. -/
theorem step_inv {s' : Sys ι} (h : SysInv s) (hstep : step s e = some s') : SysInv s' := by
  cases e with
  | start i =>
    obtain ⟨hst, ⟨-, rfl⟩ | ⟨hact, rfl⟩⟩ := start_cases hstep
    · exact h
    · exact Inv.started h le_rfl (Nat.le_succ _) (h.not_mem hact) hst
  | stop i =>
    cases hstep
    rcases rtTimerStop_cases s.timers i with heq | heq
    · rw [SysInv, heq]
      exact h
    · rw [SysInv, heq]
      exact Inv.stopped h i
  | detach i =>
    cases hstep
    exact Inv.removed h i
  | tick =>
    obtain ⟨timers, heq, hc⟩ := tick_spec h
    rw [heq] at hstep
    cases hstep
    simpa [SysInv] using hc.inv

/-! ## Following one timer -/

/-- Check number `n` after the start fires a timer with delay `d`. -/
def Fires (periodic : Bool) (d n : Nat) : Prop :=
  if periodic then d ∣ n else n = max d 1

instance (periodic : Bool) (d n : Nat) : Decidable (Fires periodic d n) := by
  unfold Fires
  exact inferInstance

/-- Timer `i` was started when the clock was `S`, and `k` checks have passed since. -/
structure Track (s : Sys ι) (i : ι) (S d : Nat) (periodic : Bool) (k : Nat) : Prop where
  inv : SysInv s
  now : s.history.now = S + k
  initTick : (s.timers.timer i).initTick = d
  isPeriodic : (s.timers.timer i).periodic = periodic
  pos : periodic = true → 1 ≤ d
  again : periodic = true →
    i ∈ s.timers.timerList ∧ deadline s.timers s.history i = S + (k / d + 1) * d
  pending : periodic = false → k < max d 1 →
    i ∈ s.timers.timerList ∧ deadline s.timers s.history i = S + d
  gone : periodic = false → max d 1 ≤ k → i ∉ s.timers.timerList

omit [DecidableEq ι] in
/-- A step that leaves the links and the deadline of the timer alone keeps the track. -/
theorem Track.keep {s' : Sys ι} {S d : Nat}
    (h : Track s i S d periodic k) (hinv : SysInv s') (hnow : s'.history.now = s.history.now)
    (htimer : s'.timers.timer i = s.timers.timer i)
    (hat : s'.history.startedAt i = s.history.startedAt i)
    (hmem : i ∈ s'.timers.timerList ↔ i ∈ s.timers.timerList) : Track s' i S d periodic k := by
  have hd : deadline s'.timers s'.history i = deadline s.timers s.history i :=
    deadline_congr (by rw [htimer]) hat
  exact {
    inv := hinv
    now := hnow.trans h.now
    initTick := by rw [htimer]; exact h.initTick
    isPeriodic := by rw [htimer]; exact h.isPeriodic
    pos := h.pos
    again := by rw [hmem, hd]; exact h.again
    pending := by rw [hmem, hd]; exact h.pending
    gone := by rw [hmem]; exact h.gone }

/-- Between checks, the events of other timers and refused starts keep the track. -/
theorem Track.step {s' : Sys ι} {S d : Nat}
    (h : Track s i S d periodic k) (hstep : step s e = some s') (htick : e ≠ .tick)
    (hstop : e ≠ .stop i) (hdetach : e ≠ .detach i)
    (honce : e = .start i → periodic = false → k < max d 1) :
    Track s' i S d periodic k ∧ s'.checks = s.checks := by
  have hinv := step_inv h.inv hstep
  cases e with
  | tick => exact absurd rfl htick
  | start j =>
    obtain ⟨hst, ⟨-, rfl⟩ | ⟨hact, rfl⟩⟩ := start_cases hstep
    · exact ⟨h, rfl⟩
    · -- an accepted start is one of another timer: timer `i` is linked, hence activated
      have hij : i ≠ j := by
        rintro rfl
        have hmem : i ∈ s.timers.timerList := by
          cases periodic with
          | true => exact (h.again rfl).1
          | false => exact (h.pending rfl (honce rfl rfl)).1
        exact Inv.not_mem h.inv hact hmem
      refine ⟨h.keep hinv rfl (started_of_ne hij) (restart_startedAt_of_ne hij) ?_, rfl⟩
      simp [mem_started, hij]
  | stop j =>
    cases hstep
    have hij : i ≠ j := fun hij => hstop (hij ▸ rfl)
    refine ⟨?_, rfl⟩
    rcases rtTimerStop_cases s.timers j with heq | heq
    · exact h.keep hinv rfl (by rw [heq]) rfl (by rw [heq])
    · refine h.keep hinv rfl ?_ rfl ?_
      · simpa only [heq] using stopped_of_ne hij
      · simp only [heq, stopped_timerList]
        exact List.mem_erase_of_ne hij
  | detach j =>
    cases hstep
    have hij : i ≠ j := fun hij => hdetach (hij ▸ rfl)
    exact ⟨h.keep hinv rfl rfl rfl (List.mem_erase_of_ne hij), rfl⟩

omit [DecidableEq ι] in
/-- The check fires the followed timer exactly when the schedule says so. -/
theorem Track.mem_dueNext {S d : Nat}
    (h : Track s i S d periodic k) : i ∈ dueNext s ↔ Fires periodic d (k + 1) := by
  have hdue : i ∈ dueNext s ↔ i ∈ s.timers.timerList ∧ deadline s.timers s.history i ≤ s.history.now + 1 := by
    simp only [dueNext, List.mem_filter, due, decide_eq_true_eq]
    rfl
  rw [hdue, h.now]
  cases periodic with
  | true =>
    obtain ⟨hmem, hd⟩ := h.again rfl
    have hpos := h.pos rfl
    have hlt : k < (k / d + 1) * d := by
      rw [Nat.mul_comm]
      exact Nat.lt_mul_div_succ k hpos
    simp only [hmem, hd, true_and, Fires, if_true]
    constructor
    · intro hle
      exact ⟨k / d + 1, by rw [Nat.mul_comm]; omega⟩
    · intro hdvd
      have hk : (k + 1) / d = k / d + 1 := by
        rw [Nat.succ_div, if_pos hdvd]
      have := Nat.div_mul_cancel hdvd
      rw [hk] at this
      omega
  | false =>
    simp only [Fires, Bool.false_eq_true, if_false]
    rcases Nat.lt_or_ge k (max d 1) with hk | hk
    · obtain ⟨hmem, hd⟩ := h.pending rfl hk
      simp only [hmem, hd, true_and]
      omega
    · have hmem := h.gone rfl hk
      simp only [hmem, false_and, false_iff]
      omega

/-- A check moves the track on by one. -/
theorem Track.tick {s' : Sys ι} {S d : Nat}
    (h : Track s i S d periodic k) (hstep : TimerRun.step s .tick = some s') :
    Track s' i S d periodic (k + 1) ∧
      s'.checks = s.checks ++ [((S + k + 1) % size32, dueNext s)] ∧
      (dueNext s).count i = if Fires periodic d (k + 1) then 1 else 0 := by
  have hinv' := step_inv h.inv hstep
  obtain ⟨timers, heq, hc⟩ := tick_spec h.inv
  rw [heq] at hstep
  cases hstep
  have hfires := h.mem_dueNext
  have hcount : (dueNext s).count i = if Fires periodic d (k + 1) then 1 else 0 := by
    have hnodup : (dueNext s).Nodup := (Inv.nodup h.inv).filter _
    rw [hnodup.count]
    exact if_congr hfires rfl rfl
  refine ⟨?_, by rw [h.now], hcount⟩
  have hinit : (timers.timer i).initTick = d := (hc.initTick i).trans h.initTick
  have hper : (timers.timer i).periodic = periodic := (hc.periodic i).trans h.isPeriodic
  -- the deadline after the check: moved on if the timer fired and is periodic
  have hdeadline : deadline timers
      ((clock s).refire (fun i => (s.timers.timer i).periodic) (dueNext s)) i =
      if Fires periodic d (k + 1) ∧ periodic = true then S + k + 1 + d
      else deadline s.timers s.history i := by
    unfold deadline
    simp only [refire_startedAt, hinit, h.isPeriodic, hfires]
    split
    · simp only [clock, h.now]
    · simp only [clock, h.initTick]
  have hmem : i ∈ timers.timerList ↔
      i ∈ s.timers.timerList ∧ (Fires periodic d (k + 1) → periodic = true) := by
    rw [hc.mem i, hfires, h.isPeriodic]
  exact {
    inv := hinv'
    now := by
      simp only [refire_now, clock, h.now]
      omega
    initTick := hinit
    isPeriodic := hper
    pos := h.pos
    again := by
      intro hp
      obtain ⟨hlinked, hd⟩ := h.again hp
      refine ⟨hmem.mpr ⟨hlinked, fun _ => hp⟩, ?_⟩
      rw [hdeadline]
      by_cases hf : d ∣ k + 1
      · have hk := Nat.div_mul_cancel hf
        rw [if_pos ⟨by simpa [Fires, hp] using hf, hp⟩, Nat.add_mul, Nat.one_mul, hk]
        omega
      · rw [if_neg (fun hand => hf (by simpa [Fires, hp] using hand.1)), hd, Nat.succ_div,
          if_neg hf, Nat.add_zero]
    pending := by
      intro hp hk
      obtain ⟨hlinked, hd⟩ := h.pending hp (by omega)
      have hf : ¬ Fires periodic d (k + 1) := by
        simp only [Fires, hp, Bool.false_eq_true, if_false]
        omega
      refine ⟨hmem.mpr ⟨hlinked, fun hfire => absurd hfire hf⟩, ?_⟩
      rw [hdeadline, if_neg (fun hand => hf hand.1), hd]
    gone := by
      intro hp hk
      rw [hmem]
      rintro ⟨hlinked, hfire⟩
      rcases Nat.lt_or_ge k (max d 1) with hlt | hge
      · have hf : Fires periodic d (k + 1) := by
          simp only [Fires, hp, Bool.false_eq_true, if_false]
          omega
        have := hfire hf
        simp [hp] at this
      · exact h.gone hp hge hlinked }

/-! ## Runs -/

/-- The number of checks in a list of events. -/
def ticks (es : List (Event ι)) : Nat := es.countP Event.isTick

omit [DecidableEq ι] in
theorem ticks_tick (es : List (Event ι)) : ticks (.tick :: es) = ticks es + 1 :=
  List.countP_cons_of_pos rfl

omit [DecidableEq ι] in
theorem ticks_other (he : e ≠ .tick) (es : List (Event ι)) : ticks (e :: es) = ticks es := by
  cases e <;> simp_all [ticks, Event.isTick]

/-- The checks of a run that follows one timer, each with its tick and what it fired. -/
theorem Track.run {s' : Sys ι} {S d : Nat}
    {es : List (Event ι)} (h : Track s i S d periodic k) (hrun : run TimerRun.step s es = some s')
    (hkeep : ∀ e ∈ es, e ≠ .stop i ∧ e ≠ .detach i)
    (honce : periodic = false → ∀ a b, es = a ++ .start i :: b → k + ticks a < max d 1) :
    ∃ new, s'.checks = s.checks ++ new ∧ new.length = ticks es ∧
      ∀ n tick fired, new[n]? = some (tick, fired) →
        tick = (S + k + (n + 1)) % size32 ∧
          fired.count i = if Fires periodic d (k + (n + 1)) then 1 else 0 := by
  induction es generalizing s k with
  | nil =>
    cases hrun
    exact ⟨[], by simp, rfl, by simp⟩
  | cons e es ih =>
    obtain ⟨m, hm, hrest⟩ := run_cons.mp hrun
    have hkeep' : ∀ e ∈ es, e ≠ .stop i ∧ e ≠ .detach i := fun x hx => hkeep x (by simp [hx])
    by_cases htick : e = .tick
    · subst htick
      obtain ⟨htrack, hchecks, hcount⟩ := h.tick hm
      obtain ⟨new, hnew, hlen, hall⟩ := ih htrack hrest hkeep' (by
        intro hp a b hab
        have := honce hp (.tick :: a) b (by rw [hab]; rfl)
        rw [ticks_tick] at this
        omega)
      refine ⟨((S + k + 1) % size32, dueNext s) :: new, by simp [hnew, hchecks],
        by rw [ticks_tick, List.length_cons, hlen], ?_⟩
      intro n tick fired hn
      cases n with
      | zero =>
        obtain ⟨rfl, rfl⟩ := hn
        exact ⟨rfl, hcount⟩
      | succ n =>
        obtain ⟨h1, h2⟩ := hall n tick fired hn
        have hk : k + 1 + (n + 1) = k + (n + 1 + 1) := by omega
        refine ⟨by rw [h1]; congr 1; omega, by rw [h2, hk]⟩
    · obtain ⟨htrack, hchecks⟩ := h.step hm htick (hkeep e (by simp)).1 (hkeep e (by simp)).2
        (by
          intro he hp
          have := honce hp [] es (by rw [he]; rfl)
          simpa [ticks] using this)
      obtain ⟨new, hnew, hlen, hall⟩ := ih htrack hrest hkeep' (by
        intro hp a b hab
        have := honce hp (e :: a) b (by rw [hab]; rfl)
        rwa [ticks_other htick] at this)
      exact ⟨new, by rw [hnew, hchecks], by rw [ticks_other htick, hlen], hall⟩

/-- An accepted start begins a track. -/
theorem Track.start {s' : Sys ι} (h : SysInv s)
    (hact : (s.timers.timer i).activated = false) (hstep : TimerRun.step s (.start i) = some s') :
    Track s' i s.history.now (s.timers.timer i).initTick (s.timers.timer i).periodic 0 ∧
      s'.checks = s.checks := by
  have hinv := step_inv h hstep
  obtain ⟨hst, ⟨hact', -⟩ | ⟨-, rfl⟩⟩ := start_cases hstep
  · simp [hact] at hact'
  · have hmem : i ∈ (started s.timers i).timerList := mem_started.mpr (.inl rfl)
    refine ⟨?_, rfl⟩
    exact {
      inv := hinv
      now := by simp
      initTick := by simp
      isPeriodic := by simp
      pos := hst.2
      again := fun _ => ⟨hmem, by simp [deadline_started]⟩
      pending := fun _ _ => ⟨hmem, deadline_started ..⟩
      gone := fun _ hk => by omega }

/-- Timers are exact. In every run, the next check returns and fires its timers in the order
of their deadlines and, among equal deadlines, of their (re)starts. A timer whose start was
accepted and that is neither stopped nor detached fires in exactly the checks that its
delay names, counted from the start, once in each: for a one-shot timer that is not started
again after it fired, the check of tick `start + d`, or the first one for `d = 0`; for a
periodic timer every `d`-th check. -/
theorem timers_exact {s0 s : Sys ι} {es : List (Event ι)} (hinit : Initial s0)
    (hrun : run step s0 es = some s) :
    (∃ s' fired, step s .tick = some s' ∧
      s'.checks = s.checks ++ [((s.timers.rtTick + 1) % size32, fired)] ∧
      fired.Pairwise (Before s.timers s.history)) ∧
    ∀ i es1 es2 s1, es = es1 ++ .start i :: es2 → run step s0 es1 = some s1 →
      (s1.timers.timer i).activated = false →
      (∀ e ∈ es2, e ≠ .stop i ∧ e ≠ .detach i) →
      ((s1.timers.timer i).periodic = false → ∀ a b, es2 = a ++ .start i :: b →
        ticks a < max (s1.timers.timer i).initTick 1) →
      ∃ new, s.checks = s1.checks ++ new ∧ new.length = ticks es2 ∧
        ∀ n tick fired, new[n]? = some (tick, fired) →
          tick = (s1.timers.rtTick + (n + 1)) % size32 ∧
            fired.count i =
              if Fires (s1.timers.timer i).periodic (s1.timers.timer i).initTick (n + 1) then 1
              else 0 := by
  have hreach : ∀ {es s}, run step s0 es = some s → SysInv s := fun h =>
    run_invariant (fun _ _ _ => step_inv) hinit.inv h
  constructor
  · have h := hreach hrun
    obtain ⟨timers, heq, -⟩ := tick_spec h
    refine ⟨_, dueNext s, heq, ?_, h.sorted.sublist List.filter_sublist⟩
    rw [h.rtTick, Nat.mod_add_mod]
  · intro i es1 es2 s1 hes h₁ hact hkeep honce
    rw [hes] at hrun
    obtain ⟨m, hm, hrest⟩ := run_append.mp hrun
    obtain rfl : m = s1 := Option.some.inj (hm.symm.trans h₁)
    obtain ⟨s2, hstart, hrest⟩ := run_cons.mp hrest
    have hinv := hreach h₁
    obtain ⟨htrack, hchecks⟩ := Track.start hinv hact hstart
    obtain ⟨new, hnew, hlen, hall⟩ := htrack.run hrest hkeep (by simpa using honce)
    refine ⟨new, by rw [hnew, hchecks], hlen, ?_⟩
    intro n tick fired hn
    obtain ⟨h1, h2⟩ := hall n tick fired hn
    refine ⟨?_, by simpa using h2⟩
    rw [h1, hinv.rtTick, Nat.mod_add_mod, Nat.add_zero]

/-- Two timers that are both due two ticks after the tick wrapped to zero: a one-shot timer
with delay three and a periodic one with delay one. -/
def wrapExample : Sys Nat where
  timers := {
    rtTick := 4294967295
    timer := fun i => if i = 0 then ⟨false, false, 3, 0⟩ else ⟨false, true, 1, 0⟩
    timerList := [] }
  history := { now := 4294967295, startedAt := fun _ => 0, startNo := fun _ => 0, starts := 0 }
  checks := []

theorem timers_exact_wrapExample :
    ∃ s, run step wrapExample [.start 0, .start 1, .tick, .tick, .tick] = some s ∧
      s.checks = [(0, [1]), (1, [1]), (2, [0, 1])] ∧
      ∃ new, s.checks = new ∧ new.length = 3 ∧
        ∀ n tick fired, new[n]? = some (tick, fired) →
          tick = (4294967295 + (n + 1)) % size32 ∧
            fired.count 0 = if Fires false 3 (n + 1) then 1 else 0 := by
  have hinit : Initial wrapExample :=
    ⟨by decide, rfl, rfl, by intro i; by_cases h : i = 0 <;> simp [wrapExample, h], rfl⟩
  refine run_exists (Q := fun s => s.checks = [(0, [1]), (1, [1]), (2, [0, 1])]) (by decide)
    fun s hrun hchecks => ⟨hchecks, ?_⟩
  exact (timers_exact hinit hrun).2
    0 [] [.start 1, .tick, .tick, .tick] wrapExample rfl rfl rfl (by decide) (by
      intro _ a b hab
      have hmem : Event.start 0 ∈ a ++ .start 0 :: b := by simp
      rw [← hab] at hmem
      simp at hmem)

end RtThread.TimerRun
