-- SUMMARY: Partial step functions, their runs, the invariant rules.
import Mathlib.Data.List.Induction
import Mathlib.Order.Bounds.Basic

/-!
# Runs of partial step functions

A system is a partial step function `step : σ → ε → Option σ`. The value `none`
says that the event cannot happen in that state, or that the code stops there.
A run is the fold of `step` over a list of events. The rules below carry an
invariant from one step to every run.
-/

namespace Run

variable {σ ε : Type*}

/-- The state after the events `es`, if every step along the way is defined. -/
def run (step : σ → ε → Option σ) : σ → List ε → Option σ
  | s, [] => some s
  | s, e :: es => (step s e).bind (fun s' => run step s' es)

/-- Every step that a run takes meets `P`, read in the state before the step. -/
def Along (step : σ → ε → Option σ) (P : σ → ε → Prop) : σ → List ε → Prop
  | _, [] => True
  | s, e :: es => P s e ∧ ∀ s', step s e = some s' → Along step P s' es

variable {step : σ → ε → Option σ} {P Q : σ → ε → Prop} {I : σ → Prop} {s s' m : σ} {es fs : List ε}

/-- A condition on the events alone. -/
theorem along_of_forall (h : ∀ e ∈ es, ∀ s, P s e) : Along step P s es := by
  induction es generalizing s with
  | nil => trivial
  | cons e es ih =>
    exact ⟨h e List.mem_cons_self s, fun _ _ => ih fun e' he' => h e' (List.mem_cons_of_mem e he')⟩

theorem along_cons {e : ε} (hP : P s e) (hstep : step s e = some m)
    (hrest : Along step P m es) : Along step P s (e :: es) := by
  refine ⟨hP, fun s' hs' => ?_⟩
  obtain rfl : m = s' := Option.some.inj (hstep.symm.trans hs')
  exact hrest

/-- A computable form of a condition, checked along a run. -/
def checkAlong (step : σ → ε → Option σ) (check : σ → ε → Bool) : σ → List ε → Bool
  | _, [] => true
  | s, e :: es => check s e && (step s e).all fun s' => checkAlong step check s' es

theorem along_of_check {check : σ → ε → Bool} (hcheck : ∀ s e, check s e = true → P s e)
    (h : checkAlong step check s es = true) : Along step P s es := by
  induction es generalizing s with
  | nil => trivial
  | cons e es ih =>
    obtain ⟨he, hrest⟩ := Bool.and_eq_true_iff.mp h
    refine ⟨hcheck s e he, fun s' hs' => ih ?_⟩
    rwa [hs', Option.all_some] at hrest

theorem checkAlong_iff [∀ s e, Decidable (P s e)] :
    checkAlong step (fun s e => decide (P s e)) s es = true ↔ Along step P s es := by
  refine ⟨along_of_check fun _ _ => of_decide_eq_true, fun h => ?_⟩
  induction es generalizing s with
  | nil => rfl
  | cons e es ih =>
    refine Bool.and_eq_true_iff.mpr ⟨decide_eq_true h.1, ?_⟩
    cases hs' : step s e with
    | none => rfl
    | some s' => exact ih (h.2 s' hs')

instance [∀ s e, Decidable (P s e)] (s : σ) (es : List ε) : Decidable (Along step P s es) :=
  decidable_of_iff _ checkAlong_iff

theorem along_and (hP : Along step P s es) (hQ : Along step Q s es) :
    Along step (fun s e => P s e ∧ Q s e) s es := by
  induction es generalizing s with
  | nil => trivial
  | cons e es ih => exact ⟨⟨hP.1, hQ.1⟩, fun s' hs' => ih (hP.2 s' hs') (hQ.2 s' hs')⟩

theorem along_of_append (h : Along step P s (es ++ fs)) :
    Along step P s es ∧ ∀ m, run step s es = some m → Along step P m fs := by
  induction es generalizing s with
  | nil =>
    refine ⟨trivial, fun m hm => ?_⟩
    cases hm
    exact h
  | cons e es ih =>
    refine ⟨⟨h.1, fun s' hs' => (ih (h.2 s' hs')).1⟩, fun m hm => ?_⟩
    obtain ⟨s', hs', hrest⟩ := Option.bind_eq_some_iff.mp hm
    exact (ih (h.2 s' hs')).2 m hrest

@[simp] theorem run_nil (s : σ) : run step s [] = some s := rfl

theorem run_cons {e : ε} :
    run step s (e :: es) = some s' ↔ ∃ m, step s e = some m ∧ run step m es = some s' := by
  simp only [run, Option.bind_eq_some_iff]

/-- The first step of a run that leads elsewhere, if it is the same for every event. -/
theorem run_ahead (hstep : ∀ e, step s e = some m) (hne : s ≠ s') (hrun : run step s es = some s') :
    ∃ fs, run step m fs = some s' := by
  cases es with
  | nil =>
    cases hrun
    exact absurd rfl hne
  | cons e es =>
    obtain ⟨m', hs, hrest⟩ := run_cons.mp hrun
    cases (hstep e).symm.trans hs
    exact ⟨es, hrest⟩

theorem run_append : run step s (es ++ fs) = some s' ↔
    ∃ m, run step s es = some m ∧ run step m fs = some s' := by
  induction es generalizing s with
  | nil => simp
  | cons e es ih =>
    simp only [List.cons_append, run_cons, ih]
    constructor
    · rintro ⟨m, hm, n, hn, hs⟩
      exact ⟨n, ⟨m, hm, hn⟩, hs⟩
    · rintro ⟨n, ⟨m, hm, hn⟩, hs⟩
      exact ⟨m, hm, n, hn, hs⟩

/-- The state after a run that is known to be defined. -/
def endState (step : σ → ε → Option σ) (s : σ) (es : List ε) : σ := (run step s es).getD s

theorem run_endState (h : (run step s es).isSome = true) :
    run step s es = some (endState step s es) := by
  obtain ⟨s', hs'⟩ := Option.isSome_iff_exists.mp h
  rw [endState, hs', Option.getD_some]

theorem step_endState {e : ε} (h : (step s e).isSome = true) :
    step s e = some (endState step s [e]) := by
  obtain ⟨s', hs'⟩ := Option.isSome_iff_exists.mp h
  rw [endState, run, hs']
  rfl

/-- A run that is computed: what is checked of its last state gives the rest. -/
theorem run_exists {P Q : σ → Prop} (hcheck : ∃ s' ∈ run step s es, Q s')
    (hP : ∀ s', run step s es = some s' → Q s' → P s') : ∃ s', run step s es = some s' ∧ P s' := by
  obtain ⟨s', hrun, hQ⟩ := hcheck
  exact ⟨s', hrun, hP s' hrun hQ⟩

/-- The run of a loop: one event leads from each of the states `st` to the next. -/
theorem run_replicate {e : ε} {n : Nat} (st : Nat → σ)
    (hstep : ∀ i, i < n → step (st i) e = some (st (i + 1))) :
    run step (st 0) (List.replicate n e) = some (st n) := by
  induction n with
  | zero => rfl
  | succ n ih =>
    rw [List.replicate_succ', run_append]
    exact ⟨st n, ih fun i hi => hstep i (by omega), run_cons.mpr ⟨_, hstep n (by omega), rfl⟩⟩

theorem along_append (hes : Along step P s es) (hrun : run step s es = some m)
    (hfs : Along step P m fs) : Along step P s (es ++ fs) := by
  induction es generalizing s with
  | nil =>
    cases hrun
    exact hfs
  | cons e es ih =>
    obtain ⟨m', hm', hrest⟩ := run_cons.mp hrun
    exact along_cons hes.1 hm' (ih (hes.2 m' hm') hrest)

/-- A condition that follows from another one in the states of an invariant. -/
theorem along_of_invariant (hstep : ∀ s e s', I s → step s e = some s' → I s')
    (hPQ : ∀ s e, I s → P s e → Q s e) (hs : I s) (hP : Along step P s es) : Along step Q s es := by
  induction es generalizing s with
  | nil => trivial
  | cons e es ih => exact ⟨hPQ s e hs hP.1, fun s' hs' => ih (hstep s e s' hs hs') (hP.2 s' hs')⟩

/-- The invariant rule for runs whose steps all meet a condition. -/
theorem run_invariant_along (hstep : ∀ s e s', I s → P s e → step s e = some s' → I s')
    (hs : I s) (hP : Along step P s es) (hrun : run step s es = some s') : I s' := by
  induction es generalizing s with
  | nil =>
    cases hrun
    exact hs
  | cons e es ih =>
    obtain ⟨m, hm, hrest⟩ := run_cons.mp hrun
    exact ih (hstep s e m hs hP.1 hm) (hP.2 m hm) hrest

/-- The invariant rule: what every step keeps, every run keeps. -/
theorem run_invariant (hstep : ∀ s e s', I s → step s e = some s' → I s')
    (hs : I s) (hrun : run step s es = some s') : I s' :=
  run_invariant_along (fun s e s' hs _ => hstep s e s' hs) hs (along_of_forall fun _ _ _ => trivial) hrun

/-- A part of the state that none of the events changes. -/
theorem run_frame {α : Type*} {f : σ → α} {P : ε → Prop}
    (hstep : ∀ s e s', P e → step s e = some s' → f s' = f s)
    (hes : ∀ e ∈ es, P e) (hrun : run step s es = some s') : f s' = f s :=
  run_invariant_along (I := fun m => f m = f s)
    (fun m e m' hm he hs => (hstep m e m' he hs).trans hm) rfl (along_of_forall fun e he _ => hes e he) hrun

/-- The progress rule: if every step that meets the condition is defined and keeps the
invariant, then so is and does every run. -/
theorem run_progress_along (hstep : ∀ s e, I s → P s e → ∃ s', step s e = some s' ∧ I s')
    (hs : I s) (hP : Along step P s es) : ∃ s', run step s es = some s' ∧ I s' := by
  induction es generalizing s with
  | nil => exact ⟨s, rfl, hs⟩
  | cons e es ih =>
    obtain ⟨m, hm, hIm⟩ := hstep s e hs hP.1
    obtain ⟨s', hrun, hs'⟩ := ih hIm (hP.2 m hm)
    exact ⟨s', run_cons.mpr ⟨m, hm, hrun⟩, hs'⟩

/-- The sum of what the steps of a run contribute, read in the state before each step. -/
def sumAlong (step : σ → ε → Option σ) (f : σ → ε → Nat) : σ → List ε → Nat
  | _, [] => 0
  | s, e :: es => f s e + ((step s e).elim 0 fun s' => sumAlong step f s' es)

/-- The rule for a balance: if every step changes a value by what it adds and what it takes, then so
does every run. -/
theorem run_balance {val : σ → Nat} {up down : σ → ε → Nat}
    (hstep : ∀ s e s', I s → step s e = some s' → I s' ∧ val s' + down s e = val s + up s e)
    (hs : I s) (hrun : run step s es = some s') :
    val s' + sumAlong step down s es = val s + sumAlong step up s es := by
  induction es generalizing s with
  | nil =>
    cases hrun
    rfl
  | cons e es ih =>
    obtain ⟨m, hm, hrun⟩ := run_cons.mp hrun
    obtain ⟨hIm, hfirst⟩ := hstep s e m hs hm
    have hrest := ih hIm hrun
    simp only [sumAlong, hm, Option.elim_some]
    omega

/-- The rule for a recorded maximum: if every step takes the new value into the record, then the
record is the largest value of the run. -/
theorem run_peak {val peak : σ → Nat} (hstep : ∀ s e s', I s → P s e → step s e = some s' →
      I s' ∧ peak s' = max (peak s) (val s'))
    (hs : I s) (hpeak : peak s = val s) (hP : Along step P s es) (hrun : run step s es = some s') :
    IsGreatest {v | ∃ fs m, fs <+: es ∧ run step s fs = some m ∧ val m = v} (peak s') := by
  -- the last step is taken off, since it is the one that adds a value
  induction es using List.reverseRecOn generalizing s' with
  | nil =>
    cases hrun
    refine ⟨⟨[], s, List.prefix_rfl, rfl, hpeak.symm⟩, ?_⟩
    rintro v ⟨fs, m, hfs, hm, rfl⟩
    obtain rfl := List.prefix_nil.mp hfs
    cases hm
    exact hpeak.ge
  | append_singleton es e ih =>
    obtain ⟨m, hes, hlast⟩ := run_append.mp hrun
    obtain ⟨hPes, hPe⟩ := along_of_append hP
    obtain ⟨⟨fs, k, hfs, hk, hval⟩, hupper⟩ := ih hPes hes
    have hm : I m := run_invariant_along (fun s e s' hI hP h => (hstep s e s' hI hP h).1) hs hPes hes
    obtain ⟨s1, hstep1, hnil⟩ := run_cons.mp hlast
    obtain rfl : s1 = s' := Option.some.inj hnil
    obtain ⟨-, hmax⟩ := hstep m e s1 hm (hPe m hes).1 hstep1
    constructor
    · rcases Nat.le_total (val s1) (peak m) with hold | hnew
      · refine ⟨fs, k, hfs.trans (List.prefix_append es [e]), hk, ?_⟩
        rw [hval, hmax, max_eq_left hold]
      · exact ⟨es ++ [e], s1, List.prefix_rfl, hrun, by rw [hmax, max_eq_right hnew]⟩
    · rintro v ⟨gs, j, hgs, hj, rfl⟩
      rw [hmax]
      rcases List.prefix_concat_iff.mp hgs with rfl | hgs
      · cases hrun.symm.trans hj
        exact le_max_right ..
      · exact (hupper ⟨gs, j, hgs, hj, rfl⟩).trans (le_max_left ..)

/-! ## Refinement -/

variable {τ ρ : Type*}

/-- The state and the outputs after the events `es`. -/
def trace (step : σ → ε → Option (σ × ρ)) : σ → List ε → Option (σ × List ρ)
  | s, [] => some (s, [])
  | s, e :: es => do
    let (s, r) ← step s e
    let (s, rs) ← trace step s es
    return (s, r :: rs)

/-- The state and the outputs of a specification, which has a result for every event. -/
def specTrace (spec : τ → ε → τ × ρ) : τ → List ε → τ × List ρ
  | t, [] => (t, [])
  | t, e :: es =>
    let (t, r) := spec t e
    let (t, rs) := specTrace spec t es
    (t, r :: rs)

/-- The refinement rule: if every step is defined, has the output of the specification and
keeps the relation, then so does every run. -/
theorem trace_refines {step : σ → ε → Option (σ × ρ)} {spec : τ → ε → τ × ρ} {R : σ → τ → Prop}
    (hstep : ∀ s t e, R s t → ∃ s', step s e = some (s', (spec t e).2) ∧ R s' (spec t e).1)
    {t : τ} (h : R s t) (es : List ε) :
    ∃ s', trace step s es = some (s', (specTrace spec t es).2) ∧ R s' (specTrace spec t es).1 := by
  induction es generalizing s t with
  | nil => exact ⟨s, rfl, h⟩
  | cons e es ih =>
    obtain ⟨m, hm, hR⟩ := hstep s t e h
    obtain ⟨s', hs', hR'⟩ := ih hR
    refine ⟨s', ?_, hR'⟩
    simp [trace, specTrace, hm, hs']

/-- The rule of the commuting square: if `abs` takes every step to a step of another system, then it
takes every run to a run of that system, as long as the latter meets `P`. -/
theorem run_map {step' : τ → ε → Option τ} {abs : σ → τ} {P : τ → ε → Prop}
    (hstep : ∀ s e, I s → P (abs s) e →
      (step s e).map abs = step' (abs s) e ∧ ∀ s', step s e = some s' → I s')
    (hs : I s) (hP : Along step' P (abs s) es) :
    (run step s es).map abs = run step' (abs s) es ∧ ∀ s', run step s es = some s' → I s' := by
  induction es generalizing s with
  | nil =>
    refine ⟨rfl, fun s' hs' => ?_⟩
    cases hs'
    exact hs
  | cons e es ih =>
    obtain ⟨hmap, hkeep⟩ := hstep s e hs hP.1
    cases hm : step s e with
    | none =>
      simp [run, hm, ← hmap]
    | some m =>
      rw [hm, Option.map_some] at hmap
      simpa only [run, hm, ← hmap, Option.bind_some] using
        ih (hkeep m hm) (hP.2 (abs m) hmap.symm)

/-- The simulation rule: steps on events with `Q` follow the specification as long as it stays in
`P`. -/
theorem run_simulates {spec : τ → ε → τ} {R : σ → τ → Prop} {P : τ → Prop} {Q : ε → Prop}
    (hstep : ∀ s t e, R s t → Q e → P (spec t e) → ∃ s', step s e = some s' ∧ R s' (spec t e))
    {t : τ} (h : R s t) (hQ : ∀ e ∈ es, Q e) (hP : ∀ es', es' <+: es → P (es'.foldl spec t)) :
    ∃ s', run step s es = some s' ∧ R s' (es.foldl spec t) := by
  induction es generalizing s t with
  | nil => exact ⟨s, rfl, h⟩
  | cons e es ih =>
    have hfirst : P (spec t e) := hP [e] (List.prefix_append [e] es)
    obtain ⟨m, hm, hR⟩ := hstep s t e h (hQ e List.mem_cons_self) hfirst
    obtain ⟨s', hrun, hs'⟩ := ih hR (fun e' he' => hQ e' (List.mem_cons_of_mem e he'))
      fun es' hes' => hP (e :: es') (List.prefix_cons_inj e |>.mpr hes')
    exact ⟨s', run_cons.mpr ⟨m, hm, hrun⟩, hs'⟩

end Run
