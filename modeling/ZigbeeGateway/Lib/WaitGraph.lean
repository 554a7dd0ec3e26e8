-- SUMMARY: Locks with owners and waiters.
import Mathlib.Order.Lattice

/-!
# Wait graphs

Who owns a lock, who waits for it, and at which priority everyone runs; a smaller
priority is more urgent. `Protected` says that no owner is less urgent than a thread
that waits for it. The rules below are the ways a lock with priority inheritance
changes the graph, each with the condition under which it keeps the graph protected.
-/

structure WaitGraph (κ ι π : Type*) where
  owner : κ → Option ι
  waits : κ → ι → Prop
  prio : ι → π

namespace WaitGraph

open Function

variable {κ ι π : Type*} [DecidableEq κ] [DecidableEq ι] [LinearOrder π]

def Protected (g : WaitGraph κ ι π) : Prop :=
  ∀ m o u, g.owner m = some o → g.waits m u → g.prio o ≤ g.prio u

variable {g g' : WaitGraph κ ι π} {m : κ} {o t u : ι}

omit [DecidableEq κ] [DecidableEq ι] in
/-- Threads stop waiting, and locks that nobody waits for change hands. -/
theorem Protected.mono (h : g.Protected) (hprio : g'.prio = g.prio)
    (hedge : ∀ {m o u}, g'.owner m = some o → g'.waits m u → g.owner m = some o ∧ g.waits m u) :
    g'.Protected := by
  intro m o u howner hwaits
  obtain ⟨howner, hwaits⟩ := hedge howner hwaits
  rw [hprio]
  exact h m o u howner hwaits

omit [DecidableEq κ] in
/-- Thread `t` begins to wait for `m` and lends its priority to the owner `o`. The priority is
lent one step far, so an owner that waits itself must wait for a thread that is urgent
enough already. -/
theorem Protected.block (h : g.Protected) (howner : g.owner m = some o) (hne : t ≠ o)
    (hchain : g.prio t < g.prio o →
      ∀ n q, g.waits n o → g.owner n = some q → g.prio q ≤ g.prio t) (howner' : g'.owner = g.owner)
    (hwaits' : ∀ {n u}, g'.waits n u → g.waits n u ∨ n = m ∧ u = t)
    (hprio' : g'.prio = update g.prio o (min (g.prio o) (g.prio t))) : g'.Protected := by
  have hle : ∀ v, g'.prio v ≤ g.prio v := by
    intro v
    rw [hprio']
    by_cases hv : v = o
    · subst hv
      simp
    · simp [hv]
  intro n q v hn hv
  rw [howner'] at hn
  rcases hwaits' hv with hv | ⟨rfl, rfl⟩
  · by_cases hvo : v = o
    · -- the owner of `m` waits for `n` itself
      subst hvo
      have hself : g'.prio v = min (g.prio v) (g.prio t) := by simp [hprio']
      rw [hself]
      refine le_min ((hle q).trans (h n q v hn hv)) ?_
      rcases le_or_gt (g.prio v) (g.prio t) with hvt | hvt
      · exact ((hle q).trans (h n q v hn hv)).trans hvt
      · exact (hle q).trans (hchain hvt n q hv hn)
    · have hsame : g'.prio v = g.prio v := by simp [hprio', hvo]
      rw [hsame]
      exact (hle q).trans (h n q v hn hv)
  · obtain rfl : o = q := Option.some.inj (howner.symm.trans hn)
    simp [hprio', hne]

omit [DecidableEq κ] in
/-- Thread `t`, which waits for nothing, goes to the priority `p` and gives `m` up. -/
theorem Protected.leave {p : π} (h : g.Protected) (hfree : ∀ n, ¬ g.waits n t)
    (hkeep : ∀ n, n ≠ m → g.owner n = some t → ∀ u, g.waits n u → p ≤ g.prio u)
    (howner' : ∀ {n o}, g'.owner n = some o → n ≠ m ∧ g.owner n = some o)
    (hwaits' : g'.waits = g.waits) (hprio' : g'.prio = update g.prio t p) : g'.Protected := by
  intro n o u hn hu
  obtain ⟨hnm, hn⟩ := howner' hn
  rw [hwaits'] at hu
  have hut : u ≠ t := by
    rintro rfl
    exact hfree n hu
  have hsame : g'.prio u = g.prio u := by simp [hprio', hut]
  rw [hsame]
  by_cases hot : o = t
  · subst hot
    have hself : g'.prio o = p := by simp [hprio']
    rw [hself]
    exact hkeep n hnm hn u hu
  · have hother : g'.prio o = g.prio o := by simp [hprio', hot]
    rw [hother]
    exact h n o u hn hu

omit [DecidableEq ι] in
/-- The lock `m` goes to a thread that is at least as urgent as its waiters. -/
theorem Protected.grant (h : g.Protected) (hfirst : ∀ v, g.waits m v → g.prio u ≤ g.prio v)
    (howner' : g'.owner = update g.owner m (some u))
    (hwaits' : ∀ {n v}, g'.waits n v → g.waits n v) (hprio' : g'.prio = g.prio) : g'.Protected := by
  intro n o v hn hv
  rw [hprio']
  rw [howner'] at hn
  by_cases hnm : n = m
  · subst hnm
    rw [update_self] at hn
    obtain rfl : u = o := Option.some.inj hn
    exact hfirst v (hwaits' hv)
  · rw [update_of_ne hnm] at hn
    exact h n o v hn (hwaits' hv)

end WaitGraph
