-- SUMMARY: An abstract model of recursive locks that lend priorities.
import Mathlib.Logic.Function.Basic

/-!
# Recursive locks with lent priorities

The purpose of `rt_mutex_take` and `rt_mutex_release` without lists, timers and thread
states. A lock has an owner, a counter of eight bits for the nesting depth, and the
priority its owner had when it got the lock. `held` counts the takes that were granted
and are not yet matched by a release. A waiter may lend its priority to the owner
(`boost`), and the owner gets the saved priority back when it gives the lock up.

The moves that give a lock up carry a condition `P` on the state before the move, so that
the invariants below say which condition they need.
-/

namespace RtThread

open Function

structure Locks where
  owner : Nat → Option Nat
  hold : Nat → Nat
  /-- The priority that the owner had when it got the lock. -/
  saved : Nat → Nat
  /-- Granted takes of a lock by a thread that are not matched by a release. -/
  held : Nat → Nat → Nat
  /-- The owner had its own priority when it got the lock. -/
  unboosted : Nat → Bool
  prio : Nat → Nat
  /-- The priorities that the threads were created with. -/
  base : Nat → Nat

namespace Locks

/-- Count one more granted take. -/
def addHeld (held : Nat → Nat → Nat) (m t : Nat) : Nat → Nat → Nat :=
  update held m (update (held m) t (held m t + 1))

/-- Count one more matched take. -/
def subHeld (held : Nat → Nat → Nat) (m t : Nat) : Nat → Nat → Nat :=
  update held m (update (held m) t (held m t - 1))

/-- A free lock goes to thread `t`. -/
def grant (a : Locks) (m t : Nat) : Locks :=
  { a with
    owner := update a.owner m (some t)
    hold := update a.hold m 1
    saved := update a.saved m (a.prio t)
    held := addHeld a.held m t
    unboosted := update a.unboosted m (decide (a.prio t = a.base t)) }

/-- The owner takes the lock once more. -/
def again (a : Locks) (m t : Nat) : Locks :=
  { a with
    hold := update a.hold m ((a.hold m + 1) % 256)
    held := addHeld a.held m t }

/-- The owner releases the lock and keeps it. -/
def leave (a : Locks) (m t : Nat) : Locks :=
  { a with
    hold := update a.hold m ((a.hold m + 255) % 256)
    held := subHeld a.held m t }

/-- The owner gives the lock up and gets the saved priority back. -/
def free (a : Locks) (m t : Nat) : Locks :=
  { a with
    owner := update a.owner m none
    hold := update a.hold m 0
    saved := update a.saved m 0xff
    held := subHeld a.held m t
    prio := update a.prio t (a.saved m) }

def boost (a : Locks) (t p : Nat) : Locks :=
  { a with prio := update a.prio t p }

/-- The moves of any number of threads on any number of locks. -/
inductive Move (P : Locks → Nat → Nat → Prop) (a : Locks) : Locks → Prop where
  | idle : Move P a a
  | boost {m t : Nat} (p : Nat) : a.owner m = some t → Move P a (a.boost t p)
  | enter {m : Nat} (t : Nat) : a.owner m = none → Move P a (a.grant m t)
  | again {m t : Nat} : a.owner m = some t → Move P a (a.again m t)
  | leave {m t : Nat} : a.owner m = some t → a.hold m ≠ 1 → Move P a (a.leave m t)
  | free {m t : Nat} : a.owner m = some t → a.hold m = 1 → P a m t → Move P a (a.free m t)
  | pass {m t u : Nat} : a.owner m = some t → a.hold m = 1 → P a m t → u ≠ t →
      Move P a ((a.free m t).grant m u)

/-! ## Exclusion -/

/-- The counter of eight bits agrees with the depth of the owner, and nobody else is inside. -/
def Inside (hold : Nat) (held : Nat → Nat) : Option Nat → Prop
  | none => ∀ t, held t = 0
  | some t => 1 ≤ held t ∧ held t % 256 = hold ∧ ∀ u, u ≠ t → held u = 0

def HeldOk (a : Locks) : Prop := ∀ m, Inside (a.hold m) (a.held m) (a.owner m)

/-- The lock is given up at depth one only. -/
def NoWrap (a : Locks) (m t : Nat) : Prop := a.held m t % 256 = 1 → a.held m t = 1

/-- The depth of the owner becomes `depth`. -/
theorem inside_update {hold depth t : Nat} {held : Nat → Nat} (hother : ∀ u, u ≠ t → held u = 0)
    (hpos : 1 ≤ depth) (hmod : depth % 256 = hold) : Inside hold (update held t depth) (some t) := by
  simp only [Inside, update_self]
  exact ⟨hpos, hmod, fun u hu => by rw [update_of_ne hu, hother u hu]⟩

variable {a : Locks} {m : Nat}

section

variable (h : HeldOk a)

include h

/-- Only the lock `m` changes. -/
theorem HeldOk.of_lock {a' : Locks} {o : Option Nat} {hold : Nat} {held : Nat → Nat}
    (howner : a'.owner = update a.owner m o) (hhold : a'.hold = update a.hold m hold)
    (hheld : a'.held = update a.held m held) (hm : Inside hold held o) : HeldOk a' := by
  intro n
  rw [howner, hhold, hheld]
  by_cases hnm : n = m
  · subst hnm
    simpa only [update_self] using hm
  · simpa only [update_of_ne hnm] using h n

theorem HeldOk.grant (t : Nat) (hfree : a.owner m = none) : HeldOk (a.grant m t) := by
  have hm := h m
  rw [hfree] at hm
  exact h.of_lock rfl rfl rfl (inside_update (fun u _ => hm u) (by omega) (by rw [hm t]))

theorem HeldOk.again {t : Nat} (howner : a.owner m = some t) : HeldOk (a.again m t) := by
  have hm := h m
  rw [howner] at hm
  obtain ⟨hpos, hmod, hother⟩ := hm
  exact h.of_lock (update_eq_self_iff.mpr howner.symm).symm rfl rfl
    (inside_update hother (by omega) (by omega))

/-- The counter is not one, so the owner is inside at least twice. -/
theorem HeldOk.leave {t : Nat} (howner : a.owner m = some t)
    (hhold : a.hold m ≠ 1) : HeldOk (a.leave m t) := by
  have hm := h m
  rw [howner] at hm
  obtain ⟨hpos, hmod, hother⟩ := hm
  exact h.of_lock (update_eq_self_iff.mpr howner.symm).symm rfl rfl
    (inside_update hother (by omega) (by omega))

theorem HeldOk.free {t : Nat} (howner : a.owner m = some t)
    (hhold : a.hold m = 1) (hwrap : NoWrap a m t) : HeldOk (a.free m t) := by
  have hm := h m
  rw [howner] at hm
  obtain ⟨-, hmod, hother⟩ := hm
  have hone : a.held m t = 1 := hwrap (hmod.trans hhold)
  refine h.of_lock rfl rfl rfl fun u => ?_
  by_cases hut : u = t
  · rw [hut, update_self, hone]
  · rw [update_of_ne hut, hother u hut]

theorem HeldOk.move {a' : Locks} (hmove : Move NoWrap a a') : HeldOk a' := by
  cases hmove with
  | idle => exact h
  | boost p howner => exact h
  | enter t hfree => exact h.grant t hfree
  | again howner => exact h.again howner
  | leave howner hhold => exact h.leave howner hhold
  | free howner hhold hwrap => exact h.free howner hhold hwrap
  | pass howner hhold hwrap hne =>
    exact (h.free howner hhold hwrap).grant _ (by simp [Locks.free])

/-- When a move lets a thread in that did not own the lock, everybody else is out. -/
theorem HeldOk.exclusive {a' : Locks} {u : Nat} (hmove : Move NoWrap a a')
    (hin : a.held m u < a'.held m u) (t : Nat) (htu : t ≠ u) : a'.held m t = 0 := by
  have hm := h.move hmove m
  cases howner : a'.owner m with
  | none =>
    rw [howner] at hm
    exact hm t
  | some v =>
    rw [howner] at hm
    obtain ⟨-, -, hother⟩ := hm
    by_cases huv : u = v
    · exact hother t (huv ▸ htu)
    · have := hother u huv
      omega

/-! ## Lent priorities -/

end

/-- A thread without locks has its own priority, and an owner that got the lock with its own
priority has that one saved. -/
structure LentOk (a : Locks) : Prop where
  out : ∀ t, (∀ m, a.owner m ≠ some t) → a.prio t = a.base t
  saved : ∀ m t, a.owner m = some t → a.unboosted m = true → a.saved m = a.base t

/-- The last lock that a thread gives up was got with the thread's own priority. -/
def LastUnboosted (a : Locks) (m t : Nat) : Prop :=
  (∀ n, n ≠ m → a.owner n ≠ some t) → a.unboosted m = true

theorem LentOk.grant (h : LentOk a) (t : Nat) (hfree : a.owner m = none) :
    LentOk (a.grant m t) := by
  constructor
  · intro u hu
    refine h.out u fun n => ?_
    by_cases hnm : n = m
    · rw [hnm, hfree]
      simp
    · simpa [Locks.grant, hnm] using hu n
  · intro n u hn hunb
    by_cases hnm : n = m
    · subst hnm
      obtain rfl : t = u := by simpa [Locks.grant] using hn
      simpa [Locks.grant] using hunb
    · simp only [Locks.grant, update_of_ne hnm] at hn hunb ⊢
      exact h.saved n u hn hunb

theorem LentOk.free {t : Nat} (h : LentOk a) (howner : a.owner m = some t)
    (hlast : LastUnboosted a m t) : LentOk (a.free m t) := by
  constructor
  · intro u hu
    by_cases hut : u = t
    · subst hut
      have hunb := hlast fun n hn => by simpa [Locks.free, hn] using hu n
      simpa [Locks.free] using h.saved m u howner hunb
    · have hout := h.out u fun n => by
        by_cases hnm : n = m
        · rw [hnm, howner]
          simpa using Ne.symm hut
        · simpa [Locks.free, hnm] using hu n
      simpa [Locks.free, hut] using hout
  · intro n u hn hunb
    by_cases hnm : n = m
    · subst hnm
      simp [Locks.free] at hn
    · simp only [Locks.free, update_of_ne hnm] at hn hunb ⊢
      exact h.saved n u hn hunb

theorem LentOk.move {a' : Locks} (h : LentOk a) (hmove : Move LastUnboosted a a') : LentOk a' := by
  cases hmove with
  | idle => exact h
  | @boost m t p howner =>
    refine ⟨fun u hu => ?_, h.saved⟩
    -- the boosted thread owns a lock, so it is not the one that is out
    have hne : u ≠ t := by
      rintro rfl
      exact hu m howner
    simpa [Locks.boost, hne] using h.out u hu
  | enter t hfree => exact h.grant t hfree
  | again howner => exact ⟨h.out, h.saved⟩
  | leave howner hhold => exact ⟨h.out, h.saved⟩
  | free howner hhold hlast => exact h.free howner hlast
  | pass howner hhold hlast hne => exact (h.free howner hlast).grant _ (by simp [Locks.free])

end Locks

end RtThread
