-- SUMMARY: Round robin with time slices.
import Mathlib.Algebra.GroupWithZero.Nat
import Mathlib.Data.List.Rotate

/-!
# Round robin

The first member of a queue runs. Each tick takes one from what it has left, and when nothing is
left it gets a new slice and goes to the end of the queue. A member may start with less than its
slice; from its second turn on it has all of it.

A turn is a sequence of ticks, so the ticks are counted by turns: the turn `j` belongs to the
member `j` of the queue, counted around, and begins when the lengths of all turns before it are
over.
-/

namespace RoundRobin

open Function

variable {α : Type*} [DecidableEq α]

structure State (α : Type*) where
  queue : List α
  left : α → Nat

variable (slice : α → Nat)

/-- The first member goes to the end with a new slice. -/
def turn (s : State α) : State α :=
  match s.queue with
  | [] => s
  | a :: rest => ⟨rest ++ [a], update s.left a (slice a)⟩

def tick (s : State α) : State α :=
  match s.queue with
  | [] => s
  | a :: _ =>
    if s.left a = 1 then turn slice s else { s with left := update s.left a (s.left a - 1) }

omit [DecidableEq α] in
/-- How long the turn `j` is. -/
def turnLength (s : State α) (j : Nat) : Nat :=
  s.queue[j % s.queue.length]?.elim 0 fun a => if j < s.queue.length then s.left a else slice a

omit [DecidableEq α] in
/-- The number of ticks before the turn `j`. -/
def turnStart (s : State α) (j : Nat) : Nat := ((List.range j).map (turnLength slice s)).sum

variable {slice} {q rest : List α} {a : α} {left : α → Nat} {j r : Nat}

/-! ## One turn -/

theorem tick_of_ne (h : left a ≠ 1) :
    tick slice ⟨a :: rest, left⟩ = ⟨a :: rest, update left a (left a - 1)⟩ :=
  if_neg h

theorem tick_of_eq (h : left a = 1) : tick slice ⟨a :: rest, left⟩ = turn slice ⟨a :: rest, left⟩ :=
  if_pos h

theorem ticks_within (hr : r < left a) :
    (tick slice)^[r] ⟨a :: rest, left⟩ = ⟨a :: rest, update left a (left a - r)⟩ := by
  induction r with
  | zero => rw [iterate_zero_apply, Nat.sub_zero, update_eq_self]
  | succ r ih =>
    have hleft : update left a (left a - r) a ≠ 1 := by
      rw [update_self]
      omega
    rw [iterate_succ_apply', ih (by omega), tick_of_ne hleft, update_self,
      update_idem, Nat.sub_sub]

theorem ticks_turn (hpos : 0 < left a) :
    (tick slice)^[left a] ⟨a :: rest, left⟩ = turn slice ⟨a :: rest, left⟩ := by
  obtain ⟨r, hr⟩ : ∃ r, left a = r + 1 := ⟨left a - 1, by omega⟩
  have hlast : update left a (left a - r) a = 1 := by
    rw [update_self]
    omega
  rw [hr, iterate_succ_apply', ticks_within (by omega), tick_of_eq hlast, turn, turn]
  dsimp only
  rw [update_idem]

/-! ## Turns -/

omit [DecidableEq α] in
/-- The first member of a queue that was rotated. -/
theorem getElem?_of_rotate (h : q.rotate j = a :: rest) : q[j % q.length]? = some a := by
  have hne : q ≠ [] := by
    rintro rfl
    simp at h
  rw [← List.head?_rotate (Nat.mod_lt _ (List.length_pos_of_ne_nil hne)), List.rotate_mod, h, List.head?_cons]

omit [DecidableEq α] in
/-- The members that have had a turn after one turn more. -/
theorem mem_take_succ {x : α} (ha : q[j % q.length]? = some a) :
    x ∈ q.take (j + 1) ↔ x = a ∨ x ∈ q.take j := by
  rcases Nat.lt_or_ge j q.length with hj | hj
  · rw [Nat.mod_eq_of_lt hj] at ha
    rw [List.take_add_one, ha, List.mem_append, or_comm, Option.toList_some, List.mem_singleton]
  · rw [List.take_of_length_le hj, List.take_of_length_le (by omega)]
    exact ⟨.inr, fun h => h.elim (fun hx => hx ▸ List.mem_of_getElem? ha) id⟩

/-- After `j` turns the members that have had one have a new slice. -/
def leftAfter (slice : α → Nat) (s : State α) (j : Nat) (x : α) : Nat :=
  if x ∈ s.queue.take j then slice x else s.left x

theorem turns (q : List α) (left : α → Nat) (j : Nat) :
    (turn slice)^[j] ⟨q, left⟩ = ⟨q.rotate j, leftAfter slice ⟨q, left⟩ j⟩ := by
  induction j with
  | zero =>
    have hnone : leftAfter slice ⟨q, left⟩ 0 = left := by
      funext x
      simp [leftAfter]
    rw [iterate_zero_apply, List.rotate_zero, hnone]
  | succ j ih =>
    rw [iterate_succ_apply', ih, ← List.rotate_rotate q j 1, turn]
    cases hq : q.rotate j with
    | nil =>
      obtain rfl : q = [] := List.rotate_eq_nil_iff.mp hq
      have hnone : ∀ j, leftAfter slice ⟨[], left⟩ j = left := by
        intro j
        funext x
        simp [leftAfter]
      rw [hnone, hnone, List.rotate_nil]
    | cons a rest =>
      dsimp only
      rw [List.rotate_cons_succ, List.rotate_zero]
      congr 1
      funext x
      unfold leftAfter
      have hmem := mem_take_succ (x := x) (getElem?_of_rotate hq)
      by_cases hx : x = a
      · subst hx
        rw [update_self, if_pos (hmem.mpr (.inl rfl))]
      · simp only [update_of_ne hx, hmem, hx, false_or]

omit [DecidableEq α] in
/-- A member is at the front again when all have had a turn. -/
theorem mem_take_iff (hnodup : q.Nodup) (ha : q[j % q.length]? = some a) :
    a ∈ q.take j ↔ q.length ≤ j := by
  constructor
  · intro hmem
    by_contra hj
    rw [Nat.mod_eq_of_lt (by omega)] at ha
    obtain ⟨i, hi, hget⟩ := List.getElem_of_mem hmem
    rw [List.length_take] at hi
    rw [List.getElem_take] at hget
    obtain ⟨hj', hget'⟩ := List.getElem?_eq_some_iff.mp ha
    have heq : i = j := (hnodup.getElem_inj_iff).mp (hget.trans hget'.symm)
    omega
  · intro hj
    rw [List.take_of_length_le hj]
    exact List.mem_of_getElem? ha

/-- The turn `j` begins with its length left. -/
theorem turn_left (hnodup : q.Nodup) (hq : q.rotate j = a :: rest) :
    leftAfter slice ⟨q, left⟩ j a = turnLength slice ⟨q, left⟩ j := by
  have ha := getElem?_of_rotate hq
  have hmem := mem_take_iff hnodup ha
  unfold leftAfter turnLength
  rw [ha, Option.elim_some]
  rcases Nat.lt_or_ge j q.length with hj | hj
  · rw [if_pos hj, if_neg fun h => absurd (hmem.mp h) (Nat.not_le.mpr hj)]
  · rw [if_neg (Nat.not_lt.mpr hj), if_pos (hmem.mpr hj)]

/-- All ticks before the turn `j`. -/
theorem ticks_turnStart (hnodup : q.Nodup) (hleft : ∀ a ∈ q, 0 < left a) (hslice : ∀ a ∈ q, 0 < slice a)
    (j : Nat) : (tick slice)^[turnStart slice ⟨q, left⟩ j] ⟨q, left⟩ = (turn slice)^[j] ⟨q, left⟩ := by
  induction j with
  | zero => rfl
  | succ j ih =>
    have hstart : turnStart slice ⟨q, left⟩ (j + 1) =
        turnLength slice ⟨q, left⟩ j + turnStart slice ⟨q, left⟩ j := by
      simp [turnStart, List.range_succ, Nat.add_comm]
    rw [hstart, iterate_add_apply, ih, iterate_succ_apply', turns]
    cases hq : q.rotate j with
    | nil =>
      obtain rfl : q = [] := List.rotate_eq_nil_iff.mp hq
      rfl
    | cons a rest =>
      have ha : a ∈ q := List.mem_of_getElem? (getElem?_of_rotate hq)
      rw [← turn_left hnodup hq]
      refine ticks_turn ?_
      unfold leftAfter
      split
      · exact hslice a ha
      · exact hleft a ha

/-- Who runs after any number of ticks, and what is left for it. -/
theorem ticks_eq (hnodup : q.Nodup) (hleft : ∀ a ∈ q, 0 < left a) (hslice : ∀ a ∈ q, 0 < slice a)
    (hr : r < turnLength slice ⟨q, left⟩ j) :
    ∃ a rest, q.rotate j = a :: rest ∧
      ((tick slice)^[turnStart slice ⟨q, left⟩ j + r] ⟨q, left⟩).queue = a :: rest ∧
      ((tick slice)^[turnStart slice ⟨q, left⟩ j + r] ⟨q, left⟩).left a =
        turnLength slice ⟨q, left⟩ j - r := by
  rw [Nat.add_comm, iterate_add_apply, ticks_turnStart hnodup hleft hslice, turns]
  cases hq : q.rotate j with
  | nil =>
    obtain rfl : q = [] := List.rotate_eq_nil_iff.mp hq
    cases hr
  | cons a rest =>
    rw [← turn_left hnodup hq] at hr ⊢
    refine ⟨a, rest, rfl, ?_⟩
    rw [ticks_within hr]
    exact ⟨rfl, update_self ..⟩

end RoundRobin
