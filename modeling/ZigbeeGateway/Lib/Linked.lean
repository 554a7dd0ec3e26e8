-- SUMMARY: Singly linked lists: the nodes that a `next` pointer visits.
import Mathlib.Data.List.Nodup

/-!
# Singly linked lists

The nodes of a linked list live in an array or in a pool, and `next` maps a node to the one
after it. `Chain next p l` says that a walk from the pointer `p` visits the nodes `l` and ends.
Stores to the `next` field of a node outside of the chain do not change it, so several chains
can share one pool as long as they share no node.
-/

namespace Linked

variable {α : Type*} {next : α → Option α} {p q : Option α} {a b : α} {l : List α}

/-- From `p` on, the pointers visit exactly the nodes `l`, in this order, and end. -/
def Chain (next : α → Option α) : Option α → List α → Prop
  | p, [] => p = none
  | p, a :: l => p = some a ∧ Chain next (next a) l

namespace Chain

theorem head_eq (h : Chain next p l) : p = l.head? := by
  cases l with
  | nil => exact h
  | cons a l => exact h.1

theorem eq_nil (h : Chain next none l) : l = [] := by
  cases l with
  | nil => rfl
  | cons a l => exact absurd h.1 (by simp)

/-- The first node of a chain, and the rest of it. -/
theorem uncons (h : Chain next (some a) l) : ∃ rest, l = a :: rest ∧ Chain next (next a) rest := by
  cases l with
  | nil => exact absurd h (by simp [Chain])
  | cons b rest =>
    obtain ⟨hab, hrest⟩ := h
    obtain rfl : a = b := Option.some.inj hab
    exact ⟨rest, rfl, hrest⟩

/-- The pointers determine the nodes. -/
theorem unique {l' : List α} (h : Chain next p l) (h' : Chain next p l') : l = l' := by
  induction l generalizing p l' with
  | nil =>
    cases h
    exact h'.eq_nil.symm
  | cons a l ih =>
    obtain ⟨rfl, hrest⟩ := h
    obtain ⟨rest, rfl, hrest'⟩ := h'.uncons
    rw [ih hrest hrest']

/-- The nodes `f 0`, …, `f n`, each linked to the next one. -/
theorem of_seq {n : Nat} {f : Nat → α} (hnext : ∀ i < n, next (f i) = some (f (i + 1)))
    (hlast : next (f n) = none) : Chain next (some (f 0)) ((List.range (n + 1)).map f) := by
  induction n generalizing f with
  | zero => exact ⟨rfl, hlast⟩
  | succ n ih =>
    rw [List.range_succ_eq_map, List.map_cons, List.map_map]
    refine ⟨rfl, ?_⟩
    rw [hnext 0 (by omega)]
    exact ih (f := f ∘ Nat.succ) (fun i hi => hnext (i + 1) (by omega)) hlast

variable [DecidableEq α]

/-- A store to a node outside of the chain. -/
theorem update (h : Chain next p l) (ha : a ∉ l) : Chain (Function.update next a q) p l := by
  induction l generalizing p with
  | nil => exact h
  | cons b l ih =>
    obtain ⟨hp, hrest⟩ := h
    obtain ⟨hab, hal⟩ := not_or.mp (List.mem_cons.not.mp ha)
    rw [Chain, Function.update_of_ne (Ne.symm hab)]
    exact ⟨hp, ih hrest hal⟩

/-- A new first node. -/
theorem push (h : Chain next p l) (ha : a ∉ l) :
    Chain (Function.update next a p) (some a) (a :: l) := by
  rw [Chain, Function.update_self]
  exact ⟨rfl, h.update ha⟩

/-- A new last node. -/
theorem concat (h : Chain next p l) (hl : l.Nodup) (hlast : l.getLast? = some b) (ha : a ∉ l)
    (hend : next a = none) : Chain (Function.update next b (some a)) p (l ++ [a]) := by
  have hab : a ≠ b := fun hab => ha (hab ▸ List.mem_of_getLast? hlast)
  induction l generalizing p with
  | nil => simp at hlast
  | cons c l ih =>
    obtain ⟨hp, hrest⟩ := h
    obtain ⟨hcl, hl⟩ := List.nodup_cons.mp hl
    refine ⟨hp, ?_⟩
    cases l with
    | nil =>
      obtain rfl : c = b := by simpa using hlast
      rw [Function.update_self]
      exact ⟨rfl, by rwa [Chain, Function.update_of_ne hab]⟩
    | cons d l =>
      have hcb : c ≠ b := fun hcb => hcl (hcb ▸ List.mem_of_getLast? hlast)
      rw [Function.update_of_ne hcb]
      exact ih hrest hl hlast (fun h => ha (List.mem_cons_of_mem c h))

end Chain

end Linked
