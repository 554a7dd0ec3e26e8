-- SUMMARY: Families of lists that share their nodes.
import Mathlib.Data.List.Nodup

/-!
# Lanes

A family of lists `L : κ → List α` models intrusive lists. A node of an intrusive
list carries one pair of links, so it is linked in at most one list of the family
and at most once, and it is unlinked without naming the list. `Exclusive` states
this, and the operations below keep it. Where every node is always in some list, an operation
moves a node from one list to another (`Moves`).
-/

namespace Lanes

variable {κ α : Type*} [DecidableEq κ] [DecidableEq α]

/-- Unlink a node from the list it is in, if any. -/
def remove (L : κ → List α) (a : α) : κ → List α := fun k => (L k).erase a

/-- Replace one list of the family. -/
def put (L : κ → List α) (k : κ) (l : List α) : κ → List α := Function.update L k l

structure Exclusive (L : κ → List α) : Prop where
  nodup : ∀ k, (L k).Nodup
  unique : ∀ {k k' a}, a ∈ L k → a ∈ L k' → k = k'

omit [DecidableEq α] in
@[simp] theorem put_same (L : κ → List α) (k : κ) (l : List α) : put L k l k = l :=
  Function.update_self ..

omit [DecidableEq α] in
theorem put_of_ne (L : κ → List α) {k k' : κ} (l : List α) (h : k' ≠ k) : put L k l k' = L k' :=
  Function.update_of_ne h ..

variable {L : κ → List α}

section

omit [DecidableEq κ]

theorem remove_of_not_mem {a : α} {k : κ} (h : a ∉ L k) :
    remove L a k = L k := List.erase_of_not_mem h

theorem Exclusive.mem_remove (h : Exclusive L) {a b : α} {k : κ} :
    b ∈ remove L a k ↔ b ≠ a ∧ b ∈ L k := (h.nodup k).mem_erase_iff

theorem Exclusive.remove (h : Exclusive L) (a : α) :
    Exclusive (Lanes.remove L a) where
  nodup := fun k => (h.nodup k).erase a
  unique := fun hk hk' => h.unique (List.mem_of_mem_erase hk) (List.mem_of_mem_erase hk')

end

section

omit [DecidableEq α]

/-- The nodes of the family after linking one more. The position in the list `l` is free. -/
theorem mem_put_of_perm {a b : α} {k k' : κ} {l : List α}
    (hl : l.Perm (a :: L k)) : b ∈ put L k l k' ↔ (k' = k ∧ b = a) ∨ b ∈ L k' := by
  rcases eq_or_ne k' k with rfl | hk
  · simp [hl.mem_iff]
  · simp [put_of_ne L l hk, hk]

/-- A list may be replaced by one whose nodes are in no other list. -/
theorem Exclusive.replace (h : Exclusive L) {k : κ} {l : List α} (hl : l.Nodup)
    (hfree : ∀ {a k'}, a ∈ l → a ∈ L k' → k' = k) : Exclusive (Lanes.put L k l) where
  nodup := by
    intro k'
    rcases eq_or_ne k' k with rfl | hk
    · rwa [put_same]
    · rw [put_of_ne L l hk]
      exact h.nodup k'
  unique := by
    intro k1 k2 b h1 h2
    by_cases hk1 : k1 = k <;> by_cases hk2 : k2 = k
    · rw [hk1, hk2]
    · rw [hk1, put_same] at h1
      rw [put_of_ne L l hk2] at h2
      exact absurd (hfree h1 h2) hk2
    · rw [hk2, put_same] at h2
      rw [put_of_ne L l hk1] at h1
      exact absurd (hfree h2 h1) hk1
    · rw [put_of_ne L l hk1] at h1
      rw [put_of_ne L l hk2] at h2
      exact h.unique h1 h2

/-- Linking a node that is in no list. -/
theorem Exclusive.put (h : Exclusive L) {a : α} {k : κ} {l : List α}
    (hfree : ∀ k, a ∉ L k) (hl : l.Perm (a :: L k)) : Exclusive (put L k l) := by
  refine h.replace (hl.nodup_iff.mpr (List.nodup_cons.mpr ⟨hfree k, h.nodup k⟩)) ?_
  intro b k' hb hk'
  rcases List.mem_cons.mp (hl.mem_iff.mp hb) with rfl | hb
  · exact absurd hk' (hfree k')
  · exact h.unique hk' hb

end

/-- One node goes from the list `k` to the list `k'`. -/
structure Moves (L L' : κ → List α) (a : α) (k k' : κ) : Prop where
  ne : k ≠ k'
  out : (L k).Perm (a :: L' k)
  into : (L' k').Perm (a :: L k')
  other : ∀ {i}, i ≠ k → i ≠ k' → L' i = L i

namespace Moves

variable {L L' : κ → List α} {a b : α} {k k' i : κ}

section

omit [DecidableEq κ] [DecidableEq α]

/-- A node that is in a list after the move is the one that moved, or was there before. -/
theorem mem_cases (h : Moves L L' a k k') (hb : b ∈ L' i) : i = k' ∧ b = a ∨ b ∈ L i := by
  by_cases hik : i = k
  · subst hik
    exact .inr (h.out.mem_iff.mpr (List.mem_cons_of_mem a hb))
  · by_cases hik' : i = k'
    · subst hik'
      exact (List.mem_cons.mp (h.into.mem_iff.mp hb)).imp_left fun hba => ⟨rfl, hba⟩
    · rw [h.other hik hik'] at hb
      exact .inr hb

theorem exclusive (h : Moves L L' a k k') (hL : Exclusive L) : Exclusive L' := by
  have ha : a ∈ L k := h.out.mem_iff.mpr List.mem_cons_self
  -- the node is not where it came from
  have haway : ∀ {i}, a ∈ L' i → i = k' := by
    intro i hi
    rcases h.mem_cases hi with ⟨rfl, -⟩ | hai
    · rfl
    · obtain rfl : i = k := hL.unique hai ha
      exact absurd hi (List.nodup_cons.mp (h.out.nodup_iff.mp (hL.nodup i))).1
  refine ⟨fun i => ?_, fun {i j b} hi hj => ?_⟩
  · by_cases hik : i = k
    · subst hik
      exact (List.nodup_cons.mp (h.out.nodup_iff.mp (hL.nodup i))).2
    · by_cases hik' : i = k'
      · subst hik'
        refine h.into.nodup_iff.mpr (List.nodup_cons.mpr ⟨fun hai => ?_, hL.nodup i⟩)
        exact h.ne (hL.unique ha hai)
      · rw [h.other hik hik']
        exact hL.nodup i
  · rcases h.mem_cases hi with ⟨hi', rfl⟩ | hi'
    · rw [hi', haway hj]
    · rcases h.mem_cases hj with ⟨hj', rfl⟩ | hj'
      · rw [hj', haway hi]
      · exact hL.unique hi' hj'

/-- No node is lost, and none comes in. -/
theorem exists_mem (h : Moves L L' a k k') : (∃ i, b ∈ L' i) ↔ ∃ i, b ∈ L i := by
  constructor
  · rintro ⟨i, hi⟩
    rcases h.mem_cases hi with ⟨-, rfl⟩ | hi
    · exact ⟨k, h.out.mem_iff.mpr List.mem_cons_self⟩
    · exact ⟨i, hi⟩
  · rintro ⟨i, hi⟩
    by_cases hik : i = k
    · subst hik
      rcases List.mem_cons.mp (h.out.mem_iff.mp hi) with rfl | hi
      · exact ⟨k', h.into.mem_iff.mpr List.mem_cons_self⟩
      · exact ⟨i, hi⟩
    · by_cases hik' : i = k'
      · exact ⟨k', h.into.mem_iff.mpr (List.mem_cons_of_mem a (hik' ▸ hi))⟩
      · exact ⟨i, by rwa [h.other hik hik']⟩

end

end Moves

end Lanes
