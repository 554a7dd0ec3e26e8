-- SUMMARY: Cyclic doubly linked lists.
import Mathlib.Data.List.Nodup

/-!
# Cyclic lists

The nodes of a doubly linked list live in a pool, and `next` and `prev` map a node to its
neighbours. `Path next prev a l b` says that the links lead from `a` through the nodes `l` to `b`,
and back. A cyclic list is a path from its sentinel to itself. Two writes take a node out
(`Relink`) and four put one in (`Splice`); both leave the other links of the pool as they are.
-/

namespace Cyclic

variable {α : Type*} {next prev next' prev' : α → α} {G : α → Prop} {a b p n s x : α}
  {l l1 l2 : List α}

/-- The links lead from `a` through the nodes `l` to `b`, and back. -/
def Path (next prev : α → α) : α → List α → α → Prop
  | a, [], b => next a = b ∧ prev b = a
  | a, x :: l, b => next a = x ∧ prev x = a ∧ Path next prev x l b

theorem path_append :
    Path next prev a (l1 ++ x :: l2) b ↔ Path next prev a l1 x ∧ Path next prev x l2 b := by
  induction l1 generalizing a with
  | nil => simp [Path, and_assoc]
  | cons y l1 ih => simp [Path, ih, and_assoc]

namespace Path

variable (h : Path next prev a l b)

include h

theorem next_eq : next a = l.headD b := by
  cases l with
  | nil => exact h.1
  | cons x l => exact h.1

theorem prev_eq : prev b = l.getLastD a := by
  induction l generalizing a with
  | nil => exact h.2
  | cons x l ih => rw [ih h.2.2, List.getLastD_cons]

theorem prev_next : ∀ y ∈ a :: l, prev (next y) = y := by
  induction l generalizing a with
  | nil =>
    intro y hy
    obtain rfl := List.mem_singleton.mp hy
    rw [h.1, h.2]
  | cons x l ih =>
    obtain ⟨ha, hx, hrest⟩ := h
    intro y hy
    rcases List.mem_cons.mp hy with rfl | hy
    · rw [ha, hx]
    · exact ih hrest y hy

theorem next_prev : ∀ y ∈ b :: l, next (prev y) = y := by
  induction l generalizing a with
  | nil =>
    intro y hy
    obtain rfl := List.mem_singleton.mp hy
    rw [h.2, h.1]
  | cons x l ih =>
    obtain ⟨ha, hx, hrest⟩ := h
    intro y hy
    by_cases hyx : y = x
    · rw [hyx, hx, ha]
    · refine ih hrest y ?_
      simpa [hyx] using hy

/-- A path depends on the links of its own nodes only. -/
theorem congr (hnext : ∀ y ∈ a :: l, next' y = next y)
    (hprev : ∀ y ∈ b :: l, prev' y = prev y) : Path next' prev' a l b := by
  induction l generalizing a with
  | nil => exact ⟨(hnext a (by simp)).trans h.1, (hprev b (by simp)).trans h.2⟩
  | cons x l ih =>
    obtain ⟨ha, hx, hrest⟩ := h
    refine ⟨(hnext a (by simp)).trans ha, (hprev x (by simp)).trans hx, ih hrest ?_ ?_⟩
    · exact fun y hy => hnext y (List.mem_cons_of_mem a hy)
    · intro y hy
      refine hprev y ?_
      rcases List.mem_cons.mp hy with rfl | hy <;> simp [*]

end Path

/-- `p` and `n` become neighbours. -/
structure Relink (G : α → Prop) (next prev next' prev' : α → α) (p n : α) : Prop where
  forth : next' p = n
  back : prev' n = p
  next_of_ne : ∀ y, G y → y ≠ p → next' y = next y
  prev_of_ne : ∀ y, G y → y ≠ n → prev' y = prev y

/-- `x` is put between `p` and `n`. -/
structure Splice (G : α → Prop) (next prev next' prev' : α → α) (p x n : α) : Prop where
  forth : next' p = x
  back : prev' n = x
  forth_new : next' x = n
  back_new : prev' x = p
  next_of_ne : ∀ y, G y → y ≠ p → y ≠ x → next' y = next y
  prev_of_ne : ∀ y, G y → y ≠ n → y ≠ x → prev' y = prev y

namespace Path

/-- A node between its neighbours is taken out. -/
theorem erase (h : Path next prev a (l1 ++ x :: l2) b) (hnodup : (a :: (l1 ++ x :: l2)).Nodup)
    (hb : b ∉ l1 ++ x :: l2) (hr : Relink G next prev next' prev' (prev x) (next x))
    (hG : ∀ y ∈ a :: b :: (l1 ++ x :: l2), G y) : Path next' prev' a (l1 ++ l2) b := by
  induction l1 generalizing a with
  | nil =>
    obtain ⟨-, hx, hrest⟩ := h
    rw [hx] at hr
    obtain ⟨ha, hxl⟩ := List.nodup_cons.mp hnodup
    cases l2 with
    | nil => exact ⟨hr.forth.trans hrest.1, by rw [← hrest.1]; exact hr.back⟩
    | cons y l2 =>
      obtain ⟨hy, -, hrest⟩ := hrest
      rw [hy] at hr
      refine ⟨hr.forth, hr.back, hrest.congr (fun z hz => ?_) fun z hz => ?_⟩
      · refine hr.next_of_ne z (hG z (by grind)) ?_
        rintro rfl
        exact ha (List.mem_cons_of_mem x hz)
      · refine hr.prev_of_ne z (hG z (by grind)) ?_
        rintro rfl
        grind
  | cons y l1 ih =>
    obtain ⟨ha, hy, hrest⟩ := h
    obtain ⟨hay, hnodup'⟩ := List.nodup_cons.mp hnodup
    obtain ⟨hpath, hpath'⟩ := path_append.mp hrest
    have hp : prev x ∈ y :: l1 := by
      rw [hpath.prev_eq]
      exact List.getLastD_mem_cons
    have hn : next x ∈ b :: l2 := by
      rw [hpath'.next_eq]
      cases l2 <;> simp
    refine ⟨?_, ?_, ih hrest hnodup' (fun hmem => hb (List.mem_cons_of_mem y hmem)) ?_⟩
    · rw [hr.next_of_ne a (hG a (by simp)), ha]
      rintro rfl
      exact hay (by grind)
    · rw [hr.prev_of_ne y (hG y (by simp)), hy]
      rintro rfl
      grind
    · intro z hz
      exact hG z (by grind)

/-- A node is put behind the first one. -/
theorem insert (h : Path next prev a l b) (hnodup : (a :: l).Nodup) (hb : b ∉ l)
    (hx : x ∉ a :: b :: l) (hs : Splice G next prev next' prev' a x (next a))
    (hG : ∀ y ∈ a :: b :: l, G y) : Path next' prev' a (x :: l) b := by
  refine ⟨hs.forth, hs.back_new, ?_⟩
  cases l with
  | nil =>
    rw [h.1] at hs
    exact ⟨hs.forth_new, hs.back⟩
  | cons y l =>
    obtain ⟨hy, -, hrest⟩ := h
    rw [hy] at hs
    refine ⟨hs.forth_new, hs.back, hrest.congr (fun z hz => ?_) fun z hz => ?_⟩
    · exact hs.next_of_ne z (hG z (by grind)) (by grind) (by grind)
    · exact hs.prev_of_ne z (hG z (by grind)) (by grind) (by grind)

end Path

/-- The nodes of the cyclic list with the sentinel `s`. -/
structure Cycle (next prev : α → α) (s : α) (l : List α) : Prop where
  path : Path next prev s l s
  nodup : (s :: l).Nodup

namespace Cycle

theorem not_mem (h : Cycle next prev s l) : s ∉ l := (List.nodup_cons.mp h.nodup).1

theorem congr (h : Cycle next prev s l) (hnext : ∀ y ∈ s :: l, next' y = next y)
    (hprev : ∀ y ∈ s :: l, prev' y = prev y) : Cycle next' prev' s l :=
  ⟨h.path.congr hnext hprev, h.nodup⟩

theorem erase (h : Cycle next prev s (l1 ++ x :: l2))
    (hr : Relink G next prev next' prev' (prev x) (next x)) (hG : ∀ y ∈ s :: (l1 ++ x :: l2), G y) :
    Cycle next' prev' s (l1 ++ l2) := by
  refine ⟨h.path.erase h.nodup h.not_mem hr fun y hy => hG y (by grind), ?_⟩
  have hsub : (s :: (l1 ++ l2)).Sublist (s :: (l1 ++ x :: l2)) := by simp
  exact h.nodup.sublist hsub

theorem insert (h : Cycle next prev s l) (hx : x ∉ s :: l)
    (hs : Splice G next prev next' prev' s x (next s)) (hG : ∀ y ∈ s :: l, G y) :
    Cycle next' prev' s (x :: l) := by
  have hnodup := h.nodup
  exact ⟨h.path.insert h.nodup h.not_mem (by grind) hs fun y hy => hG y (by grind), by grind⟩

/-- A node is put behind `p`. -/
theorem insert_after (h : Cycle next prev s (l1 ++ p :: l2)) (hx : x ∉ s :: (l1 ++ p :: l2))
    (hs : Splice G next prev next' prev' p x (next p)) (hG : ∀ y ∈ s :: (l1 ++ p :: l2), G y) :
    Cycle next' prev' s (l1 ++ p :: x :: l2) := by
  obtain ⟨hall, hnodup⟩ := h
  obtain ⟨hpath, hpath'⟩ := path_append.mp hall
  have hn : next p ∈ s :: l2 := by
    rw [hpath'.next_eq]
    cases l2 <;> simp
  refine ⟨path_append.mpr ⟨hpath.congr (fun z hz => ?_) fun z hz => ?_, hpath'.insert ?_ ?_ ?_ hs ?_⟩, ?_⟩
  · exact hs.next_of_ne z (hG z (by grind)) (by grind) (by grind)
  · exact hs.prev_of_ne z (hG z (by grind)) (by grind) (by grind)
  · grind
  · grind
  · grind
  · intro z hz
    exact hG z (by grind)
  · grind

end Cycle

end Cyclic
