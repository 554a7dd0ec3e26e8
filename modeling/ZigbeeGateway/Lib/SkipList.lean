-- SUMMARY: Skip lists as stacks of rows.
import Mathlib.Data.List.Chain
import Mathlib.Data.List.Nodup
import Mathlib.Data.List.TakeWhile

/-!
# Skip lists

The rows of a skip list are lists of nodes, the bottom row first; every row is a sublist of the one
below it. The descent begins at the head of the top row, goes on in each row over the nodes that `pass`,
and continues in the row below from the node where it stopped. When no node that passes comes after one
that does not, it ends in every row at the last node that passes, and a node that is inserted there comes
to the same place in all rows (`descend_eq`, `insertAfter_last`).
-/

namespace SkipList

variable {α : Type*} {pass : α → Bool} {x : α} {row lower upper : List α} {rows : List (List α)}

/-- The nodes of a row after the node `pos`, or all of them after the head of the row. There is no result
when the node is not in the row. -/
def after [DecidableEq α] (row : List α) : Option α → Option (List α)
  | none => some row
  | some a => if a ∈ row then some (row.dropWhile (· ≠ a)).tail else none

/-- Go on from `pos` over the nodes that pass. -/
def search (pass : α → Bool) : Option α → List α → Option α
  | pos, [] => pos
  | pos, a :: row => if pass a then search pass (some a) row else pos

/-- The nodes where the descent stops, the one in the bottom row first. -/
def descend [DecidableEq α] (pass : α → Bool) : List (List α) → Option (List (Option α))
  | [] => some []
  | row :: up => do
    let heads ← descend pass up
    let start := heads.headD none
    let rest ← after row start
    return search pass start rest :: heads

/-- Insert `x` after the node `pos` of a row. -/
def insertAfter [DecidableEq α] (x : α) : Option α → List α → List α
  | none, row => x :: row
  | some _, [] => []
  | some a, b :: row => if b = a then b :: x :: row else b :: insertAfter x (some a) row

/-- Insert `x` in the lowest `k` rows. -/
def insertRows [DecidableEq α] (x : α) : Nat → List (List α) → List (Option α) → List (List α)
  | k + 1, row :: up, head :: heads => insertAfter x head row :: insertRows x k up heads
  | _, rows, _ => rows

/-- Insert `x` before the first node that does not pass. -/
def insertAt (pass : α → Bool) (x : α) (row : List α) : List α :=
  row.takeWhile pass ++ x :: row.dropWhile pass

/-- No node that passes comes after one that does not. -/
def Splits (pass : α → Bool) (row : List α) : Prop :=
  row.Pairwise fun a b => pass b = true → pass a = true

/-- Every row is a sublist of the one below it. -/
def Stacked (rows : List (List α)) : Prop := rows.IsChain fun lower upper => upper.Sublist lower

/-! ## Rows that split -/

theorem Splits.filter_eq (h : Splits pass row) :
    row.takeWhile pass = row.filter pass ∧ row.dropWhile pass = row.filter fun a => !pass a := by
  induction row with
  | nil => exact ⟨rfl, rfl⟩
  | cons a row ih =>
    obtain ⟨hhead, htail⟩ := List.pairwise_cons.mp h
    obtain ⟨htake, hdrop⟩ := ih htail
    cases ha : pass a with
    | true => simp [ha, htake, hdrop]
    | false =>
      have hnone : ∀ b ∈ row, pass b = false := by
        intro b hb
        by_contra hpass
        rw [hhead b hb (by simpa using hpass)] at ha
        cases ha
      have hfilter : row.filter pass = [] := List.filter_eq_nil_iff.mpr (by simpa using hnone)
      have hfilter' : (row.filter fun a => !pass a) = row :=
        List.filter_eq_self.mpr (by simpa using hnone)
      simp [ha, hfilter, hfilter']

theorem Splits.mem_takeWhile (h : Splits pass row) {a : α} :
    a ∈ row.takeWhile pass ↔ a ∈ row ∧ pass a = true := by
  rw [h.filter_eq.1, List.mem_filter]

theorem Splits.mem_dropWhile (h : Splits pass row) {a : α} :
    a ∈ row.dropWhile pass ↔ a ∈ row ∧ pass a = false := by
  rw [h.filter_eq.2, List.mem_filter, Bool.not_eq_true']

theorem Splits.sublist (h : Splits pass lower) (hsub : upper.Sublist lower) : Splits pass upper :=
  List.Pairwise.sublist hsub h

theorem insertAt_cons_of_pos {a : α} (ha : pass a = true) :
    insertAt pass x (a :: row) = a :: insertAt pass x row := by
  rw [insertAt, List.takeWhile_cons_of_pos ha, List.dropWhile_cons_of_pos ha]
  rfl

theorem insertAt_cons_of_neg {a : α} (ha : ¬ pass a = true) :
    insertAt pass x (a :: row) = x :: a :: row := by
  rw [insertAt, List.takeWhile_cons_of_neg ha, List.dropWhile_cons_of_neg ha]
  rfl

theorem sublist_insertAt : row.Sublist (insertAt pass x row) := by
  have hsplit : row.takeWhile pass ++ row.dropWhile pass = row := List.takeWhile_append_dropWhile
  have hsub : (row.takeWhile pass ++ row.dropWhile pass).Sublist (insertAt pass x row) :=
    (List.Sublist.refl _).append (List.sublist_cons_self ..)
  rwa [hsplit] at hsub

/-- The node comes to the same place in a row and in the one above it. -/
theorem Splits.insertAt_sublist (h : Splits pass lower) (hsub : upper.Sublist lower) :
    (insertAt pass x upper).Sublist (insertAt pass x lower) := by
  obtain ⟨htake, hdrop⟩ := h.filter_eq
  obtain ⟨htake', hdrop'⟩ := (h.sublist hsub).filter_eq
  rw [insertAt, insertAt, htake, hdrop, htake', hdrop']
  exact (hsub.filter _).append ((hsub.filter _).cons_cons x)

/-- An insertion keeps the nodes of a set `keep` in front, if it passes them all when the new node is
not in the set, and passes no others when it is. -/
theorem Splits.insertAt {keep : α → Bool} (h : Splits keep row)
    (hpass : keep x = false → ∀ a ∈ row, keep a = true → pass a = true)
    (hstop : keep x = true → ∀ a ∈ row, pass a = true → keep a = true) :
    Splits keep (insertAt pass x row) := by
  refine List.pairwise_append.mpr ⟨h.sublist (List.takeWhile_sublist pass), ?_, ?_⟩
  · refine List.pairwise_cons.mpr ⟨fun b hb hkeep => ?_, h.sublist (List.dropWhile_sublist pass)⟩
    cases hx : keep x with
    | true => rfl
    | false =>
      -- the first node behind the new one did not pass, so neither it nor `b` is in the set
      cases hdrop : row.dropWhile pass with
      | nil => simp [hdrop] at hb
      | cons a rest =>
        have ha : ¬ pass a = true := by
          have hhead := List.head_dropWhile_not pass (l := row) (by simp [hdrop])
          simpa [hdrop] using hhead
        have hsub : (a :: rest).Sublist row := hdrop ▸ List.dropWhile_sublist pass
        have hfirst : keep a = true := by
          rw [hdrop] at hb
          rcases List.mem_cons.mp hb with rfl | hmem
          · exact hkeep
          · exact (List.pairwise_cons.mp (h.sublist hsub)).1 b hmem hkeep
        exact absurd (hpass hx a (hsub.subset List.mem_cons_self) hfirst) ha
  · intro a ha b hb hkeep
    have hmem : a ∈ row := (List.takeWhile_sublist pass).subset ha
    rcases List.mem_cons.mp hb with rfl | hb
    · exact hstop hkeep a hmem (List.mem_takeWhile_imp ha)
    · have hsplit : row = row.takeWhile pass ++ row.dropWhile pass := List.takeWhile_append_dropWhile.symm
      rw [Splits, hsplit] at h
      exact (List.pairwise_append.mp h).2.2 a ha b hb hkeep

/-- All rows are sublists of the bottom one. -/
theorem Stacked.sublist (h : Stacked (lower :: rows)) (hrow : row ∈ lower :: rows) :
    row.Sublist lower := by
  induction rows generalizing lower with
  | nil =>
    obtain rfl := List.mem_singleton.mp hrow
    exact .refl _
  | cons next rows ih =>
    obtain ⟨hnext, hrest⟩ := List.isChain_cons.mp h
    rcases List.mem_cons.mp hrow with rfl | hrow
    · exact .refl _
    · exact (ih hrest hrow).trans (hnext next rfl)

/-! ## The descent -/

theorem search_eq (pos : Option α) (row : List α) :
    search pass pos row = ((row.takeWhile pass).getLast?).or pos := by
  induction row generalizing pos with
  | nil => rfl
  | cons a row ih =>
    rw [search]
    cases ha : pass a with
    | true =>
      rw [if_pos rfl, ih, List.takeWhile_cons_of_pos ha, List.getLast?_cons]
      cases (row.takeWhile pass).getLast? <;> rfl
    | false => rw [if_neg (by simp), List.takeWhile_cons_of_neg (by simp [ha])]; rfl

variable [DecidableEq α]

/-- The search in a row from a node of the row above that passes. -/
theorem Splits.search_after {a : α} (h : Splits pass row) (hnodup : row.Nodup) (ha : a ∈ row)
    (hpass : pass a = true) :
    ∃ rest, after row (some a) = some rest ∧
      search pass (some a) rest = (row.takeWhile pass).getLast? := by
  obtain ⟨l1, l2, rfl⟩ := List.append_of_mem ha
  have hnot : a ∉ l1 := fun hmem => List.disjoint_of_nodup_append hnodup hmem List.mem_cons_self
  have hdrop : (l1 ++ a :: l2).dropWhile (· ≠ a) = a :: l2 := by
    rw [List.dropWhile_append_of_pos fun b hb => ?_]
    · simp
    · exact decide_eq_true fun heq => hnot (heq ▸ hb)
  have hbefore : ∀ b ∈ l1, pass b = true := fun b hb =>
    (List.pairwise_append.mp h).2.2 b hb a List.mem_cons_self hpass
  refine ⟨l2, by rw [after, if_pos ha, hdrop]; rfl, ?_⟩
  rw [search_eq, List.takeWhile_append_of_pos hbefore, List.takeWhile_cons_of_pos hpass,
    List.getLast?_append, List.getLast?_cons]
  cases (l2.takeWhile pass).getLast? <;> rfl

/-- The descent stops in every row at the last node that passes. -/
theorem descend_eq (hstack : Stacked rows) (hsplit : ∀ row ∈ rows, Splits pass row)
    (hnodup : ∀ row ∈ rows, row.Nodup) :
    descend pass rows = some (rows.map fun row => (row.takeWhile pass).getLast?) := by
  induction rows with
  | nil => rfl
  | cons row up ih =>
    obtain ⟨hsub, hup⟩ := List.isChain_cons.mp hstack
    have hheads := ih hup (fun r hr => hsplit r (List.mem_cons_of_mem row hr))
      fun r hr => hnodup r (List.mem_cons_of_mem row hr)
    have hrow := hsplit row List.mem_cons_self
    rw [descend, hheads, Option.bind_eq_bind, Option.bind_some]
    cases hstart : (up.map fun row => (row.takeWhile pass).getLast?).headD none with
    | none =>
      simp only [after, Option.bind_eq_bind, Option.bind_some, search_eq, Option.or_none]
      rfl
    | some a =>
      -- the start is a node of the row above
      have hmem : a ∈ row ∧ pass a = true := by
        cases up with
        | nil => cases hstart
        | cons above up =>
          have hlast : (above.takeWhile pass).getLast? = some a := hstart
          have htake := List.mem_of_getLast? hlast
          exact ⟨(hsub above rfl).subset ((List.takeWhile_sublist pass).subset htake), List.mem_takeWhile_imp htake⟩
      obtain ⟨rest, hrest, hsearch⟩ := hrow.search_after (hnodup row List.mem_cons_self) hmem.1 hmem.2
      simp only [hrest, Option.bind_eq_bind, Option.bind_some, hsearch]
      rfl

/-! ## The insertion -/

theorem insertAfter_last (hnodup : row.Nodup) :
    insertAfter x (row.takeWhile pass).getLast? row = insertAt pass x row := by
  induction row with
  | nil => rfl
  | cons b row ih =>
    obtain ⟨hb, hrow⟩ := List.nodup_cons.mp hnodup
    by_cases hpass : pass b = true
    · rw [insertAt_cons_of_pos hpass, List.takeWhile_cons_of_pos hpass, List.getLast?_cons, insertAfter]
      cases hlast : (row.takeWhile pass).getLast? with
      | none =>
        have hempty := List.getLast?_eq_none_iff.mp hlast
        have hall : row.dropWhile pass = row := by
          have hsplit : row.takeWhile pass ++ row.dropWhile pass = row := List.takeWhile_append_dropWhile
          rwa [hempty] at hsplit
        rw [insertAt, hempty, hall]
        simp
      | some a =>
        have ha : a ∈ row := (List.takeWhile_sublist pass).subset (List.mem_of_getLast? hlast)
        have hne : b ≠ a := fun heq => hb (heq ▸ ha)
        rw [Option.getD_some, if_neg hne, ← hlast, ih hrow]
    · rw [insertAt_cons_of_neg hpass, List.takeWhile_cons_of_neg hpass]
      rfl

theorem length_insertRows (k : Nat) (rows : List (List α)) (heads : List (Option α)) :
    (insertRows x k rows heads).length = rows.length := by
  fun_induction insertRows with
  | case1 k row up head heads ih => rw [List.length_cons, ih, List.length_cons]
  | case2 => rfl

/-- The rows stay stacked when the node is inserted in the lowest ones. -/
theorem Stacked.insertRows (k : Nat) (hstack : Stacked rows) (hsplit : ∀ row ∈ rows, Splits pass row)
    (hnodup : ∀ row ∈ rows, row.Nodup) :
    Stacked (insertRows x k rows (rows.map fun row => (row.takeWhile pass).getLast?)) := by
  induction rows generalizing k with
  | nil => cases k <;> exact hstack
  | cons row up ih =>
    cases k with
    | zero => exact hstack
    | succ k =>
      obtain ⟨hsub, hup⟩ := List.isChain_cons.mp hstack
      have hrow := hsplit row List.mem_cons_self
      rw [List.map_cons, SkipList.insertRows, insertAfter_last (hnodup row List.mem_cons_self)]
      refine List.isChain_cons.mpr ⟨fun next hnext => ?_, ih k hup
        (fun r hr => hsplit r (List.mem_cons_of_mem row hr))
        fun r hr => hnodup r (List.mem_cons_of_mem row hr)⟩
      cases up with
      | nil => cases k <;> cases hnext
      | cons above up =>
        have habove : above.Sublist row := hsub above rfl
        cases k with
        | zero =>
          cases hnext
          exact habove.trans sublist_insertAt
        | succ k =>
          have heq : insertAfter x (above.takeWhile pass).getLast? above = next := Option.some.inj hnext
          rw [insertAfter_last (hnodup above (by simp))] at heq
          rw [← heq]
          exact hrow.insertAt_sublist habove

end SkipList
