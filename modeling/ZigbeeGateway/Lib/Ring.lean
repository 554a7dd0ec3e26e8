-- SUMMARY: Ring buffers as lists; bounded queues.
import Mathlib.Data.Nat.ModEq

/-!
# Ring buffers

A ring buffer of `size` slots holds `n` elements from slot `out` on. `Holds` relates the
offsets and the count to the list of the elements in order; pushing at the `in` offset
appends to this list and popping at the `out` offset removes its head.
-/

namespace Ring

open Function

variable {α : Type*} (pool : Nat → α) (size out n : Nat)

/-- The `n` elements from slot `out` on, in order. -/
def contents : List α := (List.range n).map fun j => pool ((out + j) % size)

/-- The offset after `i`, as a program without division computes it. -/
def next (size i : Nat) : Nat := if size ≤ i + 1 then 0 else i + 1

theorem next_eq {size i : Nat} (hi : i < size) : next size i = (i + 1) % size := by
  unfold next
  split
  next hle =>
    obtain rfl : size = i + 1 := by omega
    exact (Nat.mod_self _).symm
  next hlt => exact (Nat.mod_eq_of_lt (by omega)).symm

/-- The elements, the count and the offsets of a ring agree. -/
structure Holds (pool : Nat → α) (size inOff out n : Nat) (l : List α) : Prop where
  le : n ≤ size
  out_lt : 0 < size → out < size
  in_eq : inOff = (out + n) % size
  contents : contents pool size out n = l

variable {pool size out n}

theorem contents_push {v : α} (hn : n < size) :
    contents (update pool ((out + n) % size) v) size out (n + 1) =
      contents pool size out n ++ [v] := by
  rw [contents, List.range_succ, List.map_append, contents]
  congr 1
  · refine List.map_congr_left fun j hj => ?_
    have hj : j < n := List.mem_range.mp hj
    -- two offsets less than `size` apart are different slots
    refine update_of_ne (fun heq => ?_) ..
    have hmod : (out + j) % size = (out + n) % size := heq
    have hdvd := (Nat.modEq_iff_dvd' (Nat.add_le_add_left hj.le out)).mp hmod
    have hle := Nat.le_of_dvd (by omega) hdvd
    omega
  · simp

theorem contents_pop :
    contents pool size out (n + 1) = pool (out % size) :: contents pool size ((out + 1) % size) n := by
  rw [contents, List.range_succ_eq_map, List.map_cons, Nat.add_zero, contents, List.map_map]
  congr 1
  refine List.map_congr_left fun j _ => ?_
  simp only [comp_apply, Nat.succ_eq_add_one, Nat.mod_add_mod]
  congr 2
  omega

/-- Only the slot of the first offset matters. -/
theorem contents_congr {out' : Nat} (h : out ≡ out' [MOD size]) :
    contents pool size out n = contents pool size out' n :=
  List.map_congr_left fun j _ => congrArg pool (h.add_right j)

variable {inOff : Nat} {l : List α}

/-! ## Blocks of elements -/

/-- Store the elements `l` from slot `i` on. -/
def store (pool : Nat → α) (i : Nat) : List α → Nat → α
  | [] => pool
  | v :: l => store (update pool i v) (i + 1) l

/-- The `n` elements from slot `i` on. -/
def load (pool : Nat → α) (i n : Nat) : List α := (List.range n).map fun j => pool (i + j)

@[simp] theorem length_contents : (contents pool size out n).length = n := by
  simp [contents]

theorem store_of_lt {i j : Nat} (hj : j < i) : store pool i l j = pool j := by
  induction l generalizing pool i with
  | nil => rfl
  | cons v l ih => rw [store, ih (by omega), update_of_ne (by omega)]

/-- The elements of a block, and the ones behind it. -/
theorem load_store (pool : Nat → α) (i k : Nat) (l : List α) :
    load (store pool i l) i (l.length + k) = l ++ load pool (i + l.length) k := by
  induction l generalizing pool i with
  | nil => simp [store]
  | cons v l ih =>
    have hhead : store (update pool i v) (i + 1) l i = v := by
      rw [store_of_lt (Nat.lt_succ_self i), update_self]
    have htail : load (update pool i v) (i + 1 + l.length) k =
        load pool (i + 1 + l.length) k :=
      List.map_congr_left fun j _ => update_of_ne (by omega) ..
    have hcons : ∀ p : Nat → α, ∀ n, load p i (n + 1) = p i :: load p (i + 1) n := by
      intro p n
      rw [load, List.range_succ_eq_map, List.map_cons, List.map_map, load]
      refine congrArg₂ _ rfl (List.map_congr_left fun j _ => ?_)
      exact congrArg p (by simp only [Nat.succ_eq_add_one]; omega)
    rw [store, List.length_cons, Nat.add_right_comm, hcons, hhead, ih, htail, List.cons_append,
      Nat.add_right_comm, Nat.add_assoc i]

/-- The elements up to the end of the pool are in one block. -/
theorem contents_eq_load (hout : out + n ≤ size) : contents pool size out n = load pool out n := by
  refine List.map_congr_left fun j hj => ?_
  have hj := List.mem_range.mp hj
  rw [Nat.mod_eq_of_lt (by omega)]

theorem contents_add (m : Nat) :
    contents pool size out (m + n) =
      contents pool size out m ++ contents pool size ((out + m) % size) n := by
  rw [contents, List.range_add, List.map_append, List.map_map, contents, contents]
  congr 1
  refine List.map_congr_left fun j _ => ?_
  simp only [comp_apply, Nat.mod_add_mod, Nat.add_assoc]

theorem Holds.push (h : Holds pool size inOff out n l) (hn : n < size) (v : α) :
    Holds (update pool inOff v) size (next size inOff) out (n + 1) (l ++ [v]) := by
  have hin : inOff < size := by
    rw [h.in_eq]
    exact Nat.mod_lt _ (by omega)
  refine ⟨hn, h.out_lt, ?_, ?_⟩
  · rw [next_eq hin, h.in_eq, Nat.mod_add_mod, Nat.add_assoc]
  · rw [h.in_eq, contents_push hn, h.contents]

theorem Holds.pop (h : Holds pool size inOff out (n + 1) l) :
    ∃ rest, l = pool out :: rest ∧ Holds pool size inOff (next size out) n rest := by
  have hsize : 0 < size := Nat.lt_of_lt_of_le (Nat.succ_pos n) h.le
  have hout := h.out_lt hsize
  refine ⟨Ring.contents pool size ((out + 1) % size) n, ?_, ?_, fun _ => ?_, ?_, ?_⟩
  · rw [← h.contents, contents_pop, Nat.mod_eq_of_lt hout]
  · exact Nat.le_of_succ_le h.le
  · rw [next_eq hout]
    exact Nat.mod_lt _ hsize
  · rw [h.in_eq, next_eq hout, Nat.mod_add_mod]
    congr 1
    omega
  · rw [next_eq hout]

theorem Holds.length (h : Holds pool size inOff out n l) : l.length = n := by
  rw [← h.contents]
  simp [Ring.contents]

theorem Holds.congr {pool' : Nat → α} (h : Holds pool size inOff out n l)
    (hpool : ∀ i < size, pool' i = pool i) : Holds pool' size inOff out n l := by
  refine ⟨h.le, h.out_lt, h.in_eq, ?_⟩
  rw [← h.contents]
  refine List.map_congr_left fun j hj => hpool _ (Nat.mod_lt _ ?_)
  have hj : j < n := List.mem_range.mp hj
  exact Nat.lt_of_lt_of_le (Nat.zero_lt_of_lt hj) h.le

/-! ## Runs of elements over the end of the pool -/

/-- Write the elements `l` from slot `i` on, and go on at the first slot behind the last one. -/
def fill (pool : Nat → α) (size i : Nat) : List α → Nat → α
  | [] => pool
  | v :: l => fill (update pool i v) size (next size i) l

/-- A run of elements stays in the ring. -/
theorem fill_of_le {i j : Nat} (hi : i < size) (hj : size ≤ j) : fill pool size i l j = pool j := by
  induction l generalizing pool i with
  | nil => rfl
  | cons v l ih =>
    have hnext : next size i < size := by
      rw [next_eq hi]
      exact Nat.mod_lt _ (by omega)
    rw [fill, ih hnext, update_of_ne (by omega)]

theorem Holds.fill (h : Holds pool size inOff out n l) (l' : List α) (hn : n + l'.length ≤ size) :
    Holds (fill pool size inOff l') size ((inOff + l'.length) % size) out (n + l'.length) (l ++ l') := by
  induction l' generalizing pool inOff n l with
  | nil =>
    rw [List.length_nil, Nat.add_zero, Nat.add_zero, List.append_nil, h.in_eq, Nat.mod_mod, ← h.in_eq]
    exact h
  | cons v l' ih =>
    rw [List.length_cons] at hn
    have hin : inOff < size := by
      rw [h.in_eq]
      exact Nat.mod_lt _ (by omega)
    have hrest := ih (h.push (by omega) v) (by omega)
    rw [next_eq hin, Nat.mod_add_mod] at hrest
    rw [Ring.fill, next_eq hin, List.length_cons, List.append_cons]
    have hin' : inOff + (l'.length + 1) = inOff + 1 + l'.length := by omega
    have hn' : n + (l'.length + 1) = n + 1 + l'.length := by omega
    rw [hin', hn']
    exact hrest

/-- A run that ends before the end of the pool is one block. -/
theorem store_eq_fill {i : Nat} (hi : i + l.length ≤ size) : store pool i l = fill pool size i l := by
  induction l generalizing pool i with
  | nil => rfl
  | cons v l ih =>
    rw [List.length_cons] at hi
    rw [store, fill]
    cases l with
    | nil => rfl
    | cons w l =>
      rw [List.length_cons] at hi
      have hnext : next size i = i + 1 := if_neg (by omega)
      rw [hnext, ih (by rw [List.length_cons]; omega)]

theorem fill_append {i : Nat} (hi : i < size) (l l' : List α) :
    fill pool size i (l ++ l') = fill (fill pool size i l) size ((i + l.length) % size) l' := by
  induction l generalizing pool i with
  | nil => rw [List.nil_append, List.length_nil, Nat.add_zero, Nat.mod_eq_of_lt hi, fill]
  | cons v l ih =>
    have hnext : next size i < size := by
      rw [next_eq hi]
      exact Nat.mod_lt _ (by omega)
    have hadd : i + 1 + l.length = i + (l.length + 1) := by omega
    rw [List.cons_append, fill, ih hnext, fill, next_eq hi, Nat.mod_add_mod, List.length_cons, hadd]

/-- The first elements are taken out. -/
theorem Holds.drop {m : Nat} (h : Holds pool size inOff out n l) (hm : m ≤ n) :
    Holds pool size inOff ((out + m) % size) (n - m) (l.drop m) := by
  obtain ⟨k, rfl⟩ := Nat.exists_eq_add_of_le hm
  refine ⟨Nat.le_trans (Nat.sub_le _ _) h.le, fun hsize => Nat.mod_lt _ hsize, ?_, ?_⟩
  · rw [h.in_eq, Nat.mod_add_mod, Nat.add_sub_cancel_left, Nat.add_assoc]
  · rw [← h.contents, contents_add, Nat.add_sub_cancel_left]
    exact (List.drop_left' (by simp)).symm

/-- The slot of an element. -/
theorem Holds.slot {i : Nat} {v : α} (h : Holds pool size inOff out n l) (hv : l[i]? = some v) :
    pool ((out + i) % size) = v := by
  have hi : i < n := by
    rw [← h.length]
    exact (List.getElem?_eq_some_iff.mp hv).1
  rw [← h.contents, Ring.contents, List.getElem?_map, List.getElem?_range hi] at hv
  exact Option.some.inj hv

end Ring

/-!
## Bounded queues

A queue of at most `cap` elements, oldest first. The bound is part of the type, so every
operation shows that it keeps it.
-/

structure Fifo (α : Type*) (cap : Nat) where
  items : List α
  le : items.length ≤ cap

namespace Fifo

variable {α : Type*} {cap : Nat}

def empty : Fifo α cap := ⟨[], Nat.zero_le cap⟩

def space (q : Fifo α cap) : Nat := cap - q.items.length

/-- Append as many elements of `l` as there is room for. -/
def put (q : Fifo α cap) (l : List α) : Fifo α cap where
  items := q.items ++ l.take q.space
  le := by
    have := q.le
    simp only [List.length_append, List.length_take, space]
    omega

/-- Remove the oldest `n` elements. -/
def drop (q : Fifo α cap) (n : Nat) : Fifo α cap where
  items := q.items.drop n
  le := by
    have := q.le
    simp only [List.length_drop]
    omega

/-- Append one element; a full queue loses its oldest one. -/
def force (q : Fifo α cap) (a : α) : Fifo α cap where
  items := (q.items ++ [a]).drop (q.items.length + 1 - cap)
  le := by
    have := q.le
    simp only [List.length_drop, List.length_append, List.length_cons, List.length_nil]
    omega

end Fifo
