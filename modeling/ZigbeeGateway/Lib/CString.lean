-- SUMMARY: Zero-terminated strings in buffers of a fixed size.
import Mathlib.Algebra.Notation.Defs
import Mathlib.Tactic.Common

/-!
# Strings in buffers

A buffer is a list of elements, and an access outside of it has no result. The string in a buffer
ends before the first zero; a buffer without a zero holds no string. `pad size text` is the buffer of
`size` elements that holds `text` and only zeros behind it. The lemmas say how a program inserts and
deletes elements in such a buffer: it moves the elements behind the place, and writes one element.
-/

namespace CString

variable {α : Type*} [Zero α]

/-- Write one element. -/
def write (l : List α) (i : Nat) (a : α) : Option (List α) :=
  if i < l.length then some (l.set i a) else none

/-- Move `n` elements from `src` on to the place `dst`, as `memmove` does. -/
def move (l : List α) (dst src n : Nat) : Option (List α) :=
  if dst + n ≤ l.length ∧ src + n ≤ l.length then
    some (l.take dst ++ (l.drop src).take n ++ l.drop (dst + n))
  else
    none

/-- The string at the beginning of a buffer. -/
def string [DecidableEq α] (l : List α) : Option (List α) :=
  if 0 ∈ l then some (l.takeWhile (· ≠ 0)) else none

/-- The buffer that holds a text and zeros behind it. -/
def pad (size : Nat) (text : List α) : List α := text ++ List.replicate (size - text.length) 0

variable {size : Nat} {text b a : List α} {c : α}

theorem length_pad (h : text.length ≤ size) : (pad size text).length = size := by
  simp only [pad, List.length_append, List.length_replicate]
  omega

theorem take_pad : (pad size text).take text.length = text := List.take_left

theorem drop_pad {i : Nat} (h : i ≤ text.length) :
    (pad size text).drop i = pad (size - i) (text.drop i) := by
  rw [pad, pad, List.drop_append_of_le_length h, List.length_drop]
  congr 2
  omega

theorem zero_mem_pad (h : text.length ≤ size) : 0 ∈ pad size text ↔ text.length < size ∨ 0 ∈ text := by
  rw [pad, List.mem_append, List.mem_replicate, or_comm]
  exact or_congr_left ⟨fun hne => by omega, fun hlt => ⟨by omega, rfl⟩⟩

/-- Behind the text there are zeros only. -/
theorem getElem?_pad {i : Nat} (hi : text.length ≤ i) (hsize : i < size) :
    (pad size text)[i]? = some 0 := by
  rw [pad, List.getElem?_append_right hi, List.getElem?_replicate, if_pos (by omega)]

/-- The place behind the text. -/
theorem pad_eq_cons (h : text.length < size) :
    pad size text = text ++ 0 :: List.replicate (size - text.length - 1) 0 := by
  obtain ⟨n, hn⟩ : ∃ n, size - text.length = n + 1 := ⟨size - text.length - 1, by omega⟩
  rw [pad, hn, List.replicate_succ, Nat.add_sub_cancel]

theorem pad_append_singleton (c : α) :
    pad size (text ++ [c]) = text ++ c :: List.replicate (size - text.length - 1) 0 := by
  simp [pad, Nat.sub_sub]

omit [Zero α] in
theorem write_append (l : List α) (x : α) (r : List α) (c : α) :
    write (l ++ x :: r) l.length c = some (l ++ c :: r) := by
  rw [write, if_pos (by simp)]
  simp

/-- An element is appended to the text. -/
theorem write_pad (h : text.length < size) (c : α) :
    write (pad size text) text.length c = some (pad size (text ++ [c])) := by
  rw [pad_eq_cons h, write_append, pad_append_singleton]

omit [Zero α] in
/-- The elements from a place on move up by one. -/
theorem move_up (b : List α) (c : α) (a : List α) (z : α) (zs : List α) :
    move (b ++ c :: a ++ z :: zs) (b.length + 1) b.length (a.length + 1) =
      some (b ++ c :: c :: a ++ zs) := by
  have hsize : b.length + 1 + (a.length + 1) ≤ (b ++ c :: a ++ z :: zs).length := by
    simp only [List.length_append, List.length_cons]
    omega
  have htake : (b ++ c :: a ++ z :: zs).take (b.length + 1) = b ++ [c] := by
    rw [show b ++ c :: a ++ z :: zs = b ++ [c] ++ (a ++ z :: zs) by simp]
    exact List.take_left' (by simp)
  have hmid : ((b ++ c :: a ++ z :: zs).drop b.length).take (a.length + 1) = c :: a := by
    rw [List.append_assoc, List.drop_left]
    exact List.take_left' (by simp)
  have hdrop : (b ++ c :: a ++ z :: zs).drop (b.length + 1 + (a.length + 1)) = zs := by
    rw [show b ++ c :: a ++ z :: zs = b ++ c :: a ++ [z] ++ zs by simp]
    refine List.drop_left' ?_
    simp only [List.length_append, List.length_cons, List.length_nil]
    omega
  rw [move, if_pos ⟨hsize, by omega⟩, htake, hmid, hdrop]
  simp

omit [Zero α] in
/-- The elements behind a place move down by one. The last of them is there twice. -/
theorem move_down (b : List α) (c : α) (a : List α) (zs : List α) :
    ∃ x, move (b ++ c :: a ++ zs) b.length (b.length + 1) a.length = some (b ++ a ++ x :: zs) := by
  have hsize : b.length + 1 + a.length ≤ (b ++ c :: a ++ zs).length := by
    simp only [List.length_append, List.length_cons]
    omega
  have hmid : ((b ++ c :: a ++ zs).drop (b.length + 1)).take a.length = a := by
    rw [show b ++ c :: a ++ zs = b ++ [c] ++ (a ++ zs) by simp, List.drop_left' (by simp)]
    exact List.take_left
  obtain ⟨x, hx⟩ : ∃ x, (c :: a).drop a.length = [x] := by
    apply List.length_eq_one_iff.mp
    simp
  have hdrop : (b ++ c :: a ++ zs).drop (b.length + a.length) = x :: zs := by
    rw [List.append_assoc, ← List.drop_drop, List.drop_left, List.drop_append_of_le_length (by simp), hx]
    rfl
  refine ⟨x, ?_⟩
  rw [move, if_pos ⟨by omega, hsize⟩, hmid, hdrop, List.append_assoc b, List.take_left]

/-- An element is inserted into the text. -/
theorem insert_pad (h : (b ++ a).length < size) (ha : a ≠ []) (c : α) :
    ((move (pad size (b ++ a)) (b.length + 1) b.length a.length).bind fun l => write l b.length c) =
      some (pad size (b ++ c :: a)) := by
  cases a with
  | nil => exact absurd rfl ha
  | cons x a =>
    rw [pad_eq_cons h, List.length_cons, move_up, Option.bind_some, List.append_assoc,
      List.cons_append, write_append]
    simp only [pad, List.append_assoc, List.cons_append, List.length_append, List.length_cons]
    congr 6

/-- An element is deleted from the text. -/
theorem delete_pad (h : (b ++ c :: a).length ≤ size) :
    ((move (pad size (b ++ c :: a)) b.length (b.length + 1) a.length).bind fun l =>
      write l (b ++ a).length 0) = some (pad size (b ++ a)) := by
  obtain ⟨x, hmove⟩ := move_down b c a (List.replicate (size - (b ++ c :: a).length) 0)
  have hlt : (b ++ a).length < size := by
    simp only [List.length_append, List.length_cons] at h ⊢
    omega
  rw [pad, hmove, Option.bind_some, write_append, pad_eq_cons hlt]
  congr 4
  simp only [List.length_append, List.length_cons]
  omega

section String

variable [DecidableEq α]

theorem string_append_zero (htext : 0 ∉ text) (zs : List α) :
    string (text ++ 0 :: zs) = some text := by
  have hpos : ∀ x ∈ text, decide (x ≠ 0) = true := fun x hx =>
    decide_eq_true fun hzero => htext (hzero ▸ hx)
  rw [string, if_pos (by simp), List.takeWhile_append_of_pos hpos]
  simp

/-- A buffer with a string is the string, a zero, and the rest of the buffer. -/
theorem string_eq_some {l : List α} (h : string l = some text) :
    0 ∉ text ∧ ∃ rest, l = text ++ 0 :: rest := by
  obtain ⟨hzero, -⟩ := Option.ite_none_right_eq_some.mp h
  obtain ⟨b, rest, rfl, hb⟩ := List.eq_append_cons_of_mem hzero
  rw [string_append_zero hb] at h
  cases h
  exact ⟨hb, rest, rfl⟩

theorem string_pad (htext : 0 ∉ text) (h : text.length < size) :
    string (pad size text) = some text := by
  rw [pad_eq_cons h, string_append_zero htext]

end String

end CString
