-- SUMMARY: rt_malloc_align and rt_free_align, over every heap.
import ZigbeeGateway.Kernel.MemData

/-!
# Aligned blocks

`rt_malloc_align` asks `rt_malloc` for as many more bytes as the alignment has, and hands out the next
aligned address above the block's own. The word below that address keeps the block's own address, for
`rt_free_align`. That there is room for both does not depend on the headers of the heap.
-/

namespace RtThread

open Run Word ByteMem

namespace Heap

variable {h h' : Heap} {p q size k : Nat}

/-- The address that `rt_malloc_align` returns for the block at `ptr`. -/
def alignPtr (ptr align : Nat) : Nat :=
  if ptr &&& (align - 1) = 0 then
    add32 ptr align
  else
    add32 ptr (align - 1) &&& (size32 - 1 - (align - 1))

/-- `rt_malloc_align`. -/
def rtMallocAlign (h : Heap) (size align : Nat) : Option (Heap × Option Nat) := do
  let align := rtAlign align
  let alignSize := add32 (rtAlign size) align
  let (h, ptr) ← h.rtMalloc alignSize
  return match ptr with
  | none => (h, none)
  | some ptr =>
    ({ h with mem := store h.mem (alignPtr ptr align - 4) 4 ptr }, some (alignPtr ptr align))

/-- `rt_free_align`. -/
def rtFreeAlign (h : Heap) (ptr : Nat) : Option Heap :=
  let realPtr := load h.mem (ptr - 4) 4
  h.rtFree (if realPtr = 0 then none else some realPtr)

theorem takeBlock_heapEnd (h : Heap) (ptr size : Nat) : (h.takeBlock ptr size).heapEnd = h.heapEnd := by
  unfold takeBlock linkBack
  dsimp only
  split_ifs <;> rfl

/-- The last checks of `rt_malloc` hold on every heap: the block is aligned and ends in the heap. -/
theorem rtMalloc_room (hmalloc : h.rtMalloc size = some (h', some p)) :
    0 < p ∧ p % 4 = 0 ∧ p + rtAlign size ≤ h.heapEnd := by
  have hneed := (need_spec size).2.2
  unfold rtMalloc at hmalloc
  split at hmalloc
  · cases hmalloc
  dsimp only at hmalloc
  split at hmalloc
  · cases hmalloc
  rw [← need] at hmalloc
  obtain ⟨_ | ptr, -, hmalloc⟩ := Option.bind_eq_some_iff.mp hmalloc
  · cases hmalloc
  obtain ⟨h1, hlfree, hmalloc⟩ := Option.bind_eq_some_iff.mp hmalloc
  obtain ⟨hend, hmalloc⟩ := rtAssert_bind_eq_some.mp hmalloc
  obtain ⟨hmod, hmalloc⟩ := rtAssert_bind_eq_some.mp hmalloc
  obtain ⟨-, ⟨⟩⟩ := rtAssert_bind_eq_some.mp hmalloc
  have heq : h'.heapEnd = h.heapEnd := by
    unfold updateLfree at hlfree
    split at hlfree
    · obtain ⟨lfree, -, hlfree⟩ := Option.bind_eq_some_iff.mp hlfree
      obtain ⟨-, ⟨⟩⟩ := rtAssert_bind_eq_some.mp hlfree
      exact takeBlock_heapEnd ..
    · cases hlfree
      exact takeBlock_heapEnd ..
  rw [heq] at hend
  exact ⟨by rw [sizeofStructMem]; omega, hmod, by omega⟩

/-- The next aligned address above `p`. -/
theorem alignPtr_eq (hroom : p + 2 ^ k < size32) : alignPtr p (2 ^ k) = p + (2 ^ k - p % 2 ^ k) := by
  have hpos : 0 < 2 ^ k := Nat.two_pow_pos k
  have hk : k ≤ 32 := by
    by_contra hlt
    have hle : size32 ≤ 2 ^ k := Nat.pow_le_pow_right (n := 2) (by decide) (Nat.le_of_not_le hlt)
    omega
  have hmask : size32 - 1 - (2 ^ k - 1) = size32 - 2 ^ k := by omega
  unfold alignPtr
  rw [Nat.and_two_pow_sub_one_eq_mod, hmask, and_mask hk, add32_eq hroom, add32_eq (by omega)]
  split
  next hzero => rw [hzero, Nat.sub_zero]
  next hne =>
    have hsplit := Nat.div_add_mod p (2 ^ k)
    have hsum : p + (2 ^ k - 1) = p % 2 ^ k - 1 + (p / 2 ^ k + 1) * 2 ^ k := by
      rw [Nat.add_mul, Nat.mul_comm]
      omega
    rw [Nat.mod_eq_of_lt (by omega), hsum, Nat.add_mul_div_right _ _ hpos, Nat.div_eq_of_lt (by omega),
      Nat.zero_add, Nat.add_mul, Nat.mul_comm]
    omega

end Heap

namespace Mem

open Heap

variable {h h' : Heap} {q size k : Nat}

/-- What `rt_malloc_align` returns is aligned. The hidden word and the data behind it lie in the bytes that
`rt_malloc` was asked for, which in every intact heap are part of one block in use, and `rt_free_align`
frees that block whatever the data are. -/
theorem rtMallocAlign_sound (hend : h.heapEnd < size32) (hk : 2 ≤ k)
    (hsum : (size + 3) / 4 * 4 + 2 ^ k ≤ 2 ^ 32 - 1)
    (hcall : h.rtMallocAlign size (2 ^ k) = some (h', some q)) :
    ∃ h1 p, h.rtMalloc ((size + 3) / 4 * 4 + 2 ^ k) = some (h1, some p) ∧
      2 ^ k ∣ q ∧ p + 4 ≤ q ∧ q + size ≤ p + ((size + 3) / 4 * 4 + 2 ^ k) ∧
      (∀ h'' : Heap, (∀ a, a < q ∨ q + size ≤ a → h''.mem a = h'.mem a) →
        h''.rtFreeAlign q = h''.rtFree (some p)) ∧
      ∀ (mem : Nat → UInt8) (beginAddr endAddr : Nat) (h0 : Heap) (es : List Event) (s : Sys),
        rtSystemHeapInit mem beginAddr endAddr = some h0 → Along step CallocSafe (Sys.start h0) es →
        run step (Sys.start h0) es = some s → s.heap = h →
        h1.Used p ∧ (size + 3) / 4 * 4 + 2 ^ k ≤ h1.blockSize p := by
  obtain ⟨a, ha⟩ : ∃ a, 2 ^ k = 4 * a := ⟨2 ^ (k - 2), by rw [← Nat.pow_add' 2 _ 2]; congr; omega⟩
  have hsize : rtAlign size = (size + 3) / 4 * 4 := by
    rw [rtAlign_eq, add32_eq (by unfold size32; omega)]
  have halign : rtAlign (2 ^ k) = 2 ^ k := by
    rw [rtAlign_eq, add32_eq (by unfold size32; omega)]
    omega
  have hadd : add32 (rtAlign size) (rtAlign (2 ^ k)) = (size + 3) / 4 * 4 + 2 ^ k := by
    rw [hsize, halign, add32_eq (by unfold size32; omega)]
  unfold rtMallocAlign at hcall
  dsimp only at hcall
  rw [hadd, halign] at hcall
  obtain ⟨⟨h1, _ | p⟩, hmalloc, ⟨⟩⟩ := Option.bind_eq_some_iff.mp hcall
  obtain ⟨hpos, hmod, hroom⟩ := rtMalloc_room hmalloc
  have hround : (size + 3) / 4 * 4 + 2 ^ k ≤ rtAlign ((size + 3) / 4 * 4 + 2 ^ k) := le_rtAlign (by omega)
  have hp : p + 2 ^ k < size32 := by omega
  have hrest : p % 2 ^ k % 4 = 0 := by rw [Nat.mod_mod_of_dvd _ ⟨a, ha⟩, hmod]
  have hq := alignPtr_eq hp
  refine ⟨h1, p, hmalloc, ?_, by omega, by omega, ?_, ?_⟩
  · have hsplit := Nat.div_add_mod p (2 ^ k)
    refine ⟨p / 2 ^ k + 1, ?_⟩
    rw [hq, Nat.mul_add]
    omega
  · intro h'' hdata
    have hword : load h''.mem (alignPtr p (2 ^ k) - 4) 4 = p := by
      rw [load_congr fun i hi => hdata _ (.inl (by omega)), load_store_same]
      exact Nat.mod_eq_of_lt (Nat.lt_of_le_of_lt (Nat.le_add_right ..) hp)
    rw [rtFreeAlign, hword]
    exact congrArg h''.rtFree (if_neg hpos.ne')
  · rintro mem beginAddr endAddr h0 es s hinit hsafe hrun rfl
    by_cases hmin : 12 ≤ h0.memSizeAligned
    · obtain ⟨bs, hi⟩ := (inv_start hinit hmin).run hsafe hrun
      exact hi.layout.rtMalloc_size (by omega) hmalloc
    · have hsmall : h0.memSizeAligned < 12 := by omega
      obtain rfl := run_tiny (fresh_init hinit) hsmall hrun
      exact absurd hmalloc (rtMalloc_tiny_ne (fresh_init hinit) hsmall)

/-- 8 bytes at a multiple of 16. -/
theorem rtMallocAlign_sound_sixteen :
    ∃ h', freshHeap.rtMallocAlign 8 16 = some (h', some 4112) ∧
      ∀ h'' : Heap, (∀ a, a < 4112 ∨ 4120 ≤ a → h''.mem a = h'.mem a) →
        h''.rtFreeAlign 4112 = h''.rtFree (some 4108) := by
  have hshow : (freshHeap.rtMallocAlign 8 16).map Prod.snd = some (some 4112) := by decide +kernel
  have hblock : (freshHeap.rtMalloc 24).map Prod.snd = some (some 4108) := by decide +kernel
  obtain ⟨⟨h', _⟩, hcall, rfl⟩ := Option.map_eq_some_iff.mp hshow
  obtain ⟨h1, p, hmalloc, -, -, -, hfree, -⟩ :=
    rtMallocAlign_sound (k := 4) (by decide) (by decide) (by decide) hcall
  cases (congrArg (Option.map Prod.snd) hmalloc).symm.trans hblock
  exact ⟨h', hcall, hfree⟩

end Mem

end RtThread
