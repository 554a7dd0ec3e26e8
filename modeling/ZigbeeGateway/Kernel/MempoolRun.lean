-- SUMMARY: The free list of a memory pool and its waiter count.
import ZigbeeGateway.Kernel.Mempool

/-!
# Runs of the memory pool calls

`PoolOk` relates the pool object and the memory to the list of free blocks and to the
blocks handed out: together they are all blocks of the pool, each once. Taking and giving
back a block keep it. Whether a call takes a block when there is none, and whether the
pool counts its waiters right, is then a question about single steps.
-/

namespace RtThread.Mempool

open Word Run Linked Function

/-- A stored address as a pointer. -/
def asPtr (a : Nat) : Option Nat := if a = 0 then none else some a

def links (mem : Nat → Nat) (a : Nat) : Option Nat := asPtr (mem a)

theorem links_update (mem : Nat → Nat) (a v : Nat) :
    links (update mem a v) = update (links mem) a (asPtr v) :=
  comp_update asPtr mem a v

theorem asPtr_of_pos {a : Nat} (ha : 0 < a) : asPtr a = some a := if_neg (by omega)

/-- The number of bytes from one block to the next one. -/
def stride (mp : Mempool) : Nat := add32 mp.blockSize 4

/-- The addresses of the blocks of a pool, as `rt_mp_alloc` returns them. -/
def blocks (mp : Mempool) : List Nat :=
  (List.range mp.blockTotalCount).map fun i => mp.startAddress + i * mp.stride + 4

/-- The blocks lie in the address space and do not overlap. -/
structure Fits (mp : Mempool) : Prop where
  start : 0 < mp.startAddress
  stride : 4 ≤ mp.stride
  fits : mp.startAddress + mp.blockTotalCount * mp.stride < size32

/-- The free list is `free`, and with the blocks `live` in use it has every block once. -/
structure PoolOk (mp : Mempool) (mem : Nat → Nat) (live free : List Nat) : Prop where
  chain : Chain (links mem) (asPtr mp.blockList) free
  count : mp.blockFreeCount = free.length
  range : ∀ a ∈ free, a < size32
  perm : (free.map (add32 · 4) ++ live).Perm (blocks mp)
  owner : ∀ block ∈ live, mem (sub32 block 4) = mp.address

section Fields

variable (mp : Mempool) (mem : Nat → Nat) (a n : Nat)

@[simp] theorem takeBlock_mem :
    (takeBlock mp mem).2.1 = update mem mp.blockList mp.address := rfl
@[simp] theorem takeBlock_address : (takeBlock mp mem).1.address = mp.address := rfl
@[simp] theorem takeBlock_blockList : (takeBlock mp mem).1.blockList = mem mp.blockList := rfl
@[simp] theorem takeBlock_blockFreeCount :
    (takeBlock mp mem).1.blockFreeCount = sub32 mp.blockFreeCount 1 := rfl
@[simp] theorem takeBlock_blocks : blocks (takeBlock mp mem).1 = blocks mp := rfl
@[simp] theorem putBlock_mem : (putBlock mp mem a).2 = update mem a mp.blockList := rfl
@[simp] theorem putBlock_address : (putBlock mp mem a).1.address = mp.address := rfl
@[simp] theorem putBlock_blockList : (putBlock mp mem a).1.blockList = a := rfl
@[simp] theorem putBlock_blockFreeCount :
    (putBlock mp mem a).1.blockFreeCount = add32 mp.blockFreeCount 1 := rfl
@[simp] theorem putBlock_blocks : blocks (putBlock mp mem a).1 = blocks mp := rfl

end Fields

variable {mp : Mempool} {mem : Nat → Nat} {live free : List Nat}

namespace Fits

theorem block_lt (h : Fits mp) {block : Nat} (hb : block ∈ blocks mp) :
    4 < block ∧ block < size32 := by
  obtain ⟨i, hi, rfl⟩ := List.mem_map.mp hb
  have hi := List.mem_range.mp hi
  have hle : (i + 1) * mp.stride ≤ mp.blockTotalCount * mp.stride := Nat.mul_le_mul_right _ hi
  have := h.fits
  have := h.start
  have := h.stride
  rw [Nat.add_mul] at hle
  omega

theorem nodup_blocks (h : Fits mp) : (blocks mp).Nodup := by
  refine List.Nodup.map ?_ List.nodup_range
  intro i j hij
  have hmul : i * mp.stride = j * mp.stride := by
    dsimp only at hij
    omega
  have := h.stride
  exact Nat.eq_of_mul_eq_mul_right (by omega) hmul

theorem total_lt (h : Fits mp) : mp.blockTotalCount < size32 := by
  have hle : mp.blockTotalCount * 1 ≤ mp.blockTotalCount * mp.stride :=
    Nat.mul_le_mul_left _ (by have := h.stride; omega)
  have := h.fits
  omega

end Fits

namespace PoolOk

variable (h : PoolOk mp mem live free)

include h

theorem nodup (hf : Fits mp) :
    (free.map (add32 · 4) ++ live).Nodup := h.perm.nodup_iff.mpr hf.nodup_blocks

theorem mem_blocks_of_live {block : Nat} (hb : block ∈ live) :
    block ∈ blocks mp := h.perm.mem_iff.mp (List.mem_append_right _ hb)

theorem length_le : free.length ≤ mp.blockTotalCount := by
  have hlen := h.perm.length_eq
  simp only [List.length_append, List.length_map, blocks, List.length_range] at hlen
  omega

/-- A free list with a counted block has a first block. -/
theorem blockList_ne (hne : mp.blockFreeCount ≠ 0) : mp.blockList ≠ 0 := by
  intro hnull
  have hchain := h.chain
  rw [hnull] at hchain
  have hnil : free = [] := hchain.eq_nil
  rw [h.count, hnil] at hne
  exact hne rfl

/-- Taking the first block of a free list that has one. -/
theorem take (hf : Fits mp) (hne : mp.blockFreeCount ≠ 0) :
    add32 mp.blockList 4 ≠ 0 ∧ ∃ rest,
      PoolOk (takeBlock mp mem).1 (takeBlock mp mem).2.1 (add32 mp.blockList 4 :: live) rest := by
  have hpos := h.blockList_ne hne
  have hchain := h.chain
  rw [asPtr_of_pos (by omega)] at hchain
  obtain ⟨rest, rfl, hrest⟩ := hchain.uncons
  have hnodup := h.nodup hf
  rw [List.map_cons, List.cons_append, List.nodup_cons] at hnodup
  -- the block is one of the pool, so its address does not wrap
  have hblock := hf.block_lt (h.perm.mem_iff.mp (by simp : add32 mp.blockList 4 ∈ _))
  have hcount := h.count
  have htotal := hf.total_lt
  have hlen := h.length_le
  simp only [List.length_cons] at hcount hlen
  have hout : mp.blockList ∉ rest := by
    intro hmem
    exact hnodup.1 (List.mem_append_left _ (List.mem_map_of_mem hmem))
  have hself : sub32 (add32 mp.blockList 4) 4 = mp.blockList := sub32_add32 (h.range _ (by simp))
  refine ⟨by omega, rest, ?_, ?_, fun a ha => h.range a (List.mem_cons_of_mem _ ha), ?_, ?_⟩
  · rw [takeBlock_mem, takeBlock_blockList, links_update]
    exact hrest.update hout
  · rw [takeBlock_blockFreeCount, sub32_eq (by omega) (by omega)]
    omega
  · rw [takeBlock_blocks]
    exact List.perm_middle.trans h.perm
  · intro block hb
    rw [takeBlock_mem, takeBlock_address]
    rcases List.mem_cons.mp hb with rfl | hb
    · rw [hself, update_self]
    · have hne : sub32 block 4 ≠ mp.blockList := by
        intro heq
        have hlt := (hf.block_lt (h.mem_blocks_of_live hb)).2
        have hsame : add32 mp.blockList 4 = block := by rw [← heq, add32_sub32 hlt]
        exact hnodup.1 (List.mem_append_right _ (hsame ▸ hb))
      rw [update_of_ne hne]
      exact h.owner block hb

/-- Giving back a block in use. -/
theorem give (hf : Fits mp) {block : Nat} (hb : block ∈ live) :
    PoolOk (putBlock mp mem (sub32 block 4)).1 (putBlock mp mem (sub32 block 4)).2
      (live.erase block) (sub32 block 4 :: free) := by
  obtain ⟨hpos, hlt⟩ := hf.block_lt (h.mem_blocks_of_live hb)
  have hself : add32 (sub32 block 4) 4 = block := add32_sub32 hlt
  have hptr : sub32 block 4 = block - 4 := sub32_eq (by omega) hlt
  -- only these two facts about the address of the pointer are used
  generalize sub32 block 4 = ptr at hself hptr ⊢
  have hnodup := h.nodup hf
  have hout : ptr ∉ free := by
    intro hmem
    have hfree : block ∈ free.map (add32 · 4) := by
      rw [← hself]
      exact List.mem_map_of_mem hmem
    exact List.disjoint_of_nodup_append hnodup hfree hb
  have hperm : ((ptr :: free).map (add32 · 4) ++ live.erase block).Perm (blocks mp) := by
    rw [List.map_cons, hself]
    refine List.Perm.trans ?_ h.perm
    exact List.perm_middle.symm.trans (.append_left _ (List.perm_cons_erase hb).symm)
  have hlen := hperm.length_eq
  have htotal := hf.total_lt
  simp only [List.length_append, List.length_map, List.length_cons, blocks,
    List.length_range] at hlen
  refine ⟨?_, ?_, ?_, by rwa [putBlock_blocks], ?_⟩
  · have hsome : asPtr ptr = some ptr := asPtr_of_pos (by omega)
    rw [putBlock_mem, putBlock_blockList, links_update, hsome]
    exact h.chain.push hout
  · rw [putBlock_blockFreeCount, h.count, add32_eq (by omega), List.length_cons]
  · intro a ha
    rcases List.mem_cons.mp ha with rfl | ha
    · omega
    · exact h.range a ha
  · intro other ho
    have hmem : other ∈ live := List.mem_of_mem_erase ho
    have hother := (hf.block_lt (h.mem_blocks_of_live hmem)).2
    have hne : sub32 other 4 ≠ ptr := by
      intro heq
      have hsame : other = block := by rw [← add32_sub32 hother, heq, hself]
      have hlive : live.Nodup := (List.nodup_append.mp hnodup).2.1
      exact (hlive.mem_erase_iff.mp ho).1 hsame
    rw [putBlock_mem, putBlock_address, update_of_ne hne]
    exact h.owner other hmem

end PoolOk

/-! ## rt_mp_init -/

variable {start : Nat} {mem0 : Nat → Nat} {k : Kernel} {t : Tid} {s : Sys}

section Blocks

variable {stride total n i : Nat}

theorem blockPtr_eq (hfits : start + total * stride < size32) (hi : i ≤ total) :
    blockPtr start stride i = start + i * stride := by
  have hle : i * stride ≤ total * stride := Nat.mul_le_mul_right _ hi
  have hmul : mul32 i stride = i * stride := Nat.mod_eq_of_lt (by omega)
  rw [blockPtr, hmul, add32_eq (by omega)]

/-- The distance of a block from the start, also when the pool goes over the end of the address space. -/
theorem sub32_blockPtr (hfits : total * stride < size32) (hi : i ≤ total) :
    sub32 (blockPtr start stride i) start = i * stride := by
  have hle : i * stride ≤ total * stride := Nat.mul_le_mul_right _ hi
  rw [blockPtr, add32_comm, mul32, Nat.mod_eq_of_lt (by omega), sub32_add32 (by omega)]

theorem blockPtr_ne {j : Nat} (hstride : 0 < stride) (hfits : total * stride < size32) (hij : i < j)
    (hj : j ≤ total) : blockPtr start stride i ≠ blockPtr start stride j := by
  intro heq
  have hdist : sub32 (blockPtr start stride j) start = j * stride := sub32_blockPtr hfits hj
  have hmul : i * stride = j * stride := by
    rw [← hdist, ← heq, sub32_blockPtr hfits (by omega)]
  exact absurd (Nat.eq_of_mul_eq_mul_right hstride hmul) (Nat.ne_of_lt hij)

theorem linkBlocks_of_ne {x : Nat} (hx : ∀ i < n, x ≠ blockPtr start stride i) :
    linkBlocks start stride mem n x = mem x := by
  induction n with
  | zero => rfl
  | succ n ih =>
    rw [linkBlocks, update_of_ne (hx n (by omega))]
    exact ih fun i hi => hx i (by omega)

/-- The pointer of every block that the loop went over leads to the next one. -/
theorem linkBlocks_apply (hstride : 0 < stride) (hfits : total * stride < size32) (hn : n ≤ total)
    (hi : i < n) :
    linkBlocks start stride mem n (blockPtr start stride i) = blockPtr start stride (i + 1) := by
  induction n with
  | zero => omega
  | succ n ih =>
    rw [linkBlocks]
    by_cases hin : i = n
    · rw [hin, update_self]
    · rw [update_of_ne (blockPtr_ne hstride hfits (by omega) (by omega))]
      exact ih (by omega) (by omega)

/-- The pointers after the loop and the store behind it. -/
theorem linkBlocks_last (hstride : 0 < stride) (hfits : (n + 1) * stride < size32)
    (hmem : mem = update (linkBlocks start stride mem0 (n + 1)) (blockPtr start stride n) 0) :
    mem (blockPtr start stride n) = 0 ∧
      ∀ i < n, mem (blockPtr start stride i) = blockPtr start stride (i + 1) := by
  subst hmem
  refine ⟨update_self .., fun i hi => ?_⟩
  rw [update_of_ne (blockPtr_ne hstride hfits hi (by omega))]
  exact linkBlocks_apply hstride hfits le_rfl (by omega)

end Blocks

/-- A pool with at least one block after the loop and the store behind it. -/
theorem Fits.poolOk (hf : Fits mp) (hpos : 0 < mp.blockTotalCount)
    (hlist : mp.blockList = mp.startAddress) (hcount : mp.blockFreeCount = mp.blockTotalCount)
    (hmem : mem = update
      (linkBlocks mp.startAddress mp.stride mem0 mp.blockTotalCount)
      (blockPtr mp.startAddress mp.stride (sub32 mp.blockTotalCount 1)) 0) :
    ∃ free, PoolOk mp mem [] free := by
  obtain ⟨hstart, hstride, hfits⟩ := hf
  have htotal := Fits.total_lt ⟨hstart, hstride, hfits⟩
  generalize hn : mp.blockTotalCount - 1 = n at *
  have hsucc : mp.blockTotalCount = n + 1 := by omega
  rw [sub32_eq (by omega) htotal, hn, hsucc] at hmem
  obtain ⟨hlast, hnext⟩ := linkBlocks_last (by omega) (by rw [← hsucc]; omega) hmem
  rw [blockPtr_eq hfits (by omega)] at hlast
  replace hnext : ∀ i < n, mem (mp.startAddress + i * mp.stride) =
      mp.startAddress + (i + 1) * mp.stride := by
    intro i hi
    rw [← blockPtr_eq hfits (by omega), hnext i hi, blockPtr_eq hfits (by omega)]
  have hlt : ∀ i < n + 1, mp.startAddress + i * mp.stride + 4 < size32 := by
    intro i hi
    have hblock : mp.startAddress + i * mp.stride + 4 ∈ blocks mp :=
      List.mem_map_of_mem (f := fun i => mp.startAddress + i * mp.stride + 4)
        (List.mem_range.mpr (by omega))
    exact (Fits.block_lt ⟨hstart, hstride, hfits⟩ hblock).2
  refine ⟨(List.range (n + 1)).map fun i => mp.startAddress + i * mp.stride, ?_, ?_, ?_, ?_,
    by simp⟩
  · have hchain := @Chain.of_seq _ (links mem) n (fun i => mp.startAddress + i * mp.stride) ?_ ?_
    · simpa only [hlist, asPtr_of_pos hstart, Nat.zero_mul, Nat.add_zero] using hchain
    · intro i hi
      rw [links, hnext i hi, asPtr_of_pos (by omega)]
    · rw [links, hlast]
      rfl
  · simp [hcount, hsucc]
  · intro a ha
    obtain ⟨i, hi, rfl⟩ := List.mem_map.mp ha
    have := hlt i (List.mem_range.mp hi)
    omega
  · rw [List.append_nil, List.map_map, blocks, hsucc]
    refine .of_eq (List.map_congr_left fun i hi => ?_)
    exact add32_eq (hlt i (List.mem_range.mp hi))

/-- A new pool counts no waiters, and one with at least one block starts with all of its blocks in the
free list. -/
theorem rtMpInit_spec {address size blockSize : Nat} (hstart : 0 < start)
    (hsize : start + size < size32)
    (hinit : rtMpInit address start size blockSize mem0 = some (mp, mem)) :
    Fits mp ∧ mp.suspendThreadCount = 0 ∧
      (0 < mp.blockTotalCount → ∃ free, PoolOk mp mem [] free) := by
  unfold rtMpInit at hinit
  obtain ⟨hzero, hinit⟩ := Option.ite_none_left_eq_some.mp hinit
  obtain ⟨rfl, rfl⟩ := Prod.mk.inj (Option.some.inj hinit)
  have hdown : rtAlignDown size ≤ size := by
    rw [rtAlignDown_eq]
    unfold size32 at *
    omega
  have hstride : 4 ≤ add32 (rtAlign blockSize) 4 := by
    have hmod := rtAlign_mod_four blockSize
    unfold add32 size32 at *
    omega
  have hdiv : rtAlignDown size / add32 (rtAlign blockSize) 4 * add32 (rtAlign blockSize) 4 ≤
      rtAlignDown size := Nat.div_mul_le_self ..
  have hfits := Nat.lt_of_le_of_lt (Nat.add_le_add_left (hdiv.trans hdown) start) hsize
  exact ⟨⟨hstart, hstride, hfits⟩, rfl, fun hpos => Fits.poolOk ⟨hstart, hstride, hfits⟩ hpos rfl rfl rfl⟩

/-- `rt_mp_init` writes pointers inside of the pool only, and its free list has all blocks of the pool,
which lie inside of it and do not overlap. Places are counted from the start of the pool. -/
def InitInside (address start size blockSize : Nat) : Prop :=
  ∀ mem0, ∃ mp mem free, rtMpInit address start size blockSize mem0 = some (mp, mem) ∧
    (∀ a, mem a ≠ mem0 a → sub32 a start + 4 ≤ size) ∧
    -- the pointers from the head on are those of the free list, with a null pointer at the end
    mp.blockList :: free.map mem = free ++ [0] ∧ free.length = mp.blockTotalCount ∧
    (free.Pairwise fun a b => sub32 a start + mp.stride ≤ sub32 b start) ∧
    ∀ a ∈ free, sub32 a start + mp.stride ≤ size

/-- The room in a pool with the blocks 0 to `n`. -/
theorem linkBlocks_inside {size stride n : Nat} (hstart : start < size32) (hsize : size < size32)
    (hstride : 4 ≤ stride) (hfit : (n + 1) * stride ≤ size)
    (hmem : mem = update (linkBlocks start stride mem0 (n + 1)) (blockPtr start stride n) 0)
    (hfree : free = (List.range (n + 1)).map (blockPtr start stride)) :
    (∀ a, mem a ≠ mem0 a → sub32 a start + 4 ≤ size) ∧ start :: free.map mem = free ++ [0] ∧
      (free.Pairwise fun a b => sub32 a start + stride ≤ sub32 b start) ∧
      ∀ a ∈ free, sub32 a start + stride ≤ size := by
  have hfits : (n + 1) * stride < size32 := Nat.lt_of_le_of_lt hfit hsize
  have hplace : ∀ {i j}, i < j → j ≤ n + 1 →
      sub32 (blockPtr start stride i) start + stride ≤ j * stride := by
    intro i j hij hj
    rw [sub32_blockPtr hfits (by omega), ← Nat.add_one_mul]
    exact Nat.mul_le_mul_right _ hij
  have hin : ∀ a ∈ free, sub32 a start + stride ≤ size := by
    intro a ha
    obtain ⟨i, hi, rfl⟩ := List.mem_map.mp (hfree ▸ ha)
    exact (hplace (List.mem_range.mp hi) le_rfl).trans hfit
  obtain ⟨hlast, hnext⟩ := linkBlocks_last (by omega) hfits hmem
  refine ⟨fun a ha => ?_, ?_, ?_, hin⟩
  · -- only the pointers of the blocks are written
    by_contra hout
    have hne : ∀ i < n + 1, a ≠ blockPtr start stride i := by
      rintro i hi rfl
      have hle := hin _ (hfree ▸ List.mem_map_of_mem (List.mem_range.mpr hi))
      omega
    rw [hmem, update_of_ne (hne n (by omega)), linkBlocks_of_ne hne] at ha
    exact ha rfl
  · have hmap : (List.range n).map (mem ∘ blockPtr start stride) =
        (List.range n).map (blockPtr start stride ∘ Nat.succ) :=
      List.map_congr_left fun i hi => hnext i (List.mem_range.mp hi)
    have hfirst : blockPtr start stride 0 = start := by
      rw [blockPtr, mul32, Nat.zero_mul, Nat.zero_mod, add32_eq (by omega), Nat.add_zero]
    have hlinks : free.map mem = (List.range n).map (blockPtr start stride ∘ Nat.succ) ++ [0] := by
      rw [hfree, List.map_map, List.range_succ, List.map_append, hmap]
      simp [hlast]
    rw [hlinks, hfree, List.range_succ_eq_map, List.map_cons, List.map_map, hfirst]
    rfl
  · rw [hfree, List.pairwise_map]
    refine List.pairwise_lt_range.imp_of_mem fun _ hj hij => ?_
    have hj := List.mem_range.mp hj
    rw [sub32_blockPtr hfits hj.le]
    exact hplace hij hj.le

/-- `rt_mp_init` stays inside of the pool exactly if there is room for a block. The exception is a pool
at the address 0 with blocks so large that the word one stride before it is inside of it again. -/
theorem rtMpInit_inside_iff {address size blockSize : Nat} (hstart : start < size32)
    (hsize : size < size32) (hwrap : rtAlign blockSize + 4 < size32) :
    InitInside address start size blockSize ↔ rtAlign blockSize + 4 ≤ rtAlignDown size ∨
      (start = 0 ∧ size32 + 4 ≤ rtAlign blockSize + 4 + size) := by
  have hdown : rtAlignDown size ≤ size := by
    rw [rtAlignDown_eq, Nat.mod_eq_of_lt hsize]
    omega
  have hadd := add32_eq hwrap
  have hstride : 4 ≤ rtAlign blockSize + 4 := by omega
  unfold InitInside rtMpInit stride
  generalize rtAlign blockSize + 4 = stride at *
  simp only [hadd, if_neg (by omega : stride ≠ 0)]
  by_cases hroom : stride ≤ rtAlignDown size
  · refine iff_of_true (fun mem0 => ?_) (.inl hroom)
    obtain ⟨n, hn⟩ : ∃ n, rtAlignDown size / stride = n + 1 :=
      ⟨_, (Nat.succ_pred_eq_of_pos (Nat.div_pos hroom (by omega))).symm⟩
    have hfit : (n + 1) * stride ≤ size := hn ▸ (Nat.div_mul_le_self ..).trans hdown
    have hlast : sub32 (n + 1) 1 = n := by
      have hle : (n + 1) * 1 ≤ (n + 1) * stride := Nat.mul_le_mul_left _ (by omega)
      rw [sub32_eq (by omega) (by omega), Nat.add_sub_cancel]
    obtain ⟨hwrites, hlinks, hapart, hin⟩ :=
      linkBlocks_inside hstart hsize hstride hfit (Eq.refl (update (linkBlocks start _ mem0 _) _ 0)) rfl
    simp only [hn, hlast]
    refine ⟨_, _, (List.range (n + 1)).map (blockPtr start stride), rfl, hwrites, hlinks, by simp, ?_, ?_⟩
    · simpa only [hadd] using hapart
    · simpa only [hadd] using hin
  · -- the store behind the loop is one stride before the start
    have htotal : rtAlignDown size / stride = 0 := Nat.div_eq_of_lt (by omega)
    have hptr : blockPtr start stride (sub32 0 1) = sub32 start stride := by
      rw [blockPtr, show sub32 0 1 = 4294967295 from rfl]
      unfold add32 mul32 sub32 size32 at *
      omega
    simp only [htotal, linkBlocks, hptr, hroom, false_or]
    constructor
    · intro h
      obtain ⟨mp, mem, free, hrun, hwrites, hlinks, hlen, -⟩ := h fun _ => 1
      obtain ⟨rfl, rfl⟩ := Prod.mk.inj (Option.some.inj hrun)
      obtain rfl := List.length_eq_zero_iff.mp hlen
      obtain ⟨rfl, -⟩ := List.cons.inj hlinks
      refine ⟨rfl, ?_⟩
      have hle := hwrites (sub32 0 stride) (by simp)
      unfold sub32 size32 at *
      omega
    · rintro ⟨rfl, hle⟩ mem0
      refine ⟨_, _, [], rfl, fun a ha => ?_, rfl, rfl, .nil, nofun⟩
      obtain rfl : a = sub32 0 stride := by
        by_contra hne
        exact ha (update_of_ne hne ..)
      unfold sub32 size32 at *
      omega

/-- A pool of two blocks. -/
theorem rtMpInit_inside_iff_two : InitInside 1000 100 24 8 :=
  (rtMpInit_inside_iff (by decide) (by decide) (by decide)).mpr (.inl (by decide))

/-- In a pool of 8 bytes for blocks of 8 bytes, the last store is 12 bytes before the pool. -/
theorem rtMpInit_writes_outside : ¬ InitInside 1000 100 8 8 := by
  intro h
  obtain ⟨mp, mem, free, hrun, hwrites, -⟩ := h fun _ => 1
  obtain ⟨-, hmem⟩ := Prod.mk.inj (Option.some.inj hrun)
  exact absurd (hwrites 88 (by rw [← hmem]; decide)) (by decide)

/-! ## The calls -/

theorem suspendThread_isWait (mp : Mempool) : mp.suspendThread.IsWait := trivial

/-! ## The free list -/

/-- A resumed waiter goes on when there is a free block, and a free that counts a waiter
finds one in the list. -/
def BlockThere (s : Sys) : Event → Prop
  | .allocReturn t => (s.kernel.thread t).error = .eok → s.mp.blockFreeCount ≠ 0
  | .free _ => 0 < s.mp.suspendThreadCount → s.waiters ≠ []
  | .alloc _ _ | .expire _ => True

/-- The events that take the block at the head of the free list. -/
def TakesBlock (s : Sys) : Event → Prop
  | .alloc _ _ => s.mp.blockFreeCount ≠ 0
  | .allocReturn t => (s.kernel.thread t).error = .eok
  | .free _ | .expire _ => False

instance (s : Sys) (e : Event) : Decidable (BlockThere s e) := by
  unfold BlockThere
  split <;> infer_instance

theorem BlockThere.count_ne {e : Event} (h : BlockThere s e) (htakes : TakesBlock s e) :
    s.mp.blockFreeCount ≠ 0 := by
  cases e with
  | alloc t time => exact htakes
  | allocReturn t => exact h htakes
  | free block | expire t => exact htakes.elim

/-- What a step does: take the first block, nothing to the pool, suspend the caller, give back a block
and resume the first waiter if one is counted, or end the wait of a thread. -/
theorem step_cases {s' : Sys} {e : Event} (hs' : step s e = some s') :
    (TakesBlock s e ∧ ∃ inAlloc, s' = { s with
      mp := (takeBlock s.mp s.mem).1, mem := (takeBlock s.mp s.mem).2.1, inAlloc := inAlloc,
      live := s.handOut (add32 s.mp.blockList 4) }) ∨
    (∃ inAlloc, s' = { s with inAlloc := inAlloc }) ∨
    (∃ t time k' inAlloc, (s.kernel.thread t).stat = .ready ∧
      ((s.kernel.rtThreadSuspend t).1.rtListInsertAfter s.mp.suspendThread t).startThreadTimer t time =
        some k' ∧
      s' = { s with
        kernel := k', mp := { s.mp with suspendThreadCount := s.mp.suspendThreadCount + 1 },
        inAlloc := inAlloc }) ∨
    (∃ block k' n, block ∈ s.live ∧
      (k' = s.kernel ∧ n = s.mp.suspendThreadCount ∨ ∃ u rest, s.waiters = u :: rest ∧
        k' = ((s.kernel.setError u .eok).rtThreadResume u).1 ∧
        n = s.mp.suspendThreadCount - 1) ∧
      s' = { s with
        kernel := k', mem := (putBlock s.mp s.mem (sub32 block 4)).2,
        mp := { (putBlock s.mp s.mem (sub32 block 4)).1 with suspendThreadCount := n },
        live := s.live.erase block }) ∨
    ∃ t k', e = .expire t ∧ s.kernel.expire t = some k' ∧ s' = { s with kernel := k' } := by
  cases e with
  | alloc t time =>
    obtain ⟨hruns, hs'⟩ := Option.ite_none_right_eq_some.mp hs'
    obtain ⟨r, hr, rfl⟩ := Option.map_eq_some_iff.mp hs'
    unfold rtMpAlloc at hr
    split at hr
    next hne =>
      cases hr
      exact .inl ⟨hne, s.inAlloc, rfl⟩
    · split at hr
      · cases hr
        exact .inr (.inl ⟨s.inAlloc, rfl⟩)
      · obtain ⟨k', hk', ⟨⟩⟩ := Option.bind_eq_some_iff.mp hr
        exact .inr (.inr (.inl ⟨t, time, k', _, hruns.1, hk', rfl⟩))
  | allocReturn t =>
    obtain ⟨-, ⟨⟩⟩ := Option.ite_none_right_eq_some.mp hs'
    unfold rtMpAllocReturn
    split
    · exact .inr (.inl ⟨_, rfl⟩)
    next herr => exact .inl ⟨not_not.mp herr, _, rfl⟩
  | free block =>
    obtain ⟨hlive, hs'⟩ := Option.ite_none_right_eq_some.mp hs'
    obtain ⟨r, hr, rfl⟩ := Option.map_eq_some_iff.mp hs'
    unfold rtMpFree freeBlock putBlock at hr
    refine .inr (.inr (.inr (.inl ⟨block, ?_⟩)))
    unfold putBlock
    -- as variables, so that no comparison unfolds the arithmetic
    obtain ⟨count, hcount⟩ : ∃ n, add32 s.mp.blockFreeCount 1 = n := ⟨_, rfl⟩
    obtain ⟨blockPtr, hptr⟩ : ∃ a, sub32 block 4 = a := ⟨_, rfl⟩
    rw [hcount, hptr] at hr ⊢
    obtain ⟨-, hr⟩ := Option.ite_none_left_eq_some.mp hr
    dsimp only at hr
    split at hr
    · split at hr
      · cases hr
      next u rest hlist =>
        cases hr
        exact ⟨_, s.mp.suspendThreadCount - 1, hlive, .inr ⟨u, rest, hlist, rfl, rfl⟩, rfl⟩
    · cases hr
      exact ⟨s.kernel, s.mp.suspendThreadCount, hlive, .inl ⟨rfl, rfl⟩, rfl⟩
  | expire t =>
    obtain ⟨k', hk', rfl⟩ := Option.map_eq_some_iff.mp hs'
    exact .inr (.inr (.inr (.inr ⟨t, k', rfl, hk', rfl⟩)))

structure Inv (s : Sys) : Prop where
  fits : Fits s.mp
  pool : ∃ free, PoolOk s.mp s.mem s.live free

/-- A change of the waiter count alone. -/
theorem PoolOk.recount (h : PoolOk mp mem live free) (n : Nat) :
    PoolOk { mp with suspendThreadCount := n } mem live free :=
  ⟨h.chain, h.count, h.range, h.perm, h.owner⟩

theorem Fits.recount (h : Fits mp) (n : Nat) : Fits { mp with suspendThreadCount := n } :=
  ⟨h.start, h.stride, h.fits⟩

theorem Fits.takeBlock (h : Fits mp) (mem : Nat → Nat) : Fits (takeBlock mp mem).1 :=
  ⟨h.start, h.stride, h.fits⟩

theorem Fits.putBlock (h : Fits mp) (mem : Nat → Nat) (a : Nat) : Fits (putBlock mp mem a).1 :=
  ⟨h.start, h.stride, h.fits⟩

theorem Inv.takes (h : Inv s) (hne : s.mp.blockFreeCount ≠ 0) :
    Fits (takeBlock s.mp s.mem).1 ∧ ∃ free, PoolOk (takeBlock s.mp s.mem).1
      (takeBlock s.mp s.mem).2.1 (s.handOut (add32 s.mp.blockList 4)) free := by
  obtain ⟨free, hpool⟩ := h.pool
  obtain ⟨hnull, rest, hrest⟩ := hpool.take h.fits hne
  refine ⟨h.fits.takeBlock s.mem, rest, ?_⟩
  rwa [Sys.handOut, if_neg hnull]

theorem step_inv {s' : Sys} {e : Event} (h : Inv s) (he : BlockThere s e)
    (hs' : step s e = some s') : Inv s' := by
  rcases step_cases hs' with ⟨htakes, _, rfl⟩ | ⟨_, rfl⟩ | ⟨t, time, k', _, -, -, rfl⟩ |
    ⟨block, k', n, hlive, -, rfl⟩ | ⟨t, k', -, -, rfl⟩
  · exact ⟨(h.takes (he.count_ne htakes)).1, (h.takes (he.count_ne htakes)).2⟩
  · exact ⟨h.fits, h.pool⟩
  · exact ⟨h.fits.recount _, h.pool.imp fun _ hp => hp.recount _⟩
  · obtain ⟨free, hpool⟩ := h.pool
    exact ⟨(h.fits.putBlock s.mem _).recount _, _, (hpool.give h.fits hlive).recount _⟩
  · exact ⟨h.fits, h.pool⟩

/-- In every run in which resumed waiters find a free block, the counter is the length of the
free list, no two of the free blocks and the blocks in use are the same, and the next
event does not take a block from an empty list. -/
theorem blocks_distinct {s0 s : Sys} {es : List Event} (hinit : Initial s0)
    (hpos : 0 < s0.mp.blockTotalCount) (hrun : run step s0 es = some s)
    (hok : Along step BlockThere s0 es) :
    (∃ free, Chain (links s.mem) (asPtr s.mp.blockList) free ∧
      s.mp.blockFreeCount = free.length ∧ (free.map (add32 · 4) ++ s.live).Nodup) ∧
    ∀ e, BlockThere s e → TakesBlock s e → s.mp.blockList ≠ 0 := by
  have hinv0 : Inv s0 := by
    obtain ⟨address, start, size, blockSize, mem, hstart, hsize, hmp⟩ := hinit.pool
    obtain ⟨hfits, -, hpool⟩ := rtMpInit_spec hstart hsize hmp
    exact ⟨hfits, hinit.live ▸ hpool hpos⟩
  have hinv : Inv s := run_invariant_along (fun _ _ _ => step_inv) hinv0 hok hrun
  obtain ⟨free, hpool⟩ := hinv.pool
  refine ⟨⟨free, hpool.chain, hpool.count, hpool.nodup hinv.fits⟩, fun e he htakes => ?_⟩
  exact hpool.blockList_ne (he.count_ne htakes)

/-! ## The waiter count -/

/-- No thread timer expires while its thread is linked on the pool. -/
def NoExpiry (s : Sys) : Event → Prop
  | .expire t => t ∉ s.waiters
  | .alloc _ _ | .allocReturn _ | .free _ => True

structure Counted (s : Sys) : Prop where
  wf : s.kernel.WF
  count : s.mp.suspendThreadCount = s.waiters.length

/-- A call that neither links nor unlinks a waiter. -/
theorem step_counted {s' : Sys} {e : Event} (h : Counted s) (he : NoExpiry s e)
    (hs' : step s e = some s') : Counted s' := by
  have hw := suspendThread_isWait s.mp
  rcases step_cases hs' with ⟨-, _, rfl⟩ | ⟨_, rfl⟩ | ⟨t, time, k', _, hready, hk', rfl⟩ |
    ⟨block, k', n, -, hwake, rfl⟩ | ⟨t, k', rfl, hk', rfl⟩
  · exact ⟨h.wf, h.count⟩
  · exact ⟨h.wf, h.count⟩
  · have hpark := (h.wf.parks_first hready hw).startThreadTimer hk'
    have hmore : s.mp.suspendThreadCount + 1 = (k'.tlist s.mp.suspendThread).length := by
      rw [hpark.list, List.length_cons, h.count, Sys.waiters]
    exact ⟨hpark.wf, hmore⟩
  · have haddress := putBlock_address s.mp s.mem (sub32 block 4)
    obtain ⟨put, hput⟩ : ∃ put, putBlock s.mp s.mem (sub32 block 4) = put := ⟨_, rfl⟩
    rw [hput] at haddress ⊢
    rcases hwake with ⟨rfl, rfl⟩ | ⟨u, rest, hlist, rfl, rfl⟩
    · exact ⟨h.wf, h.count.trans (by rw [Sys.waiters, Sys.waiters, suspendThread, suspendThread, haddress])⟩
    · have hstat := h.wf.stat_of_mem_wait hw (show u ∈ s.waiters from hlist ▸ List.mem_cons_self)
      have hwk := (h.wf.setError u .eok).wakes_resume (t := u) (by simpa using hstat)
      have hrest := hwk.wait _ hw
      rw [Kernel.setThread_tlist, ← Sys.waiters, hlist, List.erase_cons_head, suspendThread, ← haddress]
        at hrest
      have hcount := h.count
      rw [hlist, List.length_cons] at hcount
      have hless : s.mp.suspendThreadCount - 1 = rest.length := by omega
      exact ⟨hwk.wf, hless.trans (congrArg List.length hrest).symm⟩
  · have hwk := h.wf.wakes_expire hk'
    have hout : t ∉ s.waiters := he
    have hsame := hwk.wait _ hw
    rw [← Sys.waiters, List.erase_of_not_mem hout] at hsame
    exact ⟨hwk.wf, h.count.trans (congrArg List.length hsame).symm⟩

/-- In every run in which no waiter of the pool times out, the pool counts its waiters, so a
free that resumes a thread finds one in the list. -/
theorem waiters_counted {s0 s : Sys} {es : List Event} (hinit : Initial s0)
    (hrun : run step s0 es = some s) (hok : Along step NoExpiry s0 es) :
    s.mp.suspendThreadCount = s.waiters.length ∧
      (0 < s.mp.suspendThreadCount → s.waiters ≠ []) := by
  have hcounted0 : Counted s0 := by
    obtain ⟨address, start, size, blockSize, mem, hstart, hsize, hmp⟩ := hinit.pool
    refine ⟨hinit.wf, ?_⟩
    rw [hinit.waiters, (rtMpInit_spec hstart hsize hmp).2.1]
    rfl
  have hcounted : Counted s := run_invariant_along (fun _ _ _ => step_counted) hcounted0 hok hrun
  refine ⟨hcounted.count, fun hpos hnil => ?_⟩
  rw [hcounted.count, hnil] at hpos
  exact absurd hpos (by simp)

/-! ## A pool with one block -/

theorem onePool_runs : (rtMpInit 1000 100 16 8 fun _ => 0).isSome = true := by decide

/-- A pool on 16 bytes at the address 100, for blocks of 8 bytes. -/
def onePool : Mempool × (Nat → Nat) := (rtMpInit 1000 100 16 8 fun _ => 0).get onePool_runs

/-- Threads 0 and 1 are ready, and the pool is initialised. -/
def oneBlock : Sys where
  kernel := Kernel.bootThreads (fun _ => 10) [0, 1]
  mp := onePool.1
  mem := onePool.2
  inAlloc := fun _ => false
  live := []

theorem oneBlock_initial : Initial oneBlock where
  wf := Kernel.bootThreads_wf _ _
  pool := ⟨1000, 100, 16, 8, fun _ => 0, by decide, by decide,
    (Option.some_get onePool_runs).symm⟩
  waiters := by decide
  live := rfl

theorem oneBlock_total : 0 < oneBlock.mp.blockTotalCount := by decide

/-- Thread 0 has the only block, and thread 1 waits for it. -/
def blocked : Sys := endState step oneBlock [.alloc 0 0, .alloc 1 (-1)]

/-- Thread 0 has freed the block. Thread 1 is resumed and has not run yet. -/
def resumed : Sys := endState step oneBlock [.alloc 0 0, .alloc 1 (-1), .free 104]

theorem waiters_counted_blocked :
    blocked.waiters = [1] ∧ blocked.mp.suspendThreadCount = blocked.waiters.length := by
  have hrun : run step oneBlock [.alloc 0 0, .alloc 1 (-1)] = some blocked := run_endState (by decide)
  have hok : Along step NoExpiry oneBlock [.alloc 0 0, .alloc 1 (-1)] :=
    along_of_forall (by simp [NoExpiry])
  exact ⟨by decide +kernel, (waiters_counted oneBlock_initial hrun hok).1⟩

/-- Thread 1 finds the block that it was resumed for. -/
theorem blocks_distinct_resumed :
    resumed.mp.blockFreeCount = 1 ∧ TakesBlock resumed (.allocReturn 1) ∧
      resumed.mp.blockList ≠ 0 := by
  have hrun : run step oneBlock [.alloc 0 0, .alloc 1 (-1), .free 104] = some resumed :=
    run_endState (by decide +kernel)
  have hok : Along step BlockThere oneBlock [.alloc 0 0, .alloc 1 (-1), .free 104] := by
    decide +kernel
  have hcount : resumed.mp.blockFreeCount = 1 := by decide +kernel
  have herror : (resumed.kernel.thread 1).error = .eok := by decide +kernel
  refine ⟨hcount, herror, ?_⟩
  exact (blocks_distinct oneBlock_initial oneBlock_total hrun hok).2 (.allocReturn 1)
    (fun _ => by rw [hcount]; decide) herror

/-- Thread 0 has taken the block again, before thread 1 runs. -/
def overtaken : Sys := endState step oneBlock [.alloc 0 0, .alloc 1 (-1), .free 104, .alloc 0 0]

/-- Thread 1 has taken a block from the empty list. -/
def wrapped : Sys := endState step overtaken [.allocReturn 1]

/-- Thread 1 follows the null pointer at the end of the free list, and the counter of free
blocks wraps around. -/
theorem emptyList_taken :
    Initial oneBlock ∧ 0 < oneBlock.mp.blockTotalCount ∧
      run step oneBlock [.alloc 0 0, .alloc 1 (-1), .free 104, .alloc 0 0] = some overtaken ∧
      TakesBlock overtaken (.allocReturn 1) ∧ overtaken.mp.blockList = 0 ∧
      step overtaken (.allocReturn 1) = some wrapped ∧
      Chain (links wrapped.mem) (asPtr wrapped.mp.blockList) [] ∧
      wrapped.mp.blockFreeCount = 4294967295 := by
  have hrun : run step oneBlock [.alloc 0 0, .alloc 1 (-1), .free 104, .alloc 0 0] = some overtaken :=
    run_endState (by decide +kernel)
  have hwrapped : step overtaken (.allocReturn 1) = some wrapped := step_endState (by decide +kernel)
  have hnull : asPtr wrapped.mp.blockList = none := by decide +kernel
  have herror : (overtaken.kernel.thread 1).error = .eok := by decide +kernel
  exact ⟨oneBlock_initial, oneBlock_total, hrun, herror, by decide +kernel, hwrapped, hnull,
    by decide +kernel⟩

/-- Thread 1 has left the wait list by its timeout and is still counted. -/
theorem waiter_counted_timedOut :
    Initial oneBlock ∧ ∃ s, run step oneBlock [.alloc 0 0, .alloc 1 10, .expire 1] = some s ∧
      s.waiters = [] ∧ s.mp.suspendThreadCount = 1 :=
  ⟨oneBlock_initial, run_exists (by decide +kernel) fun _ _ => id⟩

end RtThread.Mempool
