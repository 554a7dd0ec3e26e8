-- SUMMARY: What the calls of mem.c do to the layout of the heap.
import ZigbeeGateway.Kernel.MemLayout

/-!
# The functions of the heap

One lemma for each function: from a heap with a layout it returns, all its assertions hold, and
the new heap has a layout in which the blocks in use are those before, except for the one that
the function is about.
-/

namespace RtThread.Heap

open Word ByteMem Tiling

variable {h h' h1 : Heap} {bs bs' l1 l2 : List Block} {b : Block} {u : Bool} {n m s x y size : Nat}

theorem and_three_eq_zero (p : Nat) : p &&& 3 = 0 ↔ p % 4 = 0 := by
  rw [show (3 : Nat) = 2 ^ 2 - 1 from rfl, Nat.and_two_pow_sub_one_eq_mod]

theorem Tiled.of_mem (ht : Tiled h bs) (hmem : h'.mem = h.mem) (hreg : SameRegion h h') :
    Tiled h' bs := by
  have hget : ∀ fld p, h'.get fld p = h.get fld p := fun fld p => by rw [get, get, hmem]
  obtain ⟨hregion, htiles, hspace, haligned, hmarked, hroom, hend⟩ := ht
  refine ⟨hregion.of_same hreg, ?_, ?_, haligned, ?_, hroom, ?_⟩
  · have hfields : h'.fields = h.fields := by simp only [fields, hreg.heapPtr, hget]
    rwa [hfields]
  · rwa [hreg.memSizeAligned]
  · simpa only [hreg.heapPtr, hget] using hmarked
  · rwa [hreg.heapEnd, hget]

theorem NoHoles.of_append (hb : NoHoles (l1 ++ b :: l2)) : NoHoles l1 ∧ NoHoles l2 := by
  obtain ⟨hl1, hl2, -⟩ := List.isChain_append.mp hb
  exact ⟨hl1, (List.isChain_cons.mp hl2).2⟩

/-- A block in use separates what is before it from what is after it. -/
theorem NoHoles.append_used (hl1 : NoHoles l1) (hl2 : NoHoles l2) :
    NoHoles (l1 ++ ⟨true, n⟩ :: l2) := by
  refine List.isChain_append.mpr ⟨hl1, List.isChain_cons.mpr ⟨fun _ _ => .inl rfl, hl2⟩, ?_⟩
  rintro a - b ⟨⟩
  exact .inr rfl

/-! ## rt_free -/

/-- The data of a used block begins before the end of the heap. -/
theorem Tiled.data_lt (ht : Tiled h bs) (hx : At 12 0 bs x b) : x + 12 < h.memSizeAligned + 12 := by
  obtain ⟨l1, l2, rfl, rfl⟩ := hx.split
  obtain ⟨used, n⟩ := b
  obtain ⟨hle, hlast⟩ := ht.block_le
  by_cases hl2 : l2 = []
  · subst hl2
    have hroom : 12 ≤ n := ht.room ⟨used, n⟩ (by simp)
    omega
  · have hne := hlast.not.mp hl2
    omega

/-- A block is marked free, and `lfree` is not above it. -/
theorem Layout.markFree (hl : Layout h (l1 ++ ⟨true, n⟩ :: l2)) :
    ∃ h1, h.markFree (h.heapPtr + after 12 0 l1) = h1 ∧ Tiled h1 (l1 ++ ⟨false, n⟩ :: l2) ∧
      FreePtr h1 (l1 ++ ⟨false, n⟩ :: l2) ∧ SameRegion h h1 ∧
      Touches h h1 (l1 ++ ⟨false, n⟩ :: l2) ∧
      (h1.lfree ≤ h.lfree ∧ h1.lfree ≤ h.heapPtr + after 12 0 l1) ∧
      h1.usedMem = sub32 h.usedMem (n + 12) ∧ h1.maxMem = h.maxMem := by
  have hle := hl.tiled.block_le.1
  have hfits := hl.tiled.region.fits
  have hspace : sub32 (after 12 0 l1 + 12 + n) (after 12 0 l1) = n + 12 := by
    rw [sub32_eq (by omega) (by omega)]
    omega
  obtain ⟨h2, hh2⟩ : ∃ h2, h2 = (h.set .used (h.heapPtr + after 12 0 l1) 0).set .magic
    (h.heapPtr + after 12 0 l1) 0 := ⟨_, rfl⟩
  have ht2 : Tiled h2 (l1 ++ ⟨false, n⟩ :: l2) := by
    rw [hh2]
    refine hl.tiled.mark ?_ ?_ ?_ ?_ ?_ nofun
    · refine Edits.set (Edits.set (Edits.of_mem rfl ⟨rfl, rfl, rfl⟩) ?_ ?_) ?_ ?_ <;> omega
    · rw [get_set_field _ (by simp), get_set_field _ (by simp)]
    · rw [get_set_field _ (by simp), get_set_field _ (by simp)]
    · rw [get_set_apart _ (by omega), get_set_apart _ (by omega)]
    · rw [get_set_field _ (by simp), get_set_same]
      simp
  have hrel : Relinks h h2 (l1 ++ ⟨false, n⟩ :: l2) := by
    rw [hh2]
    exact ((Relinks.refl _).set header_after .used 0).set header_after .magic 0
  have hnext : h2.get .next (h.heapPtr + after 12 0 l1) = after 12 0 l1 + 12 + n := by
    rw [← hrel.region.heapPtr]
    exact ht2.header.1
  have hlfree2 : h2.lfree = h.lfree := by rw [hh2]; rfl
  obtain ⟨lfree, hlfree⟩ : ∃ lfree, lfree = if h.heapPtr + after 12 0 l1 < h.lfree then
    h.heapPtr + after 12 0 l1 else h.lfree := ⟨_, rfl⟩
  refine ⟨{ h2 with lfree := lfree, usedMem := sub32 h.usedMem (n + 12) }, ?_,
    ht2.of_mem rfl ⟨rfl, rfl, rfl⟩, ?_, hrel.region.trans ⟨rfl, rfl, rfl⟩, hrel.touches, ?_, rfl,
    hrel.stats.maxMem⟩
  · rw [Heap.markFree, ← hh2, ite_lfree, hlfree2, ← hlfree]
    dsimp only
    rw [get_lfree, hnext, hrel.region.heapPtr, Nat.add_sub_cancel_left, hspace, hrel.stats.usedMem]
  · show lfree = h2.heapEnd ∨ ∃ y m, _ ∧ lfree = h2.heapPtr + y
    rw [hrel.region.heapPtr, hrel.region.heapEnd, hlfree]
    split
    · exact .inr ⟨after 12 0 l1, n, at_after, rfl⟩
    next hlt =>
      have hend := hl.tiled.region.heapEnd
      rcases hl.lfree with hlf | ⟨y, m, hy, hlf⟩
      · omega
      · refine .inr ⟨y, m, ?_, hlf⟩
        simp only [at_append, at_cons, Block.mk.injEq] at hy ⊢
        grind
  · show lfree ≤ h.lfree ∧ lfree ≤ h.heapPtr + after 12 0 l1
    rw [hlfree]
    split <;> omega

/-- The block at `x` with `n` bytes is freed. -/
structure Frees (h h' : Heap) (bs bs' : List Block) (x n : Nat) : Prop where
  layout : Layout h' bs'
  region : SameRegion h h'
  used : ∀ y m, At 12 0 bs' y ⟨true, m⟩ ↔ y ≠ x ∧ At 12 0 bs y ⟨true, m⟩
  data : ∀ {y b i}, At 12 0 bs y b → i < b.size →
    h'.mem (h.heapPtr + y + 12 + i) = h.mem (h.heapPtr + y + 12 + i)
  lfree : h'.lfree ≤ h.lfree ∧ h'.lfree ≤ h.heapPtr + x
  usedMem : h'.usedMem = sub32 h.usedMem (n + 12)
  maxMem : h'.maxMem = h.maxMem

theorem Layout.rtFree (hl : Layout h bs) (hx : At 12 0 bs x ⟨true, n⟩) :
    ∃ h' bs', h.rtFree (some (h.heapPtr + x + 12)) = some h' ∧ Frees h h' bs bs' x n := by
  have hptr := hl.tiled.region.ptrAligned
  have hend := hl.tiled.region.heapEnd
  have haligned := hl.tiled.at_aligned hx
  have hlt := hl.tiled.data_lt hx
  have hused : h.get .used (h.heapPtr + x) ≠ 0 := fun h0 => by
    simpa using (hl.tiled.used hx).mp h0
  have hmagic := hl.tiled.marked x n hx
  obtain ⟨l1, l2, rfl, rfl⟩ := hx.split
  obtain ⟨hl1, hl2⟩ := hl.noHoles.of_append
  obtain ⟨h1, hmark, ht1, hfree1, hreg1, htouch1, hlfree1, hused1, hmax1⟩ := hl.markFree
  obtain ⟨h', bs', hplug, hjoins, hholes, -⟩ := ht1.plugHoles hl1 hl2 hfree1
  rw [hreg1.heapPtr] at hplug
  have hlow := hjoins.lfree
  refine ⟨h', bs', ?_, ⟨hjoins.tiled, hholes, hjoins.freePtr⟩, hreg1.trans hjoins.relinks.region,
    fun y m => ?_, fun {y b i} hy hi => ?_, by omega, hjoins.relinks.stats.usedMem.trans hused1,
    hjoins.relinks.stats.maxMem.trans hmax1⟩
  · rw [Heap.rtFree, sizeofStructMem, Nat.add_sub_cancel]
    simp only [rtAssert_bind_eq_some, and_three_eq_zero, hmark]
    refine ⟨by omega, ⟨by omega, by omega⟩, hused, hmagic, hplug⟩
  · rw [hjoins.used, at_ne_iff (by decide : 0 < 12)]
    simp
  · -- the headers that are written are those of the list with the free block
    have htouch := htouch1.trans hjoins.relinks.touches hreg1.heapPtr
    simp only [at_append, at_cons] at hy
    rcases hy with hy | ⟨rfl, rfl⟩ | hy
    · exact htouch.data (at_append.mpr (.inl hy)) hi
    · exact htouch.data at_after hi
    · exact htouch.data (at_append.mpr (.inr (.inr hy))) hi

/-! ## Splitting a block -/

/-- The headers when the block at `o` with `n` bytes is cut after `s` bytes, up to the back link
after it. -/
structure Splits (h h1 : Heap) (o s n : Nat) : Prop where
  edits : Edits h h1 o (o + 12 + n)
  next : h1.get .next (h.heapPtr + o) = o + 12 + s
  prev : h1.get .prev (h.heapPtr + o) = h.get .prev (h.heapPtr + o)
  used₂ : h1.get .used (h.heapPtr + (o + 12 + s)) = 0
  next₂ : h1.get .next (h.heapPtr + (o + 12 + s)) = o + 12 + n
  prev₂ : h1.get .prev (h.heapPtr + (o + 12 + s)) = o

namespace Splits

variable {o v : Nat} {fld : Field}

theorem insertFree (hnext : h.get .next (h.heapPtr + o) = o + 12 + n) (hfit : s + 24 ≤ n)
    (hn : o + 12 + n < size32) : Splits h (h.insertFree o (o + 12 + s)) o s n := by
  unfold Heap.insertFree
  constructor
  · have he : Edits h h o (o + 12 + n) := Edits.of_mem rfl ⟨rfl, rfl, rfl⟩
    exact (((he.set (by omega) (by omega)).set (by omega) (by omega)).set (by omega) (by omega)).set
      (by omega) (by omega)
  · exact get_setNext _ (by omega)
  · rw [get_set_field _ (by simp), get_set_apart _ (by omega), get_set_apart _ (by omega),
      get_set_apart _ (by omega)]
  · rw [get_set_apart _ (by omega), get_set_field _ (by simp), get_set_field _ (by simp),
      get_set_same]
    rfl
  · rw [get_set_apart _ (by omega), get_set_field _ (by simp), get_setNext, get_set_apart _ (by omega),
      hnext]
    rw [get_set_apart _ (by omega), hnext]
    exact hn
  · rw [get_set_apart _ (by omega), get_setPrev _ (by omega)]

variable (hs : Splits h h1 o s n)

include hs

/-- A write to another field of the first header. -/
theorem set (hfld : fld ≠ .next ∧ fld ≠ .prev) (hfit : s + 24 ≤ n) :
    Splits h (h1.set fld (h1.heapPtr + o) v) o s n := by
  have hptr := hs.edits.region.heapPtr
  constructor
  · exact hs.edits.set (by omega) (by omega)
  · rw [hptr, get_set_field _ hfld.1.symm, hs.next]
  · rw [hptr, get_set_field _ hfld.2.symm, hs.prev]
  · rw [hptr, get_set_apart _ (by omega), hs.used₂]
  · rw [hptr, get_set_apart _ (by omega), hs.next₂]
  · rw [hptr, get_set_apart _ (by omega), hs.prev₂]

variable (hfits : h.memSizeAligned + 12 < size32)

include hfits

theorem linkBack_eq :
    h1.linkBack (o + 12 + s) = if o + 12 + n ≠ h.memSizeAligned + 12 then
      h1.set .prev (h1.heapPtr + (o + 12 + n)) (o + 12 + s) else h1 := by
  have hnext : h1.get .next (h1.heapPtr + (o + 12 + s)) = o + 12 + n := by
    rw [hs.edits.region.heapPtr, hs.next₂]
  rw [Heap.linkBack, hnext, hs.edits.region.memSizeAligned, sizeofStructMem, add32_eq hfits]

/-- The back link is written behind the two new headers. -/
theorem get_linkBack
    (hx : x + 12 ≤ o + 12 + n) (fld : Field) :
    (h1.linkBack (o + 12 + s)).get fld (h.heapPtr + x) = h1.get fld (h.heapPtr + x) := by
  have hptr := hs.edits.region.heapPtr
  rw [hs.linkBack_eq hfits]
  split
  · exact get_set_apart _ (by omega) ..
  · rfl

theorem linkBack
    (hfit : s + 24 ≤ n) : Splits h (h1.linkBack (o + 12 + s)) o s n := by
  constructor
  · rw [hs.linkBack_eq hfits]
    split
    · exact hs.edits.setPrev (by omega)
    · exact hs.edits
  · rw [hs.get_linkBack hfits (by omega), hs.next]
  · rw [hs.get_linkBack hfits (by omega), hs.prev]
  · rw [hs.get_linkBack hfits (by omega), hs.used₂]
  · rw [hs.get_linkBack hfits (by omega), hs.next₂]
  · rw [hs.get_linkBack hfits (by omega), hs.prev₂]

theorem linkBack_prev
    (hn : o + 12 + n < h.memSizeAligned + 12) (hfit : s + 24 ≤ n) :
    (h1.linkBack (o + 12 + s)).get .prev (h.heapPtr + (o + 12 + n)) = o + 12 + s := by
  rw [hs.linkBack_eq hfits, if_pos (by omega), hs.edits.region.heapPtr, get_setPrev _ (by omega)]

end Splits

/-- The tiling after a split. -/
theorem Splits.tiled {u' : Bool} (hs : Splits h h' (after 12 0 l1) s n)
    (ht : Tiled h (l1 ++ ⟨u, n⟩ :: l2)) (hs4 : s % 4 = 0) (hfit : s + 24 ≤ n)
    (hused : decide (h'.get .used (h.heapPtr + after 12 0 l1) ≠ 0) = u')
    (hmagic : u' = true → h'.get .magic (h.heapPtr + after 12 0 l1) = heapMagic)
    (hback : after 12 0 l1 + 12 + n < h.memSizeAligned + 12 →
      h'.get .prev (h.heapPtr + (after 12 0 l1 + 12 + n)) = after 12 0 l1 + 12 + s) :
    Tiled h' (l1 ++ ⟨u', s⟩ :: ⟨false, n - s - 12⟩ :: l2) := by
  have hold : Tiled h (l1 ++ ([⟨u, n⟩] ++ l2)) := ht
  have hptr := hs.edits.region.heapPtr
  have hn : n % 4 = 0 := by simpa using ht.aligned ⟨u, n⟩ (by simp)
  have hspace : after 12 0 l1 + 12 + s + 12 + (n - s - 12) = after 12 0 l1 + 12 + n := by omega
  have hmid : Tiles 12 h'.fields (last 12 0 0 l1) (after 12 0 l1)
      [⟨u', s⟩, ⟨false, n - s - 12⟩] := by
    refine ⟨?_, ?_, ?_, ?_, ?_, ?_, trivial⟩
    · simpa only [fields, hptr] using hused
    · simpa only [fields, hptr] using hs.next
    · simpa only [fields, hptr, hs.prev] using ht.header.2
    · simp only [fields, hptr, hs.used₂, ne_eq, not_true_eq_false, decide_false]
    · simpa only [fields, hptr, hspace] using hs.next₂
    · simpa only [fields, hptr] using hs.prev₂
  refine hold.replace hs.edits hmid hspace (fun hl2 => hback ?_) ?_ ?_ ?_
  · obtain ⟨hle, hlast⟩ := ht.block_le
    have hne := hlast.not.mp hl2
    omega
  · simp only [List.mem_cons, List.not_mem_nil, or_false, forall_eq_or_imp, forall_eq]
    omega
  · rintro x m (⟨rfl, hm⟩ | ⟨-, hm⟩ | hx)
    · cases hm
      exact hmagic rfl
    · cases hm
    · exact hx.elim
  · exact ⟨⟨false, n - s - 12⟩, rfl, fun _ => by simp only; omega⟩

/-- The header after a block that was cut. -/
theorem header_cut {u : Bool} (hfit : s + 12 ≤ n) :
    Header (l1 ++ ⟨u, s⟩ :: ⟨false, n - s - 12⟩ :: l2) (after 12 0 l1 + 12 + n) := by
  have hnext : Header (l1 ++ ⟨u, s⟩ :: ⟨false, n - s - 12⟩ :: l2)
      (after 12 0 l1 + 12 + s + 12 + (n - s - 12)) := header_next_next
  have hspace : after 12 0 l1 + 12 + s + 12 + (n - s - 12) = after 12 0 l1 + 12 + n := by omega
  rwa [hspace] at hnext

/-- The new headers of a block that is cut. -/
theorem relinks_insertFree {u : Bool} :
    Relinks h (h.insertFree (after 12 0 l1) (after 12 0 l1 + 12 + s))
      (l1 ++ ⟨u, s⟩ :: ⟨false, n - s - 12⟩ :: l2) := by
  have hx : Header (l1 ++ ⟨u, s⟩ :: ⟨false, n - s - 12⟩ :: l2) (after 12 0 l1) := header_after
  have hy : Header (l1 ++ ⟨u, s⟩ :: ⟨false, n - s - 12⟩ :: l2) (after 12 0 l1 + 12 + s) := header_next
  exact ((((Relinks.refl h).set hy .used 0).set hy .next _).set hy .prev _).set hx .next _

theorem Relinks.linkBack {u : Bool} (hr : Relinks h h1 (l1 ++ ⟨u, s⟩ :: ⟨false, n - s - 12⟩ :: l2))
    (hs : Splits h h1 (after 12 0 l1) s n) (hfits : h.memSizeAligned + 12 < size32)
    (hfit : s + 12 ≤ n) : Relinks h (h1.linkBack (after 12 0 l1 + 12 + s))
      (l1 ++ ⟨u, s⟩ :: ⟨false, n - s - 12⟩ :: l2) := by
  rw [hs.linkBack_eq hfits]
  split
  · exact hr.set (header_cut hfit) .prev _
  · exact hr

/-! ## rt_malloc -/

/-- What the list of blocks becomes when the free block at `x` is taken with `m` bytes. -/
structure Takes (bs bs' : List Block) (x m : Nat) : Prop where
  noHoles : NoHoles bs'
  used : ∀ y n, At 12 0 bs' y ⟨true, n⟩ ↔ (y = x ∧ n = m) ∨ At 12 0 bs y ⟨true, n⟩
  free : ∀ y n, y ≠ x → At 12 0 bs y ⟨false, n⟩ → At 12 0 bs' y ⟨false, n⟩

theorem takes_whole (hb : NoHoles (l1 ++ ⟨false, k⟩ :: l2)) :
    Takes (l1 ++ ⟨false, k⟩ :: l2) (l1 ++ ⟨true, k⟩ :: l2) (after 12 0 l1) k := by
  obtain ⟨hl1, hl2⟩ := hb.of_append
  constructor
  · exact hl1.append_used hl2
  · intro y n
    simp only [at_append, at_cons, Block.mk.injEq]
    grind
  · intro y n hne hy
    simp only [at_append, at_cons, Block.mk.injEq] at hy ⊢
    grind

theorem takes_split (hb : NoHoles (l1 ++ ⟨false, k⟩ :: l2)) (hfit : size + 24 ≤ k) :
    Takes (l1 ++ ⟨false, k⟩ :: l2) (l1 ++ ⟨true, size⟩ :: ⟨false, k - size - 12⟩ :: l2)
      (after 12 0 l1) size := by
  have hl1 := hb.of_append.1
  have hrest := (List.isChain_append.mp hb).2.1
  have hspace : after 12 0 l1 + 12 + size + 12 + (k - size - 12) = after 12 0 l1 + 12 + k := by
    omega
  constructor
  · exact hl1.append_used (List.isChain_cons.mpr (List.isChain_cons.mp hrest))
  · intro y n
    simp only [at_append, at_cons, Block.mk.injEq, hspace]
    grind
  · intro y n hne hy
    simp only [at_append, at_cons, Block.mk.injEq, hspace] at hy ⊢
    grind

/-- The count and the writes of headers do not meet. -/
theorem set_countUsed (h : Heap) (k : Nat) (fld : Field) (p v : Nat) :
    (h.countUsed k).set fld p v = (h.set fld p v).countUsed k := rfl

section

variable {k : Nat} (ht : Tiled h (l1 ++ ⟨false, k⟩ :: l2))

include ht

/-- The block is large enough to be split. -/
theorem Tiled.takeBlock_split (hs4 : size % 4 = 0) (hfit : size + 24 ≤ k) :
    ∃ h', h.takeBlock (after 12 0 l1) size = h'.countUsed (size + 12) ∧
      Tiled h' (l1 ++ ⟨true, size⟩ :: ⟨false, k - size - 12⟩ :: l2) ∧
      Relinks h h' (l1 ++ ⟨true, size⟩ :: ⟨false, k - size - 12⟩ :: l2) ∧ h'.lfree = h.lfree := by
  have hle := ht.block_le.1
  have hfits := ht.region.fits
  have hM : h.memSizeAligned + 12 < size32 := by omega
  have hptr2 : add32 (add32 (after 12 0 l1) 12) size = after 12 0 l1 + 12 + size := by
    rw [add32_eq (by omega : after 12 0 l1 + 12 < size32), add32_eq (by omega)]
  have hadd : add32 size 12 = size + 12 := add32_eq (by omega)
  have hadd' : add32 (size + 12) 12 = size + 24 := add32_eq (by omega)
  -- the heap before the back link, after it, and with the magic
  obtain ⟨h1, hh1⟩ : ∃ h1, h1 = (h.insertFree (after 12 0 l1) (after 12 0 l1 + 12 + size)).set
    .used (h.heapPtr + after 12 0 l1) 1 := ⟨_, rfl⟩
  have hs1 : Splits h h1 (after 12 0 l1) size k := by
    rw [hh1]
    exact (Splits.insertFree ht.header.1 hfit (by omega)).set ⟨by simp, by simp⟩ hfit
  have hs2 := hs1.linkBack hM hfit
  have hptr₂ := hs2.edits.region.heapPtr
  have hs3 : Splits h ((h1.linkBack (after 12 0 l1 + 12 + size)).set .magic
      (h.heapPtr + after 12 0 l1) heapMagic) (after 12 0 l1) size k := by
    rw [← hptr₂]
    exact hs2.set ⟨by simp, by simp⟩ hfit
  refine ⟨_, ?_, hs3.tiled ht hs4 hfit ?_ ?_ ?_, ?_, ?_⟩
  · simp only [takeBlock, ht.dataSize at_after, sizeofStructMem, minSizeAligned, hadd, hadd', hptr2]
    rw [if_pos hfit, ← hh1, set_countUsed]
  · rw [get_set_field _ (by simp), hs1.get_linkBack hM (by omega), hh1, get_set_same]
    rfl
  · intro _
    rw [get_set_same]
    rfl
  · intro hn
    rw [get_set_apart _ (by omega), hs1.linkBack_prev hM hn hfit]
  · have hrel : Relinks h h1 (l1 ++ ⟨true, size⟩ :: ⟨false, k - size - 12⟩ :: l2) := by
      rw [hh1]
      exact relinks_insertFree.set header_after .used 1
    rw [← hptr₂]
    exact (hrel.linkBack hs1 hM (by omega)).set header_after .magic heapMagic
  · show (h1.linkBack _).lfree = h.lfree
    rw [hs1.linkBack_eq hM, hh1]
    split <;> rfl

/-- The block is taken as a whole. -/
theorem Tiled.takeBlock_whole (hsize : size ≤ h.memSizeAligned) (hfit : k < size + 24) :
    ∃ h', h.takeBlock (after 12 0 l1) size = h'.countUsed (k + 12) ∧
      Tiled h' (l1 ++ ⟨true, k⟩ :: l2) ∧ Relinks h h' (l1 ++ ⟨true, k⟩ :: l2) ∧
      h'.lfree = h.lfree := by
  have hle := ht.block_le.1
  have hfits := ht.region.fits
  have hadd : add32 size 12 = size + 12 := add32_eq (by omega)
  have hadd' : add32 (size + 12) 12 = size + 24 := add32_eq (by omega)
  have hspace : sub32 (after 12 0 l1 + 12 + k) (after 12 0 l1) = k + 12 := by
    rw [sub32_eq (by omega) (by omega)]
    omega
  refine ⟨(h.set .used (h.heapPtr + after 12 0 l1) 1).set .magic (h.heapPtr + after 12 0 l1)
    heapMagic, ?_, ht.mark ?_ ?_ ?_ ?_ ?_ ?_, ?_, rfl⟩
  · simp only [takeBlock, ht.dataSize at_after, sizeofStructMem, minSizeAligned, hadd, hadd']
    rw [if_neg (Nat.not_le_of_lt hfit), get_set_field _ (by simp), ht.header.1, hspace, set_countUsed]
  · have he : Edits h h (after 12 0 l1) (after 12 0 l1 + 12 + k) := Edits.of_mem rfl ⟨rfl, rfl, rfl⟩
    exact (he.set (by omega) (by omega)).set (by omega) (by omega)
  · rw [get_set_field _ (by simp), get_set_field _ (by simp)]
  · rw [get_set_field _ (by simp), get_set_field _ (by simp)]
  · rw [get_set_apart _ (by omega), get_set_apart _ (by omega)]
  · rw [get_set_field _ (by simp), get_set_same]
    rfl
  · intro _
    rw [get_set_same]
    rfl
  · exact ((Relinks.refl _).set header_after .used 1).set header_after .magic heapMagic

end

/-- A block is taken: the new headers, and the bytes that are counted. -/
theorem Layout.takeBlock {k : Nat} (hl : Layout h (l1 ++ ⟨false, k⟩ :: l2)) (hs4 : size % 4 = 0)
    (hfit : size ≤ k) :
    ∃ h1 l3 m, h.takeBlock (after 12 0 l1) size = h1.countUsed (m + 12) ∧ Tiled h1 (l1 ++ l3) ∧
      Relinks h h1 (l1 ++ l3) ∧ h1.lfree = h.lfree ∧
      Takes (l1 ++ ⟨false, k⟩ :: l2) (l1 ++ l3) (after 12 0 l1) m ∧ size ≤ m := by
  have hle := hl.tiled.block_le.1
  by_cases hsplit : size + 24 ≤ k
  · obtain ⟨h1, htake, ht, hrel, hlfree⟩ := hl.tiled.takeBlock_split hs4 hsplit
    exact ⟨h1, _, size, htake, ht, hrel, hlfree, takes_split hl.noHoles hsplit, Nat.le_refl _⟩
  · obtain ⟨h1, htake, ht, hrel, hlfree⟩ :=
      hl.tiled.takeBlock_whole (by omega) (Nat.lt_of_not_le hsplit)
    exact ⟨h1, _, k, htake, ht, hrel, hlfree, takes_whole hl.noHoles, hfit⟩

/-- The loop that moves `lfree` ends at a free block or at the end of the heap, and it passes blocks in
use only. -/
theorem Tiled.nextFree {fuel : Nat} (ht : Tiled h (l1 ++ l2)) (hfuel : l2.length ≤ fuel) :
    ∃ lfree, h.nextFree fuel (h.heapPtr + after 12 0 l1) = some lfree ∧
      (lfree = h.heapEnd ∨ ∃ x n, At 12 0 (l1 ++ l2) x ⟨false, n⟩ ∧ lfree = h.heapPtr + x) ∧
      (Covered 12 (l1 ++ l2) (after 12 0 l1) → Covered 12 (l1 ++ l2) (lfree - h.heapPtr)) := by
  induction l2 generalizing l1 fuel with
  | nil =>
    have hend : h.heapPtr + after 12 0 l1 = h.heapEnd := by
      have hspace := ht.space
      have heq := ht.region.heapEnd
      rw [List.append_nil] at hspace
      omega
    refine ⟨h.heapEnd, ?_, .inl rfl, ?_⟩
    · rw [hend]
      cases fuel <;> simp [Heap.nextFree]
    · rw [← hend, Nat.add_sub_cancel_left]
      exact id
  | cons b l2 ih =>
    obtain ⟨fuel, rfl⟩ : ∃ f, fuel = f + 1 := ⟨fuel - 1, by grind⟩
    obtain ⟨used, k⟩ := b
    have hat : At 12 0 (l1 ++ ⟨used, k⟩ :: l2) (after 12 0 l1) ⟨used, k⟩ := at_after
    rw [Heap.nextFree]
    cases used
    · rw [if_neg (by simp [(ht.used hat).mpr])]
      refine ⟨_, rfl, .inr ⟨after 12 0 l1, k, hat, rfl⟩, ?_⟩
      rw [Nat.add_sub_cancel_left]
      exact id
    · -- a used block is passed, and its `next` leads to the rest
      have hnext := ht.next hat
      have hne : h.get .used (h.heapPtr + after 12 0 l1) ≠ 0 := fun h0 => by
        cases (ht.used hat).mp h0
      have hlt := ht.data_lt hat
      have hend := ht.region.heapEnd
      rw [if_pos ⟨hne, by omega⟩, hnext]
      have hsnoc := fun hc : Covered 12 (l1 ++ ⟨true, k⟩ :: l2) (after 12 0 l1) => hc.snoc hat
      rw [List.append_cons] at ht hsnoc ⊢
      obtain ⟨lfree, hloop, hfree, hcovered⟩ := ih ht (by simpa using hfuel)
      exact ⟨lfree, by simpa using hloop, hfree, fun hc => hcovered (by simpa using hsnoc hc)⟩

/-- The search loop ends. A block that it finds is free and large enough, and when it finds none then
a block that was large enough lies where it does not look. -/
theorem Tiled.searchLoop {fuel : Nat} (ht : Tiled h (l1 ++ l2)) (hsize : size ≤ h.memSizeAligned)
    (hfuel : l2.length ≤ fuel) :
    (h.searchLoop size fuel (after 12 0 l1) = some none ∧
      ∀ x k, At 12 (after 12 0 l1) l2 x ⟨false, k⟩ → size ≤ k → h.memSizeAligned ≤ x + size) ∨
    ∃ x k, h.searchLoop size fuel (after 12 0 l1) = some (some x) ∧
      At 12 0 (l1 ++ l2) x ⟨false, k⟩ ∧ size ≤ k ∧ after 12 0 l1 ≤ x ∧
      x + size < h.memSizeAligned := by
  have hfits := ht.region.fits
  have hbound : sub32 h.memSizeAligned size = h.memSizeAligned - size :=
    sub32_eq hsize (by omega)
  induction l2 generalizing l1 fuel with
  | nil =>
    have hspace := ht.space
    rw [List.append_nil] at hspace
    refine .inl ⟨?_, fun x k hx => hx.elim⟩
    cases fuel <;> rw [Heap.searchLoop, hbound, if_neg (by omega)]
  | cons b l2 ih =>
    obtain ⟨fuel, rfl⟩ : ∃ f, fuel = f + 1 := ⟨fuel - 1, by grind⟩
    have hat : At 12 0 (l1 ++ b :: l2) (after 12 0 l1) b := at_after
    rw [Heap.searchLoop, hbound, ht.dataSize hat, ht.next hat]
    split
    · split
      next hlt hfound =>
        obtain ⟨used, k⟩ := b
        obtain ⟨hused, hk⟩ := hfound
        obtain rfl : used = false := (ht.used hat).mp hused
        exact .inr ⟨after 12 0 l1, k, rfl, hat, hk, Nat.le_refl _, by omega⟩
      next hlt hfound =>
        have hused := ht.used hat
        rw [List.append_cons] at ht ⊢
        have hrest := ih ht (by simpa using hfuel)
        simp only [after_append, after_cons, after_nil] at hrest
        refine hrest.imp (fun hnone => ⟨hnone.1, fun x k hx hk => ?_⟩) ?_
        · rcases hx with ⟨rfl, rfl⟩ | hx
          · exact absurd ⟨hused.mpr rfl, hk⟩ hfound
          · exact hnone.2 x k hx hk
        · rintro ⟨x, k, hfound, hx, hk, hle, hlt⟩
          exact ⟨x, k, hfound, hx, hk, by omega, hlt⟩
    next hstop =>
      refine .inl ⟨rfl, fun x k hx _ => ?_⟩
      have hle := hx.bounds.1
      omega

/-- The loops over the blocks have fuel enough. -/
theorem Tiled.length_le (ht : Tiled h bs) : bs.length ≤ h.memSizeAligned := by
  have hlen : 0 + 12 * bs.length ≤ after 12 0 bs := length_le_after
  have hspace := ht.space
  have hmin := ht.region.min
  omega

/-- All space below `lfree` is in use. -/
def LowUsed (h : Heap) (bs : List Block) : Prop := Covered 12 bs (h.lfree - h.heapPtr)

theorem Tiled.updateLfree (ht : Tiled h (l1 ++ l2))
    (hfree : h.lfree ≠ h.heapPtr + after 12 0 l1 → FreePtr h (l1 ++ l2)) :
    ∃ lfree, h.updateLfree (h.heapPtr + after 12 0 l1) = some { h with lfree := lfree } ∧
      FreePtr { h with lfree := lfree } (l1 ++ l2) ∧
      (LowUsed h (l1 ++ l2) → LowUsed { h with lfree := lfree } (l1 ++ l2)) := by
  unfold Heap.updateLfree
  by_cases hmem : h.heapPtr + after 12 0 l1 = h.lfree
  · have hlen : l2.length ≤ h.memSizeAligned := by
      have hle := ht.length_le
      rw [List.length_append] at hle
      omega
    obtain ⟨lfree, hloop, hlfree, hcovered⟩ := ht.nextFree hlen
    have hassert : lfree = h.heapEnd ∨ h.get .used lfree = 0 := by
      refine hlfree.imp_right ?_
      rintro ⟨x, n, hx, rfl⟩
      exact (ht.used hx).mpr rfl
    refine ⟨lfree, ?_, hlfree, fun hlow => hcovered ?_⟩
    · rw [if_pos hmem, ← hmem, hloop, Option.bind_eq_bind, Option.bind_some, rtAssert_bind_eq_some]
      exact ⟨hassert, rfl⟩
    · rwa [LowUsed, ← hmem, Nat.add_sub_cancel_left] at hlow
  · rw [if_neg hmem]
    exact ⟨h.lfree, rfl, hfree fun heq => hmem heq.symm, id⟩

/-- A heap whose block at `x` has got `m` bytes has counted them. -/
structure Counts (h h' : Heap) (m : Nat) : Prop where
  usedMem : h'.usedMem = add32 h.usedMem (m + 12)
  maxMem : h'.maxMem = max h.maxMem h'.usedMem

theorem SameStats.counts (hs : SameStats h h1) (m : Nat) : Counts h (h1.countUsed (m + 12)) m := by
  refine ⟨by rw [← hs.usedMem]; rfl, ?_⟩
  show (if h1.maxMem < add32 h1.usedMem (m + 12) then _ else _) = max h.maxMem (add32 h1.usedMem _)
  rw [hs.maxMem]
  split <;> omega

/-- The block at `x` is handed out with `m` bytes. -/
structure HandsOut (h h' : Heap) (bs bs' : List Block) (x m : Nat) : Prop where
  layout : Layout h' bs'
  region : SameRegion h h'
  used : ∀ y n, At 12 0 bs' y ⟨true, n⟩ ↔ (y = x ∧ n = m) ∨ At 12 0 bs y ⟨true, n⟩

/-- What the allocation does besides: it keeps the data of the blocks in use, counts the new block, and
leaves no free block below `lfree`. -/
structure Fills (h h' : Heap) (bs bs' : List Block) (x m : Nat) : Prop
    extends HandsOut h h' bs bs' x m where
  data : ∀ {y n i}, At 12 0 bs y ⟨true, n⟩ → i < n →
    h'.mem (h.heapPtr + y + 12 + i) = h.mem (h.heapPtr + y + 12 + i)
  counts : Counts h h' m
  lowUsed : LowUsed h bs → LowUsed h' bs'

theorem Layout.allocate {k : Nat} (hl : Layout h bs) (hx : At 12 0 bs x ⟨false, k⟩)
    (hs4 : size % 4 = 0) (hfit : size ≤ k) :
    ∃ h' bs' m, h.allocate x size = some (h', some (h.heapPtr + x + 12)) ∧
      Fills h h' bs bs' x m ∧ size ≤ m := by
  have hptr := hl.tiled.region.ptrAligned
  have hend := hl.tiled.region.heapEnd
  have haligned := hl.tiled.at_aligned hx
  have hle := hl.tiled.at_le hx
  simp only at hle
  obtain ⟨l1, l2, rfl, rfl⟩ := hx.split
  obtain ⟨h1, l3, m, htake, ht, hrel, hlfree, htakes, hm⟩ := hl.takeBlock hs4 hfit
  have hreg : SameRegion h (h1.countUsed (m + 12)) := hrel.region.trans ⟨rfl, rfl, rfl⟩
  have ht2 : Tiled (h1.countUsed (m + 12)) (l1 ++ l3) := ht.of_mem rfl ⟨rfl, rfl, rfl⟩
  have hlfree2 : (h1.countUsed (m + 12)).lfree = h.lfree := hlfree
  have hcounts := hrel.stats.counts m
  obtain ⟨lfree, hupdate, hfree, hlow⟩ := ht2.updateLfree fun hne => by
    rw [hlfree2, hreg.heapPtr] at hne
    rw [FreePtr, hlfree2, hreg.heapPtr, hreg.heapEnd]
    refine hl.lfree.imp_right ?_
    rintro ⟨y, n, hy, hlf⟩
    exact ⟨y, n, htakes.free y n (by omega) hy, hlf⟩
  have hend2 := hreg.heapEnd
  have hmem : (h1.countUsed (m + 12)).heapPtr + after 12 0 l1 = h.heapPtr + after 12 0 l1 := by
    rw [hreg.heapPtr]
  refine ⟨{ h1.countUsed (m + 12) with lfree := lfree }, l1 ++ l3, m, ?_,
    ⟨⟨⟨ht2.of_mem rfl ⟨rfl, rfl, rfl⟩, htakes.noHoles, hfree⟩, hreg.trans ⟨rfl, rfl, rfl⟩,
    htakes.used⟩, ?_, ⟨hcounts.usedMem, hcounts.maxMem⟩, fun hc => hlow ?_⟩, hm⟩
  · rw [Heap.allocate, htake, ← hmem, hupdate, Option.bind_eq_bind, Option.bind_some, hmem]
    simp only [rtAssert_bind_eq_some]
    simp only [sizeofStructMem, and_three_eq_zero]
    exact ⟨by omega, by omega, by omega, rfl⟩
  · exact fun {y n i} hy hi => hrel.touches.data ((htakes.used y n).mpr (.inr hy)) hi
  · rw [LowUsed, hlfree2, hreg.heapPtr]
    exact Covered.of_used hc fun y n _ hy => (htakes.used y n).mpr (.inr hy)

/-- The search of `rt_malloc` begins at a block or at the end. -/
theorem Layout.lfree_split (hl : Layout h bs) :
    ∃ l1 l2, bs = l1 ++ l2 ∧ h.lfree = h.heapPtr + after 12 0 l1 := by
  rcases hl.lfree with hlf | ⟨x, n, hx, hlf⟩
  · have hend := hl.tiled.region.heapEnd
    have hspace := hl.tiled.space
    exact ⟨bs, [], by simp, by omega⟩
  · obtain ⟨l1, l2, rfl, rfl⟩ := hx.split
    exact ⟨l1, _, rfl, hlf⟩

/-- The size that `rt_malloc(size)` looks for. -/
def need (size : Nat) : Nat := if rtAlign size < minSizeAligned then minSizeAligned else rtAlign size

theorem need_spec (size : Nat) : need size % 4 = 0 ∧ 12 ≤ need size ∧ rtAlign size ≤ need size := by
  have halign := rtAlign_mod_four size
  rw [need, minSizeAligned]
  split <;> omega

/-- `rt_malloc` gives up at once, or its search finds no block, or it takes the block that the search
finds. That block was free, not below `lfree`, and not at the end of the heap. -/
theorem Layout.rtMalloc (hl : Layout h bs) (size : Nat) :
    (h.rtMalloc size = some (h, none) ∧ (size = 0 ∨ h.memSizeAligned < need size ∨
      ∀ x k, At 12 0 bs x ⟨false, k⟩ → h.lfree ≤ h.heapPtr + x → need size ≤ k →
        h.memSizeAligned ≤ x + need size)) ∨
    ∃ h' bs' x k m, h.rtMalloc size = some (h', some (h.heapPtr + x + 12)) ∧
      h.allocate x (need size) = some (h', some (h.heapPtr + x + 12)) ∧ Fills h h' bs bs' x m ∧
      need size ≤ m ∧ At 12 0 bs x ⟨false, k⟩ ∧ need size ≤ k ∧ h.lfree ≤ h.heapPtr + x ∧
      x + need size < h.memSizeAligned := by
  have hmin := hl.tiled.region.min
  have hneed := need_spec size
  rw [Heap.rtMalloc]
  dsimp only
  split
  next hzero => exact .inl ⟨rfl, .inl hzero⟩
  next =>
    split
    next hlarge => exact .inl ⟨rfl, .inr (.inl (by omega))⟩
    next hle =>
      have hneedM : need size ≤ h.memSizeAligned := by
        rw [need, minSizeAligned]
        split <;> omega
      obtain ⟨l1, l2, rfl, hlf⟩ := hl.lfree_split
      have hlen : l2.length ≤ h.memSizeAligned := by
        have hle := hl.tiled.length_le
        rw [List.length_append] at hle
        omega
      have hstart : h.lfree - h.heapPtr = after 12 0 l1 := by omega
      rw [← need, hstart]
      rcases hl.tiled.searchLoop hneedM hlen with
        ⟨hnone, hmissed⟩ | ⟨x, k, hfound, hx, hk, hle', hlt⟩
      · rw [hnone]
        refine .inl ⟨rfl, .inr (.inr fun x k hx hlow hk => hmissed x k ?_ hk)⟩
        refine (at_append.mp hx).resolve_left fun hbefore => ?_
        have hbound := hbefore.bounds.2
        simp only at hbound
        omega
      · obtain ⟨h', bs', m, halloc, hfills, hm⟩ := hl.allocate hx hneed.1 hk
        refine .inr ⟨h', bs', x, k, m, ?_, halloc, hfills, hm, hx, hk, by omega, hlt⟩
        rw [hfound]
        exact halloc

/-! ## rt_realloc -/

/-- `insertFree` writes only `next` of the first header. -/
theorem get_insertFree {o p : Nat} {fld : Field} (hfld : fld ≠ .next) (hp : o + 12 ≤ p) :
    (h.insertFree o p).get fld (h.heapPtr + o) = h.get fld (h.heapPtr + o) := by
  rw [Heap.insertFree, get_set_field _ hfld, get_set_apart _ (by omega), get_set_apart _ (by omega),
    get_set_apart _ (by omega)]

/-- A header may be written inside the data of a block. -/
theorem Tiled.set_inside (ht : Tiled h (l1 ++ ⟨true, n⟩ :: l2)) (hs : s + 12 ≤ n) (fld : Field)
    (v : Nat) : Tiled (h.set fld (h.heapPtr + (after 12 0 l1 + 12 + s)) v)
      (l1 ++ ⟨true, n⟩ :: l2) := by
  have hused := (ht.tiles.at at_after).1
  have hmagic := ht.marked _ _ at_after
  refine ht.mark ?_ ?_ ?_ ?_ ?_ ?_
  · exact (Edits.of_mem rfl ⟨rfl, rfl, rfl⟩).set (by omega) (by omega)
  · rw [get_set_apart _ (by omega)]
  · rw [get_set_apart _ (by omega)]
  · rw [get_set_apart _ (by omega)]
  · rw [get_set_apart _ (by omega)]
    exact hused
  · rw [get_set_apart _ (by omega)]
    exact fun _ => hmagic

/-- The two headers of a block that is cut. -/
theorem Tiled.cut (ht : Tiled h (l1 ++ ⟨true, n⟩ :: l2)) (hs4 : s % 4 = 0) (hfit : s + 24 ≤ n) :
    ∃ h', (h.insertFree (after 12 0 l1) (after 12 0 l1 + 12 + s)).linkBack
        (after 12 0 l1 + 12 + s) = h' ∧
      Tiled h' (l1 ++ ⟨true, s⟩ :: ⟨false, n - s - 12⟩ :: l2) ∧
      Relinks h h' (l1 ++ ⟨true, s⟩ :: ⟨false, n - s - 12⟩ :: l2) ∧ h'.lfree = h.lfree := by
  obtain ⟨h', hh'⟩ : ∃ h', h' = (h.insertFree (after 12 0 l1) (after 12 0 l1 + 12 + s)).linkBack
    (after 12 0 l1 + 12 + s) := ⟨_, rfl⟩
  have hfits := ht.region.fits
  have hle := ht.block_le.1
  have hM : h.memSizeAligned + 12 < size32 := by omega
  have hs1 := Splits.insertFree ht.header.1 hfit (by omega)
  have hs2 := hs1.linkBack hM hfit
  have hsame : ∀ fld, fld ≠ .next →
      h'.get fld (h.heapPtr + after 12 0 l1) = h.get fld (h.heapPtr + after 12 0 l1) := by
    intro fld hfld
    rw [hh', hs1.get_linkBack hM (by omega), get_insertFree hfld (by omega)]
  rw [← hh'] at hs2
  refine ⟨h', hh'.symm, hs2.tiled ht hs4 hfit ?_ ?_ ?_, ?_, ?_⟩
  · rw [hsame .used nofun]
    exact (ht.tiles.at at_after).1
  · rw [hsame .magic nofun]
    exact fun _ => ht.marked _ _ at_after
  · rw [hh']
    exact fun hn => hs1.linkBack_prev hM hn hfit
  · rw [hh']
    exact relinks_insertFree.linkBack hs1 hM (by omega)
  · rw [hh', hs1.linkBack_eq hM]
    split <;> rfl

/-- The block at `x` is cut to `s` bytes. -/
structure Shrinks (h h' : Heap) (bs bs' : List Block) (x s : Nat) : Prop where
  layout : Layout h' bs'
  region : SameRegion h h'
  used : ∀ y n, At 12 0 bs' y ⟨true, n⟩ ↔ (y = x ∧ n = s) ∨ (y ≠ x ∧ At 12 0 bs y ⟨true, n⟩)

/-- The cut at `x` with `n` bytes makes a free block above `lfree`, or directly before it. -/
def CutsHigh (h : Heap) (x n : Nat) : Prop :=
  h.lfree ≤ h.heapPtr + x ∨ (h.lfree = h.heapPtr + (x + 12 + n) ∧ h.lfree ≠ h.heapEnd)

/-- What the cut of the block at `x` with `n` bytes does besides. -/
structure Cuts (h h' : Heap) (bs bs' : List Block) (x n s : Nat) : Prop
    extends Shrinks h h' bs bs' x s where
  data : ∀ {y m i}, At 12 0 bs y ⟨true, m⟩ → i < m → (y = x → i < s) →
    h'.mem (h.heapPtr + y + 12 + i) = h.mem (h.heapPtr + y + 12 + i)
  usedMem : h'.usedMem = sub32 h.usedMem (n - s)
  maxMem : h'.maxMem = h.maxMem
  lowUsed : CutsHigh h x n → LowUsed h bs → LowUsed h' bs'

/-- `shrink` up to `plug_holes`. -/
theorem Layout.cutBlock (hl : Layout h (l1 ++ ⟨true, n⟩ :: l2)) (hs4 : s % 4 = 0)
    (hfit : s + 24 ≤ n) :
    ∃ h2, h.shrink (after 12 0 l1) n s = h2.plugHoles (h.heapPtr + (after 12 0 l1 + 12 + s)) ∧
      Tiled h2 (l1 ++ ⟨true, s⟩ :: ⟨false, n - s - 12⟩ :: l2) ∧
      Relinks { h with usedMem := sub32 h.usedMem (n - s) } h2
        (l1 ++ ⟨true, s⟩ :: ⟨false, n - s - 12⟩ :: l2) ∧
      h2.lfree = h.lfree ∧ FreePtr h2 (l1 ++ ⟨true, s⟩ :: ⟨false, n - s - 12⟩ :: l2) := by
  have hfits := hl.tiled.region.fits
  have hle := hl.tiled.block_le.1
  have hptr2 : add32 (add32 (after 12 0 l1) 12) s = after 12 0 l1 + 12 + s := by
    rw [add32_eq (by omega : after 12 0 l1 + 12 < size32), add32_eq (by omega)]
  -- the new magic, and then the two headers
  have hcount : Tiled { h with usedMem := sub32 h.usedMem (n - s) } (l1 ++ ⟨true, n⟩ :: l2) :=
    hl.tiled.of_mem rfl ⟨rfl, rfl, rfl⟩
  have hmagic := hcount.set_inside (s := s) (by omega) .magic heapMagic
  obtain ⟨h2, hcut, ht2, hrel, hlfree⟩ := hmagic.cut hs4 hfit
  have hrel2 : Relinks { h with usedMem := sub32 h.usedMem (n - s) } h2
      (l1 ++ ⟨true, s⟩ :: ⟨false, n - s - 12⟩ :: l2) :=
    ((Relinks.refl _).set (o := after 12 0 l1 + 12 + s) header_next .magic heapMagic).trans hrel
  refine ⟨h2, ?_, ht2, hrel2, hlfree, ?_⟩
  · rw [← hcut]
    simp only [Heap.shrink, sizeofStructMem, hptr2, sub32_eq (by omega : s ≤ n) (by omega)]
    rw [hcut, hrel.region.heapPtr]
    rfl
  · have hspace : after 12 0 l1 + 12 + s + 12 + (n - s - 12) = after 12 0 l1 + 12 + n := by omega
    rw [FreePtr, hlfree, hrel.region.heapPtr, hrel.region.heapEnd]
    refine hl.lfree.imp_right ?_
    rintro ⟨y, m, hy, hlf⟩
    refine ⟨y, m, ?_, hlf⟩
    simp only [at_append, at_cons, Block.mk.injEq, hspace] at hy ⊢
    grind

/-- A free block directly after another one is the head of the rest. -/
theorem head_of_at (hz : At 12 0 (l1 ++ b :: l2) (after 12 0 l1 + 12 + b.size) ⟨false, n⟩) :
    (⟨false, n⟩ : Block) ∈ l2.head? := by
  have hrest := (at_ne_iff (by decide : 0 < 12)).mp ⟨by omega, hz⟩
  rcases hrest with hbefore | hbehind
  · have hbound := hbefore.bounds.2
    omega
  · cases l2 with
    | nil => exact hbehind.elim
    | cons c l3 =>
      rcases hbehind with ⟨-, rfl⟩ | hlater
      · rfl
      · have hbound := hlater.bounds.1
        omega

theorem Layout.shrink (hl : Layout h bs) (hx : At 12 0 bs x ⟨true, n⟩) (hs4 : s % 4 = 0)
    (hfit : s + 24 ≤ n) : ∃ h' bs', h.shrink x n s = some h' ∧ Cuts h h' bs bs' x n s := by
  obtain ⟨l1, l2, rfl, rfl⟩ := hx.split
  obtain ⟨h2, hshrink, ht2, hrel2, hlfree2, hfree⟩ := hl.cutBlock hs4 hfit
  have hptr₂ : h2.heapPtr = h.heapPtr := hrel2.region.heapPtr
  have hspace : after 12 0 l1 + 12 + s + 12 + (n - s - 12) = after 12 0 l1 + 12 + n := by omega
  obtain ⟨hl1, hl2⟩ := hl.noHoles.of_append
  rw [List.append_cons] at ht2 hfree hrel2
  obtain ⟨h', bs', hplug, hjoins, hholes, hlow⟩ :=
    ht2.plugHoles (hl1.append_used List.isChain_nil) hl2 hfree
  simp only [after_append, after_cons, after_nil, hptr₂, hspace, hlfree2] at hplug hlow
  have hused : ∀ y m, At 12 0 bs' y ⟨true, m⟩ ↔ (y = after 12 0 l1 ∧ m = s) ∨
      (y ≠ after 12 0 l1 ∧ At 12 0 (l1 ++ ⟨true, n⟩ :: l2) y ⟨true, m⟩) := by
    intro y m
    rw [hjoins.used, at_ne_iff (by decide : 0 < 12)]
    simp only [List.append_assoc, List.cons_append, List.nil_append, at_append, at_cons,
      Block.mk.injEq, hspace]
    grind
  have hreg2 := hrel2.region.trans hjoins.relinks.region
  have hreg : SameRegion h h' := ⟨hreg2.heapPtr, hreg2.heapEnd, hreg2.memSizeAligned⟩
  have htouch : Touches h h' (l1 ++ [⟨true, s⟩] ++ ⟨false, n - s - 12⟩ :: l2) :=
    hrel2.touches.trans hjoins.relinks.touches hptr₂
  refine ⟨h', bs', hshrink.trans hplug, ⟨⟨hjoins.tiled, hholes, hjoins.freePtr⟩, hreg, hused⟩,
    fun {y m i} hy hi hi' => ?_, hjoins.relinks.stats.usedMem.trans hrel2.stats.usedMem,
    hjoins.relinks.stats.maxMem.trans hrel2.stats.maxMem, fun hhigh hc => ?_⟩
  · by_cases hyx : y = after 12 0 l1
    · subst hyx
      exact htouch.data (b := ⟨true, s⟩) (by simp) (hi' rfl)
    · refine htouch.data (b := ⟨true, m⟩) ?_ hi
      rcases (at_ne_iff (by decide : 0 < 12)).mp ⟨hyx, hy⟩ with hbefore | hbehind
      · simp [hbefore]
      · simp [hspace, hbehind]
  · have hle := hjoins.lfree
    rw [hlfree2] at hle
    have hkept : ∀ y m, y < after 12 0 l1 → At 12 0 (l1 ++ ⟨true, n⟩ :: l2) y ⟨true, m⟩ →
        At 12 0 bs' y ⟨true, m⟩ := fun y m hy hat => (hused y m).mpr (.inr ⟨by omega, hat⟩)
    rw [LowUsed, hreg.heapPtr]
    rcases hhigh with hhigh | ⟨hnext, hend⟩
    · refine Covered.of_used (Covered.mono hc (by omega)) fun y m hy hat => ?_
      exact hkept y m (by omega) hat
    · -- the next block is free, and `plug_holes` joins it to the new one
      rcases hl.lfree with heq | ⟨z, k, hz, hlf⟩
      · exact absurd heq hend
      obtain rfl : z = after 12 0 l1 + 12 + n := by omega
      have hjoin := hlow _ (head_of_at hz) rfl hnext
      have hbelow : Covered 12 bs' (after 12 0 l1) :=
        Covered.of_used (Covered.mono hc (by omega)) hkept
      exact (hbelow.snoc ((hused _ s).mpr (.inl ⟨rfl, rfl⟩))).mono (by omega)

/-- The four ways through the first critical section of `rt_realloc` on a used block. -/
theorem Layout.rtRealloc_cases (hl : Layout h bs) (hx : At 12 0 bs x ⟨true, n⟩) (newsize : Nat) :
    (h.memSizeAligned < rtAlign newsize ∧
      h.rtRealloc (some (h.heapPtr + x + 12)) newsize = some (h, .returned none)) ∨
    (n = rtAlign newsize ∧ h.rtRealloc (some (h.heapPtr + x + 12)) newsize =
      some (h, .returned (some (h.heapPtr + x + 12)))) ∨
    (rtAlign newsize + 24 < n ∧ h.rtRealloc (some (h.heapPtr + x + 12)) newsize =
      (h.shrink x n (rtAlign newsize)).map fun h' => (h', .returned (some (h.heapPtr + x + 12)))) ∨
    (rtAlign newsize ≤ h.memSizeAligned ∧ h.rtRealloc (some (h.heapPtr + x + 12)) newsize =
      some (h, .move (h.heapPtr + x + 12) n (rtAlign newsize))) := by
  have hfits := hl.tiled.region.fits
  have hend := hl.tiled.region.heapEnd
  have hlt := hl.tiled.data_lt hx
  have hle : x + 12 + n ≤ h.memSizeAligned + 12 := hl.tiled.at_le hx
  have hnext : h.get .next (h.heapPtr + x) = x + 12 + n := hl.tiled.next hx
  have hmem : h.heapPtr + x + 12 - 12 = h.heapPtr + x := by omega
  have hptr : h.heapPtr + x - h.heapPtr = x := by omega
  have hsize : sub32 (sub32 (x + 12 + n) x) 12 = n := by
    rw [sub32_eq (by omega : x ≤ x + 12 + n) (by omega), sub32_eq (by omega) (by omega)]
    omega
  simp only [Heap.rtRealloc, sizeofStructMem, minSizeAligned, hmem, hptr, hnext, hsize]
  by_cases hM : h.memSizeAligned < rtAlign newsize
  · rw [if_pos hM]
    exact .inl ⟨hM, rfl⟩
  · have hadd : add32 (add32 (rtAlign newsize) 12) 12 = rtAlign newsize + 24 := by
      rw [add32_eq (by omega : rtAlign newsize + 12 < size32), add32_eq (by omega)]
    rw [if_neg hM, if_neg (by omega), hadd]
    split
    next heq => exact .inr (.inl ⟨heq, rfl⟩)
    next =>
      split
      next hcut => exact .inr (.inr (.inl ⟨hcut, rfl⟩))
      next => exact .inr (.inr (.inr ⟨Nat.le_of_not_lt hM, rfl⟩))

/-! ## rt_system_heap_init -/

/-- A heap after `rt_system_heap_init`, of any size. -/
structure Fresh (h : Heap) : Prop where
  ptrAligned : h.heapPtr % 4 = 0
  sizeAligned : h.memSizeAligned % 4 = 0
  fits : h.heapPtr + h.memSizeAligned + 24 < size32
  heapEnd : h.heapEnd = h.heapPtr + h.memSizeAligned + 12
  lfree : h.lfree = h.heapPtr
  stats : h.usedMem = 0 ∧ h.maxMem = 0
  next : h.get .next h.heapPtr = h.memSizeAligned + 12
  prev : h.get .prev h.heapPtr = 0
  used : h.get .used h.heapPtr = 0
  endNext : h.get .next h.heapEnd = h.memSizeAligned + 12
  endUsed : h.get .used h.heapEnd = 1

/-- The header at the start is apart from the one at the end. -/
theorem initHeaders_start (hend : h.heapEnd = h.heapPtr + h.memSizeAligned + 12) (fld : Field) :
    h.initHeaders.get fld h.heapPtr = ((((h.set .magic h.heapPtr heapMagic).set .next h.heapPtr
      (h.memSizeAligned + 12)).set .prev h.heapPtr 0).set .used h.heapPtr 0).get fld h.heapPtr := by
  have hfar : h.heapEnd + 12 ≤ h.heapPtr ∨ h.heapPtr + 12 ≤ h.heapEnd := by omega
  simp only [Heap.initHeaders, set_heapPtr, set_heapEnd, get_set_apart _ hfar, sizeofStructMem]

theorem fresh_init {mem : Nat → UInt8} {beginAddr endAddr : Nat}
    (hinit : rtSystemHeapInit mem beginAddr endAddr = some h) : Fresh h := by
  have hend := rtAlignDown_eq endAddr
  have hbegin := rtAlign_mod_four beginAddr
  have hlt : endAddr % size32 < size32 := Nat.mod_lt _ (by decide)
  simp only [rtSystemHeapInit, Option.ite_none_right_eq_some, Option.some.injEq] at hinit
  obtain ⟨⟨hbig, hroom⟩, hinit⟩ := hinit
  simp only [sizeofStructMem] at hbig hroom hinit
  obtain ⟨h₀, hh0⟩ : ∃ h₀ : Heap, h₀ = {
    mem := mem
    heapPtr := rtAlign beginAddr
    heapEnd := rtAlign beginAddr + (rtAlignDown endAddr - rtAlign beginAddr - 2 * 12 + 12)
    lfree := rtAlign beginAddr
    memSizeAligned := rtAlignDown endAddr - rtAlign beginAddr - 2 * 12
    usedMem := 0
    maxMem := 0 } := ⟨_, rfl⟩
  rw [← hh0] at hinit
  have hend0 : h₀.heapEnd = h₀.heapPtr + h₀.memSizeAligned + 12 := by
    rw [hh0]
    exact (Nat.add_assoc ..).symm
  have hfits : h₀.heapPtr + h₀.memSizeAligned + 24 < size32 := by
    rw [hh0]
    simp only
    omega
  subst hinit
  constructor
  · rw [hh0]
    exact hbegin
  · have hsize : h₀.memSizeAligned % 4 = 0 := by
      rw [hh0]
      simp only
      omega
    exact hsize
  · exact hfits
  · exact hend0
  · rw [hh0]
    rfl
  · rw [hh0]
    exact ⟨rfl, rfl⟩
  · refine (initHeaders_start hend0 _).trans ?_
    rw [get_set_field _ (by simp), get_set_field _ (by simp), get_setNext _ (by omega)]
    rfl
  · refine (initHeaders_start hend0 _).trans ?_
    rw [get_set_field _ (by simp), get_setPrev _ (by decide)]
  · exact (initHeaders_start hend0 _).trans (get_set_same ..)
  · simp only [Heap.initHeaders, set_heapPtr, set_heapEnd]
    rw [get_set_field _ (by simp), get_setNext _ (by rw [sizeofStructMem]; omega)]
    rfl
  · simp only [Heap.initHeaders, set_heapPtr, set_heapEnd]
    rw [get_set_field _ (by simp), get_set_field _ (by simp), get_set_same]
    rfl

/-- The headers of a fresh heap describe one free block, if it can be handed out. -/
theorem Fresh.layout (hf : Fresh h) (hmin : 12 ≤ h.memSizeAligned) :
    Layout h [⟨false, h.memSizeAligned⟩] := by
  have hregion : Region h := ⟨hf.ptrAligned, hf.sizeAligned, hmin, hf.fits, hf.heapEnd⟩
  refine ⟨⟨hregion, ⟨?_, ?_, hf.prev, trivial⟩, ?_, ?_, ?_, ?_, ?_⟩,
    List.isChain_singleton _, .inr ⟨0, h.memSizeAligned, ?_, hf.lfree⟩⟩
  · exact decide_eq_false fun hne => hne hf.used
  · refine hf.next.trans ?_
    exact Nat.add_comm ..
  · exact Nat.add_comm ..
  · simpa using hf.sizeAligned
  · simp
  · simpa using hmin
  · exact fun h0 => by cases hf.endUsed.symm.trans h0
  · simp

/-! ## Writes to the data -/

/-- The bytes of the data of a block may change. -/
theorem Tiled.setData {m : Nat → UInt8} (ht : Tiled h bs) (hx : At 12 0 bs x b)
    (hm : ∀ a, a < h.heapPtr + x + 12 ∨ h.heapPtr + x + 12 + b.size ≤ a → m a = h.mem a) :
    Tiled { h with mem := m } bs := by
  have hle := ht.at_le hx
  have hend := ht.region.heapEnd
  -- a header lies before the data or after it
  have hget : ∀ q fld, q + 12 ≤ h.heapPtr + x + 12 ∨ h.heapPtr + x + 12 + b.size ≤ q →
      ({ h with mem := m } : Heap).get fld q = h.get fld q := by
    intro q fld hq
    refine load_congr fun i hi => hm _ ?_
    have hfld := Field.offset_add_width_le fld
    omega
  have hheader : ∀ {y c}, At 12 0 bs y c → ∀ fld,
      ({ h with mem := m } : Heap).get fld (h.heapPtr + y) = h.get fld (h.heapPtr + y) := by
    intro y c hy fld
    apply hget
    rcases Nat.lt_trichotomy x y with hlt | rfl | hlt
    · have hapart := hx.apart hy hlt
      omega
    · omega
    · omega
  obtain ⟨hregion, htiles, hspace, haligned, hmarked, hroom, hendUsed⟩ := ht
  refine ⟨hregion.of_same ⟨rfl, rfl, rfl⟩, htiles.congr fun y c hy => ?_, hspace, haligned, ?_, hroom,
    ?_⟩
  · have hused := congrArg (fun used => decide (used ≠ 0)) (hheader hy .used)
    exact ⟨hheader hy .next, hheader hy .prev, hused⟩
  · exact fun y n hy => (hheader hy .magic).trans (hmarked y n hy)
  · exact fun h0 => hendUsed ((hget h.heapEnd .used (by omega)).symm.trans h0)

theorem Layout.setData {m : Nat → UInt8} (hl : Layout h bs) (hx : At 12 0 bs x b)
    (hm : ∀ a, a < h.heapPtr + x + 12 ∨ h.heapPtr + x + 12 + b.size ≤ a → m a = h.mem a) :
    Layout { h with mem := m } bs := ⟨hl.tiled.setData hx hm, hl.noHoles, hl.lfree⟩

theorem Layout.write {i : Nat} (hl : Layout h bs) (hx : At 12 0 bs x b) (hi : i < b.size)
    (v : UInt8) : Layout (h.write (h.heapPtr + x + 12 + i) v) bs :=
  hl.setData hx fun _ _ => Function.update_of_ne (by omega) ..

end RtThread.Heap
