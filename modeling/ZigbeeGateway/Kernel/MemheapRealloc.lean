-- SUMMARY: What rt_memheap_realloc does to the layout.
import ZigbeeGateway.Kernel.MemheapSpec

/-!
# rt_memheap_realloc

A larger block is made in place when the block behind it is free and large enough: that block
becomes a part of the one in use, and a new free block is cut off at the new end. Otherwise the data
moves to another block. A smaller block is made by cutting off its end, which is then merged with a
free block behind it. Both in-place paths cut a free block off a block in use (`Laid.carve`).
-/

namespace RtThread.Memheap

open Word ByteMem Cyclic

variable {h h' : Memheap} {n p q x y size newsize m : Nat} {new : Nat}
  {blocks blocks' free free' l1 l2 f1 f2 : List Nat}

/-! ## Writes to the data of a block -/

/-- The memory differs at most in the data of the block `x`. -/
structure SameOutside (h h' : Memheap) (x : Nat) : Prop where
  region : SameRegion h h'
  available : h'.availableSize = h.availableSize
  mem : ∀ a, a < x + 24 ∨ x + 24 + h.memitemSize x ≤ a → h'.mem a = h.mem a

/-- The headers do not lie in the data of a block. -/
theorem SameOutside.keeps (ho : SameOutside h h' x) (hr : Ring h blocks) (hx : x ∈ blocks) :
    Keeps (Node h blocks) (fun _ => True) h h' := by
  refine ⟨ho.region, fun fld y _ hy => load_congr fun i hi => ho.mem _ ?_⟩
  have hsize := hr.memitemSize_eq hx
  have hfld := Field.offset_add_four_le fld
  obtain ⟨l1, l2, rfl⟩ := List.append_of_mem hx
  rcases hy with rfl | hy
  · have hge := hr.ge_start hx
    have hle := hr.region.header
    have htail := hr.tail_add
    have hnext : h.get .next x ≤ h.tail := by
      rcases List.mem_cons.mp (hr.next_mem hx) with heq | hmem
      · exact heq.le
      · have := hr.le_tail hmem
        omega
    omega
  · have hbetween := hr.between (List.mem_cons.mpr hy)
    omega

/-- Writes to the data of a block keep the layout. -/
theorem Layout.of_outside (hl : Layout h blocks free) (hx : x ∈ blocks) (ho : SameOutside h h' x) :
    Layout h' blocks free ∧ ∀ y n, UsedAt h' blocks y n ↔ UsedAt h blocks y n := by
  have hk := ho.keeps hl.shape.ring hx
  have hused : ∀ y ∈ blocks, h'.IsUsed y ↔ h.IsUsed y := fun y hy => by
    rw [IsUsed, IsUsed, hk.get _ y trivial (hl.shape.block hy)]
  have hsize : ∀ y ∈ blocks, h'.memitemSize y = h.memitemSize y := fun y hy => by
    rw [memitemSize, memitemSize, hk.get _ y trivial (hl.shape.block hy)]
  have hsub : ∀ y ∈ free, y ∈ blocks := fun y hy => ((hl.free_iff y).mp hy).1
  refine ⟨⟨⟨(hl.shape.congr hk fun _ => trivial).canonical hsub, fun y => ?_, hl.noHoles.congr hused⟩, ?_⟩,
    fun y n => ?_⟩
  · have hfree := hl.free_iff y
    grind
  · rw [ho.available, hl.available, bytes_congr fun y hy => hsize y (hsub y hy)]
  · have huse := hused y
    unfold UsedAt
    grind

/-! ## Cutting a free block off a block in use -/

/-- A free block is built at the end of the block `x`, which is in use. -/
theorem Laid.carve (hl : Laid h (l1 ++ x :: l2) free) (hx : h.IsUsed x) (hpx : x + 24 ≤ new)
    (hxn : new + 24 ≤ h.get .next x) :
    Loose false (h.insertBlock x new) (l1 ++ [x]) new l2 free ∧
      Splits h (h.insertBlock x new) (l1 ++ x :: l2) x new := by
  have hsub : ∀ y ∈ free, y ∈ l1 ++ x :: l2 := fun y hy => ((hl.free_iff y).mp hy).1
  obtain ⟨hs, hsplit⟩ := hl.shape.insertBlock hsub hpx hxn
  obtain ⟨hleft, hright, -⟩ := List.isChain_append.mp hl.noHoles
  refine ⟨⟨by simpa using hs, hsplit.unused, fun y => ?_, ?_, ?_⟩, hsplit⟩
  · have hfree := hl.free_iff y
    have huse := hsplit.used y
    grind
  · refine NoHoles.congr (h := h) (List.isChain_append.mpr ⟨hleft, List.isChain_singleton x, ?_⟩) fun y hy =>
      hsplit.used y (by grind)
    rintro y _ z ⟨⟩
    exact .inr hx
  · exact NoHoles.congr (List.isChain_cons.mp hright).2 fun y hy => hsplit.used y (by simp [hy])

/-- The block that was cut off is on the free list. -/
theorem Loose.carved (hl : Loose false h (l1 ++ [x]) new l2 free) (hx : h.IsUsed x)
    (hright : ∀ y ∈ l2.head?, h.IsUsed y) :
    Laid (h.insertFree new) (l1 ++ x :: new :: l2) (new :: free) ∧ SameRegion h (h.insertFree new) ∧
      ∀ y ∈ l1 ++ x :: new :: l2, ((h.insertFree new).IsUsed y ↔ h.IsUsed y) ∧
        (h.insertFree new).memitemSize y = h.memitemSize y := by
  have hlast : ∀ y ∈ (l1 ++ [x]).getLast?, h.IsUsed y := by simpa using hx
  simpa using hl.insertFree hlast hright

/-! ## A smaller block -/

/-- The heap of the block `x` has `newsize` bytes for it: the block has them itself, or with the free
block behind it, or there is another one. -/
def Stays (h : Memheap) (free : List Nat) (x newsize : Nat) : Prop :=
  newsize ≤ h.memitemSize x ∨
  (¬ h.IsUsed (h.get .next x) ∧ newsize + 12 < h.memitemSize (h.get .next x) + h.memitemSize x) ∨
  h.Room free newsize

instance (h : Memheap) (free : List Nat) (x newsize : Nat) : Decidable (h.Stays free x newsize) :=
  inferInstanceAs (Decidable (_ ∨ _))

/-- The results of `rt_memheap_realloc` for the block `x`: there is no memory, and nothing has
changed, or the block `y` with at least `newsize` bytes has taken the place of `x`. -/
inductive Reallocs (h : Memheap) (blocks free : List Nat) (x newsize : Nat) : Memheap → Option Nat → Prop where
  | none (full : ¬ h.Stays free x newsize) : Reallocs h blocks free x newsize h none
  | some {h' : Memheap} {blocks' free' : List Nat} {y m : Nat} (layout : Layout h' blocks' free')
    (region : SameRegion h h') (mem : y = x ∨ y ∈ free) (le : newsize ≤ m)
    (used : ∀ z n, UsedAt h' blocks' z n ↔ (z = y ∧ n = m) ∨ (z ≠ x ∧ UsedAt h blocks z n)) :
    Reallocs h blocks free x newsize h' (some (y + 24))

/-- The part of `rt_memheap_realloc` that merges the rest of a block. -/
theorem Loose.shrinkNext (hl : Loose false h l1 x l2 free) (havail : h.availableSize = h.bytes free) :
    ∃ l3 free', Loose.Absorbs false h (h.shrinkNext x) l1 x l2 l3 free' ∧
      (h.shrinkNext x).availableSize = (h.shrinkNext x).bytes free' := by
  have hkeep (hused : h.IsUsed (h.get .next x)) : h.shrinkNext x = h := if_neg (not_not.mpr hused)
  have hmerge (hused : ¬ h.IsUsed (h.get .next x)) : h.shrinkNext x =
      { h with availableSize :=
          sub32 h.availableSize (h.memitemSize (h.get .next x)) }.mergeNext x := if_pos hused
  obtain ⟨l3, free', habs, hcases⟩ := hl.absorbNext hkeep hmerge
  refine ⟨l3, free', habs, ?_⟩
  rcases hcases with ⟨heq, rfl⟩ | ⟨havail', htotal, hsize⟩
  · rwa [heq]
  · have hlt := hl.total_lt
    have hfits := hl.shape.ring.region.fits
    rw [total_false, total_false] at htotal
    rw [total_false] at hlt
    rw [havail', havail, sub32_eq (by omega) (by omega)]
    omega

/-- The blocks in use when the block `x` has another size. -/
theorem Splits.usedAt (hsplit : Splits h h' (l1 ++ x :: l2) x new) (hused : h.IsUsed x) (z n : Nat) :
    UsedAt h' ((l1 ++ [x]) ++ new :: l2) z n ↔
      (z = x ∧ n = h'.memitemSize x) ∨ (z ≠ x ∧ UsedAt h (l1 ++ x :: l2) z n) := by
  have huse := hsplit.used z
  have hsize := hsplit.others z
  have hunused := hsplit.unused
  unfold UsedAt
  grind

/-- The block is cut, and the rest of it is free. -/
theorem Layout.shrink (hl : Layout h blocks free) (hx : UsedAt h blocks x n) (hsize : newsize + 36 < n) :
    Reallocs h blocks free x newsize (h.shrink x newsize) (some (x + 24)) := by
  obtain ⟨hmem, hused, rfl⟩ := hx
  have hnext := hl.shape.ring.memitemSize_eq hmem
  have hlt := get_lt h .next x
  obtain ⟨l1, l2, rfl⟩ := List.append_of_mem hmem
  obtain ⟨new, hnew⟩ : ∃ new, new = x + newsize + 24 := ⟨_, rfl⟩
  obtain ⟨hloose, hsplit⟩ := hl.toLaid.carve hused (by omega : x + 24 ≤ new) (by omega)
  obtain ⟨h1, hh1⟩ : ∃ h1, h1 = h.insertBlock x new := ⟨_, rfl⟩
  rw [← hh1] at hloose hsplit
  have havail1 : h1.availableSize = h1.bytes free := by
    rw [hsplit.available, hl.available]
    refine (bytes_congr fun y hy => ?_).symm
    obtain ⟨hy, hunused⟩ := (hl.free_iff y).mp hy
    exact hsplit.others y hy fun heq => hunused (heq ▸ hused)
  obtain ⟨l3, free', ⟨hloose2, hright, hreg2, hleft, hsame⟩, havail2⟩ := hloose.shrinkNext havail1
  have hused2 : (h1.shrinkNext new).IsUsed x := by
    rw [hleft x (by simp), hsplit.used x hmem]
    exact hused
  obtain ⟨hlaid, hreg3, hframe⟩ := hloose2.carved hused2 hright
  obtain ⟨h3, hh3⟩ : ∃ h3, h3 = (h1.shrinkNext new).insertFree new := ⟨_, rfl⟩
  rw [← hh3] at hlaid hreg3 hframe
  have heq : h.shrink x newsize = { h3 with availableSize := add32 h3.availableSize (h3.memitemSize new) } := by
    have hptr : add32 (add32 x newsize) memheapSize = new := by
      simp (disch := omega) only [memheapSize, add32_eq, hnew]
    rw [Memheap.shrink, hptr, hh3, hh1]
  have hm : SameMem h3 (h.shrink x newsize) := by
    rw [heq]
    exact sameMem_counters h3 _ _
  have hcut : h1.memitemSize x = newsize := by
    have := hsplit.size
    omega
  refine .some ⟨hlaid.of_mem hm, ?_⟩ (((hsplit.region.trans hreg2).trans hreg3).trans hm.region) (.inl rfl)
    (Nat.le_refl newsize) fun z n => ?_
  · have hbytes : h3.bytes free' = (h1.shrinkNext new).bytes free' :=
      bytes_congr fun y hy => (hframe y (by simpa using hloose2.sub y hy)).2
    have havail : h3.availableSize = (h1.shrinkNext new).availableSize := by
      rw [hh3]
      rfl
    have hle := hlaid.shape.ring.bytes_le (List.nodup_cons.mp hlaid.shape.freeRing.nodup).2 fun y hy =>
      ((hlaid.free_iff y).mp hy).1
    have hfits := hlaid.shape.ring.region.fits
    rw [bytes_cons] at hle
    rw [hm.bytes, bytes_cons, heq, havail, havail2, ← hbytes]
    exact (add32_eq (by omega)).trans (Nat.add_comm ..)
  · rw [hm.usedAt, ← hcut, ← hsplit.usedAt hused, ← hsame]
    unfold UsedAt
    grind

/-! ## A larger block in place -/

/-- The free block after a block in use becomes a part of it. -/
theorem Laid.swallow (hl : Laid h (l1 ++ x :: q :: l2) free) (hx : h.IsUsed x) (hq : ¬ h.IsUsed q) :
    ∃ f1 f2, free = f1 ++ q :: f2 ∧ Laid ((h.removeFree q).removeBlock q) (l1 ++ x :: l2) (f1 ++ f2) ∧
      Merged h ((h.removeFree q).removeBlock q) x q (l1 ++ l2) ∧
      ∀ y ∈ l2.head?, h.IsUsed y := by
  obtain ⟨f1, f2, rfl⟩ := List.append_of_mem ((hl.free_iff q).mpr ⟨by simp, hq⟩)
  obtain ⟨hs1, hk1⟩ := hl.shape.removeFree
  obtain ⟨h1, hh1⟩ : ∃ h1, h1 = h.removeFree q := ⟨_, rfl⟩
  rw [← hh1] at hs1 hk1 ⊢
  have hblock : ∀ y ∈ l1 ++ x :: q :: l2, Node h (l1 ++ x :: q :: l2) y := fun y hy => hl.shape.block hy
  have hprev : h1.get .prev q = x := by
    have hr : Ring h1 ((l1 ++ [x]) ++ q :: l2) := by simpa using hs1.ring
    rw [hr.prev_eq]
    simp
  obtain ⟨hrelink, hk2⟩ := relink_set .next .prev hs1.grid (by decide) (hblock x (by simp))
    (hs1.next (x := q) (by simp)) h1
  have heq : h1.removeBlock q =
      (h1.set .prev (h1.get .next q) x).set .next x (h1.get .next q) := by
    have hle := hs1.ring.le_next (x := q) (by simp)
    have hn := hs1.next (x := q) (by simp)
    simp only [removeBlock]
    rw [hprev, get_set_of_ne hs1.grid hn (hblock q (by simp)) (.inr (by omega)),
      get_set_of_ne hs1.grid hn (hblock q (by simp)) (.inl (by decide)), hprev]
  rw [← heq] at hrelink hk2
  obtain ⟨hs2, hsize, hsizes⟩ := hs1.join hrelink hk2
  have hmem : ∀ y ∈ l1 ++ x :: l2, y ∈ l1 ++ x :: q :: l2 := by grind
  have hsize1 : ∀ y ∈ l1 ++ x :: q :: l2, h1.memitemSize y = h.memitemSize y := fun y hy =>
    hk1.memitemSize (by decide) (hblock y hy)
  have hused : ∀ y ∈ l1 ++ x :: l2, (h1.removeBlock q).IsUsed y ↔ h.IsUsed y := fun y hy => by
    have hnode := hblock y (hmem y hy)
    rw [hk2.isUsed (by decide) hnode, hk1.isUsed (by decide) hnode]
  have hnodup := hl.shape.ring.cycle.nodup
  have hfnodup := hl.shape.freeRing.nodup
  obtain ⟨hleft, hright, -⟩ := List.isChain_append.mp hl.noHoles
  obtain ⟨-, hright⟩ := List.isChain_cons.mp hright
  obtain ⟨hhead, hright⟩ := List.isChain_cons.mp hright
  refine ⟨f1, f2, rfl, ⟨hs2.canonical fun y hy => ?_, fun y => ?_, ?_⟩, ⟨hk1.region.trans hk2.region, ?_, ?_, ?_⟩,
    fun y hy => (hhead y hy).resolve_left hq⟩
  · have hfree := hl.free_iff y
    grind
  · have hfree := hl.free_iff y
    grind
  · refine NoHoles.congr (h := h) (List.isChain_append.mpr ⟨hleft, List.isChain_cons.mpr ⟨?_, hright⟩, ?_⟩) hused
    · exact fun y _ => .inl hx
    · rintro y _ z ⟨⟩
      exact .inr hx
  · rw [hsize, hsize1 x (by simp), hsize1 q (by simp)]
  · intro y hy
    rw [hsizes y hy, hsize1 y (by grind)]
  · intro y hy
    exact hused y (by grind)

/-- The block grows into the free block behind it. -/
theorem Layout.expand (hl : Layout h (l1 ++ x :: q :: l2) free) (hx : UsedAt h (l1 ++ x :: q :: l2) x n)
    (hq : ¬ h.IsUsed q) (hsize : n < newsize) (hfit : newsize + 12 < h.memitemSize q + n) :
    Reallocs h (l1 ++ x :: q :: l2) free x newsize (h.expand x q (x + 24) n newsize) (some (x + 24)) := by
  obtain ⟨hmem, hused, rfl⟩ := hx
  obtain ⟨h0, hh0⟩ : ∃ h0, h0 = h.setAvailable (sub32 h.availableSize (sub32 newsize (h.memitemSize x))) := ⟨_, rfl⟩
  have hm0 : SameMem h h0 := hh0 ▸ sameMem_setAvailable h _
  obtain ⟨f1, f2, rfl, hl2, hm, hhead⟩ := (hl.toLaid.of_mem hm0).swallow ((hm0.isUsed x).mpr hused)
    ((hm0.isUsed q).not.mpr hq)
  obtain ⟨h2, hh2⟩ : ∃ h2, h2 = (h0.removeFree q).removeBlock q := ⟨_, rfl⟩
  rw [← hh2] at hl2 hm
  have hused2 : ∀ y ∈ l1 ++ x :: l2, h2.IsUsed y ↔ h.IsUsed y := fun y hy => by
    rw [hm.used y (by grind), hm0.isUsed]
  have hsizes2 : ∀ y ∈ l1 ++ l2, h2.memitemSize y = h.memitemSize y := fun y hy => by
    rw [hm.sizes y hy, hm0.memitemSize]
  have hsize2 := hm.size
  rw [hm0.memitemSize, hm0.memitemSize] at hsize2
  have hnext := hl2.shape.ring.memitemSize_eq (x := x) (by simp)
  have hlt := get_lt h2 .next x
  obtain ⟨new, hnew⟩ : ∃ new, new = x + 24 + newsize := ⟨_, rfl⟩
  have hx2 : h2.IsUsed x := (hused2 x (by simp)).mpr hused
  obtain ⟨hloose, hsplit⟩ := hl2.carve hx2 (by omega : x + 24 ≤ new) (by omega)
  obtain ⟨h3, hh3⟩ : ∃ h3, h3 = h2.insertBlock x new := ⟨_, rfl⟩
  rw [← hh3] at hloose hsplit
  have hx3 : h3.IsUsed x := (hsplit.used x (by simp)).mpr hx2
  obtain ⟨hlaid, hreg, hframe⟩ := hloose.carved hx3 fun y hy => by
    have hy' : y ∈ l1 ++ x :: l2 := by simp [List.mem_of_head? hy]
    rw [hsplit.used y hy', hm.used y (by simp [List.mem_of_head? hy])]
    exact hhead y hy
  have heq : h.expand x q (x + 24) (h.memitemSize x) newsize = h3.insertFree new := by
    rw [Memheap.expand, add32_eq (by omega), ← hnew, hh3, hh2, hh0]
  have hcut : h3.memitemSize x = newsize := by
    have := hsplit.size
    omega
  rw [heq]
  refine .some ⟨hlaid, ?_⟩ (((hm0.region.trans hm.region).trans hsplit.region).trans hreg) (.inl rfl)
    (Nat.le_refl newsize) fun z n => ?_
  · have hfree := hl.free_iff
    have hfnodup := hl.shape.freeRing.nodup
    have hbytes : h.bytes (f1 ++ q :: f2) = h.bytes (f1 ++ f2) + h.memitemSize q := by
      rw [bytes_append, bytes_append, bytes_cons]
      omega
    have hsame : (h3.insertFree new).bytes (f1 ++ f2) = h.bytes (f1 ++ f2) := bytes_congr fun y hy => by
      have hyx : y ≠ x := fun heq => ((hfree y).mp (by grind)).2 (heq ▸ hused)
      have hy' := (hl2.free_iff y).mp hy
      rw [(hframe y (by grind)).2, hsplit.others y hy'.1 hyx, hsizes2 y (by grind)]
    have hnewSize : (h3.insertFree new).memitemSize new + newsize = h.memitemSize q + h.memitemSize x := by
      rw [(hframe new (by simp)).2]
      have := hsplit.rest
      omega
    have hle := hl.shape.ring.bytes_le (List.nodup_cons.mp hfnodup).2 fun y hy => ((hfree y).mp hy).1
    have hfits := hl.shape.ring.region.fits
    have havail : (h3.insertFree new).availableSize =
        sub32 h.availableSize (sub32 newsize (h.memitemSize x)) := by
      rw [hh3, hh2, hh0]
      rfl
    rw [havail, hl.available, bytes_cons, hsame]
    simp (disch := omega) only [sub32_eq]
    omega
  · have hcarved : UsedAt (h3.insertFree new) (l1 ++ x :: new :: l2) z n ↔
        UsedAt h3 ((l1 ++ [x]) ++ new :: l2) z n := by
      unfold UsedAt
      grind
    rw [hcarved, hsplit.usedAt hx2, hcut]
    unfold UsedAt
    grind

/-! ## Another block -/

/-- The rounded sizes stay as they are. -/
theorem roundSize_idem (size : Nat) : roundSize (roundSize size) = roundSize size := by
  have hle := rtAlign_le size
  have hmod := rtAlign_mod_four size
  have heq : rtAlign (rtAlign size) = rtAlign size := by
    rw [rtAlign_eq (rtAlign size), add32_eq (by unfold size32; omega)]
    omega
  unfold roundSize
  split
  · decide
  · rw [heq]
    simp_all

theorem roundSize_le (hsize : size ≤ 0xfffffffc) : size ≤ roundSize size := by
  have hle := le_rtAlign hsize
  unfold roundSize memheapMinialloc
  split <;> omega

theorem roundSize_le_of_le (hsize : size ≤ 0xfffffff0) : roundSize size ≤ 0xfffffff0 := by
  unfold roundSize memheapMinialloc
  rw [rtAlign_eq, add32_eq (by unfold size32; omega)]
  split <;> omega

/-- The data moves to a block that is allocated for it. -/
theorem Layout.move (hl : Layout h blocks free) (hx : UsedAt h blocks x n) (hsize : n < newsize)
    (hround : roundSize newsize = newsize)
    (hbehind : h.IsUsed (h.get .next x) ∨ h.memitemSize (h.get .next x) + n ≤ newsize + 12) :
    ∃ h' result, h.move (x + 24) n newsize = some (h', result) ∧ Reallocs h blocks free x newsize h' result := by
  obtain ⟨h1, result, hrun, halloc⟩ := hl.rtMemheapAlloc newsize
  rw [hround] at halloc
  cases halloc with
  | none hfull =>
    refine ⟨h, none, ?_, .none ?_⟩
    · simp only [Memheap.move, hrun]
      rfl
    · obtain ⟨-, -, rfl⟩ := hx
      rintro (hle | ⟨hfree, hlt⟩ | hroom)
      · omega
      · exact Nat.not_le_of_lt hlt (hbehind.resolve_left hfree)
      · exact hfull hroom
  | @some _ blocks1 free1 y m hl1 hreg1 hy hm hused1 =>
    have hyx : y ≠ x := fun heq => ((hl.free_iff y).mp hy).2 (heq ▸ hx.2.1)
    have hy1 : UsedAt h1 blocks1 y m := (hused1 y m).mpr (.inl ⟨rfl, rfl⟩)
    obtain ⟨h2, hh2⟩ : ∃ h2 : Memheap, h2 = { h1 with
      mem := copy h1.mem (y + 24) (x + 24) (if n < newsize then n else newsize) } := ⟨_, rfl⟩
    have ho : SameOutside h1 h2 y := by
      rw [hh2]
      refine ⟨⟨rfl, rfl, rfl, rfl, rfl⟩, rfl, fun a ha => copy_of_apart ?_⟩
      rw [hy1.2.2] at ha
      rw [if_pos hsize]
      omega
    obtain ⟨hl2, hused2⟩ := hl1.of_outside hy1.1 ho
    have hx2 : UsedAt h2 blocks1 x n := (hused2 x n).mpr ((hused1 x n).mpr (.inr hx))
    obtain ⟨h3, blocks3, free3, hfree, hl3, hreg3, hused3⟩ := hl2.rtMemheapFree hx2
    refine ⟨h3, some (y + 24), ?_, .some hl3 ((hreg1.trans ho.region).trans hreg3) (.inr hy) hm fun z k => ?_⟩
    · simp only [Memheap.move, hrun, Option.bind_eq_bind, Option.bind_some, ← hh2, hfree]
      rfl
    · rw [hused3, hused2, hused1]
      grind

/-! ## All paths -/

/-- The branch for a larger size, when the sum with the smallest block does not wrap or is not
computed. -/
theorem Layout.grow (hl : Layout h blocks free) (hx : UsedAt h blocks x n) (hsize : n < newsize)
    (hround : roundSize newsize = newsize) (hle : newsize ≤ 0xfffffff0 ∨ h.IsUsed (h.get .next x)) :
    ∃ h' result, h.grow x (x + 24) n newsize = some (h', result) ∧ Reallocs h blocks free x newsize h' result := by
  have hr := hl.shape.ring
  have hnext := hr.le_next hx.1
  by_cases hused : h.IsUsed (h.get .next x)
  · obtain ⟨h', result, hrun, hres⟩ := hl.move hx hsize hround (.inl hused)
    refine ⟨h', result, ?_, hres⟩
    simp only [Memheap.grow, rtAssert_bind_eq_some]
    exact ⟨by omega, by rw [if_neg (not_not.mpr hused)]; exact hrun⟩
  · have hle := hle.resolve_right hused
    have hmem := hx.1
    obtain ⟨l1, l2, rfl⟩ := List.append_of_mem hmem
    cases l2 with
    | nil =>
      rw [hr.next_eq] at hused
      exact absurd hr.tailUsed hused
    | cons q l2 =>
      have hq : h.get .next x = q := hr.next_eq
      rw [hq] at hused hnext
      have hsum : add32 (h.memitemSize q) n = h.memitemSize q + n := by
        have hqsize := hr.memitemSize_eq (x := q) (by simp)
        have hxsize := hr.memitemSize_eq hx.1
        have hlt := get_lt h .next q
        rw [hx.2.2] at hxsize
        exact add32_eq (by omega)
      have hadd : add32 newsize memheapMinialloc = newsize + 12 := by
        unfold memheapMinialloc
        exact add32_eq (by unfold size32; omega)
      by_cases hfit : newsize + 12 < h.memitemSize q + n
      · refine ⟨_, _, ?_, hl.expand hx hused hsize hfit⟩
        simp only [Memheap.grow, rtAssert_bind_eq_some, hq, if_pos hused, hsum, hadd, if_pos hfit]
        exact ⟨by omega, by omega, rfl⟩
      · obtain ⟨h', result, hrun, hres⟩ := hl.move hx hsize hround (.inr (by rw [hq]; omega))
        refine ⟨h', result, ?_, hres⟩
        simp only [Memheap.grow, rtAssert_bind_eq_some, hq, if_pos hused, hsum, hadd, if_neg hfit]
        exact ⟨by omega, by omega, hrun⟩

/-- The block stays as it is. -/
theorem Layout.reallocs_self (hl : Layout h blocks free) (hx : UsedAt h blocks x n) (hsize : newsize ≤ n) :
    Reallocs h blocks free x newsize h (some (x + 24)) := by
  refine .some hl ⟨rfl, rfl, rfl, rfl, rfl⟩ (.inl rfl) hsize fun z k => ?_
  unfold UsedAt at *
  grind

/-- `rt_memheap_realloc` of a block in use. -/
theorem Layout.rtMemheapRealloc (hl : Layout h blocks free) (hx : UsedAt h blocks x n) (hpos : 0 < newsize)
    (hle : roundSize newsize ≤ 0xfffffff0 ∨ h.IsUsed (h.get .next x)) :
    ∃ h' result, h.rtMemheapRealloc (some (x + 24)) newsize = some (h', result) ∧
      Reallocs h blocks free x (roundSize newsize) h' result := by
  have hr := hl.shape.ring
  have hheader := hr.header_eq hx.1
  have hn := hx.2.2
  simp only [Memheap.rtMemheapRealloc, if_neg (Nat.pos_iff_ne_zero.mp hpos), hheader, hn]
  by_cases hgrow : n < roundSize newsize
  · rw [if_pos hgrow]
    exact hl.grow hx hgrow (roundSize_idem newsize) hle
  · have hxle := hr.memitemSize_le hx.1
    have hfits := hr.region.fits
    have hsum : add32 (add32 (roundSize newsize) memheapSize) memheapMinialloc = roundSize newsize + 36 := by
      simp (disch := omega) only [memheapSize, memheapMinialloc, add32_eq]
    rw [if_neg hgrow, hsum]
    by_cases hsplit : n ≤ roundSize newsize + 36
    · rw [if_pos hsplit]
      exact ⟨h, _, rfl, hl.reallocs_self hx (by omega)⟩
    · rw [if_neg hsplit]
      exact ⟨_, _, rfl, hl.shrink hx (by omega)⟩

end RtThread.Memheap
