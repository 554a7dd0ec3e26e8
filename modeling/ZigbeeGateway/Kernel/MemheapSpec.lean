-- SUMMARY: What alloc and free of memheap.c do to the layout.
import Mathlib.Data.List.Chain
import ZigbeeGateway.Kernel.MemheapLayout

/-!
# The functions of a memory heap

One lemma for each function: from a heap with a layout it returns, all its assertions hold, and the
new heap has a layout in which the blocks in use are those before, except for the one that the
function is about. Inside of a function one block `x` may be unused without having its place in the
layout yet (`Loose`): its neighbours may be unused as well, and it may be missing on the free list.
-/

namespace RtThread.Memheap

open Word ByteMem Cyclic

variable {h h' : Memheap} {G : Nat → Prop} {c : Bool} {n p q x y size : Nat}
  {blocks blocks' free free' l l1 l2 f1 f2 : List Nat}

/-! ## Sizes -/

/-- The data bytes of some blocks. -/
def bytes (h : Memheap) (l : List Nat) : Nat := (l.map h.memitemSize).sum

@[simp] theorem bytes_nil : h.bytes [] = 0 := rfl

@[simp] theorem bytes_cons : h.bytes (x :: l) = h.memitemSize x + h.bytes l := rfl

theorem bytes_append : h.bytes (l1 ++ l2) = h.bytes l1 + h.bytes l2 := by
  simp [bytes]

theorem bytes_congr (hsize : ∀ y ∈ l, h'.memitemSize y = h.memitemSize y) : h'.bytes l = h.bytes l := by
  rw [bytes, bytes, List.map_congr_left hsize]

/-- One block gets larger. -/
theorem bytes_grow {d : Nat} (hx : x ∈ l) (hl : l.Nodup)
    (hsize : h'.memitemSize x = h.memitemSize x + d)
    (hother : ∀ y ∈ l, y ≠ x → h'.memitemSize y = h.memitemSize y) : h'.bytes l = h.bytes l + d := by
  obtain ⟨l1, l2, rfl⟩ := List.append_of_mem hx
  have hl1 : h'.bytes l1 = h.bytes l1 := bytes_congr fun y hy => hother y (by simp [hy]) (by grind)
  have hl2 : h'.bytes l2 = h.bytes l2 := bytes_congr fun y hy => hother y (by simp [hy]) (by grind)
  rw [bytes_append, bytes_append, bytes_cons, bytes_cons, hl1, hl2, hsize]
  omega

/-- The blocks and their headers fill the pool up to the tailer. -/
theorem Ring.bytes_suffix (hr : Ring h (l1 ++ l2)) :
    h.bytes l2 + 24 * l2.length + l2.headD h.tail = h.tail := by
  induction l2 generalizing l1 with
  | nil => simp [bytes]
  | cons x l2 ih =>
    have hr' : Ring h ((l1 ++ [x]) ++ l2) := by simpa using hr
    have hsize := hr.memitemSize_eq (x := x) (by simp)
    have hrest := ih hr'
    rw [hr.next_eq] at hsize
    rw [bytes_cons, List.length_cons, List.headD_cons]
    omega

theorem Ring.bytes_le (hr : Ring h blocks) (hl : l.Nodup) (hsub : ∀ y ∈ l, y ∈ blocks) :
    h.bytes l + 24 * l.length + 24 ≤ h.poolSize := by
  obtain ⟨l', hperm, hsublist⟩ := List.subperm_of_subset hl hsub
  have hall : Ring h ([] ++ blocks) := hr
  have hpool := hall.bytes_suffix
  have hhead : blocks.headD h.tail = h.startAddr := by
    rw [List.headD_eq_head?_getD, hr.first]
    rfl
  have htail := hr.tail_add
  have hbytes : h.bytes l ≤ h.bytes blocks := by
    rw [bytes, ← (hperm.map h.memitemSize).sum_eq]
    exact (hsublist.map h.memitemSize).sum_le_sum (by simp)
  have hlength : l.length ≤ blocks.length := by
    rw [← hperm.length_eq]
    exact hsublist.length_le
  omega

/-- Only the counters may differ. -/
structure SameMem (h h' : Memheap) : Prop where
  mem : h'.mem = h.mem
  region : SameRegion h h'

theorem sameMem_counters (h : Memheap) (a m : Nat) :
    SameMem h { h with availableSize := a, maxUsedSize := m } := ⟨rfl, ⟨rfl, rfl, rfl, rfl, rfl⟩⟩

namespace SameMem

theorem get (hm : SameMem h h') (fld : Field) (y : Nat) : h'.get fld y = h.get fld y := by
  rw [Memheap.get, Memheap.get, hm.mem]

theorem isUsed (hm : SameMem h h') (y : Nat) : h'.IsUsed y ↔ h.IsUsed y := by
  rw [IsUsed, IsUsed, hm.get]

theorem memitemSize (hm : SameMem h h') (y : Nat) : h'.memitemSize y = h.memitemSize y := by
  rw [Memheap.memitemSize, Memheap.memitemSize, hm.get]

theorem bytes (hm : SameMem h h') (l : List Nat) : h'.bytes l = h.bytes l :=
  bytes_congr fun y _ => hm.memitemSize y

end SameMem

/-! ## Layouts -/

/-- No two neighbours are both unused. -/
def NoHoles (h : Memheap) (l : List Nat) : Prop := l.IsChain fun x y => h.IsUsed x ∨ h.IsUsed y

theorem NoHoles.congr (hl : NoHoles h l) (hused : ∀ y ∈ l, h'.IsUsed y ↔ h.IsUsed y) : NoHoles h' l := by
  refine List.IsChain.imp_of_mem_imp (fun x y hx hy hxy => ?_) hl
  rwa [hused x hx, hused y hy]

/-- The block `y` is in use and has `n` bytes. -/
def UsedAt (h : Memheap) (blocks : List Nat) (y n : Nat) : Prop :=
  y ∈ blocks ∧ h.IsUsed y ∧ h.memitemSize y = n

/-- The heap between two calls, except for the counter. -/
structure Laid (h : Memheap) (blocks free : List Nat) : Prop where
  shape : Shape (Node h blocks) h blocks free
  free_iff : ∀ x, x ∈ free ↔ x ∈ blocks ∧ ¬ h.IsUsed x
  noHoles : NoHoles h blocks

/-- The heap between two calls. -/
structure Layout (h : Memheap) (blocks free : List Nat) : Prop extends Laid h blocks free where
  available : h.availableSize = h.bytes free

/-- The block `x` is unused and has no place in the layout yet. It is on the free list when `c` is
true. -/
structure Loose (c : Bool) (h : Memheap) (l1 : List Nat) (x : Nat) (l2 free : List Nat) : Prop where
  shape : Shape (Node h (l1 ++ x :: l2)) h (l1 ++ x :: l2) free
  unused : ¬ h.IsUsed x
  free_iff : ∀ y, y ∈ free ↔ (y ∈ l1 ++ l2 ∧ ¬ h.IsUsed y) ∨ (y = x ∧ c = true)
  left : NoHoles h l1
  right : NoHoles h l2

theorem SameMem.usedAt (hm : SameMem h h') : UsedAt h' blocks y n ↔ UsedAt h blocks y n := by
  rw [UsedAt, UsedAt, hm.isUsed, hm.memitemSize]

theorem Laid.of_mem (hl : Laid h blocks free) (hm : SameMem h h') : Laid h' blocks free := by
  have hk : Keeps (Node h blocks) (fun _ => True) h h' := .of_mem hm.mem hm.region
  refine ⟨(hl.shape.congr hk fun _ => trivial).canonical fun y hy => ((hl.free_iff y).mp hy).1, fun y => ?_, ?_⟩
  · rw [hm.isUsed, hl.free_iff]
  · exact hl.noHoles.congr fun y _ => hm.isUsed y

namespace Loose

theorem sub (hl : Loose c h l1 x l2 free) : ∀ y ∈ free, y ∈ l1 ++ x :: l2 := by
  intro y hy
  rcases (hl.free_iff y).mp hy with ⟨hmem, -⟩ | ⟨rfl, -⟩
  · grind
  · simp

theorem noHoles (hl : Loose c h l1 x l2 free) (hleft : ∀ y ∈ l1.getLast?, h.IsUsed y)
    (hright : ∀ y ∈ l2.head?, h.IsUsed y) : NoHoles h (l1 ++ x :: l2) := by
  refine List.isChain_append.mpr ⟨hl.left, List.isChain_cons.mpr ⟨fun y hy => .inr (hright y hy), hl.right⟩, ?_⟩
  rintro y hy z ⟨⟩
  exact .inl (hleft y hy)

/-- The block is put on the free list, and its neighbours are in use. -/
theorem insertFree (hl : Loose false h l1 x l2 free) (hleft : ∀ y ∈ l1.getLast?, h.IsUsed y)
    (hright : ∀ y ∈ l2.head?, h.IsUsed y) :
    Laid (h.insertFree x) (l1 ++ x :: l2) (x :: free) ∧ SameRegion h (h.insertFree x) ∧
      ∀ y ∈ l1 ++ x :: l2, ((h.insertFree x).IsUsed y ↔ h.IsUsed y) ∧
        (h.insertFree x).memitemSize y = h.memitemSize y := by
  have hnodup := hl.shape.ring.cycle.nodup
  have hxf : x ∉ h.freeList :: free := by
    rintro (_ | ⟨_, hx⟩)
    · have hheader := hl.shape.ring.region.header
      have hge := hl.shape.ring.ge_start (x := h.freeList) (by simp)
      have hle := hl.shape.ring.le_tail (x := h.freeList) (by simp)
      have htail := hl.shape.ring.tail_add
      omega
    · rcases (hl.free_iff x).mp hx with ⟨hmem, -⟩ | ⟨-, hc⟩
      · grind
      · cases hc
  obtain ⟨hs, hk⟩ := hl.shape.insertFree (hl.shape.block (by simp)) hxf
  have hused : ∀ y ∈ l1 ++ x :: l2, (h.insertFree x).IsUsed y ↔ h.IsUsed y := fun y hy =>
    hk.isUsed (by decide) (hl.shape.block hy)
  refine ⟨⟨hs.canonical ?_, fun y => ?_, ?_⟩, hk.region, fun y hy => ⟨hused y hy, ?_⟩⟩
  · intro y hy
    rcases List.mem_cons.mp hy with rfl | hy
    · simp
    · exact hl.sub y hy
  · have hunused := hl.unused
    have hfree := hl.free_iff y
    grind
  · exact (hl.noHoles hleft hright).congr hused
  · exact hk.memitemSize (by decide) (hl.shape.block hy)

end Loose

/-- The block `q` has become a part of the block `x`. -/
structure Merged (h h' : Memheap) (x q : Nat) (others : List Nat) : Prop where
  region : SameRegion h h'
  size : h'.memitemSize x = h.memitemSize x + 24 + h.memitemSize q
  sizes : ∀ y ∈ others, h'.memitemSize y = h.memitemSize y
  used : ∀ y ∈ x :: others, h'.IsUsed y ↔ h.IsUsed y

namespace Loose

/-- The unused block after `x` becomes a part of it. -/
theorem mergeNext (hl : Loose c h l1 x (q :: l2) free) (hq : ¬ h.IsUsed q) :
    ∃ f1 f2, free = f1 ++ q :: f2 ∧ Loose c (h.mergeNext x) l1 x l2 (f1 ++ f2) ∧
      Merged h (h.mergeNext x) x q (l1 ++ l2) := by
  have hs := hl.shape
  have hqf : q ∈ free := (hl.free_iff q).mpr (.inl ⟨by simp, hq⟩)
  obtain ⟨f1, f2, rfl⟩ := List.append_of_mem hqf
  have hnext : h.get .next x = q := hs.ring.next_eq
  have hx := hs.block (x := x) (by simp)
  have hn := hs.next (x := q) (by simp)
  obtain ⟨hrelink, hk1⟩ := relink_set .next .prev hs.grid (by decide) hx hn h
  obtain ⟨hs1, hsize, hsizes⟩ := hs.join hrelink hk1
  obtain ⟨hs2, hk2⟩ := hs1.removeFree
  have heq : h.mergeNext x =
      ((h.set .prev (h.get .next q) x).set .next x (h.get .next q)).removeFree q := by
    simp only [Memheap.mergeNext, hnext]
    rw [get_set_of_ne hs.grid hn (hs.block (by simp)) (.inl (by decide))]
  rw [← heq] at hs2 hk2
  have hmem : ∀ y ∈ l1 ++ x :: l2, Node h (l1 ++ x :: q :: l2) y := fun y hy => hs.block (by grind)
  have hused : ∀ y ∈ l1 ++ x :: l2, (h.mergeNext x).IsUsed y ↔ h.IsUsed y := fun y hy =>
    (hk2.isUsed (by decide) (hmem y hy)).trans (hk1.isUsed (by decide) (hmem y hy))
  have hsame : ∀ y ∈ l1 ++ x :: l2, (h.mergeNext x).memitemSize y =
      ((h.set .prev (h.get .next q) x).set .next x (h.get .next q)).memitemSize y := fun y hy =>
    hk2.memitemSize (by decide) (hmem y hy)
  have hnodup := hs.ring.cycle.nodup
  have hfnodup := hs.freeRing.nodup
  refine ⟨f1, f2, rfl, ⟨hs2.canonical ?_, ?_, ?_, ?_, ?_⟩, hk1.region.trans hk2.region, ?_, ?_, ?_⟩
  · intro y hy
    have := hl.sub y
    grind
  · rw [hused x (by simp)]
    exact hl.unused
  · intro y
    have hfree := hl.free_iff y
    grind
  · exact hl.left.congr fun y hy => hused y (by simp [hy])
  · exact NoHoles.congr (List.isChain_cons.mp hl.right).2 fun y hy => hused y (by simp [hy])
  · rw [hsame x (by simp), hsize]
  · intro y hy
    rw [hsame y (by grind), hsizes y hy]
  · intro y hy
    exact hused y (by grind)

/-- The block `x` becomes a part of the unused block before it. -/
theorem mergePrev (hl : Loose false h (l1 ++ [p]) x l2 free) (hp : ¬ h.IsUsed p) :
    Loose true (h.mergePrev x) l1 p l2 free ∧ Merged h (h.mergePrev x) p x (l1 ++ l2) ∧
      (h.mergePrev x).get .prev x = p ∧ ∀ y ∈ l1.getLast?, (h.mergePrev x).IsUsed y := by
  have hs : Shape (Node h (l1 ++ p :: x :: l2)) h (l1 ++ p :: x :: l2) free := by
    simpa using hl.shape
  have hprev : h.get .prev x = p := by
    rw [hl.shape.ring.prev_eq]
    simp
  have hpx : x ≠ p := by
    have hnodup := hs.ring.cycle.nodup
    grind
  have hGp := hs.block (x := p) (by simp)
  have hGx := hs.block (x := x) (by simp)
  have hn := hs.next (x := x) (by simp)
  obtain ⟨h0, hh0⟩ : ∃ h0 : Memheap, h0 = { h with availableSize := add32 h.availableSize memheapSize } :=
    ⟨_, rfl⟩
  have hget : ∀ fld y, h0.get fld y = h.get fld y := fun fld y => by rw [hh0]; rfl
  have heq : h.mergePrev x = (h0.set .next p (h.get .next x)).set .prev (h.get .next x) p := by
    have hnext1 : (h0.set .next p (h.get .next x)).get .next x = h.get .next x := by
      rw [get_set_of_ne hs.grid hGp hGx (.inr hpx), hget]
    have hprev1 : (h0.set .next p (h.get .next x)).get .prev x = p := by
      rw [get_set_of_ne hs.grid hGp hGx (.inl (by decide)), hget, hprev]
    simp only [Memheap.mergePrev, ← hh0, hget, hprev, hnext1, hprev1]
  obtain ⟨hrelink, hk1⟩ := relink_set' .next .prev hs.grid (by decide) hGp hn h0
  have hk : Keeps (Node h (l1 ++ p :: x :: l2)) (OffList .next .prev) h (h.mergePrev x) := by
    rw [heq]
    exact Keeps.trans ⟨by rw [hh0]; exact ⟨rfl, rfl, rfl, rfl, rfl⟩, fun fld y _ _ => hget fld y⟩ hk1
  rw [← heq, funext (hget .next), funext (hget .prev)] at hrelink
  obtain ⟨hs1, hsize, hsizes⟩ := hs.join hrelink hk
  have hmem : ∀ y ∈ l1 ++ p :: l2, Node h (l1 ++ p :: x :: l2) y := fun y hy => hs.block (by grind)
  have hused : ∀ y ∈ l1 ++ p :: l2, (h.mergePrev x).IsUsed y ↔ h.IsUsed y := fun y hy =>
    hk.isUsed (by decide) (hmem y hy)
  obtain ⟨hleft, -, hlast⟩ := List.isChain_append.mp hl.left
  refine ⟨⟨hs1.canonical ?_, ?_, ?_, ?_, ?_⟩, ⟨hk.region, hsize, hsizes, ?_⟩, ?_, ?_⟩
  · intro y hy
    have := hl.free_iff y
    grind
  · rwa [hused p (by simp)]
  · intro y
    have hfree := hl.free_iff y
    grind
  · exact NoHoles.congr hleft fun y hy => hused y (by simp [hy])
  · exact hl.right.congr fun y hy => hused y (by simp [hy])
  · intro y hy
    exact hused y (by grind)
  · have hle := hs.ring.le_next (x := x) (by simp)
    rw [hrelink.prev_of_ne x hGx (by omega), hprev]
  · intro y hy
    rw [hused y (List.mem_append_left _ (List.mem_of_getLast? hy))]
    exact (hlast y hy p (by simp)).resolve_right hp

theorem of_mem (hl : Loose c h l1 x l2 free) (hm : SameMem h h') : Loose c h' l1 x l2 free := by
  have hk : Keeps (Node h (l1 ++ x :: l2)) (fun _ => True) h h' := .of_mem hm.mem hm.region
  refine ⟨(hl.shape.congr hk fun _ => trivial).canonical hl.sub, ?_, fun y => ?_, ?_, ?_⟩
  · rw [hm.isUsed]
    exact hl.unused
  · rw [hm.isUsed, hl.free_iff]
  · exact hl.left.congr fun y _ => hm.isUsed y
  · exact hl.right.congr fun y _ => hm.isUsed y

/-- The unused bytes, with those of the loose block. -/
def total (c : Bool) (h : Memheap) (x : Nat) (free : List Nat) : Nat :=
  h.bytes free + if c then 0 else h.memitemSize x

@[simp] theorem total_false : total false h x free = h.bytes free + h.memitemSize x := by
  simp [total]

@[simp] theorem total_true : total true h x free = h.bytes free := by
  simp [total]

theorem mem_iff (hl : Loose c h l1 x l2 free) : x ∈ free ↔ c = true := by
  have hnodup := hl.shape.ring.cycle.nodup
  rw [hl.free_iff]
  grind

theorem total_lt (hl : Loose c h l1 x l2 free) : total c h x free + 24 ≤ h.poolSize := by
  have hnodup := (List.nodup_cons.mp hl.shape.freeRing.nodup).2
  cases c with
  | true =>
    have hle := hl.shape.ring.bytes_le hnodup hl.sub
    rw [total_true]
    omega
  | false =>
    have hx : x ∉ free := fun hx => by simpa using hl.mem_iff.mp hx
    have hle := hl.shape.ring.bytes_le (List.nodup_cons.mpr ⟨hx, hnodup⟩) fun y hy => by
      rcases List.mem_cons.mp hy with rfl | hy
      · simp
      · exact hl.sub y hy
    rw [bytes_cons] at hle
    rw [total_false]
    omega

/-- A merge with the block behind makes a header available. -/
theorem total_mergeNext (hl : Loose c h l1 x (q :: l2) (f1 ++ q :: f2)) (hm : Merged h h' x q (l1 ++ l2)) :
    total c h' x (f1 ++ f2) = total c h x (f1 ++ q :: f2) + 24 := by
  have hbytes : h.bytes (f1 ++ q :: f2) = h.bytes (f1 ++ f2) + h.memitemSize q := by
    rw [bytes_append, bytes_append, bytes_cons]
    omega
  have hfnodup := (List.nodup_cons.mp hl.shape.freeRing.nodup).2
  have hother : ∀ y ∈ f1 ++ f2, y ≠ x → h'.memitemSize y = h.memitemSize y := by
    intro y hy hyx
    have hfree := hl.free_iff y
    exact hm.sizes y (by grind)
  have hmem := hl.mem_iff
  have hxq : x ≠ q := by
    have hnodup := hl.shape.ring.cycle.nodup
    grind
  cases c with
  | true =>
    have hgrow := bytes_grow (x := x) (l := f1 ++ f2) (by grind) (by grind) (hm.size.trans (Nat.add_assoc ..)) hother
    rw [total_true, total_true]
    omega
  | false =>
    have hsame : h'.bytes (f1 ++ f2) = h.bytes (f1 ++ f2) := bytes_congr fun y hy => hother y hy (by grind)
    have hsize := hm.size
    rw [total_false, total_false]
    omega

end Loose

/-- A merge with the block before makes a header available. -/
theorem Loose.total_mergePrev (hl : Loose false h (l1 ++ [p]) x l2 free) (hp : p ∈ free)
    (hm : Merged h h' p x (l1 ++ l2)) : Loose.total true h' p free = Loose.total false h x free + 24 := by
  have hnodup := (List.nodup_cons.mp hl.shape.freeRing.nodup).2
  have hgrow : h'.bytes free = h.bytes free + (24 + h.memitemSize x) := by
    refine bytes_grow hp hnodup (hm.size.trans (Nat.add_assoc ..)) fun y hy hyp => hm.sizes y ?_
    have hfree := hl.free_iff y
    grind
  rw [Loose.total_true, Loose.total_false]
  omega

/-- The blocks in use are not touched by a merge. -/
theorem Merged.sameUsed (hm : Merged h h' x q (l1 ++ l2)) (hx : ¬ h.IsUsed x) (hq : ¬ h.IsUsed q) (y n : Nat) :
    UsedAt h' (l1 ++ x :: l2) y n ↔ UsedAt h (l1 ++ x :: q :: l2) y n := by
  have hused := hm.used y
  have hsize := hm.sizes y
  unfold UsedAt
  grind

namespace Loose

/-- The counter is set, and the unused block after `x` becomes a part of it. -/
theorem absorb {a : Nat} (hl : Loose c h l1 x (q :: l2) free) (hq : ¬ h.IsUsed q)
    (heq : h' = { h with availableSize := a }.mergeNext x) :
    ∃ f1 f2, free = f1 ++ q :: f2 ∧ Loose c h' l1 x l2 (f1 ++ f2) ∧ Merged h h' x q (l1 ++ l2) ∧
      (∀ y ∈ l2.head?, h'.IsUsed y) ∧ h'.availableSize = a := by
  obtain ⟨h0, hh0⟩ : ∃ h0 : Memheap, h0 = { h with availableSize := a } := ⟨_, rfl⟩
  have hm0 : SameMem h h0 := hh0 ▸ sameMem_counters h _ _
  obtain ⟨f1, f2, hfree, hl', hm⟩ := (hl.of_mem hm0).mergeNext ((hm0.isUsed q).not.mpr hq)
  rw [hh0, ← heq] at hl'
  have hmerged : Merged h h' x q (l1 ++ l2) := by
    obtain ⟨hreg, hsize, hsizes, hused⟩ := hm
    rw [← hh0] at heq
    rw [← heq] at hreg hsize hsizes hused
    simp only [hm0.memitemSize, hm0.isUsed] at hsize hsizes hused
    exact ⟨hm0.region.trans hreg, hsize, hsizes, hused⟩
  refine ⟨f1, f2, hfree, hl', hmerged, fun y hy => ?_, heq ▸ rfl⟩
  rw [hmerged.used y (by simp [List.mem_of_head? hy])]
  exact ((List.isChain_cons.mp hl.right).1 y hy).resolve_left hq

/-- The blocks `l2` after the unused block `x` became `l3`, which begin with a block in use. -/
structure Absorbs (c : Bool) (h h' : Memheap) (l1 : List Nat) (x : Nat) (l2 l3 free' : List Nat) : Prop where
  loose : Loose c h' l1 x l3 free'
  right : ∀ y ∈ l3.head?, h'.IsUsed y
  region : SameRegion h h'
  left : ∀ y ∈ l1, h'.IsUsed y ↔ h.IsUsed y
  same : ∀ y n, UsedAt h' (l1 ++ x :: l3) y n ↔ UsedAt h (l1 ++ x :: l2) y n

/-- The next item is merged if it is free, and the counter is set then: what `rt_memheap_free` and
`rt_memheap_realloc` share. -/
theorem absorbNext {a : Nat} (hl : Loose c h l1 x l2 free)
    (hkeep : h.IsUsed (h.get .next x) → h' = h)
    (hmerge : ¬ h.IsUsed (h.get .next x) → h' = { h with availableSize := a }.mergeNext x) :
    ∃ l3 free', Absorbs c h h' l1 x l2 l3 free' ∧
      ((h' = h ∧ free' = free) ∨
        (h'.availableSize = a ∧ total c h' x free' = total c h x free + 24 ∧
          h'.memitemSize x = h.memitemSize x + 24 + h.memitemSize (h.get .next x))) := by
  have hnext := hl.shape.ring.next_eq
  by_cases hused : h.IsUsed (h.get .next x)
  · obtain rfl := hkeep hused
    refine ⟨l2, free, ⟨hl, fun y hy => ?_, ⟨rfl, rfl, rfl, rfl, rfl⟩, fun _ _ => Iff.rfl,
      fun _ _ => Iff.rfl⟩, .inl ⟨rfl, rfl⟩⟩
    obtain ⟨l3, rfl⟩ := List.head?_eq_some_iff.mp hy
    rw [hnext] at hused
    exact hused
  · -- the tailer is in use, so the next header is the one of a block
    cases l2 with
    | nil =>
      rw [hnext] at hused
      exact absurd hl.shape.ring.tailUsed hused
    | cons q l2 =>
      have hq : h.get .next x = q := hnext
      have heq := hmerge hused
      rw [hq] at hused ⊢
      obtain ⟨f1, f2, rfl, hl', hm, hright, havail⟩ := hl.absorb hused heq
      exact ⟨l2, f1 ++ f2, ⟨hl', hright, hm.region, fun y hy => hm.used y (by simp [hy]),
        hm.sameUsed hl.unused hused⟩, .inr ⟨havail, hl.total_mergeNext hm, hm.size⟩⟩

/-- The part of `rt_memheap_free` that looks at the next block. -/
theorem freeNext (hl : Loose c h l1 x l2 free) (havail : h.availableSize = total c h x free) :
    ∃ l3 free', Absorbs c h (h.freeNext x) l1 x l2 l3 free' ∧
      (h.freeNext x).availableSize = total c (h.freeNext x) x free' := by
  have hkeep (hused : h.IsUsed (h.get .next x)) : h.freeNext x = h := if_neg (not_not.mpr hused)
  have hmerge (hused : ¬ h.IsUsed (h.get .next x)) : h.freeNext x =
      { h with availableSize := add32 h.availableSize memheapSize }.mergeNext x := if_pos hused
  obtain ⟨l3, free', habs, hcases⟩ := hl.absorbNext hkeep hmerge
  refine ⟨l3, free', habs, ?_⟩
  rcases hcases with ⟨heq, rfl⟩ | ⟨havail', htotal, -⟩
  · rwa [heq]
  · have hlt := habs.loose.total_lt
    have hfits := habs.loose.shape.ring.region.fits
    rw [havail', havail, memheapSize, add32_eq (by omega)]
    omega

/-- The part of `rt_memheap_free` after the block was marked. -/
theorem release (hl : Loose false h l1 x l2 free) (havail : h.availableSize = total false h x free) :
    ∃ blocks' free', Layout (h.release x) blocks' free' ∧ SameRegion h (h.release x) ∧
      ∀ y n, UsedAt (h.release x) blocks' y n ↔ UsedAt h (l1 ++ x :: l2) y n := by
  have hprev := hl.shape.ring.prev_eq
  by_cases hused : h.IsUsed (h.get .prev x)
  · have heq : h.release x = (h.freeNext x).insertFree x := if_neg (not_not.mpr hused)
    obtain ⟨l3, free', ⟨hl', hright, hreg, hleft, hsame⟩, havail'⟩ := hl.freeNext havail
    have hlast : ∀ y ∈ l1.getLast?, (h.freeNext x).IsUsed y := by
      intro y hy
      rw [hleft y (List.mem_of_getLast? hy)]
      rw [hprev, List.getLastD_eq_getLast?, hy] at hused
      exact hused
    obtain ⟨hlaid, hreg', hframe⟩ := hl'.insertFree hlast hright
    rw [heq]
    refine ⟨l1 ++ x :: l3, x :: free', ⟨hlaid, ?_⟩, hreg.trans hreg', fun y n => ?_⟩
    · have hbytes : ((h.freeNext x).insertFree x).bytes (x :: free') = (h.freeNext x).bytes (x :: free') := by
        refine bytes_congr fun y hy => (hframe y ?_).2
        rcases List.mem_cons.mp hy with rfl | hy
        · simp
        · exact hl'.sub y hy
      rw [total_false] at havail'
      rw [hbytes, bytes_cons, Nat.add_comm, ← havail']
      rfl
    · rw [← hsame]
      have := hframe y
      unfold UsedAt
      grind
  · rcases List.eq_nil_or_concat' l1 with rfl | ⟨l0, p, rfl⟩
    · rw [hprev] at hused
      exact absurd hl.shape.ring.tailUsed hused
    · have hp : ¬ h.IsUsed p := by
        rw [hprev] at hused
        simpa using hused
      obtain ⟨hl', hm, hx, hlast⟩ := hl.mergePrev hp
      have heq : h.release x = (h.mergePrev x).freeNext p := by
        rw [Memheap.release, if_pos hused]
        dsimp only
        rw [hx]
      have havail1 : (h.mergePrev x).availableSize = total true (h.mergePrev x) p free := by
        have hpf : p ∈ free := (hl.free_iff p).mpr (.inl ⟨by simp, hp⟩)
        have htotal := hl.total_mergePrev hpf hm
        have hlt := hl'.total_lt
        have hfits := hl'.shape.ring.region.fits
        have havail0 : (h.mergePrev x).availableSize = add32 h.availableSize 24 := rfl
        rw [havail0, havail, add32_eq (by omega), htotal]
      obtain ⟨l3, free', ⟨hl'', hright, hreg, hleft, hsame⟩, havail'⟩ := hl'.freeNext havail1
      rw [heq]
      have hlast' : ∀ y ∈ l0.getLast?, ((h.mergePrev x).freeNext p).IsUsed y := by
        intro y hy
        rw [hleft y (List.mem_of_getLast? hy)]
        exact hlast y hy
      refine ⟨l0 ++ p :: l3, free', ⟨⟨hl''.shape, fun y => ?_, hl''.noHoles hlast' hright⟩, havail'⟩,
        hm.region.trans hreg, fun y n => ?_⟩
      · have hunused := hl''.unused
        rw [hl''.free_iff]
        grind
      · rw [hsame, hm.sameUsed hp hl.unused]
        simp

end Loose

/-! ## rt_memheap_free -/

theorem Ring.lt (hr : Ring h blocks) (hx : x ∈ blocks) : x + 24 < size32 := by
  have hle := hr.le_tail hx
  have htail := hr.tail_add
  have hfits := hr.region.fits
  omega

/-- The header of the data at a pointer. -/
theorem Ring.header_eq (hr : Ring h blocks) (hx : x ∈ blocks) : sub32 (x + 24) memheapSize = x := by
  rw [memheapSize, sub32_eq (by omega) (hr.lt hx)]
  omega

/-- The mask takes the used mark away. -/
theorem Ring.magic_mask (hr : Ring h blocks) (hx : x ∈ blocks) :
    h.get .magic x &&& memheapMask = memheapMagic := by
  rcases hr.magic x hx with heq | heq <;> rw [heq] <;> decide

/-- A block that is marked as free is loose. -/
theorem Layout.markFree (hl : Layout h (l1 ++ x :: l2) free) (hused : h.IsUsed x) :
    Loose false (h.markFree x) l1 x l2 free ∧
      (h.markFree x).availableSize = Loose.total false (h.markFree x) x free ∧
      SameRegion h (h.markFree x) ∧
      ∀ y n, UsedAt (h.markFree x) (l1 ++ x :: l2) y n ↔ y ≠ x ∧ UsedAt h (l1 ++ x :: l2) y n := by
  have hs := hl.shape
  obtain ⟨hs1, hk, hother⟩ := hs.setMagic (x := x) (by simp) (.inl rfl)
  obtain ⟨h1, hh1⟩ : ∃ h1, h1 = h.set .magic x memheapMagic := ⟨_, rfl⟩
  rw [← hh1] at hs1 hk hother
  have hunused : ¬ h1.IsUsed x := by
    rw [hh1, IsUsed, get_set_same _ _ _ (by decide)]
    decide
  have hm : SameMem h1 (h.markFree x) := by
    rw [Memheap.markFree, hs.ring.magic_mask (by simp), ← hh1]
    exact sameMem_counters h1 _ _
  have hsize : ∀ y ∈ l1 ++ x :: l2, h1.memitemSize y = h.memitemSize y := fun y hy =>
    hk.memitemSize (by decide) (hs.block hy)
  have hne : ∀ y ∈ l1 ++ l2, y ≠ x := by
    have hnodup := hs.ring.cycle.nodup
    grind
  have hused' : ∀ y ∈ l1 ++ l2, h1.IsUsed y ↔ h.IsUsed y := fun y hy =>
    hother y (hs.block (by grind)) (hne y hy)
  have hloose1 : Loose false h1 l1 x l2 free := by
    obtain ⟨hleft, hright, -⟩ := List.isChain_append.mp hl.noHoles
    refine ⟨hs1.canonical fun y hy => ((hl.free_iff y).mp hy).1, hunused, fun y => ?_, ?_, ?_⟩
    · have hfree := hl.free_iff y
      grind
    · exact NoHoles.congr hleft fun y hy => hused' y (by simp [hy])
    · exact NoHoles.congr (List.isChain_cons.mp hright).2 fun y hy => hused' y (by simp [hy])
  have hloose := hloose1.of_mem hm
  refine ⟨hloose, ?_, hk.region.trans hm.region, fun y n => ?_⟩
  · have hlt := hloose.total_lt
    have hfits := hloose.shape.ring.region.fits
    have htotal : Loose.total false (h.markFree x) x free = h.bytes free + h.memitemSize x := by
      rw [Loose.total_false, hm.bytes, hm.memitemSize, hsize x (by simp)]
      rw [bytes_congr fun y hy => hsize y ((hl.free_iff y).mp hy).1]
    have havail : (h.markFree x).availableSize = add32 h.availableSize (h.memitemSize x) := by
      rw [← hsize x (by simp), hh1, ← hs.ring.magic_mask (by simp : x ∈ l1 ++ x :: l2)]
      rfl
    rw [havail, hl.available, add32_eq (by omega), htotal]
  · rw [hm.usedAt]
    unfold UsedAt
    grind

/-- `rt_memheap_free` takes the block out of use. -/
theorem Layout.rtMemheapFree (hl : Layout h blocks free) (hx : UsedAt h blocks x n) :
    ∃ h' blocks' free', h.rtMemheapFree (some (x + 24)) = some h' ∧ Layout h' blocks' free' ∧
      SameRegion h h' ∧ ∀ y m, UsedAt h' blocks' y m ↔ y ≠ x ∧ UsedAt h blocks y m := by
  obtain ⟨hmem, hused, -⟩ := hx
  have hr := hl.shape.ring
  have hheader := hr.header_eq hmem
  have hmask := hr.magic_mask hmem
  have hpool := hr.poolPtr x hmem
  obtain ⟨l1, l2, rfl⟩ := List.append_of_mem hmem
  obtain ⟨hloose, havail, hreg, hsame⟩ := hl.markFree hused
  obtain ⟨blocks', free', hl', hreg', hsame'⟩ := hloose.release havail
  refine ⟨_, blocks', free', ?_, hl', hreg.trans hreg', fun y m => ?_⟩
  · rw [Memheap.rtMemheapFree, hheader]
    simp only [rtAssert_bind_eq_some]
    exact ⟨hmask, hpool, rfl⟩
  · rw [hsame', hsame]

/-! ## rt_memheap_alloc -/

/-- The search ends at the header of the free list, or at a block that is large enough. -/
theorem searchLoop_stop {fuel freeSize : Nat} (hstop : ¬ (x ≠ h.freeList ∧ freeSize < size)) :
    h.searchLoop size fuel x freeSize = some (x, freeSize) := by
  cases fuel <;> exact if_neg hstop

/-- The search finds a free block that is large enough, if there is one. -/
theorem searchLoop_spec {fuel freeSize a : Nat}
    (hpath : Path (h.get .nextFree) (h.get .prevFree) a l h.freeList) (hl : h.freeList ∉ l)
    (hfuel : l.length ≤ fuel) (hlt : freeSize < size) :
    (∃ x ∈ l, size ≤ h.memitemSize x ∧
        h.searchLoop size fuel (h.get .nextFree a) freeSize = some (x, h.memitemSize x)) ∨
      (∀ x ∈ l, h.memitemSize x < size) ∧ ∃ x n, n < size ∧
        h.searchLoop size fuel (h.get .nextFree a) freeSize = some (x, n) := by
  induction l generalizing a fuel freeSize with
  | nil =>
    refine .inr ⟨nofun, _, freeSize, hlt, searchLoop_stop ?_⟩
    rw [hpath.1]
    simp
  | cons x l ih =>
    obtain ⟨hx, -, hrest⟩ := hpath
    obtain ⟨hne, hl⟩ := not_or.mp (List.mem_cons.not.mp hl)
    cases fuel with
    | zero => simp at hfuel
    | succ fuel =>
      have hloop : h.searchLoop size (fuel + 1) (h.get .nextFree a) freeSize = h.searchLoop size fuel
          (if h.memitemSize x < size then h.get .nextFree x else x) (h.memitemSize x) := by
        rw [hx]
        exact if_pos ⟨Ne.symm hne, hlt⟩
      rw [hloop]
      by_cases hsize : h.memitemSize x < size
      · rw [if_pos hsize]
        rcases ih hrest hl (Nat.le_of_succ_le_succ hfuel) hsize with
          ⟨y, hy, hle, hfound⟩ | ⟨hsmall, hnone⟩
        · exact .inl ⟨y, List.mem_cons_of_mem x hy, hle, hfound⟩
        · exact .inr ⟨List.forall_mem_cons.mpr ⟨hsize, hsmall⟩, hnone⟩
      · rw [if_neg hsize]
        refine .inl ⟨x, List.mem_cons_self, Nat.le_of_not_lt hsize, searchLoop_stop ?_⟩
        exact fun hcond => hsize hcond.2

/-- The block `x` was taken from the free list and is not marked yet. -/
structure Vacant (h : Memheap) (blocks : List Nat) (x : Nat) (free : List Nat) : Prop where
  shape : Shape (Node h blocks) h blocks free
  mem : x ∈ blocks
  unused : ¬ h.IsUsed x
  free_iff : ∀ y, y ∈ free ↔ y ∈ blocks ∧ ¬ h.IsUsed y ∧ y ≠ x
  noHoles : blocks.IsChain fun y z => h.IsUsed y ∨ h.IsUsed z ∨ y = x ∨ z = x

theorem Ring.magic_of_unused (hr : Ring h blocks) (hx : x ∈ blocks) (hunused : ¬ h.IsUsed x) :
    h.get .magic x = memheapMagic := by
  refine (hr.magic x hx).resolve_right fun heq => hunused ?_
  rw [IsUsed, heq]
  decide

/-- The block is marked. -/
theorem Vacant.markUsed (hv : Vacant h blocks x free) :
    Laid (h.markUsed x) blocks free ∧ SameRegion h (h.markUsed x) ∧
      ∀ y ∈ blocks, ((h.markUsed x).IsUsed y ↔ h.IsUsed y ∨ y = x) ∧
        (h.markUsed x).memitemSize y = h.memitemSize y := by
  have hs := hv.shape
  have hmagic := hs.ring.magic_of_unused hv.mem hv.unused
  obtain ⟨hs1, hk, hother⟩ := hs.setMagic hv.mem (.inr rfl)
  have heq : h.markUsed x = h.set .magic x (memheapMagic ||| memheapUsed) := by
    rw [Memheap.markUsed, hmagic]
  rw [← heq] at hs1 hk hother
  have hused : ∀ y ∈ blocks, (h.markUsed x).IsUsed y ↔ h.IsUsed y ∨ y = x := by
    intro y hy
    by_cases hyx : y = x
    · subst hyx
      rw [heq, IsUsed, get_set_same _ _ _ (by decide)]
      simp only [or_true, iff_true]
      decide
    · rw [hother y (hs.block hy) hyx]
      simp [hyx]
  refine ⟨⟨hs1.canonical fun y hy => ((hv.free_iff y).mp hy).1, fun y => ?_, ?_⟩, hk.region,
    fun y hy => ⟨hused y hy, ?_⟩⟩
  · have hfree := hv.free_iff y
    grind
  · refine List.IsChain.imp_of_mem_imp (fun y z hy hz hyz => ?_) hv.noHoles
    grind
  · exact hk.memitemSize (by decide) (hs.block hy)

/-- A block is taken from the free list. -/
theorem Shape.takeOff (hs : Shape G h blocks (f1 ++ x :: f2)) (hx : x ∈ blocks) :
    Shape G ((h.removeFree x).clearFree x) blocks (f1 ++ f2) ∧
      Keeps G (OffList .nextFree .prevFree) h ((h.removeFree x).clearFree x) := by
  obtain ⟨hs1, hk1⟩ := hs.removeFree
  have hnodup := hs.freeRing.nodup
  have hxf : x ∉ (h.removeFree x).freeList :: (f1 ++ f2) := by
    rw [hk1.region.freeList]
    grind
  obtain ⟨hs2, hk2⟩ := hs1.clearFree (hs.block hx) hxf
  exact ⟨hs2, hk1.trans hk2⟩

theorem sameMem_setAvailable (h : Memheap) (a : Nat) : SameMem h (h.setAvailable a) :=
  sameMem_counters h _ _

/-- The heap `h'` after the block `x` was taken with `m` bytes. -/
structure Takes (h h' : Memheap) (blocks blocks' : List Nat) (x m : Nat) (free' : List Nat) : Prop where
  vacant : Vacant h' blocks' x free'
  region : SameRegion h h'
  available : h'.availableSize = h'.bytes free'
  size : h'.memitemSize x = m
  used : ∀ y n, UsedAt h' blocks' y n ↔ UsedAt h blocks y n

/-- The block is taken as it is. -/
theorem Layout.takeFree_whole (hl : Layout h blocks (f1 ++ x :: f2))
    (hfit : ¬ add32 (add32 size memheapSize) memheapMinialloc ≤ h.memitemSize x) :
    Takes h (h.takeFree x (h.memitemSize x) size) blocks blocks x (h.memitemSize x) (f1 ++ f2) := by
  obtain ⟨hmem, hunused⟩ := (hl.free_iff x).mp (by simp)
  obtain ⟨h0, hh0⟩ : ∃ h0, h0 = h.setAvailable (sub32 h.availableSize (h.memitemSize x)) := ⟨_, rfl⟩
  have hm0 : SameMem h h0 := hh0 ▸ sameMem_setAvailable h _
  have heq : h.takeFree x (h.memitemSize x) size = (h0.removeFree x).clearFree x := by
    rw [hh0]
    exact if_neg hfit
  have hl0 := hl.toLaid.of_mem hm0
  obtain ⟨hs, hk⟩ := hl0.shape.takeOff hmem
  rw [← heq] at hs hk
  generalize h.takeFree x (h.memitemSize x) size = h' at *
  have hused : ∀ y ∈ blocks, h'.IsUsed y ↔ h.IsUsed y := fun y hy => by
    rw [hk.isUsed (by decide) (hl0.shape.block hy), hm0.isUsed]
  have hsize : ∀ y ∈ blocks, h'.memitemSize y = h.memitemSize y := fun y hy => by
    rw [hk.memitemSize (by decide) (hl0.shape.block hy), hm0.memitemSize]
  have hsub : ∀ y ∈ f1 ++ f2, y ∈ blocks := fun y hy => ((hl.free_iff y).mp (by grind)).1
  have hnodup := hl.shape.freeRing.nodup
  refine ⟨⟨hs.canonical hsub, hmem, (hused x hmem).not.mpr hunused, fun y => ?_, ?_⟩, hm0.region.trans hk.region,
    ?_, hsize x hmem, fun y n => ?_⟩
  · have hfree := hl.free_iff y
    grind
  · refine List.IsChain.imp_of_mem_imp (fun y z hy hz hyz => ?_) hl.noHoles
    rw [hused y hy, hused z hz]
    grind
  · have hbytes : h.bytes (f1 ++ x :: f2) = h.bytes (f1 ++ f2) + h.memitemSize x := by
      rw [bytes_append, bytes_append, bytes_cons]
      omega
    have hle := hl.shape.ring.bytes_le (List.nodup_cons.mp hnodup).2 fun y hy => ((hl.free_iff y).mp hy).1
    have hfits := hl.shape.ring.region.fits
    have havail : h'.availableSize = sub32 h.availableSize (h.memitemSize x) := by
      rw [heq, hh0]
      rfl
    rw [havail, hl.available, sub32_eq (by omega) (by omega), hbytes, bytes_congr fun y hy => hsize y (hsub y hy)]
    omega
  · have huse := hused y
    unfold UsedAt
    grind

/-- The block is split. -/
theorem Layout.takeFree_split (hl : Layout h (l1 ++ x :: l2) (f1 ++ x :: f2))
    (hfit : size + 36 ≤ h.memitemSize x) :
    Takes h (h.takeFree x (h.memitemSize x) size) (l1 ++ x :: l2) (l1 ++ x :: (x + size + 24) :: l2) x size
      ((x + size + 24) :: (f1 ++ f2)) := by
  obtain ⟨new, hnew⟩ : ∃ new, new = x + size + 24 := ⟨_, rfl⟩
  have hx : x ∈ l1 ++ x :: l2 := by simp
  have hunused := ((hl.free_iff x).mp (by simp)).2
  have hnext := hl.shape.ring.memitemSize_eq hx
  have hlt := get_lt h .next x
  have hsub : ∀ y ∈ f1 ++ x :: f2, y ∈ l1 ++ x :: l2 := fun y hy => ((hl.free_iff y).mp hy).1
  -- the new block, the old one taken from the free list, the new one put on it
  obtain ⟨hs1, hsplit⟩ := hl.shape.insertBlock (x := new) hsub (by omega) (by omega)
  obtain ⟨h1, hh1⟩ : ∃ h1, h1 = h.insertBlock x new := ⟨_, rfl⟩
  rw [← hh1] at hs1 hsplit
  obtain ⟨hs2, hk2⟩ := hs1.takeOff (by simp)
  have hfresh : new ∉ h.freeList :: (f1 ++ f2) := by
    obtain ⟨hnode, -⟩ := hl.shape.ring.grid_insert (x := new) (by omega) (by omega)
    intro hmem
    rcases List.mem_cons.mp hmem with heq | hmem
    · exact hnode (.inl heq)
    · exact hnode (.inr (.inr (hsub new (by grind))))
  have hreg2 := hsplit.region.trans hk2.region
  obtain ⟨hs3, hk3⟩ := hs2.insertFree (x := new) (hs1.block (by simp)) (hreg2.freeList.symm ▸ hfresh)
  have hk := hk2.trans hk3
  obtain ⟨h3, hh3⟩ : ∃ h3, h3 = ((h1.removeFree x).clearFree x).insertFree new := ⟨_, rfl⟩
  rw [← hh3] at hs3 hk
  obtain ⟨h', hh'⟩ : ∃ h', h' = h3.setAvailable (sub32 (sub32 h3.availableSize size) memheapSize) := ⟨_, rfl⟩
  have heq : h.takeFree x (h.memitemSize x) size = h' := by
    have hptr : add32 (add32 x size) memheapSize = new := by
      simp (disch := omega) only [memheapSize, add32_eq, hnew]
    have hcond : add32 (add32 size memheapSize) memheapMinialloc ≤ h.memitemSize x := by
      simp (disch := omega) only [memheapSize, memheapMinialloc, add32_eq]
      omega
    rw [takeFree, if_pos hcond, hptr, hh', hh3, hh1]
  have hm : SameMem h3 h' := hh' ▸ sameMem_setAvailable h3 _
  have hs' := hs3.congr (F := fun _ => True) (.of_mem hm.mem hm.region) fun _ => trivial
  have hused : ∀ y ∈ l1 ++ x :: new :: l2, h'.IsUsed y ↔ h1.IsUsed y := fun y hy => by
    rw [hm.isUsed, hk.isUsed (by decide) (hs1.block hy)]
  have hsize : ∀ y ∈ l1 ++ x :: new :: l2, h'.memitemSize y = h1.memitemSize y := fun y hy => by
    rw [hm.memitemSize, hk.memitemSize (by decide) (hs1.block hy)]
  have hfnodup := hl.shape.freeRing.nodup
  rw [heq, ← hnew]
  have hxsize := hsplit.size
  have hrest := hsplit.rest
  refine ⟨⟨hs'.canonical ?_, by simp, ?_, fun y => ?_, ?_⟩, (hsplit.region.trans hk.region).trans hm.region, ?_, ?_,
    fun y n => ?_⟩
  · intro y hy
    have := hsub y
    grind
  · rw [hused x (by simp), hsplit.used x hx]
    exact hunused
  · have hfree := hl.free_iff y
    have huse1 := hsplit.used y
    have hnewUnused := hsplit.unused
    grind
  · obtain ⟨hleft, hright, -⟩ := List.isChain_append.mp hl.noHoles
    obtain ⟨hhead, hright⟩ := List.isChain_cons.mp hright
    have huse : ∀ y ∈ l1 ++ x :: l2, h'.IsUsed y ↔ h.IsUsed y := fun y hy =>
      (hused y (by grind)).trans (hsplit.used y hy)
    have hmono : ∀ l, (∀ y ∈ l, y ∈ l1 ++ x :: l2) → NoHoles h l →
        l.IsChain fun y z => h'.IsUsed y ∨ h'.IsUsed z ∨ y = x ∨ z = x := fun l hl hholes => by
      refine List.IsChain.imp_of_mem_imp (fun y z hy hz hyz => ?_) hholes
      grind
    refine List.isChain_append.mpr ⟨hmono l1 (by simp +contextual) hleft, ?_, ?_⟩
    · refine List.isChain_cons.mpr ⟨by simp, List.isChain_cons.mpr ⟨fun y hy => ?_, hmono l2 (by grind) hright⟩⟩
      rw [huse y (by simp [List.mem_of_head? hy])]
      exact .inr (.inl ((hhead y hy).resolve_left hunused))
    · rintro y - z ⟨⟩
      simp
  · have hbytes : h.bytes (f1 ++ x :: f2) = h.bytes (f1 ++ f2) + h.memitemSize x := by
      rw [bytes_append, bytes_append, bytes_cons]
      omega
    have hsame : h'.bytes (f1 ++ f2) = h.bytes (f1 ++ f2) := by
      refine bytes_congr fun y hy => ?_
      have hy' := hsub y (by grind)
      rw [hsize y (by grind), hsplit.others y hy' (by grind)]
    have hle := hl.shape.ring.bytes_le (List.nodup_cons.mp hfnodup).2 hsub
    have hfits := hl.shape.ring.region.fits
    have havail : h'.availableSize = sub32 (sub32 h.availableSize size) 24 := by
      rw [hh', hh3, hh1]
      rfl
    rw [havail, hl.available, bytes_cons, hsame, hsize new (by simp)]
    simp (disch := omega) only [sub32_eq]
    omega
  · rw [hsize x (by simp)]
    omega
  · have huse := hused y
    have huse1 := hsplit.used y
    have hsz1 := hsplit.others y
    have hnewUnused := hsplit.unused
    unfold UsedAt
    grind

/-- A block that is taken and marked. -/
theorem Takes.markUsed {m : Nat} (ht : Takes h h' blocks blocks' x m free) :
    Layout (h'.markUsed x) blocks' free ∧ SameRegion h (h'.markUsed x) ∧
      ∀ y n, UsedAt (h'.markUsed x) blocks' y n ↔ (y = x ∧ n = m) ∨ UsedAt h blocks y n := by
  obtain ⟨hlaid, hreg, hframe⟩ := ht.vacant.markUsed
  refine ⟨⟨hlaid, ?_⟩, ht.region.trans hreg, fun y n => ?_⟩
  · have hsame : (h'.markUsed x).bytes free = h'.bytes free :=
      bytes_congr fun y hy => (hframe y ((ht.vacant.free_iff y).mp hy).1).2
    rw [hsame, ← ht.available]
    rfl
  · rw [← ht.used y n]
    have hsize := ht.size
    have hmem := ht.vacant.mem
    unfold UsedAt
    grind

theorem Ring.memitemSize_le (hr : Ring h blocks) (hx : x ∈ blocks) : h.memitemSize x + 48 ≤ h.poolSize := by
  have hle := hr.bytes_le (List.nodup_singleton x) (by simpa using hx)
  rw [bytes_cons, List.length_singleton] at hle
  omega

/-- A free block that is large enough is taken, with at least `size` bytes. -/
theorem Layout.takeFree (hl : Layout h blocks free) (hx : x ∈ free) (hsize : size ≤ h.memitemSize x) :
    ∃ blocks' free' m, size ≤ m ∧
      Takes h (h.takeFree x (h.memitemSize x) size) blocks blocks' x m free' := by
  obtain ⟨hmem, -⟩ := (hl.free_iff x).mp hx
  have hle := hl.shape.ring.memitemSize_le hmem
  have hfits := hl.shape.ring.region.fits
  obtain ⟨f1, f2, rfl⟩ := List.append_of_mem hx
  by_cases hfit : size + 36 ≤ h.memitemSize x
  · obtain ⟨l1, l2, rfl⟩ := List.append_of_mem hmem
    exact ⟨_, _, size, Nat.le_refl _, hl.takeFree_split hfit⟩
  · refine ⟨_, _, _, hsize, hl.takeFree_whole ?_⟩
    simp (disch := omega) only [memheapSize, memheapMinialloc, add32_eq]
    omega

/-- The sizes that are asked for are at least 12. -/
theorem twelve_le_roundSize (size : Nat) : 12 ≤ roundSize size := by
  unfold roundSize memheapMinialloc
  split <;> omega

/-- An allocation of `size` bytes finds a block on the free list. -/
def Room (h : Memheap) (free : List Nat) (size : Nat) : Prop :=
  size < h.availableSize ∧ ∃ x ∈ free, size ≤ h.memitemSize x

instance (h : Memheap) (free : List Nat) (size : Nat) : Decidable (h.Room free size) :=
  inferInstanceAs (Decidable (_ ∧ _))

/-- The results of an allocation of `size` bytes: there is no block, and nothing has changed, or the
block `x` is in use now. -/
inductive Allocs (h : Memheap) (blocks free : List Nat) (size : Nat) : Memheap → Option Nat → Prop where
  | none (full : ¬ h.Room free size) : Allocs h blocks free size h none
  | some {h' : Memheap} {blocks' free' : List Nat} {x m : Nat} (layout : Layout h' blocks' free')
    (region : SameRegion h h') (mem : x ∈ free) (le : size ≤ m)
    (used : ∀ y n, UsedAt h' blocks' y n ↔ (y = x ∧ n = m) ∨ UsedAt h blocks y n) (room : h.Room free size) :
    Allocs h blocks free size h' (some (x + 24))

/-- `rt_memheap_alloc` takes a block into use. -/
theorem Layout.rtMemheapAlloc (hl : Layout h blocks free) (size : Nat) :
    ∃ h' result, h.rtMemheapAlloc size = some (h', result) ∧ Allocs h blocks free (roundSize size) h' result := by
  have hr := hl.shape.ring
  have hnodup := List.nodup_cons.mp hl.shape.freeRing.nodup
  have hsub : ∀ y ∈ free, y ∈ blocks := fun y hy => ((hl.free_iff y).mp hy).1
  have hpos := twelve_le_roundSize size
  by_cases hcheck : roundSize size < h.availableSize
  · have hfuel : free.length ≤ h.poolSize := by
      have hle := hr.bytes_le hnodup.2 hsub
      omega
    rcases searchLoop_spec hl.shape.freeRing.path hnodup.1 hfuel (Nat.lt_of_lt_of_le (by decide : 0 < 12) hpos) with
      ⟨x, hx, hsize, hfound⟩ | ⟨hsmall, x, n, hn, hfound⟩
    · obtain ⟨blocks', free', m, hm, htakes⟩ := hl.takeFree hx hsize
      obtain ⟨hl', hreg, hused⟩ := htakes.markUsed
      refine ⟨_, some (x + 24), ?_, .some hl' hreg hx hm hused ⟨hcheck, x, hx, hsize⟩⟩
      have hlt := hr.lt (hsub x hx)
      simp only [Memheap.rtMemheapAlloc, if_pos hcheck, hfound, Option.bind_eq_bind, Option.bind_some, if_pos hsize,
        memheapSize, add32_eq hlt]
      rfl
    · have hfull : ¬ h.Room free (roundSize size) := by
        rintro ⟨-, y, hy, hroom⟩
        exact Nat.not_le_of_lt (hsmall y hy) hroom
      refine ⟨h, none, ?_, .none hfull⟩
      simp only [Memheap.rtMemheapAlloc, if_pos hcheck, hfound, Option.bind_eq_bind, Option.bind_some,
        if_neg (Nat.not_le_of_lt hn)]
      rfl
  · exact ⟨h, none, if_neg hcheck, .none fun hroom => hcheck hroom.1⟩

end RtThread.Memheap
