-- SUMMARY: The lowest-free pointer and the search of rt_malloc.
import ZigbeeGateway.Kernel.MemChange

/-!
# The lowest free block

All space below `lfree` belongs to blocks in use. `rt_malloc` and `rt_free` keep it so, and then the
search of `rt_malloc`, which begins at `lfree`, misses no block below its start.

The cut of a block by `rt_realloc` makes a free block and does not look at `lfree`, unless the block
after it is free. A block that is cut below `lfree` is lost for the search (`ShrinkSafe`). The search
also stops one block too early: it does not look at a free block of the wanted size that lies at the
end of the heap.
-/

namespace RtThread

open Run Word Tiling

namespace Heap

variable {h h' : Heap} {bs bs' l1 l2 : List Block} {mem x n s size : Nat}

/-! ## The search -/

/-- With all space below `lfree` in use, the only block that the search does not find is one of the
wanted size that ends at the end of the heap. -/
theorem Layout.rtMalloc_none_iff (hl : Layout h bs) (hc : LowUsed h bs) (hzero : size ≠ 0) :
    (∃ h', h.rtMalloc size = some (h', none)) ↔
      ∀ x k, At 12 0 bs x ⟨false, k⟩ → need size ≤ k → k = need size ∧ x + k = h.memSizeAligned := by
  rcases hl.rtMalloc size with ⟨hnone, hwhy⟩ | ⟨h'', -, y, n, -, hsome, -, -, -, hy, hn, -, hlt⟩
  · refine iff_of_true ⟨h, hnone⟩ fun x k hx hk => ?_
    have hle := hl.tiled.at_le hx
    simp only at hle
    rcases hwhy with rfl | hlarge | hmissed
    · exact absurd rfl hzero
    · omega
    · have hlow := hc.le_of_free (by decide) hx
      have hstop := hmissed x k hx (by omega) hk
      omega
  · refine iff_of_false ?_ fun hlast => ?_
    · rintro ⟨h', hnone⟩
      cases hnone.symm.trans hsome
    · have hy := hlast y n hy hn
      omega

theorem need_eq (hsize : size ≤ 0xfffffffc) : need size = max ((size + 3) / 4 * 4) 12 := by
  have halign : rtAlign size = (size + 3) / 4 * 4 := by
    rw [rtAlign_eq, add32_eq (by unfold size32; omega)]
  rw [need, halign, minSizeAligned]
  split <;> omega

/-- The block at `o` is free and has the bytes that `rt_malloc(size)` needs. -/
def Fitting (h : Heap) (size o : Nat) : Prop :=
  h.get .used (h.heapPtr + o) = 0 ∧ max ((size + 3) / 4 * 4) 12 ≤ h.dataSize o

/-- The block at `o` has exactly these bytes, and the next header is the one at `heap_end`. -/
def LastExact (h : Heap) (size o : Nat) : Prop :=
  h.dataSize o = max ((size + 3) / 4 * 4) 12 ∧ h.heapPtr + h.get .next (h.heapPtr + o) = h.heapEnd

instance (h : Heap) (size o : Nat) : Decidable (h.Fitting size o) := inferInstanceAs (Decidable (_ ∧ _))

instance (h : Heap) (size o : Nat) : Decidable (h.LastExact size o) := inferInstanceAs (Decidable (_ ∧ _))

/-- When `rt_malloc` gives up, in terms of the headers. -/
theorem Layout.rtMalloc_null {offs : List Nat} (hl : Layout h bs) (hc : LowUsed h bs)
    (hwalk : h.Walk 0 offs) (hpos : 1 ≤ size) (hsize : size ≤ 0xfffffffc) :
    (∃ h', h.rtMalloc size = some (h', none)) ↔ ∀ o ∈ offs, h.Fitting size o → h.LastExact size o := by
  have hfits (o k : Nat) (hat : At 12 0 bs o ⟨false, k⟩) : h.Fitting size o ↔ need size ≤ k := by
    rw [Fitting, hl.tiled.dataSize hat, need_eq hsize]
    exact and_iff_right ((hl.tiled.used hat).mpr rfl)
  have hlast (o k : Nat) (hat : At 12 0 bs o ⟨false, k⟩) :
      h.LastExact size o ↔ k = need size ∧ o + k = h.memSizeAligned := by
    rw [LastExact, hl.tiled.dataSize hat, hl.tiled.next hat, hl.tiled.region.heapEnd, need_eq hsize]
    simp only
    omega
  rw [hl.rtMalloc_none_iff hc (Nat.ne_of_gt hpos)]
  constructor
  · intro hall o ho hfit
    obtain ⟨⟨used, k⟩, hat⟩ := (hl.mem_walk hwalk).mp ho
    obtain rfl : used = false := (hl.tiled.used hat).mp hfit.1
    exact (hlast o k hat).mpr (hall o k hat ((hfits o k hat).mp hfit))
  · intro hall o k hat hk
    exact (hlast o k hat).mp (hall o ((hl.mem_walk hwalk).mpr ⟨_, hat⟩) ((hfits o k hat).mpr hk))

/-! ## What the pointer says -/

/-- `lfree` points to the free block with the smallest address, or to the end of the heap when there
is no free block. -/
def LfreeExact (h : Heap) (offs : List Nat) : Prop :=
  (h.lfree = h.heapEnd ∧ ∀ o ∈ offs, h.get .used (h.heapPtr + o) ≠ 0) ∨
  ∃ o ∈ offs, h.lfree = h.heapPtr + o ∧ h.get .used (h.heapPtr + o) = 0 ∧
    ∀ o' ∈ offs, h.get .used (h.heapPtr + o') = 0 → o ≤ o'

instance (h : Heap) (offs : List Nat) : Decidable (h.LfreeExact offs) := by
  unfold LfreeExact
  infer_instance

theorem Layout.lfreeExact (hl : Layout h bs) (hc : LowUsed h bs) : h.LfreeExact (offsets 12 0 bs) := by
  -- a free block is not below `lfree`
  have hlow : ∀ o ∈ offsets 12 0 bs, h.get .used (h.heapPtr + o) = 0 →
      h.lfree ≤ h.heapPtr + o ∧ o < h.memSizeAligned + 12 := by
    intro o ho hused
    obtain ⟨⟨used, k⟩, hat⟩ := mem_offsets.mp ho
    obtain rfl : used = false := (hl.tiled.used hat).mp hused
    have hle := hc.le_of_free (by decide) hat
    have hlt := hl.tiled.data_lt hat
    omega
  have hend := hl.tiled.region.heapEnd
  rcases hl.lfree with hlf | ⟨x, k, hx, hlf⟩
  · refine .inl ⟨hlf, fun o ho hused => ?_⟩
    have hcontra := hlow o ho hused
    omega
  · refine .inr ⟨x, mem_offsets.mpr ⟨_, hx⟩, hlf, (hl.tiled.used hx).mpr rfl, fun o ho hused => ?_⟩
    have hle := hlow o ho hused
    omega

end Heap

namespace Mem

open Heap

variable {s : Sys} {h h' : Heap} {bs bs' : List Block} {e : Event}

/-- The condition on `rt_realloc`: a block that is cut lies above `lfree`, or directly before it. -/
def ShrinkSafe (s : Sys) : Event → Prop
  | .realloc _ (some p) newsize =>
    rtAlign newsize + 24 < s.heap.dataSize (p - sizeofStructMem - s.heap.heapPtr) →
      s.heap.lfree ≤ p - sizeofStructMem ∨
      (s.heap.lfree = s.heap.heapPtr + s.heap.get .next (p - sizeofStructMem) ∧
        s.heap.lfree ≠ s.heap.heapEnd)
  | _ => True

instance (s : Sys) (e : Event) : Decidable (ShrinkSafe s e) := by
  unfold ShrinkSafe
  split <;> infer_instance

theorem Change.lowUsed (hchange : Change s.heap bs e h' bs') (hl : Layout s.heap bs)
    (hsafe : ShrinkSafe s e) (hc : LowUsed s.heap bs) : LowUsed h' bs' := by
  cases hchange with
  | same => exact hc
  | write hx hi => exact hc
  | malloc hx hs4 hfit halloc hout => exact (hl.fills hx hs4 hfit halloc hout).lowUsed hc
  | free hx hfree hl' hreg hused =>
    -- below the new `lfree` there is no part of the block that was freed
    obtain ⟨hle, hle'⟩ := (hl.frees hx hfree hl').lfree
    rw [LowUsed, hreg.heapPtr]
    refine (Covered.mono hc (by omega)).of_used fun y m hy hat => ?_
    exact (hused y m).mpr ⟨by omega, hat⟩
  | @shrink x n t newsize _ _ hx hcut hshrink hs =>
    have hmem : s.heap.heapPtr + x + 12 - 12 = s.heap.heapPtr + x := Nat.add_sub_cancel ..
    rw [ShrinkSafe, sizeofStructMem, hmem, Nat.add_sub_cancel_left, hl.tiled.dataSize hx,
      hl.tiled.next hx] at hsafe
    exact (hl.cuts hx (rtAlign_mod_four newsize) hcut.le hshrink hs.layout).lowUsed (hsafe hcut) hc

section Results

variable {mem : Nat → UInt8} {beginAddr endAddr : Nat} {es : List Event}

theorem lowUsed_run (hinit : rtSystemHeapInit mem beginAddr endAddr = some h)
    (hmin : 12 ≤ h.memSizeAligned)
    (hsafe : Along step (fun s e => CallocSafe s e ∧ ShrinkSafe s e) (Sys.start h) es)
    (hrun : run step (Sys.start h) es = some s) : ∃ bs, Inv s bs ∧ LowUsed s.heap bs := by
  have hstart : LowUsed h [⟨false, h.memSizeAligned⟩] := by
    rw [LowUsed, (fresh_init hinit).lfree, Nat.sub_self]
    exact fun y hy => absurd hy (Nat.not_lt_zero y)
  refine run_invariant_along (I := fun s => ∃ bs, Inv s bs ∧ LowUsed s.heap bs) ?_
    ⟨_, inv_start hinit hmin, hstart⟩ hsafe hrun
  rintro s e s' ⟨bs, hi, hc⟩ ⟨hcalloc, hshrink⟩ hstep
  obtain ⟨bs', hi', hchange⟩ := hi.change hcalloc hstep
  exact ⟨bs', hi', hchange.lowUsed hi.layout hshrink hc⟩

/-- The lowest-free pointer is exact, if no block is cut below it. -/
theorem lfree_exact (hinit : rtSystemHeapInit mem beginAddr endAddr = some h)
    (hmin : 12 ≤ h.memSizeAligned)
    (hsafe : Along step (fun s e => CallocSafe s e ∧ ShrinkSafe s e) (Sys.start h) es)
    (hrun : run step (Sys.start h) es = some s) :
    ∃ offs, s.heap.Walk 0 offs ∧ s.heap.LfreeExact offs := by
  obtain ⟨bs, hi, hc⟩ := lowUsed_run hinit hmin hsafe hrun
  exact ⟨_, hi.layout.wellFormed.chain, hi.layout.lfreeExact hc⟩

end Results

/-- A block is cut directly before `lfree`. -/
def cutEvents : List Event := [.malloc 40, .realloc 0 (some 4108) 12]

def shrunk : Sys := endState step (Sys.start freshHeap) cutEvents

/-- `lfree` points to the new block. -/
theorem lfree_exact_cut :
    shrunk.heap.lfree = 4120 ∧ ∃ offs, shrunk.heap.Walk 0 offs ∧ shrunk.heap.LfreeExact offs := by
  have hrun : run step (Sys.start freshHeap) cutEvents = some shrunk := run_endState (by decide +kernel)
  have hcalloc : Along step CallocSafe (Sys.start freshHeap) cutEvents := callocSafe_of_small (by decide)
  have hshrink : Along step ShrinkSafe (Sys.start freshHeap) cutEvents := by decide +kernel
  exact ⟨by decide +kernel, lfree_exact freshHeap_init (by decide) (along_and hcalloc hshrink) hrun⟩

/-- The first one of two blocks is cut, and `lfree` is behind the second one. -/
def staleEvents : List Event := [.malloc 40, .malloc 40, .realloc 0 (some 4108) 12]

def stale : Sys := endState step (Sys.start freshHeap) staleEvents

/-- The free block at 4120 is below `lfree`, which is 4200. -/
theorem lfree_stale :
    rtSystemHeapInit (fun _ => 0) 4096 4248 = some freshHeap ∧ 12 ≤ freshHeap.memSizeAligned ∧
      run step (Sys.start freshHeap) staleEvents = some stale ∧
      ¬ ∃ offs, stale.heap.Walk 0 offs ∧ stale.heap.LfreeExact offs := by
  refine ⟨freshHeap_init, by decide, run_endState (by decide +kernel), ?_⟩
  rintro ⟨offs, hwalk, hexact⟩
  have hwalk' : stale.heap.Walk 0 [0, 24, 52, 104] := by decide +kernel
  rw [hwalk.unique hwalk'] at hexact
  revert hexact
  decide +kernel

section Results

variable {mem : Nat → UInt8} {beginAddr endAddr size : Nat} {es : List Event}

/-- `rt_malloc` finds memory that exists, unless the only blocks that are large enough fit exactly and
end at the end of the heap. -/
theorem rtMalloc_finds {offs : List Nat} (hinit : rtSystemHeapInit mem beginAddr endAddr = some h)
    (hcalls : ∀ e ∈ es, ∀ t rmem newsize, e ≠ .realloc t rmem newsize)
    (hsafe : Along step CallocSafe (Sys.start h) es) (hrun : run step (Sys.start h) es = some s)
    (hwalk : s.heap.Walk 0 offs) (hpos : 1 ≤ size) (hsize : size ≤ 0xfffffffc) :
    (∀ h', s.heap.rtMalloc size = some (h', none) → ∀ o ∈ offs, ¬ s.heap.Fitting size o) ↔
      ((∃ o ∈ offs, s.heap.Fitting size o) →
        ∃ o ∈ offs, s.heap.Fitting size o ∧ ¬ s.heap.LastExact size o) := by
  have hfresh := fresh_init hinit
  by_cases hmin : 12 ≤ h.memSizeAligned
  · have hshrink : Along step ShrinkSafe (Sys.start h) es := by
      refine along_of_forall fun e he s => ?_
      cases e with
      | realloc t rmem newsize => exact absurd rfl (hcalls _ he t rmem newsize)
      | _ => trivial
    obtain ⟨bs, hi, hc⟩ := lowUsed_run hinit hmin (along_and hsafe hshrink) hrun
    have hnull := hi.layout.rtMalloc_null hc hwalk hpos hsize
    constructor
    · rintro hfinds ⟨o, ho, hfit⟩
      by_contra hlast
      obtain ⟨h', hnone⟩ := hnull.mpr fun x hx hfit => by_contra fun hnot => hlast ⟨x, hx, hfit, hnot⟩
      exact hfinds h' hnone o ho hfit
    · intro hother h' hnone o ho hfit
      obtain ⟨x, hx, hfit, hnot⟩ := hother ⟨o, ho, hfit⟩
      exact hnot (hnull.mp ⟨h', hnone⟩ x hx hfit)
  · obtain rfl := run_tiny hfresh (by omega) hrun
    have hnot : ∀ o ∈ offs, ¬ (Sys.start h).heap.Fitting size o := by
      intro o ho hfit
      have hwalk' : h.Walk 0 offs := hwalk
      rw [hwalk'.unique hfresh.walk, List.mem_singleton] at ho
      subst ho
      have hdata : (Sys.start h).heap.dataSize 0 = h.memSizeAligned := hfresh.dataSize
      have hle := hfit.2
      omega
    exact iff_of_true (fun _ _ => hnot) fun ⟨o, ho, hfit⟩ => absurd hfit (hnot o ho)

end Results

/-- A heap that is full up to a block of 48 bytes that was freed. -/
def fullEvents : List Event := [.malloc 48, .malloc 48, .free (some 4108)]

def nearlyFull : Sys := endState step (Sys.start freshHeap) fullEvents

/-- `rt_malloc(52)` finds nothing, and the free block has 48 bytes. -/
theorem rtMalloc_finds_full :
    nearlyFull.heap.Walk 0 [0, 60] ∧ (nearlyFull.heap.rtMalloc 52).map Prod.snd = some none ∧
      ∀ o ∈ [0, 60], ¬ nearlyFull.heap.Fitting 52 o := by
  have hrun : run step (Sys.start freshHeap) fullEvents = some nearlyFull := run_endState (by decide +kernel)
  have hwalk : nearlyFull.heap.Walk 0 [0, 60] := by decide +kernel
  have hsafe : Along step CallocSafe (Sys.start freshHeap) fullEvents := callocSafe_of_small (by decide)
  have hnull : (nearlyFull.heap.rtMalloc 52).map Prod.snd = some none := by decide +kernel
  obtain ⟨⟨h', result⟩, hmalloc, rfl⟩ := Option.map_eq_some_iff.mp hnull
  exact ⟨hwalk, hnull, (rtMalloc_finds freshHeap_init (by simp [fullEvents]) hsafe hrun hwalk (by decide)
    (by decide)).mpr (by decide +kernel) h' hmalloc⟩

/-- `rt_malloc(128)` on a fresh heap with one free block of 128 bytes. -/
theorem rtMalloc_misses_last :
    rtSystemHeapInit (fun _ => 0) 4096 4248 = some freshHeap ∧
      run step (Sys.start freshHeap) [] = some (Sys.start freshHeap) ∧
      (freshHeap.rtMalloc 128).map Prod.snd = some none ∧ freshHeap.Walk 0 [0] ∧
      freshHeap.Fitting 128 0 := by
  refine ⟨freshHeap_init, rfl, ?_⟩
  decide +kernel

end Mem

end RtThread
