-- SUMMARY: The statistics of the system heap count the blocks in use.
import ZigbeeGateway.Kernel.MemLfree

/-!
# The statistics of the heap

`used_mem` grows by the size of a block when it is handed out, and falls when the block is freed or
cut. Three formulas do that: the requested size with a header when a block is split, the distance of
the headers when it is taken or freed as a whole, and the difference of the sizes when it is cut. In a
heap with a layout they all agree with the blocks, so `used_mem` is the space of the blocks in use and
`max_mem` the largest value that it had.
-/

namespace RtThread

open Run Word Tiling

namespace Heap

variable {h : Heap} {bs : List Block}

/-! ## The sum over the blocks -/

/-- The sum over the used blocks at the offsets `offs` of the header and the data. -/
def usedSum (h : Heap) (offs : List Nat) : Nat :=
  ((offs.filter fun o => h.get .used (h.heapPtr + o) ≠ 0).map fun o =>
    sizeofStructMem + h.dataSize o).sum

theorem Tiled.usedSum_eq (ht : Tiled h bs) : h.usedSum (offsets 12 0 bs) = usedBytes 12 bs := by
  have hgen : ∀ l1 l2, Tiled h (l1 ++ l2) → h.usedSum (offsets 12 (after 12 0 l1) l2) =
      ((usedList 12 (after 12 0 l1) l2).map fun r => 12 + r.2).sum := by
    intro l1 l2
    induction l2 generalizing l1 with
    | nil => exact fun _ => rfl
    | cons b l2 ih =>
      intro ht
      have hat : At 12 0 (l1 ++ b :: l2) (after 12 0 l1) b := at_after
      have hused := ht.used hat
      have hdata := ht.dataSize hat
      rw [List.append_cons] at ht
      have hrest := ih (l1 ++ [b]) ht
      simp only [after_append, after_cons, after_nil, usedSum] at hrest
      rw [usedSum, offsets, usedList]
      cases hb : b.used
      · rw [List.filter_cons_of_neg (by simp [hused.mpr hb]), hrest]
        rfl
      · have hne : h.get .used (h.heapPtr + after 12 0 l1) ≠ 0 := fun h0 => by simp [hused.mp h0] at hb
        rw [List.filter_cons_of_pos (by simpa using hne), List.map_cons, List.sum_cons, hrest, hdata]
        rfl
  exact hgen [] bs ht

end Heap

namespace Mem

open Heap

variable {s : Sys} {h h' : Heap} {bs bs' : List Block} {e : Event}

/-- The counters of the heap. -/
structure Counted (h : Heap) (bs : List Block) : Prop where
  used : h.usedMem = usedBytes 12 bs
  max : h.usedMem ≤ h.maxMem

/-- One step: the counter follows the blocks, and the maximum follows the counter. -/
theorem Change.counted (hchange : Change h bs e h' bs') (hl : Layout h bs) (hc : Counted h bs) :
    Counted h' bs' ∧ h'.maxMem = max h.maxMem h'.usedMem := by
  have hfits := hl.tiled.region.fits
  -- the counter never wraps
  have hbound : ∀ {h bs}, Layout h bs → usedBytes 12 bs ≤ h.memSizeAligned + 12 :=
    fun hl => hl.tiled.space ▸ usedBytes_le 12 _
  have hsmall := hbound hl
  have hused := hc.used
  have hmax := hc.max
  have hsmall' := hbound (hchange.layout hl)
  cases hchange with
  | same => exact ⟨hc, by omega⟩
  | write hx hi => exact ⟨⟨hused, hmax⟩, (max_eq_left hmax).symm⟩
  | @malloc _ x k size m _ _ hx hs4 hfit halloc hout =>
    have hcounts := (hl.fills hx hs4 hfit halloc hout).counts
    have hnew : usedBytes 12 bs' = 12 + m + otherBytes 12 bs' x :=
      usedBytes_of_used (by decide) ((hout.used x m).mpr (.inl ⟨rfl, rfl⟩))
    have hold : usedBytes 12 bs = otherBytes 12 bs x := usedBytes_of_unused fun j hj => by
      cases hj.unique (by decide) hx
    have hother : otherBytes 12 bs' x = otherBytes 12 bs x := by
      refine otherBytes_congr (by decide) fun y j hy => ?_
      rw [hout.used]
      exact or_iff_right fun heq => hy heq.1
    rw [hout.region.memSizeAligned] at hsmall'
    have heq : h'.usedMem = usedBytes 12 bs' := by
      rw [hcounts.usedMem, add32_eq (by omega)]
      omega
    exact ⟨⟨heq, by rw [hcounts.maxMem]; exact le_max_right ..⟩, hcounts.maxMem⟩
  | @free _ x n _ _ hx hfree hl' hreg hiff =>
    have hfrees := hl.frees hx hfree hl'
    have hused' := hfrees.usedMem
    have hmax' := hfrees.maxMem
    have hold : usedBytes 12 bs = 12 + n + otherBytes 12 bs x := usedBytes_of_used (by decide) hx
    have hnew : usedBytes 12 bs' = otherBytes 12 bs' x :=
      usedBytes_of_unused fun j hj => ((hiff x j).mp hj).1 rfl
    have hother : otherBytes 12 bs' x = otherBytes 12 bs x :=
      otherBytes_congr (by decide) fun y j hy => by rw [hiff, and_iff_right hy]
    rw [sub32_eq (by omega) (by omega)] at hused'
    exact ⟨⟨by omega, by omega⟩, by omega⟩
  | @shrink x n t newsize _ _ hx hcut hshrink hs =>
    have hcuts := hl.cuts hx (rtAlign_mod_four newsize) hcut.le hshrink hs.layout
    have hused' := hcuts.usedMem
    have hmax' := hcuts.maxMem
    have hold : usedBytes 12 bs = 12 + n + otherBytes 12 bs x := usedBytes_of_used (by decide) hx
    have hnew : usedBytes 12 bs' = 12 + rtAlign newsize + otherBytes 12 bs' x :=
      usedBytes_of_used (by decide) ((hs.used x _).mpr (.inl ⟨rfl, rfl⟩))
    have hother : otherBytes 12 bs' x = otherBytes 12 bs x := by
      refine otherBytes_congr (by decide) fun y j hy => ?_
      rw [hs.used, or_iff_right fun heq => hy heq.1, and_iff_right hy]
    rw [sub32_eq (by omega) (by omega)] at hused'
    exact ⟨⟨by omega, by omega⟩, by omega⟩

section Results

variable {mem : Nat → UInt8} {beginAddr endAddr : Nat} {es : List Event}

/-- What `rt_memory_info` reports after the events `es`. -/
structure InfoExact (h : Heap) (es : List Event) (s : Sys) : Prop where
  used : ∃ offs, s.heap.Walk 0 offs ∧ s.heap.rtMemoryInfo.used = s.heap.usedSum offs
  maxUsed : IsGreatest {u | ∃ fs m, fs <+: es ∧ run step (Sys.start h) fs = some m ∧
    m.heap.rtMemoryInfo.used = u} s.heap.rtMemoryInfo.maxUsed

/-- The statistics are exact, if no `rt_calloc` meets the rounding. -/
theorem memory_info_exact (hinit : rtSystemHeapInit mem beginAddr endAddr = some h)
    (hsafe : Along step CallocSafe (Sys.start h) es) (hrun : run step (Sys.start h) es = some s) :
    InfoExact h es s := by
  have hf := fresh_init hinit
  obtain ⟨hused0, hmax0⟩ := hf.stats
  by_cases hmin : 12 ≤ h.memSizeAligned
  · have hstart : Counted h [⟨false, h.memSizeAligned⟩] := ⟨by rw [hused0]; rfl, by omega⟩
    have hstep : ∀ s e s', (∃ bs, Inv s bs ∧ Counted s.heap bs) → CallocSafe s e →
        step s e = some s' → (∃ bs, Inv s' bs ∧ Counted s'.heap bs) ∧
          s'.heap.maxMem = max s.heap.maxMem s'.heap.usedMem := by
      rintro s e s' ⟨bs, hi, hc⟩ hsafe hstep
      obtain ⟨bs', hi', hchange⟩ := hi.change hsafe hstep
      obtain ⟨hc', hmax⟩ := hchange.counted hi.layout hc
      exact ⟨⟨bs', hi', hc'⟩, hmax⟩
    obtain ⟨bs, hi, hc⟩ := run_invariant_along (I := fun s => ∃ bs, Inv s bs ∧ Counted s.heap bs)
      (fun s e s' hI hP h => (hstep s e s' hI hP h).1) ⟨_, inv_start hinit hmin, hstart⟩ hsafe hrun
    constructor
    · exact ⟨_, hi.layout.wellFormed.chain, hc.used.trans hi.layout.tiled.usedSum_eq.symm⟩
    · have hpeak : (fun s : Sys => s.heap.maxMem) (Sys.start h) =
          (fun s : Sys => s.heap.usedMem) (Sys.start h) := hmax0.trans hused0.symm
      exact run_peak hstep ⟨_, inv_start hinit hmin, hstart⟩ hpeak hsafe hrun
  · -- a small heap stays as it is
    have hsame : ∀ {fs m}, run step (Sys.start h) fs = some m → m = Sys.start h :=
      fun hm => run_tiny hf (by omega) hm
    obtain rfl := hsame hrun
    constructor
    · refine ⟨[0], hf.walk, ?_⟩
      show h.usedMem = h.usedSum [0]
      rw [hused0, usedSum, List.filter_cons_of_neg (by simp [hf.used])]
      rfl
    · show IsGreatest _ h.maxMem
      refine ⟨⟨[], Sys.start h, List.nil_prefix, rfl, hused0.trans hmax0.symm⟩, ?_⟩
      rintro u ⟨fs, m, -, hm, rfl⟩
      obtain rfl := hsame hm
      exact (hused0.trans hmax0.symm).le

end Results

/-- The statistics after a block was filled, another one moved, and the first one freed. -/
theorem memory_info_exact_moved :
    moved.heap.rtMemoryInfo = ⟨128, 28, 76⟩ ∧ InfoExact freshHeap movedEvents moved :=
  ⟨by decide +kernel, memory_info_exact freshHeap_init moved_safe moved_eq⟩

/-- `rt_calloc(1, 0xfffffffd)` gets a block of 12 bytes before another one, and its `rt_memset` clears
the used mark of that one. -/
def clearedEvents : List Event :=
  [.malloc 12, .malloc 12, .free (some 4108), .calloc 0 1 0xfffffffd] ++ List.replicate 16 (.advance 0)

def cleared : Sys := endState step (Sys.start freshHeap) clearedEvents

/-- 48 bytes are reported, and the blocks with a used mark have 24. -/
theorem memory_info_wrong :
    rtSystemHeapInit (fun _ => 0) 4096 4248 = some freshHeap ∧
      run step (Sys.start freshHeap) clearedEvents = some cleared ∧
      ¬ InfoExact freshHeap clearedEvents cleared := by
  refine ⟨freshHeap_init, run_endState (by decide +kernel), ?_⟩
  rintro ⟨⟨offs, hwalk, hused⟩, -⟩
  have hwalk' : cleared.heap.Walk 0 [0, 24, 48] := by decide +kernel
  rw [hwalk.unique hwalk'] at hused
  revert hused
  decide +kernel

end Mem

end RtThread
