-- SUMMARY: The data of the blocks of the system heap.
import ZigbeeGateway.Kernel.KserviceMem
import ZigbeeGateway.Kernel.MemLfree

/-!
# The data of the blocks

A call writes to headers, to the data of the block that it fills, and to nothing else. The blocks in use
lie as before, so their data are kept.

The calls of this module run to their end without another thread in between, so that it makes sense to
compare the data before and after. They begin in any state that the threads can reach.
-/

namespace RtThread

open Run Word ByteMem Tiling Function
open Option (bind_eq_some_iff map_eq_some_iff)

namespace Heap

variable {h h' h1 : Heap} {bs bs' : List Block} {b : Block} {x y n m k size newsize q : Nat}

/-! ## Whole calls -/

/-- `rt_memcpy(nmem, rmem, n)`. -/
def memcpy (h : Heap) (nmem rmem n : Nat) : Heap := { h with mem := rtMemcpy h.mem nmem rmem n }

/-- `rt_memset(p, 0, n)`. -/
def memset (h : Heap) (p n : Nat) : Heap := { h with mem := rtMemset h.mem p 0 n }

/-- `rt_realloc` when no other thread runs before it returns. -/
def reallocCall (h : Heap) (rmem : Option Nat) (newsize : Nat) : Option (Heap × Option Nat) := do
  let (h, resized) ← h.rtRealloc rmem newsize
  match resized with
  | .returned result => return (h, result)
  | .move rmem size newsize =>
    let (h, nmem) ← h.rtMalloc newsize
    match nmem with
    | none => return (h, none)
    | some nmem =>
      let h := h.memcpy nmem rmem (if size < newsize then size else newsize)
      let h ← h.rtFree (some rmem)
      return (h, some nmem)

/-- `rt_calloc` when no other thread runs before it returns. -/
def callocCall (h : Heap) (count size : Nat) : Option (Heap × Option Nat) := do
  let (h, p) ← h.rtMalloc (mul32 count size)
  match p with
  | none => return (h, none)
  | some p => return (h.memset p (mul32 count size), some p)

/-! ## The calls -/

/-- How `rt_realloc` on the block at `x` with `n` bytes ends: it fails and changes nothing, or the block
at `z` has the data. -/
inductive Resizes (h : Heap) (bs : List Block) (x n newsize : Nat) :
    Heap → List Block → Option Nat → Prop where
  | failed : Resizes h bs x n newsize h bs none
  | done {h' : Heap} {bs' : List Block} {z m : Nat} (layout : Layout h' bs') (region : SameRegion h h')
    (others : ∀ y m, y ≠ x → At 12 0 bs y ⟨true, m⟩ → At 12 0 bs' y ⟨true, m⟩ ∧
      ∀ i, i < m → h'.mem (h.heapPtr + y + 12 + i) = h.mem (h.heapPtr + y + 12 + i))
    (new : At 12 0 bs' z ⟨true, m⟩) (size : newsize ≤ m)
    (place : z = x ∨ (∀ k, ¬ At 12 0 bs' x ⟨true, k⟩) ∧ ∃ k, At 12 0 bs z ⟨false, k⟩)
    (data : ∀ i, i < n → i < newsize →
      h'.mem (h.heapPtr + z + 12 + i) = h.mem (h.heapPtr + x + 12 + i)) :
    Resizes h bs x n newsize h' bs' (some (h.heapPtr + z + 12))

theorem Resizes.mono {newsize' : Nat} {result : Option Nat}
    (hres : Resizes h bs x n newsize' h' bs' result) (hle : newsize ≤ newsize') :
    Resizes h bs x n newsize h' bs' result := by
  cases hres with
  | failed => exact .failed
  | done layout region others new size place data =>
    exact .done layout region others new (hle.trans size) place
      fun i hin hinew => data i hin (Nat.lt_of_lt_of_le hinew hle)

/-- The data of the new block are apart from those of a block that was in use. -/
theorem HandsOut.apart {c : Nat} (hout : HandsOut h h1 bs bs' y m) (hx : At 12 0 bs x ⟨true, n⟩)
    (hy : At 12 0 bs y ⟨false, k⟩) (hcn : c ≤ n) (hcm : c ≤ m) :
    h.heapPtr + y + 12 + c ≤ h.heapPtr + x + 12 ∨ h.heapPtr + x + 12 + c ≤ h.heapPtr + y + 12 := by
  have hyx : y ≠ x := by
    rintro rfl
    cases hx.unique (by decide) hy
  have hx1 : At 12 0 bs' x ⟨true, n⟩ := (hout.used x n).mpr (.inr hx)
  have hy1 : At 12 0 bs' y ⟨true, m⟩ := (hout.used y m).mpr (.inl ⟨rfl, rfl⟩)
  rcases Nat.lt_or_gt_of_ne hyx with hlt | hgt
  · have hle := hy1.apart hx1 hlt
    simp only at hle
    omega
  · have hle := hx1.apart hy1 hgt
    simp only at hle
    omega

/-- The move to a new block: `rt_malloc`, `rt_memcpy` and `rt_free`. -/
theorem Fills.move (hout : Fills h h1 bs bs' y m)
    (hx : At 12 0 bs x ⟨true, n⟩) (hy : At 12 0 bs y ⟨false, k⟩) (hm : newsize ≤ m) :
    ∃ h' bs'', (h1.memcpy (h.heapPtr + y + 12) (h.heapPtr + x + 12)
        (if n < newsize then n else newsize)).rtFree (some (h.heapPtr + x + 12)) = some h' ∧
      Resizes h bs x n newsize h' bs'' (some (h.heapPtr + y + 12)) := by
  have hptr := hout.region.heapPtr
  have hyx : y ≠ x := by
    rintro rfl
    cases hx.unique (by decide) hy
  have hx1 : At 12 0 bs' x ⟨true, n⟩ := (hout.used x n).mpr (.inr hx)
  have hy1 : At 12 0 bs' y ⟨true, m⟩ := (hout.used y m).mpr (.inl ⟨rfl, rfl⟩)
  obtain ⟨c, hc⟩ : ∃ c, c = if n < newsize then n else newsize := ⟨_, rfl⟩
  have hcn : c ≤ n ∧ c ≤ m := by
    rw [hc]
    split <;> omega
  have hmin : ∀ i, i < n → i < newsize → i < c := by
    intro i hin hinew
    rw [hc]
    split <;> assumption
  have hapart := hout.apart hx hy hcn.1 hcn.2
  rw [← hc, Heap.memcpy, rtMemcpy_eq_copy hapart]
  obtain ⟨h2, hh2⟩ : ∃ h2 : Heap,
    h2 = { h1 with mem := copy h1.mem (h.heapPtr + y + 12) (h.heapPtr + x + 12) c } := ⟨_, rfl⟩
  have hptr2 : h2.heapPtr = h.heapPtr := by rw [hh2, ← hptr]
  have hmem2 : h2.mem = copy h1.mem (h.heapPtr + y + 12) (h.heapPtr + x + 12) c := by rw [hh2]
  have hreg2 : SameRegion h h2 := by
    rw [hh2]
    exact ⟨hout.region.heapPtr, hout.region.heapEnd, hout.region.memSizeAligned⟩
  have hl2 : Layout h2 bs' := by
    rw [hh2]
    refine hout.layout.setData hy1 fun a ha => copy_of_apart ?_
    simp only at ha
    omega
  rw [← hh2]
  obtain ⟨h', bs'', hfree, hfrees⟩ := hl2.rtFree hx1
  have hused := hfrees.used
  have hkept := fun {z b i} => hfrees.data (y := z) (b := b) (i := i)
  simp only [hptr2, hmem2] at hfree hkept
  refine ⟨h', bs'', hfree, .done hfrees.layout (hreg2.trans hfrees.region) ?_ ((hused y m).mpr ⟨hyx, hy1⟩) hm
    (.inr ⟨fun j hj => ((hused x j).mp hj).1 rfl, k, hy⟩) ?_⟩
  · intro z j hz hat
    have hat1 : At 12 0 bs' z ⟨true, j⟩ := (hout.used z j).mpr (.inr hat)
    refine ⟨(hused z j).mpr ⟨hz, hat1⟩, fun i hi => ?_⟩
    rw [hkept hat1 hi, copy_of_apart, hout.data hat hi]
    have hzy : z ≠ y := by
      rintro rfl
      cases hat.unique (by decide) hy
    rcases Nat.lt_or_gt_of_ne hzy with hlt | hgt
    · have hle := hat1.apart hy1 hlt
      simp only at hle
      omega
    · have hle := hy1.apart hat1 hgt
      simp only at hle
      omega
  · intro i hin hinew
    have hic := hmin i hin hinew
    have him : i < m := by omega
    rw [hkept hy1 him, copy_apply (by omega), if_pos (by omega)]
    have hsrc : h.heapPtr + x + 12 + (h.heapPtr + y + 12 + i - (h.heapPtr + y + 12)) =
        h.heapPtr + x + 12 + i := by omega
    rw [hsrc, hout.data hx hin]

theorem Layout.reallocCall (hl : Layout h bs) (hx : At 12 0 bs x ⟨true, n⟩)
    (hsize : newsize ≤ 0xfffffffc) :
    ∃ h' bs' result, h.reallocCall (some (h.heapPtr + x + 12)) newsize = some (h', result) ∧
      Resizes h bs x n newsize h' bs' result := by
  have hle := le_rtAlign hsize
  rcases hl.rtRealloc_cases hx newsize with
    ⟨-, hcase⟩ | ⟨rfl, hcase⟩ | ⟨hcut, hcase⟩ | ⟨-, hcase⟩
  · exact ⟨h, bs, none, by rw [Heap.reallocCall, hcase]; rfl, .failed⟩
  · exact ⟨h, bs, _, by rw [Heap.reallocCall, hcase]; rfl,
      .done hl ⟨rfl, rfl, rfl⟩ (fun y m _ hy => ⟨hy, fun i _ => rfl⟩) hx hle (.inl rfl)
        fun i _ _ => rfl⟩
  · obtain ⟨h', bs', hshrink, hs⟩ := hl.shrink hx (rtAlign_mod_four newsize) hcut.le
    refine ⟨h', bs', _, by rw [Heap.reallocCall, hcase, hshrink]; rfl, .done hs.layout hs.region ?_
      ((hs.used x _).mpr (.inl ⟨rfl, rfl⟩)) hle (.inl rfl) ?_⟩
    · intro y m hyx hy
      refine ⟨(hs.used y m).mpr (.inr ⟨hyx, hy⟩), fun i hi => ?_⟩
      exact hs.data hy hi fun heq => absurd heq hyx
    · intro i hin hinew
      exact hs.data hx hin fun _ => by omega
  · -- the size was rounded once, and rounding it again changes nothing
    have hle' := le_rtAlign (rtAlign_le newsize)
    have hneed := need_spec (rtAlign newsize)
    rcases hl.rtMalloc (rtAlign newsize) with
      ⟨hnone, -⟩ | ⟨h1, bs1, y, k, m, hmalloc, -, hout, hm, hy, -⟩
    · exact ⟨h, bs, none, by simp [Heap.reallocCall, hcase, hnone], .failed⟩
    · obtain ⟨h', bs'', hfree, hres⟩ := hout.move hx hy (by omega : rtAlign newsize ≤ m)
      exact ⟨h', bs'', _, by simp [Heap.reallocCall, hcase, hmalloc, hfree], hres.mono hle⟩

/-- `rt_calloc` returns a block of zeros, if the product of its arguments can be rounded. -/
theorem Layout.callocCall {count : Nat} (hl : Layout h bs)
    (hsize : count * size ≤ 0xfffffffc) (hcall : h.callocCall count size = some (h', some q)) :
    ∃ bs' y m, Layout h' bs' ∧ SameRegion h h' ∧ q = h.heapPtr + y + 12 ∧ At 12 0 bs' y ⟨true, m⟩ ∧
      count * size ≤ m ∧ ∀ i, i < count * size → h'.mem (q + i) = 0 := by
  have hmul : mul32 count size = count * size := Nat.mod_eq_of_lt (by unfold size32; omega)
  rw [Heap.callocCall, hmul] at hcall
  have hneed := need_spec (count * size)
  rcases hl.rtMalloc (count * size) with ⟨hnone, -⟩ | ⟨h1, bs1, y, k, m, hmalloc, -, hout, hm, -, -⟩
  · simp [hnone] at hcall
  · have hle := le_rtAlign hsize
    have hptr := hout.region.heapPtr
    have hy1 : At 12 0 bs1 y ⟨true, m⟩ := (hout.used y m).mpr (.inl ⟨rfl, rfl⟩)
    obtain ⟨rfl, rfl⟩ : h1.memset (h.heapPtr + y + 12) (count * size) = h' ∧ h.heapPtr + y + 12 = q := by
      simpa [hmalloc] using hcall
    refine ⟨bs1, y, m, hout.layout.setData hy1 fun a ha => ?_, ?_, rfl, hy1, by omega, fun i hi => ?_⟩
    · rw [hptr] at ha
      simp only at ha
      rw [rtMemset_apply, if_neg (by omega)]
    · exact ⟨hptr, hout.region.heapEnd, hout.region.memSizeAligned⟩
    · show rtMemset _ _ _ _ _ = _
      rw [rtMemset_apply, if_pos (by omega)]
      rfl

/-! ## Blocks by their pointers -/

/-- The pointer `p` is the data of a block in use. -/
def Used (h : Heap) (p : Nat) : Prop :=
  ∃ offs, h.Walk 0 offs ∧ ∃ o ∈ offs, p = h.heapPtr + o + sizeofStructMem ∧
    h.get .used (h.heapPtr + o) ≠ 0

/-- The number of data bytes of the block with the pointer `p`. -/
def blockSize (h : Heap) (p : Nat) : Nat := h.dataSize (p - sizeofStructMem - h.heapPtr)

/-- The block with the pointer `p` is in use after a call, with the size and the contents that it had. -/
structure SameBlock (h h' : Heap) (p : Nat) : Prop where
  used : h'.Used p
  size : h'.blockSize p = h.blockSize p
  data : ∀ i, i < h.blockSize p → h'.mem (p + i) = h.mem (p + i)

theorem Layout.used_iff (hl : Layout h bs) :
    h.Used (h.heapPtr + x + 12) ↔ ∃ n, At 12 0 bs x ⟨true, n⟩ := by
  constructor
  · rintro ⟨offs, hwalk, o, ho, heq, hused⟩
    rw [sizeofStructMem] at heq
    obtain rfl : o = x := by omega
    obtain ⟨⟨used, n⟩, hat⟩ := (hl.mem_walk hwalk).mp ho
    have huse : used = true := by
      by_contra hfalse
      exact hused ((hl.tiled.used hat).mpr (by simpa using hfalse))
    subst huse
    exact ⟨n, hat⟩
  · rintro ⟨n, hat⟩
    exact ⟨_, hl.wellFormed.chain, x, mem_offsets.mpr ⟨_, hat⟩, rfl, hl.tiled.used_ne hat⟩

theorem Layout.blockSize (hl : Layout h bs) (hx : At 12 0 bs x b) :
    h.blockSize (h.heapPtr + x + 12) = b.size := by
  rw [Heap.blockSize, sizeofStructMem, Nat.add_sub_cancel, Nat.add_sub_cancel_left,
    hl.tiled.dataSize hx]

/-- A block in use of the layout, by its pointer. -/
theorem Layout.returned (hl : Layout h' bs) (hreg : SameRegion h h') (hx : At 12 0 bs x ⟨true, m⟩)
    (hm : size ≤ m) : h'.Used (h.heapPtr + x + 12) ∧ size ≤ h'.blockSize (h.heapPtr + x + 12) := by
  rw [← hreg.heapPtr]
  exact ⟨hl.used_iff.mpr ⟨m, hx⟩, hm.trans (hl.blockSize hx).ge⟩

theorem Layout.rtMalloc_size (hl : Layout h bs) (hsize : size ≤ 0xfffffffc)
    (hmalloc : h.rtMalloc size = some (h', some q)) : h'.Used q ∧ size ≤ h'.blockSize q := by
  have hle := le_rtAlign hsize
  have hneed := need_spec size
  rcases hl.rtMalloc size with ⟨hnone, -⟩ | ⟨h1, bs1, y, k, m, hsome, -, hout, hm, -⟩
  · cases hnone.symm.trans hmalloc
  · cases hsome.symm.trans hmalloc
    exact hout.layout.returned hout.region ((hout.used y m).mpr (.inl ⟨rfl, rfl⟩))
      (by omega)

/-- `rt_realloc` of no block is `rt_malloc` of the rounded size, or it fails. -/
theorem reallocCall_none (hcall : h.reallocCall none newsize = some (h', some q)) :
    h.rtMalloc (rtAlign newsize) = some (h', some q) := by
  obtain ⟨⟨h1, resized⟩, hrealloc, hresult⟩ := bind_eq_some_iff.mp hcall
  rw [rtRealloc] at hrealloc
  split at hrealloc
  · cases hrealloc
    cases hresult
  · obtain ⟨⟨h2, result⟩, hmalloc, heq⟩ := map_eq_some_iff.mp hrealloc
    cases heq
    cases hresult
    exact hmalloc

theorem Layout.reallocCall_size (hl : Layout h bs) (hx : At 12 0 bs x ⟨true, n⟩)
    (hsize : newsize ≤ 0xfffffffc)
    (hcall : h.reallocCall (some (h.heapPtr + x + 12)) newsize = some (h', some q)) :
    h'.Used q ∧ newsize ≤ h'.blockSize q := by
  obtain ⟨h1, bs1, result, hcall', hres⟩ := hl.reallocCall hx hsize
  cases hcall.symm.trans hcall'
  cases hres with
  | done layout region others new size place data => exact layout.returned region new size

theorem Layout.sameBlock (hl : Layout h bs) (hl' : Layout h' bs') (hreg : SameRegion h h')
    (hx : At 12 0 bs x ⟨true, n⟩) (hx' : At 12 0 bs' x ⟨true, n⟩)
    (hdata : ∀ i, i < n → h'.mem (h.heapPtr + x + 12 + i) = h.mem (h.heapPtr + x + 12 + i)) :
    SameBlock h h' (h.heapPtr + x + 12) := by
  have hsize : h.blockSize (h.heapPtr + x + 12) = n := hl.blockSize hx
  have hsize' : h'.blockSize (h.heapPtr + x + 12) = n := by
    rw [← hreg.heapPtr]
    exact hl'.blockSize hx'
  have hused : h'.Used (h.heapPtr + x + 12) := by
    rw [← hreg.heapPtr]
    exact hl'.used_iff.mpr ⟨n, hx'⟩
  exact ⟨hused, hsize'.trans hsize.symm, fun i hi => hdata i (hsize ▸ hi)⟩

end Heap

namespace Mem

open Heap

variable {s : Sys} {h h' : Heap} {bs : List Block} {p newsize : Nat} {mem : Nat → UInt8}
  {beginAddr endAddr : Nat} {es : List Event}

/-! ## The calls as runs -/

/-- A call that fills its block: `i` bytes are written, the memory is `m i` and the call is `c i`. -/
def Sys.filled (s : Sys) (t : Nat) (m : Nat → Nat → UInt8) (c : Nat → Call) (i : Nat) : Sys :=
  { s with heap := { s.heap with mem := m i } }.setCall t (c i)

/-- In `s1` the thread `t` has `n` bytes to write. It returns the block `q` and leaves the heap `h'`. -/
def Sys.Ends (s s1 : Sys) (t n q : Nat) (h' : Heap) : Prop :=
  ∃ s', run step s1 (List.replicate (n + 1) (.advance t)) = some s' ∧ s'.heap = h' ∧
    s'.call = update s.call t .idle ∧ q ∈ s'.live

/-- What `rt_realloc(p, newsize)` leaves behind. -/
structure Preserves (s : Sys) (p newsize : Nat) (h' : Heap) (result : Option Nat) : Prop where
  moved : ∀ q, result = some q → h'.Used q ∧ (q = p ∨ ¬ h'.Used p ∧ ∀ k, q ∉ s.owned k) ∧
    ∀ i, i < min (s.heap.blockSize p) newsize → h'.mem (q + i) = s.heap.mem (p + i)
  failed : result = none → SameBlock s.heap h' p
  others : ∀ k, ∀ r ∈ s.owned k, r ≠ p → SameBlock s.heap h' r

theorem Inv.reallocCall (hi : Inv s bs) (hp : p ∈ s.live) (hsize : newsize ≤ 0xfffffffc) :
    ∃ h' result, s.heap.reallocCall (some p) newsize = some (h', result) ∧
      Preserves s p newsize h' result := by
  obtain ⟨x, n, rfl, hx, -⟩ := hi.live p hp
  obtain ⟨h', bs', result, hcall, hres⟩ := hi.layout.reallocCall hx hsize
  refine ⟨h', result, hcall, ?_⟩
  cases hres with
  | failed =>
    refine ⟨nofun, fun _ => ?_, fun k r hr _ => ?_⟩
    · exact hi.layout.sameBlock hi.layout ⟨rfl, rfl, rfl⟩ hx hx fun i _ => rfl
    · obtain ⟨y, m, rfl, hy, -⟩ := hi.owned hr
      exact hi.layout.sameBlock hi.layout ⟨rfl, rfl, rfl⟩ hy hy fun i _ => rfl
  | @done h' bs' z m layout region others new size place data =>
    refine ⟨fun q hq => ?_, nofun, fun k r hr hne => ?_⟩
    · obtain rfl : s.heap.heapPtr + z + 12 = q := Option.some.inj hq
      have hiff := fun {x} => layout.used_iff (x := x)
      simp only [region.heapPtr] at hiff
      refine ⟨hiff.mpr ⟨m, new⟩, ?_, fun i hi' => ?_⟩
      · rcases place with rfl | ⟨hgone, k, hz⟩
        · exact .inl rfl
        · refine .inr ⟨fun hused => ?_, fun j hj => (hi.owned hj).ne_free hz rfl⟩
          obtain ⟨j, hj⟩ := hiff.mp hused
          exact hgone j hj
      · rw [hi.layout.blockSize hx, lt_min_iff] at hi'
        exact data i hi'.1 hi'.2
    · obtain ⟨y, m, rfl, hy, -⟩ := hi.owned hr
      obtain ⟨hy', hdata⟩ := others y m (fun heq => hne (by rw [heq])) hy
      exact hi.layout.sameBlock layout region hy hy' hdata

/-- `rt_realloc` preserves the data and fails cleanly, if no `rt_calloc` has met the rounding. -/
theorem rtRealloc_preserves (hinit : rtSystemHeapInit mem beginAddr endAddr = some h)
    (hsafe : Along step CallocSafe (Sys.start h) es) (hrun : run step (Sys.start h) es = some s)
    (hp : p ∈ s.live) (hsize : newsize ≤ 0xfffffffc) :
    ∃ h' result, s.heap.reallocCall (some p) newsize = some (h', result) ∧
      Preserves s p newsize h' result := by
  by_cases hmin : 12 ≤ h.memSizeAligned
  · obtain ⟨bs, hi⟩ := (inv_start hinit hmin).run hsafe hrun
    exact hi.reallocCall hp hsize
  · obtain rfl := run_tiny (fresh_init hinit) (by omega) hrun
    cases hp

/-- A block of 20 bytes with one byte set to 7, and a block behind it. -/
def filledEvents : List Event := [.malloc 20, .malloc 12, .write 4108 19 7]

def filled : Sys := endState step (Sys.start freshHeap) filledEvents

theorem filled_eq : run step (Sys.start freshHeap) filledEvents = some filled := run_endState (by decide +kernel)

theorem filled_safe : Along step CallocSafe (Sys.start freshHeap) filledEvents := callocSafe_of_small (by decide)

theorem filled_live : ∀ p ∈ some 4108, p ∈ filled.live := by decide +kernel

/-- The block is moved to 4164, and the byte with it. -/
theorem rtRealloc_preserves_filled :
    ∃ h' result, filled.heap.reallocCall (some 4108) 40 = some (h', result) ∧
      Preserves filled 4108 40 h' result ∧ result = some 4164 ∧ h'.mem 4183 = 7 := by
  have hsize : 40 ≤ 0xfffffffc := by decide
  obtain ⟨h', result, hcall, hok⟩ :=
    rtRealloc_preserves freshHeap_init filled_safe filled_eq (filled_live 4108 rfl) hsize
  have hshow : (filled.heap.reallocCall (some 4108) 40).map (fun r => (r.2, r.1.mem 4183)) =
      some (some 4164, 7) := by decide +kernel
  rw [hcall, Option.map_some, Option.some.injEq, Prod.mk.injEq] at hshow
  exact ⟨h', result, hcall, hok, hshow⟩

/-- `rt_calloc(1, 0xfffffffd)` has got a block of 12 bytes before two others, and its `rt_memset` has
cleared the first 8 bytes of the next header. -/
def smashedEvents : List Event :=
  [.malloc 12, .malloc 12, .malloc 12, .free (some 4108), .calloc 0 1 0xfffffffd] ++
    List.replicate 20 (.advance 0)

def smashed : Sys := endState step (Sys.start freshHeap) smashedEvents

/-- `rt_realloc` of the block at 4132 returns it, and the block at 4156 is not in use any more. -/
theorem rtRealloc_destroys :
    rtSystemHeapInit (fun _ => 0) 4096 4248 = some freshHeap ∧
      run step (Sys.start freshHeap) smashedEvents = some smashed ∧ 4132 ∈ smashed.live ∧
      ∃ h' result, smashed.heap.reallocCall (some 4132) 12 = some (h', result) ∧
        ¬ Preserves smashed 4132 12 h' result := by
  refine ⟨freshHeap_init, run_endState (by decide +kernel), by decide +kernel, ?_⟩
  have hshow : (smashed.heap.reallocCall (some 4132) 12).map (fun r => (r.1.heapPtr, r.1.get .used 4144)) =
      some (4096, 0) := by
    decide +kernel
  have hlive : 4156 ∈ smashed.owned none := by decide +kernel
  obtain ⟨⟨h', result⟩, hcall, hheap⟩ := map_eq_some_iff.mp hshow
  obtain ⟨-, hmark⟩ := Prod.mk.injEq .. ▸ hheap
  refine ⟨h', result, hcall, fun hok => ?_⟩
  obtain ⟨offs, -, o, -, hp, hused⟩ := (hok.others none 4156 hlive (by decide)).used
  simp only [sizeofStructMem] at hp
  have haddr : h'.heapPtr + o = 4144 := by omega
  rw [haddr] at hused
  exact hused hmark

/-- The blocks that are returned have the sizes that were asked for, if the rounding and the product
do not wrap. -/
theorem alloc_sizes (hinit : rtSystemHeapInit mem beginAddr endAddr = some h)
    (hsafe : Along step CallocSafe (Sys.start h) es) (hrun : run step (Sys.start h) es = some s) :
    (∀ size h' q, size ≤ 0xfffffffc → s.heap.rtMalloc size = some (h', some q) →
      h'.Used q ∧ size ≤ h'.blockSize q) ∧
    (∀ rmem size h' q, (∀ p ∈ rmem, p ∈ s.live) → size ≤ 0xfffffffc →
      s.heap.reallocCall rmem size = some (h', some q) → h'.Used q ∧ size ≤ h'.blockSize q) ∧
    (∀ count size h' q, count * size ≤ 0xfffffffc →
      s.heap.callocCall count size = some (h', some q) →
      h'.Used q ∧ count * size ≤ h'.blockSize q ∧ ∀ i, i < count * size → h'.mem (q + i) = 0) := by
  by_cases hmin : 12 ≤ h.memSizeAligned
  · obtain ⟨bs, hi⟩ := (inv_start hinit hmin).run hsafe hrun
    refine ⟨fun size h' q hsize => hi.layout.rtMalloc_size hsize, ?_, ?_⟩
    · intro rmem size h' q hlive hsize hcall
      cases rmem with
      | none =>
        obtain ⟨hused, hle⟩ := hi.layout.rtMalloc_size (rtAlign_le size) (reallocCall_none hcall)
        exact ⟨hused, (le_rtAlign hsize).trans hle⟩
      | some p =>
        obtain ⟨x, n, rfl, hx, -⟩ := hi.live p (hlive p rfl)
        exact hi.layout.reallocCall_size hx hsize hcall
    · intro count size h' q hsize hcall
      obtain ⟨bs', y, m, hl', hreg, rfl, hy, hm, hzero⟩ := hi.layout.callocCall hsize hcall
      obtain ⟨hused, hle⟩ := hl'.returned hreg hy hm
      exact ⟨hused, hle, hzero⟩
  · -- a small heap returns no block
    obtain rfl := run_tiny (fresh_init hinit) (by omega) hrun
    have hnull : ∀ {size h' q}, h.rtMalloc size ≠ some (h', some q) :=
      rtMalloc_tiny_ne (fresh_init hinit) (by omega)
    refine ⟨fun size h' q _ hmalloc => absurd hmalloc hnull, ?_, ?_⟩
    · intro rmem size h' q hlive _ hcall
      cases rmem with
      | none => exact absurd (reallocCall_none hcall) hnull
      | some p => cases hlive p rfl
    · intro count size h' q _ hcall
      obtain ⟨⟨h1, result⟩, hmalloc, hresult⟩ := bind_eq_some_iff.mp hcall
      cases result with
      | none => cases hresult
      | some p => exact absurd hmalloc hnull

/-- The three calls after the block with 20 bytes was filled. -/
theorem alloc_sizes_filled :
    ∃ h1 h2 h3,
      filled.heap.rtMalloc 9 = some (h1, some 4164) ∧ h1.Used 4164 ∧ 9 ≤ h1.blockSize 4164 ∧
      filled.heap.reallocCall (some 4108) 30 = some (h2, some 4164) ∧ h2.Used 4164 ∧
        30 ≤ h2.blockSize 4164 ∧
      filled.heap.callocCall 3 5 = some (h3, some 4164) ∧ h3.Used 4164 ∧ 3 * 5 ≤ h3.blockSize 4164 ∧
        ∀ i, i < 3 * 5 → h3.mem (4164 + i) = 0 := by
  obtain ⟨hmalloc, hrealloc, hcalloc⟩ := alloc_sizes freshHeap_init filled_safe filled_eq
  have h1 : (filled.heap.rtMalloc 9).map Prod.snd = some (some 4164) := by decide +kernel
  have h2 : (filled.heap.reallocCall (some 4108) 30).map Prod.snd = some (some 4164) := by decide +kernel
  have h3 : (filled.heap.callocCall 3 5).map Prod.snd = some (some 4164) := by decide +kernel
  obtain ⟨⟨h1, r1⟩, hcall1, rfl⟩ := map_eq_some_iff.mp h1
  obtain ⟨⟨h2, r2⟩, hcall2, rfl⟩ := map_eq_some_iff.mp h2
  obtain ⟨⟨h3, r3⟩, hcall3, rfl⟩ := map_eq_some_iff.mp h3
  obtain ⟨hused1, hsize1⟩ := hmalloc 9 h1 4164 (by decide) hcall1
  obtain ⟨hused2, hsize2⟩ := hrealloc (some 4108) 30 h2 4164 filled_live (by decide) hcall2
  exact ⟨h1, h2, h3, hcall1, hused1, hsize1, hcall2, hused2, hsize2, hcall3,
    hcalloc 3 5 h3 4164 (by decide) hcall3⟩

/-- `rt_malloc(0xfffffffd)` returns a block of 12 bytes. -/
theorem rtMalloc_rounds_to_zero :
    rtSystemHeapInit (fun _ => 0) 4096 4248 = some freshHeap ∧
      run step (Sys.start freshHeap) [] = some (Sys.start freshHeap) ∧
      ∃ h', freshHeap.rtMalloc 0xfffffffd = some (h', some 4108) ∧
        ¬ 0xfffffffd ≤ h'.blockSize 4108 := by
  refine ⟨freshHeap_init, rfl, ?_⟩
  have hshow : (freshHeap.rtMalloc 0xfffffffd).map (fun r => (r.2, r.1.blockSize 4108)) =
      some (some 4108, 12) := by decide +kernel
  obtain ⟨⟨h', result⟩, hmalloc, heq⟩ := map_eq_some_iff.mp hshow
  obtain ⟨rfl, hsize⟩ := Prod.mk.injEq .. ▸ heq
  exact ⟨h', hmalloc, by rw [hsize]; decide⟩

end Mem

end RtThread
