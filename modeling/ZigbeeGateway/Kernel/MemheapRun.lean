-- SUMMARY: A memory heap stays well formed in every run.
import ZigbeeGateway.Kernel.MemheapRealloc

/-!
# Runs of a memory heap

`rt_memheap_init` builds a layout with one free block. The calls keep a layout in which the blocks
in use are the blocks of the live pointers (`Owns`), so every fact about a layout holds in every
reachable state.
-/

namespace RtThread.Memheap

open Run Word ByteMem Cyclic

variable {h h' : Memheap} {n p q x y m size newsize memheap freeHeader startAddr : Nat}
  {mem : Nat → UInt8} {blocks free l1 l2 : List Nat}

/-! ## rt_memheap_init -/

/-- The pool has room for two headers and the smallest block. It lies in the address space, apart
from the header of the free list in the heap object. -/
structure Pool (memheap freeHeader startAddr size : Nat) : Prop where
  min : 60 ≤ size
  size_lt : size < size32
  fits : startAddr + size ≤ size32
  header : freeHeader + 24 ≤ startAddr ∨ startAddr + size ≤ freeHeader
  header_lt : freeHeader < size32
  addr_lt : memheap < size32

@[simp] theorem set_startAddr (h : Memheap) (fld : Field) (p v : Nat) :
    (h.set fld p v).startAddr = h.startAddr := rfl

@[simp] theorem set_availableSize (h : Memheap) (fld : Field) (p v : Nat) :
    (h.set fld p v).availableSize = h.availableSize := rfl

/-- The links after `rt_memheap_init`. -/
theorem rtMemheapInit_get {last : Nat} (hlast : last = startAddr + (rtAlignDown size - 24))
    (hsize : 48 ≤ rtAlignDown size) (hfits : startAddr + rtAlignDown size ≤ size32)
    (hheader : freeHeader + 24 ≤ startAddr ∨ startAddr + rtAlignDown size ≤ freeHeader)
    (hheader_lt : freeHeader < size32) (haddr : memheap < size32)
    (hh : h = rtMemheapInit mem memheap freeHeader startAddr size) :
    (h.get .next startAddr = last ∧ h.get .prev startAddr = last) ∧
      (h.get .next last = startAddr ∧ h.get .prev last = startAddr) ∧
      (h.get .nextFree startAddr = freeHeader ∧ h.get .prevFree startAddr = freeHeader) ∧
      (h.get .nextFree freeHeader = startAddr ∧ h.get .prevFree freeHeader = startAddr) ∧
      h.get .magic startAddr = memheapMagic ∧ h.get .magic last = memheapMagic ||| memheapUsed ∧
      h.get .poolPtr startAddr = memheap := by
  have hstart_lt : startAddr < size32 := by omega
  have hnext : add32 (add32 startAddr (sub32 (rtAlignDown size) (2 * memheapSize))) memheapSize = last := by
    unfold memheapSize
    simp (disch := omega) only [add32_eq, sub32_eq]
    omega
  subst hh
  simp (disch := first | decide | omega) only [rtMemheapInit, initTail, initBlock, initItem, Memheap.insertFree,
    set_addr, set_freeList, set_startAddr, set_availableSize, hnext, get_set_same, get_set_field, get_set_apart,
    and_self]

theorem Pool.rtAlignDown_eq (hpool : Pool memheap freeHeader startAddr size) :
    rtAlignDown size = size / 4 * 4 := by
  rw [RtThread.rtAlignDown_eq, Nat.mod_eq_of_lt hpool.size_lt]

/-- After `rt_memheap_init` the pool is one free block. -/
theorem rtMemheapInit_layout (hpool : Pool memheap freeHeader startAddr size) :
    Layout (rtMemheapInit mem memheap freeHeader startAddr size) [startAddr] [startAddr] := by
  have hdown := hpool.rtAlignDown_eq
  obtain ⟨hmin, hsize, hfits, hheader, hheader_lt, haddr⟩ := hpool
  obtain ⟨h, hh⟩ : ∃ h, h = rtMemheapInit mem memheap freeHeader startAddr size := ⟨_, rfl⟩
  obtain ⟨haddr_eq, hstart, hpoolSize, hblock, hfree, havail⟩ : h.addr = memheap ∧ h.startAddr = startAddr ∧
      h.poolSize = rtAlignDown size ∧ h.blockList = startAddr ∧ h.freeList = freeHeader ∧
      h.availableSize = sub32 (rtAlignDown size) 48 := hh ▸ ⟨rfl, rfl, rfl, rfl, rfl, rfl⟩
  have htail : h.tail = startAddr + (rtAlignDown size - 24) := by
    rw [tail, hstart, hpoolSize]
    omega
  obtain ⟨⟨hnext, hprev⟩, ⟨hnext', hprev'⟩, ⟨hnf, hpf⟩, ⟨hnf', hpf'⟩, hmagic, hused, hptr⟩ :=
    rtMemheapInit_get htail (by omega) (by omega) (by omega) hheader_lt haddr hh
  have hring : Ring h [startAddr] := by
    refine ⟨⟨?_, ?_, ?_, ?_, ?_, ?_⟩, ⟨⟨hnext', hprev, hnext, hprev'⟩, ?_⟩, ?_, ?_, ?_, ?_, ?_⟩
    · omega
    · omega
    · omega
    · omega
    · omega
    · rw [hblock, hstart]
    · rw [List.nodup_cons]
      exact ⟨by rw [List.mem_singleton]; omega, List.nodup_singleton _⟩
    · rw [hstart]
      rfl
    · rw [List.singleton_append, List.pairwise_pair]
      omega
    · simpa using Or.inl hmagic
    · simpa [haddr_eq] using hptr
    · rw [IsUsed, hused]
      decide
  have hunused : ¬ h.IsUsed startAddr := by
    rw [IsUsed, hmagic]
    decide
  have hcycle : Cycle (h.get .nextFree) (h.get .prevFree) h.freeList [startAddr] := by
    rw [hfree]
    refine ⟨⟨hnf', hpf, hnf, hpf'⟩, List.nodup_cons.mpr ⟨?_, List.nodup_singleton _⟩⟩
    rw [List.mem_singleton]
    omega
  rw [← hh]
  refine ⟨⟨⟨hring, hcycle, hring.grid, fun _ hy => hy, fun y hy => .inr (.inr hy)⟩, fun y => ?_,
    List.isChain_singleton _⟩, ?_⟩
  · constructor
    · intro hy
      obtain rfl := List.mem_singleton.mp hy
      exact ⟨hy, hunused⟩
    · exact And.left
  · have hsz := hring.memitemSize_eq (List.mem_singleton_self _)
    rw [havail, bytes_cons, bytes_nil, sub32_eq (by omega) (by omega)]
    omega

/-! ## Live pointers -/

/-- The live pointers, with the sizes that were asked for, are the data of the blocks that are in
use, of which `U` gives the bytes. -/
structure Owns (live : List (Nat × Nat)) (U : Nat → Nat → Prop) : Prop where
  nodup : (live.map Prod.fst).Nodup
  used : ∀ r ∈ live, ∃ x m, r.1 = x + 24 ∧ U x m ∧ r.2 ≤ m
  live : ∀ x m, U x m → x + 24 ∈ live.map Prod.fst

namespace Owns

variable {live : List (Nat × Nat)} {U U' : Nat → Nat → Prop}

theorem congr (ho : Owns live U) (hU : ∀ z k, U' z k ↔ U z k) : Owns live U' := by
  obtain rfl : U' = U := funext fun z => funext fun k => propext (hU z k)
  exact ho

/-- The block `y` comes into use. -/
theorem handOut (ho : Owns live U) (hU : ∀ z k, U' z k ↔ (z = y ∧ k = m) ∨ U z k) (hfresh : ∀ k, ¬ U y k)
    (hsize : size ≤ m) : Owns ((y + 24, size) :: live) U' := by
  refine ⟨?_, fun r hr => ?_, fun z k hz => ?_⟩
  · rw [List.map_cons, List.nodup_cons]
    refine ⟨fun hmem => ?_, ho.nodup⟩
    obtain ⟨r, hr, heq⟩ := List.mem_map.mp hmem
    obtain ⟨x, k, hx, hused, -⟩ := ho.used r hr
    obtain rfl : x = y := by omega
    exact hfresh k hused
  · rcases List.mem_cons.mp hr with rfl | hr
    · exact ⟨y, m, rfl, (hU y m).mpr (.inl ⟨rfl, rfl⟩), hsize⟩
    · obtain ⟨x, k, hx, hused, hk⟩ := ho.used r hr
      exact ⟨x, k, hx, (hU x k).mpr (.inr hused), hk⟩
  · rcases (hU z k).mp hz with ⟨rfl, -⟩ | hz
    · exact List.mem_cons_self
    · exact List.mem_cons_of_mem _ (ho.live z k hz)

/-- The block `x` goes out of use. -/
theorem giveBack (ho : Owns live U) (hU : ∀ z k, U' z k ↔ z ≠ x ∧ U z k) :
    Owns (live.filter fun r => r.1 ≠ x + 24) U' := by
  refine ⟨?_, fun r hr => ?_, fun z k hz => ?_⟩
  · exact ho.nodup.sublist (List.filter_sublist.map _)
  · obtain ⟨hr, hne⟩ := List.mem_filter.mp hr
    obtain ⟨y, k, hy, hused, hk⟩ := ho.used r hr
    refine ⟨y, k, hy, (hU y k).mpr ⟨fun heq => ?_, hused⟩, hk⟩
    simp [hy, heq] at hne
  · obtain ⟨hne, hz⟩ := (hU z k).mp hz
    obtain ⟨r, hr, heq⟩ := List.mem_map.mp (ho.live z k hz)
    refine List.mem_map.mpr ⟨r, List.mem_filter.mpr ⟨hr, ?_⟩, heq⟩
    simpa [heq] using hne

end Owns

/-! ## The invariant -/

/-- The state of a run that started with the heap `h`. -/
structure Inv (h : Memheap) (s : Sys) (blocks free : List Nat) : Prop where
  layout : Layout s.heap blocks free
  region : SameRegion h s.heap
  owns : Owns s.live (UsedAt s.heap blocks)

namespace Inv

variable {s : Sys}

variable (hi : Inv h s blocks free)

include hi

/-- The block of a live pointer. -/
theorem of_isLive (hp : s.IsLive p) : ∃ x n, p = x + 24 ∧ UsedAt s.heap blocks x n := by
  obtain ⟨r, hr, rfl⟩ := List.mem_map.mp hp
  obtain ⟨x, n, hx, hused, -⟩ := hi.owns.used r hr
  exact ⟨x, n, hx, hused⟩

theorem fresh (hx : x ∈ free) (k : Nat) : ¬ UsedAt s.heap blocks x k :=
  fun hused => ((hi.layout.free_iff x).mp hx).2 hused.2.1

theorem alloc {asked : Nat} (hsize : asked ≤ roundSize size) :
    ∃ h' result blocks' free', s.heap.rtMemheapAlloc size = some (h', result) ∧
      Inv h ({ s with heap := h' }.handOut asked result) blocks' free' := by
  obtain ⟨h', result, hrun, halloc⟩ := hi.layout.rtMemheapAlloc size
  cases halloc with
  | none _ => exact ⟨s.heap, none, blocks, free, hrun, hi⟩
  | some hl hreg hmem hle hused =>
    refine ⟨h', _, _, _, hrun, hl, hi.region.trans hreg, ?_⟩
    exact hi.owns.handOut hused (hi.fresh hmem) (Nat.le_trans hsize hle)

theorem free_some (hx : UsedAt s.heap blocks x n) :
    ∃ h' blocks' free', s.heap.rtMemheapFree (some (x + 24)) = some h' ∧
      Inv h ({ s with heap := h' }.giveBack (some (x + 24))) blocks' free' := by
  obtain ⟨h', blocks', free', hrun, hl, hreg, hused⟩ := hi.layout.rtMemheapFree hx
  exact ⟨h', blocks', free', hrun, hl, hi.region.trans hreg, hi.owns.giveBack hused⟩

theorem free' {ptr : Option Nat} (hp : ∀ p ∈ ptr, s.IsLive p) :
    ∃ h' blocks' free', s.heap.rtMemheapFree ptr = some h' ∧
      Inv h ({ s with heap := h' }.giveBack ptr) blocks' free' := by
  cases ptr with
  | none => exact ⟨s.heap, blocks, free, rfl, hi⟩
  | some p =>
    obtain ⟨x, n, rfl, hx⟩ := hi.of_isLive (hp p rfl)
    exact hi.free_some hx

theorem realloc_some (hx : UsedAt s.heap blocks x n) (hpos : 0 < newsize)
    (hle : newsize ≤ 0xfffffff0) :
    ∃ s' blocks' free', s.exec (.realloc (some (x + 24)) newsize) = some s' ∧ Inv h s' blocks' free' := by
  obtain ⟨h', result, hrun, hres⟩ := hi.layout.rtMemheapRealloc hx hpos (.inl (roundSize_le_of_le hle))
  have hne : newsize ≠ 0 := Nat.pos_iff_ne_zero.mp hpos
  cases hres with
  | none _ =>
    refine ⟨s, blocks, free, ?_, hi⟩
    simp [Sys.exec, hrun, hne, Sys.handOut]
  | @some _ blocks' free' y m hl hreg hmem hm hused =>
    refine ⟨{ s.giveBack (some (x + 24)) with heap := h' }.handOut newsize (some (y + 24)), blocks', free', ?_,
      hl, hi.region.trans hreg, ?_⟩
    · simp only [Sys.exec, hrun, Option.bind_eq_bind, Option.bind_some, Option.isSome_some, or_true, if_true]
      rfl
    · -- the old block goes out of use, and the new one comes into use
      have hgone : ∀ z k, (z ≠ x ∧ UsedAt s.heap blocks z k) ↔ z ≠ x ∧ UsedAt s.heap blocks z k :=
        fun _ _ => .rfl
      refine (hi.owns.giveBack hgone).handOut hused (fun k hk => ?_) (Nat.le_trans (roundSize_le (by omega)) hm)
      rcases hmem with rfl | hy
      · exact hk.1 rfl
      · exact hi.fresh hy k hk.2

/-- Every call of the callers returns and keeps the invariant. -/
theorem step {e : Event} (he : s.Allowed e) :
    ∃ s' blocks' free', s.step e = some s' ∧ Inv h s' blocks' free' := by
  rw [Sys.step, if_pos he]
  cases e with
  | alloc size =>
    obtain ⟨h', result, blocks', free', hrun, hi'⟩ := hi.alloc (roundSize_le he)
    exact ⟨_, blocks', free', by rw [Sys.exec, hrun]; rfl, hi'⟩
  | realloc ptr newsize =>
    by_cases hzero : newsize = 0
    · subst hzero
      obtain ⟨h', blocks', free', hrun, hi'⟩ := hi.free' he.2
      refine ⟨_, blocks', free', ?_, hi'⟩
      cases ptr <;> simp [Sys.exec, rtMemheapRealloc, hrun, Sys.handOut, Sys.giveBack]
    · cases ptr with
      | none =>
        have hle : newsize ≤ roundSize (roundSize newsize) := by
          rw [roundSize_idem]
          exact roundSize_le (Nat.le_trans he.1 (by decide))
        obtain ⟨h', result, blocks', free', hrun, hi'⟩ := hi.alloc hle
        refine ⟨_, blocks', free', ?_, hi'⟩
        simp [Sys.exec, rtMemheapRealloc, if_neg hzero, hrun, Sys.giveBack]
      | some p =>
        obtain ⟨x, n, rfl, hx⟩ := hi.of_isLive (he.2 p rfl)
        exact hi.realloc_some hx (Nat.pos_of_ne_zero hzero) he.1
  | free ptr =>
    obtain ⟨h', blocks', free', hrun, hi'⟩ := hi.free' he
    exact ⟨_, blocks', free', by rw [Sys.exec, hrun]; rfl, hi'⟩
  | write p i v =>
    obtain ⟨x, n, rfl, hx⟩ := hi.of_isLive he.1
    have hin := he.2
    rw [memheapSize, Nat.add_sub_cancel] at hin
    have ho : SameOutside s.heap (s.heap.write (x + 24 + i) v) x := by
      refine ⟨⟨rfl, rfl, rfl, rfl, rfl⟩, rfl, fun a ha => ?_⟩
      exact Function.update_of_ne (by omega) ..
    obtain ⟨hl, hused⟩ := hi.layout.of_outside hx.1 ho
    exact ⟨_, blocks, free, rfl, hl, hi.region.trans ho.region, hi.owns.congr hused⟩

end Inv

/-- The pool is cut into the blocks `blocks` and the tailer, and the free list has the blocks
`free`. -/
structure WellFormed (s : Sys) (blocks free : List Nat) : Prop where
  first : blocks.head? = some s.heap.blockList
  start : s.heap.blockList = s.heap.startAddr
  -- from the tailer through the blocks back to the tailer
  ring : Path (s.heap.get .next) (s.heap.get .prev) s.heap.tail blocks s.heap.tail
  inverse : ∀ x ∈ s.heap.tail :: blocks, s.heap.get .prev (s.heap.get .next x) = x ∧
    s.heap.get .next (s.heap.get .prev x) = x
  tiles : ∀ x ∈ blocks, x + 24 + s.heap.memitemSize x = s.heap.get .next x
  stop : s.heap.tail + 24 = s.heap.startAddr + s.heap.poolSize
  freeRing : Path (s.heap.get .nextFree) (s.heap.get .prevFree) s.heap.freeList free s.heap.freeList
  once : free.Nodup
  unused : ∀ x, x ∈ free ↔ x ∈ blocks ∧ ¬ s.heap.IsUsed x
  noHoles : blocks.IsChain fun x y => s.heap.IsUsed x ∨ s.heap.IsUsed y
  available : s.heap.availableSize = (free.map s.heap.memitemSize).sum
  live : ∀ r ∈ s.live, ∃ x ∈ blocks, s.heap.IsUsed x ∧ r.1 = x + 24 ∧ r.2 ≤ s.heap.memitemSize x
  disjoint : s.live.Pairwise fun r r' =>
    r.1 + s.heap.memitemSize (r.1 - 24) ≤ r'.1 ∨ r'.1 + s.heap.memitemSize (r'.1 - 24) ≤ r.1

/-- The data of two blocks does not overlap. -/
theorem Ring.data_apart (hr : Ring h blocks) (hx : x ∈ blocks) (hy : y ∈ blocks) (hne : x ≠ y) :
    x + 24 + h.memitemSize x ≤ y ∨ y + 24 + h.memitemSize y ≤ x := by
  have hxsize := hr.memitemSize_eq hx
  have hysize := hr.memitemSize_eq hy
  have hxy : y ≤ x ∨ h.get .next x ≤ y := by
    obtain ⟨l1, l2, rfl⟩ := List.append_of_mem hx
    exact hr.between (List.mem_cons_of_mem _ hy)
  have hyx : x ≤ y ∨ h.get .next y ≤ x := by
    obtain ⟨l1, l2, rfl⟩ := List.append_of_mem hy
    exact hr.between (List.mem_cons_of_mem _ hx)
  omega

theorem Inv.wellFormed {s : Sys} (hi : Inv h s blocks free) : WellFormed s blocks free := by
  have hr := hi.layout.shape.ring
  have hfree := hi.layout.shape.freeRing
  constructor
  · rw [hr.first, hr.region.blockList]
  · exact hr.region.blockList
  · exact hr.cycle.path
  · exact fun x hx => ⟨hr.cycle.path.prev_next x hx, hr.cycle.path.next_prev x hx⟩
  · intro x hx
    have := hr.memitemSize_eq hx
    omega
  · exact hr.tail_add
  · exact hfree.path
  · exact (List.nodup_cons.mp hfree.nodup).2
  · exact hi.layout.free_iff
  · exact hi.layout.noHoles
  · exact hi.layout.available
  · intro r hr
    obtain ⟨x, m, hx, ⟨hmem, hused, rfl⟩, hle⟩ := hi.owns.used r hr
    exact ⟨x, hmem, hused, hx, hle⟩
  · refine (List.pairwise_map.mp hi.owns.nodup).imp_of_mem fun {r r'} hmem hmem' hne => ?_
    obtain ⟨x, m, hx, hused, -⟩ := hi.owns.used r hmem
    obtain ⟨y, k, hy, hused', -⟩ := hi.owns.used r' hmem'
    have hapart := hr.data_apart hused.1 hused'.1 fun heq => hne (by rw [hx, hy, heq])
    rw [hx, hy, Nat.add_sub_cancel, Nat.add_sub_cancel]
    omega

/-- The invariant of a run from `rt_memheap_init`. -/
theorem inv_run {events : List Event} (hpool : Pool memheap freeHeader startAddr size)
    (hallowed : Along Sys.step Sys.Allowed (Sys.start (rtMemheapInit mem memheap freeHeader startAddr size)) events) :
    ∃ s, run Sys.step (Sys.start (rtMemheapInit mem memheap freeHeader startAddr size)) events = some s ∧
      ∃ blocks free, Inv (rtMemheapInit mem memheap freeHeader startAddr size) s blocks free := by
  refine run_progress_along (fun s e hs he => ?_) ?_ hallowed
  · obtain ⟨blocks, free, hi⟩ := hs
    obtain ⟨s', blocks', free', hstep, hi'⟩ := hi.step he
    exact ⟨s', hstep, blocks', free', hi'⟩
  · have hl : Layout (rtMemheapInit mem memheap freeHeader startAddr size) _ _ := rtMemheapInit_layout hpool
    refine ⟨_, _, hl, ⟨rfl, rfl, rfl, rfl, rfl⟩, List.nodup_nil, nofun, fun x m hx => ?_⟩
    obtain ⟨hmem, hused, -⟩ := hx
    exact absurd hused ((hl.free_iff x).mp hmem).2

/-- In every run of calls with live pointers the heap stays well formed. -/
theorem memheap_wellFormed {events : List Event} (hpool : Pool memheap freeHeader startAddr size)
    (hallowed : Along Sys.step Sys.Allowed (Sys.start (rtMemheapInit mem memheap freeHeader startAddr size)) events) :
    ∃ s, run Sys.step (Sys.start (rtMemheapInit mem memheap freeHeader startAddr size)) events = some s ∧
      s.heap.startAddr = startAddr ∧ s.heap.poolSize = size / 4 * 4 ∧ ∃ blocks free, WellFormed s blocks free := by
  obtain ⟨s, hrun, blocks, free, hi⟩ := inv_run hpool hallowed
  refine ⟨s, hrun, hi.region.startAddr, ?_, blocks, free, hi.wellFormed⟩
  rw [hi.region.poolSize, ← hpool.rtAlignDown_eq]
  rfl

/-- A pool of 400 bytes behind its heap object. -/
def samplePool : Memheap := rtMemheapInit (fun _ => 0) 100 140 1000 400

theorem samplePool_ok : Pool 100 140 1000 400 := by
  constructor <;> decide

/-- Two blocks, of which the second grows to the place of the first. -/
def sampleEvents : List Event :=
  [.alloc 12, .alloc 40, .write 1024 3 7, .alloc 10, .free (some 1024), .realloc (some 1060) 120,
    .realloc (some 1160) 20, .free none]

theorem memheap_wellFormed_sample :
    ∃ s, run Sys.step (Sys.start samplePool) sampleEvents = some s ∧
      s.heap.startAddr = 1000 ∧ s.heap.poolSize = 400 / 4 * 4 ∧ ∃ blocks free, WellFormed s blocks free :=
  memheap_wellFormed samplePool_ok (by decide +kernel)

/-! ## The blocks of a heap -/

/-- The items from `p` on, up to the tailer. -/
def walk (h : Memheap) : Nat → Nat → List Nat
  | 0, _ => []
  | fuel + 1, p => if p = h.tail then [] else p :: h.walk fuel (h.get .next p)

/-- The blocks on the block list, without the tailer. -/
def blockItems (h : Memheap) : List Nat := h.walk h.poolSize h.blockList

/-- The blocks without the used mark. -/
def freeItems (h : Memheap) : List Nat := h.blockItems.filter fun x => ¬ h.IsUsed x

theorem Ring.walk_eq {fuel : Nat} (hr : Ring h (l1 ++ l2)) (hfuel : l2.length ≤ fuel) :
    h.walk fuel (l2.headD h.tail) = l2 := by
  induction l2 generalizing l1 fuel with
  | nil => cases fuel <;> simp [walk]
  | cons x l2 ih =>
    cases fuel with
    | zero => simp at hfuel
    | succ fuel =>
      have hne : x ≠ h.tail := by
        rintro rfl
        exact hr.cycle.not_mem (by simp)
      have hr' : Ring h ((l1 ++ [x]) ++ l2) := by simpa using hr
      rw [List.headD_cons, walk, if_neg hne, hr.next_eq, ih hr' (by simpa using hfuel)]

theorem Ring.blockItems_eq (hr : Ring h blocks) : h.blockItems = blocks := by
  have hall : Ring h ([] ++ blocks) := hr
  have hle := hr.bytes_le (List.nodup_cons.mp hr.cycle.nodup).2 fun _ hy => hy
  have hhead : blocks.headD h.tail = h.blockList := by
    rw [List.headD_eq_head?_getD, hr.first, hr.region.blockList]
    rfl
  rw [blockItems, ← hhead]
  exact hall.walk_eq (by omega)

theorem Layout.mem_freeItems (hl : Layout h blocks free) : x ∈ h.freeItems ↔ x ∈ free := by
  rw [freeItems, hl.shape.ring.blockItems_eq, hl.free_iff]
  simp

theorem Layout.room_freeItems (hl : Layout h blocks free) : h.Room h.freeItems size ↔ h.Room free size := by
  simp only [Room, hl.mem_freeItems]

/-! ## rt_memheap_alloc finds a block -/

theorem roundSize_eq (hsize : size ≤ 0xfffffffc) : roundSize size = max ((size + 3) / 4 * 4) 12 := by
  unfold roundSize memheapMinialloc
  rw [rtAlign_eq, add32_eq (by unfold size32; omega)]
  split <;> omega

theorem Layout.le_available (hl : Layout h blocks free) (hx : x ∈ free) : h.memitemSize x ≤ h.availableSize := by
  rw [hl.available]
  exact List.le_sum_of_mem (List.mem_map_of_mem hx)

/-- `rt_memheap_alloc` returns `RT_NULL` only if no free block is large enough, unless the only free
bytes are a block that has exactly the size. -/
theorem rtMemheapAlloc_complete {events : List Event} {s : Sys} (hpool : Pool memheap freeHeader startAddr size)
    (hallowed : Along Sys.step Sys.Allowed (Sys.start (rtMemheapInit mem memheap freeHeader startAddr size)) events)
    (hrun : run Sys.step (Sys.start (rtMemheapInit mem memheap freeHeader startAddr size)) events = some s)
    {want : Nat} (hle : want ≤ 0xfffffffc) :
    (∀ h', s.heap.rtMemheapAlloc want = some (h', none) →
      ∀ x ∈ s.heap.freeItems, s.heap.memitemSize x < max ((want + 3) / 4 * 4) 12) ↔
    ∀ x ∈ s.heap.freeItems, ¬ (s.heap.memitemSize x = max ((want + 3) / 4 * 4) 12 ∧
      s.heap.availableSize = max ((want + 3) / 4 * 4) 12) := by
  obtain ⟨s', hrun', blocks, free, hi⟩ := inv_run hpool hallowed
  obtain rfl : s = s' := Option.some.inj (hrun.symm.trans hrun')
  obtain ⟨h', result, hcall, halloc⟩ := hi.layout.rtMemheapAlloc want
  rw [roundSize_eq hle] at halloc
  have hroom : Room s.heap free (max ((want + 3) / 4 * 4) 12) ↔ result ≠ none := by
    cases halloc <;> simp [*]
  constructor
  · rintro hcomplete x hx ⟨hexact, havail⟩
    -- the guard refuses the call
    have hnone : result = none := by
      by_contra hsome
      exact Nat.lt_irrefl _ (havail ▸ (hroom.mpr hsome).1)
    exact Nat.lt_irrefl _ (hexact ▸ hcomplete h' (hnone ▸ hcall) x hx)
  · intro hexact h'' hnull x hx
    by_contra hlarge
    have hfree := hi.layout.mem_freeItems.mp hx
    have hxle := hi.layout.le_available hfree
    have hx' := hexact x hx
    cases hcall.symm.trans hnull
    exact hroom.mp ⟨by omega, x, hfree, by omega⟩ rfl

/-- In a fresh pool with one block of 12 bytes a call for 12 bytes fails. -/
theorem rtMemheapAlloc_misses_exact_fit :
    ∃ s h', run Sys.step (Sys.start (rtMemheapInit (fun _ => 0) 100 140 1000 60)) [] = some s ∧
      s.heap.rtMemheapAlloc 12 = some (h', none) ∧ 1000 ∈ s.heap.freeItems ∧ s.heap.memitemSize 1000 = 12 := by
  have hnull : ((rtMemheapInit (fun _ => 0) 100 140 1000 60).rtMemheapAlloc 12).map Prod.snd = some none := by
    decide +kernel
  obtain ⟨⟨h', _⟩, hcall, rfl⟩ := Option.map_eq_some_iff.mp hnull
  exact ⟨_, h', rfl, hcall, by decide +kernel⟩

theorem rtMemheapAlloc_complete_sample :
    ∃ s h', run Sys.step (Sys.start samplePool) [.alloc 300] = some s ∧
      s.heap.rtMemheapAlloc 32 = some (h', none) ∧
      ∀ x ∈ s.heap.freeItems, s.heap.memitemSize x < max ((32 + 3) / 4 * 4) 12 := by
  obtain ⟨s, hrun, havail, ⟨h', _⟩, hcall, rfl⟩ :
      ∃ s ∈ run Sys.step (Sys.start samplePool) [.alloc 300],
        s.heap.availableSize = 28 ∧ ∃ r ∈ s.heap.rtMemheapAlloc 32, r.2 = none := by
    decide +kernel
  have hallowed : Along Sys.step Sys.Allowed (Sys.start samplePool) [.alloc 300] :=
    ⟨by decide, fun _ _ => trivial⟩
  refine ⟨s, h', hrun, hcall, (rtMemheapAlloc_complete samplePool_ok hallowed hrun (by decide)).mpr
    (fun x _ hx => ?_) h' hcall⟩
  rw [havail] at hx
  exact absurd hx.2 (by decide)

/-! ## rt_memheap_realloc with any size -/

/-- `rt_memheap_realloc` fails and changes nothing, or returns a block that is large enough. The heap
keeps its layout. -/
def ReallocSafe (h : Memheap) (x newsize : Nat) : Prop :=
  ∃ h' result, h.rtMemheapRealloc (some (x + 24)) newsize = some (h', result) ∧ (result = none → h' = h) ∧
    ∃ blocks' free', Layout h' blocks' free' ∧
      ∀ p ∈ result, ∃ y m, p = y + 24 ∧ UsedAt h' blocks' y m ∧ newsize ≤ m

/-- A new item on the free list does not overlap the blocks. -/
theorem Layout.insertFree_apart (hl : Layout (h.insertFree y) blocks free) (hy : y < size32) (hx : x ∈ blocks)
    (hne : x ≠ y) : x + 24 ≤ y ∨ y + 24 ≤ x := by
  have hfirst : (h.insertFree y).get .nextFree (h.insertFree y).freeList = y := get_set_same _ _ _ hy
  rw [hl.shape.freeRing.path.next_eq] at hfirst
  refine hl.shape.grid.apart x y (hl.shape.block hx) (hl.shape.freeNode y ?_) hne
  cases free with
  | nil => exact List.mem_cons.mpr (.inl hfirst.symm)
  | cons f fs => exact List.mem_cons_of_mem _ (List.mem_cons.mpr (.inl hfirst.symm))

/-- When the sum with the smallest block wraps, the new item lies in the header of the block. -/
theorem Layout.realloc_wrapped (hl : Layout h blocks free) (hx : UsedAt h blocks x n) (hn : 12 ≤ n)
    (hfree : ¬ h.IsUsed (h.get .next x)) (hlow : 0xfffffff0 < newsize) (hhigh : newsize ≤ 0xfffffffc) :
    ∃ (g : Memheap) (new : Nat), h.rtMemheapRealloc (some (x + 24)) newsize = some (g.insertFree new, some (x + 24)) ∧
      x < new ∧ new < x + 24 := by
  have hr := hl.shape.ring
  have hround : 0xfffffff4 ≤ roundSize newsize ∧ roundSize newsize ≤ 0xfffffffc := by
    rw [roundSize_eq hhigh]
    omega
  have hxle := hr.memitemSize_le hx.1
  have hfits := hr.region.fits
  have htail := hr.tail_add
  have hlast := hr.le_tail hx.1
  have hnext := hr.le_next hx.1
  have hsize := hr.memitemSize_eq hx.1
  have hq : h.get .next x ∈ blocks := by
    refine (List.mem_cons.mp (hr.next_mem hx.1)).resolve_left fun htail => hfree ?_
    rw [htail]
    exact hr.tailUsed
  have hqsize := hr.memitemSize_eq hq
  have hqlt := get_lt h .next (h.get .next x)
  rw [hx.2.2] at hxle hsize
  have hrun : h.rtMemheapRealloc (some (x + 24)) newsize =
      some (h.expand x (h.get .next x) (x + 24) n (roundSize newsize), some (x + 24)) := by
    simp only [Memheap.rtMemheapRealloc, if_neg (by omega : newsize ≠ 0), hr.header_eq hx.1, hx.2.2]
    rw [if_pos (by unfold size32 at hfits; omega)]
    simp only [Memheap.grow, rtAssert_bind_eq_some, if_pos hfree]
    refine ⟨by omega, by omega, if_pos ?_⟩
    unfold add32 memheapMinialloc size32 at *
    omega
  refine ⟨_, _, hrun, ?_⟩
  unfold add32 size32 at *
  omega

/-- The sizes for which `rt_memheap_realloc` is safe: no sum wraps, or the sum is not computed because
the next item is in use. -/
theorem rtMemheapRealloc_safe (hl : Layout h blocks free) (hx : UsedAt h blocks x n) (hpos : 0 < newsize) :
    (newsize ≤ 0xfffffff0 ∨ newsize ≤ 0xfffffffc ∧ h.IsUsed (h.get .next x) → h.ReallocSafe x newsize) ∧
    (12 ≤ n → newsize < 2 ^ 32 → h.ReallocSafe x newsize →
      newsize ≤ 0xfffffff0 ∨ newsize ≤ 0xfffffffc ∧ h.IsUsed (h.get .next x)) := by
  constructor
  · intro hle
    obtain ⟨h', result, hrun, hres⟩ := hl.rtMemheapRealloc hx hpos
      (hle.imp roundSize_le_of_le And.right)
    have hround : newsize ≤ roundSize newsize := roundSize_le (by omega)
    refine ⟨h', result, hrun, ?_⟩
    cases hres with
    | none _ => exact ⟨fun _ => rfl, blocks, free, hl, nofun⟩
    | some hl' hreg hmem hm hused =>
      refine ⟨nofun, _, _, hl', ?_⟩
      rintro p ⟨⟩
      exact ⟨_, _, rfl, (hused _ _).mpr (.inl ⟨rfl, rfl⟩), Nat.le_trans hround hm⟩
  · rintro hn h32 ⟨h', result, hrun, -, blocks', free', hl', hresult⟩
    by_contra hcond
    obtain ⟨-, hnext⟩ := not_or.mp hcond
    by_cases hhigh : newsize ≤ 0xfffffffc
    · obtain ⟨g, new, hwrapped, hlt⟩ := hl.realloc_wrapped hx hn (fun hused => hnext ⟨hhigh, hused⟩) (by omega) hhigh
      cases hrun.symm.trans hwrapped
      obtain ⟨y, m, hy, hused, -⟩ := hresult _ rfl
      obtain rfl := Nat.add_right_cancel hy
      have hfits := hl'.shape.ring.region.fits
      have htail := hl'.shape.ring.tail_add
      have hlast := hl'.shape.ring.le_tail hused.1
      have hapart := hl'.insertFree_apart (by omega) hused.1 (by omega)
      omega
    · -- the size is rounded to 12, and the block is not as large as it was asked for
      have hround : roundSize newsize = 12 := by
        unfold roundSize memheapMinialloc
        rw [rtAlign_eq, add32]
        unfold size32
        rw [if_pos (by omega)]
      obtain ⟨h'', result', hrun', hres⟩ := hl.rtMemheapRealloc hx hpos (.inl (by omega))
      cases hrun.symm.trans hrun'
      cases hres with
      | none hfull => exact hfull (.inl (by rw [hx.2.2]; omega))
      | some _ _ _ _ _ =>
        obtain ⟨y, m, -, hused, hm⟩ := hresult _ rfl
        have hmle := hl'.shape.ring.memitemSize_le hused.1
        have hfits := hl'.shape.ring.region.fits
        rw [hused.2.2] at hmle
        unfold size32 at hfits
        omega

/-- The heap in a pool of 400 bytes after one allocation. -/
theorem sampleAlloc : ∃ h blocks free n, Layout h blocks free ∧ UsedAt h blocks 1000 n ∧
    samplePool.rtMemheapAlloc 12 = some (h, some 1024) := by
  have hobs : (samplePool.rtMemheapAlloc 12).map Prod.snd = some (some 1024) := by
    decide +kernel
  have hl : samplePool.Layout _ _ := rtMemheapInit_layout samplePool_ok
  obtain ⟨h, result, hrun, halloc⟩ := hl.rtMemheapAlloc 12
  rw [hrun] at hobs
  cases halloc with
  | none _ => cases hobs
  | @some _ blocks free x m hl _ _ _ hused =>
    obtain rfl : x = 1000 := by simpa using hobs
    exact ⟨h, blocks, free, m, hl, (hused 1000 m).mpr (.inl ⟨rfl, rfl⟩), hrun⟩

theorem rtMemheapRealloc_safe_sample :
    ∃ h blocks, (∃ free, Layout h blocks free) ∧ h.ReallocSafe 1000 100 := by
  obtain ⟨h, blocks, free, n, hl, hx, -⟩ := sampleAlloc
  exact ⟨h, blocks, ⟨free, hl⟩, (rtMemheapRealloc_safe hl hx (by decide)).1 (.inl (by decide))⟩

/-- A size just below `2 ^ 32` wraps in the test for the space behind the block: the next header is
then built inside of the header of the block. -/
theorem rtMemheapRealloc_wraps :
    ∃ h blocks free n, Layout h blocks free ∧ UsedAt h blocks 1000 n ∧
      ∃ h', h.rtMemheapRealloc (some 1024) 0xfffffff8 = some (h', some 1024) ∧
        h'.get .next 1000 = 1016 ∧ ¬ ∃ blocks' free', Layout h' blocks' free' := by
  obtain ⟨⟨h, _⟩, hrun, ⟨h', _⟩, hcall, hstart, hnext, rfl⟩ :
      ∃ r ∈ samplePool.rtMemheapAlloc 12,
        ∃ r' ∈ r.1.rtMemheapRealloc (some 1024) 0xfffffff8,
          r'.1.startAddr = 1000 ∧ r'.1.get .next 1000 = 1016 ∧ r'.2 = some 1024 := by
    decide +kernel
  obtain ⟨_, blocks, free, n, hl, hx, hrun'⟩ := sampleAlloc
  cases hrun'.symm.trans hrun
  refine ⟨h, blocks, free, n, hl, hx, h', hcall, hnext, ?_⟩
  rintro ⟨blocks', free', hl'⟩
  have hfirst := hl'.shape.ring.first
  rw [hstart] at hfirst
  exact absurd ((hl'.shape.ring.le_next (List.mem_of_head? hfirst)).trans_eq hnext) (by decide)

end RtThread.Memheap
