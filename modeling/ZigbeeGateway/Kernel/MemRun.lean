-- SUMMARY: The system heap stays well formed in every run.
import ZigbeeGateway.Lib.Lanes
import ZigbeeGateway.Kernel.MemSpec

/-!
# Runs of the heap

Threads call `rt_malloc`, `rt_calloc`, `rt_realloc` and `rt_free`, one critical section at a time,
and write to the blocks that they got. The invariant is a layout of the heap in which every
pointer that was handed out is the data of a used block of its own, and a call that still fills
its new block stays inside that block. `Change` lists what a step can do to the blocks: nothing, the
write of a byte to a block in use, or the allocation, the release or the cut of one block. What holds
of `lfree`, of the statistics and of the data follows from one lemma for each case.

`rt_calloc` does not keep it for every size: a product just below `2 ^ 32` is rounded to zero, and
`rt_memset` then writes far more than the block holds (`CallocSafe`).
-/

namespace RtThread

open Run Word Tiling Lanes

namespace Heap

variable {h : Heap} {bs : List Block} {ptr : Nat}

/-! ## Well-formed heaps -/

/-- Following `next` from the offset `ptr` leads through the offsets `offs` to `heap_end`. -/
def Walk (h : Heap) : Nat → List Nat → Prop
  | ptr, [] => h.heapPtr + ptr = h.heapEnd
  | ptr, o :: offs =>
    o = ptr ∧ h.heapPtr + ptr ≠ h.heapEnd ∧ Walk h (h.get .next (h.heapPtr + ptr)) offs

/-- The blocks of the heap are at the offsets `offs`. -/
structure WellFormed (h : Heap) (offs : List Nat) : Prop where
  chain : h.Walk 0 offs
  increasing : (offs ++ [h.heapEnd - h.heapPtr]).IsChain (· < ·)
  prev : offs.IsChain fun o o' => h.get .prev (h.heapPtr + o') = o
  noHoles : offs.IsChain fun o o' =>
    h.get .used (h.heapPtr + o) ≠ 0 ∨ h.get .used (h.heapPtr + o') ≠ 0
  lfree : h.lfree = h.heapEnd ∨
    ∃ o ∈ offs, h.lfree = h.heapPtr + o ∧ h.get .used (h.heapPtr + o) = 0

theorem Walk.head {offs : List Nat} (hw : h.Walk ptr offs) (hend : h.heapPtr + ptr ≠ h.heapEnd) :
    ∃ rest, offs = ptr :: rest ∧ h.Walk (h.get .next (h.heapPtr + ptr)) rest := by
  cases offs with
  | nil => exact absurd hw hend
  | cons o rest =>
    obtain ⟨rfl, -, hrest⟩ := hw
    exact ⟨rest, rfl, hrest⟩

/-- The end of the data at the pointer `p`. -/
def dataEnd (h : Heap) (p : Nat) : Nat := h.heapPtr + h.get .next (p - sizeofStructMem)

theorem Tiled.walk {l1 l2 : List Block} (ht : Tiled h (l1 ++ l2)) :
    h.Walk (after 12 0 l1) (offsets 12 (after 12 0 l1) l2) := by
  induction l2 generalizing l1 with
  | nil =>
    have hspace := ht.space
    have hend := ht.region.heapEnd
    rw [List.append_nil] at hspace
    simp only [offsets, Walk]
    omega
  | cons b l2 ih =>
    have hat : At 12 0 (l1 ++ b :: l2) (after 12 0 l1) b := at_after
    have hlt := ht.data_lt hat
    have hend := ht.region.heapEnd
    refine ⟨rfl, by omega, ?_⟩
    rw [ht.next hat]
    rw [List.append_cons] at ht
    simpa using ih ht

theorem Layout.wellFormed (hl : Layout h bs) : h.WellFormed (offsets 12 0 bs) := by
  have hend := hl.tiled.region.heapEnd
  constructor
  · have htiled : Tiled h ([] ++ bs) := hl.tiled
    exact htiled.walk
  · have hstop : h.heapEnd - h.heapPtr = after 12 0 bs := by
      have hspace := hl.tiled.space
      omega
    rw [hstop]
    exact offsets_increasing (by decide)
  · refine isChain_offsets fun l1 b c l2 hbs => ?_
    subst hbs
    obtain ⟨-, -, -, -, -, hprev, -⟩ := (tiles_append.mp hl.tiled.tiles).2
    exact hprev
  · refine isChain_offsets fun l1 b c l2 hbs => ?_
    subst hbs
    have hb : At 12 0 (l1 ++ b :: c :: l2) (after 12 0 l1) b := at_after
    have hc : At 12 0 (l1 ++ b :: c :: l2) (after 12 0 l1 + 12 + b.size) c := by simp
    have hpair := (List.isChain_cons_cons.mp (List.isChain_append.mp hl.noHoles).2.1).1
    simpa only [ne_eq, hl.tiled.used hb, hl.tiled.used hc, Bool.not_eq_false] using hpair
  · refine hl.lfree.imp_right ?_
    rintro ⟨x, n, hx, hlf⟩
    exact ⟨x, mem_offsets.mpr ⟨_, hx⟩, hlf, (hl.tiled.used hx).mpr rfl⟩

/-- No free block that the search of `rt_malloc` reaches has the smallest size. -/
def NoRoom (h : Heap) : Prop :=
  ∀ offs, h.Walk 0 offs → ∀ o ∈ offs, h.lfree ≤ h.heapPtr + o →
    o + minSizeAligned < h.memSizeAligned → h.get .used (h.heapPtr + o) = 0 →
    h.dataSize o < minSizeAligned

/-- The pointer `p` is the data of a used block with at least `n` bytes. -/
def Holds (h : Heap) (bs : List Block) (p n : Nat) : Prop :=
  ∃ x m, p = h.heapPtr + x + 12 ∧ At 12 0 bs x ⟨true, m⟩ ∧ n ≤ m

theorem Holds.mono {p n n' : Nat} (hp : Holds h bs p n) (hn : n' ≤ n) : Holds h bs p n' := by
  obtain ⟨x, m, rfl, hx, hm⟩ := hp
  exact ⟨x, m, rfl, hx, hn.trans hm⟩

/-- A free block was not handed out. -/
theorem Holds.ne_free {p n x k : Nat} (hp : Holds h bs p n) (hx : At 12 0 bs x ⟨false, k⟩) :
    p ≠ h.heapPtr + x + 12 := by
  obtain ⟨y, m, rfl, hy, -⟩ := hp
  intro heq
  obtain rfl : y = x := by omega
  cases hx.unique (by decide) hy

end Heap

namespace Mem

open Heap

variable {s : Sys} {h h' : Heap} {bs bs' : List Block} {e : Event} {c : Call} {t p n x : Nat}

/-- The new block that a call fills, and the number of bytes that it writes. -/
def Call.target : Call → Option (Nat × Nat)
  | .idle => none
  | .zeroing p n _ => some (p, n)
  | .expanding _ _ _ => none
  | .copying _ nmem n _ => some (nmem, n)

namespace Sys

/-- The pointers that were handed out: to the callers, or to a call that did not return yet. -/
def owned (s : Sys) : Option Nat → List Nat
  | none => s.live
  | some t => (s.call t).target.toList.map Prod.fst

@[simp] theorem mem_owned_some : p ∈ s.owned (some t) ↔ ∃ n, (s.call t).target = some (p, n) := by
  simp [owned]

theorem owned_setLive (s : Sys) (l : List Nat) : { s with live := l }.owned = put s.owned none l := by
  funext k
  cases k with
  | none => exact (put_same ..).symm
  | some t =>
    rfl

@[simp] theorem handOut_heap (s : Sys) (result : Option Nat) :
    (s.handOut result).heap = s.heap := by
  cases result <;> rfl

@[simp] theorem setCall_same (s : Sys) (t : Nat) (c : Call) : (s.setCall t c).call t = c :=
  Function.update_self ..

theorem setCall_of_ne (s : Sys) {t t' : Nat} (c : Call) (ht : t' ≠ t) :
    (s.setCall t c).call t' = s.call t' := Function.update_of_ne ht ..

theorem owned_setCall (s : Sys) (t : Nat) (c : Call) :
    (s.setCall t c).owned = put s.owned (some t) (c.target.toList.map Prod.fst) := by
  funext k
  by_cases hk : k = some t
  · subst hk
    simp [owned]
  · rw [put_of_ne _ _ hk]
    cases k with
    | none => rfl
    | some t' =>
      have ht : t' ≠ t := fun heq => hk (congrArg some heq)
      simp [owned, setCall_of_ne _ _ ht]

end Sys

/-! ## What a step can do -/

/-- What a step does to the heap `h` with the blocks `bs`. Only a call of `rt_realloc` cuts a block. -/
inductive Change (h : Heap) (bs : List Block) : Event → Heap → List Block → Prop where
  | same {e : Event} : Change h bs e h bs
  | write {e : Event} {x n i : Nat} {v : UInt8} (hx : At 12 0 bs x ⟨true, n⟩) (hi : i < n) :
    Change h bs e (h.write (h.heapPtr + x + 12 + i) v) bs
  | malloc {e : Event} {x k size m : Nat} {h' : Heap} {bs' : List Block}
    (hx : At 12 0 bs x ⟨false, k⟩) (hs4 : size % 4 = 0) (hfit : size ≤ k)
    (halloc : h.allocate x size = some (h', some (h.heapPtr + x + 12)))
    (hout : HandsOut h h' bs bs' x m) : Change h bs e h' bs'
  | free {e : Event} {x n : Nat} {h' : Heap} {bs' : List Block}
    (hx : At 12 0 bs x ⟨true, n⟩) (hfree : h.rtFree (some (h.heapPtr + x + 12)) = some h')
    (hl : Layout h' bs') (hreg : SameRegion h h')
    (hused : ∀ y m, At 12 0 bs' y ⟨true, m⟩ ↔ y ≠ x ∧ At 12 0 bs y ⟨true, m⟩) : Change h bs e h' bs'
  | shrink {x n t newsize : Nat} {h' : Heap} {bs' : List Block}
    (hx : At 12 0 bs x ⟨true, n⟩) (hcut : rtAlign newsize + 24 < n)
    (hshrink : h.shrink x n (rtAlign newsize) = some h')
    (hs : Shrinks h h' bs bs' x (rtAlign newsize)) :
    Change h bs (.realloc t (some (h.heapPtr + x + 12)) newsize) h' bs'

theorem Change.layout (hc : Change h bs e h' bs') (hl : Layout h bs) : Layout h' bs' := by
  cases hc with
  | same => exact hl
  | write hx hi => exact hl.write hx hi _
  | malloc hx hs4 hfit halloc hout => exact hout.layout
  | free hx hfree hl' hreg hused => exact hl'
  | shrink hx hcut hshrink hs => exact hs.layout

/-! ## The invariant -/

structure Inv (s : Sys) (bs : List Block) : Prop where
  layout : Layout s.heap bs
  exclusive : Exclusive s.owned
  live : ∀ p ∈ s.live, Holds s.heap bs p 0
  target : ∀ t p n, (s.call t).target = some (p, n) → Holds s.heap bs p n
  expanding : ∀ t rmem size newsize, s.call t = .expanding rmem size newsize →
    newsize ≤ 0xfffffffc

/-- The step `e` returns: the invariant is kept, and the heap changes in one of the ways above. -/
def Steps (s : Sys) (bs : List Block) (e : Event) (r : Option Sys) : Prop :=
  ∃ s' bs', r = some s' ∧ Inv s' bs' ∧ Change s.heap bs e s'.heap bs'

namespace Inv

variable (hi : Inv s bs)

include hi

theorem owned {k : Option Nat} (hp : p ∈ s.owned k) : Holds s.heap bs p 0 := by
  cases k with
  | none => exact hi.live p hp
  | some t =>
    obtain ⟨n, hn⟩ := Sys.mem_owned_some.mp hp
    exact (hi.target t p n hn).mono (Nat.zero_le n)

/-- The heap changes at the block `x` only. That block is in use afterwards, if it belongs to a
caller. -/
theorem setHeap (hl : Layout h' bs') (hreg : SameRegion s.heap h')
    (hused : ∀ y m, y ≠ x → At 12 0 bs y ⟨true, m⟩ → At 12 0 bs' y ⟨true, m⟩)
    (hx : ∀ k, s.heap.heapPtr + x + 12 ∈ s.owned k → k = none ∧ ∃ m, At 12 0 bs' x ⟨true, m⟩) :
    Inv { s with heap := h' } bs' := by
  -- blocks other than the one at `x` are kept
  have hframe : ∀ {p n}, Holds s.heap bs p n → p ≠ s.heap.heapPtr + x + 12 → Holds h' bs' p n := by
    rintro p n ⟨y, m, rfl, hy, hm⟩ hne
    exact ⟨y, m, by rw [hreg.heapPtr], hused y m (by omega) hy, hm⟩
  refine ⟨hl, hi.exclusive, fun p hp => ?_, fun t p n htarget => ?_, hi.expanding⟩
  · by_cases hne : p = s.heap.heapPtr + x + 12
    · obtain ⟨-, m, hm⟩ := hx none (hne ▸ hp)
      exact ⟨x, m, by rw [hne, hreg.heapPtr], hm, Nat.zero_le m⟩
    · exact hframe (hi.live p hp) hne
  · refine hframe (hi.target t p n htarget) fun heq => ?_
    cases (hx (some t) (heq ▸ Sys.mem_owned_some.mpr ⟨n, htarget⟩)).1

theorem setLive {l : List Nat} (hl : l.Nodup)
    (hp : ∀ p ∈ l, Holds s.heap bs p 0 ∧ ∀ k, p ∈ s.owned k → k = none) :
    Inv { s with live := l } bs where
  layout := hi.layout
  exclusive := by
    rw [Sys.owned_setLive]
    exact hi.exclusive.replace hl fun hp' => (hp _ hp').2 _
  live := fun p hp' => (hp p hp').1
  target := hi.target
  expanding := hi.expanding

theorem setCall
    (htarget : ∀ p n, c.target = some (p, n) →
      Holds s.heap bs p n ∧ ∀ k, p ∈ s.owned k → k = some t)
    (hexpanding : ∀ rmem size newsize, c = .expanding rmem size newsize → newsize ≤ 0xfffffffc) :
    Inv (s.setCall t c) bs where
  layout := hi.layout
  exclusive := by
    rw [Sys.owned_setCall]
    refine hi.exclusive.replace ?_ fun hp => ?_
    · cases c.target <;> simp
    · obtain ⟨⟨p, n⟩, hpn, rfl⟩ := List.mem_map.mp hp
      exact (htarget p n (Option.mem_toList.mp hpn)).2 _
  live := hi.live
  target := by
    intro t' p n hp
    by_cases ht : t' = t
    · subst ht
      rw [Sys.setCall_same] at hp
      exact (htarget p n hp).1
    · rw [Sys.setCall_of_ne _ _ ht] at hp
      exact hi.target t' p n hp
  expanding := by
    intro t' rmem size newsize hc
    by_cases ht : t' = t
    · subst ht
      rw [Sys.setCall_same] at hc
      exact hexpanding rmem size newsize hc
    · rw [Sys.setCall_of_ne _ _ ht] at hc
      exact hi.expanding t' rmem size newsize hc

/-- A block that no one owns is handed out. -/
theorem handOut (hp : Holds s.heap bs p 0) (hfree : ∀ k, p ∉ s.owned k) :
    Inv (s.handOut (some p)) bs := by
  refine hi.setLive ((hi.exclusive.nodup none).insert) fun q hq => ?_
  rcases List.mem_insert_iff.mp hq with rfl | hq
  · exact ⟨hp, fun k hk => absurd hk (hfree k)⟩
  · exact ⟨hi.live q hq, fun k hk => hi.exclusive.unique hk hq⟩

/-- A call gives up the block that it fills. -/
theorem finish (htarget : (s.call t).target = some (p, n)) :
    Inv (s.setCall t .idle) bs ∧ ∀ k, p ∉ (s.setCall t .idle).owned k := by
  refine ⟨hi.setCall nofun nofun, fun k hk => ?_⟩
  have howned : p ∈ s.owned (some t) := Sys.mem_owned_some.mpr ⟨n, htarget⟩
  rw [Sys.owned_setCall] at hk
  by_cases hkt : k = some t
  · rw [hkt, put_same] at hk
    cases hk
  · rw [put_of_ne _ _ hkt] at hk
    exact hkt (hi.exclusive.unique hk howned)

/-- A call goes on with the block that it fills. -/
theorem proceed (htarget : (s.call t).target = some (p, n))
    (hc : c.target = some (p, n)) : Inv (s.setCall t c) bs := by
  refine hi.setCall (fun q m hq => ?_) ?_
  · cases hc.symm.trans hq
    refine ⟨hi.target t p n htarget, fun k hk => ?_⟩
    exact hi.exclusive.unique hk (Sys.mem_owned_some.mpr ⟨n, htarget⟩)
  · rintro rmem size newsize rfl
    cases hc

/-- A byte is written inside a block. -/
theorem write {i : Nat} (hp : Holds s.heap bs p n) (hin : i < n) (v : UInt8) :
    Inv { s with heap := s.heap.write (p + i) v } bs := by
  obtain ⟨x, m, rfl, hx, hm⟩ := hp
  have hl := hi.layout.write hx (Nat.lt_of_lt_of_le hin hm) v
  exact ⟨hl, hi.exclusive, hi.live, hi.target, hi.expanding⟩

/-! ## The steps -/

/-- `rt_malloc` changes nothing, or returns a block that no one owns. -/
theorem rtMalloc (e : Event) (size : Nat) :
    s.heap.rtMalloc size = some (s.heap, none) ∨
      ∃ h' bs' x k, s.heap.rtMalloc size = some (h', some (s.heap.heapPtr + x + 12)) ∧
        Inv { s with heap := h' } bs' ∧ Change s.heap bs e h' bs' ∧
        Holds h' bs' (s.heap.heapPtr + x + 12) (rtAlign size) ∧
        (∀ k, s.heap.heapPtr + x + 12 ∉ s.owned k) ∧
        At 12 0 bs x ⟨false, k⟩ ∧ 12 ≤ k ∧ s.heap.lfree ≤ s.heap.heapPtr + x ∧
        x + 12 < s.heap.memSizeAligned := by
  obtain ⟨hneed4, hneed, hsize⟩ := need_spec size
  refine (hi.layout.rtMalloc size).imp And.left ?_
  rintro ⟨h', bs', x, k, m, hmalloc, halloc, hfills, hm, hx, hk, hlf, hlt⟩
  have hfree : ∀ k, s.heap.heapPtr + x + 12 ∉ s.owned k :=
    fun _ hk => (hi.owned hk).ne_free hx rfl
  refine ⟨h', bs', x, k, hmalloc, ?_, .malloc hx hneed4 hk halloc hfills.toHandsOut, ?_, hfree, hx,
    by omega, hlf, by omega⟩
  · exact hi.setHeap hfills.layout hfills.region (fun y j _ hy => (hfills.used y j).mpr (.inr hy))
      fun k hk => absurd hk (hfree k)
  · exact ⟨x, m, by rw [hfills.region.heapPtr], (hfills.used x m).mpr (.inl ⟨rfl, rfl⟩), by omega⟩

theorem malloc (e : Event) (size : Nat) :
    ∃ h' result bs', s.heap.rtMalloc size = some (h', result) ∧
      Inv ({ s with heap := h' }.handOut result) bs' ∧ Change s.heap bs e h' bs' := by
  rcases hi.rtMalloc e size with hnone | ⟨h', bs', x, k, hmalloc, hi', hc, hp, hfree, -⟩
  · exact ⟨s.heap, none, bs, hnone, hi, .same⟩
  · exact ⟨h', _, bs', hmalloc, hi'.handOut (hp.mono (Nat.zero_le _)) hfree, hc⟩

/-- A call gets a new block, and its size is enough for what the call writes. -/
theorem fill (hc : c.target = some (p, n)) (hp : Holds s.heap bs p n)
    (hfree : ∀ k, p ∉ s.owned k) : Inv (s.setCall t c) bs := by
  refine hi.setCall (fun q m hq => ?_) ?_
  · cases hc.symm.trans hq
    exact ⟨hp, fun k hk => absurd hk (hfree k)⟩
  · rintro rmem size newsize rfl
    cases hc

theorem calloc {count size : Nat} (hsafe : mul32 count size ≤ 0xfffffffc ∨ s.heap.NoRoom) :
    Steps s bs e (s.calloc t count size) := by
  rcases hi.rtMalloc e (mul32 count size) with
    hnone | ⟨h', bs', x, k, hmalloc, hi', hc, hp, hfree, hx, hk, hlf, hlt⟩
  · exact ⟨s, bs, by rw [Sys.calloc, hnone]; rfl, hi, .same⟩
  · refine ⟨_, bs', by rw [Sys.calloc, hmalloc]; rfl, hi'.fill rfl (hp.mono ?_) hfree, hc⟩
    rcases hsafe with hsize | hroom
    · exact le_rtAlign hsize
    · -- the block that the search has found shows that there was room
      have hused := (hi.layout.tiled.used hx).mpr rfl
      have hsmall := hroom _ hi.layout.wellFormed.chain x (mem_offsets.mpr ⟨_, hx⟩) hlf hlt hused
      rw [hi.layout.tiled.dataSize hx] at hsmall
      exact absurd hk (Nat.not_le_of_lt hsmall)

/-- A pointer that the caller had before. -/
theorem handOut_live (hp : p ∈ s.live) : Inv (s.handOut (some p)) bs := by
  have heq : s.handOut (some p) = s := by rw [Sys.handOut, List.insert_of_mem hp]
  rwa [heq]

theorem realloc_some {newsize : Nat} (hp : p ∈ s.live) :
    Steps s bs (.realloc t (some p) newsize) (s.realloc t (some p) newsize) := by
  obtain ⟨x, n, rfl, hx, -⟩ := hi.live p hp
  rcases hi.layout.rtRealloc_cases hx newsize with
    ⟨-, hrealloc⟩ | ⟨-, hrealloc⟩ | ⟨hcut, hrealloc⟩ | ⟨-, hrealloc⟩
  · exact ⟨s, bs, by rw [Sys.realloc, hrealloc]; rfl, hi, .same⟩
  · exact ⟨_, bs, by rw [Sys.realloc, hrealloc]; rfl, hi.handOut_live hp, .same⟩
  · obtain ⟨h', bs', hshrink, hcuts⟩ := hi.layout.shrink hx (rtAlign_mod_four newsize) hcut.le
    have hi' : Inv { s with heap := h' } bs' :=
      hi.setHeap hcuts.layout hcuts.region
        (fun y j hne hy => (hcuts.used y j).mpr (.inr ⟨hne, hy⟩))
        fun k hk => ⟨hi.exclusive.unique hk hp, _, (hcuts.used x _).mpr (.inl ⟨rfl, rfl⟩)⟩
    exact ⟨_, bs', by rw [Sys.realloc, hrealloc, hshrink]; rfl, hi'.handOut_live hp,
      .shrink hx hcut hshrink hcuts.toShrinks⟩
  · refine ⟨s.setCall t (.expanding (s.heap.heapPtr + x + 12) n (rtAlign newsize)), bs,
      by rw [Sys.realloc, hrealloc]; rfl, hi.setCall nofun ?_, .same⟩
    rintro rmem size newsize' ⟨⟩
    exact rtAlign_le newsize

theorem realloc {rmem : Option Nat} {newsize : Nat} (hp : ∀ p ∈ rmem, p ∈ s.live) :
    Steps s bs (.realloc t rmem newsize) (s.realloc t rmem newsize) := by
  cases rmem with
  | none =>
    by_cases hM : s.heap.memSizeAligned < rtAlign newsize
    · exact ⟨s, bs, by rw [Sys.realloc, Heap.rtRealloc, if_pos hM]; rfl, hi, .same⟩
    · obtain ⟨h', result, bs', hmalloc, hi', hc⟩ :=
        hi.malloc (.realloc t none newsize) (rtAlign newsize)
      refine ⟨_, bs', by rw [Sys.realloc, Heap.rtRealloc, if_neg hM, hmalloc]; rfl, hi', ?_⟩
      rwa [Sys.handOut_heap]
  | some p => exact hi.realloc_some (hp p rfl)

theorem free_some (hp : p ∈ s.live) :
    ∃ h' bs', s.free (some p) = some { s with heap := h', live := s.live.erase p } ∧
      Inv { s with heap := h', live := s.live.erase p } bs' ∧ Change s.heap bs e h' bs' := by
  have hnodup := hi.exclusive.nodup none
  -- the pointer is taken from the caller first
  have hi' : Inv { s with live := s.live.erase p } bs :=
    hi.setLive (hnodup.erase p) fun q hq =>
      have hq : q ∈ s.live := List.mem_of_mem_erase hq
      ⟨hi.live q hq, fun k hk => hi.exclusive.unique hk hq⟩
  have hfree : ∀ k, p ∉ { s with live := s.live.erase p }.owned k := by
    intro k hk
    cases k with
    | none => exact (List.Nodup.mem_erase_iff hnodup).mp hk |>.1 rfl
    | some t =>
      have hcall : p ∈ s.owned (some t) := hk
      have hlive : p ∈ s.owned none := hp
      cases hi.exclusive.unique hcall hlive
  obtain ⟨x, n, rfl, hx, -⟩ := hi.live p hp
  obtain ⟨h', bs', hrtFree, hfrees⟩ := hi.layout.rtFree hx
  refine ⟨h', bs', by rw [Sys.free, hrtFree]; rfl, ?_,
    .free hx hrtFree hfrees.layout hfrees.region hfrees.used⟩
  exact hi'.setHeap hfrees.layout hfrees.region (fun y m hne hy => (hfrees.used y m).mpr ⟨hne, hy⟩)
    fun k hk => absurd hk (hfree k)

theorem free {rmem : Option Nat} (hp : ∀ p ∈ rmem, p ∈ s.live) : Steps s bs e (s.free rmem) := by
  cases rmem with
  | none => exact ⟨s, bs, rfl, hi, .same⟩
  | some p =>
    obtain ⟨h', bs', hfree, hi', hc⟩ := hi.free_some (hp p rfl)
    exact ⟨_, bs', hfree, hi', hc⟩

/-- A byte is written by a call that goes on with its block. -/
theorem writeOn {i : Nat} (htarget : (s.call t).target = some (p, n)) (hin : i < n) (v : UInt8)
    (hc : c.target = some (p, n)) :
    Inv ({ s with heap := s.heap.write (p + i) v }.setCall t c) bs ∧
      Change s.heap bs e (s.heap.write (p + i) v) bs := by
  have hp := hi.target t p n htarget
  refine ⟨(hi.write hp hin v).proceed htarget hc, ?_⟩
  obtain ⟨x, m, rfl, hx, hm⟩ := hp
  exact .write hx (Nat.lt_of_lt_of_le hin hm)

theorem advance (hmay : (s.call t).MayAdvance s.live) : Steps s bs e (s.advance t) := by
  rw [Sys.advance]
  cases hcall : s.call t with
  | idle =>
    rw [hcall] at hmay
    exact hmay.elim
  | zeroing p n i =>
    have htarget : (s.call t).target = some (p, n) := by rw [hcall]; rfl
    by_cases hin : i < n
    · exact ⟨_, bs, if_pos hin, hi.writeOn htarget hin 0 rfl⟩
    · obtain ⟨hi', hfree⟩ := hi.finish htarget
      have hp := hi.target t p n htarget
      exact ⟨_, bs, if_neg hin, hi'.handOut (hp.mono (Nat.zero_le n)) hfree, .same⟩
  | expanding rmem size newsize =>
    have hsize := hi.expanding t rmem size newsize hcall
    rcases hi.rtMalloc e newsize with hnone | ⟨h', bs', x, k, hmalloc, hi', hc, hp, hfree, -⟩
    · exact ⟨s.setCall t .idle, bs, by simp only [hnone]; rfl, hi.setCall nofun nofun, .same⟩
    · refine ⟨_, bs', by simp only [hmalloc]; rfl, hi'.fill rfl (hp.mono ?_) hfree, hc⟩
      have hle := le_rtAlign hsize
      split <;> omega
  | copying rmem nmem n i =>
    have htarget : (s.call t).target = some (nmem, n) := by rw [hcall]; rfl
    rw [hcall] at hmay
    by_cases hin : i < n
    · exact ⟨_, bs, if_pos hin, hi.writeOn htarget hin _ rfl⟩
    · obtain ⟨h', bs', hfree, hi', hc⟩ := hi.free_some (hmay.resolve_left hin)
      obtain ⟨hi'', hfree'⟩ := hi'.finish htarget
      have hp := hi'.target t nmem n htarget
      refine ⟨_, bs', ?_, hi''.handOut (hp.mono (Nat.zero_le n)) hfree', hc⟩
      simp only [if_neg hin, hfree]
      rfl

end Inv

/-- The condition on `rt_calloc`: the product does not round to zero, or there is no room for any
block. -/
def CallocSafe (s : Sys) : Event → Prop
  | .calloc _ count size => mul32 count size ≤ 0xfffffffc ∨ s.heap.NoRoom
  | _ => True

/-- The first of the two, which can be seen from the events. -/
def smallCalloc : Event → Bool
  | .calloc _ count size => mul32 count size ≤ 0xfffffffc
  | _ => true

theorem callocSafe_of_small {s : Sys} {es : List Event} (hsmall : es.all smallCalloc = true) :
    Along step CallocSafe s es := by
  refine along_of_forall fun e he s => ?_
  have hsmall := List.all_eq_true.mp hsmall e he
  cases e with
  | calloc t count size => exact .inl (of_decide_eq_true hsmall)
  | _ => trivial

/-- The step lemma. No assertion of the code fails, and the invariant is kept. -/
theorem Inv.exec (hi : Inv s bs) (hallowed : s.Allowed e) (hsafe : CallocSafe s e) :
    Steps s bs e (s.exec e) := by
  cases e with
  | malloc size =>
    obtain ⟨h', result, bs', hmalloc, hi', hc⟩ := hi.malloc (.malloc size) size
    refine ⟨_, bs', by rw [Sys.exec, hmalloc]; rfl, hi', ?_⟩
    rwa [Sys.handOut_heap]
  | calloc t count size => exact hi.calloc hsafe
  | realloc t rmem newsize => exact hi.realloc hallowed.2
  | free rmem => exact hi.free hallowed
  | advance t => exact hi.advance hallowed
  | write p i v =>
    obtain ⟨hp, hin⟩ := hallowed
    obtain ⟨x, m, rfl, hx, -⟩ := hi.live p hp
    have hoff : s.heap.heapPtr + x + 12 - sizeofStructMem - s.heap.heapPtr = x := by
      rw [sizeofStructMem]
      omega
    rw [hoff, hi.layout.tiled.dataSize hx] at hin
    exact ⟨_, bs, rfl, hi.write ⟨x, m, rfl, hx, Nat.le_refl m⟩ hin v, .write hx hin⟩

theorem Inv.change {s' : Sys} (hi : Inv s bs) (hsafe : CallocSafe s e) (hstep : step s e = some s') :
    ∃ bs', Inv s' bs' ∧ Change s.heap bs e s'.heap bs' := by
  obtain ⟨hallowed, hexec⟩ := Option.ite_none_right_eq_some.mp hstep
  obtain ⟨s'', bs', hexec', hi', hc⟩ := hi.exec hallowed hsafe
  cases hexec.symm.trans hexec'
  exact ⟨bs', hi', hc⟩

/-- The run lemma. -/
theorem Inv.run {s' : Sys} {es : List Event} (hi : Inv s bs) (hsafe : Along step CallocSafe s es)
    (hrun : run step s es = some s') : ∃ bs', Inv s' bs' := by
  refine run_invariant_along (I := fun s => ∃ bs, Inv s bs) ?_ ⟨bs, hi⟩ hsafe hrun
  rintro s e s' ⟨bs, hi⟩ hsafe hstep
  obtain ⟨bs', hi', -⟩ := hi.change hsafe hstep
  exact ⟨bs', hi'⟩

theorem inv_start {mem : Nat → UInt8} {beginAddr endAddr : Nat}
    (hinit : rtSystemHeapInit mem beginAddr endAddr = some h) (hmin : 12 ≤ h.memSizeAligned) :
    Inv (Sys.start h) [⟨false, h.memSizeAligned⟩] where
  layout := (fresh_init hinit).layout hmin
  exclusive := by
    have hempty : ∀ k, (Sys.start h).owned k = [] := by rintro (_ | t) <;> rfl
    exact ⟨fun k => by simp [hempty], fun hk => by simp [hempty] at hk⟩
  live := nofun
  target := nofun
  expanding := nofun

/-! ## Results -/

/-- The heap is well formed, and every pointer that was handed out is the data of a used block of
its own inside the heap. -/
structure Sys.WellFormed (s : Sys) (offs : List Nat) : Prop where
  heap : s.heap.WellFormed offs
  used : ∀ k, ∀ p ∈ s.owned k, ∃ o ∈ offs, p = s.heap.heapPtr + o + sizeofStructMem ∧
    s.heap.get .used (s.heap.heapPtr + o) ≠ 0
  own : Exclusive s.owned
  disjoint : ∀ k k', ∀ p ∈ s.owned k, ∀ q ∈ s.owned k', p < q → s.heap.dataEnd p ≤ q
  inside : ∀ k, ∀ p ∈ s.owned k, s.heap.heapPtr ≤ p ∧ p ≤ s.heap.dataEnd p ∧
    s.heap.dataEnd p ≤ s.heap.heapEnd

theorem Inv.wellFormed (hi : Inv s bs) : s.WellFormed (offsets 12 0 bs) where
  heap := hi.layout.wellFormed
  used := by
    intro k p hp
    obtain ⟨x, n, rfl, hx, -⟩ := hi.owned hp
    refine ⟨x, mem_offsets.mpr ⟨_, hx⟩, rfl, fun h0 => ?_⟩
    cases (hi.layout.tiled.used hx).mp h0
  own := hi.exclusive
  disjoint := by
    intro k k' p hp q hq hlt
    obtain ⟨x, n, rfl, hx, -⟩ := hi.owned hp
    obtain ⟨y, m, rfl, hy, -⟩ := hi.owned hq
    have hapart := hx.apart hy (by omega)
    have hnext := hi.layout.tiled.next hx
    simp only [dataEnd, sizeofStructMem, Nat.add_sub_cancel, hnext] at hapart ⊢
    omega
  inside := by
    intro k p hp
    obtain ⟨x, n, rfl, hx, -⟩ := hi.owned hp
    have hle := hi.layout.tiled.at_le hx
    have hend := hi.layout.tiled.region.heapEnd
    have hnext := hi.layout.tiled.next hx
    simp only [dataEnd, sizeofStructMem, Nat.add_sub_cancel, hnext] at hle ⊢
    omega

section Results

variable {mem : Nat → UInt8} {beginAddr endAddr : Nat} {es : List Event}

/-- The heap stays well formed, if no `rt_calloc` meets the rounding. -/
theorem heap_wellFormed (hinit : rtSystemHeapInit mem beginAddr endAddr = some h)
    (hmin : 12 ≤ h.memSizeAligned) (hsafe : Along step CallocSafe (Sys.start h) es)
    (hrun : run step (Sys.start h) es = some s) : ∃ offs, s.WellFormed offs := by
  obtain ⟨bs, hi⟩ := (inv_start hinit hmin).run hsafe hrun
  exact ⟨_, hi.wellFormed⟩

end Results

/-- A fresh heap with 128 bytes of payload. -/
def freshHeap : Heap := {
  mem := fun _ => 0
  heapPtr := 4096
  heapEnd := 4236
  lfree := 4096
  memSizeAligned := 128
  usedMem := 0
  maxMem := 0 : Heap }.initHeaders

theorem freshHeap_init : rtSystemHeapInit (fun _ => 0) 4096 4248 = some freshHeap := by
  rfl

/-- A block is filled by `rt_calloc`, another one is moved by `rt_realloc`, and the first one is
freed. -/
def movedEvents : List Event :=
  [.malloc 8, .calloc 0 1 4] ++ List.replicate 5 (.advance 0) ++ [.realloc 1 (some 4108) 16] ++
    List.replicate 14 (.advance 1) ++ [.free (some 4132)]

def moved : Sys := endState step (Sys.start freshHeap) movedEvents

theorem moved_eq : run step (Sys.start freshHeap) movedEvents = some moved := run_endState (by decide +kernel)

theorem moved_safe : Along step CallocSafe (Sys.start freshHeap) movedEvents := callocSafe_of_small (by decide)

/-- The heap with the moved block. -/
theorem heap_wellFormed_moved : moved.live = [4156] ∧ ∃ offs, moved.WellFormed offs :=
  ⟨by decide +kernel, heap_wellFormed freshHeap_init (by decide) moved_safe moved_eq⟩

/-- Behind the moved block another `rt_realloc` is pending, which has to move it again. -/
def pendingEvents : List Event := movedEvents ++ [.malloc 8, .realloc 1 (some 4156) 40, .advance 1]

def pending : Sys := endState step (Sys.start freshHeap) pendingEvents

/-- `rt_calloc(1, 0xfffffffd)` and the first 20 bytes of its `rt_memset`. -/
def roundedEvents : List Event := .calloc 0 1 0xfffffffd :: List.replicate 20 (.advance 0)

def rounded : Sys := endState step (Sys.start freshHeap) roundedEvents

/-- `rt_calloc` has got a block of 12 bytes and has overwritten the header after it. -/
theorem heap_broken_rounded :
    rtSystemHeapInit (fun _ => 0) 4096 4248 = some freshHeap ∧ 12 ≤ freshHeap.memSizeAligned ∧
      run step (Sys.start freshHeap) roundedEvents = some rounded ∧ ¬ ∃ offs, rounded.WellFormed offs := by
  refine ⟨freshHeap_init, by decide, run_endState (by decide), ?_⟩
  rintro ⟨offs, hwf⟩
  have hptr : rounded.heap.heapPtr = 4096 := by decide
  have hend : rounded.heap.heapEnd = 4236 := by decide
  have hfirst : rounded.heap.get .next 4096 = 24 := by decide
  have hsecond : rounded.heap.get .next 4120 = 0 := by decide
  -- the chain goes from 0 to 24 and back to 0
  obtain ⟨offs1, rfl, hw1⟩ := hwf.heap.chain.head (by omega)
  rw [hptr, hfirst] at hw1
  obtain ⟨offs2, rfl, hw2⟩ := hw1.head (by omega)
  rw [hptr, hsecond] at hw2
  obtain ⟨offs3, rfl, -⟩ := hw2.head (by omega)
  have hinc := (List.isChain_cons_cons.mp (List.isChain_cons_cons.mp hwf.heap.increasing).2).1
  omega

end Mem

end RtThread
