-- SUMMARY: The walk through the blocks of the system heap.
import ZigbeeGateway.Kernel.MemRun

/-!
# Walks, and small heaps

The headers of a heap determine its blocks, so there is one walk through them, and a call has one
result.

A heap with a payload of less than 12 bytes is no exception, since it has one state only: a search
for a block does not end there, and every other call leaves the heap as it is. In all other heaps the
search of `rt_malloc` goes along the blocks (`search_ends_iff`).
-/

namespace RtThread

open Run Word Tiling

namespace Heap

variable {h h' : Heap} {bs bs' : List Block} {ptr size x n : Nat}

/-- There is one walk from an offset. -/
theorem Walk.unique {offs offs' : List Nat} (hw : h.Walk ptr offs) (hw' : h.Walk ptr offs') :
    offs = offs' := by
  induction offs generalizing ptr offs' with
  | nil =>
    cases offs' with
    | nil => rfl
    | cons o offs' => exact absurd hw hw'.2.1
  | cons o offs ih =>
    obtain ⟨rfl, hend, hrest⟩ := hw
    obtain ⟨rest, rfl, hrest'⟩ := hw'.head hend
    rw [ih hrest hrest']

instance decidableWalk (h : Heap) : ∀ ptr offs, Decidable (h.Walk ptr offs)
  | ptr, [] => inferInstanceAs (Decidable (h.heapPtr + ptr = h.heapEnd))
  | ptr, o :: offs =>
    have := decidableWalk h (h.get .next (h.heapPtr + ptr)) offs
    inferInstanceAs (Decidable (o = ptr ∧ h.heapPtr + ptr ≠ h.heapEnd ∧
      h.Walk (h.get .next (h.heapPtr + ptr)) offs))

/-- The headers of a heap determine its blocks. -/
theorem Tiled.unique (ht : Tiled h bs) (ht' : Tiled h bs') : bs = bs' :=
  ht.tiles.unique (by decide) ht'.tiles (ht.space.trans ht'.space.symm)

/-- A block on a walk is one of the blocks of the layout. -/
theorem Layout.mem_walk {offs : List Nat} (hl : Layout h bs) (hw : h.Walk 0 offs) :
    x ∈ offs ↔ ∃ b, At 12 0 bs x b := by
  rw [hw.unique hl.wellFormed.chain, mem_offsets]

theorem Tiled.used_ne (ht : Tiled h bs) (hx : At 12 0 bs x ⟨true, n⟩) :
    h.get .used (h.heapPtr + x) ≠ 0 := fun h0 => by cases (ht.used hx).mp h0

/-! ## The results of the calls are determined -/

theorem Layout.fills {k m : Nat} {result : Option Nat} (hl : Layout h bs)
    (hx : At 12 0 bs x ⟨false, k⟩) (hs4 : size % 4 = 0) (hfit : size ≤ k)
    (halloc : h.allocate x size = some (h', result)) (hout : HandsOut h h' bs bs' x m) :
    Fills h h' bs bs' x m := by
  obtain ⟨h'', bs'', m', halloc', hfills, -⟩ := hl.allocate hx hs4 hfit
  cases halloc.symm.trans halloc'
  obtain rfl := hout.layout.tiled.unique hfills.layout.tiled
  rcases (hfills.used x m).mp ((hout.used x m).mpr (.inl ⟨rfl, rfl⟩)) with ⟨-, rfl⟩ | hused
  · exact hfills
  · cases hused.unique (by decide) hx

theorem Layout.frees (hl : Layout h bs) (hx : At 12 0 bs x ⟨true, n⟩)
    (hfree : h.rtFree (some (h.heapPtr + x + 12)) = some h') (hl' : Layout h' bs') :
    Frees h h' bs bs' x n := by
  obtain ⟨h'', bs'', hfree', hfrees⟩ := hl.rtFree hx
  cases hfree.symm.trans hfree'
  rwa [hl'.tiled.unique hfrees.layout.tiled]

theorem Layout.cuts {s : Nat} (hl : Layout h bs) (hx : At 12 0 bs x ⟨true, n⟩) (hs4 : s % 4 = 0)
    (hfit : s + 24 ≤ n) (hshrink : h.shrink x n s = some h') (hl' : Layout h' bs') :
    Cuts h h' bs bs' x n s := by
  obtain ⟨h'', bs'', hshrink', hcuts⟩ := hl.shrink hx hs4 hfit
  cases hshrink.symm.trans hshrink'
  rwa [hl'.tiled.unique hcuts.layout.tiled]

/-- The walk of a fresh heap. -/
theorem Fresh.walk (hf : Fresh h) : h.Walk 0 [0] := by
  have hend := hf.heapEnd
  refine ⟨rfl, by omega, ?_⟩
  rw [Nat.add_zero, hf.next, Walk]
  omega

theorem Fresh.dataSize (hf : Fresh h) : h.dataSize 0 = h.memSizeAligned := by
  have hfits := hf.fits
  rw [Heap.dataSize, Nat.add_zero, hf.next, sizeofStructMem, add32_eq (by decide),
    sub32_eq (by omega) (by omega)]
  omega

/-! ## The search of rt_malloc -/

/-- The offsets of the blocks that the search loop looks at. -/
def searchVisits (h : Heap) (size : Nat) : Nat → Nat → List Nat
  | 0, _ => []
  | fuel + 1, ptr =>
    if ptr < sub32 h.memSizeAligned size then
      if h.get .used (h.heapPtr + ptr) = 0 ∧ size ≤ h.dataSize ptr then
        [ptr]
      else
        ptr :: searchVisits h size fuel (h.get .next (h.heapPtr + ptr))
    else
      []

/-- When `rt_malloc(size)` searches for a block, the search ends and looks at no block twice. -/
def SearchEnds (h : Heap) (size : Nat) : Prop :=
  size ≠ 0 → rtAlign size ≤ h.memSizeAligned → ∃ fuel,
    (h.searchLoop (need size) fuel (h.lfree - h.heapPtr)).isSome = true ∧
      (h.searchVisits (need size) fuel (h.lfree - h.heapPtr)).Nodup

/-- The search goes along the blocks. -/
theorem Tiled.searchVisits_prefix {l1 l2 : List Block} {fuel : Nat} (ht : Tiled h (l1 ++ l2))
    (hsize : size ≤ h.memSizeAligned) :
    h.searchVisits size fuel (after 12 0 l1) <+: offsets 12 (after 12 0 l1) l2 := by
  induction fuel generalizing l1 l2 with
  | zero => exact List.nil_prefix
  | succ fuel ih =>
    rw [searchVisits]
    split
    next hlt =>
      cases l2 with
      | nil =>
        have hspace := ht.space
        have hfits := ht.region.fits
        rw [List.append_nil] at hspace
        rw [sub32_eq hsize (by omega)] at hlt
        omega
      | cons b l2 =>
        rw [offsets]
        split
        · exact List.prefix_cons_inj _ |>.mpr List.nil_prefix
        · rw [ht.next at_after]
          rw [List.append_cons] at ht
          simpa using ih ht
    next => exact List.nil_prefix

theorem Layout.searchEnds (hl : Layout h bs) (size : Nat) : h.SearchEnds size := by
  intro _ hle
  have hmin := hl.tiled.region.min
  have hneed : need size ≤ h.memSizeAligned := by
    rw [need, minSizeAligned]
    split <;> omega
  obtain ⟨l1, l2, rfl, hlf⟩ := hl.lfree_split
  have hstart : h.lfree - h.heapPtr = after 12 0 l1 := by omega
  rw [hstart]
  refine ⟨l2.length, ?_, ?_⟩
  · rcases hl.tiled.searchLoop hneed (Nat.le_refl _) with ⟨hnone, -⟩ | ⟨x, k, hfound, -⟩
    · rw [hnone]
      rfl
    · rw [hfound]
      rfl
  · refine List.Nodup.sublist (hl.tiled.searchVisits_prefix hneed).sublist ?_
    exact (List.nodup_append.mp (offsets_increasing (by decide)).pairwise.nodup).1

end Heap

namespace Mem

open Heap

variable {s s' : Sys} {h h' : Heap} {bs bs' : List Block} {e : Event}

/-! ## Heaps that are too small -/

/-- At the end of a small heap the search goes round for ever. -/
theorem searchLoop_tiny (hf : Fresh h) (hsmall : h.memSizeAligned < 12) (fuel : Nat) :
    h.searchLoop 12 fuel (h.memSizeAligned + 12) = none := by
  have hbound : h.memSizeAligned + 12 < sub32 h.memSizeAligned 12 := by
    unfold sub32 size32
    omega
  have hend : h.heapPtr + (h.memSizeAligned + 12) = h.heapEnd := by
    rw [hf.heapEnd, Nat.add_assoc]
  induction fuel with
  | zero => rw [searchLoop, if_pos hbound]
  | succ fuel ih =>
    rw [searchLoop, if_pos hbound, hend, if_neg (by simp [hf.endUsed]), hf.endNext]
    exact ih

theorem searchLoop_tiny_start (hf : Fresh h) (hsmall : h.memSizeAligned < 12) (fuel : Nat) :
    h.searchLoop 12 fuel 0 = none := by
  have hbound : 0 < sub32 h.memSizeAligned 12 := by
    unfold sub32 size32
    omega
  cases fuel with
  | zero => rw [searchLoop, if_pos hbound]
  | succ fuel =>
    rw [searchLoop, if_pos hbound, hf.dataSize, if_neg (by omega), Nat.add_zero, hf.next]
    exact searchLoop_tiny hf hsmall fuel

/-- A search in a small heap is one for 12 bytes. -/
theorem need_tiny {size : Nat} (hsmall : h.memSizeAligned < 12) (hle : rtAlign size ≤ h.memSizeAligned) :
    need size = 12 := by
  rw [need, minSizeAligned, if_pos (by omega)]

/-- `rt_malloc` on a small heap does not return, or it gives up at once. -/
theorem rtMalloc_tiny (hf : Fresh h) (hsmall : h.memSizeAligned < 12) (size : Nat) :
    h.rtMalloc size = none ∨ h.rtMalloc size = some (h, none) := by
  rw [rtMalloc]
  dsimp only
  split
  · exact .inr rfl
  · split
    · exact .inr rfl
    next hle =>
      rw [← need, need_tiny hsmall (Nat.le_of_not_lt hle), hf.lfree, Nat.sub_self,
        searchLoop_tiny_start hf hsmall]
      exact .inl rfl

theorem rtMalloc_tiny_ne {size p : Nat} (hf : Fresh h) (hsmall : h.memSizeAligned < 12) :
    h.rtMalloc size ≠ some (h', some p) := by
  intro hmalloc
  rcases rtMalloc_tiny hf hsmall size with hcase | hcase <;> cases hcase.symm.trans hmalloc

/-- A small heap keeps its first state. -/
theorem step_tiny (hf : Fresh h) (hsmall : h.memSizeAligned < 12)
    (hstep : step (Sys.start h) e = some s') : s' = Sys.start h := by
  obtain ⟨hallowed, hexec⟩ := Option.ite_none_right_eq_some.mp hstep
  have hmalloc : ∀ {size h' result}, h.rtMalloc size = some (h', result) → h' = h ∧ result = none := by
    intro size h' result hmalloc
    rcases rtMalloc_tiny hf hsmall size with hnone | hsome
    · cases hnone.symm.trans hmalloc
    · cases hsome.symm.trans hmalloc
      exact ⟨rfl, rfl⟩
  cases e with
  | malloc size =>
    obtain ⟨⟨h', result⟩, hrun, rfl⟩ := Option.map_eq_some_iff.mp hexec
    obtain ⟨rfl, rfl⟩ := hmalloc hrun
    rfl
  | calloc t count size =>
    obtain ⟨⟨h', result⟩, hrun, hresult⟩ := Option.bind_eq_some_iff.mp hexec
    obtain ⟨rfl, rfl⟩ := hmalloc hrun
    cases hresult
    rfl
  | realloc t rmem newsize =>
    cases rmem with
    | some p => cases hallowed.2 p rfl
    | none =>
      obtain ⟨⟨h', resized⟩, hrealloc, hresult⟩ := Option.bind_eq_some_iff.mp hexec
      rw [rtRealloc] at hrealloc
      split at hrealloc
      · cases hrealloc
        cases hresult
        rfl
      · obtain ⟨⟨h1, result⟩, hrun, heq⟩ := Option.map_eq_some_iff.mp hrealloc
        obtain ⟨rfl, rfl⟩ := hmalloc hrun
        cases heq
        cases hresult
        rfl
  | free rmem =>
    cases rmem with
    | some p => cases hallowed p rfl
    | none =>
      cases hexec
      rfl
  | advance t => exact hallowed.elim
  | write p i v => cases hallowed.1

theorem run_tiny {es : List Event} (hf : Fresh h) (hsmall : h.memSizeAligned < 12)
    (hrun : run step (Sys.start h) es = some s') : s' = Sys.start h := by
  refine run_invariant (I := fun s => s = Sys.start h) ?_ rfl hrun
  rintro s e s' rfl hstep
  exact step_tiny hf hsmall hstep

theorem not_searchEnds_tiny {size : Nat} (hf : Fresh h) (hsmall : h.memSizeAligned < 12)
    (hsize : size ≠ 0) (hle : rtAlign size ≤ h.memSizeAligned) : ¬ h.SearchEnds size := by
  intro hends
  obtain ⟨fuel, hsome, -⟩ := hends hsize hle
  rw [need_tiny hsmall hle, hf.lfree, Nat.sub_self, searchLoop_tiny_start hf hsmall] at hsome
  cases hsome

/-- In every state of a heap, `rt_malloc` looks at no block twice and ends, except that it searches for
ever when the payload of the whole heap is less than 12 bytes and the size is not larger. -/
theorem search_ends_iff {mem : Nat → UInt8} {beginAddr endAddr : Nat} {es : List Event}
    (hinit : rtSystemHeapInit mem beginAddr endAddr = some h)
    (hsafe : Along step CallocSafe (Sys.start h) es) (hrun : run step (Sys.start h) es = some s)
    (size : Nat) :
    s.heap.SearchEnds size ↔
      12 ≤ h.memSizeAligned ∨ size = 0 ∨ h.memSizeAligned < rtAlign size := by
  by_cases hmin : 12 ≤ h.memSizeAligned
  · obtain ⟨bs, hi⟩ := (inv_start hinit hmin).run hsafe hrun
    exact iff_of_true (hi.layout.searchEnds size) (.inl hmin)
  · obtain rfl := run_tiny (fresh_init hinit) (by omega) hrun
    constructor
    · intro hends
      by_contra hnot
      obtain ⟨-, hsize, hle⟩ : _ ∧ size ≠ 0 ∧ rtAlign size ≤ h.memSizeAligned := by
        simpa only [not_or, Nat.not_lt] using hnot
      exact not_searchEnds_tiny (fresh_init hinit) (by omega) hsize hle hends
    · rintro (hge | hzero | hlt) hsize hle
      · exact absurd hge hmin
      · exact absurd hzero hsize
      · exact absurd hle (Nat.not_le_of_lt hlt)

/-- A search after the first allocation. -/
theorem search_ends_iff_malloc :
    ∃ s, run step (Sys.start freshHeap) [.malloc 8] = some s ∧ s.heap.SearchEnds 16 := by
  have hrun := run_endState (show (run step (Sys.start freshHeap) [.malloc 8]).isSome = true by decide)
  exact ⟨_, hrun, (search_ends_iff freshHeap_init (callocSafe_of_small (by decide)) hrun 16).mpr
    (.inl (by decide))⟩

/-- A heap on the 32 bytes from 4096 on has a payload of 8 bytes. -/
theorem search_of_tiny_heap :
    ∃ h, rtSystemHeapInit (fun _ => 0) 4096 4128 = some h ∧ ¬ h.SearchEnds 4 := by
  have hinit := (Option.some_get
    (by decide : (rtSystemHeapInit (fun _ => 0) 4096 4128).isSome)).symm
  exact ⟨_, hinit, not_searchEnds_tiny (fresh_init hinit) (by decide) (by decide) (by decide)⟩

end Mem

end RtThread
