-- SUMMARY: The layout of a memory heap: block ring and free list.
import Mathlib.Algebra.Order.BigOperators.Group.List
import Mathlib.Data.List.Pairwise
import Mathlib.Data.List.Perm.Subperm
import ZigbeeGateway.Lib.Cyclic
import ZigbeeGateway.Kernel.Memheap

/-!
# The layout of a memory heap

All headers of a heap lie on a grid: two of them are equal or do not overlap. On a grid a write to a
field of a header changes that field of that header and nothing else, so the two intrusive lists can
be treated one at a time. `Shape` says that the headers form the ring of the blocks and the free
list; `Layout` adds what holds between the calls: the free list has the unused blocks, no two
neighbours are unused, and the available bytes are the bytes of the unused blocks.
-/

namespace RtThread.Memheap

open Word ByteMem Cyclic

variable {h h' : Memheap} {G : Nat → Prop} {fld fld' fn fp : Field} {n p q x y v : Nat}
  {blocks free l1 l2 f1 f2 : List Nat}

/-! ## Headers -/

theorem Field.offset_add_four_le (fld : Field) : fld.offset + 4 ≤ 24 := by
  cases fld <;> decide

theorem get_lt (h : Memheap) (fld : Field) (p : Nat) : h.get fld p < size32 := load_lt ..

@[simp] theorem set_freeList (h : Memheap) (fld : Field) (p v : Nat) :
    (h.set fld p v).freeList = h.freeList := rfl

@[simp] theorem set_addr (h : Memheap) (fld : Field) (p v : Nat) : (h.set fld p v).addr = h.addr := rfl

theorem get_set_same (h : Memheap) (fld : Field) (p : Nat) (hv : v < size32) :
    (h.set fld p v).get fld p = v :=
  load_store_same.trans (Nat.mod_eq_of_lt hv)

theorem get_set_field (h : Memheap) (hne : fld' ≠ fld) (p v : Nat) :
    (h.set fld p v).get fld' p = h.get fld' p := by
  apply load_store_of_apart
  cases fld <;> cases fld' <;> simp_all [Field.offset]

/-- Headers at two places that do not overlap. -/
theorem get_set_apart (h : Memheap) (hpq : p + 24 ≤ q ∨ q + 24 ≤ p) (fld fld' : Field) (v : Nat) :
    (h.set fld p v).get fld' q = h.get fld' q := by
  apply load_store_of_apart
  have hfld := Field.offset_add_four_le fld
  have hfld' := Field.offset_add_four_le fld'
  omega

/-- Places for headers that do not overlap. -/
structure Grid (G : Nat → Prop) : Prop where
  apart : ∀ x y, G x → G y → x ≠ y → x + 24 ≤ y ∨ y + 24 ≤ x
  lt : ∀ x, G x → x < size32

theorem get_set_of_ne (hG : Grid G) (hp : G p) (hq : G q) (hne : fld' ≠ fld ∨ q ≠ p) (h : Memheap)
    (v : Nat) : (h.set fld p v).get fld' q = h.get fld' q := by
  by_cases hqp : q = p
  · subst hqp
    exact get_set_field h (hne.resolve_right (by simp)) q v
  · exact get_set_apart h ((hG.apart q p hq hp hqp).symm) fld fld' v

/-- The fields of the heap object that no call changes. -/
structure SameRegion (h h' : Memheap) : Prop where
  addr : h'.addr = h.addr
  startAddr : h'.startAddr = h.startAddr
  poolSize : h'.poolSize = h.poolSize
  blockList : h'.blockList = h.blockList
  freeList : h'.freeList = h.freeList

theorem SameRegion.trans {h'' : Memheap} (h1 : SameRegion h h') (h2 : SameRegion h' h'') :
    SameRegion h h'' where
  addr := h2.addr.trans h1.addr
  startAddr := h2.startAddr.trans h1.startAddr
  poolSize := h2.poolSize.trans h1.poolSize
  blockList := h2.blockList.trans h1.blockList
  freeList := h2.freeList.trans h1.freeList

/-- The fields of the headers on the grid that satisfy `F` are not written. -/
structure Keeps (G : Nat → Prop) (F : Field → Prop) (h h' : Memheap) : Prop where
  region : SameRegion h h'
  get : ∀ fld x, F fld → G x → h'.get fld x = h.get fld x

namespace Keeps

variable {F : Field → Prop}

theorem of_mem (hmem : h'.mem = h.mem) (hreg : SameRegion h h') : Keeps G F h h' :=
  ⟨hreg, fun _ _ _ _ => by rw [Memheap.get, Memheap.get, hmem]⟩

theorem trans {h'' : Memheap} (h1 : Keeps G F h h') (h2 : Keeps G F h' h'') : Keeps G F h h'' :=
  ⟨h1.region.trans h2.region, fun fld x hfld hx => (h2.get fld x hfld hx).trans (h1.get fld x hfld hx)⟩

theorem set (hG : Grid G) (hp : G p) (hF : ¬ F fld) (h : Memheap) (v : Nat) :
    Keeps G F h (h.set fld p v) := by
  refine ⟨⟨rfl, rfl, rfl, rfl, rfl⟩, fun fld' x hfld' hx => get_set_of_ne hG hp hx (.inl ?_) h v⟩
  rintro rfl
  exact hF hfld'

theorem isUsed (hk : Keeps G F h h') (hF : F .magic) (hx : G x) : h'.IsUsed x ↔ h.IsUsed x := by
  rw [IsUsed, IsUsed, hk.get .magic x hF hx]

theorem memitemSize (hk : Keeps G F h h') (hF : F .next) (hx : G x) :
    h'.memitemSize x = h.memitemSize x := by
  rw [Memheap.memitemSize, Memheap.memitemSize, hk.get .next x hF hx]

end Keeps

/-- The fields that are not links of the list with the fields `fn` and `fp`. -/
def OffList (fn fp : Field) (fld : Field) : Prop := fld ≠ fn ∧ fld ≠ fp

instance (fn fp : Field) : DecidablePred (OffList fn fp) :=
  fun fld => inferInstanceAs (Decidable (fld ≠ fn ∧ fld ≠ fp))

/-- The two writes of a link to `v` and of a link back to `w`. -/
theorem links_set (fn fp : Field) {v w : Nat} (hG : Grid G) (hne : fn ≠ fp) (hp : G p) (hn : G n) (hv : G v)
    (hw : G w) (h : Memheap) :
    ((h.set fp n w).set fn p v).get fn p = v ∧ ((h.set fp n w).set fn p v).get fp n = w ∧
      (∀ y, G y → y ≠ p → ((h.set fp n w).set fn p v).get fn y = h.get fn y) ∧
      ∀ y, G y → y ≠ n → ((h.set fp n w).set fn p v).get fp y = h.get fp y := by
  refine ⟨?_, ?_, fun y hy hyp => ?_, fun y hy hyn => ?_⟩
  · exact get_set_same _ fn p (hG.lt v hv)
  · rw [get_set_of_ne hG hp hn (.inl hne.symm), get_set_same _ fp n (hG.lt w hw)]
  · rw [get_set_of_ne hG hp hy (.inr hyp), get_set_of_ne hG hn hy (.inl hne)]
  · rw [get_set_of_ne hG hp hy (.inl hne.symm), get_set_of_ne hG hn hy (.inr hyn)]

/-- Two writes make `p` and `n` neighbours. -/
theorem relink_set (fn fp : Field) (hG : Grid G) (hne : fn ≠ fp) (hp : G p) (hn : G n) (h : Memheap) :
    Relink G (h.get fn) (h.get fp) (((h.set fp n p).set fn p n).get fn)
        (((h.set fp n p).set fn p n).get fp) p n ∧
      Keeps G (OffList fn fp) h ((h.set fp n p).set fn p n) := by
  obtain ⟨hforth, hback, hnext, hprev⟩ := links_set fn fp hG hne hp hn hn hp h
  refine ⟨⟨hforth, hback, hnext, hprev⟩, ?_⟩
  exact (Keeps.set hG hn (fun hF => hF.2 rfl) h p).trans (.set hG hp (fun hF => hF.1 rfl) _ n)

/-- The two writes in the other order. -/
theorem relink_set' (fn fp : Field) (hG : Grid G) (hne : fn ≠ fp) (hp : G p) (hn : G n) (h : Memheap) :
    Relink G (h.get fn) (h.get fp) (((h.set fn p n).set fp n p).get fn)
        (((h.set fn p n).set fp n p).get fp) p n ∧
      Keeps G (OffList fn fp) h ((h.set fn p n).set fp n p) := by
  obtain ⟨hr, hk⟩ := relink_set fp fn hG hne.symm hn hp h
  exact ⟨⟨hr.back, hr.forth, hr.prev_of_ne, hr.next_of_ne⟩, hk.region, fun fld x hF => hk.get fld x hF.symm⟩

/-- Two writes put an item, whose own links are written, between `p` and `n`. -/
theorem splice_set (fn fp : Field) {h1 : Memheap} (hG : Grid G) (hne : fn ≠ fp) (hp : G p) (hn : G n) (hx : G x)
    (hxp : x ≠ p) (hxn : x ≠ n) (hnext : h1.get fn x = n) (hprev : h1.get fp x = p)
    (hrest : ∀ y, G y → y ≠ x → h1.get fn y = h.get fn y ∧ h1.get fp y = h.get fp y) :
    Splice G (h.get fn) (h.get fp) (((h1.set fp n x).set fn p x).get fn)
      (((h1.set fp n x).set fn p x).get fp) p x n := by
  obtain ⟨hforth, hback, hnext', hprev'⟩ := links_set fn fp hG hne hp hn hx hx h1
  refine ⟨hforth, hback, ?_, ?_, fun y hy hyp hyx => ?_, fun y hy hyn hyx => ?_⟩
  · exact (hnext' x hx hxp).trans hnext
  · exact (hprev' x hx hxn).trans hprev
  · exact (hnext' y hy hyp).trans (hrest y hy hyx).1
  · exact (hprev' y hy hyn).trans (hrest y hy hyx).2

/-! ## The block ring and the free list -/

/-- The address of the tailer. -/
def tail (h : Memheap) : Nat := h.startAddr + h.poolSize - 24

/-- Where the pool and the header of the free list lie. -/
structure Region (h : Memheap) : Prop where
  min : 48 ≤ h.poolSize
  fits : h.startAddr + h.poolSize ≤ size32
  header : h.freeList + 24 ≤ h.startAddr ∨ h.startAddr + h.poolSize ≤ h.freeList
  header_lt : h.freeList < size32
  addr_lt : h.addr < size32
  blockList : h.blockList = h.startAddr

theorem SameRegion.tail (hreg : SameRegion h h') : h'.tail = h.tail := by
  rw [Memheap.tail, Memheap.tail, hreg.startAddr, hreg.poolSize]

theorem Region.of_same (hr : Region h) (hreg : SameRegion h h') : Region h' := by
  obtain ⟨haddr, hstart, hpool, hblock, hfree⟩ := hreg
  obtain ⟨h1, h2, h3, h4, h5, h6⟩ := hr
  constructor <;> simp only [haddr, hstart, hpool, hblock, hfree] <;> assumption

/-- The blocks before the tailer, in the order of their addresses. -/
structure Ring (h : Memheap) (blocks : List Nat) : Prop where
  region : Region h
  cycle : Cycle (h.get .next) (h.get .prev) h.tail blocks
  first : blocks.head? = some h.startAddr
  order : (blocks ++ [h.tail]).Pairwise fun x y => x + 24 ≤ y
  magic : ∀ x ∈ blocks, h.get .magic x = memheapMagic ∨ h.get .magic x = memheapMagic ||| memheapUsed
  poolPtr : ∀ x ∈ blocks, h.get .poolPtr x = h.addr
  tailUsed : h.IsUsed h.tail

/-- A header of the heap. -/
def Node (h : Memheap) (blocks : List Nat) (x : Nat) : Prop :=
  x = h.freeList ∨ x = h.tail ∨ x ∈ blocks

/-- The headers on the grid `G` form the ring of the blocks and the free list. -/
structure Shape (G : Nat → Prop) (h : Memheap) (blocks free : List Nat) : Prop where
  ring : Ring h blocks
  freeRing : Cycle (h.get .nextFree) (h.get .prevFree) h.freeList free
  grid : Grid G
  node : ∀ x, Node h blocks x → G x
  onGrid : ∀ x ∈ free, G x

namespace Ring

section

variable (hr : Ring h blocks)

include hr

theorem ge_start (hx : x ∈ blocks) : h.startAddr ≤ x := by
  obtain ⟨l, rfl⟩ := List.head?_eq_some_iff.mp hr.first
  rcases List.mem_cons.mp hx with rfl | hx
  · exact Nat.le_refl _
  · have hle := (List.pairwise_cons.mp hr.order).1 x (List.mem_append_left _ hx)
    omega

theorem le_tail (hx : x ∈ blocks) : x + 24 ≤ h.tail :=
  (List.pairwise_append.mp hr.order).2.2 x hx h.tail (List.mem_singleton_self _)

theorem tail_add : h.tail + 24 = h.startAddr + h.poolSize := by
  have hmin := hr.region.min
  unfold Memheap.tail
  omega

theorem apart (hx : x ∈ blocks) (hy : y ∈ blocks) (hne : x ≠ y) : x + 24 ≤ y ∨ y + 24 ≤ x := by
  have hsymm : Std.Symm fun x y : Nat => x + 24 ≤ y ∨ y + 24 ≤ x := ⟨fun _ _ => Or.symm⟩
  have hpair : blocks.Pairwise fun x y => x + 24 ≤ y ∨ y + 24 ≤ x :=
    (List.pairwise_append.mp hr.order).1.imp .inl
  exact hpair.forall hx hy hne

/-- The headers of a heap are on a grid. -/
theorem grid : Grid (Node h blocks) := by
  have htail := hr.tail_add
  have hfits := hr.region.fits
  have hheader := hr.region.header
  have hinside : ∀ x, x ∈ blocks ∨ x = h.tail → h.startAddr ≤ x ∧ x ≤ h.tail := by
    rintro x (hx | rfl)
    · exact ⟨hr.ge_start hx, by have := hr.le_tail hx; omega⟩
    · exact ⟨by have := hr.region.min; omega, Nat.le_refl _⟩
  refine ⟨fun x y hx hy hne => ?_, fun x hx => ?_⟩
  · rcases hx with rfl | rfl | hx <;> rcases hy with rfl | rfl | hy
    · exact absurd rfl hne
    · have := hinside h.tail (.inr rfl)
      omega
    · have := hinside y (.inl hy)
      omega
    · have := hinside h.tail (.inr rfl)
      omega
    · exact absurd rfl hne
    · exact .inr (hr.le_tail hy)
    · have := hinside x (.inl hx)
      omega
    · exact .inl (hr.le_tail hx)
    · exact hr.apart hx hy hne
  · rcases hx with rfl | rfl | hx
    · exact hr.region.header_lt
    · omega
    · have := hr.le_tail hx
      omega

/-- The ring depends on the links and the marks of its headers. -/
theorem congr {F : Field → Prop} (hk : Keeps G F h h')
    (hF : F .next ∧ F .prev ∧ F .magic ∧ F .poolPtr) (hG : ∀ x, Node h blocks x → G x) :
    Ring h' blocks := by
  obtain ⟨hnext, hprev, hmagic, hpool⟩ := hF
  have hnode : ∀ y ∈ h.tail :: blocks, G y := by
    intro y hy
    rcases List.mem_cons.mp hy with rfl | hy
    · exact hG _ (.inr (.inl rfl))
    · exact hG y (.inr (.inr hy))
  have hblock : ∀ y ∈ blocks, G y := fun y hy => hnode y (List.mem_cons_of_mem _ hy)
  have htail := hk.region.tail
  constructor
  · exact hr.region.of_same hk.region
  · rw [htail]
    exact hr.cycle.congr (fun y hy => hk.get _ y hnext (hnode y hy)) fun y hy =>
      hk.get _ y hprev (hnode y hy)
  · rw [hk.region.startAddr]
    exact hr.first
  · rw [htail]
    exact hr.order
  · intro x hx
    rw [hk.get _ x hmagic (hblock x hx)]
    exact hr.magic x hx
  · intro x hx
    rw [hk.get _ x hpool (hblock x hx), hk.region.addr]
    exact hr.poolPtr x hx
  · rw [IsUsed, htail, hk.get _ _ hmagic (hnode _ List.mem_cons_self)]
    exact hr.tailUsed

end

theorem next_eq (hr : Ring h (l1 ++ x :: l2)) : h.get .next x = l2.headD h.tail :=
  (path_append.mp hr.cycle.path).2.next_eq

theorem prev_eq (hr : Ring h (l1 ++ x :: l2)) : h.get .prev x = l1.getLastD h.tail :=
  (path_append.mp hr.cycle.path).1.prev_eq

/-- The header after a block is the tailer or the next block. -/
theorem next_mem (hr : Ring h blocks) (hx : x ∈ blocks) : h.get .next x ∈ h.tail :: blocks := by
  obtain ⟨l1, l2, rfl⟩ := List.append_of_mem hx
  rw [hr.next_eq]
  cases l2 <;> simp

theorem le_next (hr : Ring h blocks) (hx : x ∈ blocks) : x + 24 ≤ h.get .next x := by
  obtain ⟨l1, l2, rfl⟩ := List.append_of_mem hx
  have horder := hr.order
  rw [hr.next_eq, List.append_assoc, List.cons_append] at *
  have hle := (List.pairwise_cons.mp (List.pairwise_append.mp horder).2.1).1
  cases l2 <;> exact hle _ (by simp)

/-- There is no header between a block and the next one. -/
theorem between (hr : Ring h (l1 ++ p :: l2)) (hy : y ∈ h.tail :: (l1 ++ p :: l2)) :
    y ≤ p ∨ h.get .next p ≤ y := by
  have horder := hr.order
  rw [hr.next_eq, List.append_assoc, List.cons_append] at *
  obtain ⟨-, hright, hleft⟩ := List.pairwise_append.mp horder
  have hy : y ∈ l1 ∨ y = p ∨ y ∈ l2 ++ [h.tail] := by grind
  rcases hy with hy | rfl | hy
  · have hle := hleft y hy p (by simp)
    omega
  · exact .inl (Nat.le_refl _)
  · right
    cases l2 with
    | nil => exact (List.mem_singleton.mp hy).ge
    | cons z l2 =>
      rcases List.mem_cons.mp hy with rfl | hy
      · exact Nat.le_refl _
      · have hle := (List.pairwise_cons.mp (List.pairwise_cons.mp hright).2).1 y hy
        exact Nat.le_trans (Nat.le_add_right _ 24) hle

/-- The size of a block is the distance to the next header. -/
theorem memitemSize_eq (hr : Ring h blocks) (hx : x ∈ blocks) :
    h.memitemSize x + x + 24 = h.get .next x := by
  have hle := hr.le_next hx
  have hlt := get_lt h .next x
  rw [memitemSize, memheapSize, sub32_eq (by omega) hlt, sub32_eq (by omega) (by omega)]
  omega

end Ring

namespace Shape

section

variable (hs : Shape G h blocks free)

include hs

theorem block (hx : x ∈ blocks) : G x := hs.node x (.inr (.inr hx))

theorem freeHeader : G h.freeList := hs.node _ (.inl rfl)

theorem next (hx : x ∈ blocks) : G (h.get .next x) := by
  rcases List.mem_cons.mp (hs.ring.next_mem hx) with htail | hblock
  · exact hs.node _ (.inr (.inl htail))
  · exact hs.block hblock

theorem freeNode : ∀ y ∈ h.freeList :: free, G y := by
  intro y hy
  rcases List.mem_cons.mp hy with rfl | hy
  · exact hs.freeHeader
  · exact hs.onGrid y hy

theorem ringNode : ∀ y ∈ h.tail :: blocks, G y := by
  intro y hy
  rcases List.mem_cons.mp hy with rfl | hy
  · exact hs.node _ (.inr (.inl rfl))
  · exact hs.block hy

/-- The free list changes. -/
theorem setFree (hk : Keeps G (OffList .nextFree .prevFree) h h')
    (hfree : Cycle (h'.get .nextFree) (h'.get .prevFree) h.freeList f1) (hG : ∀ x ∈ f1, G x) :
    Shape G h' blocks f1 where
  ring := hs.ring.congr hk (by decide) hs.node
  freeRing := by
    rw [hk.region.freeList]
    exact hfree
  grid := hs.grid
  node := by
    intro x hx
    rw [Node, hk.region.freeList, hk.region.tail] at hx
    exact hs.node x hx
  onGrid := hG

/-- The ring changes. -/
theorem setRing {F : Field → Prop} (hk : Keeps G F h h')
    (hF : F .nextFree ∧ F .prevFree) (hring : Ring h' l1) (hG : ∀ x ∈ l1, G x) :
    Shape G h' l1 free where
  ring := hring
  freeRing := by
    rw [hk.region.freeList]
    exact hs.freeRing.congr (fun y hy => hk.get _ y hF.1 (hs.freeNode y hy)) fun y hy =>
      hk.get _ y hF.2 (hs.freeNode y hy)
  grid := hs.grid
  node := by
    intro x hx
    rw [Node, hk.region.freeList, hk.region.tail] at hx
    rcases hx with hx | hx | hx
    · exact hs.node x (.inl hx)
    · exact hs.node x (.inr (.inl hx))
    · exact hG x hx
  onGrid := hs.onGrid

/-- Only fields that belong to no list are written. -/
theorem congr {F : Field → Prop} (hk : Keeps G F h h') (hF : ∀ fld, F fld) : Shape G h' blocks free :=
  hs.setRing hk ⟨hF _, hF _⟩ (hs.ring.congr hk ⟨hF _, hF _, hF _, hF _⟩ hs.node) fun _ => hs.block

/-- An item is put on the free list. -/
theorem insertFree (hx : G x) (hxf : x ∉ h.freeList :: free) :
    Shape G (h.insertFree x) blocks (x :: free) ∧
      Keeps G (OffList .nextFree .prevFree) h (h.insertFree x) := by
  obtain ⟨hne, hfree⟩ := not_or.mp (List.mem_cons.not.mp hxf)
  have hnext : h.get .nextFree h.freeList ∈ h.freeList :: free := by
    rw [hs.freeRing.path.next_eq]
    cases free <;> simp
  have hn := hs.freeNode _ hnext
  have hxn : x ≠ h.get .nextFree h.freeList := fun heq => hxf (heq ▸ hnext)
  have hs0 := hs.freeHeader
  -- the links of the item itself
  obtain ⟨h1, hh1⟩ : ∃ h1, h1 = (h.set .nextFree x (h.get .nextFree h.freeList)).set .prevFree x
    h.freeList := ⟨_, rfl⟩
  have hk1 : Keeps G (OffList .nextFree .prevFree) h h1 := by
    rw [hh1]
    exact (Keeps.set hs.grid hx (fun hF => hF.1 rfl) h _).trans
      (.set hs.grid hx (fun hF => hF.2 rfl) _ _)
  have hrest : ∀ y, G y → y ≠ x → h1.get .nextFree y = h.get .nextFree y ∧
      h1.get .prevFree y = h.get .prevFree y := by
    intro y hy hyx
    rw [hh1]
    constructor <;> rw [get_set_of_ne hs.grid hx hy (.inr hyx), get_set_of_ne hs.grid hx hy (.inr hyx)]
  have heq : h.insertFree x =
      (h1.set .prevFree (h.get .nextFree h.freeList) x).set .nextFree h.freeList x := by
    have hhead := (hrest _ hs0 (Ne.symm hne)).1
    rw [hh1] at hhead ⊢
    simp only [Memheap.insertFree, set_freeList, hhead]
  have hnext1 : h1.get .nextFree x = h.get .nextFree h.freeList := by
    rw [hh1, get_set_field _ (by decide), get_set_same _ _ _ (hs.grid.lt _ hn)]
  have hprev1 : h1.get .prevFree x = h.freeList := by
    rw [hh1, get_set_same _ _ _ (hs.grid.lt _ hs0)]
  have hsplice := splice_set .nextFree .prevFree hs.grid (by decide) hs0 hn hx hne hxn hnext1 hprev1 hrest
  rw [← heq] at hsplice
  have hk : Keeps G (OffList .nextFree .prevFree) h (h.insertFree x) := by
    rw [heq]
    exact (hk1.trans (.set hs.grid hn (fun hF => hF.2 rfl) _ _)).trans
      (.set hs.grid hs0 (fun hF => hF.1 rfl) _ _)
  refine ⟨hs.setFree hk (hs.freeRing.insert hxf hsplice hs.freeNode) ?_, hk⟩
  intro y hy
  rcases List.mem_cons.mp hy with rfl | hy
  · exact hx
  · exact hs.onGrid y hy

end

/-- An item is taken from the free list. -/
theorem removeFree (hs : Shape G h blocks (f1 ++ x :: f2)) :
    Shape G (h.removeFree x) blocks (f1 ++ f2) ∧
      Keeps G (OffList .nextFree .prevFree) h (h.removeFree x) := by
  obtain ⟨hpath, hpath'⟩ := path_append.mp hs.freeRing.path
  have hx : G x := hs.onGrid x (by simp)
  have hn : G (h.get .nextFree x) := by
    rw [hpath'.next_eq]
    apply hs.freeNode
    cases f2 <;> simp
  have hp : G (h.get .prevFree x) := by
    rw [hpath.prev_eq]
    apply hs.freeNode
    grind
  have hxn : h.get .nextFree x ≠ x := by
    rw [hpath'.next_eq]
    have hnodup := hs.freeRing.nodup
    cases f2 <;> grind
  obtain ⟨hrelink, hk⟩ := relink_set .nextFree .prevFree hs.grid (by decide) hp hn h
  have heq : h.removeFree x = (h.set .prevFree (h.get .nextFree x) (h.get .prevFree x)).set .nextFree
      (h.get .prevFree x) (h.get .nextFree x) := by
    simp only [Memheap.removeFree]
    rw [get_set_of_ne hs.grid hn hx (.inr hxn.symm), get_set_of_ne hs.grid hn hx (.inl (by decide))]
  rw [← heq] at hrelink hk
  refine ⟨hs.setFree hk (hs.freeRing.erase hrelink hs.freeNode) fun y hy => hs.onGrid y ?_, hk⟩
  rcases List.mem_append.mp hy with hy | hy <;> simp [hy]

/-- The links of an item that is on no free list are cleared. -/
theorem clearFree (hs : Shape G h blocks free) (hx : G x) (hxf : x ∉ h.freeList :: free) :
    Shape G (h.clearFree x) blocks free ∧
      Keeps G (OffList .nextFree .prevFree) h (h.clearFree x) := by
  have hk : Keeps G (OffList .nextFree .prevFree) h (h.clearFree x) :=
    (Keeps.set hs.grid hx (fun hF => hF.1 rfl) h 0).trans (.set hs.grid hx (fun hF => hF.2 rfl) _ 0)
  have hsame : ∀ fld, ∀ y ∈ h.freeList :: free, (h.clearFree x).get fld y = h.get fld y := by
    intro fld y hy
    have hyx : y ≠ x := fun heq => hxf (heq ▸ hy)
    have hGy := hs.freeNode y hy
    unfold Memheap.clearFree
    rw [get_set_of_ne hs.grid hx hGy (.inr hyx), get_set_of_ne hs.grid hx hGy (.inr hyx)]
  exact ⟨hs.setFree hk (hs.freeRing.congr (hsame _) (hsame _)) hs.onGrid, hk⟩

/-- The mark of a block is written. -/
theorem setMagic (hs : Shape G h blocks free) (hx : x ∈ blocks)
    (hv : v = memheapMagic ∨ v = memheapMagic ||| memheapUsed) :
    Shape G (h.set .magic x v) blocks free ∧ Keeps G (· ≠ .magic) h (h.set .magic x v) ∧
      ∀ y, G y → y ≠ x → ((h.set .magic x v).IsUsed y ↔ h.IsUsed y) := by
  have hk : Keeps G (· ≠ .magic) h (h.set .magic x v) := .set hs.grid (hs.block hx) (fun hF => hF rfl) h v
  have hother : ∀ y, G y → y ≠ x → (h.set .magic x v).get .magic y = h.get .magic y :=
    fun y hy hyx => get_set_of_ne hs.grid (hs.block hx) hy (.inr hyx) h v
  have hlt : v < size32 := by
    rcases hv with rfl | rfl <;> decide
  have hr := hs.ring
  have htx : h.tail ≠ x := by
    rintro rfl
    exact hr.cycle.not_mem hx
  have hring : Ring (h.set .magic x v) blocks := by
    refine ⟨hr.region.of_same hk.region, ?_, hr.first, hr.order, fun y hy => ?_, fun y hy => ?_, ?_⟩
    · exact hr.cycle.congr (fun y hy => hk.get _ y (by decide) (hs.ringNode y hy)) fun y hy =>
        hk.get _ y (by decide) (hs.ringNode y hy)
    · by_cases hyx : y = x
      · rw [hyx, get_set_same _ _ _ hlt]
        exact hv
      · rw [hother y (hs.block hy) hyx]
        exact hr.magic y hy
    · rw [hk.get .poolPtr y (by decide) (hs.block hy)]
      exact hr.poolPtr y hy
    · rw [IsUsed]
      exact (hother h.tail (hs.ringNode _ List.mem_cons_self) htx).symm ▸ hr.tailUsed
  refine ⟨hs.setRing hk (by decide) hring fun y hy => hs.block hy, hk, fun y hy hyx => ?_⟩
  rw [IsUsed, IsUsed, hother y hy hyx]

/-- The blocks `p` and `q` become one. -/
theorem join (hs : Shape G h (l1 ++ p :: q :: l2) free)
    (hrelink : Relink G (h.get .next) (h.get .prev) (h'.get .next) (h'.get .prev) p (h.get .next q))
    (hk : Keeps G (OffList .next .prev) h h') :
    Shape G h' (l1 ++ p :: l2) free ∧
      h'.memitemSize p = h.memitemSize p + 24 + h.memitemSize q ∧
      ∀ y ∈ l1 ++ l2, h'.memitemSize y = h.memitemSize y := by
  have hr := hs.ring
  have hr' : Ring h ((l1 ++ [p]) ++ q :: l2) := by simpa using hr
  have hprev : h.get .prev q = p := by
    rw [hr'.prev_eq]
    simp
  have hsub : (l1 ++ p :: l2).Sublist (l1 ++ p :: q :: l2) := by simp
  have hmem : ∀ y ∈ l1 ++ p :: l2, y ∈ l1 ++ p :: q :: l2 := fun y hy => hsub.subset hy
  have htail := hk.region.tail
  have hring : Ring h' (l1 ++ p :: l2) := by
    constructor
    · exact hr.region.of_same hk.region
    · rw [htail]
      have hcycle := hr'.cycle.erase (hprev.symm ▸ hrelink) (by simpa using hs.ringNode)
      simpa using hcycle
    · rw [hk.region.startAddr, ← hr.first]
      cases l1 <;> rfl
    · rw [htail]
      exact hr.order.sublist (hsub.append_right _)
    · intro y hy
      rw [hk.get .magic y (by decide) (hs.block (hmem y hy))]
      exact hr.magic y (hmem y hy)
    · intro y hy
      rw [hk.get .poolPtr y (by decide) (hs.block (hmem y hy)), hk.region.addr]
      exact hr.poolPtr y (hmem y hy)
    · rw [htail, hk.isUsed (by decide) (hs.ringNode _ List.mem_cons_self)]
      exact hr.tailUsed
  refine ⟨hs.setRing hk (by decide) hring fun y hy => hs.block (hmem y hy), ?_, ?_⟩
  · have hp := hring.memitemSize_eq (x := p) (by simp)
    have hp0 := hr.memitemSize_eq (x := p) (by simp)
    have hq0 := hr.memitemSize_eq (x := q) (by simp)
    have hnext : h.get .next p = q := hr.next_eq
    rw [hrelink.forth] at hp
    omega
  · intro y hy
    have hnodup := hr.cycle.nodup
    have hyp : y ≠ p := by grind
    rw [memitemSize, memitemSize, hrelink.next_of_ne y (hs.block (by grind)) hyp]

/-- The grid of the headers that are in use. -/
theorem canonical (hs : Shape G h blocks free) (hsub : ∀ y ∈ free, y ∈ blocks) :
    Shape (Node h blocks) h blocks free :=
  ⟨hs.ring, hs.freeRing, hs.ring.grid, fun _ hy => hy, fun y hy => .inr (.inr (hsub y hy))⟩

end Shape

/-- A place inside of a block is apart from the headers. -/
theorem Ring.grid_insert (hr : Ring h (l1 ++ p :: l2)) (hpx : p + 24 ≤ x)
    (hxn : x + 24 ≤ h.get .next p) :
    ¬ Node h (l1 ++ p :: l2) x ∧ Grid fun y => y = x ∨ Node h (l1 ++ p :: l2) y := by
  have hG := hr.grid
  have hapart : ∀ y, Node h (l1 ++ p :: l2) y → x + 24 ≤ y ∨ y + 24 ≤ x := by
    have hstart := hr.ge_start (x := p) (by simp)
    have hnext := hr.next_mem (x := p) (by simp)
    have hle : h.get .next p ≤ h.tail := by
      rcases List.mem_cons.mp hnext with heq | hmem
      · exact heq.le
      · have := hr.le_tail hmem
        omega
    have hheader := hr.region.header
    have htail := hr.tail_add
    rintro y (rfl | hy)
    · omega
    · have hy : y ∈ h.tail :: (l1 ++ p :: l2) := List.mem_cons.mpr hy
      have := hr.between hy
      omega
  refine ⟨fun hx => ?_, fun y z hy hz hyz => ?_, fun y hy => ?_⟩
  · have := hapart x hx
    omega
  · rcases hy with rfl | hy <;> rcases hz with rfl | hz
    · exact absurd rfl hyz
    · exact hapart z hz
    · exact (hapart y hy).symm
    · exact hG.apart y z hy hz hyz
  · rcases hy with rfl | hy
    · have := get_lt h .next p
      omega
    · exact hG.lt y hy

/-- The fields after a new header at `x` was put behind `p`. -/
structure Built (h h' : Memheap) (blocks : List Nat) (p x : Nat) : Prop where
  splice : Splice (fun y => y = x ∨ Node h blocks y) (h.get .next) (h.get .prev) (h'.get .next)
    (h'.get .prev) p x (h.get .next p)
  keeps : Keeps (Node h blocks) (OffList .next .prev) h h'
  magic : h'.get .magic x = memheapMagic
  poolPtr : h'.get .poolPtr x = h.addr

theorem Ring.insertBlock (hr : Ring h (l1 ++ p :: l2)) (hpx : p + 24 ≤ x)
    (hxn : x + 24 ≤ h.get .next p) : Built h (h.insertBlock p x) (l1 ++ p :: l2) p x := by
  obtain ⟨hfresh, hG⟩ := hr.grid_insert hpx hxn
  have hp : Node h (l1 ++ p :: l2) p := .inr (.inr (by simp))
  have hn : Node h (l1 ++ p :: l2) (h.get .next p) :=
    .inr (List.mem_cons.mp (hr.next_mem (by simp)))
  have hxp : x ≠ p := fun heq => hfresh (heq ▸ hp)
  have hxn' : x ≠ h.get .next p := fun heq => hfresh (heq ▸ hn)
  -- the writes to the new header
  obtain ⟨h0, hh0⟩ : ∃ h0, h0 = ((h.set .magic x memheapMagic).set .poolPtr x h.addr).set .prev x p :=
    ⟨_, rfl⟩
  obtain ⟨h1, hh1⟩ : ∃ h1, h1 = h0.set .next x (h.get .next p) := ⟨_, rfl⟩
  have hother0 : ∀ fld y, Node h (l1 ++ p :: l2) y → h0.get fld y = h.get fld y := by
    intro fld y hy
    have hyx : y ≠ x := fun heq => hfresh (heq ▸ hy)
    rw [hh0, get_set_of_ne hG (.inl rfl) (.inr hy) (.inr hyx), get_set_of_ne hG (.inl rfl) (.inr hy) (.inr hyx),
      get_set_of_ne hG (.inl rfl) (.inr hy) (.inr hyx)]
  have hother : ∀ fld y, Node h (l1 ++ p :: l2) y → h1.get fld y = h.get fld y := by
    intro fld y hy
    have hyx : y ≠ x := fun heq => hfresh (heq ▸ hy)
    rw [hh1, get_set_of_ne hG (.inl rfl) (.inr hy) (.inr hyx), hother0 fld y hy]
  have heq : h.insertBlock p x = (h1.set .prev (h.get .next p) x).set .next p x := by
    have hnext0 := hother0 .next p hp
    have hnext := hother .next p hp
    rw [hh1, hh0] at hnext
    rw [hh0] at hnext0
    rw [hh1, hh0]
    simp only [Memheap.insertBlock, set_addr, hnext0, hnext]
  have hkeep : ∀ fld y, OffList .next .prev fld → y = x ∨ Node h (l1 ++ p :: l2) y →
      (h.insertBlock p x).get fld y = h1.get fld y := by
    intro fld y hfld hy
    rw [heq, get_set_of_ne hG (.inr hp) hy (.inl hfld.1), get_set_of_ne hG (.inr hn) hy (.inl hfld.2)]
  constructor
  · rw [heq]
    refine splice_set .next .prev hG (by decide) (.inr hp) (.inr hn) (.inl rfl) hxp hxn' ?_ ?_ fun y hy hyx => ?_
    · rw [hh1, get_set_same _ _ _ (get_lt ..)]
    · rw [hh1, hh0, get_set_field _ (by decide), get_set_same _ _ _ (hG.lt p (.inr hp))]
    · exact ⟨hother .next y (hy.resolve_left hyx), hother .prev y (hy.resolve_left hyx)⟩
  · refine ⟨?_, fun fld y hfld hy => (hkeep fld y hfld (.inr hy)).trans (hother fld y hy)⟩
    rw [heq, hh1, hh0]
    exact ⟨rfl, rfl, rfl, rfl, rfl⟩
  · rw [hkeep .magic x (by decide) (.inl rfl), hh1, hh0, get_set_field _ (by decide),
      get_set_field _ (by decide), get_set_field _ (by decide), get_set_same _ _ _ (by decide)]
  · rw [hkeep .poolPtr x (by decide) (.inl rfl), hh1, hh0, get_set_field _ (by decide),
      get_set_field _ (by decide), get_set_same _ _ _ hr.region.addr_lt]

/-- The ring with the new block. -/
theorem Built.ring (hb : Built h h' (l1 ++ p :: l2) p x) (hr : Ring h (l1 ++ p :: l2)) (hpx : p + 24 ≤ x)
    (hxn : x + 24 ≤ h.get .next p) : Ring h' (l1 ++ p :: x :: l2) := by
  obtain ⟨hfresh, -⟩ := hr.grid_insert hpx hxn
  have hk := hb.keeps
  have htail := hk.region.tail
  have hnode : ∀ y ∈ h.tail :: (l1 ++ p :: l2), Node h (l1 ++ p :: l2) y :=
    fun y hy => .inr (List.mem_cons.mp hy)
  have hmem : ∀ y ∈ l1 ++ p :: x :: l2, y = x ∨ y ∈ l1 ++ p :: l2 := by grind
  constructor
  · exact hr.region.of_same hk.region
  · rw [htail]
    refine hr.cycle.insert_after (fun hx => hfresh (hnode x hx)) hb.splice fun y hy => .inr (hnode y hy)
  · rw [hk.region.startAddr, ← hr.first]
    cases l1 <;> rfl
  · rw [htail]
    have horder := hr.order
    simp only [List.append_assoc, List.cons_append] at horder ⊢
    obtain ⟨hl1, hpl, hleft⟩ := List.pairwise_append.mp horder
    obtain ⟨hp, hl2⟩ := List.pairwise_cons.mp hpl
    have hright : ∀ y ∈ l2 ++ [h.tail], x + 24 ≤ y := by
      intro y hy
      have hbetween := hr.between (y := y) (by grind)
      have hle := hp y hy
      omega
    refine List.pairwise_append.mpr ⟨hl1, List.pairwise_cons.mpr ⟨?_, List.pairwise_cons.mpr ⟨hright, hl2⟩⟩, ?_⟩
    · intro y hy
      rcases List.mem_cons.mp hy with rfl | hy
      · exact hpx
      · exact hp y hy
    · intro y hy z hz
      have hyp := hleft y hy p List.mem_cons_self
      rcases List.mem_cons.mp hz with rfl | hz
      · exact hyp
      · rcases List.mem_cons.mp hz with rfl | hz
        · omega
        · exact hleft y hy z (List.mem_cons_of_mem p hz)
  · intro y hy
    rcases hmem y hy with rfl | hy
    · exact .inl hb.magic
    · rw [hk.get .magic y (by decide) (.inr (.inr hy))]
      exact hr.magic y hy
  · intro y hy
    rw [hk.region.addr]
    rcases hmem y hy with rfl | hy
    · exact hb.poolPtr
    · rw [hk.get .poolPtr y (by decide) (.inr (.inr hy))]
      exact hr.poolPtr y hy
  · rw [htail, hk.isUsed (by decide) (.inr (.inl rfl))]
    exact hr.tailUsed

/-- The block `p` is split at `x`. -/
structure Splits (h h' : Memheap) (blocks : List Nat) (p x : Nat) : Prop where
  region : SameRegion h h'
  available : h'.availableSize = h.availableSize
  used : ∀ y ∈ blocks, h'.IsUsed y ↔ h.IsUsed y
  unused : ¬ h'.IsUsed x
  size : h'.memitemSize p + p + 24 = x
  rest : h'.memitemSize x + x + 24 = h.get .next p
  others : ∀ y ∈ blocks, y ≠ p → h'.memitemSize y = h.memitemSize y

/-- A new free block is built inside of the block `p`. -/
theorem Shape.insertBlock (hs : Shape (Node h (l1 ++ p :: l2)) h (l1 ++ p :: l2) free)
    (hsub : ∀ y ∈ free, y ∈ l1 ++ p :: l2) (hpx : p + 24 ≤ x) (hxn : x + 24 ≤ h.get .next p) :
    Shape (Node (h.insertBlock p x) (l1 ++ p :: x :: l2)) (h.insertBlock p x) (l1 ++ p :: x :: l2) free ∧
      Splits h (h.insertBlock p x) (l1 ++ p :: l2) p x := by
  have hb := hs.ring.insertBlock hpx hxn
  have hring := hb.ring hs.ring hpx hxn
  obtain ⟨hfresh, -⟩ := hs.ring.grid_insert hpx hxn
  have hk := hb.keeps
  have hfree : Cycle ((h.insertBlock p x).get .nextFree) ((h.insertBlock p x).get .prevFree)
      (h.insertBlock p x).freeList free := by
    exact hs.freeRing.congr (fun y hy => hk.get _ y (by decide) (hs.freeNode y hy)) fun y hy =>
      hk.get _ y (by decide) (hs.freeNode y hy)
  have hsub' : ∀ y ∈ free, y ∈ l1 ++ p :: x :: l2 := fun y hy => by
    grind
  refine ⟨⟨hring, hfree, hring.grid, fun _ hy => hy, fun y hy => .inr (.inr (hsub' y hy))⟩, ?_⟩
  constructor
  · exact hk.region
  · rfl
  · intro y hy
    exact hk.isUsed (by decide) (.inr (.inr hy))
  · rw [IsUsed, hb.magic]
    decide
  · rw [hring.memitemSize_eq (by simp), hb.splice.forth]
  · rw [hring.memitemSize_eq (by simp), hb.splice.forth_new]
  · intro y hy hyp
    have hyx : y ≠ x := fun heq => hfresh (heq ▸ .inr (.inr hy))
    rw [memitemSize, memitemSize, hb.splice.next_of_ne y (.inr (.inr (.inr hy))) hyp hyx]

end RtThread.Memheap
