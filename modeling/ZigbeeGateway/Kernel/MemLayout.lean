-- SUMMARY: The layout of the system heap: its blocks tile the region.
import ZigbeeGateway.Lib.Tiling
import ZigbeeGateway.Kernel.Mem

/-!
# The layout of the heap

`Tiled h bs` says that the headers in memory describe the blocks `bs`. Each function of `mem.c`
replaces one to three neighbouring blocks, so its lemma has the form: from a tiling
`l1 ++ mid ++ l2` to `l1 ++ mid' ++ l2`. `Layout` adds what holds between the calls: no two
free neighbours, and a lowest-free pointer to a free block.
-/

namespace RtThread.Heap

open Word ByteMem Tiling

variable {h h' : Heap} {bs l1 l2 : List Block} {b : Block} {u : Bool} {n x ptr ptr2 : Nat}

/-! ## Headers -/

@[simp] theorem set_heapPtr (fld : Field) (p v : Nat) : (h.set fld p v).heapPtr = h.heapPtr := rfl

@[simp] theorem set_heapEnd (fld : Field) (p v : Nat) : (h.set fld p v).heapEnd = h.heapEnd := rfl

theorem Field.offset_add_width_le (fld : Field) : fld.offset + fld.width ≤ 12 := by
  cases fld <;> decide

@[simp] theorem get_set_same (h : Heap) (fld : Field) (p v : Nat) :
    (h.set fld p v).get fld p = v % 256 ^ fld.width := load_store_same

theorem get_setNext (h : Heap) {p v : Nat} (hv : v < size32) : (h.set .next p v).get .next p = v :=
  (get_set_same ..).trans (Nat.mod_eq_of_lt hv)

theorem get_setPrev (h : Heap) {p v : Nat} (hv : v < size32) : (h.set .prev p v).get .prev p = v :=
  (get_set_same ..).trans (Nat.mod_eq_of_lt hv)

theorem get_set_field (h : Heap) {fld fld' : Field} (hne : fld' ≠ fld) (p v : Nat) :
    (h.set fld p v).get fld' p = h.get fld' p := by
  apply load_store_of_apart
  cases fld <;> cases fld' <;> simp_all [Field.offset, Field.width]

/-- Headers at two places that do not overlap. -/
theorem get_set_apart (h : Heap) {p q : Nat} (hpq : p + 12 ≤ q ∨ q + 12 ≤ p) (fld fld' : Field)
    (v : Nat) : (h.set fld p v).get fld' q = h.get fld' q := by
  apply load_store_of_apart
  have hfld := Field.offset_add_width_le fld
  have hfld' := Field.offset_add_width_le fld'
  omega

/-- What the headers of the heap say. -/
def fields (h : Heap) : Fields where
  next x := h.get .next (h.heapPtr + x)
  prev x := h.get .prev (h.heapPtr + x)
  used x := h.get .used (h.heapPtr + x) ≠ 0

/-- The static variables that no call changes. -/
structure SameRegion (h h' : Heap) : Prop where
  heapPtr : h'.heapPtr = h.heapPtr
  heapEnd : h'.heapEnd = h.heapEnd
  memSizeAligned : h'.memSizeAligned = h.memSizeAligned

theorem SameRegion.trans {h'' : Heap} (h1 : SameRegion h h') (h2 : SameRegion h' h'') :
    SameRegion h h'' where
  heapPtr := h2.heapPtr.trans h1.heapPtr
  heapEnd := h2.heapEnd.trans h1.heapEnd
  memSizeAligned := h2.memSizeAligned.trans h1.memSizeAligned

/-- The writes from `h` to `h'` are to the headers from `o` on and before `o2`, and to the back link
at `o2`. -/
structure Edits (h h' : Heap) (o o2 : Nat) : Prop where
  region : SameRegion h h'
  below : ∀ x fld, x + 12 ≤ o → h'.get fld (h.heapPtr + x) = h.get fld (h.heapPtr + x)
  above : ∀ x fld, o2 + 12 ≤ x → h'.get fld (h.heapPtr + x) = h.get fld (h.heapPtr + x)
  first : ∀ fld, fld ≠ .prev → h'.get fld (h.heapPtr + o2) = h.get fld (h.heapPtr + o2)

namespace Edits

variable {o o2 : Nat} {fld : Field} {v : Nat}

theorem of_mem (hmem : h'.mem = h.mem) (hreg : SameRegion h h') : Edits h h' o o2 where
  region := hreg
  below _ _ _ := by rw [get, get, hmem]
  above _ _ _ := by rw [get, get, hmem]
  first _ _ := by rw [get, get, hmem]

theorem trans {h'' : Heap} (h1 : Edits h h' o o2) (h2 : Edits h' h'' o o2) : Edits h h'' o o2 := by
  obtain ⟨hreg, hbelow, habove, hfirst⟩ := h1
  obtain ⟨hreg', hbelow', habove', hfirst'⟩ := h2
  rw [hreg.heapPtr] at hbelow' habove' hfirst'
  constructor
  · exact hreg.trans hreg'
  · exact fun x fld hx => (hbelow' x fld hx).trans (hbelow x fld hx)
  · exact fun x fld hx => (habove' x fld hx).trans (habove x fld hx)
  · exact fun fld hne => (hfirst' fld hne).trans (hfirst fld hne)

theorem set (h1 : Edits h h' o o2) (hx : o ≤ x) (hx' : x + 12 ≤ o2) :
    Edits h (h'.set fld (h'.heapPtr + x) v) o o2 := by
  refine h1.trans ⟨⟨rfl, rfl, rfl⟩, fun y fld' hy => ?_, fun y fld' hy => ?_, fun fld' _ => ?_⟩
  all_goals exact get_set_apart _ (by omega) ..

theorem setPrev (h1 : Edits h h' o o2) (ho : o ≤ o2) :
    Edits h (h'.set .prev (h'.heapPtr + o2) v) o o2 := by
  refine h1.trans ⟨⟨rfl, rfl, rfl⟩, fun y fld' hy => ?_, fun y fld' hy => ?_, fun fld' hne => ?_⟩
  · exact get_set_apart _ (by omega) ..
  · exact get_set_apart _ (by omega) ..
  · exact get_set_field _ hne ..

/-- A header that is not written. -/
theorem same_below (he : Edits h h' o o2) (hx : x + 12 ≤ o) : Same h.fields h'.fields x := by
  constructor <;> simp only [fields, he.region.heapPtr, he.below _ _ hx]

theorem same_above (he : Edits h h' o o2) (hx : o2 + 12 ≤ x) : Same h.fields h'.fields x := by
  constructor <;> simp only [fields, he.region.heapPtr, he.above _ _ hx]

end Edits

/-! ## The bytes that are written -/

/-- There is a header at `o`: of one of the blocks, or at the end of the heap. -/
def Header (bs : List Block) (o : Nat) : Prop := (∃ b, At 12 0 bs o b) ∨ o = after 12 0 bs

theorem header_after : Header (l1 ++ l2) (after 12 0 l1) := by
  cases l2 with
  | nil => exact .inr (by rw [List.append_nil])
  | cons b l2 => exact .inl ⟨b, at_after⟩

theorem header_next : Header (l1 ++ b :: l2) (after 12 0 l1 + 12 + b.size) := by
  have hnext : Header ((l1 ++ [b]) ++ l2) (after 12 0 (l1 ++ [b])) := header_after
  simpa using hnext

theorem header_next_next {c : Block} :
    Header (l1 ++ b :: c :: l2) (after 12 0 l1 + 12 + b.size + 12 + c.size) := by
  have hnext : Header ((l1 ++ [b]) ++ c :: l2) (after 12 0 (l1 ++ [b]) + 12 + c.size) := header_next
  simpa using hnext

/-- The bytes that differ lie in the headers of the blocks `bs`. -/
def Touches (h h' : Heap) (bs : List Block) : Prop :=
  ∀ a, h'.mem a = h.mem a ∨ ∃ o, Header bs o ∧ h.heapPtr + o ≤ a ∧ a < h.heapPtr + o + 12

/-- The data of a block are not touched. -/
theorem Touches.data {i : Nat} (ht : Touches h h' bs) (hx : At 12 0 bs x b) (hi : i < b.size) :
    h'.mem (h.heapPtr + x + 12 + i) = h.mem (h.heapPtr + x + 12 + i) := by
  refine (ht _).resolve_right ?_
  rintro ⟨o, ⟨c, ho⟩ | rfl, hle, hlt⟩
  · rcases Nat.lt_trichotomy x o with hxo | rfl | hxo
    · have hapart := hx.apart ho hxo
      omega
    · omega
    · omega
  · have hbound := hx.bounds.2
    omega

theorem Touches.trans {h'' : Heap} (ht : Touches h h' bs) (ht' : Touches h' h'' bs)
    (hptr : h'.heapPtr = h.heapPtr) : Touches h h'' bs := by
  intro a
  have hlater := ht' a
  rw [hptr] at hlater
  rcases hlater with heq | hheader
  · rw [heq]
    exact ht a
  · exact .inr hheader

/-- The statistics are the same. -/
structure SameStats (h h' : Heap) : Prop where
  usedMem : h'.usedMem = h.usedMem
  maxMem : h'.maxMem = h.maxMem

/-- From `h` to `h'` only headers of the blocks `bs` are written, and `lfree`. -/
structure Relinks (h h' : Heap) (bs : List Block) : Prop where
  region : SameRegion h h'
  touches : Touches h h' bs
  stats : SameStats h h'

namespace Relinks

variable {bs' : List Block} {o : Nat}

theorem setLfree (p : Nat) : Relinks h { h with lfree := p } bs :=
  ⟨⟨rfl, rfl, rfl⟩, fun _ => .inl rfl, rfl, rfl⟩

theorem refl (h : Heap) : Relinks h h bs := .setLfree h.lfree

theorem trans {h'' : Heap} (h1 : Relinks h h' bs) (h2 : Relinks h' h'' bs) : Relinks h h'' bs where
  region := h1.region.trans h2.region
  touches := h1.touches.trans h2.touches h1.region.heapPtr
  stats := ⟨h2.stats.usedMem.trans h1.stats.usedMem, h2.stats.maxMem.trans h1.stats.maxMem⟩

theorem set (h1 : Relinks h h' bs) (ho : Header bs o) (fld : Field) (v : Nat) :
    Relinks h (h'.set fld (h'.heapPtr + o) v) bs := by
  refine h1.trans ⟨⟨rfl, rfl, rfl⟩, fun a => ?_, rfl, rfl⟩
  by_cases ha : h'.heapPtr + o ≤ a ∧ a < h'.heapPtr + o + 12
  · exact .inr ⟨o, ho, ha⟩
  · have hfld := Field.offset_add_width_le fld
    exact .inl (store_of_apart (by omega))

theorem mono (h1 : Relinks h h' bs) (hbs : ∀ o, Header bs o → Header bs' o) : Relinks h h' bs' := by
  refine ⟨h1.region, fun a => (h1.touches a).imp_right ?_, h1.stats⟩
  rintro ⟨o, ho, ha⟩
  exact ⟨o, hbs o ho, ha⟩

end Relinks

/-- Where the heap lies. -/
structure Region (h : Heap) : Prop where
  ptrAligned : h.heapPtr % 4 = 0
  sizeAligned : h.memSizeAligned % 4 = 0
  min : 12 ≤ h.memSizeAligned
  fits : h.heapPtr + h.memSizeAligned + 24 < size32
  heapEnd : h.heapEnd = h.heapPtr + h.memSizeAligned + 12

theorem Region.of_same (hr : Region h) (hreg : SameRegion h h') : Region h' := by
  obtain ⟨hptr, hend, hsize⟩ := hreg
  obtain ⟨h1, h2, h3, h4, h5⟩ := hr
  constructor <;> simp only [hptr, hend, hsize] <;> assumption

/-- The blocks `bs` tile the heap. The last block can always be handed out. -/
structure Tiled (h : Heap) (bs : List Block) : Prop where
  region : Region h
  tiles : Tiles 12 h.fields 0 0 bs
  space : after 12 0 bs = h.memSizeAligned + 12
  aligned : ∀ b ∈ bs, b.size % 4 = 0
  marked : ∀ x n, At 12 0 bs x ⟨true, n⟩ → h.get .magic (h.heapPtr + x) = heapMagic
  room : ∀ b ∈ bs.getLast?, 12 ≤ b.size
  endUsed : h.get .used h.heapEnd ≠ 0

namespace Tiled

theorem next (ht : Tiled h bs) (hx : At 12 0 bs x b) :
    h.get .next (h.heapPtr + x) = x + 12 + b.size := (ht.tiles.at hx).2

theorem used (ht : Tiled h bs) (hx : At 12 0 bs x b) :
    h.get .used (h.heapPtr + x) = 0 ↔ b.used = false := by
  have hused : decide (h.get .used (h.heapPtr + x) ≠ 0) = b.used := (ht.tiles.at hx).1
  rw [← hused]
  simp

theorem at_le (ht : Tiled h bs) (hx : At 12 0 bs x b) : x + 12 + b.size ≤ h.memSizeAligned + 12 :=
  ht.space ▸ hx.bounds.2

theorem dataSize (ht : Tiled h bs) (hx : At 12 0 bs x b) : h.dataSize x = b.size := by
  have hle := ht.at_le hx
  have hfits := ht.region.fits
  rw [Heap.dataSize, sizeofStructMem, ht.next hx, add32_eq (by omega), sub32_eq (by omega) (by omega)]
  omega

/-- Every offset is a multiple of four. -/
theorem off_aligned {off : Nat} (hoff : off % 4 = 0) (hbs : ∀ b ∈ bs, b.size % 4 = 0) :
    after 12 off bs % 4 = 0 ∧ ∀ {x b}, At 12 off bs x b → x % 4 = 0 := by
  induction bs generalizing off with
  | nil => exact ⟨hoff, fun hx => hx.elim⟩
  | cons c bs ih =>
    have hc := hbs c List.mem_cons_self
    have hnext : (off + 12 + c.size) % 4 = 0 := by omega
    obtain ⟨hafter, hat⟩ := ih hnext fun b hb => hbs b (List.mem_cons_of_mem c hb)
    refine ⟨hafter, fun hx => ?_⟩
    rcases hx with ⟨rfl, -⟩ | hx
    · exact hoff
    · exact hat hx

theorem at_aligned (ht : Tiled h bs) (hx : At 12 0 bs x b) : x % 4 = 0 :=
  (off_aligned rfl ht.aligned).2 hx

/-- Some neighbouring blocks are replaced by others. -/
theorem replace {mid mid' : List Block} (ht : Tiled h (l1 ++ (mid ++ l2)))
    (he : Edits h h' (after 12 0 l1) (after 12 (after 12 0 l1) mid))
    (hmid : Tiles 12 h'.fields (last 12 0 0 l1) (after 12 0 l1) mid')
    (hspace : after 12 (after 12 0 l1) mid' = after 12 (after 12 0 l1) mid)
    (hprev : l2 ≠ [] → h'.get .prev (h.heapPtr + after 12 (after 12 0 l1) mid) =
      last 12 (last 12 0 0 l1) (after 12 0 l1) mid') (haligned : ∀ b ∈ mid', b.size % 4 = 0)
    (hmarked : ∀ x n, At 12 (after 12 0 l1) mid' x ⟨true, n⟩ →
      h'.get .magic (h.heapPtr + x) = heapMagic)
    (hroom : ∃ b ∈ mid'.getLast?, l2 = [] → 12 ≤ b.size) : Tiled h' (l1 ++ (mid' ++ l2)) := by
  have hptr := he.region.heapPtr
  have hlast : after 12 (after 12 0 l1) mid = h.memSizeAligned + 12 ∨
      after 12 (after 12 0 l1) mid + 12 ≤ h.memSizeAligned + 12 := by
    rw [← ht.space, after_append, after_append]
    cases l2 with
    | nil => exact .inl rfl
    | cons c l2 =>
      refine .inr (Nat.le_trans (Nat.le_add_right _ c.size) ?_)
      exact le_after
  constructor
  · exact ht.region.of_same he.region
  · refine ht.tiles.replace hspace (fun x _ hx => he.same_below hx) hmid (fun hl2 => ?_)
      fun x hx => he.same_above hx
    simp only [fields, hptr, he.first .next (by decide), he.first .used (by decide), true_and]
    exact hprev hl2
  · rw [after_append, after_append, hspace, he.region.memSizeAligned, ← ht.space, after_append,
      after_append]
  · intro b hb
    have hold := ht.aligned b
    simp only [List.mem_append] at hb hold
    rcases hb with hb | hb | hb
    · exact hold (.inl hb)
    · exact haligned b hb
    · exact hold (.inr (.inr hb))
  · intro x m hx
    have hold := ht.marked x m
    rw [hptr]
    simp only [at_append, hspace] at hx hold
    rcases hx with hx | hx | hx
    · rw [he.below x .magic (by have hle := hx.bounds.2; omega)]
      exact hold (.inl hx)
    · exact hmarked x m hx
    · rw [← hold (.inr (.inr hx))]
      cases l2 with
      | nil => exact hx.elim
      | cons c l2 =>
        rcases hx with ⟨rfl, -⟩ | hx
        · exact he.first .magic (by decide)
        · exact he.above x .magic (by have hle := hx.bounds.1; omega)
  · obtain ⟨b, hb, hsize⟩ := hroom
    intro c hc
    cases l2 with
    | nil =>
      rw [List.append_nil, List.getLast?_append, hb] at hc
      cases hc
      exact hsize rfl
    | cons d l2 =>
      apply ht.room c
      rwa [← List.append_assoc, List.getLast?_append_of_ne_nil _ (by simp)] at hc ⊢
  · have hused : h'.get .used (h.heapPtr + (h.memSizeAligned + 12)) =
        h.get .used (h.heapPtr + (h.memSizeAligned + 12)) := by
      rcases hlast with hlast | hlast
      · rw [← hlast]
        exact he.first .used (by decide)
      · exact he.above _ .used hlast
    have hendUsed := ht.endUsed
    rw [ht.region.heapEnd, Nat.add_assoc] at hendUsed
    rwa [he.region.heapEnd, ht.region.heapEnd, Nat.add_assoc, hused]

section

variable (ht : Tiled h (l1 ++ ⟨u, n⟩ :: l2))

include ht

/-- What the header of a block says. -/
theorem header :
    h.get .next (h.heapPtr + after 12 0 l1) = after 12 0 l1 + 12 + n ∧
    h.get .prev (h.heapPtr + after 12 0 l1) = last 12 0 0 l1 := by
  obtain ⟨-, hnext, hprev, -⟩ := (tiles_append.mp ht.tiles).2
  exact ⟨hnext, hprev⟩

/-- The offset after a block, and the end of the heap. -/
theorem block_le :
    after 12 0 l1 + 12 + n ≤ h.memSizeAligned + 12 ∧
    (l2 = [] ↔ after 12 0 l1 + 12 + n = h.memSizeAligned + 12) := by
  have hspace := ht.space
  rw [after_append, after_cons] at hspace
  cases l2 with
  | nil => exact ⟨hspace.le, by simpa using hspace⟩
  | cons c l2 =>
    have hle : after 12 0 l1 + 12 + n + 12 + c.size ≤ after 12 (after 12 0 l1 + 12 + n) (c :: l2) :=
      le_after
    simp only at hspace
    refine ⟨by omega, ?_⟩
    simp only [reduceCtorEq, false_iff]
    omega

/-- A block is replaced by one of the same size. -/
theorem mark {u' : Bool} (he : Edits h h' (after 12 0 l1) (after 12 0 l1 + 12 + n))
    (hnext : h'.get .next (h.heapPtr + after 12 0 l1) = h.get .next (h.heapPtr + after 12 0 l1))
    (hprev : h'.get .prev (h.heapPtr + after 12 0 l1) = h.get .prev (h.heapPtr + after 12 0 l1))
    (hback : h'.get .prev (h.heapPtr + (after 12 0 l1 + 12 + n)) =
      h.get .prev (h.heapPtr + (after 12 0 l1 + 12 + n)))
    (hused : decide (h'.get .used (h.heapPtr + after 12 0 l1) ≠ 0) = u')
    (hmagic : u' = true → h'.get .magic (h.heapPtr + after 12 0 l1) = heapMagic) :
    Tiled h' (l1 ++ ⟨u', n⟩ :: l2) := by
  have hold : Tiled h (l1 ++ ([⟨u, n⟩] ++ l2)) := ht
  have hptr := he.region.heapPtr
  obtain ⟨hnext0, hprev0⟩ := ht.header
  have hmid : Tiles 12 h'.fields (last 12 0 0 l1) (after 12 0 l1) [⟨u', n⟩] := by
    refine ⟨?_, ?_, ?_, trivial⟩
    · simpa only [fields, hptr] using hused
    · simpa only [fields, hptr, hnext] using hnext0
    · simpa only [fields, hptr, hprev] using hprev0
  refine hold.replace he hmid rfl ?_ ?_ ?_ ?_
  · intro hl2
    obtain ⟨c, l2, rfl⟩ := List.exists_cons_of_ne_nil hl2
    obtain ⟨-, -, hback0, -⟩ := (tiles_append.mp hold.tiles).2.2.2.2
    exact hback.trans hback0
  · simpa using ht.aligned ⟨u, n⟩ (by simp)
  · rintro x m (⟨rfl, hm⟩ | hx)
    · cases hm
      exact hmagic rfl
    · exact hx.elim
  · refine ⟨⟨u', n⟩, rfl, ?_⟩
    rintro rfl
    exact ht.room ⟨u, n⟩ (by simp)

end

end Tiled

/-! ## plug_holes -/

/-- The lowest-free pointer points to a free block, or to the end of the heap. -/
def FreePtr (h : Heap) (bs : List Block) : Prop :=
  h.lfree = h.heapEnd ∨ ∃ x n, At 12 0 bs x ⟨false, n⟩ ∧ h.lfree = h.heapPtr + x

theorem ite_lfree {c : Prop} [Decidable c] (h : Heap) (p : Nat) :
    (if c then { h with lfree := p } else h) = { h with lfree := if c then p else h.lfree } := by
  split <;> rfl

@[simp] theorem get_lfree (h : Heap) (p : Nat) (fld : Field) (q : Nat) :
    ({ h with lfree := p } : Heap).get fld q = h.get fld q := rfl

/-- The same blocks are in use. -/
def SameUsed (bs bs' : List Block) : Prop :=
  ∀ x n, At 12 0 bs' x ⟨true, n⟩ ↔ At 12 0 bs x ⟨true, n⟩

/-- Free neighbours among the blocks `bs` are joined. -/
structure Joins (h h' : Heap) (bs bs' : List Block) : Prop where
  tiled : Tiled h' bs'
  relinks : Relinks h h' bs
  freePtr : FreePtr h' bs'
  used : SameUsed bs bs'
  headers : ∀ o, Header bs' o → Header bs o
  lfree : h'.lfree ≤ h.lfree

theorem Joins.refl (ht : Tiled h bs) (hfree : FreePtr h bs) : Joins h h bs bs where
  tiled := ht
  relinks := .refl h
  freePtr := hfree
  used _ _ := Iff.rfl
  headers _ := id
  lfree := Nat.le_refl _

theorem Joins.trans {h'' : Heap} {bs' bs'' : List Block} (h1 : Joins h h' bs bs')
    (h2 : Joins h' h'' bs' bs'') : Joins h h'' bs bs'' where
  tiled := h2.tiled
  relinks := h1.relinks.trans (h2.relinks.mono h1.headers)
  freePtr := h2.freePtr
  used x n := (h2.used x n).trans (h1.used x n)
  headers o ho := h1.headers o (h2.headers o ho)
  lfree := h2.lfree.trans h1.lfree

/-- The writes that join the free block at `o'` to the one before it, at `o`. -/
def join (h : Heap) (o o' o2 : Nat) : Heap :=
  (({ h with lfree := if h.lfree = h.heapPtr + o' then h.heapPtr + o else h.lfree } : Heap).set .next
    (h.heapPtr + o) o2).set .prev (h.heapPtr + o2) o

theorem join_lfree (h : Heap) (o o' o2 : Nat) :
    (h.join o o' o2).lfree = if h.lfree = h.heapPtr + o' then h.heapPtr + o else h.lfree := rfl

/-- The lowest-free pointer after a join. -/
theorem FreePtr.join {k : Nat} (hfree : FreePtr h (l1 ++ ⟨false, k⟩ :: ⟨false, n⟩ :: l2))
    (hend : h.heapEnd ≠ h.heapPtr + (after 12 0 l1 + 12 + k)) :
    FreePtr (h.join (after 12 0 l1) (after 12 0 l1 + 12 + k) (after 12 0 l1 + 12 + k + 12 + n))
      (l1 ++ ⟨false, k + 12 + n⟩ :: l2) := by
  have hspace : after 12 0 l1 + 12 + (k + 12 + n) = after 12 0 l1 + 12 + k + 12 + n := by omega
  unfold FreePtr at hfree ⊢
  simp only [join_lfree, at_append, at_cons, hspace] at hfree ⊢
  show _ = h.heapEnd ∨ ∃ x m, _ ∧ _ = h.heapPtr + x
  rcases hfree with hlf | ⟨x, m, hx, hlf⟩
  · rw [hlf, if_neg hend]
    exact .inl rfl
  · rw [hlf]
    right
    split
    next heq => exact ⟨after 12 0 l1, k + 12 + n, .inr (.inl ⟨rfl, rfl⟩), rfl⟩
    next hne =>
      rcases hx with hx | ⟨rfl, -⟩ | ⟨rfl, -⟩ | hx
      · exact ⟨x, m, .inl hx, rfl⟩
      · exact ⟨_, k + 12 + n, .inr (.inl ⟨rfl, rfl⟩), rfl⟩
      · exact absurd rfl hne
      · exact ⟨x, m, .inr (.inr hx), rfl⟩

/-- The headers of a list in which two free neighbours were joined. -/
theorem header_join {k o : Nat} (ho : Header (l1 ++ ⟨false, k + 12 + n⟩ :: l2) o) :
    Header (l1 ++ ⟨false, k⟩ :: ⟨false, n⟩ :: l2) o := by
  have hspace : after 12 0 l1 + 12 + (k + 12 + n) = after 12 0 l1 + 12 + k + 12 + n := by omega
  simp only [Header, at_append, at_cons, after_append, after_cons, hspace] at ho ⊢
  rcases ho with ⟨b, hb | ⟨rfl, -⟩ | hb⟩ | ho
  · exact .inl ⟨b, .inl hb⟩
  · exact .inl ⟨_, .inr (.inl ⟨rfl, rfl⟩)⟩
  · exact .inl ⟨b, .inr (.inr (.inr hb))⟩
  · exact .inr ho

namespace Tiled

theorem block_ne_end (ht : Tiled h (l1 ++ ⟨u, n⟩ :: b :: l2)) :
    h.heapEnd ≠ h.heapPtr + (after 12 0 l1 + 12 + n) := by
  have hlt : after 12 0 l1 + 12 + n ≠ h.memSizeAligned + 12 := fun heq => by
    simpa using ht.block_le.2.mpr heq
  have hend := ht.region.heapEnd
  omega

theorem joins {k : Nat} (ht : Tiled h (l1 ++ ⟨false, k⟩ :: ⟨false, n⟩ :: l2))
    (hfree : FreePtr h (l1 ++ ⟨false, k⟩ :: ⟨false, n⟩ :: l2)) :
    Joins h (h.join (after 12 0 l1) (after 12 0 l1 + 12 + k) (after 12 0 l1 + 12 + k + 12 + n))
      (l1 ++ ⟨false, k⟩ :: ⟨false, n⟩ :: l2) (l1 ++ ⟨false, k + 12 + n⟩ :: l2) := by
  have hold : Tiled h (l1 ++ ([⟨false, k⟩, ⟨false, n⟩] ++ l2)) := ht
  have hle := (show Tiled h ((l1 ++ [⟨false, k⟩]) ++ ⟨false, n⟩ :: l2) by simpa using ht).block_le.1
  simp only [after_append, after_cons, after_nil] at hle
  have hfits := ht.region.fits
  have hk : k % 4 = 0 := by simpa using ht.aligned ⟨false, k⟩ (by simp)
  have hn : n % 4 = 0 := by simpa using ht.aligned ⟨false, n⟩ (by simp)
  have hspace : after 12 0 l1 + 12 + (k + 12 + n) = after 12 0 l1 + 12 + k + 12 + n := by omega
  constructor
  · have hmid : Tiles 12 (h.join (after 12 0 l1) (after 12 0 l1 + 12 + k)
        (after 12 0 l1 + 12 + k + 12 + n)).fields (last 12 0 0 l1) (after 12 0 l1) [⟨false, k + 12 + n⟩] := by
      refine ⟨?_, ?_, ?_, trivial⟩
      · show decide ((h.join _ _ _).get .used (h.heapPtr + _) ≠ 0) = false
        rw [Heap.join, get_set_apart _ (by omega), get_set_field _ (by simp), get_lfree,
          (ht.used at_after).mpr rfl]
        rfl
      · show (h.join _ _ _).get .next (h.heapPtr + _) = _
        rw [Heap.join, get_set_apart _ (by omega), get_setNext _ (by omega), hspace]
      · show (h.join _ _ _).get .prev (h.heapPtr + _) = _
        rw [Heap.join, get_set_apart _ (by omega), get_set_field _ (by simp), get_lfree, ht.header.2]
    refine hold.replace ?_ hmid hspace (fun _ => ?_) ?_ ?_ ?_
    · refine Edits.setPrev (Edits.set (Edits.of_mem rfl ⟨rfl, rfl, rfl⟩) ?_ ?_) ?_ <;> omega
    · exact get_setPrev _ (by omega)
    · simp only [List.mem_singleton, forall_eq]
      omega
    · rintro x m (⟨-, hm⟩ | hx)
      · cases hm
      · exact hx.elim
    · refine ⟨⟨false, k + 12 + n⟩, rfl, fun _ => ?_⟩
      simp only
      omega
  · exact ((Relinks.setLfree _).set header_after .next _).set
      (o := after 12 0 l1 + 12 + k + 12 + n) header_next_next .prev _
  · exact hfree.join ht.block_ne_end
  · intro x m
    have hspace : after 12 0 l1 + 12 + (k + 12 + n) = after 12 0 l1 + 12 + k + 12 + n := by omega
    simp [hspace]
  · exact fun o => header_join
  · rw [join_lfree]
    split <;> omega

theorem plugForward_eq (ht : Tiled h (l1 ++ ⟨false, n⟩ :: l2))
    (hl2 : ∀ b ∈ l2.head?, b.used = true) : h.plugForward (h.heapPtr + after 12 0 l1) = h := by
  have hend := ht.region.heapEnd
  obtain ⟨hnext, -⟩ := ht.header
  rw [plugForward, hnext, if_neg]
  rintro ⟨-, hused, hne⟩
  cases l2 with
  | nil =>
    have hlast := ht.block_le.2.mp rfl
    omega
  | cons c l2 =>
    have hc : At 12 0 (l1 ++ ⟨false, n⟩ :: c :: l2) (after 12 0 l1 + 12 + n) c := by simp
    have hfree := (ht.used hc).mp hused
    rw [hl2 c (by simp)] at hfree
    cases hfree

/-- The free block after a free block is joined to it. -/
theorem plugForward_join {k : Nat} (ht : Tiled h (l1 ++ ⟨false, n⟩ :: ⟨false, k⟩ :: l2)) :
    h.plugForward (h.heapPtr + after 12 0 l1) =
      h.join (after 12 0 l1) (after 12 0 l1 + 12 + n) (after 12 0 l1 + 12 + n + 12 + k) := by
  have hend := ht.region.heapEnd
  obtain ⟨hnext, -⟩ := ht.header
  have ht' : Tiled h ((l1 ++ [⟨false, n⟩]) ++ ⟨false, k⟩ :: l2) := by simpa using ht
  have hle := ht'.block_le.1
  have hnext' := ht'.header.1
  have hused' := (ht'.used at_after).mpr rfl
  simp only [after_append, after_cons, after_nil] at hle hnext' hused'
  rw [plugForward, hnext, if_pos ⟨by omega, hused', by omega⟩, ite_lfree]
  dsimp only
  rw [get_lfree, hnext', get_set_apart _ (by omega), get_lfree, hnext', set_heapPtr,
    Nat.add_sub_cancel_left, Heap.join]

/-- The writes that join a free block to the one before it. -/
theorem plugBackward_join {k : Nat} (ht : Tiled h (l1 ++ ⟨false, k⟩ :: ⟨false, n⟩ :: l2)) :
    h.plugBackward (h.heapPtr + (after 12 0 l1 + 12 + k)) =
      h.join (after 12 0 l1) (after 12 0 l1 + 12 + k) (after 12 0 l1 + 12 + k + 12 + n) := by
  have ht' : Tiled h ((l1 ++ [⟨false, k⟩]) ++ ⟨false, n⟩ :: l2) := by simpa using ht
  obtain ⟨hnext, hprev⟩ := ht'.header
  have hused := (ht.used at_after).mpr rfl
  simp only [after_append, after_cons, after_nil, last_append, last_cons, last_nil] at hnext hprev
  rw [plugBackward, hprev, if_pos ⟨by omega, hused⟩, ite_lfree]
  dsimp only
  rw [get_lfree, hnext, get_set_apart _ (by omega), get_lfree, hnext, set_heapPtr,
    Nat.add_sub_cancel_left, Heap.join]

theorem plugBackward_eq (ht : Tiled h (l1 ++ ⟨false, n⟩ :: l2))
    (hl1 : ∀ b ∈ l1.getLast?, b.used = true) : h.plugBackward (h.heapPtr + after 12 0 l1) = h := by
  obtain ⟨-, hprev⟩ := ht.header
  rw [plugBackward, hprev, if_neg]
  rintro ⟨hne, hused⟩
  rcases List.eq_nil_or_concat' l1 with rfl | ⟨l0, c, rfl⟩
  · exact hne rfl
  · have hc : At 12 0 ((l0 ++ [c]) ++ ⟨false, n⟩ :: l2) (after 12 0 l0) c := by simp
    simp only [last_append, last_cons, last_nil] at hused
    have hfree := (ht.used hc).mp hused
    rw [hl1 c (by simp)] at hfree
    cases hfree

end Tiled

/-- No two neighbours are both free. -/
def NoHoles (bs : List Block) : Prop := bs.IsChain fun a b => a.used = true ∨ b.used = true

/-- The heap between two calls. -/
structure Layout (h : Heap) (bs : List Block) : Prop where
  tiled : Tiled h bs
  noHoles : NoHoles bs
  lfree : FreePtr h bs

namespace Tiled

theorem plugForward (ht : Tiled h (l1 ++ ⟨false, n⟩ :: l2)) (hl2 : NoHoles l2)
    (hfree : FreePtr h (l1 ++ ⟨false, n⟩ :: l2)) :
    ∃ h' m l3, h.plugForward (h.heapPtr + after 12 0 l1) = h' ∧
      Joins h h' (l1 ++ ⟨false, n⟩ :: l2) (l1 ++ ⟨false, m⟩ :: l3) ∧ NoHoles (⟨false, m⟩ :: l3) ∧
      ∀ b ∈ l2.head?, b.used = false → h.lfree = h.heapPtr + (after 12 0 l1 + 12 + n) →
        h'.lfree = h.heapPtr + after 12 0 l1 := by
  by_cases hhead : ∀ b ∈ l2.head?, b.used = true
  · refine ⟨h, n, l2, ht.plugForward_eq hhead, .refl ht hfree, ?_, fun b hb hused => ?_⟩
    · exact List.isChain_cons.mpr ⟨fun b hb => .inr (hhead b hb), hl2⟩
    · cases (hhead b hb).symm.trans hused
  · -- the next block is free, and the one after it is not
    push Not at hhead
    obtain ⟨⟨used, k⟩, hb, hused⟩ := hhead
    obtain ⟨l3, rfl⟩ := List.head?_eq_some_iff.mp hb
    obtain rfl : used = false := by simpa using hused
    obtain ⟨hthird, hl3⟩ := List.isChain_cons.mp hl2
    refine ⟨_, n + 12 + k, l3, ht.plugForward_join, ht.joins hfree, ?_, fun _ _ _ hlf => if_pos hlf⟩
    exact List.isChain_cons.mpr ⟨fun b hb => .inr ((hthird b hb).resolve_left nofun), hl3⟩

theorem plugBackward (ht : Tiled h (l1 ++ ⟨false, n⟩ :: l2)) (hl1 : NoHoles l1)
    (hl2 : NoHoles (⟨false, n⟩ :: l2)) (hfree : FreePtr h (l1 ++ ⟨false, n⟩ :: l2)) :
    ∃ h' bs', h.plugBackward (h.heapPtr + after 12 0 l1) = h' ∧
      Joins h h' (l1 ++ ⟨false, n⟩ :: l2) bs' ∧ NoHoles bs' := by
  by_cases hlast : ∀ b ∈ l1.getLast?, b.used = true
  · refine ⟨h, _, ht.plugBackward_eq hlast, .refl ht hfree, ?_⟩
    exact List.isChain_append.mpr ⟨hl1, hl2, fun b hb _ _ => .inl (hlast b hb)⟩
  · -- the previous block is free, and the one before it is not
    push Not at hlast
    obtain ⟨⟨used, k⟩, hb, hused⟩ := hlast
    obtain ⟨l0, rfl⟩ := List.getLast?_eq_some_iff.mp hb
    obtain rfl : used = false := by simpa using hused
    obtain ⟨hl0, -, hbefore⟩ := List.isChain_append.mp hl1
    obtain ⟨hafter, hl2⟩ := List.isChain_cons.mp hl2
    simp only [List.append_assoc, List.cons_append, List.nil_append, after_append, after_cons,
      after_nil] at ht hfree ⊢
    refine ⟨_, _, ht.plugBackward_join, ht.joins hfree, ?_⟩
    refine List.isChain_append.mpr ⟨hl0, List.isChain_cons.mpr ⟨hafter, hl2⟩, ?_⟩
    intro a ha b _
    exact .inl ((hbefore a ha ⟨false, k⟩ (by simp)).resolve_right (by simp))

/-- `plug_holes` on a free block: all holes are plugged. When the next block was the lowest free one,
it is joined to this one. -/
theorem plugHoles (ht : Tiled h (l1 ++ ⟨false, n⟩ :: l2)) (hl1 : NoHoles l1) (hl2 : NoHoles l2)
    (hfree : FreePtr h (l1 ++ ⟨false, n⟩ :: l2)) :
    ∃ h' bs', h.plugHoles (h.heapPtr + after 12 0 l1) = some h' ∧
      Joins h h' (l1 ++ ⟨false, n⟩ :: l2) bs' ∧ NoHoles bs' ∧
      ∀ b ∈ l2.head?, b.used = false → h.lfree = h.heapPtr + (after 12 0 l1 + 12 + n) →
        h'.lfree ≤ h.heapPtr + after 12 0 l1 := by
  obtain ⟨h1, m, l3, hforward, hjoins, hl3, hlow⟩ := ht.plugForward hl2 hfree
  obtain ⟨h', bs', hbackward, hjoins', hholes⟩ :=
    hjoins.tiled.plugBackward hl1 hl3 hjoins.freePtr
  rw [hjoins.relinks.region.heapPtr] at hbackward
  refine ⟨h', bs', ?_, hjoins.trans hjoins', hholes, fun b hb hused hlf => ?_⟩
  · have hle := ht.block_le.1
    have hend := ht.region.heapEnd
    simp only [Heap.plugHoles, rtAssert_bind_eq_some, hforward, hbackward]
    exact ⟨by omega, by omega, (ht.used at_after).mpr rfl, rfl⟩
  · exact hjoins'.lfree.trans (hlow b hb hused hlf).le

end Tiled

end RtThread.Heap
