-- SUMMARY: rt_malloc, rt_realloc and rt_free over several heaps.
import ZigbeeGateway.Kernel.MemheapRun

/-!
# Memory heaps as the system heap

With `RT_USING_MEMHEAP_AS_HEAP` the three functions of the system heap work on all registered
memory heaps. `rt_malloc` tries `_heap` first and then the others, in the order of the object
container. `rt_realloc` asks the heap of the block, and then `rt_malloc` for a block of another heap.

The pools do not overlap, so the model keeps a memory for each heap, and the pool in which a pointer
lies says which one to read.
-/

namespace RtThread

open Run Word ByteMem

/-- The address lies in the pool. -/
def Memheap.Contains (h : Memheap) (p : Nat) : Prop := h.startAddr ≤ p ∧ p < h.startAddr + h.poolSize

instance (h : Memheap) (p : Nat) : Decidable (h.Contains p) := inferInstanceAs (Decidable (_ ∧ _))

namespace Memheaps

open Memheap

/-- `rt_malloc`. The list starts with `_heap`. -/
def rtMalloc (size : Nat) : List Memheap → Option (List Memheap × Option Nat)
  | [] => some ([], none)
  | h :: hs => do
    match ← h.rtMemheapAlloc size with
    | (h, some ptr) => return (h :: hs, some ptr)
    | (h, none) =>
      let (hs, ptr) ← rtMalloc size hs
      return (h :: hs, ptr)

/-- Work on the heap in whose pool the pointer lies. -/
def atPool {α : Type} (ptr : Nat) (f : Memheap → Option (Memheap × α)) :
    List Memheap → Option (List Memheap × α)
  | [] => none
  | h :: hs =>
    if h.Contains ptr then
      (f h).map fun r => (r.1 :: hs, r.2)
    else
      (atPool ptr f hs).map fun r => (h :: r.1, r.2)

/-- `rt_free`. -/
def rtFree (hs : List Memheap) : Option Nat → Option (List Memheap)
  | none => some hs
  | some rmem => (atPool rmem (fun h => (h.rtMemheapFree (some rmem)).map fun h => (h, ())) hs).map Prod.fst

/-- `rt_memheap_realloc(header_ptr->pool_ptr, rmem, newsize)`. -/
def reallocIn (rmem newsize : Nat) (hs : List Memheap) : Option (List Memheap × Option Nat) :=
  atPool rmem (fun h => do
    rtAssert (h.get .poolPtr (sub32 rmem memheapSize) = h.addr)
    h.rtMemheapRealloc (some rmem) newsize) hs

/-- Copy the data of the old block, `newsize` bytes at most. -/
def copyOver (newPtr rmem newsize : Nat) (hs : List Memheap) : Option (List Memheap) := do
  let old ← hs.find? fun h => h.Contains rmem
  let oldsize := old.memitemSize (sub32 rmem memheapSize)
  let (hs, _) ← atPool newPtr (fun h => some ({ h with
    mem := transfer old.mem rmem h.mem newPtr (if oldsize < newsize then oldsize else newsize) }, ())) hs
  return hs

/-- `rt_realloc`. -/
def rtRealloc (hs : List Memheap) (rmem : Option Nat) (newsize : Nat) : Option (List Memheap × Option Nat) :=
  match rmem with
  | none => rtMalloc newsize hs
  | some rmem => do
    let (hs, newPtr) ← reallocIn rmem newsize hs
    if newPtr = none ∧ newsize ≠ 0 then
      match ← rtMalloc newsize hs with
      | (hs, none) => return (hs, none)
      | (hs, some newPtr) =>
        let hs ← copyOver newPtr rmem newsize hs
        return (hs, some newPtr)
    else
      return (hs, newPtr)

/-! ## Callers -/

/-- What a caller can do. `write` is the write of a byte to a block by the code that got the block. -/
inductive Event where
  | malloc (size : Nat)
  | realloc (rmem : Option Nat) (newsize : Nat)
  | free (rmem : Option Nat)
  | write (p i : Nat) (v : UInt8)
  deriving DecidableEq, Repr

/-- The heaps, and the pointers that the callers own: they were returned, and neither freed nor
replaced by the result of `rt_realloc`. -/
structure Sys where
  heaps : List Memheap
  owned : List Nat

namespace Sys

/-- A function returns a pointer. -/
def handOut (s : Sys) : Option Nat → Sys
  | none => s
  | some p => { s with owned := p :: s.owned }

/-- A pointer is given back. -/
def giveBack (s : Sys) : Option Nat → Sys
  | none => s
  | some p => { s with owned := s.owned.filter (· ≠ p) }

def step (s : Sys) : Event → Option Sys
  | .malloc size => do
    let (hs, result) ← rtMalloc size s.heaps
    return { s with heaps := hs }.handOut result
  | .realloc rmem newsize => do
    let (hs, result) ← rtRealloc s.heaps rmem newsize
    let s := if newsize = 0 ∨ result.isSome then s.giveBack rmem else s
    return { s with heaps := hs }.handOut result
  | .free rmem => do
    let hs ← rtFree s.heaps rmem
    return { s with heaps := hs }.giveBack rmem
  | .write p i v => do
    let (hs, _) ← atPool p (fun h => some (h.write (p + i) v, ())) s.heaps
    return { s with heaps := hs }

/-- The size of the data at a pointer. -/
def dataSize (s : Sys) (p : Nat) : Nat :=
  ((s.heaps.find? fun h => h.Contains p).map fun h => h.memitemSize (p - memheapSize)).getD 0

/-- The callers pass pointers that they own and write inside the data of their blocks. -/
def Allowed (s : Sys) : Event → Prop
  | .malloc _ => True
  | .realloc rmem _ => ∀ p ∈ rmem, p ∈ s.owned
  | .free rmem => ∀ p ∈ rmem, p ∈ s.owned
  | .write p i _ => p ∈ s.owned ∧ i < s.dataSize p

instance (s : Sys) (e : Event) : Decidable (s.Allowed e) := by
  cases e <;> unfold Allowed <;> infer_instance

end Sys

/-- The call does not move a block to another heap: the heap of the block has memory for the new size,
or no heap has. The sum of the size and the smallest block, which is computed when the next item is
free, does not wrap. -/
def NoMove (s : Sys) : Event → Prop
  | .realloc (some rmem) newsize => newsize ≠ 0 → ∀ h ∈ s.heaps, h.Contains rmem →
    (roundSize newsize ≤ 0xfffffff0 ∨ h.IsUsed (h.get .next (rmem - memheapSize))) ∧
    (h.Stays h.freeItems (rmem - memheapSize) (roundSize newsize) ∨
      ∀ g ∈ s.heaps, ¬ g.Room g.freeItems (roundSize newsize))
  | _ => True

instance (s : Sys) (e : Event) : Decidable (NoMove s e) := by
  unfold NoMove
  split <;> infer_instance

/-- The blocks in use on a heap, without the tailer. -/
def usedItems (h : Memheap) : List Nat := h.blockItems.filter fun x => h.IsUsed x

/-- The number of used blocks on all heaps. -/
def usedCount (hs : List Memheap) : Nat := (hs.map fun h => (usedItems h).length).sum

/-! ## One heap of several -/

variable {h h' : Memheap} {hs hs1 hs2 : List Memheap} {blocks free blocks' free' : List Nat}
  {p x z k n m size newsize : Nat}

/-- Some heap has a block in use at `x`, with `n` bytes. -/
def Used (hs : List Memheap) (x n : Nat) : Prop := ∃ h ∈ hs, UsedAt h h.blockItems x n

/-- The heaps have layouts, and their pools do not overlap. -/
structure Separate (hs : List Memheap) : Prop where
  layout : ∀ h ∈ hs, ∃ free, Layout h h.blockItems free
  apart : hs.Pairwise fun h h' =>
    h.startAddr + h.poolSize ≤ h'.startAddr ∨ h'.startAddr + h'.poolSize ≤ h.startAddr

theorem used_set : Used (hs1 ++ h :: hs2) z k ↔ UsedAt h h.blockItems z k ∨ Used (hs1 ++ hs2) z k := by
  simp only [Used, List.mem_append, List.mem_cons]
  grind

/-- The data of a block lies in the pool. -/
theorem contains_data (hl : Layout h blocks free) (hx : x ∈ blocks) : h.Contains (x + 24) := by
  have hge := hl.shape.ring.ge_start hx
  have hle := hl.shape.ring.le_tail hx
  have htail := hl.shape.ring.tail_add
  constructor <;> omega

namespace Separate

section

variable (hsep : Separate (hs1 ++ h :: hs2))

include hsep

/-- A pool does not contain the addresses of another one. -/
theorem not_contains (hp : h.Contains p) : ∀ g ∈ hs1 ++ hs2, ¬ g.Contains p := by
  obtain ⟨-, hright, hleft⟩ := List.pairwise_append.mp hsep.apart
  obtain ⟨hright, -⟩ := List.pairwise_cons.mp hright
  intro g hg hgp
  obtain ⟨hp1, hp2⟩ := hp
  obtain ⟨hg1, hg2⟩ := hgp
  rcases List.mem_append.mp hg with hg | hg
  · have := hleft g hg h List.mem_cons_self
    omega
  · have := hright g hg
    omega

/-- A block is in use on one heap only. -/
theorem ne_of_used (hx : x ∈ h.blockItems) (hz : Used (hs1 ++ hs2) z k) : z ≠ x := by
  rintro rfl
  obtain ⟨free, hl⟩ := hsep.layout h (by simp)
  obtain ⟨g, hg, hmem, -⟩ := hz
  obtain ⟨free', hl'⟩ := hsep.layout g (by grind)
  exact hsep.not_contains (contains_data hl hx) g hg (contains_data hl' hmem)

/-- One heap is replaced. -/
theorem set (hl : Layout h' blocks' free') (hreg : SameRegion h h') :
    Separate (hs1 ++ h' :: hs2) := by
  obtain ⟨hlayout, hapart⟩ := hsep
  constructor
  · intro g hg
    rcases List.mem_append.mp hg with hg | hg
    · exact hlayout g (by simp [hg])
    · rcases List.mem_cons.mp hg with rfl | hg
      · exact ⟨free', hl.shape.ring.blockItems_eq.symm ▸ hl⟩
      · exact hlayout g (by simp [hg])
  · simp only [List.pairwise_append, List.pairwise_cons, List.mem_cons, forall_eq_or_imp, hreg.startAddr,
      hreg.poolSize] at hapart ⊢
    exact hapart

/-- The function works on the heap whose pool has the pointer. -/
theorem atPool_eq {α : Type} (hp : h.Contains p) (f : Memheap → Option (Memheap × α)) :
    atPool p f (hs1 ++ h :: hs2) = (f h).map fun r => (hs1 ++ r.1 :: hs2, r.2) := by
  have hne : ∀ g ∈ hs1, ¬ g.Contains p := fun g hg => hsep.not_contains hp g (by simp [hg])
  clear hsep
  induction hs1 with
  | nil => exact if_pos hp
  | cons g hs1 ih =>
    rw [List.cons_append, atPool, if_neg (hne g (by simp)), ih fun g hg => hne g (by simp [hg])]
    cases f h <;> rfl

end

/-- `rt_malloc` finds no block, or takes one on one of the heaps. -/
theorem rtMalloc_cases (hsep : Separate hs) (size : Nat) :
    rtMalloc size hs = some (hs, none) ∨
      ∃ hs1 h hs2 h' blocks' free' x m, hs = hs1 ++ h :: hs2 ∧
        rtMalloc size hs = some (hs1 ++ h' :: hs2, some (x + 24)) ∧ Layout h' blocks' free' ∧ SameRegion h h' ∧
        h.Room h.freeItems (roundSize size) ∧ x ∈ h.blockItems ∧ (∀ k, ¬ UsedAt h h.blockItems x k) ∧
        ∀ z k, UsedAt h' blocks' z k ↔ (z = x ∧ k = m) ∨ UsedAt h h.blockItems z k := by
  induction hs with
  | nil => exact .inl rfl
  | cons h hs ih =>
    obtain ⟨free, hl⟩ := hsep.layout h (by simp)
    obtain ⟨h', result, hrun, halloc⟩ := hl.rtMemheapAlloc size
    cases halloc with
    | some hl' hreg hmem hle hused hroom =>
      obtain ⟨hx, hunused⟩ := (hl.free_iff _).mp hmem
      refine .inr ⟨[], h, hs, h', _, _, _, _, rfl, ?_, hl', hreg, hl.room_freeItems.mpr hroom, hx,
        fun k hk => hunused hk.2.1, hused⟩
      rw [rtMalloc, hrun]
      rfl
    | none _ =>
      have hrest : Separate hs :=
        ⟨fun g hg => hsep.layout g (by simp [hg]), (List.pairwise_cons.mp hsep.apart).2⟩
      refine (ih hrest).imp (fun hnone => ?_) ?_
      · rw [rtMalloc, hrun]
        simp [hnone]
      · rintro ⟨hs1, g, hs2, g', blocks', free', x, m, rfl, hmalloc, hg⟩
        refine ⟨h :: hs1, g, hs2, g', blocks', free', x, m, rfl, ?_, hg⟩
        rw [rtMalloc, hrun]
        simp [hmalloc]

end Separate

/-! ## The invariant -/

/-- The callers own the blocks that are in use. -/
structure Inv (s : Sys) : Prop where
  separate : Separate s.heaps
  owns : Owns (s.owned.map fun p => (p, 0)) (Used s.heaps)

namespace Inv

variable {s : Sys}

/-- The heap and the block of a pointer that is owned. -/
theorem split (hi : Inv s) (hp : p ∈ s.owned) :
    ∃ hs1 h hs2 free x n, s.heaps = hs1 ++ h :: hs2 ∧ Layout h h.blockItems free ∧
      UsedAt h h.blockItems x n ∧ p = x + 24 ∧ h.Contains p := by
  obtain ⟨x, n, rfl, ⟨h, hh, hused⟩, -⟩ := hi.owns.used (p, 0) (List.mem_map_of_mem hp)
  obtain ⟨hs1, hs2, heq⟩ := List.append_of_mem hh
  obtain ⟨free, hl⟩ := hi.separate.layout h hh
  exact ⟨hs1, h, hs2, free, x, n, heq, hl, hused, rfl, contains_data hl hused.1⟩

theorem malloc (hi : Inv s) (size : Nat) :
    ∃ hs' result, rtMalloc size s.heaps = some (hs', result) ∧
      Inv ({ s with heaps := hs' }.handOut result) ∧
      ((∀ g ∈ s.heaps, ¬ g.Room g.freeItems (roundSize size)) → hs' = s.heaps ∧ result = none) := by
  rcases hi.separate.rtMalloc_cases size with
    hnone | ⟨hs1, h, hs2, h', blocks', free', x, m, heq, hrun, hl, hreg, hroom, hx, hfree, hused⟩
  · exact ⟨s.heaps, none, hnone, hi, fun _ => ⟨rfl, rfl⟩⟩
  · have hsep := hi.separate
    rw [heq] at hsep
    rw [← hl.shape.ring.blockItems_eq] at hused
    refine ⟨_, _, hrun, ⟨hsep.set hl hreg, hi.owns.handOut (m := m) (fun z k => ?_) (fun k hk => ?_)
      (Nat.zero_le m)⟩, fun hfull => absurd hroom (hfull h (by simp [heq]))⟩
    · simp only [Sys.handOut, heq, used_set, hused, or_assoc]
    · rw [heq, used_set] at hk
      rcases hk with hk | hk
      · exact hfree k hk
      · exact hsep.ne_of_used hx hk rfl

theorem free_some (hi : Inv s) (hp : p ∈ s.owned) :
    ∃ hs', rtFree s.heaps (some p) = some hs' ∧ Inv ({ s with heaps := hs' }.giveBack (some p)) := by
  obtain ⟨hs1, h, hs2, free, x, n, heq, hl, hx, rfl, hcont⟩ := hi.split hp
  have hsep := hi.separate
  rw [heq] at hsep
  obtain ⟨h', blocks', free', hrun, hl', hreg, hused⟩ := hl.rtMemheapFree hx
  rw [← hl'.shape.ring.blockItems_eq] at hused
  have howns : Owns _ (Used (hs1 ++ h' :: hs2)) := hi.owns.giveBack (x := x) fun z k => by
    have hne : Used (hs1 ++ hs2) z k → z ≠ x := hsep.ne_of_used hx.1
    rw [heq, used_set, used_set, hused]
    grind
  rw [List.filter_map] at howns
  refine ⟨hs1 ++ h' :: hs2, ?_, hsep.set hl' hreg, howns⟩
  rw [rtFree, heq, hsep.atPool_eq hcont, hrun]
  rfl

theorem write {i : Nat} {v : UInt8} (hi : Inv s) (hp : p ∈ s.owned) (hin : i < s.dataSize p) :
    ∃ s', s.step (.write p i v) = some s' ∧ Inv s' := by
  obtain ⟨hs1, h, hs2, free, x, n, heq, hl, hx, rfl, hcont⟩ := hi.split hp
  have hsep := hi.separate
  rw [heq] at hsep
  have hfind : s.heaps.find? (fun h => h.Contains (x + 24)) = some h := by
    rw [heq, List.find?_append, List.find?_eq_none.mpr fun g hg => ?_]
    · simp [hcont]
    · simpa using hsep.not_contains hcont g (by simp [hg])
  rw [Sys.dataSize, hfind, Option.map_some, Option.getD_some, memheapSize, Nat.add_sub_cancel] at hin
  have ho : SameOutside h (h.write (x + 24 + i) v) x := by
    refine ⟨⟨rfl, rfl, rfl, rfl, rfl⟩, rfl, fun a ha => Function.update_of_ne ?_ ..⟩
    omega
  obtain ⟨hl', hused⟩ := hl.of_outside hx.1 ho
  have hitems := hl'.shape.ring.blockItems_eq
  refine ⟨{ s with heaps := hs1 ++ h.write (x + 24 + i) v :: hs2 }, ?_, hsep.set hl' ho.region, ?_⟩
  · rw [Sys.step, heq, hsep.atPool_eq hcont]
    rfl
  · refine hi.owns.congr fun z k => ?_
    rw [heq, used_set, used_set, hitems, hused]

theorem realloc_some (hi : Inv s) (hp : p ∈ s.owned) (hmove : NoMove s (.realloc (some p) newsize)) :
    ∃ s', s.step (.realloc (some p) newsize) = some s' ∧ Inv s' := by
  obtain ⟨hs1, h, hs2, free, x, n, heq, hl, hx, rfl, hcont⟩ := hi.split hp
  have hsep := hi.separate
  rw [heq] at hsep
  have hin : reallocIn (x + 24) newsize (hs1 ++ h :: hs2) =
      (h.rtMemheapRealloc (some (x + 24)) newsize).map fun r => (hs1 ++ r.1 :: hs2, r.2) := by
    have hptr : h.get .poolPtr (sub32 (x + 24) memheapSize) = h.addr := by
      rw [hl.shape.ring.header_eq hx.1, hl.shape.ring.poolPtr x hx.1]
    have hassert : (rtAssert (h.get .poolPtr (sub32 (x + 24) memheapSize) = h.addr) : Option Unit) = some () :=
      if_pos hptr
    rw [reallocIn, hsep.atPool_eq hcont, hassert]
    rfl
  rw [← heq] at hin
  by_cases hzero : newsize = 0
  · -- the block is freed
    subst hzero
    obtain ⟨hs', hfree, hi'⟩ := hi.free_some hp
    have hin' : reallocIn (x + 24) 0 s.heaps = some (hs', none) := by
      rw [rtFree, heq, hsep.atPool_eq hcont] at hfree
      rw [hin, rtMemheapRealloc, if_pos rfl]
      cases hrun : h.rtMemheapFree (some (x + 24)) with
      | none => simp [hrun] at hfree
      | some h' => simpa [hrun] using hfree
    refine ⟨_, ?_, hi'⟩
    simp [Sys.step, rtRealloc, hin', Sys.handOut, Sys.giveBack]
  · obtain ⟨hle, hstays⟩ := hmove hzero h (by simp [heq]) hcont
    rw [memheapSize, Nat.add_sub_cancel] at hle hstays
    obtain ⟨h', result, hrun, hres⟩ := hl.rtMemheapRealloc hx (Nat.pos_of_ne_zero hzero) hle
    rw [hrun, Option.map_some] at hin
    cases hres with
    | none hfull =>
      -- no other heap has memory either
      rw [Stays, ← hl.room_freeItems] at hfull
      obtain ⟨hs', result, hmalloc, -, hsame⟩ := hi.malloc newsize
      obtain ⟨rfl, rfl⟩ := hsame (hstays.resolve_left hfull)
      rw [← heq] at hin
      refine ⟨s, ?_, hi⟩
      simp [Sys.step, rtRealloc, hin, hmalloc, hzero, Sys.handOut]
    | @some _ blocks' free' y m hl' hreg hmem hm hused =>
      rw [← hl'.shape.ring.blockItems_eq] at hused
      refine ⟨({ s.giveBack (some (x + 24)) with heaps := hs1 ++ h' :: hs2 }).handOut (some (y + 24)), ?_,
        hsep.set hl' hreg, ?_⟩
      · simp [Sys.step, rtRealloc, hin]
      · have hgone : ∀ z k, (z ≠ x ∧ Used s.heaps z k) ↔ z ≠ x ∧ Used s.heaps z k := fun _ _ => .rfl
        have hgive := hi.owns.giveBack hgone
        rw [List.filter_map] at hgive
        refine hgive.handOut (m := m) (fun z k => ?_) (fun k hk => ?_) (Nat.zero_le m)
        · have hne : Used (hs1 ++ hs2) z k → z ≠ x := hsep.ne_of_used hx.1
          simp only [Sys.handOut, heq, used_set, hused]
          grind
        · -- the new block was the old one, or it was free
          obtain ⟨hyx, hk⟩ := hk
          have hfree := (hl.free_iff y).mp (hmem.resolve_left hyx)
          rw [heq, used_set] at hk
          rcases hk with hk | hk
          · exact hfree.2 hk.2.1
          · exact hsep.ne_of_used hfree.1 hk rfl

/-- Every call returns and keeps the invariant. -/
theorem step {e : Event} (hi : Inv s) (he : s.Allowed e ∧ NoMove s e) : ∃ s', s.step e = some s' ∧ Inv s' := by
  obtain ⟨hallowed, hmove⟩ := he
  cases e with
  | malloc size =>
    obtain ⟨hs', result, hrun, hi', -⟩ := hi.malloc size
    exact ⟨_, by rw [Sys.step, hrun]; rfl, hi'⟩
  | realloc rmem newsize =>
    cases rmem with
    | none =>
      obtain ⟨hs', result, hrun, hi', -⟩ := hi.malloc newsize
      refine ⟨_, ?_, hi'⟩
      simp [Sys.step, rtRealloc, hrun, Sys.giveBack]
    | some p => exact hi.realloc_some (hallowed p rfl) hmove
  | free rmem =>
    cases rmem with
    | none => exact ⟨s, rfl, hi⟩
    | some p =>
      obtain ⟨hs', hrun, hi'⟩ := hi.free_some (hallowed p rfl)
      exact ⟨_, by rw [Sys.step, hrun]; rfl, hi'⟩
  | write p i v => exact hi.write hallowed.1 hallowed.2

end Inv

/-! ## No leak -/

/-- The blocks in use on all heaps. -/
def allUsed (hs : List Memheap) : List Nat := hs.flatMap usedItems

theorem mem_allUsed : x ∈ allUsed hs ↔ ∃ n, Used hs x n := by
  simp only [allUsed, usedItems, Used, UsedAt, List.mem_flatMap, List.mem_filter, decide_eq_true_eq]
  grind

theorem usedCount_eq : usedCount hs = (allUsed hs).length := by
  simp [usedCount, allUsed, List.length_flatMap]

theorem Separate.nodup_allUsed (hsep : Separate hs) : (allUsed hs).Nodup := by
  induction hs with
  | nil => exact List.nodup_nil
  | cons h hs ih =>
    obtain ⟨free, hl⟩ := hsep.layout h (by simp)
    have hrest : Separate hs := ⟨fun g hg => hsep.layout g (by simp [hg]), (List.pairwise_cons.mp hsep.apart).2⟩
    have hsplit : Separate ([] ++ h :: hs) := hsep
    refine List.nodup_append.mpr ⟨?_, ih hrest, fun x hx z hz heq => ?_⟩
    · exact (List.nodup_cons.mp hl.shape.ring.cycle.nodup).2.filter _
    · obtain ⟨n, hz⟩ := mem_allUsed.mp hz
      exact hsplit.ne_of_used (List.mem_filter.mp hx).1 hz heq.symm

/-- There are as many blocks in use as pointers that the callers own. -/
theorem Inv.count {s : Sys} (hi : Inv s) : usedCount s.heaps = s.owned.length := by
  have hnodup : s.owned.Nodup := by simpa [Function.comp_def] using hi.owns.nodup
  have hperm : ((allUsed s.heaps).map (· + 24)).Perm s.owned := by
    refine (List.perm_ext_iff_of_nodup ?_ hnodup).mpr fun p => ?_
    · exact hi.separate.nodup_allUsed.map fun _ _ heq => Nat.add_right_cancel heq
    · constructor
      · intro hp
        obtain ⟨x, hx, rfl⟩ := List.mem_map.mp hp
        obtain ⟨n, hx⟩ := mem_allUsed.mp hx
        simpa using hi.owns.live x n hx
      · intro hp
        obtain ⟨x, n, hx, hused, -⟩ := hi.owns.used (p, 0) (List.mem_map_of_mem hp)
        exact List.mem_map.mpr ⟨x, mem_allUsed.mpr ⟨n, hused⟩, hx.symm⟩
  rw [usedCount_eq, ← hperm.length_eq, List.length_map]

/-- Heaps that were registered and not used yet. -/
structure Registered (hs : List Memheap) : Prop where
  init : ∀ h ∈ hs, ∃ mem memheap freeHeader startAddr size, Pool memheap freeHeader startAddr size ∧
    h = rtMemheapInit mem memheap freeHeader startAddr size
  apart : hs.Pairwise fun h h' =>
    h.startAddr + h.poolSize ≤ h'.startAddr ∨ h'.startAddr + h'.poolSize ≤ h.startAddr

theorem Registered.inv (hreg : Registered hs) : Inv ⟨hs, []⟩ := by
  have hfresh : ∀ h ∈ hs, ∃ start, Layout h [start] [start] := fun h hh => by
    obtain ⟨mem, memheap, freeHeader, startAddr, size, hpool, rfl⟩ := hreg.init h hh
    exact ⟨startAddr, rtMemheapInit_layout hpool⟩
  refine ⟨⟨fun h hh => ?_, hreg.apart⟩, List.nodup_nil, nofun, fun x m hx => ?_⟩
  · obtain ⟨start, hl⟩ := hfresh h hh
    exact ⟨[start], hl.shape.ring.blockItems_eq.symm ▸ hl⟩
  · obtain ⟨h, hh, hmem, hused, -⟩ := hx
    obtain ⟨start, hl⟩ := hfresh h hh
    rw [hl.shape.ring.blockItems_eq] at hmem
    exact absurd hused ((hl.free_iff x).mp hmem).2

/-- The callers own as many pointers as there are used blocks, as long as no block moves to another
heap. -/
theorem memheap_no_leak {events : List Event} (hreg : Registered hs)
    (hevents : Along Sys.step (fun s e => s.Allowed e ∧ NoMove s e) ⟨hs, []⟩ events) :
    ∃ s, run Sys.step ⟨hs, []⟩ events = some s ∧ usedCount s.heaps = s.owned.length := by
  obtain ⟨s, hrun, hi⟩ := run_progress_along (I := Inv) (fun s e hi he => hi.step he) hreg.inv hevents
  exact ⟨s, hrun, hi.count⟩

/-- `_heap` with a pool of 120 bytes, and another heap with 240 bytes. -/
def twoHeaps : List Memheap :=
  [rtMemheapInit (fun _ => 0) 100 140 1000 120, rtMemheapInit (fun _ => 0) 200 240 2000 240]

theorem twoHeaps_registered : Registered twoHeaps := by
  refine ⟨?_, by decide⟩
  simp only [twoHeaps, List.mem_cons, List.not_mem_nil, or_false]
  rintro h (rfl | rfl)
  · exact ⟨_, _, _, _, _, by constructor <;> decide, rfl⟩
  · exact ⟨_, _, _, _, _, by constructor <;> decide, rfl⟩

theorem memheap_no_leak_two :
    ∃ s, run Sys.step ⟨twoHeaps, []⟩
        [.malloc 12, .realloc (some 1024) 30, .malloc 100, .realloc (some 2024) 400, .free (some 1024)] = some s ∧
      usedCount s.heaps = s.owned.length :=
  memheap_no_leak twoHeaps_registered (by decide +kernel)

/-- A block that `rt_realloc` moves to the other heap stays in use on its own heap. -/
theorem rtRealloc_leaks :
    Along Sys.step Sys.Allowed ⟨twoHeaps, []⟩ [.malloc 12, .realloc (some 1024) 100] ∧
      ∃ s, run Sys.step ⟨twoHeaps, []⟩ [.malloc 12, .realloc (some 1024) 100] = some s ∧
        s.owned = [2024] ∧ usedCount s.heaps = 2 :=
  ⟨by decide +kernel, run_exists (by decide +kernel) fun _ _ => id⟩

end Memheaps

end RtThread
