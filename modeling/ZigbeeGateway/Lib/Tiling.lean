-- SUMMARY: Tilings: blocks with headers that link to both neighbours.
import Mathlib.Algebra.BigOperators.Group.List.Basic
import Mathlib.Algebra.GroupWithZero.Nat
import Mathlib.Data.List.Chain

/-!
# Tilings

A region is cut into blocks. Every block begins with a header of `hd` bytes, which holds the
offset of the next block, the offset of the previous block and a used mark, and the data of the
block fills the space up to the next header. `Tiles` relates what the headers say to the list of
the blocks. An operation of an allocator replaces a few neighbouring blocks by others that fill
the same space, and writes one back link after them (`Tiles.replace`).
-/

namespace Tiling

/-- What the headers say, by their offset. -/
structure Fields where
  next : Nat → Nat
  prev : Nat → Nat
  used : Nat → Bool

structure Block where
  used : Bool
  size : Nat
  deriving DecidableEq, Repr

variable {hd : Nat} {f f' : Fields} {l l1 l2 mid mid' : List Block} {b c : Block}
  {prev off stop x y : Nat}

/-- The offset after the blocks `l`. -/
def after (hd off : Nat) : List Block → Nat
  | [] => off
  | b :: l => after hd (off + hd + b.size) l

/-- The offset of the last one of the blocks `l`. -/
def last (hd prev off : Nat) : List Block → Nat
  | [] => prev
  | b :: l => last hd off (off + hd + b.size) l

/-- The headers from `off` on describe the blocks `l`; the block before is at `prev`. -/
def Tiles (hd : Nat) (f : Fields) : Nat → Nat → List Block → Prop
  | _, _, [] => True
  | prev, off, b :: l =>
    f.used off = b.used ∧ f.next off = off + hd + b.size ∧ f.prev off = prev ∧
      Tiles hd f off (off + hd + b.size) l

/-- The block `b` is at the offset `x`, when the first one of `l` is at `off`. -/
def At (hd : Nat) : Nat → List Block → Nat → Block → Prop
  | _, [], _, _ => False
  | off, c :: l, x, b => (x = off ∧ b = c) ∨ At hd (off + hd + c.size) l x b

@[simp] theorem after_nil : after hd off [] = off := rfl

@[simp] theorem after_cons : after hd off (b :: l) = after hd (off + hd + b.size) l := rfl

@[simp] theorem after_append : after hd off (l1 ++ l2) = after hd (after hd off l1) l2 := by
  induction l1 generalizing off with
  | nil => rfl
  | cons b _ ih => exact ih

theorem le_after : off ≤ after hd off l := by
  induction l generalizing off with
  | nil => exact Nat.le_refl _
  | cons b l ih =>
    have hrest : off + hd + b.size ≤ after hd (off + hd + b.size) l := ih
    rw [after_cons]
    omega

/-- Every block takes at least the space of its header. -/
theorem length_le_after : off + hd * l.length ≤ after hd off l := by
  induction l generalizing off with
  | nil => simp
  | cons b l ih =>
    have hrest : off + hd + b.size + hd * l.length ≤ after hd (off + hd + b.size) l := ih
    rw [after_cons, List.length_cons, Nat.mul_succ]
    omega

@[simp] theorem last_nil : last hd prev off [] = prev := rfl

@[simp] theorem last_cons : last hd prev off (b :: l) = last hd off (off + hd + b.size) l := rfl

@[simp] theorem last_append :
    last hd prev off (l1 ++ l2) = last hd (last hd prev off l1) (after hd off l1) l2 := by
  induction l1 generalizing prev off with
  | nil => rfl
  | cons b _ ih => exact ih

/-- The offsets of the blocks. -/
def offsets (hd off : Nat) : List Block → List Nat
  | [] => []
  | b :: l => off :: offsets hd (off + hd + b.size) l

/-- The first offset, or the one after the blocks when there are none. -/
theorem head_offsets_append : (offsets hd off l ++ [after hd off l]).head? = some off := by
  cases l <;> rfl

theorem offsets_increasing (hhd : 0 < hd) :
    (offsets hd off l ++ [after hd off l]).IsChain (· < ·) := by
  induction l generalizing off with
  | nil => exact List.isChain_singleton _
  | cons b l ih =>
    refine List.isChain_cons.mpr ⟨fun o ho => ?_, ih⟩
    obtain rfl : off + hd + b.size = o := Option.some.inj (head_offsets_append.symm.trans ho)
    omega

/-- What holds for every two neighbours holds along the offsets. -/
theorem isChain_offsets {R : Nat → Nat → Prop} (hR : ∀ l1 b c l2, l = l1 ++ b :: c :: l2 →
      R (after hd off l1) (after hd off l1 + hd + b.size)) : (offsets hd off l).IsChain R := by
  induction l generalizing off with
  | nil => exact List.isChain_nil
  | cons b l ih =>
    refine List.isChain_cons.mpr ⟨fun o ho => ?_, ih fun l1 c d l2 hl => ?_⟩
    · cases l with
      | nil => cases ho
      | cons c l =>
        cases ho
        exact hR [] b c l rfl
    · exact hR (b :: l1) c d l2 (congrArg (b :: ·) hl)

/-! ## Blocks at an offset -/

@[simp] theorem at_nil : ¬ At hd off [] x b := id

@[simp] theorem at_cons :
    At hd off (c :: l) x b ↔ (x = off ∧ b = c) ∨ At hd (off + hd + c.size) l x b := Iff.rfl

@[simp] theorem at_append :
    At hd off (l1 ++ l2) x b ↔ At hd off l1 x b ∨ At hd (after hd off l1) l2 x b := by
  induction l1 generalizing off with
  | nil => simp
  | cons c l1 ih => simp [ih, or_assoc]

theorem At.bounds (h : At hd off l x b) : off ≤ x ∧ x + hd + b.size ≤ after hd off l := by
  induction l generalizing off with
  | nil => exact h.elim
  | cons c l ih =>
    rcases h with ⟨rfl, rfl⟩ | h
    · exact ⟨Nat.le_refl _, le_after⟩
    · obtain ⟨hle, hafter⟩ := ih h
      exact ⟨by omega, hafter⟩

theorem mem_offsets : x ∈ offsets hd off l ↔ ∃ b, At hd off l x b := by
  induction l generalizing off with
  | nil => simp [offsets]
  | cons c l ih => simp [offsets, ih, exists_or]

/-- The blocks before and after the one at `x`. -/
theorem At.split (h : At hd off l x b) : ∃ l1 l2, l = l1 ++ b :: l2 ∧ x = after hd off l1 := by
  induction l generalizing off with
  | nil => exact h.elim
  | cons c l ih =>
    rcases h with ⟨rfl, rfl⟩ | h
    · exact ⟨[], l, rfl, rfl⟩
    · obtain ⟨l1, l2, rfl, hx⟩ := ih h
      exact ⟨c :: l1, l2, rfl, hx⟩

theorem at_after : At hd off (l1 ++ b :: l2) (after hd off l1) b := by simp

/-- The other blocks. -/
theorem at_ne_iff (hhd : 0 < hd) :
    y ≠ after hd off l1 ∧ At hd off (l1 ++ b :: l2) y c ↔
      At hd off l1 y c ∨ At hd (after hd off l1 + hd + b.size) l2 y c := by
  rw [at_append, at_cons]
  constructor
  · rintro ⟨hne, hy | ⟨hy, -⟩ | hy⟩
    · exact .inl hy
    · exact absurd hy hne
    · exact .inr hy
  · rintro (hy | hy)
    · have hle := hy.bounds.2
      exact ⟨by omega, .inl hy⟩
    · have hle := hy.bounds.1
      exact ⟨by omega, .inr (.inr hy)⟩

/-- Two blocks do not overlap. -/
theorem At.apart (h : At hd off l x b) (h' : At hd off l y c) (hxy : x < y) :
    x + hd + b.size ≤ y := by
  induction l generalizing off with
  | nil => exact h.elim
  | cons d l ih =>
    rcases h with ⟨rfl, rfl⟩ | h <;> rcases h' with ⟨rfl, rfl⟩ | h'
    · omega
    · exact h'.bounds.1
    · have hle := h.bounds.1
      omega
    · exact ih h h'

/-- There is one block at an offset. -/
theorem At.unique (hhd : 0 < hd) (h : At hd off l x b) (h' : At hd off l x c) : b = c := by
  induction l generalizing off with
  | nil => exact h.elim
  | cons d l ih =>
    rcases h with ⟨rfl, rfl⟩ | h <;> rcases h' with ⟨hx, rfl⟩ | h'
    · rfl
    · have hle := h'.bounds.1
      omega
    · have hle := h.bounds.1
      omega
    · exact ih h h'

/-! ## The blocks in use -/

/-- All space before `z` belongs to blocks in use. -/
def Covered (hd : Nat) (l : List Block) (z : Nat) : Prop :=
  ∀ y, y < z → ∃ o n, At hd 0 l o ⟨true, n⟩ ∧ o ≤ y ∧ y < o + hd + n

theorem Covered.mono {z z' : Nat} (h : Covered hd l z) (hz : z' ≤ z) : Covered hd l z' :=
  fun y hy => h y (Nat.lt_of_lt_of_le hy hz)

/-- A block in use follows. -/
theorem Covered.snoc {n : Nat} (h : Covered hd l x) (hx : At hd 0 l x ⟨true, n⟩) :
    Covered hd l (x + hd + n) := by
  intro y hy
  by_cases hlt : y < x
  · exact h y hlt
  · exact ⟨x, n, hx, by omega, hy⟩

/-- The blocks in use that begin before `z` are kept. -/
theorem Covered.of_used {l' : List Block} {z : Nat} (h : Covered hd l z)
    (hused : ∀ y n, y < z → At hd 0 l y ⟨true, n⟩ → At hd 0 l' y ⟨true, n⟩) : Covered hd l' z := by
  intro y hy
  obtain ⟨o, n, ho, hle, hlt⟩ := h y hy
  exact ⟨o, n, hused o n (by omega) ho, hle, hlt⟩

/-- There is no free block before `z`. -/
theorem Covered.le_of_free {z n : Nat} (hhd : 0 < hd) (h : Covered hd l z) (hx : At hd 0 l x ⟨false, n⟩) :
    z ≤ x := by
  by_contra hlt
  obtain ⟨o, m, ho, hox, hxo⟩ := h x (by omega)
  rcases Nat.lt_or_eq_of_le hox with hlt | rfl
  · have hapart := ho.apart hx hlt
    simp only at hapart
    omega
  · cases ho.unique hhd hx

/-- The offsets and the sizes of the blocks in use. -/
def usedList (hd off : Nat) : List Block → List (Nat × Nat)
  | [] => []
  | b :: l => if b.used then (off, b.size) :: usedList hd (off + hd + b.size) l else usedList hd (off + hd + b.size) l

theorem mem_usedList {n : Nat} : (x, n) ∈ usedList hd off l ↔ At hd off l x ⟨true, n⟩ := by
  induction l generalizing off with
  | nil => simp [usedList]
  | cons c l ih =>
    obtain ⟨used, size⟩ := c
    cases used <;> simp [usedList, ih]

theorem nodup_usedList (hhd : 0 < hd) : (usedList hd off l).Nodup := by
  induction l generalizing off with
  | nil => exact List.nodup_nil
  | cons c l ih =>
    unfold usedList
    split
    · refine List.nodup_cons.mpr ⟨fun hmem => ?_, ih⟩
      have hle := (mem_usedList.mp hmem).bounds.1
      omega
    · exact ih

/-- The space of the blocks in use, with their headers. -/
def usedBytes (hd : Nat) (l : List Block) : Nat := ((usedList hd 0 l).map fun r => hd + r.2).sum

/-- The space of the blocks in use other than the one at `x`. -/
def otherBytes (hd : Nat) (l : List Block) (x : Nat) : Nat :=
  (((usedList hd 0 l).filter fun r => r.1 ≠ x).map fun r => hd + r.2).sum

theorem usedBytes_le (hd : Nat) (l : List Block) : usedBytes hd l ≤ after hd 0 l := by
  have hgen : ∀ off, off + ((usedList hd off l).map fun r => hd + r.2).sum ≤ after hd off l := by
    induction l with
    | nil => exact fun off => Nat.le_refl _
    | cons b l ih =>
      intro off
      have hrest := ih (off + hd + b.size)
      rw [after_cons, usedList]
      split
      · rw [List.map_cons, List.sum_cons]
        omega
      · omega
  have hzero := hgen 0
  rwa [Nat.zero_add] at hzero

theorem usedBytes_of_used {n : Nat} (hhd : 0 < hd) (hx : At hd 0 l x ⟨true, n⟩) :
    usedBytes hd l = hd + n + otherBytes hd l x := by
  have hperm : (usedList hd 0 l).Perm ((x, n) :: (usedList hd 0 l).filter fun r => r.1 ≠ x) := by
    have hnodup : (usedList hd 0 l).Nodup := nodup_usedList hhd
    refine (List.perm_ext_iff_of_nodup hnodup (List.nodup_cons.mpr ⟨by simp, hnodup.filter _⟩)).mpr ?_
    rintro ⟨y, m⟩
    by_cases hy : y = x
    · subst hy
      have hm : At hd 0 l y ⟨true, m⟩ ↔ m = n := by
        refine ⟨fun hm => ?_, fun hm => hm ▸ hx⟩
        cases hm.unique hhd hx
        rfl
      simp [mem_usedList, hm]
    · simp [hy]
  rw [usedBytes, (hperm.map _).sum_eq, List.map_cons, List.sum_cons, otherBytes]

theorem usedBytes_of_unused (hx : ∀ n, ¬ At hd 0 l x ⟨true, n⟩) :
    usedBytes hd l = otherBytes hd l x := by
  have hall : (usedList hd 0 l).filter (fun r => r.1 ≠ x) = usedList hd 0 l := by
    refine List.filter_eq_self.mpr fun r hr => ?_
    obtain ⟨y, m⟩ := r
    refine decide_eq_true fun heq => ?_
    obtain rfl : y = x := heq
    exact hx m (mem_usedList.mp hr)
  rw [otherBytes, hall, usedBytes]

/-- The space of the other blocks depends on the other blocks. -/
theorem otherBytes_congr {l' : List Block} (hhd : 0 < hd)
    (h : ∀ y n, y ≠ x → (At hd 0 l' y ⟨true, n⟩ ↔ At hd 0 l y ⟨true, n⟩)) :
    otherBytes hd l' x = otherBytes hd l x := by
  have hperm : ((usedList hd 0 l').filter fun r => r.1 ≠ x).Perm
      ((usedList hd 0 l).filter fun r => r.1 ≠ x) := by
    refine (List.perm_ext_iff_of_nodup ((nodup_usedList hhd).filter _)
      ((nodup_usedList hhd).filter _)).mpr ?_
    rintro ⟨y, m⟩
    simp only [List.mem_filter, mem_usedList, decide_eq_true_eq]
    exact and_congr_left fun hy => h y m hy
  rw [otherBytes, (hperm.map _).sum_eq, otherBytes]

/-! ## Headers -/

theorem tiles_append : Tiles hd f prev off (l1 ++ l2) ↔
    Tiles hd f prev off l1 ∧ Tiles hd f (last hd prev off l1) (after hd off l1) l2 := by
  induction l1 generalizing prev off with
  | nil => simp [Tiles]
  | cons b l1 ih => simp [Tiles, ih, and_assoc]

/-- What the header of a block says. -/
theorem Tiles.at (h : Tiles hd f prev off l) (hx : At hd off l x b) :
    f.used x = b.used ∧ f.next x = x + hd + b.size := by
  induction l generalizing prev off with
  | nil => exact hx.elim
  | cons c l ih =>
    obtain ⟨hused, hnext, -, hrest⟩ := h
    rcases hx with ⟨rfl, rfl⟩ | hx
    · exact ⟨hused, hnext⟩
    · exact ih hrest hx

/-- The headers determine the blocks. -/
theorem Tiles.unique {prev' : Nat} {l' : List Block} (hhd : 0 < hd) (h : Tiles hd f prev off l)
    (h' : Tiles hd f prev' off l') (hend : after hd off l = after hd off l') : l = l' := by
  induction l generalizing prev prev' off l' with
  | nil =>
    cases l' with
    | nil => rfl
    | cons c l' =>
      have hle : off + hd + c.size ≤ after hd (off + hd + c.size) l' := le_after
      simp only [after_nil, after_cons] at hend
      omega
  | cons b l ih =>
    cases l' with
    | nil =>
      have hle : off + hd + b.size ≤ after hd (off + hd + b.size) l := le_after
      simp only [after_nil, after_cons] at hend
      omega
    | cons c l' =>
      obtain ⟨hused, hnext, -, hrest⟩ := h
      obtain ⟨hused', hnext', -, hrest'⟩ := h'
      have hbc : b = c := by
        cases b
        simp_all
      subst hbc
      rw [ih hrest hrest' hend]

/-- Two headers say the same. -/
structure Same (f f' : Fields) (x : Nat) : Prop where
  next : f'.next x = f.next x
  prev : f'.prev x = f.prev x
  used : f'.used x = f.used x

/-- The tiling depends on the headers of its own blocks only. -/
theorem Tiles.congr (h : Tiles hd f prev off l) (hsame : ∀ x b, At hd off l x b → Same f f' x) :
    Tiles hd f' prev off l := by
  induction l generalizing prev off with
  | nil => trivial
  | cons b l ih =>
    obtain ⟨hused, hnext, hprev, hrest⟩ := h
    obtain ⟨hnext', hprev', hused'⟩ := hsame off b (.inl ⟨rfl, rfl⟩)
    exact ⟨hused'.trans hused, hnext'.trans hnext, hprev'.trans hprev,
      ih hrest fun x c hx => hsame x c (.inr hx)⟩

/-- Another block may come before a tiling once the back link of its first block is written. -/
theorem Tiles.relink {q : Nat} (h : Tiles hd f prev off l)
    (hfirst : l ≠ [] → f'.next off = f.next off ∧ f'.used off = f.used off ∧ f'.prev off = q)
    (hrest : ∀ x, off + hd ≤ x → x + hd ≤ after hd off l → Same f f' x) : Tiles hd f' q off l := by
  cases l with
  | nil => trivial
  | cons b l =>
    obtain ⟨hused, hnext, -, hl⟩ := h
    obtain ⟨hnext', hused', hprev'⟩ := hfirst (by simp)
    refine ⟨hused'.trans hused, hnext'.trans hnext, hprev', hl.congr fun x c hx => ?_⟩
    obtain ⟨hle, hle'⟩ := hx.bounds
    exact hrest x (by omega) (by rw [after_cons]; omega)

/-- Some neighbouring blocks are replaced by others that fill the same space, and the block after
them, if there is one, gets a new back link. -/
theorem Tiles.replace (h : Tiles hd f prev off (l1 ++ (mid ++ l2)))
    (hspace : after hd (after hd off l1) mid' = after hd (after hd off l1) mid)
    (hbelow : ∀ x, off ≤ x → x + hd ≤ after hd off l1 → Same f f' x)
    (hmid : Tiles hd f' (last hd prev off l1) (after hd off l1) mid') (hfirst : l2 ≠ [] →
      f'.next (after hd (after hd off l1) mid) = f.next (after hd (after hd off l1) mid) ∧
      f'.used (after hd (after hd off l1) mid) = f.used (after hd (after hd off l1) mid) ∧
      f'.prev (after hd (after hd off l1) mid) =
        last hd (last hd prev off l1) (after hd off l1) mid')
    (habove : ∀ x, after hd (after hd off l1) mid + hd ≤ x → Same f f' x) :
    Tiles hd f' prev off (l1 ++ (mid' ++ l2)) := by
  obtain ⟨h1, h⟩ := tiles_append.mp h
  obtain ⟨-, h2⟩ := tiles_append.mp h
  have h1' : Tiles hd f' prev off l1 := h1.congr fun x b hx => by
    obtain ⟨hle, hle'⟩ := hx.bounds
    exact hbelow x hle (by omega)
  refine tiles_append.mpr ⟨h1', tiles_append.mpr ⟨hmid, ?_⟩⟩
  rw [hspace]
  exact h2.relink hfirst fun x hx _ => habove x hx

end Tiling
