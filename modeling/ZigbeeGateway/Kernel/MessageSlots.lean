-- SUMMARY: The slots of a message queue.
import Mathlib.Data.List.Perm.Subperm
import ZigbeeGateway.Lib.Linked
import ZigbeeGateway.Kernel.MessageQueue

/-!
# The slots of a message queue

A slot is on the free list, on the message list, or held by one call. `Slots` states this for
the pointers of the queue, and every critical section moves one slot from one place to
another.
-/

namespace RtThread.MessageQueue

open Linked Function

/-! ## The places of the slots -/

inductive Place where
  | free
  | queued
  | held (c : Context)
  deriving DecidableEq, Repr

/-- The slots at each place. -/
def lanes (held : Context → Option Nat) (free list : List Nat) : Place → List Nat
  | .free => free
  | .queued => list
  | .held c => (held c).toList

section Lanes

variable {held : Context → Option Nat} {free list rest : List Nat} {c d : Context} {msg : Nat}

theorem lanes_held_of_ne {x : Option Nat} (hd : Place.held d ≠ .held c) :
    lanes (update held c x) free list (.held d) = (held d).toList := by
  have hdc : d ≠ c := fun hdc => hd (hdc ▸ rfl)
  rw [lanes, update_of_ne hdc]

theorem moves_free_held (hc : held c = none) :
    Lanes.Moves (lanes held (msg :: rest) list)
      (lanes (update held c (some msg)) rest list) msg .free (.held c) where
  ne := nofun
  out := .refl _
  into := by simp [lanes, hc]
  other {p} hp hp' := by
    cases p with
    | free => exact absurd rfl hp
    | queued => rfl
    | held d => exact lanes_held_of_ne hp'

theorem moves_queued_held (hc : held c = none) :
    Lanes.Moves (lanes held free (msg :: rest))
      (lanes (update held c (some msg)) free rest) msg .queued (.held c) where
  ne := nofun
  out := .refl _
  into := by simp [lanes, hc]
  other {p} hp hp' := by
    cases p with
    | free => rfl
    | queued => exact absurd rfl hp
    | held d => exact lanes_held_of_ne hp'

theorem moves_held_free (hc : held c = some msg) :
    Lanes.Moves (lanes held free list)
      (lanes (update held c none) (msg :: free) list) msg (.held c) .free where
  ne := nofun
  out := by simp [lanes, hc]
  into := .refl _
  other {p} hp hp' := by
    cases p with
    | free => exact absurd rfl hp'
    | queued => rfl
    | held d => exact lanes_held_of_ne hp

theorem moves_held_queued {list' : List Nat} (hc : held c = some msg)
    (hlist : list'.Perm (msg :: list)) :
    Lanes.Moves (lanes held free list)
      (lanes (update held c none) free list') msg (.held c) .queued where
  ne := nofun
  out := by simp [lanes, hc]
  into := hlist
  other {p} hp hp' := by
    cases p with
    | free => rfl
    | queued => exact absurd rfl hp'
    | held d => exact lanes_held_of_ne hp

theorem moves_queued_free :
    Lanes.Moves (lanes held free (msg :: rest)) (lanes held (msg :: free) rest) msg .queued .free
    where
  ne := nofun
  out := .refl _
  into := .refl _
  other {p} hp hp' := by
    cases p with
    | free => exact absurd rfl hp'
    | queued => exact absurd rfl hp
    | held d => rfl

end Lanes

/-- The two lists and the calls share out the slots of the pool. -/
structure Slots (mq : MessageQueue) (held : Context → Option Nat) (free list : List Nat) : Prop where
  messages : Chain mq.next mq.msgQueueHead list
  freeList : Chain mq.next mq.msgQueueFree free
  tail : mq.msgQueueTail = list.getLast?
  exclusive : Lanes.Exclusive (lanes held free list)
  total : ∀ slot, (∃ p, slot ∈ lanes held free list p) ↔ slot < mq.maxMsgs

namespace Slots

variable {mq : MessageQueue} {held : Context → Option Nat} {free list : List Nat} {c d : Context}
  {msg slot : Nat}

theorem mem_held (hc : held c = some msg) : msg ∈ lanes held free list (.held c) := by
  simp [lanes, hc]

section

variable (h : Slots mq held free list)

include h

theorem held_notMem_list (hc : held c = some msg) : msg ∉ list :=
  fun hmem => by cases h.exclusive.unique (k := .queued) hmem (mem_held hc)

theorem held_notMem_free (hc : held c = some msg) : msg ∉ free :=
  fun hmem => by cases h.exclusive.unique (k := .free) hmem (mem_held hc)

theorem held_inj (hc : held c = some msg) (hd : held d = some msg) : c = d := by
  have hplace : Place.held c = .held d := h.exclusive.unique (mem_held hc) (mem_held hd)
  injection hplace

theorem list_notMem_free (hmem : msg ∈ list) : msg ∉ free := by
  intro hfree
  have hplace : Place.queued = .free := h.exclusive.unique hmem hfree
  cases hplace

theorem nodup_list : list.Nodup := h.exclusive.nodup .queued

theorem list_lt (hmem : slot ∈ list) : slot < mq.maxMsgs :=
  (h.total slot).mp ⟨.queued, hmem⟩

theorem length_le : list.length ≤ mq.maxMsgs := by
  have hsub : list ⊆ List.range mq.maxMsgs := fun slot hmem => List.mem_range.mpr (h.list_lt hmem)
  simpa using (h.nodup_list.subperm hsub).length_le

/-- While a call holds a slot there is room on the message list. -/
theorem length_lt (hc : held c = some msg) : list.length < mq.maxMsgs := by
  have hnodup : (msg :: list).Nodup := List.nodup_cons.mpr ⟨h.held_notMem_list hc, h.nodup_list⟩
  have hsub : msg :: list ⊆ List.range mq.maxMsgs := by
    intro slot hmem
    rw [List.mem_range]
    rcases List.mem_cons.mp hmem with rfl | hmem
    · exact (h.total slot).mp ⟨.held c, mem_held hc⟩
    · exact h.list_lt hmem
  have hle := (hnodup.subperm hsub).length_le
  rwa [List.length_cons, List.length_range] at hle

/-- The slots after one of them has moved. -/
theorem of_moves {mq' : MessageQueue} {held' : Context → Option Nat} {free' list' : List Nat}
    {p p' : Place} (hmoves : Lanes.Moves (lanes held free list) (lanes held' free' list') msg p p')
    (hmax : mq'.maxMsgs = mq.maxMsgs) (hmessages : Chain mq'.next mq'.msgQueueHead list')
    (hfree : Chain mq'.next mq'.msgQueueFree free') (htail : mq'.msgQueueTail = list'.getLast?) :
    Slots mq' held' free' list' where
  messages := hmessages
  freeList := hfree
  tail := htail
  exclusive := hmoves.exclusive h.exclusive
  total slot := by rw [hmoves.exists_mem, h.total slot, hmax]

/-- A send fetches a slot. -/
theorem fetch (hc : held c = none) (hfree : mq.msgQueueFree = some msg) :
    ∃ rest, Slots { mq with msgQueueFree := mq.next msg } (update held c (some msg))
      rest list := by
  obtain ⟨rest, rfl, hrest⟩ := (hfree ▸ h.freeList).uncons
  exact ⟨rest, h.of_moves (moves_free_held hc) rfl h.messages hrest h.tail⟩

/-- A store to the link of a held slot. -/
theorem clearNext (hc : held c = some msg) :
    Slots (mq.clearNext msg) held free list where
  messages := h.messages.update (h.held_notMem_list hc)
  freeList := h.freeList.update (h.held_notMem_free hc)
  tail := h.tail
  exclusive := h.exclusive
  total := h.total

/-- A send links its slot at the end of the message list. -/
theorem linkTail (hc : held c = some msg) (hend : mq.next msg = none) :
    Slots (mq.linkTail msg) (update held c none) free (list ++ [msg]) := by
  have hnot := h.held_notMem_list hc
  refine h.of_moves (moves_held_queued hc (List.perm_append_singleton msg list)) rfl ?_ ?_ ?_
  all_goals simp only [MessageQueue.linkTail, h.tail, h.messages.head_eq]
  · cases hlast : list.getLast? with
    | none =>
      obtain rfl := List.getLast?_eq_none_iff.mp hlast
      exact ⟨rfl, hend⟩
    | some tail =>
      obtain ⟨first, rest, rfl⟩ := List.exists_cons_of_ne_nil
        (List.ne_nil_of_mem (List.mem_of_getLast? hlast))
      simpa [h.messages.head_eq] using h.messages.concat h.nodup_list hlast hnot hend
  · cases hlast : list.getLast? with
    | none => exact h.freeList
    | some tail => exact h.freeList.update (h.list_notMem_free (List.mem_of_getLast? hlast))
  · simp

/-- The only link that a send writes is that of the last message. -/
theorem linkTail_next (hd : held d = some slot) : (mq.linkTail msg).next slot = mq.next slot := by
  simp only [MessageQueue.linkTail, h.tail]
  cases hlast : list.getLast? with
  | none => rfl
  | some tail =>
    have hne : slot ≠ tail := fun heq =>
      h.held_notMem_list hd (heq ▸ List.mem_of_getLast? hlast)
    exact update_of_ne hne ..

/-- An urgent send links its slot at the front. -/
theorem linkHead (hc : held c = some msg) :
    Slots (mq.linkHead msg) (update held c none) free (msg :: list) := by
  refine h.of_moves (moves_held_queued hc (.refl _)) rfl ?_ ?_ ?_
  · exact h.messages.push (h.held_notMem_list hc)
  · exact h.freeList.update (h.held_notMem_free hc)
  · simp only [MessageQueue.linkHead, h.tail, List.getLast?_eq_none_iff]
    cases list with
    | nil => rfl
    | cons first rest => simp

end

theorem unlinkHead_tail {rest : List Nat} (h : Slots mq held free (msg :: rest)) :
    (mq.unlinkHead msg).msgQueueTail = rest.getLast? := by
  simp only [MessageQueue.unlinkHead, h.tail]
  cases hrest : rest with
  | nil => simp
  | cons first rest' =>
    have hnot : msg ∉ rest := (List.nodup_cons.mp h.nodup_list).1
    rw [List.getLast?_cons_cons, if_neg]
    intro hlast
    exact hnot (hrest ▸ List.mem_of_getLast? hlast)

/-- A receive takes the first message. -/
theorem take (h : Slots mq held free list) (hc : held c = none)
    (hhead : mq.msgQueueHead = some msg) (entry : Nat) :
    ∃ rest, list = msg :: rest ∧
      Slots { mq.unlinkHead msg with entry := entry } (update held c (some msg)) free
        rest := by
  obtain ⟨rest, rfl, hrest⟩ := (hhead ▸ h.messages).uncons
  exact ⟨rest, rfl, h.of_moves (moves_queued_held hc) rfl hrest h.freeList h.unlinkHead_tail⟩

/-- A receive frees its slot. -/
theorem putFree (h : Slots mq held free list) (hc : held c = some msg) :
    Slots (mq.putFree msg) (update held c none) (msg :: free) list :=
  h.of_moves (moves_held_free hc) rfl (h.messages.update (h.held_notMem_list hc))
    (h.freeList.push (h.held_notMem_free hc)) h.tail

/-- A reset frees the first message. -/
theorem drop {rest : List Nat} (h : Slots mq held free (msg :: rest)) :
    Slots ((mq.unlinkHead msg).putFree msg) held (msg :: free) rest := by
  obtain ⟨-, hrest⟩ := h.messages
  obtain ⟨hnot, -⟩ := List.nodup_cons.mp h.nodup_list
  exact h.of_moves moves_queued_free rfl (hrest.update hnot)
    (h.freeList.push (h.list_notMem_free List.mem_cons_self)) h.unlinkHead_tail

/-- The loop of a reset ends with an empty message list. It writes to no held slot. -/
theorem resetLoop {fuel : Nat} (h : Slots mq held free list) (hfuel : list.length ≤ fuel) :
    ∃ mq' free', resetLoop fuel mq = some mq' ∧ Slots mq' held free' [] ∧
      mq'.msgSize = mq.msgSize ∧ mq'.maxMsgs = mq.maxMsgs ∧ mq'.payload = mq.payload ∧
      ∀ {c slot}, held c = some slot → mq'.next slot = mq.next slot := by
  induction fuel generalizing mq free list with
  | zero =>
    obtain rfl := List.length_eq_zero_iff.mp (Nat.le_zero.mp hfuel)
    exact ⟨mq, free, if_pos h.messages, h, rfl, rfl, rfl, fun _ => rfl⟩
  | succ fuel ih =>
    rw [MessageQueue.resetLoop, h.messages.head_eq]
    cases list with
    | nil => exact ⟨mq, free, rfl, h, rfl, rfl, rfl, fun _ => rfl⟩
    | cons msg rest =>
      obtain ⟨mq', free', hloop, hslots, hsize, hmax, hpayload, hnext⟩ :=
        ih h.drop (Nat.le_of_succ_le_succ hfuel)
      refine ⟨mq', free', hloop, hslots, hsize, hmax, hpayload, fun {c slot} hc => ?_⟩
      have hne : slot ≠ msg := fun heq => h.held_notMem_list hc (heq ▸ List.mem_cons_self)
      exact (hnext hc).trans (update_of_ne hne ..)

end Slots

theorem initLoop_spec (mq : MessageQueue) (n : Nat) (hfree : mq.msgQueueFree = none) :
    Chain (mq.initLoop n).next (mq.initLoop n).msgQueueFree (List.range n).reverse ∧
    mq.initLoop n = { mq with
      next := (mq.initLoop n).next
      msgQueueFree := (mq.initLoop n).msgQueueFree } := by
  induction n with
  | zero => exact ⟨hfree, rfl⟩
  | succ n ih =>
    obtain ⟨hchain, heq⟩ := ih
    rw [List.range_succ, List.reverse_append, List.reverse_singleton, List.singleton_append]
    refine ⟨hchain.push (by simp), ?_⟩
    rw [initLoop, heq]

/-- At first all slots are free. -/
theorem Slots.init {mq : MessageQueue} {held : Context → Option Nat}
    (hchain : Chain mq.next mq.msgQueueFree (List.range mq.maxMsgs).reverse)
    (hhead : mq.msgQueueHead = none) (htail : mq.msgQueueTail = none)
    (hheld : ∀ c, held c = none) : Slots mq held (List.range mq.maxMsgs).reverse [] := by
  have hplace : ∀ {p slot}, slot ∈ lanes held (List.range mq.maxMsgs).reverse [] p → p = .free := by
    intro p slot hmem
    cases p with
    | free => rfl
    | queued => cases hmem
    | held c => simp [lanes, hheld] at hmem
  refine ⟨hhead, hchain, htail, ⟨fun p => ?_, fun hp hp' => (hplace hp).trans (hplace hp').symm⟩,
    fun slot => ⟨fun ⟨p, hp⟩ => ?_, fun hlt => ⟨.free, by simpa [lanes] using hlt⟩⟩⟩
  · cases p with
    | free => exact List.nodup_reverse.mpr List.nodup_range
    | queued => exact List.nodup_nil
    | held c => simp [lanes, hheld]
  · cases hplace hp
    simpa [lanes] using hp

theorem rtMqInit_slots (obj : Nat) (next : Nat → Option Nat) (payload : Nat → Nat → UInt8)
    (msgSize poolSize : Nat) (flag : IpcFlag) {held : Context → Option Nat}
    (hheld : ∀ c, held c = none) :
    ∃ free, Slots (rtMqInit obj next payload msgSize poolSize flag) held free [] := by
  obtain ⟨hchain, heq⟩ := initLoop_spec
    { parent := ⟨obj, flag⟩, msgSize := rtAlign msgSize % 65536,
      maxMsgs := poolSize / (rtAlign msgSize % 65536 + 4) % 65536, entry := 0, msgQueueHead := none,
      msgQueueTail := none, msgQueueFree := none, next := next, payload := payload }
    (poolSize / (rtAlign msgSize % 65536 + 4) % 65536) rfl
  refine ⟨_, Slots.init ?_ ?_ ?_ hheld⟩
  all_goals
    rw [rtMqInit, heq]
  exact hchain

end RtThread.MessageQueue
