-- SUMMARY: The bank cache of the ENC28J60 driver.
import ZigbeeGateway.Drivers.Enc28j60

/-!
# The bank cache

`Moves` says what a step of a thread can do to the bank bits and to `Enc28j60Bank`. The lock
keeps the rx and the tx thread apart, which is read off the code with `Program.flow`. Since
`enc28j60_isr` does not take the lock, the results about all interleavings ask that it does
not come between a bank selection and the access it was made for.
-/

namespace RtThread.Enc28j60

open Program Run Function
open Option (ite_none_right_eq_some map_eq_some_iff)

/-! ## Bank bits -/

section BankBits

variable (sh : Shared) (address : BitVec 8)

theorem chipBank_clear : (sh.spiWriteOp .bitFieldClr Reg.econ1 3).chipBank = 0 := by
  have hbits : ∀ x : BitVec 8, (x &&& ~~~3 &&& 3) <<< 5 = 0 := by decide
  exact hbits sh.econ1

theorem chipBank_select (h : sh.chipBank = 0) :
    (sh.spiWriteOp .bitFieldSet Reg.econ1 ((address &&& bankMask) >>> 5)).chipBank =
      bankOf address := by
  have hbits : ∀ x : BitVec 8, ((x &&& bankMask) >>> 5 &&& 3) <<< 5 = bankOf x := by decide
  calc ((sh.econ1 ||| (address &&& bankMask) >>> 5) &&& 3) <<< 5
      = sh.chipBank ||| ((address &&& bankMask) >>> 5 &&& 3) <<< 5 := by
        rw [BitVec.and_or_distrib_right, BitVec.shiftLeft_or_distrib, Shared.chipBank]
    _ = bankOf address := by
        rw [h, hbits]
        exact BitVec.zero_or

end BankBits

/-- The call leaves the bank bits as they are, apart from its bank selection. -/
def Call.KeepsBank : Call → Prop
  | .spiWrite address _ => address &&& addrMask ≠ Reg.econ1
  | .spiWriteOp op address data => op ≠ .softReset ∧ (address &&& addrMask = Reg.econ1 →
      (op = .bitFieldSet ∨ op = .bitFieldClr) ∧ ∀ v, data v &&& 3 = 0)
  | _ => True

theorem chipBank_keeps {sh : Shared} {op : Op} {address : BitVec 8} {data : Locals → BitVec 8}
    (h : (Call.spiWriteOp op address data).KeepsBank) (v : Locals) :
    (sh.spiWriteOp op address (data v)).chipBank = sh.chipBank := by
  obtain ⟨hreset, hecon⟩ := h
  by_cases haddr : address &&& addrMask = Reg.econ1
  · obtain ⟨hop, hdata⟩ := hecon haddr
    have hbits : ∀ x : BitVec 8, x &&& 3 = 0 → ~~~x &&& 3 = 3 := by decide
    have hor : (sh.econ1 ||| data v) &&& 3 = sh.econ1 &&& 3 := by
      rw [BitVec.and_or_distrib_right, hdata v]
      exact BitVec.or_zero
    have hand : sh.econ1 &&& ~~~data v &&& 3 = sh.econ1 &&& 3 := by
      rw [BitVec.and_assoc, hbits _ (hdata v)]
    obtain rfl | rfl := hop
    · simp only [Shared.spiWriteOp, if_pos haddr, Shared.chipBank, hor]
    · simp only [Shared.spiWriteOp, if_pos haddr, Shared.chipBank, hand]
  · cases op with
    | softReset => exact absurd rfl hreset
    | writeBufMem | readCtrlReg | readBufMem => rfl
    | bitFieldSet | bitFieldClr | writeCtrlReg => simp only [Shared.spiWriteOp, if_neg haddr]

/-! ## What a step can do -/

/-- A statement of `enc28j60_set_bank(a)`. -/
inductive BankStep (a : BitVec 8) (sh sh' : Shared) : Pc → Pc → Prop
  | differs (hsh : sh' = sh) (h : bankOf a ≠ sh.enc28j60Bank) : BankStep a sh sh' .start .clear
  | agrees (hsh : sh' = sh) (h : bankOf a = sh.enc28j60Bank) : BankStep a sh sh' .start .access
  | clears (hbank : sh'.enc28j60Bank = sh.enc28j60Bank) (h : sh'.chipBank = 0) :
      BankStep a sh sh' .clear .select
  | selects (hbank : sh'.enc28j60Bank = sh.enc28j60Bank)
      (h : sh.chipBank = 0 → sh'.chipBank = bankOf a) : BankStep a sh sh' .select .remember
  | remembers (hbank : sh'.enc28j60Bank = bankOf a) (h : sh'.chipBank = sh.chipBank) :
      BankStep a sh sh' .remember .access

variable {a : BitVec 8} {pc : Pc} {c : Call} {next : Option Pc} {k : List Code}

theorem BankStep.ne_start {sh sh' : Shared} {pc' : Pc}
    (h : BankStep a sh sh' pc pc') : pc' ≠ .start := by
  cases h <;> simp

/-- A step of a thread: a silent step, a call other than a bank selection, or a statement of a bank
selection. The last statement of `enc28j60_set_bank` ends the call if no access follows. -/
inductive Moves (sh : Shared) (th : Thread) (sh' : Shared) (th' : Thread) : Prop
  | silent (hsh : sh' = sh) (hstack : silent th.stack th.locals = some (th'.stack, th'.locals))
      (hpc : th'.pc = th.pc)
  | op {c : Call} {k : List Code} (hstack : th.stack = .call c :: k)
      (htarget : c.target = none ∨ th.pc = .access)
      (hbank : sh'.enc28j60Bank = sh.enc28j60Bank)
      (hchip : c.KeepsBank → sh'.chipBank = sh.chipBank) (hrest : th'.stack = k)
      (hpc : th'.pc = .start)
  | bank {c : Call} {k : List Code} {a : BitVec 8} {pc : Pc} (hstack : th.stack = .call c :: k)
      (htarget : c.target = some a) (hbank : BankStep a sh sh' th.pc pc)
      (hth : th'.stack = th.stack ∧ th'.pc = pc ∨ pc = .access ∧ th'.stack = k ∧ th'.pc = .start)

variable {sh sh' : Shared} {th th' : Thread} {inp : Input}

theorem setBankStep_bankStep {pc' : Pc} (h : setBankStep sh a pc = some (sh', pc')) :
    BankStep a sh sh' pc pc' ∧ sh'.lockSem = sh.lockSem := by
  cases pc with
  | start =>
    obtain ⟨rfl, rfl⟩ := Prod.mk.inj (Option.some.inj h)
    split
    next hne => exact ⟨.differs rfl hne, rfl⟩
    next heq => exact ⟨.agrees rfl (not_not.mp heq), rfl⟩
  | clear =>
    obtain ⟨rfl, rfl⟩ := Prod.mk.inj (Option.some.inj h)
    exact ⟨.clears rfl (chipBank_clear sh), rfl⟩
  | select =>
    obtain ⟨rfl, rfl⟩ := Prod.mk.inj (Option.some.inj h)
    exact ⟨.selects rfl (chipBank_select sh a), rfl⟩
  | remember =>
    obtain ⟨rfl, rfl⟩ := Prod.mk.inj (Option.some.inj h)
    exact ⟨.remembers rfl rfl, rfl⟩
  | access => cases h

theorem spiWriteOp_frame (sh : Shared) (op : Op) (address data : BitVec 8) :
    (sh.spiWriteOp op address data).enc28j60Bank = sh.enc28j60Bank ∧
      (sh.spiWriteOp op address data).lockSem = sh.lockSem := by
  unfold Shared.spiWriteOp
  split
  all_goals first | exact ⟨rfl, rfl⟩ | (split <;> exact ⟨rfl, rfl⟩)

/-- A call that uses `lock_sem`. -/
def Call.Locks : Call → Prop
  | .lockTake | .lockRelease => True
  | _ => False

/-- A call returns, or goes on at the next statement of its bank selection. -/
theorem callStep_cases {v v' : Locals} (h : callStep sh v inp pc c = some (sh', v', next)) :
    (¬ c.Locks → sh'.lockSem = sh.lockSem) ∧
    ((next = none ∧ (c.target = none ∨ pc = .access) ∧ sh'.enc28j60Bank = sh.enc28j60Bank ∧
      (c.KeepsBank → sh'.chipBank = sh.chipBank)) ∨
    ∃ a pc', c.target = some a ∧ BankStep a sh sh' pc pc' ∧
      (next = some pc' ∨ pc' = .access ∧ next = none)) := by
  cases c with
  | setBank a =>
    obtain ⟨⟨sh1, pc1⟩, hbank, hr⟩ := map_eq_some_iff.mp h
    obtain ⟨rfl, -, rfl⟩ := hr
    obtain ⟨hstep, hlock⟩ := setBankStep_bankStep hbank
    refine ⟨fun _ => hlock, .inr ⟨a, pc1, rfl, hstep, ?_⟩⟩
    split
    next hpc => exact .inr ⟨hpc, rfl⟩
    next => exact .inl rfl
  | spiRead a ret =>
    simp only [callStep] at h
    split at h
    next hpc =>
      cases h
      exact ⟨fun _ => rfl, .inl ⟨rfl, .inr hpc, rfl, fun _ => rfl⟩⟩
    next =>
      obtain ⟨⟨sh1, pc1⟩, hbank, ⟨⟩⟩ := map_eq_some_iff.mp h
      obtain ⟨hstep, hlock⟩ := setBankStep_bankStep hbank
      exact ⟨fun _ => hlock, .inr ⟨a, pc1, rfl, hstep, .inl rfl⟩⟩
  | spiWrite a data =>
    simp only [callStep] at h
    split at h
    next hpc =>
      obtain ⟨rfl, -, rfl⟩ := h
      obtain ⟨hbank, hlock⟩ := spiWriteOp_frame sh .writeCtrlReg a (data v)
      refine ⟨fun _ => hlock, .inl ⟨rfl, .inr hpc, hbank, fun hkeeps => ?_⟩⟩
      rw [Shared.spiWriteOp, if_neg hkeeps]
    next =>
      obtain ⟨⟨sh1, pc1⟩, hbank, ⟨⟩⟩ := map_eq_some_iff.mp h
      obtain ⟨hstep, hlock⟩ := setBankStep_bankStep hbank
      exact ⟨fun _ => hlock, .inr ⟨a, pc1, rfl, hstep, .inl rfl⟩⟩
  | spiWriteOp op a data =>
    obtain ⟨rfl, -, rfl⟩ := h
    obtain ⟨hbank, hlock⟩ := spiWriteOp_frame sh op a (data v)
    exact ⟨fun _ => hlock, .inl ⟨rfl, .inl rfl, hbank, fun hkeeps => chipBank_keeps hkeeps v⟩⟩
  | lockTake =>
    obtain ⟨-, ⟨⟩⟩ := ite_none_right_eq_some.mp h
    exact ⟨fun hc => absurd trivial hc, .inl ⟨rfl, .inl rfl, rfl, fun _ => rfl⟩⟩
  | lockRelease =>
    cases h
    exact ⟨fun hc => absurd trivial hc, .inl ⟨rfl, .inl rfl, rfl, fun _ => rfl⟩⟩
  | spiReadOp | transfer | pbuf | ethDeviceReady =>
    cases h
    exact ⟨fun _ => rfl, .inl ⟨rfl, .inl rfl, rfl, fun _ => rfl⟩⟩

theorem threadStep_moves (h : threadStep sh th inp = some (sh', th')) : Moves sh th sh' th' := by
  unfold threadStep at h
  split at h
  next c k hstack =>
    obtain ⟨⟨sh1, v, next⟩, hcall, hr⟩ := map_eq_some_iff.mp h
    cases next with
    | none =>
      cases hr
      obtain ⟨-, htarget, hbank, hchip⟩ | ⟨a, pc, htarget, hbank, hnext | ⟨hpc, -⟩⟩ :=
        (callStep_cases hcall).2
      · exact .op hstack htarget hbank hchip rfl rfl
      · cases hnext
      · exact .bank hstack htarget hbank (.inr ⟨hpc, rfl, rfl⟩)
    | some pc =>
      cases hr
      obtain ⟨hnext, -⟩ | ⟨a, pc', htarget, hbank, hnext | ⟨-, hnext⟩⟩ := (callStep_cases hcall).2
      · cases hnext
      · cases hnext
        exact .bank hstack htarget hbank (.inl ⟨rfl, rfl⟩)
      · cases hnext
  next =>
    obtain ⟨⟨k, v⟩, hsilent, hr⟩ := map_eq_some_iff.mp h
    cases hr
    exact .silent rfl hsilent rfl

/-- A thread is inside a call only if the call selects a bank. -/
def Thread.Placed (th : Thread) : Prop := th.pc ≠ .start → th.target ≠ none

theorem target_of_stack (h : th.stack = .call c :: k) : th.target = c.target := by
  rw [Thread.target, h]

theorem target_of_silent {v : Locals} (h : silent th.stack th.locals = some (k, v)) :
    th.target = none := by
  unfold Thread.target
  split
  next c k hstack =>
    rw [hstack] at h
    cases h
  next => rfl

theorem Thread.Placed.start (h : th.Placed) (htarget : th.target = none) : th.pc = .start :=
  not_not.mp fun hne => h hne htarget

theorem Moves.placed (h : Moves sh th sh' th') (hth : th.Placed) : th'.Placed := by
  cases h with
  | silent hsh hstack hpc =>
    intro hne
    exact absurd (hpc.trans (hth.start (target_of_silent hstack))) hne
  | op hstack htarget hbank hchip hrest hpc => exact fun hne => absurd hpc hne
  | bank hstack htarget hbank hth' =>
    obtain ⟨hsame, -⟩ | ⟨-, -, hpc⟩ := hth'
    · intro _
      rw [target_of_stack (hsame.trans hstack), htarget]
      exact Option.some_ne_none _
    · exact fun hne => absurd hpc hne

theorem Moves.all {P : Call → Prop} (h : Moves sh th sh' th') (hall : ∀ p ∈ th.stack, p.All P) :
    ∀ p ∈ th'.stack, p.All P := by
  cases h with
  | silent hsh hstack hpc => exact all_silent hstack hall
  | op hstack htarget hbank hchip hrest hpc =>
    rw [hrest]
    rw [hstack] at hall
    exact (List.forall_mem_cons.mp hall).2
  | bank hstack htarget hbank hth =>
    obtain ⟨hsame, -⟩ | ⟨-, hrest, -⟩ := hth
    · rwa [hsame]
    · rw [hrest]
      rw [hstack] at hall
      exact (List.forall_mem_cons.mp hall).2

/-! ## The bank -/

/-- The thread does not depend on the bank bits. -/
structure Thread.Clean (th : Thread) : Prop where
  selecting : ¬ th.Selecting
  access : ∀ a, th.accesses = some a → ¬ IsBanked a

theorem clean_of_start (h : th.pc = .start) : th.Clean :=
  ⟨by simp [Thread.Selecting, h], by simp [Thread.accesses, h]⟩

/-- The bank bits and `Enc28j60Bank` agree unless a thread is selecting a bank, which only one thread
does at a time, and a thread at its access finds the bank it selected. -/
structure Bank {ι : Type} (sh : Shared) (thread : ι → Thread) : Prop where
  access : ∀ w a, (thread w).accesses = some a → IsBanked a → sh.chipBank = bankOf a
  synced : (∀ w, ¬ (thread w).Selecting) → sh.enc28j60Bank = sh.chipBank
  select : ∀ w, (thread w).pc = .select → sh.chipBank = 0
  remember : ∀ w a, (thread w).pc = .remember → (thread w).target = some a →
    sh.chipBank = bankOf a
  alone : ∀ w, (thread w).Selecting → ∀ u, u ≠ w → (thread u).Clean

namespace Bank

variable {ι : Type} {thread : ι → Thread}

/-- No thread has begun a call. -/
theorem start (hbank : sh.enc28j60Bank = sh.chipBank) (hpc : ∀ w, (thread w).pc = .start) :
    Bank sh thread := by
  have hclean : ∀ w, (thread w).Clean := fun w => clean_of_start (hpc w)
  exact ⟨fun w a ha hbanked => absurd hbanked ((hclean w).access a ha), fun _ => hbank,
    fun w hw => absurd (.inl hw) (hclean w).selecting,
    fun w a hw _ => absurd (.inr hw) (hclean w).selecting, fun _ _ u _ => hclean u⟩

variable [DecidableEq ι] {w : ι}

/-- A step that leaves the bank alone. -/
theorem quiet (h : Bank sh thread) (hbank : sh'.enc28j60Bank = sh.enc28j60Bank)
    (hchip : sh'.chipBank = sh.chipBank) (hsel : ¬ (thread w).Selecting)
    (hpc : th'.pc = .start ∨ th'.pc = .clear) : Bank sh' (update thread w th') := by
  have hclean : th'.Clean := by
    rcases hpc with hpc | hpc
    · exact clean_of_start hpc
    · exact ⟨by simp [Thread.Selecting, hpc], by simp [Thread.accesses, hpc]⟩
  refine ⟨fun u a hu hbanked => ?_, fun hnone => ?_, fun u hu => ?_, fun u a hu ha => ?_,
    fun u hu x hx => ?_⟩
  · rcases eq_or_ne u w with rfl | hne
    · rw [update_self] at hu
      exact absurd hbanked (hclean.access a hu)
    · rw [update_of_ne hne] at hu
      exact hchip.trans (h.access u a hu hbanked)
  · refine hbank.trans ((h.synced fun u => ?_).trans hchip.symm)
    rcases eq_or_ne u w with rfl | hne
    · exact hsel
    · simpa [hne] using hnone u
  · rcases eq_or_ne u w with rfl | hne
    · rw [update_self] at hu
      exact absurd (.inl hu) hclean.selecting
    · rw [update_of_ne hne] at hu
      exact hchip.trans (h.select u hu)
  · rcases eq_or_ne u w with rfl | hne
    · rw [update_self] at hu
      exact absurd (.inr hu) hclean.selecting
    · rw [update_of_ne hne] at hu ha
      exact hchip.trans (h.remember u a hu ha)
  · rcases eq_or_ne x w with rfl | hne
    · rwa [update_self]
    · rw [update_of_ne hne]
      rcases eq_or_ne u w with rfl | hne'
      · rw [update_self] at hu
        exact absurd hu hclean.selecting
      · rw [update_of_ne hne'] at hu
        exact h.alone u hu x hx

/-- A thread finds its bank selected, or has just selected it. -/
theorem granted (h : Bank sh thread) (hothers : ∀ u, u ≠ w → ¬ (thread u).Selecting)
    (hchip : sh'.chipBank = sh.chipBank) (hbank : sh'.enc28j60Bank = sh'.chipBank)
    (hsel : ¬ th'.Selecting) (haccess : ∀ a, th'.accesses = some a → sh'.chipBank = bankOf a) :
    Bank sh' (update thread w th') := by
  have hnone : ∀ u, ¬ (update thread w th' u).Selecting := by
    intro u
    rcases eq_or_ne u w with rfl | hne
    · rwa [update_self]
    · rw [update_of_ne hne]
      exact hothers u hne
  refine ⟨fun u a hu hbanked => ?_, fun _ => hbank, fun u hu => absurd (.inl hu) (hnone u),
    fun u a hu _ => absurd (.inr hu) (hnone u), fun u hu => absurd hu (hnone u)⟩
  rcases eq_or_ne u w with rfl | hne
  · rw [update_self] at hu
    exact haccess a hu
  · rw [update_of_ne hne] at hu
    exact hchip.trans (h.access u a hu hbanked)

/-- A thread writes the bank bits while no other one depends on them. -/
theorem writes (hothers : ∀ u, u ≠ w → (thread u).Clean)
    (hpc : th'.pc = .select ∧ sh'.chipBank = 0 ∨
      th'.pc = .remember ∧ ∀ a, th'.target = some a → sh'.chipBank = bankOf a) :
    Bank sh' (update thread w th') := by
  have hself : th'.Selecting := hpc.imp And.left And.left
  have hother : ∀ u, u ≠ w → (update thread w th' u).Clean := by
    intro u hne
    rw [update_of_ne hne]
    exact hothers u hne
  have hmine : ∀ u, (update thread w th' u).Selecting → u = w := by
    intro u hu
    by_contra hne
    exact (hother u hne).selecting hu
  refine ⟨fun u a hu hbanked => ?_, fun hnone => absurd hself ?_, fun u hu => ?_,
    fun u a hu ha => ?_, fun u hu x hx => hother x fun heq => hx (heq.trans (hmine u hu).symm)⟩
  · have hne : u ≠ w := by
      rintro rfl
      rcases hpc with ⟨hpc, -⟩ | ⟨hpc, -⟩ <;> simp [Thread.accesses, hpc] at hu
    exact absurd hbanked ((hother u hne).access a hu)
  · simpa using hnone w
  · obtain rfl := hmine u (.inl hu)
    rw [update_self] at hu
    exact (hpc.resolve_right fun hrem => by cases hu.symm.trans hrem.1).2
  · obtain rfl := hmine u (.inr hu)
    rw [update_self] at hu ha
    exact (hpc.resolve_left fun hsel => by cases hu.symm.trans hsel.1).2 a ha

end Bank

/-- The next step of a thread spares another one: it does not begin to write the bank bits while the
other one depends on them, and it does not trust `Enc28j60Bank` while the other one is about to
change it. -/
structure Thread.Spares (sh : Shared) (th u : Thread) : Prop where
  clear : th.pc = .clear → u.Clean
  trust : ∀ a, th.pc = .start → th.target = some a → bankOf a = sh.enc28j60Bank → ¬ u.Selecting

theorem Bank.step {ι : Type} [DecidableEq ι] {thread : ι → Thread} {w : ι} (h : Bank sh thread)
    (hplaced : (thread w).Placed) (hkeeps : ∀ c k, (thread w).stack = .call c :: k → c.KeepsBank)
    (hspares : ∀ u, u ≠ w → (thread w).Spares sh (thread u)) (hm : Moves sh (thread w) sh' th') :
    Bank sh' (update thread w th') := by
  cases hm with
  | silent hsh hstack hpc =>
    subst hsh
    have hstart := hplaced.start (target_of_silent hstack)
    exact h.quiet rfl rfl (clean_of_start hstart).selecting (.inl (hpc.trans hstart))
  | @op c k hstack htarget hbank hchip hrest hpc =>
    have hsel : ¬ (thread w).Selecting := by
      rcases htarget with hnone | haccess
      · exact (clean_of_start (hplaced.start ((target_of_stack hstack).trans hnone))).selecting
      · simp [Thread.Selecting, haccess]
    exact h.quiet hbank (hchip (hkeeps c k hstack)) hsel (.inl hpc)
  | @bank c k a pc hstack htarget hbank hth =>
    have htarget : (thread w).target = some a := (target_of_stack hstack).trans htarget
    generalize hpc : (thread w).pc = pc0 at hbank
    -- the access that follows the selection is to the selected address
    have haccess : ∀ b, pc = .access → th'.accesses = some b → b = a := by
      rintro b rfl hb
      obtain ⟨hsame, hpc'⟩ | ⟨-, -, hpc'⟩ := hth
      · rw [Thread.accesses, if_pos hpc', Thread.target, hsame] at hb
        exact Option.some.inj (hb.symm.trans htarget)
      · simp [Thread.accesses, hpc'] at hb
    have hquiet : pc = .access → ¬ th'.Selecting := by
      rintro rfl
      obtain ⟨-, hpc'⟩ | ⟨-, -, hpc'⟩ := hth
      all_goals simp [Thread.Selecting, hpc']
    have hsame : pc ≠ .access → th'.stack = (thread w).stack ∧ th'.pc = pc :=
      fun hne => hth.resolve_right fun hend => hne hend.1
    cases hbank with
    | differs hsh hne =>
      subst hsh
      have hsel : ¬ (thread w).Selecting := by simp [Thread.Selecting, hpc]
      exact h.quiet rfl rfl hsel (.inr (hsame (by simp)).2)
    | agrees hsh heq =>
      subst hsh
      have hothers : ∀ u, u ≠ w → ¬ (thread u).Selecting :=
        fun u hne => (hspares u hne).trust a hpc htarget heq
      have hsync : sh'.enc28j60Bank = sh'.chipBank := by
        refine h.synced fun u => ?_
        rcases eq_or_ne u w with rfl | hne
        · simp [Thread.Selecting, hpc]
        · exact hothers u hne
      refine h.granted hothers rfl hsync (hquiet rfl) fun b hb => ?_
      rw [haccess b rfl hb, ← hsync, heq]
    | clears hbank hzero =>
      exact Bank.writes (fun u hne => (hspares u hne).clear hpc) (.inl ⟨(hsame (by simp)).2, hzero⟩)
    | selects hbank hset =>
      obtain ⟨hstack', hpc'⟩ := hsame (by simp)
      refine Bank.writes (h.alone w (.inl hpc)) (.inr ⟨hpc', fun b hb => ?_⟩)
      rw [Thread.target, hstack'] at hb
      rw [hset (h.select w hpc), Option.some.inj (hb.symm.trans htarget)]
    | remembers hbank hchip =>
      have hset := h.remember w a hpc htarget
      refine h.granted (fun u hne => (h.alone w (.inr hpc) u hne).selecting) hchip ?_ (hquiet rfl)
        fun b hb => ?_
      · rw [hbank, hchip, hset]
      · rw [haccess b rfl hb, hchip, hset]

/-! ## The lock -/

/-- Whether a thread holds `lock_sem` after a call. It selects banks only while it holds it. -/
def lockFlow (c : Call) (held : Bool) : Option Bool :=
  match c with
  | .lockTake => if held then none else some true
  | .lockRelease => if held then some false else none
  | c => if c.target ≠ none ∧ held = false then none else some held

theorem lockFlow_eq (hc : ¬ c.Locks) (held : Bool) :
    lockFlow c held = if c.target ≠ none ∧ held = false then none else some held := by
  cases c with
  | lockTake | lockRelease => exact absurd trivial hc
  | _ => rfl

/-- A call either keeps what its thread holds, or takes or releases the lock. -/
theorem callStep_lock {v v' : Locals} {held held' : Bool}
    (h : callStep sh v inp pc c = some (sh', v', next)) (hflow : lockFlow c held = some held') :
    sh'.lockSem + (if next = none then held' else held).toNat = sh.lockSem + held.toNat := by
  by_cases hc : c.Locks
  · cases c with
    | lockTake =>
      obtain ⟨hpos, ⟨⟩⟩ := ite_none_right_eq_some.mp h
      obtain ⟨hfree, ⟨⟩⟩ := Option.ite_none_left_eq_some.mp hflow
      simp only [hfree]
      exact Nat.sub_add_cancel hpos
    | lockRelease =>
      obtain ⟨hheld, ⟨⟩⟩ := ite_none_right_eq_some.mp hflow
      cases h
      simp [hheld]
    | _ => exact hc.elim
  · rw [lockFlow_eq hc] at hflow
    obtain ⟨-, ⟨⟩⟩ := Option.ite_none_left_eq_some.mp hflow
    rw [(callStep_cases h).1 hc, ite_self]

theorem threadStep_lock {held : Bool} (h : threadStep sh th inp = some (sh', th'))
    (hflow : flows lockFlow th.stack held = some false) :
    ∃ held', flows lockFlow th'.stack held' = some false ∧
      sh'.lockSem + held'.toNat = sh.lockSem + held.toNat := by
  unfold threadStep at h
  split at h
  next c k hstack =>
    obtain ⟨⟨sh1, v, next⟩, hcall, hr⟩ := map_eq_some_iff.mp h
    obtain ⟨held', hc, hrest⟩ := flows_call (hstack ▸ hflow)
    have hlock := callStep_lock hcall hc
    cases next with
    | none =>
      cases hr
      exact ⟨held', hrest, hlock⟩
    | some pc =>
      cases hr
      exact ⟨held, hflow, hlock⟩
  next =>
    obtain ⟨⟨k, v⟩, hsilent, ⟨⟩⟩ := map_eq_some_iff.mp h
    exact ⟨held, flows_silent hsilent hflow, rfl⟩

theorem threadStep_lockSem (h : threadStep sh th inp = some (sh', th'))
    (hall : ∀ p ∈ th.stack, p.All fun c => ¬ c.Locks) : sh'.lockSem = sh.lockSem := by
  unfold threadStep at h
  split at h
  next c k hstack =>
    obtain ⟨⟨sh1, v, next⟩, hcall, hr⟩ := map_eq_some_iff.mp h
    have hlock := (callStep_cases hcall).1 (hall (.call c) (by simp [hstack]))
    cases next with
    | none | some pc =>
      cases hr
      exact hlock
  next =>
    obtain ⟨⟨k, v⟩, -, ⟨⟩⟩ := map_eq_some_iff.mp h
    rfl

/-- A thread that selects a bank holds the lock. -/
theorem held_of_target {held : Bool} (hflow : flows lockFlow th.stack held = some false)
    (htarget : th.target ≠ none) : held = true := by
  unfold Thread.target at htarget
  split at htarget
  next c k hstack =>
    obtain ⟨held', hc, -⟩ := flows_call (hstack ▸ hflow)
    have hlocks : ¬ c.Locks := by
      cases c with
      | lockTake | lockRelease => exact absurd rfl htarget
      | _ => exact id
    rw [lockFlow_eq hlocks] at hc
    obtain ⟨hfree, -⟩ := Option.ite_none_left_eq_some.mp hc
    simpa using fun hheld => hfree ⟨htarget, hheld⟩
  next => exact absurd rfl htarget

/-- The rx and the tx thread hold the lock one at a time, and the isr thread never does. -/
structure Locked (sh : Shared) (thread : Who → Thread) (held : Who → Bool) : Prop where
  flow : ∀ w, w ≠ .isr → flows lockFlow (thread w).stack (held w) = some false
  isr : ∀ p ∈ (thread .isr).stack, p.All fun c => ¬ c.Locks
  count : sh.lockSem + (held .rx).toNat + (held .tx).toNat = 1

theorem Locked.step {thread : Who → Thread} {held : Who → Bool} {w : Who}
    (h : Locked sh thread held) (hs : threadStep sh (thread w) inp = some (sh', th')) :
    ∃ held', Locked sh' (update thread w th') held' := by
  by_cases hw : w = .isr
  · subst hw
    refine ⟨held, fun u hu => ?_, ?_, ?_⟩
    · rw [update_of_ne hu]
      exact h.flow u hu
    · rw [update_self]
      exact (threadStep_moves hs).all h.isr
    · rw [threadStep_lockSem hs h.isr]
      exact h.count
  · obtain ⟨b, hflow, hlock⟩ := threadStep_lock hs (h.flow w hw)
    refine ⟨update held w b, fun u hu => ?_, ?_, ?_⟩
    · rcases eq_or_ne u w with rfl | hne
      · rwa [update_self, update_self]
      · rw [update_of_ne hne, update_of_ne hne]
        exact h.flow u hu
    · rw [update_of_ne (Ne.symm hw)]
      exact h.isr
    · have hcount := h.count
      cases w with
      | isr => exact absurd rfl hw
      | rx | tx =>
        simp only [update_self, ne_eq, reduceCtorEq, not_false_eq_true,
          update_of_ne]
        omega

/-- The rx and the tx thread are not both at a bank selection. -/
theorem Locked.target {thread : Who → Thread} {held : Who → Bool} {w u : Who}
    (h : Locked sh thread held) (hw : w ≠ .isr) (hu : u ≠ .isr) (hne : u ≠ w)
    (htarget : (thread w).target ≠ none) : (thread u).target = none := by
  by_contra htarget'
  have hheld := held_of_target (h.flow w hw) htarget
  have hheld' := held_of_target (h.flow u hu) htarget'
  have hcount := h.count
  cases w with
  | isr => exact hw rfl
  | rx | tx =>
    cases u with
    | isr => exact hu rfl
    | rx | tx => simp_all

theorem entry_lockFlow {w : Who} (hw : w ≠ .isr) : (entry w).flow lockFlow false = some false := by
  cases w with
  | isr => exact absurd rfl hw
  | rx | tx => rfl

/-! ## Initialisation -/

theorem Bank.selects (hchip : sh.chipBank = 0) (hpc : th.pc = .select) : Bank sh fun _ : Unit => th := by
  have h : Bank sh (update (fun _ : Unit => th) () th) :=
    .writes (fun u hne => absurd rfl hne) (.inl ⟨hpc, hchip⟩)
  rwa [update_eq_self] at h

/-- A thread on its own keeps `Enc28j60Bank` right. -/
theorem solo_synced {is : List Input} (hplaced : th.Placed) (hall : ∀ p ∈ th.stack, p.All Call.KeepsBank)
    (hbank : Bank sh fun _ : Unit => th) (hrun : run soloStep (sh, th) is = some (sh', th'))
    (hpc : th'.pc = .start) : sh'.enc28j60Bank = sh'.chipBank := by
  let I (s : Shared × Thread) : Prop :=
    s.2.Placed ∧ (∀ p ∈ s.2.stack, p.All Call.KeepsBank) ∧ Bank s.1 fun _ : Unit => s.2
  have hstep : ∀ s inp s', I s → soloStep s inp = some s' → I s' := by
    rintro s inp s' ⟨hplaced, hall, hbank⟩ hs
    have hm := threadStep_moves hs
    have hbank' : Bank s'.1 (update (fun _ : Unit => s.2) () s'.2) :=
      hbank.step hplaced (fun c k hstack => hall (.call c) (by simp [hstack]))
        (fun u hne => absurd rfl hne) hm
    exact ⟨hm.placed hplaced, hm.all hall, hbank'⟩
  obtain ⟨-, -, hbank⟩ : I (sh', th') := run_invariant hstep ⟨hplaced, hall, hbank⟩ hrun
  exact hbank.synced fun _ => (clean_of_start hpc).selecting

/-- After a reset of the chip `Enc28j60Bank` may be wrong, and the selection of bank 0 makes it
right again. -/
theorem reset_synced {p : Code} {f : Locals → Locals} {bits data : BitVec 8} {v v' : Locals}
    {is : List Input} (hp : p.All Call.KeepsBank) (hzero : bankOf a = 0)
    (haddr : a &&& addrMask ≠ Reg.econ1)
    (hrun : run soloStep (sh, ⟨[.seq (.call (.spiWriteOp .softReset 0 fun _ => bits))
      (.seq (.assign f) (.seq (write a data) p))], v, .start⟩) is = some (sh', ⟨[], v', .start⟩)) :
    sh'.enc28j60Bank = sh'.chipBank := by
  have hall : ∀ q ∈ [write a data, p], q.All Call.KeepsBank := by
    simp [write, Code.All, Call.KeepsBank, haddr, hp]
  obtain ⟨is, hrun⟩ := run_ahead (fun _ => rfl) (by simp) hrun
  obtain ⟨is, hrun⟩ := run_ahead (fun _ => rfl) (by simp) hrun
  obtain ⟨is, hrun⟩ := run_ahead (fun _ => rfl) (by simp) hrun
  obtain ⟨is, hrun⟩ := run_ahead (fun _ => rfl) (by simp) hrun
  obtain ⟨is, hrun⟩ := run_ahead (fun _ => rfl) (by simp) hrun
  by_cases hbank : a &&& bankMask = (sh.spiWriteOp .softReset 0 bits).enc28j60Bank
  · have hchip : (sh.spiWriteOp .softReset 0 bits).chipBank = 0 := by
      simp [Shared.spiWriteOp, Shared.chipBank]
    have hstart := (hbank.symm.trans hzero).trans hchip.symm
    exact solo_synced (fun hne => absurd rfl hne) hall (.start hstart fun _ => rfl) hrun rfl
  · obtain ⟨is, hrun⟩ := run_ahead (fun _ => rfl) (by simp) hrun
    simp only [if_pos hbank, ne_eq] at hrun
    obtain ⟨is, hrun⟩ := run_ahead (fun _ => rfl) (by simp) hrun
    refine solo_synced ?_ hall (.selects (chipBank_clear _) rfl) hrun rfl
    exact fun _ => Option.some_ne_none _

/-! ## The calls of the programs -/

section KeepsBank

attribute [local simp] Code.all_block Code.All Call.KeepsBank setBank write setBits clearBits readEir
  readPkCounter waitMistat segments readBuf

theorem enc28j60PhyRead_keepsBank (address : BitVec 8) :
    (enc28j60PhyRead address).All Call.KeepsBank := by
  simp +decide [enc28j60PhyRead]

theorem enc28j60InterruptDisable_keepsBank : enc28j60InterruptDisable.All Call.KeepsBank := by
  simp +decide [enc28j60InterruptDisable]

theorem enc28j60InterruptEnable_keepsBank : enc28j60InterruptEnable.All Call.KeepsBank := by
  simp +decide [enc28j60InterruptEnable]

theorem enc28j60Isr_keepsBank : enc28j60Isr.All Call.KeepsBank := by
  simp +decide [enc28j60Isr, isrBody, enc28j60CheckLinkStatus, enc28j60PhyRead_keepsBank]

theorem enc28j60Rx_keepsBank : enc28j60Rx.All Call.KeepsBank := by
  simp +decide [enc28j60Rx, rxPacket, enc28j60InterruptDisable_keepsBank,
    enc28j60InterruptEnable_keepsBank]

theorem enc28j60Tx_keepsBank : enc28j60Tx.All Call.KeepsBank := by
  simp +decide [enc28j60Tx, enc28j60InterruptDisable_keepsBank, enc28j60InterruptEnable_keepsBank]

theorem entry_keepsBank (w : Who) : (entry w).All Call.KeepsBank := by
  cases w with
  | isr => exact enc28j60Isr_keepsBank
  | rx => exact enc28j60Rx_keepsBank
  | tx => exact ⟨trivial, enc28j60Tx_keepsBank⟩

/-- `Enc28j60Bank` is right after `enc28j60_init`, whatever it was before. -/
theorem enc28j60Init_synced {devAddr : Nat → BitVec 8} {v v' : Locals} {is : List Input}
    (hrun : run soloStep (sh, ⟨[enc28j60Init devAddr], v, .start⟩) is = some (sh', ⟨[], v', .start⟩)) :
    sh'.enc28j60Bank = sh'.chipBank := by
  refine reset_synced ?_ (a := Reg.erxstl) rfl (by decide) hrun
  simp +decide [enc28j60PhyWrite]

theorem enc28j60Isr_not_locks : enc28j60Isr.All fun c => ¬ c.Locks := by
  simp [enc28j60Isr, isrBody, enc28j60CheckLinkStatus, enc28j60PhyRead, Call.Locks]

end KeepsBank

/-! ## Runs of the three threads -/

structure Inv (s : Sys) : Prop where
  placed : ∀ w, (s.thread w).Placed
  keeps : ∀ w, ∀ p ∈ (s.thread w).stack, p.All Call.KeepsBank
  locked : ∃ held, Locked s.shared s.thread held
  bank : Bank s.shared s.thread

/-- The step does not let the isr thread and another thread come into each other's bank selection. -/
def Undisturbed (s : Sys) (e : Event) : Prop :=
  ∀ u, u ≠ e.who → e.who = .isr ∨ u = .isr → (s.thread e.who).Spares s.shared (s.thread u)

variable {s s' : Sys} {e : Event}

/-- The lock makes the rx and the tx thread spare each other. -/
theorem Inv.spares (h : Inv s) (hok : Undisturbed s e) (u : Who) (hne : u ≠ e.who) :
    (s.thread e.who).Spares s.shared (s.thread u) := by
  by_cases hisr : e.who = .isr ∨ u = .isr
  · exact hok u hne hisr
  · obtain ⟨hw, hu⟩ := not_or.mp hisr
    obtain ⟨held, hlocked⟩ := h.locked
    have hclean : (s.thread e.who).target ≠ none → (s.thread u).Clean := fun htarget =>
      clean_of_start ((h.placed u).start (hlocked.target hw hu hne htarget))
    exact ⟨fun hpc => hclean (h.placed e.who (by simp [hpc])),
      fun a _ ha _ => (hclean (by simp [ha])).selecting⟩

theorem Inv.step (h : Inv s) (hok : Undisturbed s e) (hs : step s e = some s') : Inv s' := by
  obtain ⟨⟨sh', th'⟩, hthread, rfl⟩ := map_eq_some_iff.mp hs
  have hm := threadStep_moves hthread
  obtain ⟨held, hlocked⟩ := h.locked
  refine ⟨fun w => ?_, fun w => ?_, hlocked.step hthread, ?_⟩
  · rcases eq_or_ne w e.who with rfl | hne
    · simpa using hm.placed (h.placed _)
    · simpa [hne] using h.placed w
  · rcases eq_or_ne w e.who with rfl | hne
    · simpa using hm.all (h.keeps _)
    · simpa [hne] using h.keeps w
  · refine h.bank.step (h.placed _) (fun c k hstack => ?_) (h.spares hok) hm
    exact h.keeps e.who (.call c) (by simp [hstack])

theorem Initial.inv (h : Initial s) : Inv s := by
  have hpc : ∀ w, (s.thread w).pc = .start := by
    intro w
    obtain ⟨v, hv⟩ := h.thread w
    rw [hv]
  have hstack : ∀ w, (s.thread w).stack = [entry w] := by
    intro w
    obtain ⟨v, hv⟩ := h.thread w
    rw [hv]
  obtain ⟨devAddr, sh, v, is, v', hinit⟩ := h.init
  refine ⟨fun w hne => absurd (hpc w) hne, fun w => ?_, ⟨fun _ => false, fun w hw => ?_, ?_, ?_⟩,
    Bank.start (enc28j60Init_synced hinit) hpc⟩
  · simpa [hstack w] using entry_keepsBank w
  · rw [hstack w]
    exact flows_cons.mpr ⟨false, entry_lockFlow hw, rfl⟩
  · rw [hstack .isr]
    exact List.forall_mem_singleton.mpr enc28j60Isr_not_locks
  · simp [h.lock]

/-- In every run after `enc28j60_init` in which the isr thread and the other two threads do not come
into each other's bank selections: when `spi_read` or `spi_write` accesses a banked register, the
chip is in the bank of its address, and `Enc28j60Bank` is the bank of the chip whenever no
`enc28j60_set_bank` is in progress. -/
theorem bank_selected {s0 : Sys} {es : List Event} (hinit : Initial s0)
    (hok : Along step Undisturbed s0 es) (hrun : run step s0 es = some s) :
    (∀ w a, (s.thread w).accesses = some a → IsBanked a → s.shared.chipBank = bankOf a) ∧
      ((∀ w, ¬ (s.thread w).InSetBank) → s.shared.enc28j60Bank = s.shared.chipBank) := by
  have hinv : Inv s := run_invariant_along (fun _ _ _ h hok hs => h.step hok hs) hinit.inv hok hrun
  refine ⟨hinv.bank.access, fun hnone => hinv.bank.synced fun w hsel => hnone w ?_⟩
  exact .inr hsel

/-- The lock keeps the rx and the tx thread apart, whatever the isr thread does. -/
theorem rx_tx_apart {s0 : Sys} {es : List Event} (hinit : Initial s0) (hrun : run step s0 es = some s) :
    (s.thread .rx).target = none ∨ (s.thread .tx).target = none := by
  have hstep : ∀ s e s', (∃ held, Locked s.shared s.thread held) → step s e = some s' →
      ∃ held, Locked s'.shared s'.thread held := by
    rintro s e s' ⟨held, hlocked⟩ hs
    obtain ⟨r, hthread, rfl⟩ := map_eq_some_iff.mp hs
    exact hlocked.step hthread
  obtain ⟨held, hlocked⟩ := run_invariant hstep hinit.inv.locked hrun
  exact or_iff_not_imp_left.mpr (hlocked.target (by decide) (by decide) (by decide))

/-! ## The isr thread between a selection and its access -/

def noLocals : Locals := ⟨0, 0, false, 0, 0, 0, 0, 0, 0, [], []⟩

/-- Every byte that is read is zero, and a packet has one segment. -/
def quietInput : Input := ⟨0, [60]⟩

def beforeInit : Shared × Thread := (⟨0, 0, 1⟩, ⟨[enc28j60Init fun _ => 0], noLocals, .start⟩)

def afterInit : Shared × Thread := endState soloStep beforeInit (List.replicate 171 quietInput)

/-- The threads start after one call of `enc28j60_init`. -/
def started : Sys := ⟨afterInit.1, fun w => ⟨[entry w], noLocals, .start⟩⟩

theorem started_initial : Initial started := by
  have hrun : run soloStep beforeInit (List.replicate 171 quietInput) = some afterInit :=
    run_endState (by decide)
  have hend : afterInit = (started.shared, ⟨[], afterInit.2.locals, .start⟩) := by
    rfl
  exact ⟨⟨_, _, _, _, _, hrun.trans (congrArg some hend)⟩, by decide, fun _ => ⟨_, rfl⟩⟩

/-- `n` steps of one thread. -/
def steps (w : Who) (n : Nat) : List Event := List.replicate n ⟨w, quietInput⟩

/-- A thread does not disturb threads that are between two calls. -/
theorem along_steps {w : Who} {n : Nat} (hpc : ∀ u, u ≠ w → (s.thread u).pc = .start) :
    Along step Undisturbed s (steps w n) := by
  induction n generalizing s with
  | zero => trivial
  | succ n ih =>
    refine ⟨fun u hne _ => ?_, fun s' hs' => ih fun u hu => ?_⟩
    · have hclean := clean_of_start (hpc u hne)
      exact ⟨fun _ => hclean, fun _ _ _ _ => hclean.selecting⟩
    · obtain ⟨⟨sh', th'⟩, -, rfl⟩ := map_eq_some_iff.mp hs'
      simpa [hu] using hpc u hu

/-- The isr thread has read `EPKTCNT` from bank 1, and the rx thread is about to take the lock. -/
def polled : Sys := endState step started (steps .isr 16 ++ steps .rx 4)

theorem run_polled : run step started (steps .isr 16 ++ steps .rx 4) = some polled := run_endState (by decide)

theorem along_polled : Along step Undisturbed started (steps .isr 16 ++ steps .rx 4) := by
  have hisr : run step started (steps .isr 16) = some (endState step started (steps .isr 16)) :=
    run_endState (by decide)
  exact along_append (along_steps fun _ _ => rfl) hisr (along_steps (by rintro (_ | _ | _) <;> decide))

/-- The tx thread has taken the lock and writes the bits of bank 0. -/
def selecting : Sys := endState step polled (steps .tx 9)

/-- The tx thread is about to write `EWRPTL`. -/
def writing : Sys := endState step polled (steps .tx 17)

theorem bank_selected_ewrptl :
    (writing.thread .tx).accesses = some Reg.ewrptl ∧ IsBanked Reg.ewrptl ∧
      writing.shared.chipBank = bankOf Reg.ewrptl := by
  have haccess : (writing.thread .tx).accesses = some Reg.ewrptl := by decide
  have hbanked : IsBanked Reg.ewrptl := by decide
  have hrun : run step polled (steps .tx 17) = some writing := run_endState (by decide)
  have htx : Along step Undisturbed polled (steps .tx 17) := along_steps (by rintro (_ | _ | _) <;> decide)
  have hok := along_append along_polled run_polled htx
  obtain ⟨hselected, -⟩ := bank_selected started_initial hok (run_append.mpr ⟨_, run_polled, hrun⟩)
  exact ⟨haccess, hbanked, hselected .tx Reg.ewrptl haccess hbanked⟩

/-- The rx thread waits for the lock. -/
theorem rx_tx_apart_selecting :
    selecting.shared.lockSem = 0 ∧ (selecting.thread .tx).Selecting ∧
      (step selecting ⟨.rx, quietInput⟩).isNone = true ∧
      ((selecting.thread .rx).target = none ∨ (selecting.thread .tx).target = none) := by
  have hrun : run step polled (steps .tx 9) = some selecting := run_endState (by decide)
  exact ⟨by decide, .inl (by decide), by decide,
    rx_tx_apart started_initial (run_append.mpr ⟨_, run_polled, hrun⟩)⟩

/-- The isr thread has selected bank 1 and is about to read `EPKTCNT`. -/
def selected : Sys := endState step started (steps .isr 15)

/-- The tx thread sends a packet before the isr thread reads the register. -/
def preempted : Sys := endState step selected (steps .tx 50)

/-- The tx thread has released the lock, the isr thread reads `EPKTCNT`, and the chip is in
bank 0. -/
theorem bank_wrong_preempted :
    Initial started ∧ run step started (steps .isr 15 ++ steps .tx 50) = some preempted ∧
      preempted.shared.lockSem = 1 ∧ (preempted.thread .isr).accesses = some Reg.epktcnt ∧
      IsBanked Reg.epktcnt ∧ preempted.shared.chipBank ≠ bankOf Reg.epktcnt := by
  have hisr : run step started (steps .isr 15) = some selected := run_endState (by decide)
  have htx : run step selected (steps .tx 50) = some preempted := run_endState (by decide)
  exact ⟨started_initial, run_append.mpr ⟨selected, hisr, htx⟩, by decide, by decide, by decide,
    by decide⟩

end RtThread.Enc28j60
