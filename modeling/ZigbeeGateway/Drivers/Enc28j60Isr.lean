-- SUMMARY: The end of enc28j60_isr, which polls for ever.
import ZigbeeGateway.Drivers.Enc28j60Rx
import ZigbeeGateway.Lib.Loop

/-!
# Interrupt polling

`enc28j60_isr` on the chip of the receive path. The chip raises no flag of `EIR` during the call, and it
clears the flags that it is told to clear; `LINKIF` is also cleared when `PHIR` is read. A read of a PHY
register is complete when `MISTAT_BUSY` has been seen for some number of times, which is open.

The loop waits for the whole of `EIR` to be zero. Its body clears five of the flags: `RXERIF` and `WOLIF`
are not among them.
-/

namespace RtThread.Enc28j60Isr

open Loop (loop)

open Enc28j60 (addrMask)
open Enc28j60.Reg
open Enc28j60Rx

/-- The number of `PHSTAT2`, `PHIR`. -/
def phstat2 : Byte := 0x11

def phir : Byte := 0x13

/-- The device, the variables of `enc28j60_isr`, for how many reads of `MISTAT` each of the next reads of
the PHY is busy, and how often `eth_device_ready` was called. -/
structure Isr where
  dev : Dev
  eir : Byte
  rxActiviated : Bool
  busy : List Nat
  ready : Nat

namespace Isr

/-- The flags in the chip. -/
def flags (s : Isr) : Byte := s.dev.chip.reg Enc28j60.Reg.eir

/-- `while (spi_read(MISTAT) & MISTAT_BUSY)`, when the PHY is busy for `n` reads. -/
def waitMistat : Nat → Dev → Dev
  | 0, d => (d.spiRead mistat).2
  | n + 1, d => waitMistat n (d.spiRead mistat).2

/-- The chip has read the PHY register that `MIREGADR` names. -/
def phyDone (c : Chip) : Chip :=
  if c.reg miregadr = phir then c.setReg Enc28j60.Reg.eir (c.reg Enc28j60.Reg.eir &&& ~~~0x10) else c

/-- `enc28j60_phy_read`. -/
def enc28j60PhyRead (s : Isr) (address : Byte) : Byte × Isr :=
  let d := s.dev.spiWrite miregadr address
  let d := d.spiWrite micmd 0x01
  let d := waitMistat (s.busy.headD 0) d
  let d := { d with chip := phyDone d.chip }
  let d := d.spiWrite micmd 0x00
  let reg := d.spiRead mirdh
  (reg.1, { s with dev := reg.2, busy := s.busy.tail })

/-- `enc28j60_check_link_status`. Its result is not used. -/
def enc28j60CheckLinkStatus (s : Isr) : Bool × Isr :=
  let reg := s.enc28j60PhyRead phstat2
  (reg.1.setWidth 16 &&& (0x0400 : BitVec 16) ≠ 0, reg.2)

/-- `enc28j60_set_bank(EIR)`, and a flag of `EIR` is cleared. -/
def clearFlag (s : Isr) (flag : Byte) : Isr :=
  { s with dev := (s.dev.enc28j60SetBank Enc28j60.Reg.eir).spiWriteOp .bitFieldClr Enc28j60.Reg.eir flag }

def readEir (s : Isr) : Isr :=
  let eir := s.dev.spiRead Enc28j60.Reg.eir
  { s with dev := eir.2, eir := eir.1 }

/-- The work for received packets. -/
def receive (s : Isr) : Isr :=
  let pkCounter := s.dev.spiRead epktcnt
  if pkCounter.1 ≠ 0 then
    { s with
      dev := (pkCounter.2.enc28j60SetBank eie).spiWriteOp .bitFieldClr eie 0x40
      ready := s.ready + 1 }
  else
    { s with dev := pkCounter.2 }

/-- `if (eir & flag)`. -/
def handle (s : Isr) (flag : Byte) (act : Isr → Isr) : Isr := if s.eir &&& flag ≠ 0 then act s else s

/-- `PKTIF` is set. -/
def packetPending (s : Isr) : Isr := { s.clearFlag 0x40 with rxActiviated := true }

/-- `LINKIF` is set. -/
def linkChanged (s : Isr) : Isr := (s.enc28j60CheckLinkStatus.2.enc28j60PhyRead phir).2.clearFlag 0x10

/-- `TXERIF` is set. Here the bank is not selected. -/
def transmitError (s : Isr) : Isr :=
  { s with dev := s.dev.spiWriteOp .bitFieldClr Enc28j60.Reg.eir 0x02 }

/-- The flags that were read are handled one after the other. -/
def handleAll (s : Isr) : Isr :=
  let s := s.handle 0x40 packetPending
  let s := s.handle 0x20 (clearFlag · 0x20)
  let s := s.handle 0x10 linkChanged
  let s := s.handle 0x08 (clearFlag · 0x08)
  s.handle 0x02 transmitError

/-- The body of the loop of `enc28j60_isr`. -/
def body (s : Isr) : Isr := s.receive.handleAll.readEir

/-- The condition of the loop. -/
def again (s : Isr) : Bool := s.rxActiviated ≠ true ∧ s.eir ≠ 0

/-- `enc28j60_isr`, if it leaves its loop after at most `fuel` rounds behind the first one. -/
def enc28j60Isr (s : Isr) (fuel : Nat) : Option Isr :=
  let s := { s with rxActiviated := false }.readEir
  loop again (fun s => some s.body) fuel s.body

end Isr

/-! ## Accesses that leave the flags alone -/

section Accesses

open Enc28j60.Reg (eir)

/-- An access reaches a register with the number in its address. -/
theorem target_number (c : Chip) (address : Byte) : c.target address &&& addrMask = address &&& addrMask := by
  have hbank : ∀ x : Byte, (x &&& 3) <<< 5 &&& addrMask = 0 := by decide
  have hor : ∀ b x : Byte, b &&& addrMask = 0 → (b ||| x) &&& addrMask = x &&& addrMask := by
    intro b x hb
    rw [BitVec.and_comm, BitVec.and_or_distrib_left, BitVec.and_comm, hb, BitVec.and_comm addrMask x]
    exact BitVec.zero_or
  unfold Chip.target
  split
  · rw [Chip.bank, hor _ _ (hbank _), BitVec.and_assoc, BitVec.and_self]
  · rw [BitVec.and_assoc, BitVec.and_self]

theorem writeReg_eir (c : Chip) (data : Byte) {r : Byte} (hr : r ≠ eir) :
    (c.writeReg r data).reg eir = c.reg eir := by
  unfold Chip.writeReg
  split_ifs with hecon2
  · rw [Chip.pktdec_reg _ (by decide), Chip.setReg_of_ne _ _ hr.symm]
  · exact Chip.setReg_of_ne _ _ hr.symm
  · rfl
  · rw [Chip.setReg_of_ne _ _ hr.symm, Chip.setReg_of_ne _ _ (by decide)]
  · rfl
  · exact Chip.setReg_of_ne _ _ hr.symm

theorem spiWriteOp_eir (d : Dev) (op : WriteOp) (data : Byte) {address : Byte}
    (haddress : address &&& addrMask ≠ eir) :
    (d.spiWriteOp op address data).chip.reg eir = d.chip.reg eir := by
  have htarget : d.arrivals.chip.target address ≠ eir := by
    intro heq
    have hnumber := target_number d.arrivals.chip address
    rw [heq] at hnumber
    exact haddress hnumber.symm
  exact (writeReg_eir _ _ htarget).trans (arrivals_reg d (by decide))

theorem enc28j60SetBank_eir (d : Dev) (address : Byte) :
    (d.enc28j60SetBank address).chip.reg eir = d.chip.reg eir := by
  unfold Dev.enc28j60SetBank
  split
  · have hecon1 : econ1 &&& addrMask ≠ eir := by decide
    exact (spiWriteOp_eir _ _ _ hecon1).trans (spiWriteOp_eir _ _ _ hecon1)
  · rfl

theorem spiRead_eir (d : Dev) (address : Byte) : (d.spiRead address).2.chip.reg eir = d.chip.reg eir :=
  (arrivals_reg _ (by decide)).trans (enc28j60SetBank_eir d address)

theorem spiWrite_eir (d : Dev) (data : Byte) {address : Byte} (haddress : address &&& addrMask ≠ eir) :
    (d.spiWrite address data).chip.reg eir = d.chip.reg eir :=
  (spiWriteOp_eir _ _ _ haddress).trans (enc28j60SetBank_eir d address)

theorem clearBits_eir (d : Dev) (bits : Byte) :
    (d.spiWriteOp .bitFieldClr eir bits).chip.reg eir = d.chip.reg eir &&& ~~~bits := by
  rw [spiWriteOp_common d .bitFieldClr bits (by decide) (show eir &&& addrMask = eir by decide) (by decide),
    arrivals_reg d (by decide)]
  exact Chip.setReg_same ..

theorem waitMistat_eir (n : Nat) (d : Dev) : (Isr.waitMistat n d).chip.reg eir = d.chip.reg eir := by
  induction n generalizing d with
  | zero => exact spiRead_eir d mistat
  | succ n ih => exact (ih _).trans (spiRead_eir d mistat)

end Accesses

/-! ## A round of the loop -/

namespace Isr

/-- A part of the body clears the flags `bits` and keeps the variables. -/
structure Clears (s s' : Isr) (bits : Byte) : Prop where
  flags : s'.flags = s.flags &&& ~~~bits
  eir : s'.eir = s.eir

variable {s s' s'' : Isr} {bits bits' : Byte}

theorem Clears.trans (h : Clears s s' bits) (h' : Clears s' s'' bits') : Clears s s'' (bits ||| bits') :=
  ⟨by rw [h'.flags, h.flags, BitVec.not_or, BitVec.and_assoc], h'.eir.trans h.eir⟩

theorem Clears.none (hflags : s'.flags = s.flags) (heir : s'.eir = s.eir) : Clears s s' 0 :=
  ⟨by rw [hflags, show ~~~(0 : Byte) = BitVec.allOnes 8 by decide, BitVec.and_allOnes], heir⟩

theorem clearFlag_clears (s : Isr) (flag : Byte) : Clears s (s.clearFlag flag) flag :=
  ⟨(clearBits_eir _ _).trans (congrArg (· &&& ~~~flag) (enc28j60SetBank_eir ..)), rfl⟩

theorem receive_clears (s : Isr) : Clears s s.receive 0 := by
  unfold receive
  dsimp only
  split
  · have heie : eie &&& addrMask ≠ Enc28j60.Reg.eir := by decide
    exact .none ((spiWriteOp_eir _ _ _ heie).trans ((enc28j60SetBank_eir ..).trans (spiRead_eir ..))) rfl
  · exact .none (spiRead_eir ..) rfl

/-- A read of the PHY clears `LINKIF` or no flag. -/
theorem enc28j60PhyRead_clears (s : Isr) (address : Byte) :
    ∃ bits, (bits = 0 ∨ bits = 0x10) ∧ Clears s (s.enc28j60PhyRead address).2 bits := by
  have hmiregadr : miregadr &&& addrMask ≠ Enc28j60.Reg.eir := by decide
  have hmicmd : micmd &&& addrMask ≠ Enc28j60.Reg.eir := by decide
  obtain ⟨d, hd⟩ : ∃ d, d = waitMistat (s.busy.headD 0) ((s.dev.spiWrite miregadr address).spiWrite micmd 1) :=
    ⟨_, rfl⟩
  have hbefore : d.chip.reg Enc28j60.Reg.eir = s.flags := by
    rw [hd, waitMistat_eir, spiWrite_eir _ _ hmicmd, spiWrite_eir _ _ hmiregadr, flags]
  have hafter : (s.enc28j60PhyRead address).2.flags = (phyDone d.chip).reg Enc28j60.Reg.eir := by
    rw [hd]
    exact (spiRead_eir ..).trans (spiWrite_eir _ _ hmicmd)
  by_cases hphir : d.chip.reg miregadr = phir
  · refine ⟨0x10, .inr rfl, ?_, rfl⟩
    rw [hafter, phyDone, if_pos hphir, Chip.setReg_same, hbefore]
  · refine ⟨0, .inl rfl, .none ?_ rfl⟩
    rw [hafter, phyDone, if_neg hphir, hbefore]

theorem linkChanged_clears (s : Isr) : Clears s s.linkChanged 0x10 := by
  obtain ⟨bits, hbits, hstat⟩ := s.enc28j60PhyRead_clears phstat2
  obtain ⟨bits', hbits', hphir⟩ := s.enc28j60CheckLinkStatus.2.enc28j60PhyRead_clears phir
  have hall : bits ||| bits' ||| 0x10 = 0x10 := by
    rcases hbits with rfl | rfl <;> rcases hbits' with rfl | rfl <;> rfl
  exact hall ▸ (hstat.trans hphir).trans (clearFlag_clears ..)

/-- A flag is handled when it was read. -/
theorem Clears.handle (h : Clears s s' bits) (flag : Byte) (act : Isr → Isr)
    (hact : ∀ s, Clears s (act s) flag) (hflag : ∀ x : Byte, x &&& flag ≠ 0 → x &&& flag = flag) :
    Clears s (s'.handle flag act) (bits ||| s.eir &&& flag) := by
  rw [← h.eir]
  refine h.trans ?_
  unfold Isr.handle
  split
  next hset => exact (hflag _ hset).symm ▸ hact s'
  next hclear => exact (not_not.mp hclear).symm ▸ .none rfl rfl

/-- The flags that the body handles. -/
def handled : Byte := 0x7A

theorem handle_rxActiviated (s : Isr) (flag : Byte) (act : Isr → Isr)
    (h : ∀ s, (act s).rxActiviated = s.rxActiviated) : (s.handle flag act).rxActiviated = s.rxActiviated := by
  unfold handle
  split
  · exact h s
  · rfl

theorem receive_rxActiviated (s : Isr) : s.receive.rxActiviated = s.rxActiviated := by
  unfold receive
  dsimp only
  split <;> rfl

theorem readEir_spec (s : Isr) :
    s.readEir.flags = s.flags ∧ s.readEir.eir = s.flags ∧ s.readEir.rxActiviated = s.rxActiviated := by
  have hread : (s.dev.spiRead Enc28j60.Reg.eir).1 = (s.dev.spiRead Enc28j60.Reg.eir).2.chip.reg Enc28j60.Reg.eir :=
    congrArg _ (target_common _ (by decide))
  exact ⟨spiRead_eir .., hread.trans (spiRead_eir ..), rfl⟩

theorem handleAll_clears (h : Clears s s' 0) : Clears s s'.handleAll (s.eir &&& handled) := by
  have hall := ((((h.handle 0x40 packetPending (fun s => ⟨(s.clearFlag_clears 0x40).flags, rfl⟩)
    (by decide)).handle 0x20 _ (clearFlag_clears · 0x20) (by decide)).handle 0x10 _ linkChanged_clears
    (by decide)).handle 0x08 _ (clearFlag_clears · 0x08) (by decide)).handle 0x02 transmitError
    (fun s => ⟨clearBits_eir s.dev 0x02, rfl⟩) (by decide)
  have hbits : ∀ x : Byte, 0 ||| x &&& 0x40 ||| x &&& 0x20 ||| x &&& 0x10 ||| x &&& 0x08 ||| x &&& 0x02 =
      x &&& handled := by decide
  rwa [hbits] at hall

theorem handleAll_rxActiviated (s : Isr) :
    s.handleAll.rxActiviated = (s.rxActiviated || s.eir &&& 0x40 ≠ 0) := by
  unfold handleAll
  rw [handle_rxActiviated _ 0x02 transmitError fun _ => rfl,
    handle_rxActiviated _ 0x08 (clearFlag · 0x08) fun _ => rfl,
    handle_rxActiviated _ 0x10 linkChanged fun _ => rfl,
    handle_rxActiviated _ 0x20 (clearFlag · 0x20) fun _ => rfl, handle]
  split
  next hset => rw [decide_eq_true hset, Bool.or_true, packetPending]
  next hclear => rw [decide_eq_false hclear, Bool.or_false]

/-- What a round leaves of the flags that it has read. -/
theorem body_spec (s : Isr) :
    s.body.flags = s.flags &&& ~~~(s.eir &&& handled) ∧ s.body.eir = s.body.flags ∧
      s.body.rxActiviated = (s.rxActiviated || s.eir &&& 0x40 ≠ 0) := by
  have hclears := handleAll_clears s.receive_clears
  obtain ⟨hflags, heir, hrx⟩ := readEir_spec s.receive.handleAll
  refine ⟨hflags.trans hclears.flags, heir.trans hflags.symm, ?_⟩
  rw [body, hrx, handleAll_rxActiviated, receive_rxActiviated, s.receive_clears.eir]

/-! ## The loop -/

/-- The flags that the body does not handle are left, and no packet ends the loop. -/
structure Stuck (s : Isr) : Prop where
  rxActiviated : s.rxActiviated = false
  eir : s.eir = s.flags
  set : s.flags ≠ 0
  unhandled : s.flags &&& handled = 0

theorem Stuck.again (h : Stuck s) : s.again = true := by
  refine decide_eq_true ⟨?_, h.eir ▸ h.set⟩
  rw [h.rxActiviated]
  decide

theorem Stuck.body (h : Stuck s) : Stuck s.body := by
  obtain ⟨hflags, heir, hrx⟩ := s.body_spec
  have hnone : ∀ x : Byte, x &&& handled = 0 → x &&& 0x40 = 0 := by decide
  have hkeep : s.body.flags = s.flags := by
    rw [hflags, h.eir, h.unhandled]
    exact BitVec.and_allOnes
  refine ⟨?_, heir, hkeep ▸ h.set, hkeep ▸ h.unhandled⟩
  rw [hrx, h.rxActiviated, h.eir, hnone _ h.unhandled]
  rfl

theorem Stuck.loop (h : Stuck s) (fuel : Nat) : loop Isr.again (fun s => some s.body) fuel s = none := by
  refine Loop.loop_spins (I := Stuck) (fun _ hstuck => hstuck.again) (fun s s' hstuck hbody => ?_) h fuel
  obtain rfl : s.body = s' := Option.some.inj hbody
  exact hstuck.body

/-- The first round, which reads all the flags. -/
theorem first_round (s : Isr) :
    ∃ s1 : Isr, (∀ fuel, s.enc28j60Isr fuel = loop again (fun s => some s.body) fuel s1) ∧
      s1.flags = s.flags &&& ~~~handled ∧ s1.eir = s1.flags ∧
      (s1.rxActiviated = true ↔ s.flags &&& 0x40 ≠ 0) := by
  obtain ⟨hflags0, heir0, hrx0⟩ := readEir_spec { s with rxActiviated := false }
  obtain ⟨hflags, heir, hrx⟩ := body_spec (readEir { s with rxActiviated := false })
  have hclear : ∀ x : Byte, x &&& ~~~(x &&& handled) = x &&& ~~~handled := by decide
  refine ⟨_, fun _ => rfl, ?_, heir, ?_⟩
  · rw [hflags, hflags0, heir0, hclear]
    rfl
  · rw [hrx, hrx0, heir0, Bool.false_or, decide_eq_true_iff]
    rfl

/-- With no new flags, `enc28j60_isr` leaves its loop if and only if `PKTIF` is set, or no flag is set but
those that the body handles: neither `RXERIF` nor `WOLIF`, nor bit 7. -/
theorem isr_returns_iff (s : Isr) :
    (∃ fuel s', s.enc28j60Isr fuel = some s') ↔ s.flags &&& 0x40 ≠ 0 ∨ s.flags &&& 0x85 = 0 := by
  obtain ⟨s1, hloop, hflags, heir, hrx⟩ := s.first_round
  have hleft : ∀ x : Byte, x &&& ~~~handled = x &&& 0x85 := by decide
  have hunhandled : ∀ x : Byte, x &&& 0x85 &&& handled = 0 := by decide
  rw [hleft] at hflags
  constructor
  · rintro ⟨fuel, s', hsome⟩
    by_contra hnot
    rw [not_or, not_not] at hnot
    have hstuck : Stuck s1 := by
      refine ⟨?_, heir, ?_, ?_⟩
      · rw [← Bool.not_eq_true, hrx]
        exact not_not.mpr hnot.1
      · exact hflags ▸ hnot.2
      · rw [hflags, hunhandled]
    rw [hloop, hstuck.loop] at hsome
    cases hsome
  · intro hends
    have hstop : s1.again = false := by
      unfold again
      rw [decide_eq_false_iff_not]
      rintro ⟨hinactive, hne⟩
      rcases hends with hpkt | hzero
      · exact hinactive (hrx.mpr hpkt)
      · exact hne (heir.trans (hflags.trans hzero))
    exact ⟨0, s1, by rw [hloop, loop, hstop]; rfl⟩

/-- The receive buffer was full once: `RXERIF` is set, and no packet waits. -/
def receiveError : Isr where
  dev := { bootDev with chip := bootDev.chip.setReg Enc28j60.Reg.eir 0x01 }
  eir := 0
  rxActiviated := false
  busy := []
  ready := 0

/-- `RXERIF` is read in every round and never cleared. -/
theorem isr_never_returns : receiveError.flags = 0x01 ∧ ∀ fuel, receiveError.enc28j60Isr fuel = none := by
  obtain ⟨s1, hloop, hflags, heir, hrx⟩ := receiveError.first_round
  have hone : receiveError.flags = 0x01 := rfl
  have hstuck : Stuck s1 := by
    refine ⟨by rw [← Bool.not_eq_true, hrx]; decide, heir, ?_, ?_⟩ <;> rw [hflags] <;> decide
  exact ⟨hone, fun fuel => (hloop fuel).trans (hstuck.loop fuel)⟩

end Isr

end RtThread.Enc28j60Isr
