-- SUMMARY: What holds when enc28j60_rx returns RT_NULL.
import ZigbeeGateway.Drivers.Enc28j60Rx

/-!
# The end of a receive loop

`eth_rx_thread_entry` calls `enc28j60_rx` until it returns `RT_NULL` and then waits for a message, which
`enc28j60_isr` sends when the packet interrupt is enabled. A call that finds `EPKTCNT` at zero enables
`PKTIE` again. A call that takes a packet with a bad status word, or gets no pbuf for it, returns `RT_NULL`
as well, and leaves `PKTIE` as `enc28j60_isr` left it.
-/

namespace RtThread.Enc28j60Rx

open Run Word

open Enc28j60.Reg

variable {d : Dev} {air : List (List Packet)} {pbufAlloc : PbufAlloc}

/-- The read of `EPKTCNT` in a call during which the packets `air` arrive, and the state after it. -/
def Dev.readCounter (d : Dev) (air : List (List Packet)) : Byte × Dev :=
  { d with air := air }.enc28j60InterruptDisable.2.spiRead epktcnt

/-- The call returns `RT_NULL` only if it has read zero from `EPKTCNT` and leaves `PKTIE` enabled. -/
def Rearms (d : Dev) (air : List (List Packet)) (pbufAlloc : PbufAlloc) : Prop :=
  (d.call air pbufAlloc).1 = none →
    (d.readCounter air).1 = 0 ∧ (d.call air pbufAlloc).2.chip.reg eie &&& 0x40 ≠ 0

/-- If there is a packet when the call reads `EPKTCNT`, then the oldest one was received well and
`pbuf_alloc` gives a chain for its frame. -/
def Delivers (d : Dev) (air : List (List Packet)) (pbufAlloc : PbufAlloc) : Prop :=
  ∀ p, (d.readCounter air).2.chip.stored[(d.readCounter air).2.chip.pktdecs]? = some p →
    p.status.toNat &&& 0x80 ≠ 0 ∧ pbufAlloc.segments p.frame.length ≠ none

/-- `enc28j60_interrupt_enable` sets the bits of the level. -/
theorem enc28j60InterruptEnable_pktie (d : Dev) (level : Byte) :
    (d.enc28j60InterruptEnable (level ||| 0x40)).chip.reg eie &&& 0x40 ≠ 0 := by
  have hbit : ∀ x y : Byte, (x ||| (y ||| 0x40)) &&& 0x40 = 0x40 := by
    intro x y
    rw [← BitVec.or_assoc, BitVec.and_or_distrib_right, BitVec.and_self]
    apply BitVec.eq_of_getLsbD_eq
    intro i _
    simp
  unfold Dev.enc28j60InterruptEnable
  rw [spiWriteOp_common _ _ _ (by decide) (show eie &&& Enc28j60.addrMask = eie by decide) (by decide)]
  rw [Chip.setReg_same, WriteOp.apply, hbit]
  decide

/-- The packets in the ring when a call reads `EPKTCNT`. -/
theorem Ready.readCounter (h : Ready d) (air : List (List Packet)) :
    ∃ ps v, At (d.readCounter air).2 d.nextPacketPtr 0 ps v ∧ v.nextPacketPtr = d.nextPacketPtr ∧
      (d.readCounter air).1.toNat = ps.length ∧
      (d.readCounter air).2.chip.stored[(d.readCounter air).2.chip.pktdecs]? = ps.head? := by
  have hat := At.framed.enc28j60InterruptDisable (h.at_call air)
  have hread : At (d.readCounter air).2 _ _ _ _ := At.framed.spiRead hat epktcnt
  have hcounter : (d.readCounter air).1 = (d.readCounter air).2.chip.reg epktcnt := hat.spiRead_epktcnt
  obtain ⟨more, hholds⟩ := hread.holds
  refine ⟨_, _, ⟨⟨⟨[], by rwa [List.append_nil]⟩, hread.view⟩, hread.bank⟩, rfl, ?_, ?_⟩
  · rw [hcounter, hholds.count, Nat.add_zero]
  · obtain ⟨taken, htaken, hlength⟩ := hholds.stored
    rw [htaken, List.getElem?_append_right (by omega), hlength, Nat.add_zero, Nat.sub_self,
      List.head?_eq_getElem?]

/-- Whatever packets arrived, whatever was made of them, and whatever arrives during the call: it returns
`RT_NULL` only with an empty ring and `PKTIE` enabled if and only if the packet that it takes, if there
is one, was received well and gets its pbuf. -/
theorem rx_rearms_iff {d0 : Dev} {es : List Event} (hinit : Initial d0)
    (hother : Along step Undisturbed d0 es) (hrun : run step d0 es = some d)
    (air : List (List Packet)) (pbufAlloc : PbufAlloc) :
    Rearms d air pbufAlloc ↔ Delivers d air pbufAlloc := by
  have hready : Ready d :=
    run_invariant_along (fun _ _ _ hready hother hstep => hready.step hother hstep)
      (Ready.initial hinit) hother hrun
  obtain ⟨ps, v, hat, hstart, hcount, holdest⟩ := hready.readCounter air
  unfold Rearms Delivers
  rw [holdest]
  cases ps with
  | nil =>
    have hzero : (d.readCounter air).1 = 0 := BitVec.eq_of_toNat_eq hcount
    have hcall : d.call air pbufAlloc = _ := if_neg (not_not.mpr hzero)
    refine iff_of_true (fun _ => ⟨hzero, ?_⟩) nofun
    rw [hcall]
    exact enc28j60InterruptEnable_pktie _ _
  | cons p rest =>
    have hne : (d.readCounter air).1 ≠ 0 := by
      intro hzero
      rw [hzero] at hcount
      cases hcount
    have htakes : d.call air pbufAlloc = _ := if_pos hne
    have hcall : (d.call air pbufAlloc).1 = ((d.readCounter air).2.rxPacket pbufAlloc).1 := by
      rw [htakes]
      rfl
    obtain ⟨-, hreturns⟩ := hat.rxPacket pbufAlloc hstart
    rw [hcall]
    simp only [List.head?_cons, Option.some.injEq, hne, false_and, imp_false, forall_eq']
    generalize ((d.readCounter air).2.rxPacket pbufAlloc).1 = r at hreturns
    cases hreturns with
    | invalid hbad => simp [hbad]
    | noMemory hgood hnone => simp [hnone]
    | frame hgood hsome => simp [hgood, hsome]

/-- A packet has arrived and was taken. -/
def drained : Dev := endState step bootDev [.arrive shortPacket, .rx [] onePbuf]

/-- The ring is empty when the next call reads `EPKTCNT`; a packet that arrives after that does not
matter. -/
theorem rx_rearms_drained :
    drained.chip.pktdecs = 1 ∧ (drained.readCounter [[], [], [], [], [], [shortPacket]]).1 = 0 ∧
      Rearms drained [[], [], [], [], [], [shortPacket]] onePbuf := by
  have hother : Along step Undisturbed bootDev [.arrive shortPacket, .rx [] onePbuf] :=
    ⟨trivial, fun _ _ => ⟨trivial, fun _ _ => trivial⟩⟩
  refine ⟨by decide +kernel, by decide +kernel, (rx_rearms_iff initial_bootDev hother rfl _ _).mpr ?_⟩
  intro p hp
  exact absurd (Option.isSome_iff_exists.mpr ⟨p, hp⟩) (by decide +kernel)

/-- A packet whose status word says that it was not received well. -/
def badPacket : Packet := { shortPacket with status := 0 }

/-- The bad packet and a good one are stored. The call reads 2 from `EPKTCNT` and returns `RT_NULL`; the
good packet stays in the ring, and `PKTIE` is not enabled. -/
theorem rx_stops_with_stored_packet :
    ∃ d, run step bootDev [.arrive badPacket, .arrive shortPacket] = some d ∧
      (d.call [] onePbuf).1 = none ∧ (d.readCounter []).1 = 2 ∧
      (d.call [] onePbuf).2.chip.reg epktcnt = 1 ∧
      (d.call [] onePbuf).2.chip.reg eie &&& 0x40 = 0 := by
  refine ⟨_, rfl, ?_, ?_, ?_, ?_⟩ <;> decide +kernel

end RtThread.Enc28j60Rx
