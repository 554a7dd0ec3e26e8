-- SUMMARY: enc28j60_rx on a chip that stores packets in its ring.
import ZigbeeGateway.Drivers.Enc28j60
import ZigbeeGateway.Lib.Ring
import ZigbeeGateway.Lib.Word

/-!
# Receiving packets

`enc28j60_rx` with a chip behind the SPI bus. The chip has its register banks, its packet memory and
its receive hardware, which writes each packet behind the one before: the address of the next packet,
the byte count, the status word, and the bytes of the frame with its checksum. The receive hardware
works at any time, so packets may arrive before every SPI operation and every byte of it. Nobody else
uses the chip during a call; what the other driver functions do between two calls is left open.
-/

namespace RtThread.Enc28j60Rx

open Run Word

open Enc28j60 (addrMask bankMask bankOf IsBanked)
open Enc28j60.Reg

abbrev Byte := BitVec 8

/-! ## The chip -/

/-- The number of bytes from `RXSTART_INIT` to `RXSTOP_INIT`. -/
def rxRing : Nat := 0x19FF

/-- What the chip stores of a frame: its status word, its bytes with the four of the checksum, and
the bytes that it skips to align the next packet. -/
structure Packet where
  status : BitVec 16
  data : List Byte
  pad : List Byte
  four_le : 4 ≤ data.length

/-- A word in memory, the low byte first. -/
def wordBytes (n : Nat) : List Byte := [BitVec.ofNat 8 n, BitVec.ofNat 8 (n / 256)]

namespace Packet

def size (p : Packet) : Nat := 6 + p.data.length + p.pad.length

/-- The address behind a packet. -/
def next (p : Packet) (start : Nat) : Nat := (start + p.size) % rxRing

/-- The bytes of a packet at the address `start`. -/
def bytes (p : Packet) (start : Nat) : List Byte :=
  wordBytes (p.next start) ++ wordBytes p.data.length ++ wordBytes p.status.toNat ++ p.data ++ p.pad

end Packet

/-- The registers by bank and number, the buffered write to `ERXRDPTL` and the packet memory; and the
history: the packets that were stored and the number of the `PKTDEC` commands. -/
structure Chip where
  reg : Byte → Byte
  erxrdptlBuffer : Byte
  mem : Nat → Byte
  stored : List Packet
  pktdecs : Nat

namespace Chip

/-- The bank that `ECON1` selects, at the place it has in an address. -/
def bank (c : Chip) : Byte := (c.reg econ1 &&& 3) <<< 5

/-- The register that an access reaches. -/
def target (c : Chip) (address : Byte) : Byte :=
  if IsBanked address then c.bank ||| (address &&& addrMask) else address &&& addrMask

/-- The value of two registers, the low one first. -/
def word (c : Chip) (low : Byte) : Nat := (c.reg low).toNat + 256 * (c.reg (low + 1)).toNat

def setReg (c : Chip) (r data : Byte) : Chip := { c with reg := Function.update c.reg r data }

def setWord (c : Chip) (low : Byte) (n : Nat) : Chip :=
  (c.setReg low (BitVec.ofNat 8 n)).setReg (low + 1) (BitVec.ofNat 8 (n / 256))

def pktdec (c : Chip) : Chip :=
  { c.setReg epktcnt (c.reg epktcnt - 1) with pktdecs := c.pktdecs + 1 }

/-- A write to a register. `PKTDEC` clears itself, `ERXRDPT` changes with its high byte, and the
packet counter and `ERXWRPT` are read-only. -/
def writeReg (c : Chip) (r data : Byte) : Chip :=
  if r = econ2 then
    let c := c.setReg r (data &&& 0xBF)
    if data &&& 0x40 ≠ 0 then c.pktdec else c
  else if r = erxrdptl then
    { c with erxrdptlBuffer := data }
  else if r = erxrdpth then
    (c.setReg erxrdptl c.erxrdptlBuffer).setReg r data
  else if r = epktcnt ∨ r = erxwrptl ∨ r = erxwrpth then
    c
  else
    c.setReg r data

/-- The byte at `ERDPT`, which is increased when `AUTOINC` is set. -/
def readBuf (c : Chip) : Byte × Chip :=
  let erdpt := c.word erdptl
  let next := if erdpt = c.word erxndl then c.word erxstl else (erdpt + 1) % 8192
  (c.mem erdpt, if c.reg econ2 &&& 0x80 ≠ 0 then c.setWord erdptl next else c)

/-- The free space of the receive buffer. -/
def freeSpace (c : Chip) : Nat :=
  let span := c.word erxndl - c.word erxstl
  let wrpt := c.word erxwrptl
  let rdpt := c.word erxrdptl
  if rdpt < wrpt then span - (wrpt - rdpt)
  else if wrpt = rdpt then span
  else rdpt - wrpt - 1

/-- A packet is stored, or dropped when there is no room for it or the packet counter is at its
limit. -/
def receive (c : Chip) (p : Packet) : Chip :=
  if p.size ≤ c.freeSpace ∧ c.reg epktcnt ≠ 255 then
    let wrpt := c.word erxwrptl
    let c := { c with mem := Ring.fill c.mem rxRing wrpt (p.bytes wrpt), stored := c.stored ++ [p] }
    (c.setWord erxwrptl (p.next wrpt)).setReg epktcnt (c.reg epktcnt + 1)
  else
    c

end Chip

/-! ## The driver -/

/-- The chip, the variables of the driver, and the packets that arrive before each of the next
accesses to the chip. -/
structure Dev where
  chip : Chip
  enc28j60Bank : Byte
  nextPacketPtr : Nat
  air : List (List Packet)

/-- What `pbuf_alloc` returns for a length: nothing, or the lengths of a chain. -/
structure PbufAlloc where
  segments : Nat → Option (List Nat)
  sum_eq : ∀ {n l}, segments n = some l → l.sum = n

inductive WriteOp where
  | writeCtrlReg
  | bitFieldSet
  | bitFieldClr
  deriving DecidableEq, Repr

/-- The new value of a register. -/
def WriteOp.apply (op : WriteOp) (old data : Byte) : Byte :=
  match op with
  | .writeCtrlReg => data
  | .bitFieldSet => old ||| data
  | .bitFieldClr => old &&& ~~~data

namespace Dev

/-- The packets that arrive before an access. -/
def arrivals (d : Dev) : Dev :=
  match d.air with
  | [] => d
  | ps :: air => { d with chip := ps.foldl Chip.receive d.chip, air := air }

/-- `spi_read_op` with `ENC28J60_READ_CTRL_REG`. -/
def spiReadOp (d : Dev) (address : Byte) : Byte × Dev :=
  let d := d.arrivals
  (d.chip.reg (d.chip.target address), d)

/-- A byte that is read with `ENC28J60_READ_BUF_MEM`. -/
def readBufMem (d : Dev) : Byte × Dev :=
  let d := d.arrivals
  (d.chip.readBuf.1, { d with chip := d.chip.readBuf.2 })

/-- `spi_write_op`. -/
def spiWriteOp (d : Dev) (op : WriteOp) (address data : Byte) : Dev :=
  let d := d.arrivals
  let r := d.chip.target address
  { d with chip := d.chip.writeReg r (op.apply (d.chip.reg r) data) }

/-- `enc28j60_set_bank`. -/
def enc28j60SetBank (d : Dev) (address : Byte) : Dev :=
  if address &&& bankMask ≠ d.enc28j60Bank then
    let d := d.spiWriteOp .bitFieldClr econ1 3
    let d := d.spiWriteOp .bitFieldSet econ1 ((address &&& bankMask) >>> 5)
    { d with enc28j60Bank := address &&& bankMask }
  else
    d

/-- `spi_read`. -/
def spiRead (d : Dev) (address : Byte) : Byte × Dev := (d.enc28j60SetBank address).spiReadOp address

/-- `spi_write`. -/
def spiWrite (d : Dev) (address data : Byte) : Dev :=
  (d.enc28j60SetBank address).spiWriteOp .writeCtrlReg address data

/-- `enc28j60_interrupt_disable`. -/
def enc28j60InterruptDisable (d : Dev) : Byte × Dev :=
  let level := (d.enc28j60SetBank eie).spiRead eie
  (level.1, level.2.spiWriteOp .bitFieldClr eie level.1)

/-- `enc28j60_interrupt_enable`. -/
def enc28j60InterruptEnable (d : Dev) (level : Byte) : Dev :=
  (d.enc28j60SetBank eie).spiWriteOp .bitFieldSet eie level

/-- Two bytes of the packet memory, put together with `|` and `<<`. -/
def readWord (d : Dev) : Nat × Dev :=
  let low := d.readBufMem
  let high := low.2.readBufMem
  (low.1.toNat ||| high.1.toNat <<< 8, high.2)

/-- The loop over the bytes of a pbuf. -/
def readData : Nat → Dev → List Byte × Dev
  | 0, d => ([], d)
  | len + 1, d =>
    let byte := d.readBufMem
    let rest := readData len byte.2
    (byte.1 :: rest.1, rest.2)

/-- The loop over the pbufs of a chain. -/
def readChain : List Nat → Dev → List (List Byte) × Dev
  | [], d => ([], d)
  | len :: lens, d =>
    let data := readData len d
    let rest := readChain lens data.2
    (data.1 :: rest.1, rest.2)

/-- The pbuf chain is filled, if there is one. -/
def fillPbuf (d : Dev) : Option (List Nat) → Option (List (List Byte)) × Dev
  | none => (none, d)
  | some lens => (some (readChain lens d).1, (readChain lens d).2)

/-- The frame is read when its status word says that it was received well. -/
def rxFrame (d : Dev) (pbufAlloc : PbufAlloc) (rxstat len : Nat) : Option (List (List Byte)) × Dev :=
  if rxstat &&& 0x80 = 0 then (none, d) else d.fillPbuf (pbufAlloc.segments (len % 65536))

/-- The part of `enc28j60_rx` for a packet counter above zero. -/
def rxPacket (d : Dev) (pbufAlloc : PbufAlloc) : Option (List (List Byte)) × Dev :=
  let d := d.spiWrite erdptl (BitVec.ofNat 8 d.nextPacketPtr)
  let d := d.spiWrite erdpth (BitVec.ofNat 8 (d.nextPacketPtr / 256))
  let next := d.readWord
  let d := { next.2 with nextPacketPtr := next.1 }
  let count := d.readWord
  let len := sub32 count.1 4
  let rxstat := count.2.readWord
  let p := rxstat.2.rxFrame pbufAlloc rxstat.1 len
  let d := p.2.spiWrite erxrdptl (BitVec.ofNat 8 p.2.nextPacketPtr)
  let d := d.spiWrite erxrdpth (BitVec.ofNat 8 (d.nextPacketPtr / 256))
  (p.1, d.spiWriteOp .bitFieldSet econ2 0x40)

/-- `enc28j60_rx`, when `lock_sem` is free. -/
def enc28j60Rx (d : Dev) (pbufAlloc : PbufAlloc) : Option (List (List Byte)) × Dev :=
  let level := d.enc28j60InterruptDisable
  let pkCounter := level.2.spiRead epktcnt
  if pkCounter.1 ≠ 0 then
    let p := pkCounter.2.rxPacket pbufAlloc
    (p.1, p.2.enc28j60InterruptEnable level.1)
  else
    let d := pkCounter.2.enc28j60SetBank econ1
    let d := d.spiWriteOp .bitFieldSet econ1 0x04
    (none, d.enc28j60InterruptEnable (level.1 ||| 0x40))

end Dev

/-! ## Registers -/

namespace Chip

variable {c c' : Chip} {r low data : Byte} {n : Nat}

@[simp] theorem setReg_same (c : Chip) (r data : Byte) : (c.setReg r data).reg r = data :=
  Function.update_self ..

theorem setReg_of_ne (c : Chip) (data : Byte) {r r' : Byte} (h : r' ≠ r) :
    (c.setReg r data).reg r' = c.reg r' :=
  Function.update_of_ne h ..

theorem setReg_mem (c : Chip) (r data : Byte) : (c.setReg r data).mem = c.mem := rfl

theorem setWord_mem (c : Chip) (low : Byte) (n : Nat) : (c.setWord low n).mem = c.mem := rfl

theorem word_congr (hlow : c'.reg low = c.reg low) (hhigh : c'.reg (low + 1) = c.reg (low + 1)) :
    c'.word low = c.word low := by
  rw [word, hlow, hhigh, word]

theorem word_setReg (c : Chip) (data : Byte) (h : low ≠ r) (h' : low + 1 ≠ r) :
    (c.setReg r data).word low = c.word low :=
  word_congr (setReg_of_ne c data h) (setReg_of_ne c data h')

theorem word_setWord (c : Chip) (hlow : low ≠ low + 1) (hn : n < 65536) :
    (c.setWord low n).word low = n := by
  rw [word, setWord, setReg_same, setReg_of_ne _ _ hlow, setReg_same, BitVec.toNat_ofNat,
    BitVec.toNat_ofNat]
  omega

theorem setWord_of_ne (c : Chip) (n : Nat) (h : r ≠ low) (h' : r ≠ low + 1) :
    (c.setWord low n).reg r = c.reg r := by
  rw [setWord, setReg_of_ne _ _ h', setReg_of_ne _ _ h]

end Chip

/-! ## Packets in the ring -/

def used (ps : List Packet) : Nat := (ps.map Packet.size).sum

/-- The bytes of packets that lie one behind the other. -/
def image (start : Nat) : List Packet → List Byte
  | [] => []
  | p :: ps => p.bytes start ++ image (p.next start) ps

variable {p : Packet} {ps qs : List Packet} {start owed : Nat}

theorem length_bytes (p : Packet) (start : Nat) : (p.bytes start).length = p.size := by
  simp only [Packet.bytes, wordBytes, List.length_append, List.length_cons, List.length_nil, Packet.size]

theorem used_cons : used (p :: ps) = p.size + used ps := by
  simp [used]

theorem image_append (hstart : start < rxRing) :
    image start (ps ++ qs) = image start ps ++ image ((start + used ps) % rxRing) qs := by
  induction ps generalizing start with
  | nil => simp [image, used, Nat.mod_eq_of_lt hstart]
  | cons p ps ih =>
    have hnext : p.next start < rxRing := Nat.mod_lt _ (by decide)
    rw [List.cons_append, image, image, ih hnext, List.append_assoc, used_cons, Packet.next,
      Nat.mod_add_mod, Nat.add_assoc]

/-- The words and the data of a packet. -/
theorem bytes_header (p : Packet) (start : Nat) :
    (p.bytes start)[0]? = some (BitVec.ofNat 8 (p.next start)) ∧
    (p.bytes start)[1]? = some (BitVec.ofNat 8 (p.next start / 256)) ∧
    (p.bytes start)[2]? = some (BitVec.ofNat 8 p.data.length) ∧
    (p.bytes start)[3]? = some (BitVec.ofNat 8 (p.data.length / 256)) ∧
    (p.bytes start)[4]? = some (BitVec.ofNat 8 p.status.toNat) ∧
    (p.bytes start)[5]? = some (BitVec.ofNat 8 (p.status.toNat / 256)) ∧
    (p.bytes start).drop 6 = p.data ++ p.pad := by
  simp [Packet.bytes, wordBytes]

/-- The bytes of the frame without the checksum. -/
def Packet.frame (p : Packet) : List Byte := p.data.take (p.data.length - 4)

theorem length_frame (p : Packet) : p.frame.length = p.data.length - 4 := by
  rw [Packet.frame, List.length_take]
  omega

/-- What a call returns for a frame with the status word `rxstat`. -/
inductive Returns (pbufAlloc : PbufAlloc) (frame : List Byte) (rxstat : Nat) :
    Option (List (List Byte)) → Prop where
  | invalid : rxstat &&& 0x80 = 0 → Returns pbufAlloc frame rxstat none
  | noMemory : rxstat &&& 0x80 ≠ 0 → pbufAlloc.segments frame.length = none →
      Returns pbufAlloc frame rxstat none
  | frame {chain} : rxstat &&& 0x80 ≠ 0 →
      pbufAlloc.segments frame.length = some (chain.map List.length) → chain.flatten = frame →
      Returns pbufAlloc frame rxstat (some chain)

namespace Chip

theorem pktdec_reg (c : Chip) {r : Byte} (h : r ≠ epktcnt) : c.pktdec.reg r = c.reg r :=
  setReg_of_ne _ _ h

theorem pktdec_epktcnt (c : Chip) : c.pktdec.reg epktcnt = c.reg epktcnt - 1 :=
  setReg_same c epktcnt _

/-- `PKTDEC` is set in `ECON2`. -/
def setPktdec (c : Chip) : Chip := c.writeReg econ2 (WriteOp.bitFieldSet.apply (c.reg econ2) 0x40)

theorem setPktdec_eq (c : Chip) :
    c.setPktdec = (c.setReg econ2 ((c.reg econ2 ||| 0x40) &&& 0xBF)).pktdec := by
  have hbit : ∀ x : Byte, (x ||| 0x40) &&& 0x40 ≠ 0 := by decide
  exact if_pos (hbit _)

theorem setPktdec_reg (c : Chip) {r : Byte} (h : r ≠ epktcnt) (h' : r ≠ econ2) :
    c.setPktdec.reg r = c.reg r := by
  rw [setPktdec_eq, pktdec_reg _ h, setReg_of_ne _ _ h']

theorem setPktdec_autoinc (c : Chip) : c.setPktdec.reg econ2 &&& 0x80 = c.reg econ2 &&& 0x80 := by
  have hbit : ∀ x : Byte, ((x ||| 0x40) &&& 0xBF) &&& 0x80 = x &&& 0x80 := by decide
  rw [setPktdec_eq, pktdec_reg _ (by decide), setReg_same, hbit]

theorem setPktdec_epktcnt (c : Chip) : c.setPktdec.reg epktcnt = c.reg epktcnt - 1 := by
  rw [setPktdec_eq, pktdec_epktcnt, setReg_of_ne _ _ (by decide)]

theorem setPktdec_rest (c : Chip) :
    c.setPktdec.mem = c.mem ∧ c.setPktdec.erxrdptlBuffer = c.erxrdptlBuffer ∧
      c.setPktdec.stored = c.stored ∧ c.setPktdec.pktdecs = c.pktdecs + 1 := by
  rw [setPktdec_eq]
  exact ⟨rfl, rfl, rfl, rfl⟩

end Chip

/-- The registers that the chip changes when it stores a packet. -/
def hwRegs : List Byte := [erxwrptl, erxwrpth, epktcnt]

namespace Chip

/-- Storing packets leaves the other registers alone. -/
theorem receive_reg (c : Chip) (p : Packet) {r : Byte} (hr : r ∉ hwRegs) :
    (c.receive p).reg r = c.reg r := by
  simp only [hwRegs, List.mem_cons, List.not_mem_nil, or_false, not_or] at hr
  obtain ⟨hlow, hhigh, hcount⟩ := hr
  unfold receive
  split
  · dsimp only
    rw [setReg_of_ne _ _ hcount, setWord_of_ne _ _ hlow hhigh]
  · rfl

/-- A packet that fits is written behind the others and counted. -/
theorem receive_of_fits (c : Chip) (p : Packet) (hfit : p.size ≤ c.freeSpace ∧ c.reg epktcnt ≠ 255) :
    (c.receive p).mem = Ring.fill c.mem rxRing (c.word erxwrptl) (p.bytes (c.word erxwrptl)) ∧
      (c.receive p).word erxwrptl = p.next (c.word erxwrptl) ∧
      (c.receive p).reg epktcnt = c.reg epktcnt + 1 ∧ (c.receive p).stored = c.stored ++ [p] := by
  have hnext : p.next (c.word erxwrptl) < 65536 :=
    Nat.lt_trans (Nat.mod_lt _ (by decide)) (show rxRing < 65536 by decide)
  rw [receive, if_pos hfit]
  refine ⟨?_, ?_, ?_, rfl⟩
  · rw [setReg_mem, setWord_mem]
  · rw [word_setReg _ _ (by decide) (by decide), word_setWord _ (by decide) hnext]
  · rw [setReg_same]

theorem receive_of_not_fits (c : Chip) (p : Packet)
    (hfit : ¬ (p.size ≤ c.freeSpace ∧ c.reg epktcnt ≠ 255)) : c.receive p = c := by
  rw [receive, if_neg hfit]

theorem receive_rest (c : Chip) (p : Packet) :
    (c.receive p).erxrdptlBuffer = c.erxrdptlBuffer ∧ (c.receive p).pktdecs = c.pktdecs := by
  unfold receive
  split <;> exact ⟨rfl, rfl⟩

theorem receive_all_reg (c : Chip) (arriving : List Packet) {r : Byte} (hr : r ∉ hwRegs) :
    (arriving.foldl receive c).reg r = c.reg r := by
  induction arriving generalizing c with
  | nil => rfl
  | cons p arriving ih => rw [List.foldl_cons, ih, receive_reg c p hr]

theorem receive_all_rest (c : Chip) (arriving : List Packet) :
    (arriving.foldl receive c).erxrdptlBuffer = c.erxrdptlBuffer ∧
      (arriving.foldl receive c).pktdecs = c.pktdecs := by
  induction arriving generalizing c with
  | nil => exact ⟨rfl, rfl⟩
  | cons p arriving ih => rw [List.foldl_cons, (ih _).1, (ih _).2]; exact receive_rest c p

end Chip

/-- The packets `ps` are in the ring from the address `start` on, and the receive hardware will not
write over them. They are the last ones that were stored. The counter counts them, and `owed` ones
that are no longer there. -/
structure Chip.Holds (c : Chip) (start owed : Nat) (ps : List Packet) : Prop where
  rxst : c.word erxstl = 0
  rxnd : c.word erxndl = rxRing - 1
  autoinc : c.reg econ2 &&& 0x80 ≠ 0
  ring : Ring.Holds c.mem rxRing (c.word erxwrptl) start (used ps) (image start ps)
  room : ∃ slack, c.word erxrdptl = (start + (rxRing - slack)) % rxRing ∧ used ps + slack < rxRing
  count : (c.reg epktcnt).toNat = ps.length + owed
  stored : ∃ taken, c.stored = taken ++ ps ∧ taken.length = c.pktdecs + owed

/-- The registers of the receive hardware. -/
def rxRegs : List Byte :=
  [erxstl, erxsth, erxndl, erxndh, erxwrptl, erxwrpth, erxrdptl, erxrdpth, epktcnt, econ2]

namespace Chip.Holds

variable {c c' : Chip}

section

variable (h : c.Holds start owed ps)

include h

theorem start_lt : start < rxRing := h.ring.out_lt (by decide)

theorem congr (hmem : ∀ i < rxRing, c'.mem i = c.mem i)
    (hreg : ∀ r ∈ rxRegs, c'.reg r = c.reg r) (hstored : c'.stored = c.stored)
    (hpktdecs : c'.pktdecs = c.pktdecs) : c'.Holds start owed ps := by
  have hword : ∀ low, low ∈ rxRegs → low + 1 ∈ rxRegs → c'.word low = c.word low :=
    fun low hlow hhigh => word_congr (hreg low hlow) (hreg _ hhigh)
  constructor
  · rw [hword _ (by decide) (by decide), h.rxst]
  · rw [hword _ (by decide) (by decide), h.rxnd]
  · rw [hreg _ (by decide)]
    exact h.autoinc
  · rw [hword _ (by decide) (by decide)]
    exact h.ring.congr hmem
  · rw [hword _ (by decide) (by decide)]
    exact h.room
  · rw [hreg _ (by decide), h.count]
  · rw [hstored, hpktdecs]
    exact h.stored

/-- The free space ends before the first packet. -/
theorem freeSpace_lt {slack : Nat}
    (hrdpt : c.word erxrdptl = (start + (rxRing - slack)) % rxRing) (hlt : used ps + slack < rxRing) :
    c.freeSpace + used ps + slack < rxRing := by
  have hwrpt := h.ring.in_eq
  unfold freeSpace
  dsimp only
  rw [h.rxnd, h.rxst]
  generalize c.word erxrdptl = rdpt at *
  unfold rxRing at *
  split_ifs <;> omega

/-- A packet is stored behind the others, or it is dropped. -/
theorem receive (p : Packet) : ∃ more, (c.receive p).Holds start owed (ps ++ more) := by
  by_cases hfit : p.size ≤ c.freeSpace ∧ c.reg epktcnt ≠ 255
  · obtain ⟨hmem, hwrpt, hepktcnt, hstored⟩ := c.receive_of_fits p hfit
    obtain ⟨slack, hrdpt, hlt⟩ := h.room
    have hfree := h.freeSpace_lt hrdpt hlt
    have hused : used (ps ++ [p]) = used ps + p.size := by simp [used]
    have himage : image start (ps ++ [p]) = image start ps ++ p.bytes (c.word erxwrptl) := by
      rw [image_append h.start_lt, ← h.ring.in_eq, image, image, List.append_nil]
    have hword : ∀ low, low ∉ hwRegs → low + 1 ∉ hwRegs → (c.receive p).word low = c.word low :=
      fun low hlow hhigh => word_congr (receive_reg c p hlow) (receive_reg c p hhigh)
    refine ⟨[p], ?_, ?_, ?_, ?_, ?_, ?_, ?_⟩
    · rw [hword _ (by decide) (by decide), h.rxst]
    · rw [hword _ (by decide) (by decide), h.rxnd]
    · rw [receive_reg c p (by decide)]
      exact h.autoinc
    · have hfill := h.ring.fill (p.bytes (c.word erxwrptl))
        (by rw [length_bytes]; have := hfit.1; omega)
      rw [length_bytes] at hfill
      rw [hmem, hwrpt, hused, himage]
      exact hfill
    · rw [hword _ (by decide) (by decide), hused]
      exact ⟨slack, hrdpt, by have := hfit.1; omega⟩
    · have hbyte : (c.reg epktcnt).toNat ≠ 255 := fun heq => hfit.2 (BitVec.eq_of_toNat_eq heq)
      have hlt := (c.reg epktcnt).isLt
      rw [hepktcnt, BitVec.toNat_add, h.count, List.length_append]
      rw [h.count] at hbyte hlt
      rw [show (1 : Byte).toNat = 1 from rfl, List.length_singleton]
      omega
    · obtain ⟨taken, htaken, hlength⟩ := h.stored
      refine ⟨taken, ?_, ?_⟩
      · rw [hstored, htaken, List.append_assoc]
      · rw [(receive_rest c p).2, hlength]
  · rw [c.receive_of_not_fits p hfit]
    exact ⟨[], by rwa [List.append_nil]⟩

theorem receive_all (arriving : List Packet) :
    ∃ more, (arriving.foldl Chip.receive c).Holds start owed (ps ++ more) := by
  induction arriving generalizing c ps with
  | nil => exact ⟨[], by rwa [List.append_nil]⟩
  | cons p arriving ih =>
    obtain ⟨more, hmore⟩ := h.receive p
    obtain ⟨more', hmore'⟩ := ih hmore
    exact ⟨more ++ more', by rwa [← List.append_assoc]⟩

end

/-- When `ERXRDPT` is at the next packet, the oldest one is free and owes a decrement. -/
theorem free {n : Nat} (h : c.Holds start 0 (p :: ps)) (hn : n = p.next start) (hlt : n < 65536) :
    (c.setWord erxrdptl n).Holds (p.next start) 1 ps := by
  have hused : used ps = used (p :: ps) - p.size := by rw [used_cons, Nat.add_sub_cancel_left]
  have himage : image (p.next start) ps = (image start (p :: ps)).drop p.size := by
    rw [image, ← length_bytes p start, List.drop_left]
  have hword : ∀ low, (∀ r ∈ [low, low + 1], r ≠ erxrdptl ∧ r ≠ erxrdpth) →
      (c.setWord erxrdptl n).word low = c.word low := by
    intro low hne
    have hreg : ∀ r ∈ [low, low + 1], (c.setWord erxrdptl n).reg r = c.reg r :=
      fun r hr => setWord_of_ne c n (hne r hr).1 (hne r hr).2
    exact word_congr (hreg _ (by simp)) (hreg _ (by simp))
  obtain ⟨slack, -, hlt'⟩ := h.room
  constructor
  · rw [hword _ (by decide), h.rxst]
  · rw [hword _ (by decide), h.rxnd]
  · rw [setWord_of_ne _ _ (by decide) (by decide)]
    exact h.autoinc
  · rw [hword _ (by decide), setWord_mem, hused, himage]
    exact h.ring.drop (by rw [used_cons]; omega)
  · refine ⟨0, ?_, by rw [used_cons] at hlt'; omega⟩
    rw [word_setWord _ (by decide) hlt, hn, Nat.sub_zero, Nat.add_mod_right, Packet.next, Nat.mod_mod]
  · rw [setWord_of_ne _ _ (by decide) (by decide), h.count, List.length_cons]
  · obtain ⟨taken, htaken, hlength⟩ := h.stored
    refine ⟨taken ++ [p], ?_, ?_⟩
    · rw [List.append_assoc]
      exact htaken
    · rw [List.length_append, hlength]
      rfl

/-- `PKTDEC` takes the packet that is no longer there from the counter. -/
theorem setPktdec (h : c.Holds start 1 ps) : c.setPktdec.Holds start 0 ps := by
  have hword : ∀ low, (∀ r ∈ [low, low + 1], r ≠ epktcnt ∧ r ≠ econ2) →
      c.setPktdec.word low = c.word low := by
    intro low hne
    have hreg : ∀ r ∈ [low, low + 1], c.setPktdec.reg r = c.reg r :=
      fun r hr => setPktdec_reg c (hne r hr).1 (hne r hr).2
    exact word_congr (hreg _ (by simp)) (hreg _ (by simp))
  constructor
  · rw [hword _ (by decide), h.rxst]
  · rw [hword _ (by decide), h.rxnd]
  · rw [setPktdec_autoinc]
    exact h.autoinc
  · rw [(setPktdec_rest c).1, hword _ (by decide)]
    exact h.ring
  · rw [hword _ (by decide)]
    exact h.room
  · have hcount := h.count
    rw [setPktdec_epktcnt, BitVec.toNat_sub, show (1 : Byte).toNat = 1 from rfl]
    omega
  · rw [(setPktdec_rest c).2.2.1, (setPktdec_rest c).2.2.2]
    exact h.stored

end Chip.Holds

/-! ## SPI operations -/

/-- The registers and variables that a call of `enc28j60_rx` works with. -/
structure View where
  erdpt : Nat
  erxrdpt : Nat
  buffer : Byte
  nextPacketPtr : Nat
  pktdecs : Nat

def Dev.view (d : Dev) : View where
  erdpt := d.chip.word erdptl
  erxrdpt := d.chip.word erxrdptl
  buffer := d.chip.erxrdptlBuffer
  nextPacketPtr := d.nextPacketPtr
  pktdecs := d.chip.pktdecs

/-- The view after a call has taken the packet whose next pointer is `n`. -/
def View.taken (v : View) (erdpt n : Nat) : View :=
  { v with
    erdpt := erdpt, erxrdpt := n, buffer := BitVec.ofNat 8 n, nextPacketPtr := n,
    pktdecs := v.pktdecs + 1 }

/-- The packets `ps` are in the ring, and maybe some that arrived later. -/
structure Keeps (d : Dev) (start owed : Nat) (ps : List Packet) (v : View) : Prop where
  holds : ∃ more, d.chip.Holds start owed (ps ++ more)
  view : d.view = v

/-- A point of a call outside of `enc28j60_set_bank`. -/
structure At (d : Dev) (start owed : Nat) (ps : List Packet) (v : View) : Prop
    extends Keeps d start owed ps v where
  bank : d.enc28j60Bank = d.chip.bank

variable {d : Dev} {v : View} {address data : Byte}

theorem arrivals_reg (d : Dev) {r : Byte} (hr : r ∉ hwRegs) : d.arrivals.chip.reg r = d.chip.reg r := by
  unfold Dev.arrivals
  split
  · rfl
  next arriving air _ => exact d.chip.receive_all_reg arriving hr

theorem arrivals_driver (d : Dev) :
    d.arrivals.enc28j60Bank = d.enc28j60Bank ∧ d.arrivals.nextPacketPtr = d.nextPacketPtr := by
  unfold Dev.arrivals
  split <;> exact ⟨rfl, rfl⟩

theorem arrivals_bank (d : Dev) : d.arrivals.chip.bank = d.chip.bank := by
  rw [Chip.bank, Chip.bank, arrivals_reg d (by decide)]

theorem length_readData (n : Nat) (d : Dev) : (Dev.readData n d).1.length = n := by
  induction n generalizing d with
  | zero => rfl
  | succ n ih => rw [Dev.readData, List.length_cons, ih]

theorem readChain_lengths (lens : List Nat) (d : Dev) :
    (Dev.readChain lens d).1.map List.length = lens := by
  induction lens generalizing d with
  | nil => rfl
  | cons len lens ih => rw [Dev.readChain, List.map_cons, length_readData, ih]

namespace Keeps

theorem arrivals (h : Keeps d start owed ps v) : Keeps d.arrivals start owed ps v := by
  unfold Dev.arrivals
  split
  · exact h
  next arriving air _ =>
    obtain ⟨more, hholds⟩ := h.holds
    obtain ⟨more', hholds'⟩ := hholds.receive_all arriving
    have hreg : ∀ r, r ∉ hwRegs → (arriving.foldl Chip.receive d.chip).reg r = d.chip.reg r :=
      fun r hr => d.chip.receive_all_reg arriving hr
    obtain ⟨hbuffer, hpktdecs⟩ := d.chip.receive_all_rest arriving
    refine ⟨⟨more ++ more', by rwa [← List.append_assoc]⟩, ?_⟩
    rw [← h.view]
    simp only [Dev.view, Chip.word, hbuffer, hpktdecs]
    rw [hreg _ (by decide), hreg _ (by decide), hreg _ (by decide), hreg _ (by decide)]

/-- A write to a register that the receive hardware and the read pointer do not use. -/
theorem setReg {r : Byte} (h : Keeps d start owed ps v) (hr : r ∉ erdptl :: erdpth :: rxRegs) :
    Keeps { d with chip := d.chip.setReg r data } start owed ps v := by
  have hreg : ∀ r' ∈ erdptl :: erdpth :: rxRegs, (d.chip.setReg r data).reg r' = d.chip.reg r' :=
    fun r' hr' => Chip.setReg_of_ne _ _ fun heq => hr (heq ▸ hr')
  obtain ⟨more, hholds⟩ := h.holds
  refine ⟨⟨more, hholds.congr (fun _ _ => rfl) (fun r' hr' => hreg r' (by simp [hr'])) rfl rfl⟩, ?_⟩
  rw [← h.view]
  simp only [Dev.view, Chip.word]
  rw [hreg _ (by decide), hreg _ (by decide), hreg _ (by decide), hreg _ (by decide)]
  rfl

end Keeps

/-- The registers that a write does not simply change. -/
def specialRegs : List Byte := [econ2, erxrdptl, erxrdpth, epktcnt, erxwrptl, erxwrpth]

theorem writeReg_plain (c : Chip) {r : Byte} (data : Byte) (hr : r ∉ specialRegs) :
    c.writeReg r data = c.setReg r data := by
  simp only [specialRegs, List.mem_cons, List.not_mem_nil, or_false, not_or] at hr
  obtain ⟨hecon2, hrdptl, hrdpth, hrest⟩ := hr
  rw [Chip.writeReg, if_neg hecon2, if_neg hrdptl, if_neg hrdpth, if_neg]
  rintro (h | h | h)
  · exact hrest.1 h
  · exact hrest.2.1 h
  · exact hrest.2.2 h

/-- The registers in all banks. -/
theorem target_common (c : Chip) (h : ¬ IsBanked address) : c.target address = address &&& addrMask :=
  if_neg h

variable {c : Chip} {n : Nat}

/-- The register of an address in the bank that is selected. -/
theorem target_banked (hbank : c.bank = bankOf address) (h : IsBanked address)
    (haddress : bankOf address ||| (address &&& addrMask) = address) : c.target address = address := by
  rw [Chip.target, if_pos h, hbank, haddress]

/-- A write to a register in all banks that the receive hardware does not use. -/
theorem spiWriteOp_common (d : Dev) (op : WriteOp) (data : Byte) {r : Byte} (hcommon : ¬ IsBanked address)
    (hr : address &&& addrMask = r) (hplain : r ∉ specialRegs) :
    d.spiWriteOp op address data =
      { d.arrivals with chip := d.arrivals.chip.setReg r (op.apply (d.arrivals.chip.reg r) data) } := by
  unfold Dev.spiWriteOp
  dsimp only
  rw [target_common _ hcommon, hr, writeReg_plain _ _ hplain]

theorem bank_setReg {r : Byte} (hr : econ1 ≠ r) : (c.setReg r data).bank = c.bank := by
  rw [Chip.bank, Chip.setReg_of_ne _ _ hr, Chip.bank]

theorem setBank_nextPacketPtr (d : Dev) (address : Byte) :
    (d.enc28j60SetBank address).nextPacketPtr = d.nextPacketPtr := by
  unfold Dev.enc28j60SetBank
  split
  · exact (arrivals_driver _).2.trans (arrivals_driver _).2
  · rfl

theorem spiWrite_nextPacketPtr (d : Dev) (address data : Byte) :
    (d.spiWrite address data).nextPacketPtr = d.nextPacketPtr :=
  (arrivals_driver _).2.trans (setBank_nextPacketPtr d address)

theorem Chip.writeReg_erxrdpth (hbuffer : c.erxrdptlBuffer = BitVec.ofNat 8 n) :
    c.writeReg erxrdpth (BitVec.ofNat 8 (n / 256)) = c.setWord erxrdptl n := by
  rw [Chip.writeReg, if_neg (by decide), if_neg (by decide), if_pos rfl, hbuffer]
  rfl

/-- The two writes of `enc28j60_set_bank` select the bank of the address. -/
theorem bank_bits (x address : Byte) :
    ((x &&& ~~~(3 : Byte) ||| (address &&& bankMask) >>> 5) &&& 3) <<< 5 = bankOf address := by
  have hclear : x &&& ~~~(3 : Byte) &&& 3 = 0 := by
    rw [BitVec.and_assoc, show (~~~(3 : Byte) &&& 3) = 0#8 by decide]
    exact BitVec.and_zero
  have hbits : ∀ a : Byte, ((a &&& bankMask) >>> 5 &&& 3) <<< 5 = bankOf a := by decide
  rw [BitVec.and_or_distrib_right, hclear, ← hbits address]
  congr 1
  exact BitVec.zero_or

/-- What a call relies on does not depend on the packets that arrive, on the bank and on the interrupt
enables: `K` is what it relies on everywhere, `A` outside of `enc28j60_set_bank`. -/
structure Framed (K A : Dev → Prop) : Prop where
  arrivals : ∀ {d}, K d → K d.arrivals
  setReg : ∀ {d r} (data : Byte), r = econ1 ∨ r = eie → K d → K { d with chip := d.chip.setReg r data }
  setBank : ∀ {d} (bank : Byte), K d → K { d with enc28j60Bank := bank }
  at_iff : ∀ {d}, A d ↔ K d ∧ d.enc28j60Bank = d.chip.bank

namespace Framed

variable {K A : Dev → Prop} (hf : Framed K A)

include hf

theorem at_arrivals (h : A d) : A d.arrivals := by
  obtain ⟨hkeeps, hbank⟩ := hf.at_iff.mp h
  refine hf.at_iff.mpr ⟨hf.arrivals hkeeps, ?_⟩
  rw [arrivals_bank, (arrivals_driver d).1, hbank]

theorem writeEie (h : A d) (op : WriteOp) (data : Byte) : A (d.spiWriteOp op eie data) := by
  obtain ⟨hkeeps, hbank⟩ := hf.at_iff.mp (hf.at_arrivals h)
  rw [spiWriteOp_common d op data (by decide) rfl (by decide)]
  refine hf.at_iff.mpr ⟨hf.setReg _ (.inr rfl) hkeeps, ?_⟩
  rw [bank_setReg (by decide), hbank]

theorem writeEcon1 (h : K d) (op : WriteOp) (data : Byte) :
    K (d.spiWriteOp op econ1 data) ∧
      (d.spiWriteOp op econ1 data).chip.reg econ1 = op.apply (d.chip.reg econ1) data ∧
      (d.spiWriteOp op econ1 data).enc28j60Bank = d.enc28j60Bank := by
  rw [spiWriteOp_common d op data (by decide) rfl (by decide), arrivals_reg d (by decide)]
  exact ⟨hf.setReg _ (.inl rfl) (hf.arrivals h), Chip.setReg_same .., (arrivals_driver d).1⟩

theorem enc28j60SetBank (h : A d) (address : Byte) :
    A (d.enc28j60SetBank address) ∧ (d.enc28j60SetBank address).chip.bank = bankOf address := by
  obtain ⟨hkeeps, hbank⟩ := hf.at_iff.mp h
  unfold Dev.enc28j60SetBank
  split
  next hne =>
    obtain ⟨hclear, -, -⟩ := hf.writeEcon1 hkeeps .bitFieldClr 3
    obtain ⟨hselect, hreg', -⟩ := hf.writeEcon1 hclear .bitFieldSet ((address &&& bankMask) >>> 5)
    have hbank : (((d.spiWriteOp .bitFieldClr econ1 3).spiWriteOp .bitFieldSet econ1
        ((address &&& bankMask) >>> 5)).chip).bank = bankOf address := by
      rw [Chip.bank, hreg']
      exact bank_bits ..
    exact ⟨hf.at_iff.mpr ⟨hf.setBank _ hselect, hbank.symm⟩, hbank⟩
  next heq =>
    refine ⟨h, ?_⟩
    rw [← hbank]
    exact (not_not.mp heq).symm

theorem spiRead (h : A d) (address : Byte) : A (d.spiRead address).2 :=
  hf.at_arrivals (hf.enc28j60SetBank h address).1

/-- A write to a banked register reaches it. -/
theorem spiWrite (h : A d) (address data : Byte) (hbanked : IsBanked address)
    (haddress : bankOf address ||| (address &&& addrMask) = address) :
    ∃ d', A d' ∧ d.spiWrite address data = { d' with chip := d'.chip.writeReg address data } := by
  obtain ⟨hset, hbank⟩ := hf.enc28j60SetBank h address
  refine ⟨_, hf.at_arrivals hset, ?_⟩
  have htarget : (d.enc28j60SetBank address).arrivals.chip.target address = address :=
    target_banked (by rw [arrivals_bank, hbank]) hbanked haddress
  unfold Dev.spiWrite Dev.spiWriteOp
  dsimp only
  rw [htarget, WriteOp.apply]

theorem enc28j60InterruptDisable (h : A d) : A d.enc28j60InterruptDisable.2 :=
  hf.writeEie (hf.spiRead (hf.enc28j60SetBank h eie).1 eie) ..

theorem enc28j60InterruptEnable (h : A d) (level : Byte) : A (d.enc28j60InterruptEnable level) :=
  hf.writeEie (hf.enc28j60SetBank h eie).1 ..

end Framed

/-- A pointer is set to an address, where `A i` is what holds when it is `i`. -/
theorem Framed.writeWord {K A : Nat → Dev → Prop} {low high : Byte} {i : Nat} (hf : ∀ i, Framed (K i) (A i))
    (hregs : ∀ r ∈ [low, high], IsBanked r ∧ bankOf r ||| (r &&& addrMask) = r ∧ r ∉ specialRegs)
    (hhigh : low + 1 = high) (hne : low ≠ high) (hword : ∀ {i d}, A i d → d.chip.word low = i)
    (hset : ∀ {i d} (r data : Byte), r ∈ [low, high] → A i d →
      A ((d.chip.setReg r data).word low) { d with chip := d.chip.setReg r data })
    (h : A i d) (hn : n < 65536) :
    A n ((d.spiWrite low (BitVec.ofNat 8 n)).spiWrite high (BitVec.ofNat 8 (n / 256))) := by
  obtain ⟨hbanked, haddress, hplain⟩ := hregs low (by simp)
  obtain ⟨hbanked', haddress', hplain'⟩ := hregs high (by simp)
  obtain ⟨d1, hat1, heq1⟩ := (hf i).spiWrite h low (BitVec.ofNat 8 n) hbanked haddress
  have hlow := hset low (BitVec.ofNat 8 n) (by simp) hat1
  obtain ⟨d2, hat2, heq2⟩ := (hf _).spiWrite hlow high (BitVec.ofNat 8 (n / 256)) hbanked' haddress'
  have hboth := hset high (BitVec.ofNat 8 (n / 256)) (by simp) hat2
  have hn' : (d2.chip.setReg high (BitVec.ofNat 8 (n / 256))).word low = n := by
    have hbyte := hword hat2
    rw [Chip.word, Chip.word, Chip.setReg_same, BitVec.toNat_ofNat] at hbyte
    rw [Chip.word, hhigh, Chip.setReg_same, Chip.setReg_of_ne _ _ hne, BitVec.toNat_ofNat]
    omega
  rw [heq1, writeReg_plain _ _ hplain, heq2, writeReg_plain _ _ hplain']
  rwa [hn'] at hboth

namespace At

theorem framed : Framed (Keeps · start owed ps v) (At · start owed ps v) where
  arrivals h := h.arrivals
  setReg _ hr h := h.setReg (by rcases hr with rfl | rfl <;> decide)
  setBank _ h := ⟨h.holds, h.view⟩
  at_iff := ⟨fun h => ⟨h.toKeeps, h.bank⟩, fun h => ⟨h.1, h.2⟩⟩

section

variable (h : At d start owed ps v)

include h

/-- What is read from the packet counter is its value after the read. -/
theorem spiRead_epktcnt : (d.spiRead epktcnt).1 = (d.spiRead epktcnt).2.chip.reg epktcnt := by
  obtain ⟨-, hbank⟩ := framed.enc28j60SetBank h epktcnt
  have htarget : (d.enc28j60SetBank epktcnt).arrivals.chip.target epktcnt = epktcnt :=
    target_banked (by rw [arrivals_bank, hbank]) (by decide) (by decide)
  unfold Dev.spiRead Dev.spiReadOp
  dsimp only
  rw [htarget]

/-- Only the read pointer changes. -/
theorem setErdpt (hmem : c.mem = d.chip.mem) (hreg : ∀ r ∈ econ1 :: rxRegs, c.reg r = d.chip.reg r)
    (hbuffer : c.erxrdptlBuffer = d.chip.erxrdptlBuffer) (hstored : c.stored = d.chip.stored)
    (hpktdecs : c.pktdecs = d.chip.pktdecs) (hn : c.word erdptl = n) :
    At { d with chip := c } start owed ps { v with erdpt := n } := by
  obtain ⟨more, hholds⟩ := h.holds
  have hrx : ∀ r ∈ rxRegs, c.reg r = d.chip.reg r := fun r hr => hreg r (List.mem_cons_of_mem _ hr)
  refine ⟨⟨⟨more, hholds.congr (fun _ _ => by rw [hmem]) hrx hstored hpktdecs⟩, ?_⟩, ?_⟩
  · have hword : c.word erxrdptl = d.chip.word erxrdptl :=
      Chip.word_congr (hrx _ (by decide)) (hrx _ (by decide))
    rw [← h.view]
    simp only [Dev.view, hn, hword, hbuffer, hpktdecs]
  · rw [h.bank, Chip.bank, Chip.bank, hreg _ (by decide)]

/-- The read pointer is set to an address. -/
theorem write_readPointer (hn : n < 65536) :
    At ((d.spiWrite erdptl (BitVec.ofNat 8 n)).spiWrite erdpth (BitVec.ofNat 8 (n / 256))) start owed ps
      { v with erdpt := n } := by
  have hplain : ∀ r ∈ [erdptl, erdpth], r ∉ econ1 :: rxRegs := by decide
  refine Framed.writeWord (A := fun i d => At d start owed ps { v with erdpt := i }) (i := v.erdpt)
    (fun _ => framed) (by decide) rfl (by decide) (fun h => congrArg View.erdpt h.view)
    (fun r data hr h => ?_) h hn
  refine h.setErdpt rfl (fun r' hr' => ?_) rfl rfl rfl rfl
  exact Chip.setReg_of_ne _ _ fun heq => hplain r hr (heq ▸ hr')

/-- The write to `ERXRDPTL` is buffered. -/
theorem write_buffer (data : Byte) :
    At { d with chip := d.chip.writeReg erxrdptl data } start owed ps { v with buffer := data } := by
  have hwrite : d.chip.writeReg erxrdptl data = { d.chip with erxrdptlBuffer := data } := by
    rw [Chip.writeReg, if_neg (by decide), if_pos rfl]
  obtain ⟨more, hholds⟩ := h.holds
  rw [hwrite, ← h.view]
  exact ⟨⟨⟨more, hholds.congr (fun _ _ => rfl) (fun _ _ => rfl) rfl rfl⟩, rfl⟩, h.bank⟩

end

variable {i : Nat}

/-- A byte of the oldest packet is read. -/
theorem readBufMem {b : Byte} (h : At d start owed (p :: ps) v)
    (herdpt : v.erdpt = (start + i) % rxRing) (hb : (p.bytes start)[i]? = some b) :
    d.readBufMem.1 = b ∧
      At d.readBufMem.2 start owed (p :: ps) { v with erdpt := (start + (i + 1)) % rxRing } := by
  have hat := framed.at_arrivals h
  obtain ⟨more, hholds⟩ := hat.holds
  have hword : d.arrivals.chip.word erdptl = (start + i) % rxRing := by
    rw [← herdpt]
    exact congrArg View.erdpt hat.view
  refine ⟨?_, ?_⟩
  · have hget : (image start (p :: ps ++ more))[i]? = some b := by
      exact List.getElem?_append_left (List.getElem?_eq_some_iff.mp hb).1 ▸ hb
    rw [← hholds.ring.slot hget, ← hword]
    rfl
  · have hnext : (if d.arrivals.chip.word erdptl = d.arrivals.chip.word erxndl then
        d.arrivals.chip.word erxstl else (d.arrivals.chip.word erdptl + 1) % 8192) =
        (start + (i + 1)) % rxRing := by
      rw [hword, hholds.rxnd, hholds.rxst]
      unfold rxRing at *
      split_ifs <;> omega
    have hlt : (start + (i + 1)) % rxRing < 65536 :=
      Nat.lt_trans (Nat.mod_lt _ (by decide)) (show rxRing < 65536 by decide)
    unfold Dev.readBufMem Chip.readBuf
    dsimp only
    rw [if_pos hholds.autoinc, hnext]
    refine hat.setErdpt rfl (fun r hr => ?_) rfl rfl rfl (Chip.word_setWord _ (by decide) hlt)
    apply Chip.setWord_of_ne
    · rintro rfl
      revert hr
      decide
    · rintro rfl
      revert hr
      decide

/-- Two bytes of the oldest packet that hold a word. -/
theorem readWord (h : At d start owed (p :: ps) v) (herdpt : v.erdpt = (start + i) % rxRing)
    (hlow : (p.bytes start)[i]? = some (BitVec.ofNat 8 n))
    (hhigh : (p.bytes start)[i + 1]? = some (BitVec.ofNat 8 (n / 256))) (hn : n < 65536) :
    d.readWord.1 = n ∧
      At d.readWord.2 start owed (p :: ps) { v with erdpt := (start + (i + 2)) % rxRing } := by
  obtain ⟨hbyte, hat⟩ := h.readBufMem herdpt hlow
  obtain ⟨hbyte', hat'⟩ := hat.readBufMem rfl hhigh
  refine ⟨?_, hat'⟩
  have hword : n % 256 ||| (n / 256) <<< 8 = n := by
    rw [Nat.or_comm, ← Nat.shiftLeft_add_eq_or_of_lt (Nat.mod_lt n (by decide)), Nat.shiftLeft_eq]
    omega
  unfold Dev.readWord
  dsimp only
  rw [hbyte, hbyte', BitVec.toNat_ofNat, BitVec.toNat_ofNat, Nat.mod_eq_of_lt (by omega : n / 256 < 2 ^ 8)]
  exact hword

theorem readData (h : At d start owed (p :: ps) v)
    (herdpt : v.erdpt = (start + i) % rxRing) (hn : i + n ≤ p.size) :
    (Dev.readData n d).1 = ((p.bytes start).drop i).take n ∧
      At (Dev.readData n d).2 start owed (p :: ps) { v with erdpt := (start + (i + n)) % rxRing } := by
  induction n generalizing d v i with
  | zero =>
    refine ⟨by simp [Dev.readData], ?_⟩
    rw [Nat.add_zero, ← herdpt]
    exact h
  | succ n ih =>
    have hi : i < (p.bytes start).length := by
      rw [length_bytes]
      omega
    obtain ⟨hbyte, hat⟩ := h.readBufMem herdpt (List.getElem?_eq_getElem hi)
    obtain ⟨hrest, hat'⟩ := ih hat rfl (by omega)
    refine ⟨?_, ?_⟩
    · rw [Dev.readData, List.drop_eq_getElem_cons hi, List.take_succ_cons]
      rw [hbyte, hrest]
    · rw [show i + (n + 1) = i + 1 + n by omega]
      exact hat'

theorem readChain (lens : List Nat) (h : At d start owed (p :: ps) v)
    (herdpt : v.erdpt = (start + i) % rxRing) (hlens : i + lens.sum ≤ p.size) :
    (Dev.readChain lens d).1.flatten = ((p.bytes start).drop i).take lens.sum ∧
      At (Dev.readChain lens d).2 start owed (p :: ps)
        { v with erdpt := (start + (i + lens.sum)) % rxRing } := by
  induction lens generalizing d v i with
  | nil =>
    refine ⟨by simp [Dev.readChain], ?_⟩
    rw [List.sum_nil, Nat.add_zero, ← herdpt]
    exact h
  | cons len lens ih =>
    rw [List.sum_cons] at hlens
    obtain ⟨hdata, hat⟩ := h.readData (n := len) herdpt (by omega)
    obtain ⟨hrest, hat'⟩ := ih hat rfl (by omega)
    refine ⟨?_, ?_⟩
    · rw [Dev.readChain]
      rw [List.flatten_cons, hdata, hrest, List.sum_cons, List.take_add, List.drop_drop]
    · rw [List.sum_cons, ← Nat.add_assoc i]
      exact hat'

/-- The frame without its checksum is read into the chain, if there is one. -/
theorem rxFrame {len : Nat} (pbufAlloc : PbufAlloc) (rxstat : Nat) (h : At d start owed (p :: ps) v)
    (herdpt : v.erdpt = (start + 6) % rxRing) (hlen : len = p.data.length - 4) (hsize : len < 65536) :
    (∃ erdpt, At (d.rxFrame pbufAlloc rxstat len).2 start owed (p :: ps) { v with erdpt := erdpt }) ∧
      Returns pbufAlloc p.frame rxstat (d.rxFrame pbufAlloc rxstat len).1 := by
  have hframe : len ≤ p.data.length := by omega
  unfold Dev.rxFrame
  rw [Nat.mod_eq_of_lt hsize]
  split
  next hbad => exact ⟨⟨v.erdpt, h⟩, .invalid hbad⟩
  next hgood =>
    cases hsegments : pbufAlloc.segments len with
    | none => exact ⟨⟨v.erdpt, h⟩, .noMemory hgood (by rwa [length_frame, ← hlen])⟩
    | some lens =>
      have hsum := pbufAlloc.sum_eq hsegments
      obtain ⟨hchain, hat⟩ := h.readChain lens herdpt (by rw [hsum, Packet.size]; omega)
      refine ⟨⟨_, hat⟩, .frame hgood ?_ ?_⟩
      · rw [length_frame, ← hlen, hsegments, readChain_lengths]
      · rw [hchain, hsum, (bytes_header p start).2.2.2.2.2.2, List.take_append_of_le_length hframe,
          hlen, Packet.frame]

/-- `ERXRDPT` takes both bytes with the write of the high one, which frees the oldest packet. -/
theorem free (h : At d start 0 (p :: ps) v) (hn : n = p.next start) :
    At ((d.spiWrite erxrdptl (BitVec.ofNat 8 n)).spiWrite erxrdpth (BitVec.ofNat 8 (n / 256)))
      (p.next start) 1 ps { v with erxrdpt := n, buffer := BitVec.ofNat 8 n } := by
  obtain ⟨d1, hat1, heq1⟩ := framed.spiWrite h erxrdptl (BitVec.ofNat 8 n) (by decide) (by decide)
  have hlow := hat1.write_buffer (BitVec.ofNat 8 n)
  rw [← heq1] at hlow
  obtain ⟨d2, hat2, heq2⟩ := framed.spiWrite hlow erxrdpth (BitVec.ofNat 8 (n / 256)) (by decide) (by decide)
  rw [heq2, Chip.writeReg_erxrdpth (congrArg View.buffer hat2.view)]
  obtain ⟨more, hholds⟩ := hat2.holds
  have hlt : n < 65536 := by
    rw [hn]
    exact Nat.lt_trans (Nat.mod_lt _ (by decide)) (show rxRing < 65536 by decide)
  refine ⟨⟨⟨more, hholds.free hn hlt⟩, ?_⟩, ?_⟩
  · have hview : Dev.view { d2 with chip := d2.chip.setWord erxrdptl n } =
        { d2.view with erxrdpt := n } := by
      have herdpt : (d2.chip.setWord erxrdptl n).word erdptl = d2.chip.word erdptl :=
        Chip.word_congr (Chip.setWord_of_ne _ _ (by decide) (by decide))
          (Chip.setWord_of_ne _ _ (by decide) (by decide))
      simp only [Dev.view, herdpt, Chip.word_setWord _ (show erxrdptl ≠ erxrdptl + 1 by decide) hlt]
      rfl
    rw [hview, hat2.view]
  · rw [hat2.bank, Chip.bank, Chip.bank, Chip.setWord_of_ne _ _ (by decide) (by decide)]

theorem setPktdec (h : At d start 1 ps v) :
    At (d.spiWriteOp .bitFieldSet econ2 0x40) start 0 ps { v with pktdecs := v.pktdecs + 1 } := by
  have hat := framed.at_arrivals h
  obtain ⟨more, hholds⟩ := hat.holds
  have hwrite : d.spiWriteOp .bitFieldSet econ2 0x40 =
      { d.arrivals with chip := d.arrivals.chip.setPktdec } := by
    unfold Dev.spiWriteOp Chip.setPktdec
    dsimp only
    rw [target_common _ (by decide), show (econ2 &&& addrMask) = econ2 by decide]
  have hreg : ∀ {r}, r ≠ epktcnt → r ≠ econ2 →
      d.arrivals.chip.setPktdec.reg r = d.arrivals.chip.reg r :=
    Chip.setPktdec_reg _
  obtain ⟨-, hbuffer, -, hpktdecs⟩ := d.arrivals.chip.setPktdec_rest
  rw [hwrite]
  refine ⟨⟨⟨more, hholds.setPktdec⟩, ?_⟩, ?_⟩
  · rw [← hat.view]
    simp only [Dev.view, Chip.word, hbuffer, hpktdecs]
    rw [hreg (by decide) (by decide), hreg (by decide) (by decide), hreg (by decide) (by decide),
      hreg (by decide) (by decide)]
  · rw [hat.bank, Chip.bank, Chip.bank, hreg (by decide) (by decide)]

theorem setNextPacketPtr (h : At d start owed ps v) (n : Nat) :
    At { d with nextPacketPtr := n } start owed ps { v with nextPacketPtr := n } := by
  rw [← h.view]
  exact ⟨⟨h.holds, rfl⟩, h.bank⟩

theorem start_lt (h : At d start owed ps v) : start < rxRing := by
  obtain ⟨more, hholds⟩ := h.holds
  exact hholds.start_lt

theorem size_lt (h : At d start owed (p :: ps) v) : p.size < rxRing := by
  obtain ⟨more, hholds⟩ := h.holds
  obtain ⟨slack, -, hlt⟩ := hholds.room
  rw [List.cons_append, used_cons] at hlt
  omega

/-- A call takes the oldest packet, whatever its status word is and whatever `pbuf_alloc` returns. -/
theorem rxPacket (pbufAlloc : PbufAlloc) (h : At d start 0 (p :: ps) v) (hstart : v.nextPacketPtr = start) :
    (∃ erdpt, At (d.rxPacket pbufAlloc).2 (p.next start) 0 ps (v.taken erdpt (p.next start))) ∧
      Returns pbufAlloc p.frame p.status.toNat (d.rxPacket pbufAlloc).1 := by
  have hnext : p.next start < rxRing := Nat.mod_lt _ (by decide)
  have hlt := h.start_lt
  have hsize := h.size_lt
  have hring : rxRing < 65536 := by decide
  obtain ⟨hb0, hb1, hb2, hb3, hb4, hb5, -⟩ := bytes_header p start
  have hptr : d.nextPacketPtr = start := (congrArg View.nextPacketPtr h.view).trans hstart
  unfold Packet.size at hsize
  unfold Dev.rxPacket
  dsimp only
  rw [spiWrite_nextPacketPtr, hptr]
  have hat := h.write_readPointer (n := start) (by omega)
  generalize (d.spiWrite erdptl (BitVec.ofNat 8 start)).spiWrite erdpth
    (BitVec.ofNat 8 (start / 256)) = d1 at *
  obtain ⟨hword, hat⟩ := hat.readWord (Nat.mod_eq_of_lt hlt).symm hb0 hb1 (by omega)
  have hat := hat.setNextPacketPtr (p.next start)
  rw [hword]
  generalize ({ d1.readWord.2 with nextPacketPtr := p.next start } : Dev) = d2 at *
  obtain ⟨hword, hat⟩ := hat.readWord rfl hb2 hb3 (by omega)
  rw [hword]
  generalize d2.readWord.2 = d3 at *
  obtain ⟨hword, hat⟩ := hat.readWord rfl hb4 hb5 p.status.isLt
  rw [hword, sub32_eq p.four_le (by unfold size32; omega)]
  generalize d3.readWord.2 = d4 at *
  obtain ⟨⟨erdpt, hat⟩, hreturns⟩ := hat.rxFrame pbufAlloc p.status.toNat rfl rfl (by omega)
  refine ⟨⟨erdpt, ?_⟩, hreturns⟩
  have hptr : (d4.rxFrame pbufAlloc p.status.toNat (p.data.length - 4)).2.nextPacketPtr = p.next start :=
    congrArg View.nextPacketPtr hat.view
  rw [spiWrite_nextPacketPtr, hptr]
  exact (hat.free rfl).setPktdec

/-- The branch for an empty ring sets `RXEN` and leaves the packets alone. -/
theorem enableReception (h : At d start owed ps v) :
    At ((d.enc28j60SetBank econ1).spiWriteOp .bitFieldSet econ1 0x04) start owed ps v := by
  have hbits : ∀ x : Byte, (x ||| 0x04) &&& 3 = x &&& 3 := by decide
  obtain ⟨hset, -⟩ := framed.enc28j60SetBank h econ1
  obtain ⟨hkeeps, hreg, hcache⟩ := framed.writeEcon1 hset.toKeeps .bitFieldSet 0x04
  refine ⟨hkeeps, ?_⟩
  rw [hcache, hset.bank, Chip.bank, Chip.bank, hreg, WriteOp.apply, hbits]

/-- A call takes the oldest packet; or there is none, and it changes nothing. -/
theorem enc28j60Rx (pbufAlloc : PbufAlloc) (h : At d start 0 ps v) (hstart : v.nextPacketPtr = start) :
    (∃ p rest erdpt, ps <+: p :: rest ∧
        At (d.enc28j60Rx pbufAlloc).2 (p.next start) 0 rest (v.taken erdpt (p.next start)) ∧
        Returns pbufAlloc p.frame p.status.toNat (d.enc28j60Rx pbufAlloc).1) ∨
      (ps = [] ∧ At (d.enc28j60Rx pbufAlloc).2 start 0 [] v) := by
  have hlevel := framed.enc28j60InterruptDisable h
  have hread := framed.spiRead hlevel epktcnt
  have hcounter := hlevel.spiRead_epktcnt
  unfold Dev.enc28j60Rx
  dsimp only
  generalize d.enc28j60InterruptDisable = level at *
  generalize level.2.spiRead epktcnt = pkCounter at *
  obtain ⟨more, hholds⟩ := hread.holds
  have hcount := hholds.count
  rw [← hcounter, Nat.add_zero] at hcount
  have hall : At pkCounter.2 start 0 (ps ++ more) v :=
    ⟨⟨⟨[], by rwa [List.append_nil]⟩, hread.view⟩, hread.bank⟩
  split
  next hne =>
    -- the counter is above zero, so the ring has an oldest packet
    cases hps : ps ++ more with
    | nil =>
      rw [hps] at hcount
      exact absurd (BitVec.eq_of_toNat_eq hcount) hne
    | cons p rest =>
      rw [hps] at hall
      obtain ⟨⟨erdpt, hat⟩, hreturns⟩ := hall.rxPacket pbufAlloc hstart
      exact .inl ⟨p, rest, erdpt, ⟨more, hps⟩, framed.enc28j60InterruptEnable hat _, hreturns⟩
  next hzero =>
    have hzero : pkCounter.1 = 0 := not_not.mp hzero
    have hnil : ps ++ more = [] := List.eq_nil_of_length_eq_zero (by rw [← hcount, hzero]; rfl)
    rw [hnil] at hall
    exact .inr ⟨(List.append_eq_nil_iff.mp hnil).1, framed.enc28j60InterruptEnable hall.enableReception _⟩

end At

/-! ## Runs -/

/-- What happens between two points outside of a call: a packet arrives, a call of `enc28j60_rx` with
the packets that arrive during it, or the rest of the driver uses the chip. -/
inductive Event where
  | arrive (p : Packet)
  | rx (air : List (List Packet)) (pbufAlloc : PbufAlloc)
  | other (d' : Dev)

/-- A call during which the packets `air` arrive. -/
def Dev.call (d : Dev) (air : List (List Packet)) (pbufAlloc : PbufAlloc) :
    Option (List (List Byte)) × Dev :=
  { d with air := air }.enc28j60Rx pbufAlloc

def step (d : Dev) : Event → Option Dev
  | .arrive p => some { d with chip := d.chip.receive p }
  | .rx air pbufAlloc => some (d.call air pbufAlloc).2
  | .other d' => some d'

/-- The rest of the driver works on other registers and on the memory behind the ring, and selects
banks with `enc28j60_set_bank`. -/
structure Leaves (d d' : Dev) : Prop where
  mem : ∀ i < rxRing, d'.chip.mem i = d.chip.mem i
  reg : ∀ r ∈ rxRegs, d'.chip.reg r = d.chip.reg r
  stored : d'.chip.stored = d.chip.stored
  pktdecs : d'.chip.pktdecs = d.chip.pktdecs
  nextPacketPtr : d'.nextPacketPtr = d.nextPacketPtr
  bank : d'.enc28j60Bank = d'.chip.bank

def Undisturbed (d : Dev) : Event → Prop
  | .other d' => Leaves d d'
  | _ => True

/-- The state that `enc28j60_init` leaves. -/
structure Initial (d : Dev) : Prop where
  erxst : d.chip.word erxstl = 0
  erxnd : d.chip.word erxndl = 0x19FE
  erxrdpt : d.chip.word erxrdptl = 0x19FE
  erxwrpt : d.chip.word erxwrptl = 0
  epktcnt : d.chip.reg epktcnt = 0
  autoinc : d.chip.reg econ2 &&& 0x80 ≠ 0
  stored : d.chip.stored = []
  pktdecs : d.chip.pktdecs = 0
  nextPacketPtr : d.nextPacketPtr = 0
  bank : d.enc28j60Bank = d.chip.bank

/-- The stored packets that no call has taken are in the ring from `NextPacketPtr` on. -/
structure Ready (d : Dev) : Prop where
  holds : d.chip.Holds d.nextPacketPtr 0 (d.chip.stored.drop d.chip.pktdecs)
  bank : d.enc28j60Bank = d.chip.bank

namespace Ready

/-- The packets in the ring are the ones that were stored and not taken. -/
theorem of_holds (h : d.chip.Holds d.nextPacketPtr 0 ps) (hbank : d.enc28j60Bank = d.chip.bank) :
    Ready d := by
  obtain ⟨taken, htaken, hlength⟩ := h.stored
  refine ⟨?_, hbank⟩
  rwa [htaken, ← Nat.add_zero d.chip.pktdecs, ← hlength, List.drop_left]

theorem of_at (h : At d start 0 ps v) (hstart : v.nextPacketPtr = start) : Ready d := by
  obtain ⟨more, hholds⟩ := h.holds
  have hptr : d.nextPacketPtr = start := (congrArg View.nextPacketPtr h.view).trans hstart
  rw [← hptr] at hholds
  exact of_holds hholds h.bank

theorem initial (h : Initial d) : Ready d := by
  suffices hholds : d.chip.Holds d.nextPacketPtr 0 [] from of_holds hholds h.bank
  -- one byte before the first packet stays free
  refine ⟨h.erxst, h.erxnd, h.autoinc, ?_, ⟨1, ?_, by decide⟩, ?_, ⟨[], ?_, ?_⟩⟩
  · rw [h.erxwrpt, h.nextPacketPtr]
    exact ⟨Nat.zero_le _, fun hpos => hpos, rfl, rfl⟩
  · rw [h.erxrdpt, h.nextPacketPtr]
    rfl
  · rw [h.epktcnt]
    rfl
  · exact h.stored
  · rw [h.pktdecs]
    rfl

theorem oldest (h : Ready d) (hcount : d.chip.reg epktcnt ≠ 0) :
    ∃ p rest, d.chip.stored.drop d.chip.pktdecs = p :: rest := by
  refine List.exists_cons_of_ne_nil fun hnil => hcount (BitVec.eq_of_toNat_eq ?_)
  rw [h.holds.count, hnil]
  rfl

theorem at_call (h : Ready d) (air : List (List Packet)) :
    At { d with air := air } d.nextPacketPtr 0 (d.chip.stored.drop d.chip.pktdecs) d.view :=
  ⟨⟨⟨[], by rw [List.append_nil]; exact h.holds⟩, rfl⟩, h.bank⟩

theorem step {e : Event} {d' : Dev} (h : Ready d) (hother : Undisturbed d e)
    (hstep : step d e = some d') : Ready d' := by
  cases e with
  | arrive p =>
    obtain rfl := Option.some.inj hstep
    obtain ⟨more, hholds⟩ := h.holds.receive p
    refine of_holds hholds ?_
    rw [h.bank, Chip.bank, Chip.bank, Chip.receive_reg _ _ (by decide)]
  | rx air pbufAlloc =>
    obtain rfl := Option.some.inj hstep
    rcases (h.at_call air).enc28j60Rx pbufAlloc rfl with ⟨p, rest, erdpt, -, hat, -⟩ | ⟨-, hat⟩
    · exact of_at hat rfl
    · exact of_at hat rfl
  | other d'' =>
    obtain rfl := Option.some.inj hstep
    have hholds := h.holds.congr hother.mem hother.reg hother.stored hother.pktdecs
    rw [← hother.nextPacketPtr] at hholds
    exact of_holds hholds hother.bank

end Ready

/-- The call that gives `r` in the state `d` takes the packet `p` from the ring: it is the oldest of
those that were stored and not taken. -/
structure Takes (d : Dev) (pbufAlloc : PbufAlloc) (p : Packet) (r : Option (List (List Byte)) × Dev) :
    Prop where
  oldest : d.chip.stored[d.chip.pktdecs]? = some p
  pktdec : r.2.chip.pktdecs = d.chip.pktdecs + 1
  nextPacketPtr : r.2.nextPacketPtr = p.next d.nextPacketPtr
  erxrdpt : r.2.chip.word erxrdptl = p.next d.nextPacketPtr
  returns : Returns pbufAlloc p.frame p.status.toNat r.1

/-- Whatever packets arrive, whatever their status words are and whenever `pbuf_alloc` fails, the
driver is at the oldest packet, and a call with a packet counter above zero takes that packet. -/
theorem rx_takes_oldest_packet {d0 d : Dev} {es : List Event} (hinit : Initial d0)
    (hother : Along step Undisturbed d0 es) (hrun : run step d0 es = some d) :
    Ready d ∧ ∀ air pbufAlloc, d.chip.reg epktcnt ≠ 0 →
      ∃ p, Takes d pbufAlloc p (d.call air pbufAlloc) ∧ Ready (d.call air pbufAlloc).2 := by
  have hready : Ready d :=
    run_invariant_along (fun _ _ _ hready hother hstep => hready.step hother hstep)
      (Ready.initial hinit) hother hrun
  refine ⟨hready, fun air pbufAlloc hcount => ?_⟩
  obtain ⟨p, rest, hdrop⟩ := hready.oldest hcount
  have hat := hready.at_call air
  rw [hdrop] at hat
  rcases hat.enc28j60Rx pbufAlloc rfl with ⟨q, rest', erdpt, hprefix, hat, hreturns⟩ | ⟨hnil, -⟩
  · obtain rfl : p = q := (List.cons_prefix_cons.mp hprefix).1
    refine ⟨p, ⟨?_, ?_, ?_, ?_, hreturns⟩, .of_at hat rfl⟩
    · rw [← Nat.add_zero d.chip.pktdecs, ← List.getElem?_drop, hdrop]
      rfl
    · exact congrArg View.pktdecs hat.view
    · exact congrArg View.nextPacketPtr hat.view
    · exact congrArg View.erxrdpt hat.view
  · cases hnil

/-- A packet with the two bytes `7, 9` and their checksum. -/
def shortPacket : Packet where
  status := 0x80
  data := [7, 9, 0xA1, 0xA2, 0xA3, 0xA4]
  pad := []
  four_le := by decide

/-- The registers after `enc28j60_init`, and zeros. -/
def bootDev : Dev where
  chip :=
    { reg := fun r =>
        ([(erxndl, 0xFE), (erxndh, 0x19), (erxrdptl, 0xFE), (erxrdpth, 0x19), (econ2, 0x80)].lookup r).getD 0
      erxrdptlBuffer := 0
      mem := fun _ => 0
      stored := []
      pktdecs := 0 }
  enc28j60Bank := 0
  nextPacketPtr := 0
  air := []

theorem initial_bootDev : Initial bootDev := by
  constructor <;> decide

/-- `pbuf_alloc` with `PBUF_RAM` gives one pbuf. -/
def onePbuf : PbufAlloc where
  segments n := some [n]
  sum_eq := by
    rintro n l ⟨⟩
    exact List.sum_singleton

/-- A packet waits, and another one arrives during the call. -/
theorem rx_takes_oldest_packet_short :
    ∃ d, run step bootDev [.arrive shortPacket] = some d ∧ d.chip.reg epktcnt ≠ 0 ∧
      ∃ p, Takes d onePbuf p (d.call [[], [shortPacket]] onePbuf) := by
  have hrun : run step bootDev [.arrive shortPacket] =
      some { bootDev with chip := bootDev.chip.receive shortPacket } := rfl
  have hcount : (bootDev.chip.receive shortPacket).reg epktcnt ≠ 0 := by decide
  have hother : Along step Undisturbed bootDev [.arrive shortPacket] :=
    along_of_forall fun e he _ => by
      rw [List.mem_singleton.mp he]
      trivial
  obtain ⟨-, htakes⟩ := rx_takes_oldest_packet initial_bootDev hother hrun
  obtain ⟨p, htakes, -⟩ := htakes [[], [shortPacket]] onePbuf hcount
  exact ⟨_, hrun, hcount, p, htakes⟩

end RtThread.Enc28j60Rx
