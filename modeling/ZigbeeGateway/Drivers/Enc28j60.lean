-- SUMMARY: The ENC28J60 driver at the granularity of SPI operations.
import Mathlib.Algebra.GroupWithZero.Nat
import ZigbeeGateway.Lib.Program
import ZigbeeGateway.Lib.Run

/-!
# ENC28J60

The driver functions of `enc28j60.c` as programs whose calls are the functions on the SPI bus.
One step is one SPI operation, one access to `Enc28j60Bank`, one operation on `lock_sem`, or a
silent step. A byte that is read from the chip can be any byte, since most registers are changed
by the hardware. Of the chip only `ECON1` is modelled, which holds the bank bits.
-/

namespace RtThread.Enc28j60

open Program Run

/-! ## Registers -/

/-- `ADDR_MASK`. -/
def addrMask : BitVec 8 := 0x1F

/-- `BANK_MASK`. -/
def bankMask : BitVec 8 := 0x60

namespace Reg

def eie : BitVec 8 := 0x1B
def eir : BitVec 8 := 0x1C
def econ2 : BitVec 8 := 0x1E
def econ1 : BitVec 8 := 0x1F
def erdptl : BitVec 8 := 0x00
def erdpth : BitVec 8 := 0x01
def ewrptl : BitVec 8 := 0x02
def ewrpth : BitVec 8 := 0x03
def etxstl : BitVec 8 := 0x04
def etxsth : BitVec 8 := 0x05
def etxndl : BitVec 8 := 0x06
def etxndh : BitVec 8 := 0x07
def erxstl : BitVec 8 := 0x08
def erxsth : BitVec 8 := 0x09
def erxndl : BitVec 8 := 0x0A
def erxndh : BitVec 8 := 0x0B
def erxrdptl : BitVec 8 := 0x0C
def erxrdpth : BitVec 8 := 0x0D
def erxwrptl : BitVec 8 := 0x0E
def erxwrpth : BitVec 8 := 0x0F
def erxfcon : BitVec 8 := 0x38
def epktcnt : BitVec 8 := 0x39
def macon1 : BitVec 8 := 0xC0
def macon3 : BitVec 8 := 0xC2
def macon4 : BitVec 8 := 0xC3
def mabbipg : BitVec 8 := 0xC4
def maipgl : BitVec 8 := 0xC6
def maipgh : BitVec 8 := 0xC7
def maclcon2 : BitVec 8 := 0xC9
def mamxfll : BitVec 8 := 0xCA
def mamxflh : BitVec 8 := 0xCB
def micmd : BitVec 8 := 0xD2
def miregadr : BitVec 8 := 0xD4
def miwrl : BitVec 8 := 0xD6
def miwrh : BitVec 8 := 0xD7
def mirdh : BitVec 8 := 0xD9
def maadr1 : BitVec 8 := 0xE0
def maadr0 : BitVec 8 := 0xE1
def maadr3 : BitVec 8 := 0xE2
def maadr2 : BitVec 8 := 0xE3
def maadr5 : BitVec 8 := 0xE4
def maadr4 : BitVec 8 := 0xE5
def mistat : BitVec 8 := 0xEA
def ecocon : BitVec 8 := 0x75

end Reg

/-- The SPI operation codes. -/
inductive Op where
  | readCtrlReg
  | readBufMem
  | writeCtrlReg
  | writeBufMem
  | bitFieldSet
  | bitFieldClr
  | softReset
  deriving DecidableEq, Repr

/-- The bank that a register address encodes. -/
def bankOf (address : BitVec 8) : BitVec 8 := address &&& bankMask

/-- The registers `EIE` to `ECON1` are in all banks. -/
def IsBanked (address : BitVec 8) : Prop := address &&& addrMask < Reg.eie

instance (address : BitVec 8) : Decidable (IsBanked address) := inferInstanceAs (Decidable (_ < _))

/-! ## The chip and the variables that the threads share -/

structure Shared where
  econ1 : BitVec 8
  enc28j60Bank : BitVec 8
  /-- The value of the semaphore `lock_sem`. -/
  lockSem : Nat
  deriving DecidableEq

namespace Shared

/-- The bank that the bits `BSEL1` and `BSEL0` select, at the place it has in an address. -/
def chipBank (sh : Shared) : BitVec 8 := (sh.econ1 &&& 3) <<< 5

/-- `spi_write_op`. -/
def spiWriteOp (sh : Shared) (op : Op) (address data : BitVec 8) : Shared :=
  match op with
  | .softReset => { sh with econ1 := 0 }
  | .bitFieldSet =>
    if address &&& addrMask = Reg.econ1 then { sh with econ1 := sh.econ1 ||| data } else sh
  | .bitFieldClr =>
    if address &&& addrMask = Reg.econ1 then { sh with econ1 := sh.econ1 &&& ~~~data } else sh
  | .writeCtrlReg => if address &&& addrMask = Reg.econ1 then { sh with econ1 := data } else sh
  | .writeBufMem | .readCtrlReg | .readBufMem => sh

end Shared

/-! ## Calls -/

/-- The variables of the driver functions. A `pbuf` is the list of its segment lengths, empty for
`RT_NULL`. `NextPacketPtr` is only used by the rx thread after the initialisation. -/
structure Locals where
  eir : BitVec 8
  pkCounter : BitVec 8
  rxActiviated : Bool
  mistat : BitVec 8
  reg : BitVec 8
  level : BitVec 8
  nextPacketPtr : BitVec 16
  len : BitVec 32
  rxstat : BitVec 16
  p : List Nat
  q : List Nat

/-- The calls of the driver functions. `transfer` is the loop over the bytes of a segment between
`CSACTIVE` and `CSPASSIVE`, and `pbuf` is an allocation or a message that gives a packet. -/
inductive Call where
  | setBank (address : BitVec 8)
  | spiRead (address : BitVec 8) (ret : BitVec 8 → Locals → Locals)
  | spiWrite (address : BitVec 8) (data : Locals → BitVec 8)
  | spiReadOp (op : Op) (address : BitVec 8) (ret : BitVec 8 → Locals → Locals)
  | spiWriteOp (op : Op) (address : BitVec 8) (data : Locals → BitVec 8)
  | transfer (op : Op)
  | pbuf (ret : List Nat → Locals → Locals)
  | ethDeviceReady
  | lockTake
  | lockRelease

/-- The address that the call selects the bank of. -/
def Call.target : Call → Option (BitVec 8)
  | .setBank address => some address
  | .spiRead address _ => some address
  | .spiWrite address _ => some address
  | _ => none

abbrev Code := Program.Code Locals Call

/-- The point of a call that its thread has reached. `clear` to `remember` are the statements of
`enc28j60_set_bank` after its test, and `access` is the SPI operation that follows it. -/
inductive Pc where
  | start
  | clear
  | select
  | remember
  | access
  deriving DecidableEq, Repr

/-- What a step gets from outside: the byte that is read, the packet that is received. -/
structure Input where
  byte : BitVec 8
  packet : List Nat

/-- A statement of `enc28j60_set_bank`. -/
def setBankStep (sh : Shared) (address : BitVec 8) : Pc → Option (Shared × Pc)
  | .start => some (sh, if address &&& bankMask ≠ sh.enc28j60Bank then .clear else .access)
  | .clear => some (sh.spiWriteOp .bitFieldClr Reg.econ1 3, .select)
  | .select => some (sh.spiWriteOp .bitFieldSet Reg.econ1 ((address &&& bankMask) >>> 5), .remember)
  | .remember => some ({ sh with enc28j60Bank := address &&& bankMask }, .access)
  | .access => none

/-- A step of a call. There is no next point when the call has returned. -/
def callStep (sh : Shared) (v : Locals) (inp : Input) (pc : Pc) :
    Call → Option (Shared × Locals × Option Pc)
  | .setBank address => (setBankStep sh address pc).map fun (sh, pc) =>
    (sh, v, if pc = .access then none else some pc)
  | .spiRead address ret =>
    if pc = .access then
      some (sh, ret inp.byte v, none)
    else
      (setBankStep sh address pc).map fun (sh, pc) => (sh, v, some pc)
  | .spiWrite address data =>
    if pc = .access then
      some (sh.spiWriteOp .writeCtrlReg address (data v), v, none)
    else
      (setBankStep sh address pc).map fun (sh, pc) => (sh, v, some pc)
  | .spiReadOp _ _ ret => some (sh, ret inp.byte v, none)
  | .spiWriteOp op address data => some (sh.spiWriteOp op address (data v), v, none)
  | .transfer _ => some (sh, v, none)
  | .pbuf ret => some (sh, ret inp.packet v, none)
  | .ethDeviceReady => some (sh, v, none)
  | .lockTake => if 0 < sh.lockSem then some ({ sh with lockSem := sh.lockSem - 1 }, v, none) else none
  | .lockRelease => some ({ sh with lockSem := sh.lockSem + 1 }, v, none)

/-! ## Driver functions -/

section Functions

def write (address data : BitVec 8) : Code := .call (.spiWrite address fun _ => data)

def setBits (address bits : BitVec 8) : Code := .call (.spiWriteOp .bitFieldSet address fun _ => bits)

def clearBits (address bits : BitVec 8) : Code :=
  .call (.spiWriteOp .bitFieldClr address fun _ => bits)

def setBank (address : BitVec 8) : Code := .call (.setBank address)

def readEir : Code := .call (.spiRead Reg.eir fun b v => { v with eir := b })

def readPkCounter : Code := .call (.spiRead Reg.epktcnt fun b v => { v with pkCounter := b })

/-- `while (spi_read(MISTAT) & MISTAT_BUSY)`. -/
def waitMistat : Code :=
  let read : Code := .call (.spiRead Reg.mistat fun b v => { v with mistat := b })
  .seq read (.loop (fun v => v.mistat &&& 0x01 ≠ 0) read)

def enc28j60PhyWrite (address : BitVec 8) (data : BitVec 16) : Code := .block [
  write Reg.miregadr address,
  write Reg.miwrl (data.setWidth 8),
  write Reg.miwrh ((data >>> 8).setWidth 8),
  waitMistat]

def enc28j60PhyRead (address : BitVec 8) : Code := .block [
  write Reg.miregadr address,
  write Reg.micmd 0x01,
  waitMistat,
  write Reg.micmd 0x00,
  .call (.spiRead Reg.mirdh fun b v => { v with reg := b })]

def enc28j60InterruptDisable : Code := .block [
  setBank Reg.eie,
  .call (.spiRead Reg.eie fun b v => { v with level := b }),
  .call (.spiWriteOp .bitFieldClr Reg.eie fun v => v.level)]

def enc28j60InterruptEnable : Code := .block [
  setBank Reg.eie,
  .call (.spiWriteOp .bitFieldSet Reg.eie fun v => v.level)]

/-- Its result is not used. -/
def enc28j60CheckLinkStatus : Code := enc28j60PhyRead 0x11

/-- The body of the loop of `enc28j60_isr`. -/
def isrBody : Code := .block [
  readPkCounter,
  .ite (fun v => v.pkCounter ≠ 0)
    (.block [.call .ethDeviceReady, setBank Reg.eie, clearBits Reg.eie 0x40]) .skip,
  .ite (fun v => v.eir &&& 0x40 ≠ 0)
    (.block [setBank Reg.eir, clearBits Reg.eir 0x40, .assign fun v => { v with rxActiviated := true }])
    .skip,
  .ite (fun v => v.eir &&& 0x20 ≠ 0) (.block [setBank Reg.eir, clearBits Reg.eir 0x20]) .skip,
  .ite (fun v => v.eir &&& 0x10 ≠ 0)
    (.block [enc28j60CheckLinkStatus, enc28j60PhyRead 0x13, setBank Reg.eir, clearBits Reg.eir 0x10])
    .skip,
  .ite (fun v => v.eir &&& 0x08 ≠ 0) (.block [setBank Reg.eir, clearBits Reg.eir 0x08]) .skip,
  .ite (fun v => v.eir &&& 0x02 ≠ 0) (clearBits Reg.eir 0x02) .skip,
  readEir]

def enc28j60Isr : Code := .block [
  .assign fun v => { v with rxActiviated := false },
  readEir,
  isrBody,
  .loop (fun v => v.rxActiviated = false ∧ v.eir ≠ 0) isrBody]

/-- `TXSTART_INIT + p->tot_len + 1`. -/
def txEnd (v : Locals) : BitVec 32 := BitVec.ofNat 32 (0x19FF + v.p.sum % 65536 + 1)

/-- The loop over the segments of a packet. -/
def segments (op : Op) : Code := .block [
  .assign fun v => { v with q := v.p },
  .loop (fun v => v.q ≠ []) (.block [.call (.transfer op), .assign fun v => { v with q := v.q.tail }])]

def enc28j60Tx : Code := .block [
  .call .lockTake,
  enc28j60InterruptDisable,
  write Reg.ewrptl 0xFF,
  write Reg.ewrpth 0x19,
  .call (.spiWrite Reg.etxndl fun v => (txEnd v).setWidth 8),
  .call (.spiWrite Reg.etxndh fun v => (txEnd v >>> 8).setWidth 8),
  .call (.spiWriteOp .writeBufMem 0 fun _ => 0),
  segments .writeBufMem,
  setBits Reg.econ1 0x08,
  readEir,
  .ite (fun v => v.eir &&& 0x02 ≠ 0) (clearBits Reg.econ1 0x08) .skip,
  enc28j60InterruptEnable,
  .call .lockRelease]

/-- `spi_read_op(ENC28J60_READ_BUF_MEM, 0)`. -/
def readBuf (ret : BitVec 8 → Locals → Locals) : Code := .call (.spiReadOp .readBufMem 0 ret)

/-- The packet at `NextPacketPtr` is read, and its memory is freed. -/
def rxPacket : Code := .block [
  .call (.spiWrite Reg.erdptl fun v => v.nextPacketPtr.setWidth 8),
  .call (.spiWrite Reg.erdpth fun v => (v.nextPacketPtr >>> 8).setWidth 8),
  readBuf fun b v => { v with nextPacketPtr := b.setWidth 16 },
  readBuf fun b v => { v with nextPacketPtr := v.nextPacketPtr ||| (b.setWidth 16 <<< 8) },
  readBuf fun b v => { v with len := b.setWidth 32 },
  readBuf fun b v => { v with len := v.len ||| (b.setWidth 32 <<< 8) },
  .assign fun v => { v with len := v.len - 4 },
  readBuf fun b v => { v with rxstat := b.setWidth 16 },
  readBuf fun b v => { v with rxstat := v.rxstat ||| (b.setWidth 16 <<< 8) },
  .ite (fun v => v.rxstat &&& 0x80 = 0)
    (.assign fun v => { v with len := 0 })
    (.block [
      .call (.pbuf fun packet v => { v with p := packet }),
      .ite (fun v => v.p ≠ []) (segments .readBufMem) .skip]),
  .call (.spiWrite Reg.erxrdptl fun v => v.nextPacketPtr.setWidth 8),
  .call (.spiWrite Reg.erxrdpth fun v => (v.nextPacketPtr >>> 8).setWidth 8),
  setBits Reg.econ2 0x40]

def enc28j60Rx : Code := .block [
  .assign fun v => { v with p := [] },
  .call .lockTake,
  enc28j60InterruptDisable,
  readPkCounter,
  .ite (fun v => v.pkCounter ≠ 0)
    rxPacket
    (.block [
      setBank Reg.econ1,
      setBits Reg.econ1 0x04,
      .assign fun v => { v with level := v.level ||| 0x40 }]),
  enc28j60InterruptEnable,
  .call .lockRelease]

/-- `enc28j60_init` with the hardware address `devAddr`. -/
def enc28j60Init (devAddr : Nat → BitVec 8) : Code := .block [
  .call (.spiWriteOp .softReset 0 fun _ => 0xFF),
  .assign fun v => { v with nextPacketPtr := 0 },
  write Reg.erxstl 0x00,
  write Reg.erxsth 0x00,
  write Reg.erxrdptl 0xFE,
  write Reg.erxrdpth 0x19,
  write Reg.erxndl 0xFE,
  write Reg.erxndh 0x19,
  write Reg.etxstl 0xFF,
  write Reg.etxsth 0x19,
  write Reg.ewrptl 0xFF,
  write Reg.ewrpth 0x19,
  write Reg.etxndl 0xFF,
  write Reg.etxndh 0x1F,
  write Reg.erxfcon 0xA1,
  write Reg.macon1 0x0D,
  setBits Reg.macon3 0x33,
  write Reg.mabbipg 0x15,
  write Reg.macon4 0x40,
  write Reg.maclcon2 63,
  write Reg.maipgl 0x12,
  write Reg.maipgh 0x0C,
  write Reg.mamxfll 0xEE,
  write Reg.mamxflh 0x05,
  write Reg.maadr0 (devAddr 5),
  write Reg.maadr1 (devAddr 4),
  write Reg.maadr2 (devAddr 3),
  write Reg.maadr3 (devAddr 2),
  write Reg.maadr4 (devAddr 1),
  write Reg.maadr5 (devAddr 0),
  write Reg.ecocon 0x00,
  enc28j60PhyWrite 0x00 0x0100,
  enc28j60PhyWrite 0x10 0x0100,
  setBank Reg.econ2,
  setBits Reg.econ2 0x80,
  setBank Reg.econ1,
  setBits Reg.eie 0xC8,
  setBits Reg.econ1 0x04,
  enc28j60PhyWrite 0x14 0x0D76]

def forever (p : Code) : Code := .loop (fun _ => true) p

def ethIsrThreadEntry : Code := forever enc28j60Isr

/-- The calls of `eth_rx` by the rx thread. -/
def ethRxThreadEntry : Code := forever enc28j60Rx

/-- The calls of `eth_tx` by the tx thread, with the packet of the message. -/
def ethTxThreadEntry : Code :=
  forever (.seq (.call (.pbuf fun packet v => { v with p := packet })) enc28j60Tx)

end Functions

/-! ## Threads -/

structure Thread where
  stack : List Code
  locals : Locals
  pc : Pc

namespace Thread

/-- The address of the bank selection that is next or in progress. -/
def target (th : Thread) : Option (BitVec 8) :=
  match th.stack with
  | .call c :: _ => c.target
  | _ => none

/-- The address of the register that `spi_read` or `spi_write` accesses next. -/
def accesses (th : Thread) : Option (BitVec 8) := if th.pc = .access then th.target else none

/-- `enc28j60_set_bank` is in progress. -/
def InSetBank (th : Thread) : Prop := th.pc = .clear ∨ th.pc = .select ∨ th.pc = .remember

/-- The bank bits are being written, and `Enc28j60Bank` is not up to date. -/
def Selecting (th : Thread) : Prop := th.pc = .select ∨ th.pc = .remember

end Thread

/-- A step of a thread. -/
def threadStep (sh : Shared) (th : Thread) (inp : Input) : Option (Shared × Thread) :=
  match th.stack with
  | .call c :: k =>
    (callStep sh th.locals inp th.pc c).map fun
      | (sh, v, none) => (sh, ⟨k, v, .start⟩)
      | (sh, v, some pc) => (sh, ⟨th.stack, v, pc⟩)
  | k => (silent k th.locals).map fun (k, v) => (sh, ⟨k, v, th.pc⟩)

inductive Who where
  | isr
  | rx
  | tx
  deriving DecidableEq, Repr

structure Sys where
  shared : Shared
  thread : Who → Thread

structure Event where
  who : Who
  input : Input

def step (s : Sys) (e : Event) : Option Sys :=
  (threadStep s.shared (s.thread e.who) e.input).map fun (sh, th) =>
    ⟨sh, Function.update s.thread e.who th⟩

/-- A thread on its own, such as the one that calls `enc28j60_init`. -/
def soloStep (s : Shared × Thread) (inp : Input) : Option (Shared × Thread) := threadStep s.1 s.2 inp

def entry : Who → Code
  | .isr => ethIsrThreadEntry
  | .rx => ethRxThreadEntry
  | .tx => ethTxThreadEntry

/-- The three threads at their entry functions, after a call of `enc28j60_init` that found the
chip and `Enc28j60Bank` in any state. -/
structure Initial (s : Sys) : Prop where
  init : ∃ devAddr sh v is v', run soloStep (sh, ⟨[enc28j60Init devAddr], v, .start⟩) is =
    some (s.shared, ⟨[], v', .start⟩)
  lock : s.shared.lockSem = 1
  thread : ∀ w, ∃ v, s.thread w = ⟨[entry w], v, .start⟩

end RtThread.Enc28j60
