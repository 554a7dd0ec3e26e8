-- SUMMARY: enc28j60_tx on a chip that sends what its pointers enclose.
import ZigbeeGateway.Drivers.Enc28j60Rx

/-!
# Sending packets

`enc28j60_tx` with a chip behind the SPI bus. When `TXRTS` is set, the chip sends the bytes of its memory
behind the control byte at `ETXST`, up to and including the one at `ETXND`. `TXRTS` stays set until the frame
has gone out. The bit is kept apart from the other bits of `ECON1`, because the transmit logic clears it by
itself: before each write to the transmit buffer or its pointers the frame may or may not have gone out.

The driver writes the control byte and the frame from `TXSTART_INIT` on and sets `ETXND` one byte too far.
It never reads `TXRTS`.
-/

namespace RtThread.Enc28j60Tx

open Run Function

open Enc28j60.Reg
open Enc28j60Rx

/-- `TXSTART_INIT`. -/
def txStart : Nat := 0x19FF

/-! ## The transmit buffer -/

/-- A byte is written at `EWRPT`, which is increased when `AUTOINC` is set. -/
def writeBuf (c : Chip) (b : Byte) : Chip :=
  let ewrpt := c.word ewrptl
  let c := { c with mem := update c.mem ewrpt b }
  if c.reg econ2 &&& 0x80 ≠ 0 then c.setWord ewrptl ((ewrpt + 1) % 8192) else c

/-- A byte that is written with `ENC28J60_WRITE_BUF_MEM`. -/
def devWriteBufMem (d : Dev) (b : Byte) : Dev :=
  let d := d.arrivals
  { d with chip := writeBuf d.chip b }

/-- The bytes behind the one at `ETXST`, up to the one at `ETXND`. -/
def frame (c : Chip) : List Byte := Ring.load c.mem (c.word etxstl + 1) (c.word etxndl - c.word etxstl)

/-- The chip and the driver, the bit `TXRTS`, whether the frame goes out before each of the next writes,
the frames that the chip was made to send, and for each write to `EWRPT`, `ETXND` or the transmit
buffer whether `TXRTS` was set. -/
structure TxDev where
  dev : Dev
  txrts : Bool
  out : List Bool
  sent : List (List Byte)
  writes : List Bool

namespace TxDev

/-- A write to the transmit buffer or its pointers follows. -/
def beforeWrite (d : TxDev) : TxDev :=
  let txrts := d.txrts && !d.out.headD false
  { d with txrts := txrts, out := d.out.tail, writes := d.writes ++ [txrts] }

/-- `spi_write` to a register of `EWRPT` or `ETXND`. -/
def spiWrite (d : TxDev) (address data : Byte) : TxDev :=
  { d.beforeWrite with dev := d.dev.spiWrite address data }

def writeBufMem (d : TxDev) (b : Byte) : TxDev :=
  { d.beforeWrite with dev := devWriteBufMem d.dev b }

/-- `TXRTS` is set, and the chip begins to send. -/
def setTxrts (d : TxDev) : TxDev :=
  let dev := d.dev.spiWriteOp .bitFieldSet econ1 0x08
  { d with dev := dev, txrts := true, sent := d.sent ++ [frame dev.chip] }

def clearTxrts (d : TxDev) : TxDev :=
  { d with dev := d.dev.spiWriteOp .bitFieldClr econ1 0x08, txrts := false }

/-- The end of `enc28j60_tx`, from the setting of `TXRTS` on. -/
def start (d : TxDev) (level : Byte) : TxDev :=
  let d := d.setTxrts
  let eir := d.dev.spiRead eir
  let d := { d with dev := eir.2 }
  -- reset the transmit logic problem, see Rev. B4 Silicon Errata point 12
  let d := if eir.1 &&& 0x02 ≠ 0 then d.clearTxrts else d
  { d with dev := d.dev.enc28j60InterruptEnable level }

/-- The part of `enc28j60_tx` that fills the transmit buffer with the pbufs of a chain. -/
def fill (d : TxDev) (totLen : Nat) (p : List (List Byte)) : TxDev :=
  let d := d.spiWrite ewrptl (BitVec.ofNat 8 txStart)
  let d := d.spiWrite ewrpth (BitVec.ofNat 8 (txStart / 256))
  -- the end pointer for the packet size given
  let d := d.spiWrite etxndl (BitVec.ofNat 8 (txStart + totLen + 1))
  let d := d.spiWrite etxndh (BitVec.ofNat 8 ((txStart + totLen + 1) / 256))
  -- the control byte
  let d := d.writeBufMem 0
  p.foldl (fun d payload => payload.foldl writeBufMem d) d

/-- `enc28j60_tx` of a chain with the length field `totLen`, when `lock_sem` is free. -/
def enc28j60Tx (d : TxDev) (totLen : Nat) (p : List (List Byte)) : TxDev :=
  let level := d.dev.enc28j60InterruptDisable
  ({ d with dev := level.2 }.fill totLen p).start level.1

end TxDev

/-! ## Registers and memory of a call -/

/-- The registers of the transmit buffer. -/
def txRegs : List Byte := [etxstl, etxsth, etxndl, etxndh, ewrptl, ewrpth, econ2]

/-- The transmit pointers and the memory behind the receive ring. -/
structure TxKeeps (d : Dev) (ewrpt etxnd : Nat) (m : Nat → Byte) : Prop where
  wrpt : d.chip.word erxwrptl < rxRing
  autoinc : d.chip.reg econ2 &&& 0x80 ≠ 0
  etxst : d.chip.word etxstl = txStart
  ewrpt : d.chip.word ewrptl = ewrpt
  etxnd : d.chip.word etxndl = etxnd
  mem : ∀ i, rxRing ≤ i → d.chip.mem i = m i

/-- A point of a call outside of `enc28j60_set_bank`. -/
structure TxAt (d : Dev) (ewrpt etxnd : Nat) (m : Nat → Byte) : Prop
    extends TxKeeps d ewrpt etxnd m where
  bank : d.enc28j60Bank = d.chip.bank

variable {d d' : Dev} {ewrpt etxnd n : Nat} {m : Nat → Byte}

theorem receive_keeps {c : Chip} (p : Packet) (hwrpt : c.word erxwrptl < rxRing) :
    (c.receive p).word erxwrptl < rxRing ∧ ∀ i, rxRing ≤ i → (c.receive p).mem i = c.mem i := by
  by_cases hfit : p.size ≤ c.freeSpace ∧ c.reg epktcnt ≠ 255
  · obtain ⟨hmem, hword, -, -⟩ := c.receive_of_fits p hfit
    rw [hmem, hword]
    exact ⟨Nat.mod_lt _ (by decide), fun i hi => Ring.fill_of_le hwrpt hi⟩
  · rw [c.receive_of_not_fits p hfit]
    exact ⟨hwrpt, fun _ _ => rfl⟩

theorem receive_all_keeps {c : Chip} (ps : List Packet) (hwrpt : c.word erxwrptl < rxRing) :
    (ps.foldl Chip.receive c).word erxwrptl < rxRing ∧
      ∀ i, rxRing ≤ i → (ps.foldl Chip.receive c).mem i = c.mem i := by
  induction ps generalizing c with
  | nil => exact ⟨hwrpt, fun _ _ => rfl⟩
  | cons p ps ih =>
    obtain ⟨hwrpt', hmem⟩ := receive_keeps p hwrpt
    obtain ⟨hlast, hmem'⟩ := ih hwrpt'
    exact ⟨hlast, fun i hi => (hmem' i hi).trans (hmem i hi)⟩

namespace TxKeeps

variable (h : TxKeeps d ewrpt etxnd m)

include h

/-- The pointers and the memory may change, the start of the buffer and the mode not. -/
theorem congr {ewrpt' etxnd' : Nat} {m' : Nat → Byte} (hwrpt : d'.chip.word erxwrptl < rxRing)
    (hreg : ∀ r ∈ [econ2, etxstl, etxsth], d'.chip.reg r = d.chip.reg r)
    (hewrpt : d'.chip.word ewrptl = ewrpt') (hetxnd : d'.chip.word etxndl = etxnd')
    (hmem : ∀ i, rxRing ≤ i → d'.chip.mem i = m' i) : TxKeeps d' ewrpt' etxnd' m' := by
  refine ⟨hwrpt, ?_, ?_, hewrpt, hetxnd, hmem⟩
  · rw [hreg _ (by decide)]
    exact h.autoinc
  · rw [Chip.word_congr (hreg _ (by decide)) (hreg _ (by decide)), h.etxst]

theorem arrivals : TxKeeps d.arrivals ewrpt etxnd m := by
  have hkeep : d.arrivals.chip.word erxwrptl < rxRing ∧
      ∀ i, rxRing ≤ i → d.arrivals.chip.mem i = d.chip.mem i := by
    unfold Dev.arrivals
    split
    · exact ⟨h.wrpt, fun _ _ => rfl⟩
    · exact receive_all_keeps _ h.wrpt
  have hreg : ∀ r ∈ txRegs, d.arrivals.chip.reg r = d.chip.reg r := by
    have hother : ∀ r ∈ txRegs, r ∉ hwRegs := by decide
    exact fun r hr => arrivals_reg d (hother r hr)
  have htx : ∀ r ∈ [econ2, etxstl, etxsth], r ∈ txRegs := by decide
  refine h.congr hkeep.1 (fun r hr => hreg r (htx r hr)) ?_ ?_
    fun i hi => (hkeep.2 i hi).trans (h.mem i hi)
  · rw [Chip.word_congr (hreg _ (by decide)) (hreg _ (by decide)), h.ewrpt]
  · rw [Chip.word_congr (hreg _ (by decide)) (hreg _ (by decide)), h.etxnd]

/-- A register is set that is neither used by the receive hardware nor fixed during a call. -/
theorem setReg {r : Byte} (data : Byte) (hr : r ∉ [erxwrptl, erxwrpth, econ2, etxstl, etxsth]) :
    TxKeeps { d with chip := d.chip.setReg r data } ((d.chip.setReg r data).word ewrptl)
      ((d.chip.setReg r data).word etxndl) m := by
  have hreg : ∀ r' ∈ [erxwrptl, erxwrpth, econ2, etxstl, etxsth],
      (d.chip.setReg r data).reg r' = d.chip.reg r' :=
    fun r' hr' => Chip.setReg_of_ne _ _ fun heq => hr (heq ▸ hr')
  have hword : (d.chip.setReg r data).word erxwrptl = d.chip.word erxwrptl :=
    Chip.word_congr (hreg _ (by decide)) (hreg _ (by decide))
  exact h.congr (hword ▸ h.wrpt) (fun r' hr' => hreg r' (by simp [hr'])) rfl rfl h.mem

end TxKeeps

namespace TxAt

theorem framed : Framed (TxKeeps · ewrpt etxnd m) (TxAt · ewrpt etxnd m) where
  arrivals h := h.arrivals
  setReg {d r} data hr h := by
    have hset := h.setReg (r := r) data (by rcases hr with rfl | rfl <;> decide)
    have hne : ∀ low ∈ [ewrptl, etxndl], low ≠ r ∧ low + 1 ≠ r := by rcases hr with rfl | rfl <;> decide
    obtain ⟨hewrpt, hetxnd⟩ := And.intro (hne ewrptl (by decide)) (hne etxndl (by decide))
    rwa [Chip.word_setReg _ _ hewrpt.1 hewrpt.2, Chip.word_setReg _ _ hetxnd.1 hetxnd.2, h.ewrpt, h.etxnd]
      at hset
  setBank _ h := h.congr h.wrpt (fun _ _ => rfl) h.ewrpt h.etxnd h.mem
  at_iff := ⟨fun h => ⟨h.toTxKeeps, h.bank⟩, fun h => ⟨h.1, h.2⟩⟩

section

variable (h : TxAt d ewrpt etxnd m)

include h

/-- A register of the write pointer or of the end pointer is set. -/
theorem setReg (r data : Byte) (hr : r ∈ [ewrptl, ewrpth, etxndl, etxndh]) :
    TxAt { d with chip := d.chip.setReg r data } ((d.chip.setReg r data).word ewrptl)
      ((d.chip.setReg r data).word etxndl) m := by
  have hother : ∀ r ∈ [ewrptl, ewrpth, etxndl, etxndh],
      r ∉ [erxwrptl, erxwrpth, econ2, etxstl, etxsth] ∧ econ1 ≠ r := by decide
  refine ⟨h.toTxKeeps.setReg data (hother r hr).1, ?_⟩
  rw [bank_setReg (hother r hr).2, h.bank]

/-- The write pointer is set to an address. -/
theorem write_ewrpt (hn : n < 65536) :
    TxAt ((d.spiWrite ewrptl (BitVec.ofNat 8 n)).spiWrite ewrpth (BitVec.ofNat 8 (n / 256))) n etxnd
      m := by
  have hne : ∀ r ∈ [ewrptl, ewrpth],
      r ∈ [ewrptl, ewrpth, etxndl, etxndh] ∧ etxndl ≠ r ∧ etxndl + 1 ≠ r := by decide
  refine Framed.writeWord (A := fun i d => TxAt d i etxnd m) (fun _ => framed) (by decide) rfl (by decide)
    (fun h => h.ewrpt) (fun r data hr h => ?_) h hn
  have hset := h.setReg r data (hne r hr).1
  rwa [Chip.word_setReg _ _ (hne r hr).2.1 (hne r hr).2.2, h.etxnd] at hset

/-- The end pointer is set to an address. -/
theorem write_etxnd (hn : n < 65536) :
    TxAt ((d.spiWrite etxndl (BitVec.ofNat 8 n)).spiWrite etxndh (BitVec.ofNat 8 (n / 256))) ewrpt n
      m := by
  have hne : ∀ r ∈ [etxndl, etxndh],
      r ∈ [ewrptl, ewrpth, etxndl, etxndh] ∧ ewrptl ≠ r ∧ ewrptl + 1 ≠ r := by decide
  refine Framed.writeWord (A := fun i d => TxAt d ewrpt i m) (fun _ => framed) (by decide) rfl (by decide)
    (fun h => h.etxnd) (fun r data hr h => ?_) h hn
  have hset := h.setReg r data (hne r hr).1
  rwa [Chip.word_setReg _ _ (hne r hr).2.1 (hne r hr).2.2, h.ewrpt] at hset

/-- A byte is written behind the receive ring. -/
theorem writeBufMem (b : Byte) (hle : rxRing ≤ ewrpt) (hlt : ewrpt < 8191) :
    TxAt (devWriteBufMem d b) (ewrpt + 1) etxnd (update m ewrpt b) := by
  have hat := framed.at_arrivals h
  have hnext : (ewrpt + 1) % 8192 = ewrpt + 1 := Nat.mod_eq_of_lt (by omega)
  have hwrite : writeBuf d.arrivals.chip b =
      { d.arrivals.chip with mem := update d.arrivals.chip.mem ewrpt b }.setWord ewrptl
        (ewrpt + 1) := by
    rw [writeBuf, hat.ewrpt, hnext]
    exact if_pos hat.autoinc
  have hreg : ∀ r, r ≠ ewrptl ∧ r ≠ ewrpth → (writeBuf d.arrivals.chip b).reg r = d.arrivals.chip.reg r := by
    intro r hr
    rw [hwrite, Chip.setWord_of_ne _ _ hr.1 hr.2]
  have hword : ∀ low, low ∈ [erxwrptl, etxndl] →
      (writeBuf d.arrivals.chip b).word low = d.arrivals.chip.word low := by
    have hne : ∀ low ∈ [erxwrptl, etxndl],
        (low ≠ ewrptl ∧ low ≠ ewrpth) ∧ low + 1 ≠ ewrptl ∧ low + 1 ≠ ewrpth := by decide
    exact fun low hlow => Chip.word_congr (hreg _ (hne low hlow).1) (hreg _ (hne low hlow).2)
  have hfixed : ∀ r ∈ [econ2, etxstl, etxsth], r ≠ ewrptl ∧ r ≠ ewrpth := by decide
  refine ⟨hat.congr (lt_of_eq_of_lt (hword erxwrptl (by decide)) hat.wrpt)
    (fun r hr => hreg r (hfixed r hr)) ?_ ((hword _ (by decide)).trans hat.etxnd) fun i hi => ?_, ?_⟩
  · change (writeBuf d.arrivals.chip b).word ewrptl = ewrpt + 1
    rw [hwrite, Chip.word_setWord _ (by decide) (by omega)]
  · change (writeBuf d.arrivals.chip b).mem i = _
    rw [hwrite, Chip.setWord_mem]
    dsimp only
    rcases eq_or_ne i ewrpt with rfl | hne
    · rw [update_self, update_self]
    · rw [update_of_ne hne, update_of_ne hne, hat.mem i hi]
  · change d.arrivals.enc28j60Bank = (writeBuf d.arrivals.chip b).bank
    rw [hat.bank, Chip.bank, Chip.bank, hreg _ (by decide)]

end

/-- The bytes `l` are written one behind the other. -/
theorem writeBytes (l : List Byte) (h : TxAt d ewrpt etxnd m) (hle : rxRing ≤ ewrpt)
    (hlt : ewrpt + l.length < 8192) :
    TxAt (l.foldl devWriteBufMem d) (ewrpt + l.length) etxnd (Ring.store m ewrpt l) := by
  induction l generalizing d ewrpt m with
  | nil => exact h
  | cons b l ih =>
    rw [List.length_cons] at hlt ⊢
    have hadd : ewrpt + (l.length + 1) = ewrpt + 1 + l.length := by omega
    rw [List.foldl_cons, hadd]
    exact ih (h.writeBufMem b hle (by omega)) (by omega) (by omega)

end TxAt

/-- The chip between two calls, as `enc28j60_init` leaves it. -/
structure TxReady (d : Dev) : Prop where
  bank : d.enc28j60Bank = d.chip.bank
  wrpt : d.chip.word erxwrptl < rxRing
  autoinc : d.chip.reg econ2 &&& 0x80 ≠ 0
  etxst : d.chip.word etxstl = txStart

theorem TxReady.txAt (h : TxReady d) :
    TxAt d (d.chip.word ewrptl) (d.chip.word etxndl) d.chip.mem :=
  ⟨⟨h.wrpt, h.autoinc, h.etxst, rfl, rfl, fun _ _ => rfl⟩, h.bank⟩

/-! ## The frame that is sent -/

namespace TxDev

theorem foldl_writeBufMem_dev (l : List Byte) (d : TxDev) :
    (l.foldl writeBufMem d).dev = l.foldl devWriteBufMem d.dev ∧ (l.foldl writeBufMem d).sent = d.sent := by
  induction l generalizing d with
  | nil => exact ⟨rfl, rfl⟩
  | cons b _ ih => exact ih (d.writeBufMem b)

/-- What the buffer and the pointers are when a chain has been copied. -/
theorem fill_at {d : TxDev} {ewrpt etxnd : Nat} {m : Nat → Byte} (p : List (List Byte))
    (h : TxAt d.dev ewrpt etxnd m) (hlen : p.flatten.length ≤ 1514) :
    (∃ ewrpt, TxAt (d.fill p.flatten.length p).dev ewrpt (txStart + p.flatten.length + 1)
      (Ring.store m txStart (0 :: p.flatten))) ∧ (d.fill p.flatten.length p).sent = d.sent := by
  have hstart : txStart < 65536 := by decide
  have hlast : txStart + p.flatten.length + 1 < 65536 := by
    unfold txStart
    omega
  have hptr := (h.write_ewrpt hstart).write_etxnd hlast
  have hbytes := hptr.writeBytes (0 :: p.flatten) (by decide) (by
    rw [List.length_cons]
    unfold txStart
    omega)
  unfold fill
  rw [← List.foldl_flatten]
  obtain ⟨hdev, hsent⟩ := foldl_writeBufMem_dev p.flatten _
  rw [hdev, hsent]
  exact ⟨⟨_, hbytes⟩, rfl⟩

/-- Only the setting of `TXRTS` makes the chip send. -/
theorem start_sent (d : TxDev) (level : Byte) :
    (d.start level).sent = d.sent ++ [frame (d.dev.spiWriteOp .bitFieldSet econ1 0x08).chip] := by
  unfold start
  dsimp only
  split <;> rfl

/-- The bytes of a block behind its first one, and the byte behind the block. -/
theorem load_behind (m : Nat → Byte) (b : Byte) (l : List Byte) :
    Ring.load (Ring.store m txStart (b :: l)) (txStart + 1) (l.length + 1) =
      l ++ [m (txStart + l.length + 1)] := by
  have hlast : txStart + 1 + l.length = txStart + l.length + 1 := by omega
  rw [Ring.store, Ring.load_store, hlast, Ring.load, List.range_one, List.map_singleton, Nat.add_zero,
    update_of_ne (by omega)]

/-- A call makes the chip send the bytes of the chain and one byte more: the one that an earlier use of
the memory left behind them. So it is never just the chain. -/
theorem tx_sends_one_more (d : TxDev) (totLen : Nat) (p : List (List Byte)) (h : TxReady d.dev)
    (htot : totLen = (p.map List.length).sum) (hlen : totLen ≤ 1514) :
    (d.enc28j60Tx totLen p).sent =
        d.sent ++ [p.flatten ++ [d.dev.chip.mem (txStart + totLen + 1)]] ∧
      (d.enc28j60Tx totLen p).sent ≠ d.sent ++ [p.flatten] := by
  have htot : totLen = p.flatten.length := htot.trans List.length_flatten.symm
  subst htot
  obtain ⟨⟨ewrpt, hat⟩, hsent⟩ := fill_at (d := { d with dev := d.dev.enc28j60InterruptDisable.2 }) p
    (TxAt.framed.enc28j60InterruptDisable h.txAt) hlen
  obtain ⟨hkeeps, -, -⟩ := TxAt.framed.writeEcon1 hat.toTxKeeps .bitFieldSet 0x08
  have hcount : txStart + p.flatten.length + 1 - txStart = p.flatten.length + 1 := by omega
  have hframe : frame (({ d with dev := d.dev.enc28j60InterruptDisable.2 }.fill p.flatten.length
      p).dev.spiWriteOp .bitFieldSet econ1 0x08).chip =
      p.flatten ++ [d.dev.chip.mem (txStart + p.flatten.length + 1)] := by
    rw [frame, hkeeps.etxst, hkeeps.etxnd, hcount, ← load_behind _ 0]
    exact List.map_congr_left fun j _ => hkeeps.mem _ (by unfold rxRing txStart; omega)
  have hall : (d.enc28j60Tx p.flatten.length p).sent =
      d.sent ++ [p.flatten ++ [d.dev.chip.mem (txStart + p.flatten.length + 1)]] := by
    rw [enc28j60Tx, start_sent, hframe, hsent]
  refine ⟨hall, ?_⟩
  rw [hall]
  simp

/-- The registers after `enc28j60_init`, `TXRTS` clear and nothing sent. -/
def boot : TxDev where
  dev :=
    { bootDev with
      chip := (bootDev.chip.setReg etxstl 0xFF).setReg etxsth 0x19 }
  txrts := false
  out := []
  sent := []
  writes := []

/-- Behind the three bytes of two pbufs lies a zero. -/
theorem tx_sends_one_more_twoPbufs :
    TxReady boot.dev ∧ (boot.enc28j60Tx 3 [[1, 2], [3]]).sent = [[1, 2, 3, 0]] := by
  have hready : TxReady boot.dev := by constructor <;> decide
  exact ⟨hready, (tx_sends_one_more boot 3 [[1, 2], [3]] hready (by decide) (by decide)).1⟩

/-- One pbuf with one byte: the chip sends two. -/
theorem tx_sends_two_bytes :
    TxReady boot.dev ∧ (boot.enc28j60Tx 1 [[7]]).sent = boot.sent ++ [[7, 0]] ∧
      (boot.enc28j60Tx 1 [[7]]).sent ≠ boot.sent ++ [[[7]].flatten] := by
  refine ⟨by constructor <;> decide, by decide +kernel, by decide +kernel⟩

/-! ## Writes while a frame is being sent -/

/-- What a part of a call writes: while `TXRTS` is clear, all of it happens with `TXRTS` clear. -/
structure Writes (d d' : TxDev) (log : List Bool) : Prop where
  writes : d'.writes = d.writes ++ log
  clear : d.txrts = false → d'.txrts = false ∧ ∀ txrts ∈ log, txrts = false

variable {d d' d'' : TxDev} {log log' : List Bool}

theorem Writes.refl (d : TxDev) : Writes d d [] := ⟨(List.append_nil _).symm, fun h => ⟨h, nofun⟩⟩

theorem Writes.trans (h : Writes d d' log) (h' : Writes d' d'' log') : Writes d d'' (log ++ log') := by
  refine ⟨by rw [h'.writes, h.writes, List.append_assoc], fun hclear => ?_⟩
  obtain ⟨hmid, hlog⟩ := h.clear hclear
  obtain ⟨hlast, hlog'⟩ := h'.clear hmid
  exact ⟨hlast, List.forall_mem_append.mpr ⟨hlog, hlog'⟩⟩

/-- A single write. Once the frame has gone out, nothing sets `TXRTS` before the end of the call. -/
theorem Writes.single (hwrites : d'.writes = d.beforeWrite.writes) (htxrts : d'.txrts = d.beforeWrite.txrts) :
    Writes d d' [d.txrts && !d.out.headD false] := by
  refine ⟨hwrites, fun hclear => ?_⟩
  have hfalse : (d.txrts && !d.out.headD false) = false := by rw [hclear, Bool.false_and]
  exact ⟨htxrts.trans hfalse, List.forall_mem_singleton.mpr hfalse⟩

theorem Writes.spiWrite (d : TxDev) (address data : Byte) :
    Writes d (d.spiWrite address data) [d.txrts && !d.out.headD false] :=
  Writes.single rfl rfl

theorem Writes.writeBytes (l : List Byte) (d : TxDev) : ∃ log, Writes d (l.foldl writeBufMem d) log := by
  induction l generalizing d with
  | nil => exact ⟨_, Writes.refl d⟩
  | cons b l ih =>
    obtain ⟨log, h⟩ := ih (d.writeBufMem b)
    have hfirst : Writes d (d.writeBufMem b) [d.txrts && !d.out.headD false] := Writes.single rfl rfl
    exact ⟨_, hfirst.trans h⟩

theorem start_writes (d : TxDev) (level : Byte) : (d.start level).writes = d.writes := by
  unfold start
  dsimp only
  split <;> rfl

/-- The first write of a call is the one to `EWRPTL`. -/
theorem enc28j60Tx_writes (d : TxDev) (totLen : Nat) (p : List (List Byte)) :
    ∃ log, (d.enc28j60Tx totLen p).writes = d.writes ++ log ∧
      ((∀ txrts ∈ log, txrts = false) ↔ (d.txrts && !d.out.headD false) = false) := by
  obtain ⟨d1, hd1⟩ : ∃ d1, d1 = ({ d with dev := d.dev.enc28j60InterruptDisable.2 } : TxDev) := ⟨_, rfl⟩
  have hfirst : Writes d (d1.spiWrite ewrptl (BitVec.ofNat 8 txStart)) _ :=
    Writes.single (by rw [hd1]; rfl) (by rw [hd1]; rfl)
  obtain ⟨log, hrest⟩ : ∃ log, Writes (d1.spiWrite ewrptl (BitVec.ofNat 8 txStart)) (d1.fill totLen p) log := by
    unfold fill
    rw [← List.foldl_flatten]
    obtain ⟨log, hbytes⟩ := Writes.writeBytes (0 :: p.flatten) _
    exact ⟨_, (((Writes.spiWrite ..).trans (Writes.spiWrite ..)).trans (Writes.spiWrite ..)).trans
      hbytes⟩
  refine ⟨[d.txrts && !d.out.headD false] ++ log, ?_, ?_⟩
  · rw [enc28j60Tx, start_writes, ← hd1]
    exact (hfirst.trans hrest).writes
  · rw [List.singleton_append, List.forall_mem_cons]
    refine and_iff_left_of_imp fun hclear => ?_
    exact (hrest.clear (by rw [hd1]; exact hclear)).2

/-- A call of `enc28j60_tx`, with what the transmit logic does meanwhile. -/
inductive Event where
  | tx (totLen : Nat) (p : List (List Byte)) (out : List Bool)

def step (d : TxDev) : Event → Option TxDev
  | .tx totLen p out => some ({ d with out := out }.enc28j60Tx totLen p)

/-- No frame is being sent when the call begins, or it goes out before the first write. -/
def FrameOut (d : TxDev) : Event → Prop
  | .tx _ _ out => d.txrts = false ∨ out.head? = some true

theorem frameOut_iff (d : TxDev) (totLen : Nat) (p : List (List Byte)) (out : List Bool) :
    FrameOut d (.tx totLen p out) ↔ (d.txrts && !out.headD false) = false := by
  unfold FrameOut
  cases d.txrts <;> cases out <;> simp

/-- A call adds writes without `TXRTS` only, if and only if the frame before it is out. -/
theorem step_writes {e : Event} (hstep : step d e = some d') :
    ∃ log, d'.writes = d.writes ++ log ∧ ((∀ txrts ∈ log, txrts = false) ↔ FrameOut d e) := by
  obtain ⟨totLen, p, out⟩ := e
  obtain rfl : ({ d with out := out } : TxDev).enc28j60Tx totLen p = d' := Option.some.inj hstep
  rw [frameOut_iff]
  exact enc28j60Tx_writes ..

theorem run_writes {d0 : TxDev} {es : List Event} (hrun : run step d0 es = some d) :
    ∃ log, d.writes = d0.writes ++ log ∧ ((∀ txrts ∈ log, txrts = false) ↔ Along step FrameOut d0 es) := by
  induction es generalizing d0 with
  | nil =>
    obtain rfl : d0 = d := Option.some.inj hrun
    exact ⟨[], (List.append_nil _).symm, iff_of_true nofun trivial⟩
  | cons e es ih =>
    obtain ⟨d1, hstep, hrest⟩ := run_cons.mp hrun
    obtain ⟨log, hwrites, hlog⟩ := step_writes hstep
    obtain ⟨log', hwrites', hlog'⟩ := ih hrest
    refine ⟨log ++ log', by rw [hwrites', hwrites, List.append_assoc], ?_⟩
    rw [List.forall_mem_append, hlog, hlog']
    exact ⟨fun h => along_cons h.1 hstep h.2, fun h => ⟨h.1, h.2 d1 hstep⟩⟩

/-- However many calls there are, and however long the chip takes for a frame: no write of a call finds
`TXRTS` set, if and only if in each call the frame before it is out by the first write. -/
theorem writes_clear_iff {d0 d : TxDev} {es : List Event} (hstart : d0.writes = [])
    (hrun : run step d0 es = some d) :
    (∀ txrts ∈ d.writes, txrts = false) ↔ Along step FrameOut d0 es := by
  obtain ⟨log, hwrites, hlog⟩ := run_writes hrun
  rw [hwrites, hstart, List.nil_append, hlog]

/-- A second call after the frame of the first one is out. -/
theorem writes_clear_twoFrames :
    ∃ d, run step boot [.tx 1 [[7]] [], .tx 1 [[8]] [true]] = some d ∧
      ∀ txrts ∈ d.writes, txrts = false := by
  have hout : Along step FrameOut boot [.tx 1 [[7]] [], .tx 1 [[8]] [true]] :=
    ⟨.inl rfl, fun _ _ => ⟨.inr rfl, fun _ _ => trivial⟩⟩
  exact ⟨_, rfl, (writes_clear_iff rfl rfl).mpr hout⟩

/-- The second call comes while the chip still sends the first frame: it sets `EWRPT` and `ETXND`, which
ends the frame elsewhere, and writes over its bytes. -/
theorem tx_overwrites_frame :
    ∃ d, run step boot [.tx 1 [[7]] [], .tx 1 [[8]] []] = some d ∧
      d.writes = [false, false, false, false, false, false, true, true, true, true, true, true] := by
  exact ⟨_, rfl, by decide +kernel⟩

end TxDev

end RtThread.Enc28j60Tx
