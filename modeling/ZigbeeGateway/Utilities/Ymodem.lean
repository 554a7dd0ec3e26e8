-- SUMMARY: The YMODEM receiver and its buffers.
import ZigbeeGateway.Lib.Interaction

/-!
# YMODEM

The model of `rym_recv_on_device` and `_rym_do_recv` in `components/utilities/ymodem/ymodem.c`. The
device, the heap and the three parts of a session are the environment.

All exits go through the same cleanup. It frees `ctx->buf`, which only `_rym_do_recv` sets. When the
device cannot be opened, `ctx->buf` is what the caller, or the call before, has left there.
-/

namespace RtThread.Ymodem

open Interaction Run

inductive RxIndicate where
  | rymRxInd
  | other (f : Nat)
  deriving DecidableEq

/-- The fields of the device that the receiver sets. -/
structure Dev where
  flag : BitVec 16
  rxIndicate : Option RxIndicate
  deriving DecidableEq

/-- The calls. `rt_device_open` and `rt_device_close` may change the device. -/
inductive Call where
  | openDevice (dev : Dev)
  | closeDevice (dev : Dev)
  | malloc (size : Nat)
  | free (p : Option Nat)
  | doHandshake (tmSec : Int)
  | doTrans
  | doFin
  deriving DecidableEq

abbrev Answer : Call → Type
  | .openDevice _ => Int × Dev
  | .closeDevice _ => Dev
  | .malloc _ => Option Nat
  | .free _ => Unit
  | .doHandshake _ | .doTrans | .doFin => Int

abbrev Prog := Interaction.Prog Call Answer

abbrev Event := Interaction.Event Answer

def ask (c : Call) : Prog (Answer c) := .ask c

/-- `RT_ENOMEM`. -/
def rtEnomem : Int := 5

/-- `RT_DEVICE_FLAG_STREAM`. -/
def flagStream : BitVec 16 := 0x040

/-- `_rym_do_recv`, with the new value of `ctx->buf`. -/
def doRecv (handshakeTimeout : Int) : Prog (Int × Option Nat) := do
  match ← ask (.malloc 1029) with
  | none => return (-rtEnomem, none)
  | some p =>
    let err ← ask (.doHandshake handshakeTimeout)
    if err ≠ 0 then return (err, some p) else do
    let err ← ask .doTrans
    if err ≠ 0 then return (err, some p) else do
    let err ← ask .doFin
    return (err, some p)

/-- What `rym_recv_on_device` leaves: its result, `ctx->buf` and the device. -/
structure Result where
  res : Int
  ctxBuf : Option Nat
  dev : Dev
  deriving DecidableEq

/-- `rym_recv_on_device`. -/
def rymRecvOnDevice (handshakeTimeout : Int) (ctxBuf : Option Nat) (dev : Dev) : Prog Result := do
  let odevRxInd := dev.rxIndicate
  let dev := { dev with rxIndicate := some .rymRxInd }
  let odevFlag := dev.flag
  let dev := { dev with flag := dev.flag &&& ~~~flagStream }
  let (res, dev) ← ask (.openDevice dev)
  let (res, ctxBuf, dev) ← (if res ≠ 0 then pure (res, ctxBuf, dev) else do
    let (res, ctxBuf) ← doRecv handshakeTimeout
    let dev ← ask (.closeDevice dev)
    return (res, ctxBuf, dev))
  let dev := { dev with flag := odevFlag }
  let dev := { dev with rxIndicate := odevRxInd }
  ask (.free ctxBuf)
  return ⟨res, ctxBuf, dev⟩

/-! ## One call -/

/-- The buffers that a call has allocated and not freed. There is no step for `rt_free` of another
one. -/
def heap (live : List Nat) : Event → Option (List Nat)
  | ⟨.malloc _, some p⟩ => some (p :: live)
  | ⟨.free (some p), _⟩ => if p ∈ live then some (live.erase p) else none
  | _ => some live

/-- `rt_device_open` succeeds. -/
def opens : Event → Bool
  | ⟨.openDevice _, r⟩ => r.1 = 0
  | _ => false

/-- The environment may give any answer. -/
def anyAnswer : Spec Answer := ⟨fun _ _ => True, fun _ _ => True⟩

variable {handshakeTimeout : Int} {ctxBuf : Option Nat} {dev : Dev} {h : List Event}

/-- After a device was opened, `ctx->buf` is null or the only live buffer. -/
def Owned (r : Int × Option Nat) (h : List Event) : Prop :=
  h.any opens = true ∧ run heap [] h = some r.2.toList

theorem Owned.concat {r : Int × Option Nat} {e : Event} (ho : Owned r h)
    (hheap : ∀ live, heap live e = some live) : Owned r (h ++ [e]) := by
  refine ⟨by simp [ho.1], run_append.mpr ⟨_, ho.2, run_cons.mpr ⟨_, hheap _, rfl⟩⟩⟩

theorem wp_doRecv (hopens : h.any opens = true) (hheap : run heap [] h = some []) :
    wp anyAnswer (doRecv handshakeTimeout) h Owned := by
  refine wp_ask_bind.mpr ⟨trivial, fun buf _ => ?_⟩
  have hbuf : ∀ err, Owned (err, buf) (h ++ [⟨.malloc 1029, buf⟩]) := by
    refine fun err => ⟨by simp [hopens], run_append.mpr ⟨[], hheap, ?_⟩⟩
    cases buf <;> rfl
  cases buf with
  | none => exact hbuf _
  | some p =>
    -- none of the three parts touches the heap
    refine wp_ask_bind.mpr ⟨trivial, fun err _ => ?_⟩
    split
    · exact (hbuf err).concat fun _ => rfl
    refine wp_ask_bind.mpr ⟨trivial, fun err _ => ?_⟩
    split
    · exact ((hbuf err).concat fun _ => rfl).concat fun _ => rfl
    refine wp_ask_bind.mpr ⟨trivial, fun err _ => ?_⟩
    exact (((hbuf err).concat fun _ => rfl).concat fun _ => rfl).concat fun _ => rfl

/-- A call leaves the device as it was. It has freed what it allocated, and nothing else, exactly if
the device was opened or `ctx->buf` was null. -/
def Cleans (ctxBuf : Option Nat) (dev : Dev) (r : Result) (h : List Event) : Prop :=
  r.dev = dev ∧ (run heap [] h = some [] ↔ h.any opens = true ∨ ctxBuf = none)

theorem wp_rymRecvOnDevice :
    wp anyAnswer (rymRecvOnDevice handshakeTimeout ctxBuf dev) [] (Cleans ctxBuf dev) := by
  refine wp_ask_bind.mpr ⟨trivial, fun r _ => ?_⟩
  obtain ⟨res, dev'⟩ := r
  dsimp only
  split
  next hres =>
    -- `ctx->buf` is not from this call
    refine wp_ask_bind.mpr ⟨trivial, fun _ _ => ⟨rfl, ?_⟩⟩
    cases ctxBuf with
    | none => exact iff_of_true rfl (.inr rfl)
    | some p => exact iff_of_false nofun (by simp [opens, hres])
  next hres =>
    obtain rfl := not_not.mp hres
    refine wp_bind.mpr (wp_bind.mpr (wp_mono (fun r h ho => ?_) (wp_doRecv (by rfl) (by rfl))))
    refine wp_ask_bind.mpr ⟨trivial, fun dev _ => wp_ask_bind.mpr ⟨trivial, fun _ _ => ⟨rfl, ?_⟩⟩⟩
    obtain ⟨hopens, hheap⟩ := ho.concat (e := ⟨.closeDevice dev', dev⟩) fun _ => rfl
    refine iff_of_true (run_append.mpr ⟨_, hheap, ?_⟩) (.inl (by rw [List.any_append, hopens]; rfl))
    obtain ⟨err, _ | p⟩ := r
    · rfl
    · simp [run, heap]

/-! ## A sequence of calls -/

/-- A call that has returned. -/
structure Report where
  ctxBuf : Option Nat
  dev : Dev
  trace : List Event
  result : Result

/-- Calls with the same context, one after the other. -/
inductive Calls : Option Nat → List Report → Prop
  | nil {ctxBuf : Option Nat} : Calls ctxBuf []
  | cons {ctxBuf : Option Nat} {handshakeTimeout : Int} {dev : Dev} {tr : List Event} {r : Result}
      {rs : List Report}
      (hrun : run Prog.step (rymRecvOnDevice handshakeTimeout ctxBuf dev) tr = some (.ret r))
      (hrest : Calls r.ctxBuf rs) : Calls ctxBuf (⟨ctxBuf, dev, tr, r⟩ :: rs)

/-- Every buffer that is freed is one that the call allocated and that is live, all of them are freed,
and the device is restored. -/
def Report.CleanedUp (r : Report) : Prop := run heap [] r.trace = some [] ∧ r.result.dev = r.dev

/-- A sequence of calls cleans up exactly if each one opens the device or starts with a null
`ctx->buf`. -/
theorem calls_clean_up_iff {rs : List Report} (hcalls : Calls ctxBuf rs) :
    (∀ r ∈ rs, r.CleanedUp) ↔ ∀ r ∈ rs, r.trace.any opens = true ∨ r.ctxBuf = none := by
  refine forall₂_congr fun r hr => ?_
  induction hcalls with
  | nil => cases hr
  | cons hrun _ ih =>
    rcases List.mem_cons.mp hr with rfl | hr
    · obtain ⟨hdev, hheap⟩ := wp_returns wp_rymRecvOnDevice hrun (along_of_forall fun _ _ _ => trivial)
      exact (and_iff_left hdev).trans hheap
    · exact ih hr

/-- A device without flags and without a callback. -/
def plainDev : Dev := ⟨0, none⟩

/-- The device during a session. -/
def sessionDev : Dev := ⟨0, some .rymRxInd⟩

/-- The handshake fails. -/
def timedOut : List Event :=
  [⟨.openDevice sessionDev, (0, sessionDev)⟩, ⟨.malloc 1029, some 7⟩, ⟨.doHandshake 1, -0x70⟩,
    ⟨.closeDevice sessionDev, sessionDev⟩, ⟨.free (some 7), ()⟩]

/-- The device is not opened. -/
def notOpened : List Event := [⟨.openDevice sessionDev, (-1, sessionDev)⟩, ⟨.free (some 7), ()⟩]

theorem calls_timedOut {rs : List Report} (hrest : Calls (some 7) rs) :
    Calls none (⟨none, plainDev, timedOut, ⟨-0x70, some 7, plainDev⟩⟩ :: rs) :=
  Calls.cons (show run Prog.step (rymRecvOnDevice 1 none plainDev) timedOut = _ from rfl) hrest

/-- A call whose handshake fails frees its buffer once. -/
theorem calls_clean_up_iff_timedOut :
    ∃ r : Report, Calls none [r] ∧ r.trace = timedOut ∧ r.CleanedUp := by
  have hcalls := calls_timedOut .nil
  refine ⟨_, hcalls, rfl, (calls_clean_up_iff hcalls).mpr (fun r hr => .inl ?_) _ (.head _)⟩
  rw [List.mem_singleton.mp hr]
  rfl

/-- The next call cannot open the device and frees the same buffer again. -/
theorem buffer_freed_twice :
    ∃ r1 r2 : Report, Calls none [r1, r2] ∧ r1.trace = timedOut ∧ r2.trace = notOpened ∧
      ¬ r2.CleanedUp := by
  have hrun : run Prog.step (rymRecvOnDevice 1 (some 7) plainDev) notOpened =
      some (.ret ⟨-1, some 7, plainDev⟩) := rfl
  refine ⟨_, _, calls_timedOut (.cons hrun .nil), rfl, rfl, fun hclean => ?_⟩
  cases hclean.1

end RtThread.Ymodem
