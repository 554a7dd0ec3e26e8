-- SUMMARY: Devices: the reference count and the open flag.
import Mathlib.Data.BitVec
import ZigbeeGateway.Lib.Run
import ZigbeeGateway.Kernel.Timer

/-!
# Devices

The model of `rt_device_init`, `rt_device_open` and `rt_device_close` in `src/device.c`. A
driver supplies the handlers; an event carries what they return, so a run mixes success and
failure in any way.

`rt_device_open` counts the reference before it calls the `open` handler and does not take it
back when the handler fails; `rt_device_close` gives the last reference back before it calls the
`close` handler.
-/

namespace RtThread

open Run

namespace Device

def rtEok : Int := 0

def rtError : Int := 1

def rtEnosys : Int := 6

def rtEbusy : Int := 7

/-- `RT_DEVICE_FLAG_STANDALONE` and `RT_DEVICE_FLAG_ACTIVATED`. -/
def flagStandalone : BitVec 16 := 0x008

def flagActivated : BitVec 16 := 0x010

/-- `RT_DEVICE_OFLAG_CLOSE` and `RT_DEVICE_OFLAG_OPEN`. -/
def oflagClose : BitVec 16 := 0x000

def oflagOpen : BitVec 16 := 0x008

end Device

/-- The fields of `struct rt_device` that opening and closing use. `hasInit`, `hasOpen` and
`hasClose` say that the handler is not `RT_NULL`. -/
structure Device where
  flag : BitVec 16
  openFlag : BitVec 16
  refCount : Nat
  hasInit : Bool
  hasOpen : Bool
  hasClose : Bool
  deriving DecidableEq, Repr

namespace Device

/-- `rt_device_init`. -/
def rtDeviceInit (d : Device) (initResult : Int) : Device × Int :=
  if d.hasInit ∧ d.flag &&& flagActivated = 0 then
    if initResult ≠ rtEok then
      (d, initResult)
    else
      ({ d with flag := d.flag ||| flagActivated }, initResult)
  else
    (d, rtEok)

/-- `rt_device_open` calls the `init` handler, and the handler fails. -/
def InitFails (d : Device) (initResult : Int) : Prop :=
  d.flag &&& flagActivated = 0 ∧ d.hasInit ∧ initResult ≠ rtEok

instance (d : Device) (initResult : Int) : Decidable (d.InitFails initResult) := by
  unfold InitFails
  infer_instance

/-- `rt_device_open` marks the device as initialised, also when there is no `init` handler. -/
def activate (d : Device) : Device :=
  if d.flag &&& flagActivated = 0 then { d with flag := d.flag ||| flagActivated } else d

/-- `rt_device_open`; the count is an `rt_uint8_t`. -/
def rtDeviceOpen (d : Device) (oflag : BitVec 16) (initResult openResult : Int) :
    Option (Device × Int) :=
  if d.InitFails initResult then
    some (d, initResult)
  else
    let d := d.activate
    -- device is a stand alone device and opened
    if d.flag &&& flagStandalone ≠ 0 ∧ d.openFlag &&& oflagOpen ≠ 0 then
      some (d, -rtEbusy)
    else do
      let d := { d with refCount := (d.refCount + 1) % 256 }
      rtAssert (d.refCount ≠ 0)
      let result := if d.hasOpen then openResult else rtEok
      if result = rtEok ∨ result = -rtEnosys then
        return ({ d with openFlag := oflag ||| oflagOpen }, result)
      else
        return (d, result)

/-- `rt_device_close`. -/
def rtDeviceClose (d : Device) (closeResult : Int) : Device × Int :=
  if d.refCount = 0 then
    (d, -rtError)
  else
    let d := { d with refCount := d.refCount - 1 }
    if d.refCount ≠ 0 then
      (d, rtEok)
    else
      let result := if d.hasClose then closeResult else rtEok
      if result = rtEok ∨ result = -rtEnosys then
        ({ d with openFlag := oflagClose }, result)
      else
        (d, result)

/-! ## Runs -/

/-- The calls, each with what the handlers return if they are called. -/
inductive Event where
  | init (initResult : Int)
  | open (oflag : BitVec 16) (initResult openResult : Int)
  | close (closeResult : Int)
  deriving DecidableEq, Repr

def exec (d : Device) : Event → Option (Device × Int)
  | .init initResult => some (d.rtDeviceInit initResult)
  | .open oflag initResult openResult => d.rtDeviceOpen oflag initResult openResult
  | .close closeResult => some (d.rtDeviceClose closeResult)

/-- A call succeeds with `RT_EOK`, and with `-RT_ENOSYS` where the code takes it for success: the
`init` handler is not such a place. -/
def Event.Succeeds (e : Event) (d : Device) (result : Int) : Prop :=
  (result = rtEok ∨ result = -rtEnosys) ∧
    match e with
    | .init _ => result = rtEok
    | .open _ initResult _ => ¬ d.InitFails initResult
    | .close _ => True

instance (e : Event) (d : Device) (result : Int) : Decidable (e.Succeeds d result) := by
  unfold Event.Succeeds
  cases e <;> infer_instance

structure Sys where
  dev : Device
  /-- The number of opens and of closes that succeeded. -/
  opens : Nat
  closes : Nat
  deriving DecidableEq, Repr

def Sys.after (s : Sys) (e : Event) : Device × Int → Sys
  | (d, result) =>
    let n := if e.Succeeds s.dev result then 1 else 0
    match e with
    | .init _ => { s with dev := d }
    | .open .. => { s with dev := d, opens := s.opens + n }
    | .close _ => { s with dev := d, closes := s.closes + n }

def step (s : Sys) (e : Event) : Option Sys := (s.dev.exec e).map (s.after e)

/-- A device that was just registered. -/
structure Initial (s : Sys) : Prop where
  refCount : s.dev.refCount = 0
  openFlag : s.dev.openFlag &&& oflagOpen = 0
  opens : s.opens = 0
  closes : s.closes = 0

/-- The `open` or `close` handler does not fail; the `init` handler may. -/
def Event.HandlerOk : Event → Prop
  | .init _ => True
  | .open _ _ openResult => openResult = rtEok ∨ openResult = -rtEnosys
  | .close closeResult => closeResult = rtEok ∨ closeResult = -rtEnosys

/-- Fewer than 256 opens are nested. -/
def Nested (s : Sys) : Event → Prop
  | .open .. => s.dev.refCount < 255
  | _ => True

/-! ## What the calls do -/

variable {d d' : Device} {oflag : BitVec 16} {initResult openResult closeResult result : Int}

theorem oflagOpen_set (oflag : BitVec 16) : (oflag ||| oflagOpen) &&& oflagOpen ≠ 0 := by
  intro h
  have hbit := congrArg (fun w => w.getLsbD 3) h
  simp [oflagOpen] at hbit

@[simp] theorem activate_refCount (d : Device) : d.activate.refCount = d.refCount := by
  unfold activate
  split <;> rfl

@[simp] theorem activate_openFlag (d : Device) : d.activate.openFlag = d.openFlag := by
  unfold activate
  split <;> rfl

theorem rtDeviceInit_frame (d : Device) (initResult : Int) :
    (d.rtDeviceInit initResult).1.refCount = d.refCount ∧
      (d.rtDeviceInit initResult).1.openFlag = d.openFlag := by
  unfold rtDeviceInit
  split
  next => split <;> exact ⟨rfl, rfl⟩
  next => exact ⟨rfl, rfl⟩

/-- An open whose handler does not fail: it is refused, or it counts and sets the flag. -/
theorem rtDeviceOpen_cases (oflag : BitVec 16) (initResult : Int)
    (hok : openResult = rtEok ∨ openResult = -rtEnosys) (hlt : d.refCount < 255) :
    ∃ d' result, d.rtDeviceOpen oflag initResult openResult = some (d', result) ∧
      (d'.refCount = d.refCount ∧ d'.openFlag = d.openFlag ∧
          ¬ (Event.open oflag initResult openResult).Succeeds d result ∨
        d'.refCount = d.refCount + 1 ∧ d'.openFlag = oflag ||| oflagOpen ∧
          (Event.open oflag initResult openResult).Succeeds d result) := by
  by_cases hinit : d.InitFails initResult
  · exact ⟨_, _, if_pos hinit, .inl ⟨rfl, rfl, fun hsucc => hsucc.2 hinit⟩⟩
  by_cases hbusy : d.activate.flag &&& flagStandalone ≠ 0 ∧ d.activate.openFlag &&& oflagOpen ≠ 0
  · refine ⟨d.activate, -rtEbusy, ?_, .inl ⟨d.activate_refCount, d.activate_openFlag, ?_⟩⟩
    · rw [rtDeviceOpen, if_neg hinit, if_pos hbusy]
    · exact fun hsucc => absurd hsucc.1 (by decide)
  have hcount : (d.refCount + 1) % 256 = d.refCount + 1 := Nat.mod_eq_of_lt (by omega)
  have hresult : (if d.activate.hasOpen then openResult else rtEok) = rtEok ∨
      (if d.activate.hasOpen then openResult else rtEok) = -rtEnosys := by
    split
    next => exact hok
    next => exact .inl rfl
  refine ⟨{ d.activate with refCount := d.refCount + 1, openFlag := oflag ||| oflagOpen },
    if d.activate.hasOpen then openResult else rtEok, ?_, .inr ⟨rfl, rfl, hresult, hinit⟩⟩
  rw [rtDeviceOpen, if_neg hinit, if_neg hbusy]
  simp only [activate_refCount, hcount, rtAssert, ne_eq, Nat.succ_ne_zero, not_false_eq_true,
    if_true, if_pos hresult, Option.bind_eq_bind, Option.bind_some, Option.pure_def]

/-- A close whose handler does not fail: there is nothing to close, or it gives a reference back
and clears the flag with the last one. -/
theorem rtDeviceClose_cases (hok : closeResult = rtEok ∨ closeResult = -rtEnosys)
    (h : d.rtDeviceClose closeResult = (d', result)) :
    d.refCount = 0 ∧ d' = d ∧ ¬ (Event.close closeResult).Succeeds d result ∨
    d.refCount = d'.refCount + 1 ∧
      d'.openFlag = (if d'.refCount = 0 then oflagClose else d.openFlag) ∧
      (Event.close closeResult).Succeeds d result := by
  unfold rtDeviceClose at h
  by_cases hzero : d.refCount = 0
  · rw [if_pos hzero] at h
    cases h
    exact .inl ⟨hzero, rfl, fun hsucc => absurd hsucc.1 (by decide)⟩
  refine .inr ?_
  rw [if_neg hzero] at h
  dsimp only at h
  split at h
  next hmore =>
    cases h
    exact ⟨by simp only; omega, (if_neg hmore).symm, .inl rfl, trivial⟩
  next hlast =>
    have hresult : (if d.hasClose then closeResult else rtEok) = rtEok ∨
        (if d.hasClose then closeResult else rtEok) = -rtEnosys := by
      split
      next => exact hok
      next => exact .inl rfl
    rw [if_pos hresult] at h
    cases h
    exact ⟨by simp only; omega, (if_pos (not_not.mp hlast)).symm, hresult, trivial⟩

/-! ## What every step keeps -/

structure Sys.Counted (s : Sys) : Prop where
  open_iff : s.dev.openFlag &&& oflagOpen ≠ 0 ↔ 0 < s.dev.refCount
  balance : s.dev.refCount + s.closes = s.opens

/-- A step whose handlers do not fail is defined. It keeps the invariant, and if its call does
not succeed, it keeps the count and the flag. -/
theorem step_counted {s : Sys} {e : Event} (h : s.Counted) (hok : e.HandlerOk) (hnested : Nested s e) :
    ∃ d result, s.dev.exec e = some (d, result) ∧ (s.after e (d, result)).Counted ∧
      (¬ e.Succeeds s.dev result → d.refCount = s.dev.refCount ∧ d.openFlag = s.dev.openFlag) := by
  cases e with
  | init initResult =>
    obtain ⟨hcount, hflag⟩ := rtDeviceInit_frame s.dev initResult
    refine ⟨(s.dev.rtDeviceInit initResult).1, (s.dev.rtDeviceInit initResult).2, rfl, ⟨?_, ?_⟩,
      fun _ => ⟨hcount, hflag⟩⟩
    · simp only [Sys.after, hcount, hflag]
      exact h.open_iff
    · simp only [Sys.after, hcount]
      exact h.balance
  | «open» oflag initResult openResult =>
    obtain ⟨d, result, hd, ⟨hcount, hflag, hfail⟩ | ⟨hcount, hflag, hsucc⟩⟩ :=
      rtDeviceOpen_cases oflag initResult hok hnested
    · refine ⟨d, result, hd, ⟨?_, ?_⟩, fun _ => ⟨hcount, hflag⟩⟩
      · simp only [Sys.after, hcount, hflag]
        exact h.open_iff
      · simp only [Sys.after, hcount, if_neg hfail]
        exact h.balance
    · refine ⟨d, result, hd, ⟨?_, ?_⟩, fun hfail => absurd hsucc hfail⟩
      · simp only [Sys.after, hcount, hflag]
        exact iff_of_true (oflagOpen_set oflag) (Nat.succ_pos _)
      · have := h.balance
        simp only [Sys.after, hcount, if_pos hsucc]
        omega
  | close closeResult =>
    rcases hd : s.dev.rtDeviceClose closeResult with ⟨d, result⟩
    obtain ⟨-, rfl, hfail⟩ | ⟨hcount, hflag, hsucc⟩ := rtDeviceClose_cases hok hd
    · refine ⟨_, _, congrArg some hd, ⟨h.open_iff, ?_⟩, fun _ => ⟨rfl, rfl⟩⟩
      simp only [Sys.after, if_neg hfail]
      exact h.balance
    · refine ⟨_, _, congrArg some hd, ⟨?_, ?_⟩, fun hfail => absurd hsucc hfail⟩
      · simp only [Sys.after, hflag]
        by_cases hlast : d.refCount = 0
        · simp [hlast, oflagClose]
        · rw [if_neg hlast]
          exact iff_of_true (h.open_iff.mpr (by omega)) (Nat.pos_of_ne_zero hlast)
      · have := h.balance
        simp only [Sys.after, if_pos hsucc]
        omega

theorem Initial.counted {s : Sys} (h : Initial s) : s.Counted where
  open_iff := by simp [h.openFlag, h.refCount]
  balance := by rw [h.refCount, h.opens, h.closes]

/-- The handlers `open` and `close` do not fail, and fewer than 256 opens are nested. -/
def Regular (s : Sys) (e : Event) : Prop := e.HandlerOk ∧ Nested s e

/-- If the `open` and `close` handlers do not fail, every run of calls is defined. The device has
the flag `RT_DEVICE_OFLAG_OPEN` exactly while it is referenced, the count is the number of
opens less the number of closes that succeeded, and a further call that does not succeed
leaves both. -/
theorem device_references_counted {s : Sys} {es : List Event} (h : Initial s)
    (hregular : Along step Regular s es) :
    ∃ s', run step s es = some s' ∧
      (s'.dev.openFlag &&& oflagOpen ≠ 0 ↔ 0 < s'.dev.refCount) ∧
      s'.dev.refCount + s'.closes = s'.opens ∧
      ∀ e, Regular s' e → ∃ d result, s'.dev.exec e = some (d, result) ∧
        (¬ e.Succeeds s'.dev result →
          d.refCount = s'.dev.refCount ∧ d.openFlag = s'.dev.openFlag) := by
  have hstep : ∀ s e, Sys.Counted s → Regular s e → ∃ s', step s e = some s' ∧ Sys.Counted s' := by
    intro s e hs he
    obtain ⟨d, result, hd, hs', -⟩ := step_counted hs he.1 he.2
    exact ⟨_, by rw [step, hd, Option.map_some], hs'⟩
  obtain ⟨s', hrun, hs'⟩ := run_progress_along hstep h.counted hregular
  refine ⟨s', hrun, hs'.open_iff, hs'.balance, fun e he => ?_⟩
  obtain ⟨d, result, hd, -, hframe⟩ := step_counted hs' he.1 he.2
  exact ⟨d, result, hd, hframe⟩

/-- A device with all three handlers that was just registered. -/
def registered : Sys where
  dev := { flag := 0, openFlag := 0, refCount := 0, hasInit := true, hasOpen := true, hasClose := true }
  opens := 0
  closes := 0

theorem registered_initial : Initial registered := ⟨rfl, rfl, rfl, rfl⟩

/-- Two nested opens, the first of which fails in the `init` handler, and two closes. -/
theorem device_references_counted_nested :
    ∃ s', run step registered [.open 3 (-5) 0, .open 3 0 (-6), .open 1 0 0, .close 0, .close 0] = some s' ∧
      (s'.dev.openFlag &&& oflagOpen ≠ 0 ↔ 0 < s'.dev.refCount) ∧
      s'.dev.refCount + s'.closes = s'.opens ∧
      ∀ e, Regular s' e → ∃ d result, s'.dev.exec e = some (d, result) ∧
        (¬ e.Succeeds s'.dev result →
          d.refCount = s'.dev.refCount ∧ d.openFlag = s'.dev.openFlag) := by
  refine device_references_counted registered_initial ?_
  have hnested {s : Sys} {oflag : BitVec 16} {i r : Int} (h : s.dev.refCount < 255) :
      Nested s (.open oflag i r) := h
  refine along_cons ⟨.inl rfl, hnested (by decide)⟩ rfl ?_
  refine along_cons ⟨.inr rfl, hnested (by decide)⟩ rfl ?_
  refine along_cons ⟨.inl rfl, hnested (by decide)⟩ rfl ?_
  exact along_cons ⟨.inl rfl, trivial⟩ rfl (along_cons ⟨.inl rfl, trivial⟩ rfl trivial)

/-- An open that fails in the `open` handler leaves a reference to a device that is not open, and
a close that fails in the `close` handler leaves an open device without a reference. -/
theorem failed_handler_uncounted :
    Initial registered ∧
    (registered.dev.exec (.open 3 0 (-rtError)) =
        some ({ registered.dev with flag := flagActivated, refCount := 1 }, -rtError) ∧
      ∃ s, run step registered [.open 3 0 (-rtError)] = some s ∧ s.dev.refCount = 1 ∧
        s.dev.openFlag &&& oflagOpen = 0 ∧ s.opens = 0 ∧ s.closes = 0) ∧
    ∃ s, run step registered [.open 3 0 rtEok, .close (-rtError)] = some s ∧ s.dev.refCount = 0 ∧
      s.dev.openFlag &&& oflagOpen ≠ 0 ∧ s.opens = 1 ∧ s.closes = 0 := by
  refine ⟨registered_initial, ⟨rfl, _, rfl, ?_⟩, _, rfl, ?_⟩ <;> decide

end Device

end RtThread
