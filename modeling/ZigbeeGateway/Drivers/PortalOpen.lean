-- SUMMARY: Opening and closing a portal: the counts of its two pipes.
import ZigbeeGateway.Drivers.Portal

/-!
# Opening and closing a portal

The model of `rt_device_open` and `rt_device_close` on a portal, whose handlers are `_portal_init`,
`_portal_open` and `_portal_close` in `portal.c`. Every open of the portal opens its pipes, but only
the last close closes them, each once, whether it was opened or not.
-/

namespace RtThread

open Run Device Function
open Option (bind_eq_some_iff)

namespace Device

/-- A stand-alone device that is open. -/
def Busy (d : Device) : Prop := d.flag &&& flagStandalone ≠ 0 ∧ d.openFlag &&& oflagOpen ≠ 0

instance (d : Device) : Decidable d.Busy := inferInstanceAs (Decidable (_ ∧ _))

/-- `rt_device_open` gets as far as the `open` handler. -/
def CallsOpen (d : Device) (initResult : Int) : Prop := ¬ d.InitFails initResult ∧ ¬ d.Busy

instance (d : Device) (initResult : Int) : Decidable (d.CallsOpen initResult) := by
  unfold CallsOpen
  infer_instance

end Device

namespace Devices

/-- `RT_DEVICE_OFLAG_RDONLY`, `RT_DEVICE_OFLAG_WRONLY` and `RT_DEVICE_OFLAG_RDWR`. -/
def oflagRdonly : BitVec 16 := 0x001

def oflagWronly : BitVec 16 := 0x002

def oflagRdwr : BitVec 16 := 0x003

/-- What the handlers of the two pipes return, if a call on the portal calls them. -/
structure Handlers where
  /-- The `init` handlers, called by `_portal_init`. -/
  writeInit : Int := 0
  readInit : Int := 0
  /-- The `init` and `open` handlers, called by `_portal_open`. -/
  readOpenInit : Int := 0
  readOpen : Int := 0
  writeOpenInit : Int := 0
  writeOpen : Int := 0
  /-- The `close` handlers. -/
  writeClose : Int := 0
  readClose : Int := 0

def setBase (w : Devices) (p : Nat) (d : Device) : Devices := w.modify p fun n => { n with base := d }

/-- The calls on a pipe. `RT_NULL` is refused by an assertion. -/
def deviceInit (w : Devices) (dev : Option Nat) (initResult : Int) : Option (Devices × Int) := do
  let p ← dev
  let (d, result) := (w.node p).base.rtDeviceInit initResult
  return (w.setBase p d, result)

def deviceOpen (w : Devices) (dev : Option Nat) (oflag : BitVec 16) (initResult openResult : Int) :
    Option (Devices × Int) := do
  let p ← dev
  let (d, result) ← (w.node p).base.rtDeviceOpen oflag initResult openResult
  return (w.setBase p d, result)

def deviceClose (w : Devices) (dev : Option Nat) (closeResult : Int) : Option (Devices × Int) := do
  let p ← dev
  let (d, result) := (w.node p).base.rtDeviceClose closeResult
  return (w.setBase p d, result)

/-- `_portal_init`. -/
def portalInit (w : Devices) (portal : Nat) (r : Handlers) : Option (Devices × Int) := do
  let (w, err) ← w.deviceInit (w.node portal).writeDev r.writeInit
  if err ≠ rtEok then return (w, err) else
  w.deviceInit (w.node portal).readDev r.readInit

/-- `_portal_open`. -/
def portalOpen (w : Devices) (portal : Nat) (oflag : BitVec 16) (r : Handlers) :
    Option (Devices × Int) := do
  if oflag = 0 then return (w, -rtError) else
  let (w, err) ←
    (if oflag &&& oflagRdonly ≠ 0 then
      w.deviceOpen (w.node portal).readDev oflagRdonly r.readOpenInit r.readOpen
    else
      some (w, rtEok))
  if err ≠ rtEok then return (w, err) else
  if oflag &&& oflagWronly ≠ 0 then
    w.deviceOpen (w.node portal).writeDev oflagWronly r.writeOpenInit r.writeOpen
  else
    return (w, rtEok)

/-- `_portal_close`. -/
def portalClose (w : Devices) (portal : Nat) (r : Handlers) : Option (Devices × Int) := do
  let (w, _) ← w.deviceClose (w.node portal).writeDev r.writeClose
  let (w, _) ← w.deviceClose (w.node portal).readDev r.readClose
  return (w, rtEok)

/-- `rt_device_open` on a portal, with its handlers where they are called. -/
def openPortal (w : Devices) (portal : Nat) (oflag : BitVec 16) (r : Handlers) :
    Option (Devices × Int) := do
  let d := (w.node portal).base
  let (w, initResult) ←
    (if d.hasInit ∧ d.flag &&& flagActivated = 0 then w.portalInit portal r else some (w, rtEok))
  let (w, openResult) ←
    (if d.CallsOpen initResult ∧ d.hasOpen then w.portalOpen portal oflag r else some (w, rtEok))
  let (d, result) ← d.rtDeviceOpen oflag initResult openResult
  return (w.setBase portal d, result)

/-- `rt_device_close` on a portal. -/
def closePortal (w : Devices) (portal : Nat) (r : Handlers) : Option (Devices × Int) := do
  let d := (w.node portal).base
  let (w, closeResult) ←
    (if d.refCount = 1 ∧ d.hasClose then w.portalClose portal r else some (w, rtEok))
  let (d, result) := d.rtDeviceClose closeResult
  return (w.setBase portal d, result)

/-! ## Runs -/

inductive Mode where
  | rdonly
  | wronly
  | rdwr
  deriving DecidableEq, Repr

namespace Mode

def oflag : Mode → BitVec 16
  | rdonly => oflagRdonly
  | wronly => oflagWronly
  | rdwr => oflagRdwr

end Mode

inductive PortalEvent where
  | open (mode : Mode) (r : Handlers)
  | close (r : Handlers)

/-- The devices, with the number of opens that succeeded and are not closed yet. -/
structure PortalSys where
  w : Devices
  opened : Nat

/-- A close is the match of an open that succeeded. -/
def portalStep (portal : Nat) (s : PortalSys) : PortalEvent → Option PortalSys
  | .open mode r => do
    let (w, result) ← s.w.openPortal portal mode.oflag r
    return ⟨w, if result = rtEok then s.opened + 1 else s.opened⟩
  | .close r => do
    rtAssert (s.opened ≠ 0)
    let (w, _) ← s.w.closePortal portal r
    return ⟨w, s.opened - 1⟩

/-- `ref_count`. -/
def count (w : Devices) (p : Nat) : Nat := (w.node p).base.refCount

/-- What no call changes: the pipes of a portal, and the handlers. -/
def shape (w : Devices) (p : Nat) : (Option Nat × Option Nat) × Bool × Bool × Bool :=
  (((w.node p).writeDev, (w.node p).readDev),
    (w.node p).base.hasInit, (w.node p).base.hasOpen, (w.node p).base.hasClose)

/-- A portal with its pipes. The counts are of the type `rt_uint8_t`. -/
structure Wired (w : Devices) (portal wd rd : Nat) : Prop where
  shape : w.shape portal = ((some wd, some rd), true, true, true)
  write_ne : wd ≠ portal
  read_ne : rd ≠ portal
  count_lt : ∀ p, w.count p < 256

/-- `rt_device_open` on the portal comes to `_portal_open`: the portal is initialised already, or
`_portal_init` initialises both pipes, and the portal is not busy. -/
def Reaches (w : Devices) (portal wd rd : Nat) (r : Handlers) : Prop :=
  ((w.node portal).base.flag &&& flagActivated ≠ 0 ∨
    ¬ (w.node wd).base.InitFails r.writeInit ∧ (rd = wd ∨ ¬ (w.node rd).base.InitFails r.readInit)) ∧
  ¬ (w.node portal).base.Busy

/-- The first `rt_device_open` of `_portal_open` on the pipe `p` counts it. -/
def Counts (w : Devices) (portal p : Nat) (initResult : Int) : Prop :=
  ((w.node portal).base.flag &&& flagActivated = 0 ∨ ¬ (w.node p).base.InitFails initResult) ∧
  ¬ (w.node p).base.Busy

/-- `_portal_open` opens the read pipe and comes to the write pipe, and counts it. The pipes may be one. -/
def CountsBoth (w : Devices) (portal wd rd : Nat) (r : Handlers) : Prop :=
  w.Counts portal rd r.readOpenInit ∧ ((w.node rd).base.hasOpen → r.readOpen = rtEok) ∧
  if rd = wd then (w.node wd).base.flag &&& flagStandalone = 0 else w.Counts portal wd r.writeOpenInit

instance (w : Devices) (portal wd rd : Nat) (r : Handlers) : Decidable (w.Reaches portal wd rd r) :=
  inferInstanceAs (Decidable (_ ∧ _))

instance (w : Devices) (portal p : Nat) (initResult : Int) : Decidable (w.Counts portal p initResult) :=
  inferInstanceAs (Decidable (_ ∧ _))

instance (w : Devices) (portal wd rd : Nat) (r : Handlers) : Decidable (w.CountsBoth portal wd rd r) :=
  inferInstanceAs (Decidable (_ ∧ _ ∧ _))

/-- How often `_portal_open` counts the pipe `q`. -/
def counted (w : Devices) (portal wd rd : Nat) (r : Handlers) (q : Nat) : Mode → Nat
  | .rdonly => if q = rd ∧ w.Counts portal rd r.readOpenInit then 1 else 0
  | .wronly => if q = wd ∧ w.Counts portal wd r.writeOpenInit then 1 else 0
  | .rdwr => (if q = rd ∧ w.Counts portal rd r.readOpenInit then 1 else 0) +
    if q = wd ∧ w.CountsBoth portal wd rd r then 1 else 0

/-- How often an event counts the pipe `q`, by the flags before it and the results of the handlers. -/
def raises (portal wd rd q : Nat) (s : PortalSys) : PortalEvent → Nat
  | .open mode r => if s.w.Reaches portal wd rd r then s.w.counted portal wd rd r q mode else 0
  | .close _ => 0

/-- How often an event gives a reference to the pipe `q` back: the last close of the portal closes both
pipes, if they are open. -/
def lowers (portal wd rd q : Nat) (s : PortalSys) : PortalEvent → Nat
  | .open _ _ => 0
  | .close _ =>
    if s.w.count portal = 1 then min (s.w.count q) ((if q = wd then 1 else 0) + if q = rd then 1 else 0) else 0

/-! ## What the calls do -/

end Devices

namespace Device

variable {d d' : Device} {oflag : BitVec 16} {initResult openResult closeResult result : Int}

/-- The handlers that a device has. -/
def handlers (d : Device) : Bool × Bool × Bool := (d.hasInit, d.hasOpen, d.hasClose)

/-- The count, and whether the device is busy. Only opening and closing change them. -/
def usage (d : Device) : Nat × BitVec 16 × BitVec 16 := (d.refCount, d.flag &&& flagStandalone, d.openFlag)

theorem busy_of_usage (h : d'.usage = d.usage) : d'.Busy ↔ d.Busy := by
  obtain ⟨-, hflag, hopen⟩ := Prod.mk.inj h |>.imp_right Prod.mk.inj
  rw [Busy, Busy, hflag, hopen]

/-- A flag that was set. -/
theorem or_and_ne (x : BitVec 16) {y : BitVec 16} (hy : y ≠ 0) : (x ||| y) &&& y ≠ 0 := by
  have hself : (x ||| y) &&& y = y := by
    ext i
    simpa using .inr
  rwa [hself]

/-- The mark of `init` says nothing about the use of a device. -/
theorem mark_usage (d : Device) : { d with flag := d.flag ||| flagActivated }.usage = d.usage := by
  have hstandalone : (d.flag ||| flagActivated) &&& flagStandalone = d.flag &&& flagStandalone := by
    rw [BitVec.and_or_distrib_right, show flagActivated &&& flagStandalone = 0#16 by decide, BitVec.or_zero]
  rw [usage, usage, hstandalone]

theorem activate_spec (d : Device) :
    d.activate.handlers = d.handlers ∧ d.activate.usage = d.usage ∧ ∀ i, ¬ d.activate.InitFails i := by
  unfold activate
  split
  next => exact ⟨rfl, d.mark_usage, fun i hfails => or_and_ne d.flag (by decide) hfails.1⟩
  next hactive => exact ⟨rfl, rfl, fun i hfails => hactive hfails.1⟩

/-- `rt_device_init` fails if the handler does. Afterwards an open does not call the handler again. -/
theorem rtDeviceInit_spec (d : Device) (i : Int) :
    (d.rtDeviceInit i).1.handlers = d.handlers ∧ (d.rtDeviceInit i).1.usage = d.usage ∧
      ((d.rtDeviceInit i).2 = rtEok ↔ ¬ d.InitFails i) ∧
      ((d.rtDeviceInit i).2 = rtEok → ∀ j, ¬ (d.rtDeviceInit i).1.InitFails j) := by
  unfold rtDeviceInit
  split
  next hcalls =>
    split
    next hfail => exact ⟨rfl, rfl, iff_of_false hfail (not_not.mpr ⟨hcalls.2, hcalls.1, hfail⟩),
        fun hok => absurd hok hfail⟩
    next hok =>
      exact ⟨rfl, d.mark_usage, iff_of_true (not_not.mp hok) fun hfails => hok hfails.2.2,
        fun _ j hfails => or_and_ne d.flag (by decide) hfails.1⟩
  next hno =>
    exact ⟨rfl, rfl, iff_of_true rfl fun hfails => hno ⟨hfails.2.1, hfails.1⟩,
      fun _ j hfails => hno ⟨hfails.2.1, hfails.1⟩⟩

/-- An open is refused before it counts, or it counts and returns what the handler returns. A device
that was opened can be opened again if it is not a stand-alone one. -/
theorem rtDeviceOpen_inv (h : d.rtDeviceOpen oflag initResult openResult = some (d', result)) :
    d'.handlers = d.handlers ∧
      (¬ d.CallsOpen initResult ∧ d'.refCount = d.refCount ∧ result ≠ rtEok ∨
        d.CallsOpen initResult ∧ d'.refCount = (d.refCount + 1) % 256 ∧ d'.refCount ≠ 0 ∧
          result = (if d.hasOpen then openResult else rtEok) ∧
          (result = rtEok → ∀ j, d'.CallsOpen j ↔ d.flag &&& flagStandalone = 0)) := by
  obtain ⟨hhandlers, husage, hinit'⟩ := d.activate_spec
  have hcount : d.activate.refCount = d.refCount := congrArg (·.1) husage
  have hflag : d.activate.flag &&& flagStandalone = d.flag &&& flagStandalone := congrArg (·.2.1) husage
  unfold rtDeviceOpen at h
  by_cases hinit : d.InitFails initResult
  · rw [if_pos hinit] at h
    cases h
    exact ⟨rfl, .inl ⟨fun hcalls => hcalls.1 hinit, rfl, hinit.2.2⟩⟩
  rw [if_neg hinit] at h
  by_cases hbusy : d.activate.Busy
  · have hbusy' := hbusy
    unfold Busy at hbusy'
    rw [if_pos hbusy'] at h
    cases h
    exact ⟨hhandlers, .inl ⟨fun hcalls => hcalls.2 ((busy_of_usage husage).mp hbusy), hcount, by decide⟩⟩
  have hbusy' := hbusy
  unfold Busy at hbusy'
  rw [if_neg hbusy'] at h
  obtain ⟨hpos, h⟩ := rtAssert_bind_eq_some.mp h
  have hopen : d.activate.hasOpen = d.hasOpen := congrArg (·.2.1) hhandlers
  rw [hcount] at hpos
  simp only [hcount] at h
  rw [← hopen]
  have hcalls : d.CallsOpen initResult := ⟨hinit, fun hb => hbusy ((busy_of_usage husage).mpr hb)⟩
  generalize (if d.activate.hasOpen then openResult else rtEok) = res at h ⊢
  split at h
  next =>
    cases h
    refine ⟨hhandlers, .inr ⟨hcalls, rfl, hpos, rfl, fun _ j => ?_⟩⟩
    have hflagOpen : (oflag ||| oflagOpen) &&& oflagOpen ≠ 0 := or_and_ne oflag (by decide)
    rw [CallsOpen, Busy, hflag, and_iff_left hflagOpen, not_not]
    exact and_iff_right (hinit' j)
  next hne =>
    cases h
    exact ⟨hhandlers, .inr ⟨hcalls, rfl, hpos, rfl, fun hok => absurd (.inl hok) hne⟩⟩

/-- A close gives a reference back, if there is one. -/
theorem rtDeviceClose_spec (d : Device) (closeResult : Int) :
    (d.rtDeviceClose closeResult).1.handlers = d.handlers ∧
      (d.rtDeviceClose closeResult).1.refCount = d.refCount - 1 := by
  unfold rtDeviceClose
  dsimp only
  generalize (if d.hasClose then closeResult else rtEok) = res
  split
  next hzero => exact ⟨rfl, by simp [hzero]⟩
  next =>
    split
    · exact ⟨rfl, rfl⟩
    · split <;> exact ⟨rfl, rfl⟩

end Device

namespace Devices

variable {w w' : Devices} {p portal wd rd : Nat} {d : Device} {oflag : BitVec 16} {r : Handlers}
  {i o result : Int}

theorem count_setBase : (w.setBase p d).count = update w.count p d.refCount := by
  funext q
  by_cases hq : q = p
  · simp [count, setBase, hq]
  · simp [count, setBase, hq]

theorem shape_setBase (h : d.handlers = (w.node p).base.handlers) : (w.setBase p d).shape = w.shape := by
  funext q
  by_cases hq : q = p
  · subst hq
    simp only [shape, setBase, modify_node_same]
    exact congrArg (Prod.mk _) h
  · simp [shape, setBase, hq]

theorem deviceInit_spec (h : w.deviceInit (some p) i = some (w', result)) :
    w'.shape = w.shape ∧ (∀ q, (w'.node q).base.usage = (w.node q).base.usage) ∧
      (∀ q, q ≠ p → w'.node q = w.node q) ∧ (result = rtEok ↔ ¬ (w.node p).base.InitFails i) ∧
      (result = rtEok → ∀ j, ¬ (w'.node p).base.InitFails j) := by
  have heq : (w.setBase p ((w.node p).base.rtDeviceInit i).1, ((w.node p).base.rtDeviceInit i).2) = (w', result) :=
    Option.some.inj h
  obtain ⟨rfl, rfl⟩ := Prod.mk.inj heq
  obtain ⟨hhandlers, husage, hok, hdone⟩ := (w.node p).base.rtDeviceInit_spec i
  have hbase : ((w.setBase p ((w.node p).base.rtDeviceInit i).1).node p).base =
      ((w.node p).base.rtDeviceInit i).1 := by simp [setBase]
  refine ⟨shape_setBase hhandlers, fun q => ?_, fun q hq => modify_node_of_ne hq, hok, fun hres => ?_⟩
  · by_cases hq : q = p
    · rw [hq, hbase, husage]
    · rw [setBase, modify_node_of_ne hq]
  · rw [hbase]
    exact hdone hres

theorem deviceClose_spec (h : w.deviceClose (some p) i = some (w', result)) :
    w'.shape = w.shape ∧ ∀ q, w'.count q = w.count q - if q = p then 1 else 0 := by
  have hw : w' = w.setBase p ((w.node p).base.rtDeviceClose i).1 := congrArg Prod.fst (Option.some.inj h).symm
  obtain ⟨hhandlers, hcount⟩ := (w.node p).base.rtDeviceClose_spec i
  refine ⟨hw ▸ shape_setBase hhandlers, fun q => ?_⟩
  rw [hw, count_setBase, hcount, update_apply]
  split
  next heq => rw [heq]; rfl
  next => rfl

theorem deviceOpen_spec (hlt : ∀ q, w.count q < 256) (h : w.deviceOpen (some p) oflag i o = some (w', result)) :
    w'.shape = w.shape ∧ (∀ q, w'.count q < 256) ∧ (∀ q, q ≠ p → w'.node q = w.node q) ∧
      (∀ q, w'.count q = w.count q + if q = p ∧ (w.node p).base.CallsOpen i then 1 else 0) ∧
      (result = rtEok ↔ (w.node p).base.CallsOpen i ∧ ((w.node p).base.hasOpen → o = rtEok)) ∧
      (result = rtEok → ∀ j, (w'.node p).base.CallsOpen j ↔ (w.node p).base.flag &&& flagStandalone = 0) := by
  obtain ⟨⟨d, res⟩, hopen, heq⟩ := bind_eq_some_iff.mp h
  cases heq
  have hbase : ((w.setBase p d).node p).base = d := by simp [setBase]
  have hne (q : Nat) (hq : q ≠ p) : (w.setBase p d).node q = w.node q := modify_node_of_ne hq
  obtain ⟨hhandlers, hopened⟩ := rtDeviceOpen_inv hopen
  have hcount : d.refCount = w.count p + (if (w.node p).base.CallsOpen i then 1 else 0) ∧ d.refCount < 256 := by
    have hlt := hlt p
    rcases hopened with ⟨hcalls, hsame, -⟩ | ⟨hcalls, hraised, hpos, -⟩
    · rw [if_neg hcalls, hsame]
      exact ⟨rfl, hlt⟩
    · have hraised : d.refCount = (w.count p + 1) % 256 := hraised
      rw [if_pos hcalls]
      omega
  refine ⟨shape_setBase hhandlers, fun q => ?_, hne, fun q => ?_, ?_, fun hok => ?_⟩
  · by_cases hq : q = p
    · rw [count, hq, hbase]
      exact hcount.2
    · rw [count, hne q hq]
      exact hlt q
  · by_cases hq : q = p
    · simp only [count, hq, hbase, hcount.1, true_and]
    · rw [count, hne q hq, if_neg fun hc => hq hc.1]
      rfl
  · rcases hopened with ⟨hcalls, -, herr⟩ | ⟨hcalls, -, -, hres, -⟩
    · exact iff_of_false herr fun hc => hcalls hc.1
    · rw [hres, and_iff_right hcalls]
      cases (w.node p).base.hasOpen <;> simp
  · rw [hbase]
    rcases hopened with ⟨-, -, herr⟩ | ⟨-, -, -, -, hagain⟩
    · exact absurd hok herr
    · exact hagain hok

/-- What `_portal_init` leaves of the devices. -/
structure Readied (w w' : Devices) (portal wd rd : Nat) : Prop where
  shape : w'.shape = w.shape
  usage : ∀ q, (w'.node q).base.usage = (w.node q).base.usage
  ready : (w.node portal).base.flag &&& flagActivated = 0 → ∀ q, q = wd ∨ q = rd → ∀ j, ¬ (w'.node q).base.InitFails j
  same : (w.node portal).base.flag &&& flagActivated ≠ 0 → w' = w

theorem Readied.callsOpen (hr : Readied w w' portal wd rd) (hp : p = wd ∨ p = rd) :
    (w'.node p).base.CallsOpen i ↔ w.Counts portal p i := by
  rw [CallsOpen, Counts, busy_of_usage (hr.usage p)]
  by_cases hactive : (w.node portal).base.flag &&& flagActivated = 0
  · exact and_congr_left' (iff_of_true (hr.ready hactive p hp i) (.inl hactive))
  · rw [hr.same hactive, or_iff_right hactive]

section

variable (hw : w.Wired portal wd rd)

include hw

/-- The pipes are initialised, and no count changes. -/
theorem Wired.portalInit (h : w.portalInit portal r = some (w', result)) :
    w'.shape = w.shape ∧ (∀ q, (w'.node q).base.usage = (w.node q).base.usage) ∧
      (result = rtEok ↔
        ¬ (w.node wd).base.InitFails r.writeInit ∧ (rd = wd ∨ ¬ (w.node rd).base.InitFails r.readInit)) ∧
      (result = rtEok → ∀ q, q = wd ∨ q = rd → ∀ j, ¬ (w'.node q).base.InitFails j) := by
  obtain ⟨⟨w1, err⟩, hwrite, h⟩ := bind_eq_some_iff.mp h
  have hdev : (w.node portal).writeDev = some wd := congrArg (·.1.1) hw.shape
  rw [hdev] at hwrite
  obtain ⟨hshape, husage, hsame, hok, hdone⟩ := deviceInit_spec hwrite
  dsimp only at h
  split at h
  next herr =>
    cases h
    exact ⟨hshape, husage, iff_of_false herr fun hc => herr (hok.mpr hc.1), fun hres => absurd hres herr⟩
  next herr =>
  have herr := not_not.mp herr
  have hdev : (w1.node portal).readDev = some rd := congrArg (·.1.2) ((congrFun hshape portal).trans hw.shape)
  rw [hdev] at h
  obtain ⟨hshape', husage', hsame', hok', hdone'⟩ := deviceInit_spec h
  refine ⟨hshape'.trans hshape, fun q => (husage' q).trans (husage q), ?_, fun hres q hq j => ?_⟩
  · rw [hok', and_iff_right (hok.mp herr)]
    by_cases hq : rd = wd
    · exact iff_of_true (hq ▸ hdone herr _) (.inl hq)
    · rw [hsame rd hq, or_iff_right hq]
  · by_cases hqr : q = rd
    · exact hqr ▸ hdone' hres j
    · rw [hsame' q hqr, hq.resolve_right hqr]
      exact hdone herr j

/-- The open of the portal comes to `_portal_open` exactly if the flags before it say so. -/
theorem Wired.readies
    (h : (if (w.node portal).base.hasInit ∧ (w.node portal).base.flag &&& flagActivated = 0 then
      w.portalInit portal r else some (w, rtEok)) = some (w', i)) :
    ((w.node portal).base.CallsOpen i ↔ w.Reaches portal wd rd r) ∧ w'.shape = w.shape ∧
      (∀ q, (w'.node q).base.usage = (w.node q).base.usage) ∧
      ((w.node portal).base.CallsOpen i → Readied w w' portal wd rd) := by
  have hhas : (w.node portal).base.hasInit = true := congrArg (·.2.1) hw.shape
  rw [CallsOpen, Reaches, InitFails, hhas]
  by_cases hactive : (w.node portal).base.flag &&& flagActivated = 0
  · rw [if_pos ⟨hhas, hactive⟩] at h
    obtain ⟨hshape, husage, hok, hready⟩ := hw.portalInit h
    rw [← hok]
    refine ⟨by tauto, hshape, husage, fun hc => ⟨hshape, husage, fun _ => hready ?_, fun hne => absurd hactive hne⟩⟩
    exact by_contra fun hne => hc.1 ⟨hactive, rfl, hne⟩
  · rw [if_neg fun hc => hactive hc.2] at h
    cases h
    exact ⟨by tauto, rfl, fun _ => rfl, fun _ => ⟨rfl, fun _ => rfl, fun hz => absurd hz hactive, fun _ => rfl⟩⟩

end

/-- What `_portal_open` counts. -/
theorem Wired.portalOpen {w1 : Devices} {mode : Mode} (hw : w1.Wired portal wd rd)
    (hready : Readied w w1 portal wd rd) (h : w1.portalOpen portal mode.oflag r = some (w', result)) :
    w'.shape = w1.shape ∧ (∀ q, w'.count q < 256) ∧
      ∀ q, w'.count q = w1.count q + w.counted portal wd rd r q mode := by
  have hread : (w1.node portal).readDev = some rd := congrArg (·.1.2) hw.shape
  have hwrite : (w1.node portal).writeDev = some wd := congrArg (·.1.1) hw.shape
  have hne : ¬ mode.oflag = 0 := by cases mode <;> decide
  rw [Devices.portalOpen, if_neg hne, hread] at h
  obtain ⟨⟨w2, err⟩, hfirst, h⟩ := bind_eq_some_iff.mp h
  dsimp only at h
  cases mode with
  | rdonly =>
    rw [if_pos (by decide)] at hfirst
    obtain ⟨hshape, hlt, -, hcount, -⟩ := deviceOpen_spec hw.count_lt hfirst
    obtain rfl : w2 = w' := by
      split at h
      · cases h
        rfl
      · rw [if_neg (by decide)] at h
        cases h
        rfl
    refine ⟨hshape, hlt, fun q => ?_⟩
    simp only [hcount, hready.callsOpen (.inr rfl), counted]
  | wronly =>
    rw [if_neg (by decide)] at hfirst
    cases hfirst
    rw [if_neg (by decide), if_pos (by decide), hwrite] at h
    obtain ⟨hshape, hlt, -, hcount, -⟩ := deviceOpen_spec hw.count_lt h
    refine ⟨hshape, hlt, fun q => ?_⟩
    simp only [hcount, hready.callsOpen (.inl rfl), counted]
  | rdwr =>
    rw [if_pos (by decide)] at hfirst
    obtain ⟨hshape, hlt, hsame, hcount, hok, hagain⟩ := deviceOpen_spec hw.count_lt hfirst
    rw [hready.callsOpen (.inr rfl)] at hok
    simp only [hready.callsOpen (.inr rfl)] at hcount
    have hhas : (w1.node rd).base.hasOpen = (w.node rd).base.hasOpen :=
      congrArg (·.2.2.1) (congrFun hready.shape rd)
    rw [hhas] at hok
    split at h
    next herr =>
      cases h
      refine ⟨hshape, hlt, fun q => ?_⟩
      have hnot : ¬ (q = wd ∧ w.CountsBoth portal wd rd r) := fun hc => herr (hok.mpr ⟨hc.2.1, hc.2.2.1⟩)
      rw [hcount, counted, if_neg hnot, Nat.add_zero]
    next herr =>
      have herr := not_not.mp herr
      have hdev : (w2.node portal).writeDev = some wd := congrArg (·.1.1) ((congrFun hshape portal).trans hw.shape)
      rw [if_pos (by decide), hdev] at h
      obtain ⟨hshape', hlt', -, hcount', -⟩ := deviceOpen_spec hlt h
      refine ⟨hshape'.trans hshape, hlt', fun q => ?_⟩
      have hcalls : (w2.node wd).base.CallsOpen r.writeOpenInit ↔ w.CountsBoth portal wd rd r := by
        obtain ⟨hcounts, hopened⟩ := hok.mp herr
        rw [CountsBoth, and_iff_right hcounts, and_iff_right hopened]
        by_cases hq : rd = wd
        · subst hq
          have hflag : (w1.node rd).base.flag &&& flagStandalone = (w.node rd).base.flag &&& flagStandalone :=
            congrArg (·.2.1) (hready.usage rd)
          rw [if_pos rfl, hagain herr, hflag]
        · rw [if_neg hq, hsame wd (Ne.symm hq), hready.callsOpen (.inl rfl)]
      simp only [hcount', hcount, counted, hcalls, Nat.add_assoc]

/-- The counts after both pipes were closed. -/
def lowered (count : Nat → Nat) (wd rd p : Nat) : Nat :=
  count p - (if p = wd then 1 else 0) - if p = rd then 1 else 0

section

variable (hw : w.Wired portal wd rd)

include hw

theorem Wired.portalClose (h : w.portalClose portal r = some (w', result)) :
    w'.shape = w.shape ∧ w'.count = lowered w.count wd rd := by
  obtain ⟨⟨w1, _⟩, hwrite, h⟩ := bind_eq_some_iff.mp h
  obtain ⟨⟨w2, _⟩, hread, h⟩ := bind_eq_some_iff.mp h
  cases h
  have hdev : (w.node portal).writeDev = some wd := congrArg (·.1.1) hw.shape
  rw [hdev] at hwrite
  obtain ⟨hshape, hcount⟩ := deviceClose_spec hwrite
  have hdev : (w1.node portal).readDev = some rd := congrArg (·.1.2) ((congrFun hshape portal).trans hw.shape)
  simp only [hdev] at hread
  obtain ⟨hshape', hcount'⟩ := deviceClose_spec hread
  exact ⟨hshape'.trans hshape, funext fun q => by rw [hcount', hcount]; rfl⟩

/-- Setting the count of the portal leaves its pipes. -/
theorem Wired.setPortal {w1 : Devices} (hshape : w1.shape = w.shape)
    (hlt : ∀ q, w1.count q < 256) (hhandlers : d.handlers = (w.node portal).base.handlers)
    (hd : d.refCount < 256) :
    (w1.setBase portal d).Wired portal wd rd ∧ (w1.setBase portal d).count portal = d.refCount ∧
      ∀ q, q = wd ∨ q = rd → (w1.setBase portal d).count q = w1.count q := by
  have hbase : (w1.node portal).base.handlers = (w.node portal).base.handlers :=
    congrArg Prod.snd (congrFun hshape portal)
  have hne : ∀ q, q = wd ∨ q = rd → q ≠ portal := by
    rintro q (rfl | rfl)
    · exact hw.write_ne
    · exact hw.read_ne
  refine ⟨⟨?_, hw.write_ne, hw.read_ne, fun q => ?_⟩, ?_, fun q hq => ?_⟩
  · rw [shape_setBase (hhandlers.trans hbase.symm), hshape]
    exact hw.shape
  · rw [count_setBase, update_apply]
    split
    · exact hd
    · exact hlt q
  · rw [count_setBase, update_self]
  · rw [count_setBase, update_of_ne (hne q hq)]

/-- An open counts the pipes that the flags before it say. -/
theorem Wired.openPortal {mode : Mode} (h : w.openPortal portal mode.oflag r = some (w', result)) :
    w'.Wired portal wd rd ∧ ∀ q, q = wd ∨ q = rd →
      w'.count q = w.count q + if w.Reaches portal wd rd r then w.counted portal wd rd r q mode else 0 := by
  obtain ⟨⟨w1, initResult⟩, hinit, h⟩ := bind_eq_some_iff.mp h
  obtain ⟨⟨w2, openResult⟩, hopen, h⟩ := bind_eq_some_iff.mp h
  obtain ⟨⟨d, res⟩, hd, h⟩ := bind_eq_some_iff.mp h
  cases h
  obtain ⟨hreaches, hshape1, husage, hready⟩ := hw.readies hinit
  have hcount1 (q : Nat) : w1.count q = w.count q := congrArg (·.1) (husage q)
  have hlt1 (q : Nat) : w1.count q < 256 := (hcount1 q).trans_lt (hw.count_lt q)
  have hlt := hw.count_lt portal
  have hhas : (w.node portal).base.hasOpen = true := congrArg (·.2.2.1) hw.shape
  obtain ⟨hhandlers, ⟨hcalls, hsame, -⟩ | ⟨hcalls, hraised, -⟩⟩ := rtDeviceOpen_inv hd
  · -- refused before the count
    rw [if_neg fun hc => hcalls hc.1] at hopen
    cases hopen
    obtain ⟨hw', -, hpipes⟩ := hw.setPortal hshape1 hlt1 hhandlers (hsame.trans_lt hlt)
    refine ⟨hw', fun q hq => ?_⟩
    rw [hpipes q hq, hcount1, if_neg fun hc => hcalls (hreaches.mpr hc), Nat.add_zero]
  · rw [if_pos ⟨hcalls, hhas⟩] at hopen
    have hw1 : w1.Wired portal wd rd := ⟨hshape1 ▸ hw.shape, hw.write_ne, hw.read_ne, hlt1⟩
    obtain ⟨hshape2, hlt2, hcount2⟩ := hw1.portalOpen (hready hcalls) hopen
    obtain ⟨hw', -, hpipes⟩ := hw.setPortal (hshape2.trans hshape1) hlt2 hhandlers
      (hraised ▸ Nat.mod_lt _ (by decide))
    refine ⟨hw', fun q hq => ?_⟩
    rw [hpipes q hq, hcount2, hcount1, if_pos (hreaches.mp hcalls)]

/-- A close gives a reference to the portal back, and the last one closes both pipes. -/
theorem Wired.closePortal
    (h : w.closePortal portal r = some (w', result)) :
    w'.Wired portal wd rd ∧ w'.count portal = w.count portal - 1 ∧
      ∀ q, q = wd ∨ q = rd →
        w'.count q = if w.count portal = 1 then lowered w.count wd rd q else w.count q := by
  obtain ⟨⟨w1, closeResult⟩, hclose, h⟩ := bind_eq_some_iff.mp h
  have hw' : w' = w1.setBase portal ((w.node portal).base.rtDeviceClose closeResult).1 :=
    congrArg Prod.fst (Option.some.inj h).symm
  obtain ⟨hhandlers, hcount⟩ := (w.node portal).base.rtDeviceClose_spec closeResult
  have hlt : ((w.node portal).base.rtDeviceClose closeResult).1.refCount < 256 := by
    have hlt : (w.node portal).base.refCount < 256 := hw.count_lt portal
    omega
  have hhas : (w.node portal).base.hasClose = true := congrArg (·.2.2.2) hw.shape
  by_cases hlast : w.count portal = 1
  · rw [if_pos ⟨hlast, hhas⟩] at hclose
    obtain ⟨hshape, hcount1⟩ := hw.portalClose hclose
    have hlt1 : ∀ q, w1.count q < 256 := fun q => by
      have hq := hw.count_lt q
      rw [hcount1, lowered]
      omega
    obtain ⟨hwired, hportal, hpipes⟩ := hw.setPortal hshape hlt1 hhandlers hlt
    simp only [hw', if_pos hlast]
    exact ⟨hwired, hportal.trans hcount, fun q hq => (hpipes q hq).trans (congrFun hcount1 q)⟩
  · rw [if_neg fun hc => hlast hc.1] at hclose
    cases hclose
    obtain ⟨hwired, hportal, hpipes⟩ := hw.setPortal rfl hw.count_lt hhandlers hlt
    simp only [hw', if_neg hlast]
    exact ⟨hwired, hportal.trans hcount, hpipes⟩

/-! ## Runs -/

end

/-- One event changes the count of a pipe by what it raises and lowers. -/
theorem Wired.step {s s' : PortalSys} {e : PortalEvent} {q : Nat} (hw : s.w.Wired portal wd rd)
    (hq : q = wd ∨ q = rd) (hs : portalStep portal s e = some s') :
    s'.w.Wired portal wd rd ∧
      s'.w.count q + lowers portal wd rd q s e = s.w.count q + raises portal wd rd q s e := by
  cases e with
  | «open» mode r =>
    obtain ⟨⟨w, result⟩, hopen, hs⟩ := bind_eq_some_iff.mp hs
    cases hs
    obtain ⟨hwired, hcount⟩ := hw.openPortal hopen
    exact ⟨hwired, hcount q hq⟩
  | close r =>
    obtain ⟨-, hs⟩ := rtAssert_bind_eq_some.mp hs
    obtain ⟨⟨w, result⟩, hclose, hs⟩ := bind_eq_some_iff.mp hs
    cases hs
    obtain ⟨hwired, -, hcount⟩ := hw.closePortal hclose
    refine ⟨hwired, ?_⟩
    rw [hcount q hq, lowers, raises, lowered]
    split <;> omega

/-- The counts of both pipes come back exactly if the events count each pipe as often as they give a
reference to it back. -/
theorem portal_open_balanced {s s' : PortalSys} {es : List PortalEvent} (hw : s.w.Wired portal wd rd)
    (hrun : run (portalStep portal) s es = some s') :
    (s'.w.count rd = s.w.count rd ∧ s'.w.count wd = s.w.count wd) ↔
      ∀ q, q = wd ∨ q = rd → sumAlong (portalStep portal) (raises portal wd rd q) s es =
        sumAlong (portalStep portal) (lowers portal wd rd q) s es := by
  have hbalance (q : Nat) (hq : q = wd ∨ q = rd) :
      s'.w.count q + sumAlong (portalStep portal) (lowers portal wd rd q) s es =
        s.w.count q + sumAlong (portalStep portal) (raises portal wd rd q) s es :=
    run_balance (I := fun s => s.w.Wired portal wd rd) (fun _ _ _ hw hs => hw.step hq hs) hw hrun
  constructor
  · rintro ⟨hrd, hwd⟩ q hq
    have hsum := hbalance q hq
    rcases hq with rfl | rfl <;> omega
  · intro hsums
    have hrd := hbalance rd (.inr rfl)
    have hwd := hbalance wd (.inl rfl)
    rw [hsums rd (.inr rfl)] at hrd
    rw [hsums wd (.inl rfl)] at hwd
    omega

/-- The portal `pt` that writes into `p0` and reads from `p1`. -/
def portalOnPipes : Devices := ((twoPipes.connected 0 1 2).rtDeviceRegister 0 [112, 116] flagRdwr).1

theorem count_modify {f : Node → Node} (h : (f (w.node p)).base.refCount = (w.node p).base.refCount) :
    (w.modify p f).count = w.count := by
  funext q
  by_cases hq : q = p
  · simp [count, hq, h]
  · simp [count, hq]

theorem portalOnPipes_wired : portalOnPipes.Wired 0 1 2 where
  shape := rfl
  write_ne := by decide
  read_ne := by decide
  count_lt p := by
    have hconnected : (twoPipes.connected 0 1 2).count = twoPipes.count := by
      unfold connected writing typed
      iterate 9 rw [count_modify rfl]
    by_cases hp : p = 0
    · subst hp
      exact Nat.zero_lt_succ _
    · have hcount : portalOnPipes.count p = (twoPipes.connected 0 1 2).count p :=
        congrArg (fun n : Node => n.base.refCount) (update_of_ne hp _ _)
      rw [hcount, hconnected]
      exact Nat.zero_lt_succ _

/-- The portal is opened for reading and then for writing, and closed twice. -/
theorem portal_open_balanced_nested :
    twoPipes.rtPortalInit 0 [112, 116] [112, 48] [112, 49] = .ok (portalOnPipes, rtEok) ∧
    ∃ s, run (portalStep 0) ⟨portalOnPipes, 0⟩
        [.open .rdonly {}, .open .wronly {}, .close {}, .close {}] = some s ∧
      s.w.count 2 = portalOnPipes.count 2 ∧ s.w.count 1 = portalOnPipes.count 1 := by
  obtain ⟨s, hrun⟩ : ∃ s, run (portalStep 0) ⟨portalOnPipes, 0⟩
      [.open .rdonly {}, .open .wronly {}, .close {}, .close {}] = some s := ⟨_, rfl⟩
  refine ⟨rfl, s, hrun, (portal_open_balanced portalOnPipes_wired hrun).mpr ?_⟩
  rintro q (rfl | rfl) <;> rfl

/-- The portal is opened for reading twice, and closed twice: the read pipe `p1` stays open. -/
theorem portal_open_unbalanced :
    portalOnPipes.count 2 = 0 ∧
    ∃ s, run (portalStep 0) ⟨portalOnPipes, 0⟩
        [.open .rdonly {}, .open .rdonly {}, .close {}, .close {}] = some s ∧
      s.opened = 0 ∧ s.w.count 0 = 0 ∧ s.w.count 2 = 1 :=
  ⟨rfl, _, rfl, rfl, rfl, rfl⟩

end Devices

end RtThread
