-- SUMMARY: Pipes and portals: which failures of their set-up are undone.
import ZigbeeGateway.Kernel.Device
import ZigbeeGateway.Kernel.Kservice

/-!
# Setting up pipes and portals

The model of `rt_device_find` and `rt_device_register` in `src/device.c`, of `rt_pipe_create` in
`pipe.c`, and of `rt_portal_init` and `rt_portal_create` in `portal.c`. A portal takes the callbacks
of two pipes over. Where it cannot be set up, nothing that was done before is undone; if the read pipe
is missing, the restoring call is made on the device that was not found.
-/

namespace RtThread

open Device

/-- `RT_Device_Class_Pipe`, `RT_Device_Class_Portal`, and all others. -/
inductive DeviceClass where
  | pipe
  | portal
  | other
  deriving DecidableEq, Repr

/-- `_portal_rx_indicate` or `_portal_tx_complete`, and other functions. -/
inductive Callback where
  | portal
  | user (f : Nat)
  deriving DecidableEq, Repr

/-- A device, with the fields of a pipe and of a portal. -/
structure Node where
  base : Device
  name : List UInt8
  type : DeviceClass
  rxIndicate : Option Callback
  txComplete : Option Callback
  -- struct rt_pipe_device
  bufferPtr : Option Nat
  bufferSize : Nat
  pipeFlag : Nat
  writePortal : Option Nat
  readPortal : Option Nat
  -- struct rt_portal_device
  writeDev : Option Nat
  readDev : Option Nat

/-- What `rt_calloc` leaves. `RT_Device_Class_Char` is 0. -/
def Node.zero : Node where
  base := { flag := 0, openFlag := 0, refCount := 0, hasInit := false, hasOpen := false, hasClose := false }
  name := []
  type := .other
  rxIndicate := none
  txComplete := none
  bufferPtr := none
  bufferSize := 0
  pipeFlag := 0
  writePortal := none
  readPortal := none
  writeDev := none
  readDev := none

structure Devices where
  node : Nat → Node
  /-- The list of the registered devices in `rt_object_container`. -/
  objectList : List Nat
  /-- The blocks that are allocated. -/
  heap : List Nat

/-- `RT_ASSERT(dev != RT_NULL)` fails, or another assertion. -/
inductive Fault where
  | null
  | assertion
  deriving DecidableEq, Repr

namespace Devices

def rtEnomem : Int := 5

/-- `RT_DEVICE_FLAG_RDWR`. -/
def flagRdwr : BitVec 16 := 0x003

/-- `RT_NAME_MAX`. Names are stored and compared up to this length. -/
def rtNameMax : Nat := 8

def assert (p : Prop) [Decidable p] : Except Fault Unit := if p then .ok () else .error .assertion

def modify (w : Devices) (p : Nat) (f : Node → Node) : Devices :=
  { w with node := Function.update w.node p (f (w.node p)) }

/-! ## device.c -/

def rtDeviceFind (w : Devices) (name : List UInt8) : Option Nat :=
  w.objectList.find? fun p => (w.node p).name == name.take rtNameMax

def rtDeviceRegister (w : Devices) (dev : Nat) (name : List UInt8) (flags : BitVec 16) : Devices × Int :=
  if (w.rtDeviceFind name).isSome then
    (w, -rtError)
  else
    let w := w.modify dev fun n =>
      { n with name := name.take rtNameMax, base := { n.base with flag := flags, refCount := 0 } }
    ({ w with objectList := dev :: w.objectList }, rtEok)

def rtDeviceSetRxIndicate (w : Devices) (dev : Option Nat) (rxInd : Option Callback) :
    Except Fault Devices :=
  match dev with
  | none => .error .null
  | some p => .ok (w.modify p fun n => { n with rxIndicate := rxInd })

def rtDeviceSetTxComplete (w : Devices) (dev : Option Nat) (txDone : Option Callback) :
    Except Fault Devices :=
  match dev with
  | none => .error .null
  | some p => .ok (w.modify p fun n => { n with txComplete := txDone })

/-! ## pipe.c -/

/-- `rt_calloc` and `rt_malloc` with the block that they return, and `rt_free`. -/
def rtCalloc (w : Devices) (p : Nat) : Devices :=
  { w.modify p fun _ => Node.zero with heap := p :: w.heap }

def rtMalloc (w : Devices) (p : Nat) : Devices := { w with heap := p :: w.heap }

def rtFree (w : Devices) (p : Nat) : Devices := { w with heap := w.heap.erase p }

/-- The size as the `rt_int16_t` of `rt_ringbuffer_init` is positive. -/
def RingbufferSize (size : Nat) : Prop := 0 < size % 65536 ∧ size % 65536 < 32768

instance (size : Nat) : Decidable (RingbufferSize size) := by
  unfold RingbufferSize
  infer_instance

def rtPipeInit (w : Devices) (pipe : Nat) (name : List UInt8) (flag buf size : Nat) :
    Except Fault (Devices × Int) := do
  assert (RingbufferSize size)
  let w := w.modify pipe fun n =>
    { n with
      bufferPtr := some buf
      bufferSize := rtAlignDown (size % 65536)
      pipeFlag := flag
      type := .pipe
      base := { n.base with hasInit := false, hasOpen := false, hasClose := false } }
  return w.rtDeviceRegister pipe name flagRdwr

/-- `rt_pipe_create` with the results of its two allocations. -/
def rtPipeCreate (w : Devices) (name : List UInt8) (flag size : Nat) (calloc malloc : Option Nat) :
    Except Fault (Devices × Int) :=
  let size := rtAlign size
  match calloc with
  | none => .ok (w, -rtEnomem)
  | some pipe =>
    let w := w.rtCalloc pipe
    match malloc with
    | none => .ok (w.rtFree pipe, -rtEnomem)
    | some rbMemptr => (w.rtMalloc rbMemptr).rtPipeInit pipe name flag rbMemptr size

/-! ## portal.c -/

def rtPortalInit (w : Devices) (portal : Nat) (portalName writeDev readDev : List UInt8) :
    Except Fault (Devices × Int) := do
  let w := w.modify portal fun n =>
    { n with type := .portal, base := { n.base with hasInit := true, hasOpen := true, hasClose := true } }
  match w.rtDeviceFind writeDev with
  | none => return (w, -rtEnosys)
  | some dev =>
    assert ((w.node dev).type = .pipe)
    let w := w.modify portal fun n => { n with writeDev := some dev }
    let w ← w.rtDeviceSetTxComplete (some portal) (w.node dev).txComplete
    let w ← w.rtDeviceSetTxComplete (some dev) (some .portal)
    let w := w.modify dev fun n => { n with writePortal := some portal }
    match w.rtDeviceFind readDev with
    | none =>
      -- `dev` is `RT_NULL` here
      let w ← w.rtDeviceSetTxComplete none (w.node portal).txComplete
      return (w, -rtEnosys)
    | some dev =>
      assert ((w.node dev).type = .pipe)
      let w := w.modify portal fun n => { n with readDev := some dev }
      let w ← w.rtDeviceSetRxIndicate (some portal) (w.node dev).rxIndicate
      let w ← w.rtDeviceSetRxIndicate (some dev) (some .portal)
      let w := w.modify dev fun n => { n with readPortal := some portal }
      return w.rtDeviceRegister portal portalName flagRdwr

/-- `rt_portal_create` with the result of its allocation. -/
def rtPortalCreate (w : Devices) (name writeDev readDev : List UInt8) (calloc : Option Nat) :
    Except Fault (Devices × Int) :=
  match calloc with
  | none => .ok (w, -rtEnomem)
  | some portal => (w.rtCalloc portal).rtPortalInit portal name writeDev readDev

/-! ## What the calls do -/

variable {w : Devices} {p portal wd rd : Nat} {f : Node → Node} {name writeDev readDev : List UInt8}

@[simp] theorem modify_node_same : (w.modify p f).node p = f (w.node p) := by simp [modify]

@[simp] theorem modify_node_of_ne {q : Nat} (h : q ≠ p) : (w.modify p f).node q = w.node q := by
  simp [modify, h]

@[simp] theorem modify_heap : (w.modify p f).heap = w.heap := rfl

@[simp] theorem modify_objectList : (w.modify p f).objectList = w.objectList := rfl

/-- A search reads the list and the names only. -/
theorem rtDeviceFind_congr {w' : Devices} (hlist : w'.objectList = w.objectList)
    (hname : ∀ q ∈ w.objectList, (w'.node q).name = (w.node q).name) (name : List UInt8) :
    w'.rtDeviceFind name = w.rtDeviceFind name := by
  unfold rtDeviceFind
  rw [hlist, ← List.head?_filter, ← List.head?_filter]
  exact congrArg List.head? (List.filter_congr fun q hq => by rw [hname q hq])

theorem rtDeviceFind_modify (h : (f (w.node p)).name = (w.node p).name) (name : List UInt8) :
    (w.modify p f).rtDeviceFind name = w.rtDeviceFind name := by
  refine rtDeviceFind_congr modify_objectList (fun q _ => ?_) name
  by_cases hq : q = p
  · rw [hq, modify_node_same, h]
  · rw [modify_node_of_ne hq]

/-- A device that a portal can be connected to. The portal has another type by then. -/
def Connectable (w : Devices) (portal p : Nat) : Prop := p ≠ portal ∧ (w.node p).type = .pipe

instance : Decidable (w.Connectable portal p) := by
  unfold Connectable
  infer_instance

/-- The portal has its type and its handlers. -/
def typed (w : Devices) (portal : Nat) : Devices :=
  w.modify portal fun n =>
    { n with type := .portal, base := { n.base with hasInit := true, hasOpen := true, hasClose := true } }

/-- The portal is connected to the pipe that it writes into. -/
def writing (w : Devices) (portal wd : Nat) : Devices :=
  let w := w.typed portal
  let w := w.modify portal fun n => { n with writeDev := some wd }
  let w := w.modify portal fun n => { n with txComplete := (w.node wd).txComplete }
  let w := w.modify wd fun n => { n with txComplete := some .portal }
  w.modify wd fun n => { n with writePortal := some portal }

/-- The portal is also connected to the pipe that it reads from. -/
def connected (w : Devices) (portal wd rd : Nat) : Devices :=
  let w := w.writing portal wd
  let w := w.modify portal fun n => { n with readDev := some rd }
  let w := w.modify portal fun n => { n with rxIndicate := (w.node rd).rxIndicate }
  let w := w.modify rd fun n => { n with rxIndicate := some .portal }
  w.modify rd fun n => { n with readPortal := some portal }

theorem rtDeviceFind_typed : (w.typed portal).rtDeviceFind name = w.rtDeviceFind name :=
  rtDeviceFind_modify rfl name

theorem rtDeviceFind_writing : (w.writing portal wd).rtDeviceFind name = w.rtDeviceFind name := by
  unfold writing
  iterate 4 rw [rtDeviceFind_modify rfl]
  exact rtDeviceFind_typed

theorem rtDeviceFind_connected : (w.connected portal wd rd).rtDeviceFind name = w.rtDeviceFind name := by
  unfold connected
  iterate 4 rw [rtDeviceFind_modify rfl]
  exact rtDeviceFind_writing

theorem type_typed : ((w.typed portal).node p).type = .pipe ↔ w.Connectable portal p := by
  by_cases hp : p = portal
  · simp [typed, Connectable, hp]
  · simp [typed, Connectable, hp]

theorem type_modify {q : Nat} (h : (f (w.node p)).type = (w.node p).type) :
    ((w.modify p f).node q).type = (w.node q).type := by
  by_cases hq : q = p
  · rw [hq, modify_node_same, h]
  · rw [modify_node_of_ne hq]

theorem type_writing : ((w.writing portal wd).node p).type = .pipe ↔ w.Connectable portal p := by
  unfold writing
  iterate 4 rw [type_modify rfl]
  exact type_typed

theorem assert_bind {α : Type} {c : Prop} [Decidable c] (k : Unit → Except Fault α) :
    (assert c >>= k) = if c then k () else .error .assertion := by
  unfold assert
  split <;> rfl

/-- The outcomes of `rt_portal_init`. -/
theorem rtPortalInit_eq : w.rtPortalInit portal name writeDev readDev =
    match w.rtDeviceFind writeDev with
    | none => .ok (w.typed portal, -rtEnosys)
    | some wd =>
      if w.Connectable portal wd then
        match w.rtDeviceFind readDev with
        | none => .error .null
        | some rd =>
          if w.Connectable portal rd then
            .ok ((w.connected portal wd rd).rtDeviceRegister portal name flagRdwr)
          else
            .error .assertion
      else
        .error .assertion := by
  change (match (w.typed portal).rtDeviceFind writeDev with | none => _ | some dev => _) = _
  rw [rtDeviceFind_typed]
  cases w.rtDeviceFind writeDev with
  | none => rfl
  | some wd =>
    refine (assert_bind _).trans (if_congr type_typed ?_ rfl)
    change (match (w.writing portal wd).rtDeviceFind readDev with | none => _ | some dev => _) = _
    rw [rtDeviceFind_writing]
    cases w.rtDeviceFind readDev with
    | none => rfl
    | some rd => exact (assert_bind _).trans (if_congr type_writing rfl rfl)

/-! ## The callbacks of the pipes -/

/-- The callbacks and the portal pointers of a device. -/
def links (w : Devices) (p : Nat) : Option Callback × Option Callback × Option Nat × Option Nat :=
  ((w.node p).rxIndicate, (w.node p).txComplete, (w.node p).readPortal, (w.node p).writePortal)

theorem links_typed : (w.typed portal).links p = w.links p := by
  by_cases hp : p = portal
  · simp [links, typed, hp]
  · simp [links, typed, hp]

theorem node_writing (hp : p ≠ portal) :
    (w.writing portal wd).node p =
      if p = wd then { w.node p with txComplete := some .portal, writePortal := some portal }
      else w.node p := by
  by_cases hwd : p = wd
  · subst hwd
    simp [writing, typed, hp]
  · simp [writing, typed, hp, hwd]

theorem node_connected (hp : p ≠ portal) :
    (w.connected portal wd rd).node p =
      if p = rd then
        { (w.writing portal wd).node p with rxIndicate := some .portal, readPortal := some portal }
      else (w.writing portal wd).node p := by
  by_cases hrd : p = rd
  · subst hrd
    simp [connected, hp]
  · simp [connected, hp, hrd]

theorem links_connected (hp : p ≠ portal) :
    (w.connected portal wd rd).links p =
      (if p = rd then some .portal else (w.node p).rxIndicate,
        if p = wd then some .portal else (w.node p).txComplete,
        if p = rd then some portal else (w.node p).readPortal,
        if p = wd then some portal else (w.node p).writePortal) := by
  unfold links
  rw [node_connected hp, node_writing hp]
  by_cases hwd : p = wd
  · simp only [if_pos hwd]
    split <;> rfl
  · simp only [if_neg hwd]
    split <;> rfl

/-- The pipes already have the callbacks and the pointers of this portal. -/
structure Linked (w : Devices) (portal wd rd : Nat) : Prop where
  txComplete : (w.node wd).txComplete = some .portal
  writePortal : (w.node wd).writePortal = some portal
  rxIndicate : (w.node rd).rxIndicate = some .portal
  readPortal : (w.node rd).readPortal = some portal

theorem links_connected_eq_iff (hwd : wd ≠ portal) (hrd : rd ≠ portal) :
    (∀ p, p = wd ∨ p = rd → (w.connected portal wd rd).links p = w.links p) ↔ w.Linked portal wd rd := by
  constructor
  · intro h
    have hw := (links_connected hwd).symm.trans (h wd (.inl rfl))
    have hr := (links_connected hrd).symm.trans (h rd (.inr rfl))
    simp only [links, Prod.mk.injEq, if_true] at hw hr
    exact ⟨hw.2.1.symm, hw.2.2.2.symm, hr.1.symm, hr.2.2.1.symm⟩
  · intro h p hp
    have hne : p ≠ portal := by
      obtain rfl | rfl := hp
      · exact hwd
      · exact hrd
    rw [links_connected hne]
    refine Prod.ext ?_ (Prod.ext ?_ (Prod.ext ?_ ?_))
    · exact ite_eq_right_iff.mpr fun he => he ▸ h.rxIndicate.symm
    · exact ite_eq_right_iff.mpr fun he => he ▸ h.txComplete.symm
    · exact ite_eq_right_iff.mpr fun he => he ▸ h.readPortal.symm
    · exact ite_eq_right_iff.mpr fun he => he ▸ h.writePortal.symm

/-- What a caller of `rt_portal_init` relies on: `RT_NULL` is not used as a device, and an error leaves
the callbacks and the portal pointers of both pipes. A failed assertion on a type does not return. -/
def Undone (w : Devices) (writeDev readDev : List UInt8) : Except Fault (Devices × Int) → Prop
  | .error .null => False
  | .error .assertion => True
  | .ok (w', err) =>
    err ≠ rtEok → ∀ p, w.rtDeviceFind writeDev = some p ∨ w.rtDeviceFind readDev = some p →
      w'.links p = w.links p

theorem rtDeviceRegister_error (h : (w.rtDeviceFind name).isSome) (flags : BitVec 16) :
    w.rtDeviceRegister p name flags = (w, -rtError) := if_pos h

theorem rtDeviceRegister_ok (h : w.rtDeviceFind name = none) (flags : BitVec 16) :
    (w.rtDeviceRegister p name flags).2 = rtEok := by
  rw [rtDeviceRegister, h]
  rfl

/-- `rt_portal_init` is undone on an error exactly if, once the write pipe is found, the read device is
found as well, and, if it is a pipe, the name of the portal is free or the pipes already belong
to the portal. -/
theorem portal_init_undone_iff (w : Devices) (portal : Nat) (name writeDev readDev : List UInt8) :
    Undone w writeDev readDev (w.rtPortalInit portal name writeDev readDev) ↔
      ∀ wd, w.rtDeviceFind writeDev = some wd → w.Connectable portal wd →
        ∃ rd, w.rtDeviceFind readDev = some rd ∧
          (w.Connectable portal rd → w.rtDeviceFind name = none ∨ w.Linked portal wd rd) := by
  rw [rtPortalInit_eq]
  cases hwrite : w.rtDeviceFind writeDev with
  | none => simpa [Undone] using fun _ p _ => links_typed
  | some wd =>
  by_cases hwd : w.Connectable portal wd
  swap
  · simp [hwd, Undone]
  cases hread : w.rtDeviceFind readDev with
  | none => simp [hwd, Undone]
  | some rd =>
  by_cases hrd : w.Connectable portal rd
  swap
  · simp [hwd, hrd, Undone]
  simp only [hwd, hrd, if_true, Option.some.injEq, forall_eq', true_imp_iff, exists_eq_left']
  cases hname : w.rtDeviceFind name with
  | none =>
    have hok : ((w.connected portal wd rd).rtDeviceRegister portal name flagRdwr).2 = rtEok :=
      rtDeviceRegister_ok (rtDeviceFind_connected.trans hname) flagRdwr
    exact iff_of_true (fun herr => absurd hok herr) (.inl rfl)
  | some q =>
    have hsome : ((w.connected portal wd rd).rtDeviceFind name).isSome := by
      rw [rtDeviceFind_connected, hname]
      rfl
    rw [rtDeviceRegister_error hsome, ← links_connected_eq_iff hwd.1 hrd.1]
    have herr : -rtError ≠ rtEok := by decide
    simp only [Undone, herr, hwrite, hread, Option.some.injEq, ne_eq, not_false_eq_true, true_imp_iff,
      reduceCtorEq, false_or]
    exact forall_congr' fun p => by rw [eq_comm, @eq_comm _ rd]

/-- The pipes `p0` and `p1`. -/
def twoPipes : Devices where
  node p := { Node.zero with name := if p = 1 then [112, 48] else [112, 49], type := .pipe }
  objectList := [2, 1]
  heap := []

/-- A portal `pt` that is to read from `zz` uses the device that was not found. A portal that is to
be named `p1` cannot be registered, and its write pipe `p0` keeps the callback and the pointer. -/
theorem portal_init_not_undone :
    twoPipes.rtPortalInit 0 [112, 116] [112, 48] [122, 122] = .error .null ∧
    ∃ w, twoPipes.rtPortalInit 0 [112, 49] [112, 48] [112, 49] = .ok (w, -rtError) ∧
      twoPipes.rtDeviceFind [112, 48] = some 1 ∧ twoPipes.links 1 = (none, none, none, none) ∧
      w.links 1 = (none, some .portal, none, some 0) :=
  ⟨rfl, _, rfl, rfl, rfl, rfl⟩

/-! ## The blocks of a failed creation -/

/-- If an error is returned, all blocks are freed and no device is registered. -/
def FreedOnError (w : Devices) : Except Fault (Devices × Int) → Prop
  | .ok (w', err) => err ≠ rtEok → w'.heap = w.heap ∧ w'.objectList = w.objectList
  | .error _ => True

theorem ne_of_rtDeviceFind {q : Nat} (hfresh : p ∉ w.objectList) (hq : w.rtDeviceFind name = some q) :
    q ≠ p := by
  rintro rfl
  exact hfresh (List.mem_of_find?_eq_some hq)

theorem node_rtCalloc {q : Nat} (h : q ≠ p) : (w.rtCalloc p).node q = w.node q :=
  Function.update_of_ne h _ _

theorem rtDeviceFind_rtCalloc (hfresh : p ∉ w.objectList) :
    (w.rtCalloc p).rtDeviceFind name = w.rtDeviceFind name := by
  have hlist : (w.rtCalloc p).objectList = w.objectList := rfl
  refine rtDeviceFind_congr hlist (fun q hq => ?_) name
  have hne : q ≠ p := fun heq => hfresh (heq ▸ hq)
  rw [node_rtCalloc hne]

theorem connectable_rtCalloc {q : Nat} (hfresh : p ∉ w.objectList) (hq : w.rtDeviceFind name = some q) :
    (w.rtCalloc p).Connectable p q ↔ (w.node q).type = .pipe := by
  have hne := ne_of_rtDeviceFind hfresh hq
  rw [Connectable, node_rtCalloc hne]
  exact and_iff_right hne

/-- A device in a new block is registered, or the block is left over. -/
theorem freedOnError_rtDeviceRegister {w' : Devices} (hheap : w.heap.length < w'.heap.length)
    (flags : BitVec 16) :
    FreedOnError w (.ok (w'.rtDeviceRegister p name flags)) ↔ w'.rtDeviceFind name = none := by
  cases hname : w'.rtDeviceFind name with
  | none => exact iff_of_true (fun herr => absurd (rtDeviceRegister_ok hname flags) herr) rfl
  | some q =>
    rw [rtDeviceRegister_error (by rw [hname]; rfl)]
    refine iff_of_false (fun hfreed => ?_) (by simp)
    have heq := (hfreed (by decide)).1
    rw [heq] at hheap
    exact Nat.lt_irrefl _ hheap

theorem freedOnError_rtPipeCreate {flag size : Nat} {calloc malloc : Option Nat}
    (hfresh : ∀ p ∈ calloc, p ∉ w.objectList) :
    FreedOnError w (w.rtPipeCreate name flag size calloc malloc) ↔
      (calloc.isSome → malloc.isSome → RingbufferSize (rtAlign size) → w.rtDeviceFind name = none) := by
  cases calloc with
  | none => simp [rtPipeCreate, FreedOnError]
  | some pipe =>
  cases malloc with
  | none => simp [rtPipeCreate, FreedOnError, rtFree, rtCalloc]
  | some rbMemptr =>
  by_cases hsize : RingbufferSize (rtAlign size)
  swap
  · have hrun : w.rtPipeCreate name flag size (some pipe) (some rbMemptr) = .error .assertion :=
      (assert_bind _).trans (if_neg hsize)
    simp [hrun, hsize, FreedOnError]
  obtain ⟨w', hrun, hheap, hfind⟩ : ∃ w' : Devices, w.rtPipeCreate name flag size (some pipe) (some rbMemptr) =
      .ok (w'.rtDeviceRegister pipe name flagRdwr) ∧ w'.heap = rbMemptr :: pipe :: w.heap ∧
      w'.rtDeviceFind name = w.rtDeviceFind name := by
    refine ⟨_, (assert_bind _).trans (if_pos hsize), rfl, ?_⟩
    exact (rtDeviceFind_modify rfl name).trans (rtDeviceFind_rtCalloc (hfresh pipe rfl))
  have hlen : w.heap.length < w'.heap.length := by
    rw [hheap, List.length_cons, List.length_cons]
    omega
  rw [hrun, freedOnError_rtDeviceRegister hlen, hfind]
  simp [hsize]

theorem freedOnError_rtPortalCreate {calloc : Option Nat} (hfresh : ∀ p ∈ calloc, p ∉ w.objectList) :
    FreedOnError w (w.rtPortalCreate name writeDev readDev calloc) ↔
      (calloc.isSome → ∃ wd, w.rtDeviceFind writeDev = some wd ∧ ((w.node wd).type = .pipe →
        ∀ rd, w.rtDeviceFind readDev = some rd → (w.node rd).type = .pipe →
          w.rtDeviceFind name = none)) := by
  cases calloc with
  | none => simp [rtPortalCreate, FreedOnError]
  | some portal =>
  have hfresh := hfresh portal rfl
  simp only [rtPortalCreate, rtPortalInit_eq, rtDeviceFind_rtCalloc hfresh]
  cases hwrite : w.rtDeviceFind writeDev with
  | none => simp [FreedOnError, rtCalloc, typed, rtEnosys, rtEok]
  | some wd =>
  simp only [connectable_rtCalloc hfresh hwrite]
  by_cases hwd : (w.node wd).type = .pipe
  swap
  · simp [hwd, FreedOnError]
  cases hread : w.rtDeviceFind readDev with
  | none => simp [hwd, FreedOnError]
  | some rd =>
  simp only [connectable_rtCalloc hfresh hread]
  by_cases hrd : (w.node rd).type = .pipe
  swap
  · simp [hwd, hrd, FreedOnError]
  simp only [hwd, hrd, if_true]
  have hheap : ((w.rtCalloc portal).connected portal wd rd).heap = portal :: w.heap := rfl
  rw [freedOnError_rtDeviceRegister (by simp [hheap]), rtDeviceFind_connected, rtDeviceFind_rtCalloc hfresh]
  simp [hwd, hrd]

/-- `rt_pipe_create` frees its blocks on an error exactly if no pipe is given a name that is in use
after both allocations. `rt_portal_create` does exactly if the allocation failed, or the write
device is found and two pipes do not meet a name that is in use. -/
theorem creation_freed_iff (w : Devices) (name writeDev readDev : List UInt8) (flag size : Nat)
    (calloc malloc : Option Nat) (hfresh : ∀ p ∈ calloc, p ∉ w.objectList) :
    (FreedOnError w (w.rtPipeCreate name flag size calloc malloc) ↔
      (calloc.isSome → malloc.isSome → RingbufferSize (rtAlign size) → w.rtDeviceFind name = none)) ∧
    (FreedOnError w (w.rtPortalCreate name writeDev readDev calloc) ↔
      (calloc.isSome → ∃ wd, w.rtDeviceFind writeDev = some wd ∧ ((w.node wd).type = .pipe →
        ∀ rd, w.rtDeviceFind readDev = some rd → (w.node rd).type = .pipe →
          w.rtDeviceFind name = none))) :=
  ⟨freedOnError_rtPipeCreate hfresh, freedOnError_rtPortalCreate hfresh⟩

/-- The pipe `p2` gets no buffer and frees its device, and the portal `pt` is created. -/
theorem creation_freed_iff_twoPipes :
    (∃ w, twoPipes.rtPipeCreate [112, 50] 0 64 (some 3) none = .ok (w, -rtEnomem)) ∧
      FreedOnError twoPipes (twoPipes.rtPipeCreate [112, 50] 0 64 (some 3) none) ∧
      FreedOnError twoPipes (twoPipes.rtPortalCreate [112, 116] [112, 48] [112, 49] (some 3)) := by
  have hfresh : ∀ p ∈ some 3, p ∉ twoPipes.objectList := by decide
  have hboth := creation_freed_iff twoPipes
  refine ⟨⟨_, rfl⟩, (hboth [112, 50] [] [] 0 64 (some 3) none hfresh).1.mpr fun _ h => ?_, ?_⟩
  · cases h
  · exact (hboth [112, 116] [112, 48] [112, 49] 0 0 (some 3) none hfresh).2.mpr
      fun _ => ⟨1, rfl, fun _ _ _ _ => rfl⟩

/-- A second pipe `p0` leaves its device and its buffer allocated, and a portal on a pipe that does
not exist leaves its device. -/
theorem creation_not_freed :
    (∃ w, twoPipes.rtPipeCreate [112, 48] 0 64 (some 3) (some 4) = .ok (w, -rtError) ∧
      w.heap = [4, 3] ∧ twoPipes.heap = []) ∧
    ∃ w, twoPipes.rtPortalCreate [112, 116] [122, 122] [112, 49] (some 3) = .ok (w, -rtEnosys) ∧
      w.heap = [3] :=
  ⟨⟨_, rfl, rfl, rfl⟩, _, rfl, rfl⟩

end Devices

end RtThread
