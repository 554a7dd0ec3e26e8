-- SUMMARY: Serial transmission by DMA: once and in order.
import ZigbeeGateway.Drivers.Dataqueue

/-!
# Transmitting on a serial device by DMA

The model of `rt_serial_write` with `RT_DEVICE_FLAG_DMA_TX` and of `rt_hw_serial_dma_tx_isr` in
`components/drivers/serial/serial.c`. A write pushes its buffer to the data queue, then tests and
sets `dma_flag`, and then starts a transfer: three steps, between which other writes and the
interrupt run. The interrupt pops the buffer that was transmitted and starts the next one.

A transfer is started by `dma_transmit` and ends with one interrupt. The history variables of
`Sys` keep the buffers that were given to `dma_transmit`; the ones that the queue accepted are kept
by the model of the queue. `Mode` says how the flag, the queue and the transfer fit together.
-/

namespace RtThread.SerialDma

open Run Function

/-- `RT_SERIAL_TX_DATAQUEUE_SIZE` and `RT_SERIAL_TX_DATAQUEUE_LWM`. -/
def rtSerialTxDataqueueSize : Nat := 2048

def rtSerialTxDataqueueLwm : Nat := 30

/-- Where a write is after its push was accepted: before the test of the flag, with the number of
buffers that were accepted earlier, or before the call of `dma_transmit`. -/
inductive Stage where
  | test (position : Nat) (item : DataItem)
  | transmit (item : DataItem)
  deriving DecidableEq, Repr

/-- The steps of a write, the expiry of the timer of a blocked push, and the interrupt. -/
inductive Event where
  | write (t : Tid) (item : DataItem)
  | resume (t : Tid)
  | expire (t : Tid)
  | test (t : Tid)
  | transmit (t : Tid)
  | txIsr
  deriving DecidableEq, Repr

/-- `txDq` is the data queue with its threads, `running` says that a transfer is running. -/
structure Sys where
  txDq : Dataqueue.Sys
  dmaFlag : Bool
  running : Bool
  stage : Tid → Option Stage
  /-- The buffers that were given to `dma_transmit`, and whether this happened during a transfer. -/
  sent : List DataItem
  overlapped : Bool

namespace Sys

/-- The operation `dma_transmit` of the driver. -/
def dmaTransmit (s : Sys) (item : DataItem) : Sys :=
  { s with
    running := true
    sent := s.sent ++ [item]
    overlapped := s.overlapped || s.running }

/-- The write of `item` goes on to the test if its push was accepted. -/
def afterPush (s : Sys) (t : Tid) (item : DataItem) (txDq : Dataqueue.Sys) : Sys :=
  { s with
    txDq := txDq
    stage := update s.stage t
      (if s.txDq.pushed.length < txDq.pushed.length then some (.test s.txDq.pushed.length item)
        else none) }

/-- `rt_hw_serial_dma_tx_isr`; a pop that does not wait needs no thread. -/
def rtHwSerialDmaTxIsr (s : Sys) : Option Sys := do
  let (k, q, exit) ← Dataqueue.rtDataQueuePop s.txDq.kernel s.txDq.queue 0 0
  let s := { s with
    running := false
    txDq := { s.txDq with
      kernel := k
      queue := q
      popped := s.txDq.popped ++ (exit.bind Dataqueue.Exit.item).toList } }
  match q.rtDataQueuePeak with
  | some item => return s.dmaTransmit item
  | none => return { s with dmaFlag := false }

end Sys

def step (s : Sys) : Event → Option Sys
  | .write t item =>
    if s.stage t ≠ none then
      none
    else if item.dataSize = 0 then
      some s
    else
      (Dataqueue.step s.txDq (.call t (.push item 20))).map (s.afterPush t item)
  | .resume t =>
    match s.txDq.blocked t with
    | some (.push item _) => (Dataqueue.step s.txDq (.resume t)).map (s.afterPush t item)
    | _ => none
  | .expire t => (Dataqueue.step s.txDq (.expire t)).map fun txDq => { s with txDq := txDq }
  | .test t =>
    match s.stage t with
    | some (.test _ item) =>
      if s.dmaFlag = false then
        some { s with
          dmaFlag := true
          stage := update s.stage t (some (.transmit item)) }
      else
        some { s with stage := update s.stage t none }
    | _ => none
  | .transmit t =>
    match s.stage t with
    | some (.transmit item) =>
      some ({ s with stage := update s.stage t none }.dmaTransmit item)
    | _ => none
  | .txIsr => if s.running then s.rtHwSerialDmaTxIsr else none

/-- A device that was just opened, among threads in any state. -/
structure Initial (s : Sys) : Prop where
  txDq : Dataqueue.Initial s.txDq
  dmaFlag : s.dmaFlag = false
  running : s.running = false
  stage : ∀ t, s.stage t = none
  sent : s.sent = []
  overlapped : s.overlapped = false

/-- A write that finds the flag clear has the oldest buffer of the queue: of the buffers before it
all were transmitted, and its own was not. -/
def OldestStarts (s : Sys) : Event → Prop
  | .test t => ∀ position item, s.stage t = some (.test position item) → s.dmaFlag = false →
      position = s.txDq.popped.length
  | _ => True

/-- No push meets a full data queue after its `put_index` has wrapped past `get_index`. -/
def QueueNotWrapped (s : Sys) : Event → Prop
  | .write t item => Dataqueue.NotWrapped s.txDq (.call t (.push item 20))
  | .resume t => Dataqueue.NotWrapped s.txDq (.resume t)
  | _ => True

/-! ## The history of the queue -/

variable {d d' : Dataqueue.Sys} {t : Tid} {item : DataItem} {timeout : Int}

/-- A step of the push of `item` by thread `t` stores its item and ends, or stores nothing. -/
structure Appends (d d' : Dataqueue.Sys) (t : Tid) (item : DataItem) : Prop where
  popped : d'.popped = d.popped
  pushed : d'.pushed = d.pushed ∨ d'.pushed = d.pushed ++ [item] ∧ d'.blocked t = none
  blocked : ∀ u ≠ t, d'.blocked u = d.blocked u

theorem appends_exit {k : Kernel} {q : Dataqueue} {exit : Dataqueue.Exit} (hitem : exit.item = none) :
    Appends d (d.after t (.push item timeout) (k, q, some exit)) t item := by
  refine ⟨by simp [Dataqueue.Sys.after, hitem], ?_, fun u hu => Dataqueue.after_blocked d _ _ hu⟩
  by_cases hresult : exit.result = .eok
  · exact .inr (by simp [Dataqueue.Sys.after, Dataqueue.Call.stored, hresult])
  · exact .inl (by simp [Dataqueue.Sys.after, Dataqueue.Call.stored, hresult])

theorem appends_section {r : Kernel × Dataqueue × Option Dataqueue.Exit}
    (hr : Dataqueue.rtDataQueuePush d.kernel d.queue t item timeout = some r) :
    Appends d (d.after t (.push item timeout) r) t item := by
  obtain ⟨k, q, r⟩ := r
  cases Dataqueue.rtDataQueuePush_cases hr with
  | waits => exact ⟨rfl, .inl rfl, fun u hu => Dataqueue.after_blocked d _ _ hu⟩
  | full | resumes | stores => exact appends_exit rfl

theorem call_appends (hstep : Dataqueue.step d (.call t (.push item timeout)) = some d') :
    Appends d d' t item := by
  simp only [Dataqueue.step, Option.ite_none_right_eq_some, Option.map_eq_some_iff] at hstep
  obtain ⟨-, r, hr, rfl⟩ := hstep
  exact appends_section hr

theorem resume_appends (hc : d.blocked t = some (.push item timeout))
    (hstep : Dataqueue.step d (.resume t) = some d') : Appends d d' t item := by
  simp only [Dataqueue.step, hc, Option.ite_none_right_eq_some] at hstep
  obtain ⟨-, hstep⟩ := hstep
  unfold Dataqueue.exitOnError at hstep
  split at hstep
  next exit hexit =>
    cases hstep
    split at hexit <;> cases hexit
    exact appends_exit rfl
  next =>
    obtain ⟨r, hr, rfl⟩ := Option.map_eq_some_iff.mp hstep
    exact appends_section hr

/-! ## How the flag, the queue and the transfer fit together -/

/-- The flag is clear and every buffer in the queue still has its write before the test; or a write
is about to transmit the oldest buffer; or the oldest buffer is being transmitted. -/
inductive Mode (s : Sys) : Prop where
  | idle (hflag : s.dmaFlag = false) (hrunning : s.running = false)
      (hstage : ∀ t item, s.stage t ≠ some (.transmit item)) (hsent : s.sent = s.txDq.popped)
      (htest : ∀ n, s.txDq.popped.length ≤ n → n < s.txDq.pushed.length →
        ∃ t item, s.stage t = some (.test n item))
  | starting (t : Tid) (item : DataItem) (hflag : s.dmaFlag = true) (hrunning : s.running = false)
      (hstage : ∀ u item', s.stage u = some (.transmit item') → item' = item ∧ u = t)
      (hself : s.stage t = some (.transmit item)) (hsent : s.sent = s.txDq.popped)
      (holdest : s.txDq.pushed[s.txDq.popped.length]? = some item)
  | transmitting (item : DataItem) (hflag : s.dmaFlag = true) (hrunning : s.running = true)
      (hstage : ∀ t item, s.stage t ≠ some (.transmit item)) (hsent : s.sent = s.txDq.popped ++ [item])
      (holdest : s.txDq.pushed[s.txDq.popped.length]? = some item)

structure Inv (s : Sys) : Prop where
  ordered : s.txDq.Ordered
  blocked : ∀ t, s.txDq.blocked t ≠ none → s.stage t = none
  position : ∀ t n item, s.stage t = some (.test n item) → s.txDq.pushed[n]? = some item
  mode : Mode s
  overlapped : s.overlapped = false

variable {s s' : Sys}

theorem Initial.inv (h : Initial s) : Inv s := by
  refine ⟨h.txDq.ordered, fun t _ => h.stage t, ?_, .idle h.dmaFlag h.running ?_ ?_ ?_, h.overlapped⟩
  · simp [h.stage]
  · simp [h.stage]
  · rw [h.sent, h.txDq.popped]
  · simp [h.txDq.pushed]

/-- The item behind the ones that were popped is the oldest of the queue. -/
theorem oldest_eq (h : d.Ordered) : d.pushed[d.popped.length]? = d.queue.unread.head? := by
  rw [h.order, List.getElem?_append_right (Nat.le_refl _), Nat.sub_self, List.head?_eq_getElem?]

/-- A push that is accepted keeps every item at its place. -/
theorem Appends.getElem? {n : Nat} {x : DataItem} (h : Appends d d' t item) (hx : d.pushed[n]? = some x) :
    d'.pushed[n]? = some x := by
  obtain hpushed | ⟨hpushed, -⟩ := h.pushed <;> rw [hpushed]
  · exact hx
  · obtain ⟨hlt, -⟩ := List.getElem?_eq_some_iff.mp hx
    rw [List.getElem?_append_left hlt, hx]

theorem Inv.afterPush (h : Inv s) (hstage : s.stage t = none) (hord : d'.Ordered)
    (happ : Appends s.txDq d' t item) : Inv (s.afterPush t item d') := by
  have hne {u : Tid} (hu : s.stage u ≠ none) : u ≠ t := fun heq => hu (heq ▸ hstage)
  -- only the test of the write that was accepted is new
  have hold {u : Tid} {st : Stage} (hu : s.stage u = some st) : (s.afterPush t item d').stage u = some st := by
    rw [← hu]
    exact update_of_ne (hne (by simp [hu])) _ _
  have hnew {u : Tid} {st : Stage} (hu : (s.afterPush t item d').stage u = some st) :
      s.stage u = some st ∨ (st = .test s.txDq.pushed.length item ∧ d'.pushed = s.txDq.pushed ++ [item]) := by
    by_cases hut : u = t
    · subst hut
      simp only [Sys.afterPush, update_self] at hu
      obtain ⟨hlt, ⟨⟩⟩ := Option.ite_none_right_eq_some.mp hu
      obtain hsame | ⟨hpushed, -⟩ := happ.pushed
      · exact absurd hlt (by simp [hsame])
      · exact .inr ⟨rfl, hpushed⟩
    · exact .inl (by rwa [← show (s.afterPush t item d').stage u = s.stage u from
        update_of_ne hut _ _])
  have htransmit {u : Tid} {x : DataItem} (hu : (s.afterPush t item d').stage u = some (.transmit x)) :
      s.stage u = some (.transmit x) := by
    obtain hu | ⟨hst, -⟩ := hnew hu
    · exact hu
    · cases hst
  have hpopped : (s.afterPush t item d').txDq.popped = s.txDq.popped := happ.popped
  refine ⟨hord, fun u hu => ?_, fun u n x hu => ?_, ?_, h.overlapped⟩
  · by_cases hut : u = t
    · subst hut
      simp only [Sys.afterPush, update_self]
      refine if_neg fun hlt => ?_
      obtain hsame | ⟨-, hnone⟩ := happ.pushed
      · exact absurd hlt (by simp [hsame])
      · exact hu hnone
    · simp only [Sys.afterPush, update_of_ne hut]
      refine h.blocked u ?_
      rw [← happ.blocked u hut]
      exact hu
  · obtain hu | ⟨hst, hpushed⟩ := hnew hu
    · exact happ.getElem? (h.position u n x hu)
    · cases hst
      change d'.pushed[_]? = _
      rw [hpushed, List.getElem?_concat_length]
  · cases h.mode with
    | idle hflag hrunning hnone hsent htest =>
      refine .idle hflag hrunning (fun u x hu => hnone u x (htransmit hu)) (hsent.trans hpopped.symm) ?_
      intro n hn hlt
      rw [hpopped] at hn
      by_cases hlast : n < s.txDq.pushed.length
      · obtain ⟨u, x, hu⟩ := htest n hn hlast
        exact ⟨u, x, hold hu⟩
      · -- the position of the buffer that was accepted
        have hlt : n < d'.pushed.length := hlt
        obtain hsame | ⟨hpushed, -⟩ := happ.pushed
        · exact absurd (hsame ▸ hlt) hlast
        · have hlen : d'.pushed.length = s.txDq.pushed.length + 1 := by
            rw [hpushed, List.length_append, List.length_singleton]
          obtain rfl : n = s.txDq.pushed.length := by omega
          refine ⟨t, item, ?_⟩
          simp only [Sys.afterPush, update_self]
          rw [if_pos hlt]
    | starting u x hflag hrunning hone hself hsent holdest =>
      refine .starting u x hflag hrunning (fun v y hv => hone v y (htransmit hv)) (hold hself)
        (hsent.trans hpopped.symm) ?_
      rw [hpopped]
      exact happ.getElem? holdest
    | transmitting x hflag hrunning hnone hsent holdest =>
      refine .transmitting x hflag hrunning (fun u y hu => hnone u y (htransmit hu)) ?_ ?_
      · rw [hpopped]
        exact hsent
      · rw [hpopped]
        exact happ.getElem? holdest

/-- The kernel changes and nothing else. -/
theorem Inv.expire (h : Inv s) (k : Kernel) : Inv { s with txDq := { s.txDq with kernel := k } } := by
  refine ⟨h.ordered, h.blocked, h.position, ?_, h.overlapped⟩
  cases h.mode with
  | idle hflag hrunning hnone hsent htest => exact .idle hflag hrunning hnone hsent htest
  | starting u x hflag hrunning hone hself hsent holdest =>
    exact .starting u x hflag hrunning hone hself hsent holdest
  | transmitting x hflag hrunning hnone hsent holdest =>
    exact .transmitting x hflag hrunning hnone hsent holdest

/-- The write at the head of the queue takes the flag. -/
theorem Inv.test_clear {position : Nat} (h : Inv s) (hstage : s.stage t = some (.test position item))
    (hflag : s.dmaFlag = false) (holdest : position = s.txDq.popped.length) :
    Inv { s with dmaFlag := true, stage := update s.stage t (some (.transmit item)) } := by
  have hitem := h.position t position item hstage
  refine ⟨h.ordered, fun u hu => ?_, fun u n x hu => ?_, ?_, h.overlapped⟩
  · have hut : u ≠ t := by
      rintro rfl
      cases (h.blocked u hu).symm.trans hstage
    simpa [hut] using h.blocked u hu
  · by_cases hut : u = t
    · subst hut
      simp at hu
    · exact h.position u n x (by simpa [hut] using hu)
  · cases h.mode with
    | starting _ _ hset | transmitting _ hset => cases hflag.symm.trans hset
    | idle _ hrunning hnone hsent =>
      refine .starting t item rfl hrunning (fun u x hu => ?_) (by simp) hsent (holdest ▸ hitem)
      by_cases hut : u = t
      · subst hut
        exact ⟨by simpa using hu.symm, rfl⟩
      · exact absurd (by simpa [hut] using hu) (hnone u x)

/-- Any other write leaves after the test. -/
theorem Inv.test_set {position : Nat} (h : Inv s) (hstage : s.stage t = some (.test position item))
    (hflag : s.dmaFlag ≠ false) : Inv { s with stage := update s.stage t none } := by
  have hold {u : Tid} {st : Stage} (hu : update s.stage t none u = some st) :
      s.stage u = some st := by
    by_cases hut : u = t
    · subst hut
      simp at hu
    · simpa [hut] using hu
  refine ⟨h.ordered, fun u hu => ?_, fun u n x hu => h.position u n x (hold hu), ?_, h.overlapped⟩
  · by_cases hut : u = t <;> simp [hut, h.blocked u hu]
  cases h.mode with
  | idle hclear => exact absurd hclear hflag
  | starting u x hset hrunning hone hself hsent holdest =>
    refine .starting u x hset hrunning (fun v y hv => hone v y (hold hv)) ?_ hsent holdest
    have hut : u ≠ t := by
      rintro rfl
      cases hself.symm.trans hstage
    simpa [hut] using hself
  | transmitting x hset hrunning hnone hsent holdest =>
    exact .transmitting x hset hrunning (fun u y hu => hnone u y (hold hu)) hsent holdest

theorem Inv.transmit (h : Inv s) (hstage : s.stage t = some (.transmit item)) :
    Inv ({ s with stage := update s.stage t none }.dmaTransmit item) := by
  have hold {u : Tid} {st : Stage} (hu : update s.stage t none u = some st) :
      u ≠ t ∧ s.stage u = some st := by
    by_cases hut : u = t
    · subst hut
      simp at hu
    · exact ⟨hut, by simpa [hut] using hu⟩
  cases h.mode with
  | idle _ _ hnone | transmitting _ _ _ hnone => exact absurd hstage (hnone t item)
  | starting u x hset hrunning hone hself hsent holdest =>
    obtain ⟨rfl, rfl⟩ := hone t item hstage
    refine ⟨h.ordered, fun v hv => ?_, fun v n y hv => h.position v n y (hold hv).2, ?_, ?_⟩
    · by_cases hvt : v = t <;> simp [Sys.dmaTransmit, hvt, h.blocked v hv]
    · refine .transmitting item hset rfl (fun v y hv => ?_) (congrArg (· ++ [item]) hsent) holdest
      obtain ⟨hne, hv⟩ := hold hv
      exact hne (hone v y hv).2
    · simp [Sys.dmaTransmit, h.overlapped, hrunning]

/-- The interrupt pops the buffer that was transmitted. -/
theorem pop_oldest {k' : Kernel} {q' : Dataqueue} {r : Option Dataqueue.Exit} (h : d.Ordered)
    (hitem : d.pushed[d.popped.length]? = some item)
    (hr : Dataqueue.rtDataQueuePop d.kernel d.queue t timeout = some (k', q', r)) :
    (r.bind Dataqueue.Exit.item).toList = [item] ∧
      Dataqueue.InOrder q' d.pushed (d.popped ++ [item]) := by
  rw [oldest_eq h] at hitem
  have hpeak := h.peak.trans hitem
  obtain ⟨hne, ⟨⟩⟩ := Option.ite_none_left_eq_some.mp hpeak
  cases Dataqueue.rtDataQueuePop_cases hr with
  | empty hempty | waits hempty => exact absurd hempty hne
  | takes => exact ⟨rfl, h.get hne⟩
  | resumes | stale => exact ⟨rfl, (h.get hne).setWaitingLwm false⟩

theorem Inv.txIsr (h : Inv s) (hrunning : s.running = true) (hs' : s.rtHwSerialDmaTxIsr = some s') :
    Inv s' := by
  cases h.mode with
  | idle _ hidle | starting _ _ _ hidle => cases hidle.symm.trans hrunning
  | transmitting item hflag _ hnone hsent holdest =>
    obtain ⟨⟨k', q', r⟩, hr, hs'⟩ := Option.bind_eq_some_iff.mp hs'
    obtain ⟨hpop, hord⟩ := pop_oldest h.ordered holdest hr
    dsimp only at hs'
    rw [hpop, hord.peak] at hs'
    split at hs'
    next next hnext =>
      cases hs'
      refine ⟨hord, h.blocked, h.position, .transmitting next hflag rfl hnone ?_ ?_, ?_⟩
      · exact congrArg (· ++ [next]) hsent
      · exact (oldest_eq (d := { s.txDq with kernel := k', queue := q', popped := s.txDq.popped ++ [item] })
          hord).trans hnext
      · simp [Sys.dmaTransmit, h.overlapped]
    next hnext =>
      cases hs'
      have hall : s.txDq.pushed = s.txDq.popped ++ [item] := by
        rw [hord.order, List.head?_eq_none_iff.mp hnext, List.append_nil]
      refine ⟨hord, h.blocked, h.position, .idle rfl rfl hnone hsent fun n hn hlt => ?_, h.overlapped⟩
      rw [hall] at hlt
      exact absurd hlt (Nat.not_lt.mpr hn)

theorem step_inv {e : Event} (h : Inv s) (hwrap : QueueNotWrapped s e) (holdest : OldestStarts s e)
    (hs' : step s e = some s') : Inv s' := by
  cases e with
  | write t item =>
    obtain ⟨hstage, hs'⟩ := Option.ite_none_left_eq_some.mp hs'
    split at hs'
    next =>
      cases hs'
      exact h
    next =>
      obtain ⟨d', hd', rfl⟩ := Option.map_eq_some_iff.mp hs'
      exact h.afterPush (not_not.mp hstage) (Dataqueue.step_ordered h.ordered hwrap hd') (call_appends hd')
  | resume t =>
    simp only [step] at hs'
    split at hs'
    next item timeout hc =>
      obtain ⟨d', hd', rfl⟩ := Option.map_eq_some_iff.mp hs'
      exact h.afterPush (h.blocked t (by simp [hc])) (Dataqueue.step_ordered h.ordered hwrap hd')
        (resume_appends hc hd')
    next => cases hs'
  | expire t =>
    obtain ⟨d', hd', rfl⟩ := Option.map_eq_some_iff.mp hs'
    obtain ⟨k', -, rfl⟩ := Option.map_eq_some_iff.mp hd'
    exact h.expire k'
  | test t =>
    simp only [step] at hs'
    split at hs'
    next position item hstage =>
      split at hs'
      next hflag =>
        cases hs'
        exact h.test_clear hstage hflag (holdest position item hstage hflag)
      next hflag =>
        cases hs'
        exact h.test_set hstage hflag
    next => cases hs'
  | transmit t =>
    simp only [step] at hs'
    split at hs'
    next item hstage =>
      cases hs'
      exact h.transmit hstage
    next => cases hs'
  | txIsr =>
    simp only [step, Option.ite_none_right_eq_some] at hs'
    exact h.txIsr hs'.1 hs'.2

/-- In every run in which a write that finds the flag clear has the oldest buffer of the queue, and
in which no push meets a full queue after `put_index` has wrapped, the buffers that were given
to `dma_transmit` are the first ones that the queue accepted, in order, and never one during a
transfer. When no transfer is running and no write is between its push and its end, they are
all of them. -/
theorem serial_dma_in_order {es : List Event} (h : Initial s) (hwrap : Along step QueueNotWrapped s es)
    (holdest : Along step OldestStarts s es) (hrun : run step s es = some s') :
    s'.sent <+: s'.txDq.pushed ∧ s'.overlapped = false ∧
      (s'.running = false → (∀ t, s'.stage t = none) → s'.sent = s'.txDq.pushed) := by
  have hinv : Inv s' := by
    refine run_invariant_along (P := fun s e => QueueNotWrapped s e ∧ OldestStarts s e) ?_ h.inv ?_ hrun
    · exact fun s e s' hs he => step_inv hs he.1 he.2
    · exact along_and hwrap holdest
  have hprefix : s'.txDq.popped <+: s'.txDq.pushed := ⟨_, hinv.ordered.order.symm⟩
  cases hinv.mode with
  | idle hflag hrunning hnone hsent htest =>
    refine ⟨hsent ▸ hprefix, hinv.overlapped, fun _ hstage => hsent.trans ?_⟩
    -- a buffer that was not popped has its write before the test
    refine hprefix.eq_of_length (Nat.le_antisymm hprefix.length_le (Nat.not_lt.mp fun hlt => ?_))
    obtain ⟨t, item, ht⟩ := htest _ (Nat.le_refl _) hlt
    simp [hstage t] at ht
  | starting t item hflag hrunning hone hself hsent =>
    refine ⟨hsent ▸ hprefix, hinv.overlapped, fun _ hstage => ?_⟩
    simp [hstage t] at hself
  | transmitting item hflag hrunning hnone hsent holdest =>
    refine ⟨?_, hinv.overlapped, fun hidle => by cases hidle.symm.trans hrunning⟩
    obtain ⟨rest, hrest⟩ : ∃ rest, s'.txDq.queue.unread = item :: rest := by
      rw [oldest_eq hinv.ordered] at holdest
      exact ⟨_, List.eq_cons_of_mem_head? holdest⟩
    rw [hsent, hinv.ordered.order, hrest]
    exact ⟨rest, by simp⟩

/-! ## Two writers -/

/-- A device that was just opened, and two ready threads. -/
def opened : Sys where
  txDq :=
    { kernel := Kernel.bootThreads (fun _ => 10) [0, 1]
      queue := Dataqueue.rtDataQueueInit 0 rtSerialTxDataqueueSize rtSerialTxDataqueueLwm false fun _ => ⟨0, 0⟩
      blocked := fun _ => none
      pushed := []
      popped := [] }
  dmaFlag := false
  running := false
  stage := fun _ => none
  sent := []
  overlapped := false

theorem opened_initial : Initial opened where
  txDq := ⟨⟨0, 11, 30, false, fun _ => ⟨0, 0⟩, by decide, rfl⟩, fun _ => rfl, rfl, rfl⟩
  dmaFlag := rfl
  running := rfl
  stage := fun _ => rfl
  sent := rfl
  overlapped := rfl

/-- The second write comes during the first transfer. -/
theorem serial_dma_in_order_queued :
    ∃ s, run step opened [.write 0 ⟨1, 1⟩, .test 0, .transmit 0, .write 1 ⟨2, 2⟩, .test 1] = some s ∧
      s.sent <+: s.txDq.pushed ∧ s.overlapped = false := by
  refine run_exists (Q := fun s => s.overlapped = false) (by decide) fun s hrun hoverlapped => ?_
  refine ⟨(serial_dma_in_order opened_initial ?_ ?_ hrun).1, hoverlapped⟩
  · refine along_cons (Dataqueue.notWrapped_of_le (by decide)) rfl (along_cons trivial rfl ?_)
    refine along_cons trivial rfl (along_cons (Dataqueue.notWrapped_of_le (by decide)) rfl ?_)
    exact along_cons trivial rfl trivial
  · refine along_cons trivial rfl (along_cons (fun position item hstage _ => ?_) rfl ?_)
    · cases hstage
      rfl
    · exact along_cons trivial rfl (along_cons trivial rfl (along_cons (fun _ _ _ hflag => by cases hflag)
        rfl trivial))

/-- The second writer is faster with the test and transmits its own buffer: the interrupt then
pops the first one and transmits the second one again. And a writer that comes late to the
test, after the interrupt has transmitted its buffer, transmits it again. -/
theorem buffer_lost_or_sent_twice :
    Initial opened ∧
    (∃ s, run step opened [.write 0 ⟨1, 1⟩, .write 1 ⟨2, 2⟩, .test 1, .transmit 1, .txIsr] = some s ∧
      s.txDq.pushed = [⟨1, 1⟩, ⟨2, 2⟩] ∧ s.sent = [⟨2, 2⟩, ⟨2, 2⟩] ∧ ¬ s.sent <+: s.txDq.pushed) ∧
    ∃ s, run step opened [.write 0 ⟨1, 1⟩, .test 0, .transmit 0, .write 1 ⟨2, 2⟩, .txIsr, .txIsr,
        .test 1, .transmit 1] = some s ∧
      s.txDq.pushed = [⟨1, 1⟩, ⟨2, 2⟩] ∧ s.sent = [⟨1, 1⟩, ⟨2, 2⟩, ⟨2, 2⟩] := by
  refine ⟨opened_initial, run_exists ?_ fun _ _ => id, run_exists ?_ fun _ _ => id⟩
  all_goals decide

end RtThread.SerialDma
