-- SUMMARY: The FinSH shell thread and the arrival of its input.
import Mathlib
import ZigbeeGateway.Finsh.Shell

/-!
# Lines and their arrival

Behind a carriage return the shell reads a second byte and goes on with that byte, if it has arrived
already. So a carriage return that ends a line is lost when a byte of the next line is there. And the
shell waits for `rx_sem` behind each line, while the receive interrupt counts that semaphore once for
all the bytes that it has got, so lines that arrive together are not all read.

A `session` is one pass of the loop that reads the device: up to a line end, or until nothing is left.
The shell reads everything if the count of `rx_sem` covers the sessions that the buffer needs.
-/

namespace RtThread.Shell

open Run

def Printable (c : UInt8) : Prop := 0x20 ≤ c ∧ c < 0x7f

/-- The non-empty lines of a text, where `line` has been read already. The empty line between a
carriage return and a line feed does not count. -/
def linesFrom (line : List UInt8) : List UInt8 → List (List UInt8)
  | [] => []
  | c :: cs =>
    if IsEnd c then (if line = [] then [] else [line]) ++ linesFrom [] cs else linesFrom (line ++ [c]) cs

/-- No line of the text is longer than 70 bytes. -/
def ShortLines (text : List UInt8) : Prop :=
  ∀ line, line <:+: text → (∀ c ∈ line, ¬ IsEnd c) → line.length ≤ 70

/-! ## The thread and its device -/

/-- The shell, the ring buffer of the device, the count of `rx_sem`, and whether the thread is in the
loop that reads the device. -/
structure Thread where
  sys : Sys
  buffer : List UInt8
  rxSem : Nat
  reading : Bool
  deriving DecidableEq, Repr

/-- The byte that is read, with the one behind a carriage return if it is there, and the bytes that stay
in the buffer. -/
def readKey : List UInt8 → Option (Key × List UInt8)
  | [] => none
  | c :: cs => some (if c = 0x0d then (⟨c, cs.head?⟩, cs.tail) else (⟨c, none⟩, cs))

/-- `rt_hw_serial_isr` has got some bytes, or the thread goes on. -/
inductive Event where
  | isr (bytes : List UInt8)
  | thread
  deriving DecidableEq, Repr

namespace Thread

def start : Thread := ⟨⟨finshSystemInit, []⟩, [], 0, false⟩

/-- One read of the device, or `rt_sem_take`. The end of a line leaves the loop. -/
def step (th : Thread) : Event → Option Thread
  | .isr bytes => some { th with buffer := th.buffer ++ bytes, rxSem := th.rxSem + 1 }
  | .thread =>
    if th.reading then
      match readKey th.buffer with
      | none => some { th with reading := false }
      | some (key, rest) => (Shell.step th.sys key).map fun sys =>
          { th with sys := sys, buffer := rest, reading := ¬ IsEnd (key.next.getD key.ch) }
    else if th.rxSem = 0 then
      some th
    else
      some { th with rxSem := th.rxSem - 1, reading := true }

end Thread

/-- The bytes that arrive. -/
def arrived : List Event → List UInt8
  | [] => []
  | .isr bytes :: es => bytes ++ arrived es
  | .thread :: es => arrived es

/-- The byte that is read together with a carriage return ends a line, too. -/
def Paired (th : Thread) : Event → Prop
  | .isr _ => True
  | .thread => th.reading → ∀ r ∈ readKey th.buffer, ∀ c ∈ r.1.next, IsEnd c

instance (th : Thread) (e : Event) : Decidable (Paired th e) := by
  cases e <;> unfold Paired <;> infer_instance

/-- The sessions that a buffer needs. With `pair` its first byte is read together with a carriage return. -/
def sessions : Bool → List UInt8 → Nat
  | _, [] => 0
  | true, _ :: cs => sessions false cs
  | false, c :: cs =>
    if c = 0x0d then 1 + sessions true cs
    else if c = 0x0a then 1 + sessions false cs
    else max 1 (sessions false cs)

/-- The passes of the loop that `rx_sem` allows, with the one that has begun. -/
def Thread.allowed (th : Thread) : Nat := th.rxSem + th.reading.toNat

/-- When bytes arrive, `rx_sem` covers what is in the buffer then. -/
def Indicated (th : Thread) : Event → Prop
  | .isr bytes => sessions false (th.buffer ++ bytes) ≤ th.allowed + 1
  | .thread => True

instance (th : Thread) (e : Event) : Decidable (Indicated th e) := by
  cases e <;> unfold Indicated <;> infer_instance

/-! ## One key -/

variable {ed : Editor} {s : Sys} {c : UInt8} {key : Key}

/-- A line is typed without any other keys. -/
structure Typing (s : Sys) (ed : Editor) : Prop where
  follows : Follows s ed
  stat : ed.stat = .waitNormal
  after : ed.after = []
  line : ∀ c ∈ ed.before, ¬ IsEnd c

/-- The line that is run when the text ends, with its semicolon. -/
def ranLine (line : List UInt8) : List (List UInt8) := if line = [] then [] else [line ++ [0x3b]]

theorem linesFrom_end (hc : IsEnd c) (line text : List UInt8) :
    (linesFrom line (c :: text)).map (· ++ [0x3b]) = ranLine line ++ (linesFrom [] text).map (· ++ [0x3b]) := by
  rw [linesFrom, if_pos hc, List.map_append, ranLine]
  split <;> rfl

theorem Typing.step_char (h : Typing s ed) (hc : Printable c) (hlen : ed.before.length < 78) :
    ¬ IsEnd c ∧ ∃ s', step s ⟨c, none⟩ = some s' ∧ Typing s' { ed with before := ed.before ++ [c] } ∧
      s'.ran = s.ran := by
  obtain ⟨hlow, hhigh⟩ := hc
  have hne : ∀ d : UInt8, d < 0x20 → c ≠ d := by
    rintro d hd rfl
    exact absurd hlow (UInt8.not_le.mpr hd)
  have hend : ¬ IsEnd c := not_or.mpr ⟨hne _ (by decide), hne _ (by decide)⟩
  have hdel : c ≠ 0x7f := by
    rintro rfl
    exact absurd hhigh (by decide)
  have hplain : Key.Plain ⟨c, none⟩ := ⟨hne 0 (by decide), hne 0x09 (by decide), nofun⟩
  have hstep : ed.read ⟨c, none⟩ = { ed with before := ed.before ++ [c] } := by
    have haction : plainAction c = .insert c := by
      simp [plainAction, IsEnd, hdel, hne]
    have hstat := h.stat
    rw [hplain.read_eq, Editor.step, h.stat, decode, if_neg (hne 0x1b (by decide))]
    simp only [haction, Editor.apply, ← hstat]
  have hshort : (ed.read ⟨c, none⟩).text.length ≤ 78 := by
    rw [hstep, length_text, h.after, List.length_append]
    exact hlen
  obtain ⟨s', hs', hfollows⟩ := h.follows.step hplain hshort
  rw [hstep] at hfollows
  refine ⟨hend, s', hs', ⟨hfollows, h.stat, h.after, ?_⟩, hfollows.ran.trans h.follows.ran.symm⟩
  exact List.forall_mem_append.mpr ⟨h.line, by simpa using hend⟩

/-- A key that ends the line. -/
theorem Typing.step_end (h : Typing s ed) (key : Key) (hend : IsEnd key.ch) (hnext : ∀ c ∈ key.next, IsEnd c) :
    ∃ s', step s key = some s' ∧ Typing s' ed.submit ∧ s'.ran = s.ran ++ ranLine ed.before := by
  have hne : key.ch ≠ 0 ∧ key.ch ≠ 0x09 ∧ key.ch ≠ 0x1b := by
    rcases hend with hch | hch <;> rw [hch] <;> decide
  have hplain : key.Plain := ⟨hne.1, hne.2.1, fun _ => hnext⟩
  have hstep : ed.read key = ed.submit := by
    have hstat := h.stat
    rw [hplain.read_eq, Editor.step, h.stat, decode, if_neg hne.2.2, plainAction, if_pos hend]
    simp only [Editor.apply, ← hstat]
  obtain ⟨s', hs', hfollows⟩ := h.follows.step hplain (by rw [hstep]; exact Nat.zero_le _)
  rw [hstep] at hfollows
  refine ⟨s', hs', ⟨hfollows, h.stat, rfl, by simp [Editor.submit]⟩, ?_⟩
  have htext : ed.text = ed.before := by rw [Editor.text, h.after, List.append_nil]
  rw [hfollows.ran, Editor.submit, htext, h.follows.ran, ranLine]
  split <;> simp

theorem ShortLines.of_infix {text text' : List UInt8} (h : ShortLines text) (hpart : text' <:+: text) :
    ShortLines text' := fun line hline => h line (hline.trans hpart)

/-- A text is read next, and in the end `lines` have been run. -/
def Expects (s : Sys) (text : List UInt8) (lines : List (List UInt8)) : Prop :=
  ∃ ed, Typing s ed ∧ (∀ c ∈ text, Printable c ∨ IsEnd c) ∧ ShortLines (ed.before ++ text) ∧
    s.ran ++ (linesFrom ed.before text).map (· ++ [0x3b]) = lines

theorem Expects.step_one {text : List UInt8} {lines : List (List UInt8)} (h : Expects s (c :: text) lines) :
    ∃ s', step s ⟨c, none⟩ = some s' ∧ Expects s' text lines := by
  obtain ⟨ed, htyping, hbytes, hshort, hlines⟩ := h
  obtain ⟨hc, htext⟩ := List.forall_mem_cons.mp hbytes
  rcases hc with hc | hc
  · have hlen := hshort ed.before (List.prefix_append ..).isInfix htyping.line
    obtain ⟨hend, s', hs', htyping', hran⟩ := htyping.step_char hc (by omega)
    refine ⟨s', hs', _, htyping', htext, ?_, ?_⟩
    · rwa [List.append_assoc]
    · rw [← hlines, hran, linesFrom, if_neg hend]
  · obtain ⟨s', hs', htyping', hran⟩ := htyping.step_end ⟨c, none⟩ hc nofun
    refine ⟨s', hs', _, htyping', htext, hshort.of_infix ?_, ?_⟩
    · exact ((List.suffix_cons ..).trans (List.suffix_append ..)).isInfix
    · rw [← hlines, hran, linesFrom_end hc, List.append_assoc]
      rfl

/-- A key that was read. The second byte of a carriage return ends a line. -/
theorem Expects.step_key {text : List UInt8} {lines : List (List UInt8)}
    (h : Expects s (key.ch :: (key.next.toList ++ text)) lines)
    (hkey : ∀ c ∈ key.next, key.ch = 0x0d ∧ IsEnd c) :
    ∃ s', step s key = some s' ∧ Expects s' text lines := by
  obtain ⟨ch, next⟩ := key
  cases next with
  | none => exact h.step_one
  | some c =>
    obtain ⟨rfl, hend⟩ := hkey c rfl
    obtain ⟨ed, htyping, hbytes, hshort, hlines⟩ := h
    obtain ⟨s', hs', htyping', hran⟩ := htyping.step_end ⟨0x0d, some c⟩ (.inl rfl)
      fun d hd => Option.some.inj hd ▸ hend
    refine ⟨s', hs', _, htyping', fun d hd => hbytes d (by simp [hd]), hshort.of_infix ?_, ?_⟩
    · exact ((List.suffix_append [0x0d, c] _).trans (List.suffix_append ..)).isInfix
    · rw [← hlines]
      change _ = s.ran ++ (linesFrom ed.before (0x0d :: c :: text)).map _
      rw [hran, linesFrom_end (.inl rfl), linesFrom_end hend, List.append_assoc]
      rfl

/-! ## Runs -/

variable {th : Thread} {events : List Event}

/-- The bytes of a key are the first ones of the buffer. -/
theorem readKey_eq_some {buffer rest : List UInt8} (h : readKey buffer = some (key, rest)) :
    buffer = key.ch :: (key.next.toList ++ rest) ∧ ∀ c ∈ key.next, key.ch = 0x0d := by
  cases buffer with
  | nil => cases h
  | cons b cs =>
    simp only [readKey, Option.some.injEq] at h
    split at h
    next hb =>
      cases h
      exact ⟨by cases cs <;> rfl, fun _ _ => hb⟩
    next =>
      cases h
      exact ⟨rfl, nofun⟩

/-- One step of the interrupt or of the thread. -/
theorem Expects.step {e : Event} {text : List UInt8} {lines : List (List UInt8)} (hpaired : Paired th e)
    (h : Expects th.sys (th.buffer ++ (arrived [e] ++ text)) lines) :
    ∃ th', th.step e = some th' ∧ Expects th'.sys (th'.buffer ++ text) lines := by
  cases e with
  | isr bytes => exact ⟨_, rfl, by simpa [arrived] using h⟩
  | thread =>
    rw [Thread.step]
    split
    next hreading =>
      cases hread : readKey th.buffer with
      | none => exact ⟨_, rfl, h⟩
      | some r =>
        obtain ⟨key, rest⟩ := r
        obtain ⟨hbuffer, hcr⟩ := readKey_eq_some hread
        have hend := hpaired hreading (key, rest) (by rw [hread]; rfl)
        rw [hbuffer, List.cons_append, List.append_assoc] at h
        obtain ⟨s', hs', hexpects⟩ := h.step_key fun c hc => ⟨hcr c hc, hend c hc⟩
        exact ⟨_, by simp only [hs']; rfl, hexpects⟩
    next =>
      split
      · exact ⟨_, rfl, h⟩
      · exact ⟨_, rfl, h⟩

theorem arrived_append (es es' : List Event) : arrived (es ++ es') = arrived es ++ arrived es' := by
  induction es with
  | nil => rfl
  | cons e es ih => cases e <;> simp [arrived, ih]

theorem Expects.run {lines : List (List UInt8)} (hpaired : Along Thread.step Paired th events)
    (h : Expects th.sys (th.buffer ++ arrived events) lines) :
    ∃ th', Run.run Thread.step th events = some th' ∧ Expects th'.sys th'.buffer lines := by
  induction events generalizing th with
  | nil => exact ⟨th, rfl, by simpa [arrived] using h⟩
  | cons e es ih =>
    rw [← List.singleton_append, arrived_append] at h
    obtain ⟨th1, hstep, h1⟩ := h.step hpaired.1
    obtain ⟨th', hrun, hlines⟩ := ih (hpaired.2 th1 hstep) h1
    exact ⟨th', run_cons.mpr ⟨th1, hstep, hrun⟩, hlines⟩

/-! ## The shell reads everything -/

/-- The count of `rx_sem` covers what is in the buffer. -/
def Covered (th : Thread) : Prop := sessions false th.buffer ≤ th.allowed

/-- What the thread has left to do: bytes to read, and passes to begin and to end. -/
def Thread.work (th : Thread) : Nat := th.buffer.length + 2 * th.rxSem + th.reading.toNat

theorem sessions_pos {l : List UInt8} (h : l ≠ []) : 0 < sessions false l := by
  cases l with
  | nil => exact absurd rfl h
  | cons c cs =>
    rw [sessions]
    split_ifs <;> omega

/-- A byte that does not end a line stays in its session, and a line end finishes it. -/
theorem sessions_readKey {buffer rest : List UInt8} (h : readKey buffer = some (key, rest))
    (hnext : ∀ c ∈ key.next, IsEnd c) : rest.length < buffer.length ∧
      sessions false rest + (decide (IsEnd (key.next.getD key.ch))).toNat ≤ sessions false buffer := by
  cases buffer with
  | nil => cases h
  | cons b cs =>
    simp only [readKey, Option.some.injEq] at h
    rw [sessions]
    split at h
    next hb =>
      cases h
      cases cs with
      | nil => simp [sessions, hb, IsEnd]
      | cons d ds =>
        have hd := hnext d rfl
        simp only [sessions, hb, if_true, List.tail_cons, List.length_cons, List.head?_cons, Option.getD_some, hd,
          decide_true, Bool.toNat_true]
        omega
    next hb =>
      cases h
      by_cases hlf : b = 0x0a
      · simp [hlf, IsEnd, Nat.add_comm]
      · simp only [hb, hlf, if_false, IsEnd, Option.getD_none, or_self, decide_false, Bool.toNat_false,
          List.length_cons]
        omega

/-- A step of the thread keeps the cover and does some of the work, until nothing is left. -/
theorem Covered.thread {th' : Thread} (h : Covered th) (hpaired : Paired th .thread)
    (hstep : th.step .thread = some th') : Covered th' ∧ th'.work ≤ th.work - 1 := by
  unfold Covered Thread.allowed Thread.work at *
  rw [Thread.step] at hstep
  split at hstep
  next hreading =>
    rw [hreading] at h ⊢
    cases hread : readKey th.buffer with
    | none =>
      have hnil : th.buffer = [] := by
        cases hbuffer : th.buffer with
        | nil => rfl
        | cons b cs =>
          rw [hbuffer] at hread
          cases hread
      rw [hread] at hstep
      cases hstep
      simp [hnil, sessions]
    | some r =>
      obtain ⟨key, rest⟩ := r
      rw [hread] at hstep
      obtain ⟨sys, -, rfl⟩ := Option.map_eq_some_iff.mp hstep
      obtain ⟨hlen, hsessions⟩ := sessions_readKey hread (hpaired hreading (key, rest) (by rw [hread]; rfl))
      by_cases hend : IsEnd (key.next.getD key.ch) <;> simp [hend] at h hsessions ⊢ <;> omega
  next hreading =>
    rw [Bool.eq_false_iff.mpr hreading] at h ⊢
    split at hstep
    next hsem =>
      cases hstep
      -- nothing is counted, so nothing is in the buffer
      have hnil : th.buffer = [] := by
        by_contra hne
        have hpos := sessions_pos hne
        simp [hsem] at h
        omega
      simp [hnil, hsem, hreading, sessions]
    next hsem =>
      cases hstep
      simp at h ⊢
      omega

theorem Covered.threads {th' : Thread} {m : Nat} (h : Covered th)
    (hpaired : Along Thread.step Paired th (List.replicate m .thread))
    (hrun : run Thread.step th (List.replicate m .thread) = some th') : th'.work ≤ th.work - m := by
  induction m generalizing th with
  | zero =>
    cases hrun
    exact le_rfl
  | succ m ih =>
    obtain ⟨th1, hstep, hrun⟩ := run_cons.mp hrun
    obtain ⟨h1, hwork⟩ := h.thread hpaired.1 hstep
    have hrest := ih h1 (hpaired.2 th1 hstep) hrun
    omega

theorem Covered.run {th' : Thread} (h : Covered th) (hpaired : Along Thread.step Paired th events)
    (hindicated : Along Thread.step Indicated th events) (hrun : Run.run Thread.step th events = some th') :
    Covered th' ∧ th'.work ≤ th.work + (arrived events).length + 2 * events.length := by
  induction events generalizing th with
  | nil =>
    cases hrun
    exact ⟨h, by simp [arrived]⟩
  | cons e es ih =>
    obtain ⟨th1, hstep, hrun⟩ := run_cons.mp hrun
    have h1 : Covered th1 ∧ th1.work ≤ th.work + (arrived [e]).length + 2 := by
      cases e with
      | isr bytes =>
        have hcover := hindicated.1
        cases hstep
        simp only [Covered, Indicated, Thread.allowed, Thread.work, arrived, List.length_append, List.append_nil]
          at hcover ⊢
        omega
      | thread => exact (h.thread hpaired.1 hstep).imp_right fun hwork => by omega
    obtain ⟨hcover, hwork⟩ := ih h1.1 (hpaired.2 th1 hstep) (hindicated.2 th1 hstep) hrun
    refine ⟨hcover, hwork.trans ?_⟩
    rw [← List.singleton_append, arrived_append, List.length_append, List.length_append, List.length_singleton]
    omega

end RtThread.Shell
