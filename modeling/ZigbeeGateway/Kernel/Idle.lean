-- SUMMARY: The idle thread and the dead threads.
import ZigbeeGateway.Kernel.ThreadDelete

/-!
# Dead threads and the idle thread

A thread that ends leaves the ready lists and the wait lists at once. The rest is left to the idle thread:
`rt_thread_exit`, `rt_thread_delete` and `rt_thread_detach` put it on the list of the defunct threads, and
`rt_thread_idle_excute` takes it from there, calls its cleanup function and frees its memory. Static
threads are not freed, and those without a cleanup function are not put on the list.

Besides the kernel, the system has the list of the thread objects and remembers which threads have ended
and not been taken from the list. The loop returns after the first static thread that it finds, and a
static thread with a cleanup function that returned from its entry function is never detached from the
list of the objects.
-/

namespace RtThread.Idle

open Run Function
open Option (bind_eq_some_iff ite_none_right_eq_some map_eq_some_iff)

open Scheduler (SameLife Turn Turns)
open ThreadDelete (Event)

/-! ## The system -/

/-- The kernel, the object list of the threads, and the threads that have ended and that the idle thread
has not dealt with. -/
structure Sys where
  kernel : Kernel
  objectList : List Tid
  ended : Tid → Bool

/-- What a call of `rt_thread_idle_excute` does: the threads whose cleanup functions it calls, and those
whose stacks and control blocks it frees, in this order. -/
structure Report where
  cleanups : List Tid
  freedStacks : List Tid
  freedObjects : List Tid
  deriving DecidableEq

namespace Sys

/-- The thread is removed from the list of the defunct threads. -/
def removeDefunct (s : Sys) (t : Tid) : Sys :=
  { s with
    kernel := s.kernel.rtListRemove t
    ended := update s.ended t false }

/-- `rt_object_detach`, and the same part of `rt_object_delete`. -/
def rtObjectDetach (s : Sys) (t : Tid) : Sys := { s with objectList := s.objectList.erase t }

end Sys

namespace Report

def invokeCleanup (r : Report) (s : Sys) (t : Tid) : Report :=
  if (s.kernel.thread t).cleanup then { r with cleanups := r.cleanups ++ [t] } else r

def free (r : Report) (t : Tid) : Report :=
  { r with
    freedStacks := r.freedStacks ++ [t]
    freedObjects := r.freedObjects ++ [t] }

end Report

/-- The loop of `rt_thread_idle_excute`, with at most `fuel` rounds. -/
def idleLoop : Nat → Sys → Report → Sys × Report
  | 0, s, r => (s, r)
  | fuel + 1, s, r =>
    match s.kernel.tlist .defunct with
    | [] => (s, r)
    | t :: _ =>
      let s := s.removeDefunct t
      let r := r.invokeCleanup s t
      if (s.kernel.thread t).isSystemObject then
        (s, r)
      else
        idleLoop fuel (s.rtObjectDetach t) (r.free t)

/-- `rt_thread_idle_excute`. Every round takes a thread from the list, so its length is enough fuel. -/
def rtThreadIdleExcute (s : Sys) : Sys × Report :=
  idleLoop (s.kernel.tlist .defunct).length s ⟨[], [], []⟩

namespace Sys

/-- A thread ends once, and its control block is left alone after that. Only the objects of threads are
passed to `rt_thread_delete`, the allocated ones, and to `rt_thread_detach`, the static ones. -/
def Proper (s : Sys) : Event → Prop
  | .call .exit => ∀ t ∈ s.kernel.rtCurrentThread, (s.kernel.thread t).stat ≠ .close
  | .init t _ _ => t ∉ s.objectList
  | .setCleanup t _ => (s.kernel.thread t).stat ≠ .close
  | .delete t => t ∈ s.objectList ∧ (s.kernel.thread t).isSystemObject = false
  | .detach t => t ∈ s.objectList ∧ (s.kernel.thread t).isSystemObject = true
  | _ => True

instance (s : Sys) : DecidablePred s.Proper := fun e => by
  unfold Proper
  split <;> infer_instance

/-- The thread that a call ends. -/
def ends (s : Sys) : Event → Option Tid
  | .call .exit => s.kernel.rtCurrentThread
  | .delete t => some t
  | .detach t => some t
  | _ => none

/-- The calls of `rt_object_init`, `rt_object_allocate` and `rt_object_detach`. -/
def objects (s : Sys) : Event → List Tid
  | .call .exit =>
    match s.kernel.rtCurrentThread with
    | none => s.objectList
    | some t =>
      if (s.kernel.thread t).isSystemObject ∧ ¬ (s.kernel.thread t).cleanup then
        s.objectList.erase t
      else
        s.objectList
  | .init t _ _ => t :: s.objectList
  | .detach t => s.objectList.erase t
  | _ => s.objectList

def endedAfter (s : Sys) (e : Event) : Tid → Bool :=
  match e, s.ends e with
  | .init t _ _, _ => update s.ended t false
  | _, some t => update s.ended t true
  | _, none => s.ended

end Sys

def step (s : Sys) : Event → Option Sys
  | .idle => some (rtThreadIdleExcute s).1
  | e => do
    rtAssert (s.Proper e)
    let k ← ThreadDelete.step s.kernel e
    return { kernel := k, objectList := s.objects e, ended := s.endedAfter e }

/-- No thread has been initialised. -/
structure Initial (s : Sys) : Prop where
  kernel : Scheduler.Initial s.kernel
  objectList : s.objectList = []
  ended : ∀ t, s.ended t = false

/-- A call of `rt_thread_idle_excute` does all that is left to do: the list of the defunct threads is
empty, each pending cleanup function has been called once, the stack and the control block of each
dead dynamic thread have been freed once, and no dead thread is among the objects. -/
structure Complete (s : Sys) : Prop where
  defunct : (rtThreadIdleExcute s).1.kernel.tlist .defunct = []
  cleanups : ∀ t, s.ended t = true → (s.kernel.thread t).cleanup = true →
    (rtThreadIdleExcute s).2.cleanups.count t = 1
  freed : ∀ t, s.ended t = true → (s.kernel.thread t).isSystemObject = false →
    (rtThreadIdleExcute s).2.freedStacks.count t = 1 ∧ (rtThreadIdleExcute s).2.freedObjects.count t = 1
  objects : ∀ t ∈ (rtThreadIdleExcute s).1.objectList,
    ((rtThreadIdleExcute s).1.kernel.thread t).stat ≠ .close

/-! ## The list of the defunct threads -/

/-- A thread is in one list at most, and the closed ones are those of the list of the defunct threads. -/
structure Shape (k : Kernel) : Prop where
  exclusive : Lanes.Exclusive k.tlist
  closed : ∀ {hd t}, t ∈ k.tlist hd → (hd = .defunct ↔ (k.thread t).stat = .close)

/-- No thread begins or ends. -/
structure Calm (k k' : Kernel) : Prop where
  shape : Shape k'
  defunct : k'.tlist .defunct = k.tlist .defunct
  thread : ∀ t, SameLife (k.thread t) (k'.thread t)

variable {k k' k'' : Kernel} {t : Tid}

theorem Calm.trans (h : Calm k k') (h' : Calm k' k'') : Calm k k'' where
  shape := h'.shape
  defunct := h'.defunct.trans h.defunct
  thread := fun t => (h.thread t).trans (h'.thread t)

namespace Shape

variable (h : Shape k)

include h

theorem congr (hthread : k'.thread = k.thread) (htlist : k'.tlist = k.tlist) : Calm k k' := by
  refine ⟨⟨?_, ?_⟩, by rw [htlist], fun t => ?_⟩
  · rw [htlist]
    exact h.exclusive
  · rw [htlist, hthread]
    exact h.closed
  · rw [hthread]
    exact .refl _

theorem refl : Calm k k := h.congr rfl rfl

theorem turn (hk : Turn k k') : Calm k k' := by
  obtain ⟨t, th, hedits⟩ := hk.edits
  have hclosed : ∀ {hd u}, u ∈ k.tlist hd → (hd = .defunct ↔ (k'.thread u).stat = .close) :=
    fun hmem => (h.closed hmem).trans (hedits.same _).closed.symm
  suffices hlists : Lanes.Exclusive k'.tlist ∧ k'.tlist .defunct = k.tlist .defunct ∧
      ∀ {hd u}, u ∈ k'.tlist hd → (hd = .defunct ↔ (k'.thread u).stat = .close) from
    ⟨⟨hlists.1, hlists.2.2⟩, hlists.2.1, hedits.same⟩
  cases hk with
  | stay _ htlist =>
    rw [htlist]
    exact ⟨h.exclusive, rfl, hclosed⟩
  | leave _ hlive htlist =>
    rw [htlist]
    exact ⟨h.exclusive.remove _, Lanes.remove_of_not_mem fun hmem => hlive ((h.closed hmem).mp rfl),
      fun hmem => hclosed (List.mem_of_mem_erase hmem)⟩
  | move hd _ hlive hhd hl htlist =>
    rw [htlist]
    refine ⟨?_, ?_, fun {hd u} hmem => ?_⟩
    · exact (h.exclusive.remove _).put (fun _ hmem => (h.exclusive.mem_remove.mp hmem).1 rfl) hl
    · rw [Lanes.put_of_ne _ _ hhd.symm]
      exact Lanes.remove_of_not_mem fun hmem => hlive ((h.closed hmem).mp rfl)
    · rcases (Lanes.mem_put_of_perm hl).mp hmem with ⟨rfl, rfl⟩ | hmem
      · exact iff_of_false hhd fun hclose => hlive ((hedits.same _).closed.mp hclose)
      · exact hclosed (List.mem_of_mem_erase hmem)

theorem turns (hk : Turns k k') : Calm k k' := by
  induction hk with
  | refl => exact h.refl
  | tail _ hturn ih => exact ih.trans (ih.shape.turn hturn)

theorem rtSchedule (hk : k.rtSchedule = some k') : Calm k k' := by
  unfold Kernel.rtSchedule at hk
  split at hk
  · obtain ⟨⟨p, t⟩, -, hk⟩ := bind_eq_some_iff.mp hk
    dsimp only at hk
    split at hk <;> cases hk <;> exact h.congr rfl rfl
  · cases hk
    exact h.refl

end Shape

/-- A thread ends. It may be put on the list of the defunct threads. -/
structure Ends (k k' : Kernel) (t : Tid) (listed : Bool) : Prop where
  shape : Shape k'
  defunct : k'.tlist .defunct = if listed then t :: k.tlist .defunct else k.tlist .defunct
  self : (k'.thread t).stat = .close ∧ (k'.thread t).isSystemObject = (k.thread t).isSystemObject ∧
    (k'.thread t).cleanup = (k.thread t).cleanup
  other : ∀ u, u ≠ t → SameLife (k.thread u) (k'.thread u)

theorem Ends.calm {listed : Bool} (h : Ends k k' t listed) (h' : Calm k' k'') : Ends k k'' t listed where
  shape := h'.shape
  defunct := h'.defunct.trans h.defunct
  self := by
    obtain ⟨hclosed, hsystem, hcleanup⟩ := h.self
    exact ⟨(h'.thread t).closed.mpr hclosed, (h'.thread t).isSystemObject.trans hsystem,
      (h'.thread t).cleanup.trans hcleanup⟩
  other := fun u hu => (h.other u hu).trans (h'.thread u)

theorem closeThread_ends (h : Shape k) (hlive : (k.thread t).stat ≠ .close) :
    Ends k (k.closeThread t) t false ∧ ∀ hd, t ∉ (k.closeThread t).tlist hd := by
  have hremove : Calm k (k.rtScheduleRemoveThread t) := by
    refine h.turn (.leave ⟨k.rtScheduleRemoveThread_current t, ?_, .refl _⟩ hlive
      (k.rtScheduleRemoveThread_tlist t))
    rw [k.rtScheduleRemoveThread_thread, update_eq_self]
  have hfree : ∀ hd, t ∉ (k.rtScheduleRemoveThread t).tlist hd := fun hd hmem => by
    rw [k.rtScheduleRemoveThread_tlist] at hmem
    exact (h.exclusive.mem_remove.mp hmem).1 rfl
  have hother : ∀ u, u ≠ t → (k.closeThread t).thread u = (k.rtScheduleRemoveThread t).thread u :=
    fun u hu => Kernel.setThread_of_ne _ _ hu
  refine ⟨⟨⟨hremove.shape.exclusive, ?_⟩, hremove.defunct, ?_, ?_⟩, hfree⟩
  · intro hd u hmem
    have hu : u ≠ t := by
      rintro rfl
      exact hfree hd hmem
    rw [hother u hu]
    exact hremove.shape.closed hmem
  · have hself : (k.closeThread t).thread t = { k.thread t with stat := .close } := by
      simp [Kernel.closeThread]
    rw [hself]
    exact ⟨rfl, rfl, rfl⟩
  · intro u hu
    rw [hother u hu]
    exact hremove.thread u

theorem listed_ends (h : Shape k) (hlive : (k.thread t).stat ≠ .close) :
    Ends k ((k.closeThread t).rtListInsertAfter .defunct t) t true := by
  obtain ⟨hends, hfree⟩ := closeThread_ends h hlive
  have hperm : (t :: (k.closeThread t).tlist .defunct).Perm (t :: (k.closeThread t).tlist .defunct) := .refl _
  refine ⟨⟨hends.shape.exclusive.put hfree hperm, ?_⟩, ?_, hends.self, hends.other⟩
  · intro hd u hmem
    rw [Kernel.rtListInsertAfter, Lanes.mem_put_of_perm hperm] at hmem
    rcases hmem with ⟨rfl, rfl⟩ | hmem
    · exact iff_of_true rfl hends.self.1
    · exact hends.shape.closed hmem
  · rw [Kernel.rtListInsertAfter]
    dsimp only
    rw [Lanes.put_same, hends.defunct]
    rfl

theorem rtThreadDetach_ends (h : Shape k) (hlive : (k.thread t).stat ≠ .close) :
    Ends k (k.rtThreadDetach t) t (k.thread t).cleanup := by
  have hcleanup : ((k.closeThread t).thread t).cleanup = (k.thread t).cleanup :=
    (closeThread_ends h hlive).1.self.2.2
  unfold Kernel.rtThreadDetach
  dsimp only
  rw [hcleanup]
  cases (k.thread t).cleanup with
  | false => exact (closeThread_ends h hlive).1
  | true => exact listed_ends h hlive

theorem rtThreadExit_ends (h : Shape k) (hlive : (k.thread t).stat ≠ .close) :
    Ends k (k.rtThreadExit t) t (!(k.thread t).isSystemObject || (k.thread t).cleanup) := by
  have hself := (closeThread_ends h hlive).1.self.2
  have hexit : k.rtThreadExit t =
      if ((k.closeThread t).thread t).isSystemObject ∧ ¬ ((k.closeThread t).thread t).cleanup then
        k.closeThread t
      else
        (k.closeThread t).rtListInsertAfter .defunct t := rfl
  rw [hexit, hself.1, hself.2]
  cases (k.thread t).isSystemObject <;> cases (k.thread t).cleanup
  · exact listed_ends h hlive
  · exact listed_ends h hlive
  · exact (closeThread_ends h hlive).1
  · exact listed_ends h hlive

/-! ## One call of the idle thread -/

/-- The threads that one call deals with: it returns after the first static one. -/
def handled (thread : Tid → Thread) : List Tid → List Tid
  | [] => []
  | t :: rest => if (thread t).isSystemObject then [t] else t :: handled thread rest

/-- All of them are dealt with when no thread stands behind a static one. -/
theorem handled_eq_iff (thread : Tid → Thread) (l : List Tid) :
    handled thread l = l ↔ ∀ t ∈ l.dropLast, (thread t).isSystemObject = false := by
  induction l with
  | nil => simp [handled]
  | cons t rest ih =>
    rw [handled]
    cases rest with
    | nil => simp [handled]
    | cons u rest =>
      rw [List.dropLast_cons_cons, List.forall_mem_cons, ← ih]
      cases (thread t).isSystemObject <;> simp

def isDynamic (thread : Tid → Thread) (t : Tid) : Bool := !(thread t).isSystemObject

/-- The threads `l` are dealt with, the first ones of the list. -/
structure Reaps (s : Sys) (r : Report) (l : List Tid) (s' : Sys) (r' : Report) : Prop where
  thread : s'.kernel.thread = s.kernel.thread
  defunct : s.kernel.tlist .defunct = l ++ s'.kernel.tlist .defunct
  sublist : ∀ hd, (s'.kernel.tlist hd).Sublist (s.kernel.tlist hd)
  objectList : s'.objectList = s.objectList.diff (l.filter (isDynamic s.kernel.thread))
  ended : ∀ t, s'.ended t = (s.ended t && t ∉ l)
  cleanups : r'.cleanups = r.cleanups ++ l.filter fun t => (s.kernel.thread t).cleanup
  freedStacks : r'.freedStacks = r.freedStacks ++ l.filter (isDynamic s.kernel.thread)
  freedObjects : r'.freedObjects = r.freedObjects ++ l.filter (isDynamic s.kernel.thread)

theorem Reaps.none (s : Sys) (r : Report) : Reaps s r [] s r := by
  constructor <;> simp

theorem Reaps.trans {s s' s'' : Sys} {r r' r'' : Report} {l l' : List Tid} (h : Reaps s r l s' r')
    (h' : Reaps s' r' l' s'' r'') : Reaps s r (l ++ l') s'' r'' := by
  have hthread := h.thread
  constructor
  · exact h'.thread.trans hthread
  · rw [h.defunct, h'.defunct, List.append_assoc]
  · exact fun hd => (h'.sublist hd).trans (h.sublist hd)
  · rw [h'.objectList, h.objectList, hthread, List.filter_append, List.diff_append]
  · intro t
    rw [h'.ended, h.ended]
    simp [Bool.and_assoc]
  · rw [h'.cleanups, h.cleanups, hthread, List.filter_append, List.append_assoc]
  · rw [h'.freedStacks, h.freedStacks, hthread, List.filter_append, List.append_assoc]
  · rw [h'.freedObjects, h.freedObjects, hthread, List.filter_append, List.append_assoc]

/-- What a round does to a thread of either kind, up to the freeing. -/
theorem round_reaps {s : Sys} {t : Tid} {rest : List Tid} (hl : s.kernel.tlist .defunct = t :: rest) :
    (s.removeDefunct t).kernel.tlist .defunct = rest ∧
      (∀ hd, ((s.removeDefunct t).kernel.tlist hd).Sublist (s.kernel.tlist hd)) ∧
      (∀ u, (s.removeDefunct t).ended u = (s.ended u && u ∉ [t])) := by
  refine ⟨?_, fun hd => List.erase_sublist, fun u => ?_⟩
  · change (s.kernel.tlist .defunct).erase t = rest
    rw [hl, List.erase_cons_head]
  · rw [Sys.removeDefunct]
    rcases eq_or_ne u t with rfl | hne
    · simp
    · simp [hne]

theorem invokeCleanup_cleanups (r : Report) (s : Sys) (t : Tid) :
    (r.invokeCleanup s t).cleanups = r.cleanups ++ [t].filter fun t => (s.kernel.thread t).cleanup := by
  unfold Report.invokeCleanup
  split
  next hcleanup => simp [hcleanup]
  next hcleanup => simp [hcleanup]

theorem invokeCleanup_freed (r : Report) (s : Sys) (t : Tid) :
    (r.invokeCleanup s t).freedStacks = r.freedStacks ∧
      (r.invokeCleanup s t).freedObjects = r.freedObjects := by
  unfold Report.invokeCleanup
  split <;> exact ⟨rfl, rfl⟩

theorem idleLoop_reaps {l : List Tid} (s : Sys) (r : Report) (hl : s.kernel.tlist .defunct = l) :
    Reaps s r (handled s.kernel.thread l) (idleLoop l.length s r).1 (idleLoop l.length s r).2 := by
  induction l generalizing s r with
  | nil => exact .none s r
  | cons t rest ih =>
    obtain ⟨hrest, hsublist, hended⟩ := round_reaps hl
    have hcleanups := invokeCleanup_cleanups r (s.removeDefunct t) t
    obtain ⟨hstacks, hobjects⟩ := invokeCleanup_freed r (s.removeDefunct t) t
    have hdefunct : s.kernel.tlist .defunct = [t] ++ (s.removeDefunct t).kernel.tlist .defunct := by
      rw [hrest, hl, List.singleton_append]
    rw [List.length_cons, idleLoop, hl, handled]
    dsimp only
    have hthread : (s.removeDefunct t).kernel.thread = s.kernel.thread := rfl
    rw [hthread]
    by_cases hsystem : (s.kernel.thread t).isSystemObject = true
    · have hdynamic : [t].filter (isDynamic s.kernel.thread) = [] := by simp [isDynamic, hsystem]
      rw [if_pos hsystem, if_pos hsystem]
      constructor
      · rfl
      · exact hdefunct
      · exact hsublist
      · rw [hdynamic]
        rfl
      · exact hended
      · exact hcleanups
      · rw [hdynamic, List.append_nil]
        exact hstacks
      · rw [hdynamic, List.append_nil]
        exact hobjects
    · have hdynamic : [t].filter (isDynamic s.kernel.thread) = [t] := by simp [isDynamic, hsystem]
      rw [if_neg hsystem, if_neg hsystem]
      have hfirst : Reaps s r [t] ((s.removeDefunct t).rtObjectDetach t)
          ((r.invokeCleanup (s.removeDefunct t) t).free t) := by
        constructor
        · rfl
        · exact hdefunct
        · exact hsublist
        · rw [hdynamic, List.diff_cons, List.diff_nil]
          rfl
        · exact hended
        · exact hcleanups
        · rw [hdynamic, ← hstacks]
          rfl
        · rw [hdynamic, ← hobjects]
          rfl
      exact hfirst.trans (ih _ _ hrest)

theorem rtThreadIdleExcute_reaps (s : Sys) :
    Reaps s ⟨[], [], []⟩ (handled s.kernel.thread (s.kernel.tlist .defunct)) (rtThreadIdleExcute s).1
      (rtThreadIdleExcute s).2 :=
  idleLoop_reaps s _ rfl

/-! ## Runs -/

/-- The threads on the list of the defunct ones are those that have ended, without the static ones that
have no cleanup function. A dynamic thread stays an object until it is taken from the list. -/
structure Inv (s : Sys) : Prop where
  shape : Shape s.kernel
  pending : ∀ t, t ∈ s.kernel.tlist .defunct ↔
    s.ended t = true ∧ ((s.kernel.thread t).isSystemObject = false ∨ (s.kernel.thread t).cleanup = true)
  closed : ∀ t, s.ended t = true → (s.kernel.thread t).stat = .close
  nodup : s.objectList.Nodup
  dynamic : ∀ t ∈ s.objectList, (s.kernel.thread t).stat = .close →
    (s.kernel.thread t).isSystemObject = false → t ∈ s.kernel.tlist .defunct

theorem Initial.inv {s : Sys} (h : Initial s) : Inv s := by
  constructor
  · constructor
    · constructor <;> simp [h.kernel.tlist]
    · simp [h.kernel.tlist]
  · simp [h.kernel.tlist, h.ended]
  · simp [h.ended]
  · simp [h.objectList]
  · simp [h.objectList]

namespace Inv

variable {s s' : Sys}

variable (h : Inv s)

include h

theorem live (hlive : (s.kernel.thread t).stat ≠ .close) :
    s.ended t = false ∧ t ∉ s.kernel.tlist .defunct :=
  ⟨Bool.eq_false_iff.mpr fun hended => hlive (h.closed t hended),
    fun hmem => hlive ((h.shape.closed hmem).mp rfl)⟩

theorem calm (hk : Calm s.kernel k') : Inv { s with kernel := k' } := by
  constructor
  · exact hk.shape
  · intro t
    rw [hk.defunct, h.pending, (hk.thread t).isSystemObject, (hk.thread t).cleanup]
  · exact fun t hended => (hk.thread t).closed.mpr (h.closed t hended)
  · exact h.nodup
  · intro t hmem hclosed hdynamic
    rw [(hk.thread t).closed] at hclosed
    rw [(hk.thread t).isSystemObject] at hdynamic
    rw [hk.defunct]
    exact h.dynamic t hmem hclosed hdynamic

/-- A thread ends. It is put on the list of the defunct threads unless it is static without a cleanup
function; a dynamic thread stays among the objects. -/
theorem ends {listed : Bool} {objectList : List Tid} (hk : Ends s.kernel k' t listed)
    (hlive : (s.kernel.thread t).stat ≠ .close) (hlisted : listed = true ↔
      (s.kernel.thread t).isSystemObject = false ∨ (s.kernel.thread t).cleanup = true)
    (hsublist : objectList.Sublist s.objectList) :
    Inv { kernel := k', objectList := objectList, ended := update s.ended t true } := by
  obtain ⟨hclosed, hsystem, hcleanup⟩ := hk.self
  have hmem : ∀ u, u ∈ k'.tlist .defunct ↔ (u = t ∧ listed = true) ∨ u ∈ s.kernel.tlist .defunct := by
    intro u
    rw [hk.defunct]
    cases listed <;> simp
  constructor
  · exact hk.shape
  · intro u
    dsimp only
    rw [hmem]
    rcases eq_or_ne u t with rfl | hne
    · rw [update_self, hsystem, hcleanup, hlisted]
      simp [(h.live hlive).2]
    · rw [update_of_ne hne, (hk.other u hne).isSystemObject, (hk.other u hne).cleanup, ← h.pending]
      simp [hne]
  · intro u hended
    rcases eq_or_ne u t with rfl | hne
    · exact hclosed
    · dsimp only at hended
      rw [update_of_ne hne] at hended
      exact (hk.other u hne).closed.mpr (h.closed u hended)
  · exact h.nodup.sublist hsublist
  · intro u hu hclosed' hdynamic
    rw [hmem]
    rcases eq_or_ne u t with rfl | hne
    · rw [hsystem] at hdynamic
      exact .inl ⟨rfl, hlisted.mpr (.inl hdynamic)⟩
    · rw [(hk.other u hne).closed] at hclosed'
      rw [(hk.other u hne).isSystemObject] at hdynamic
      exact .inr (h.dynamic u (hsublist.subset hu) hclosed' hdynamic)

/-- The control block of a thread changes that is not on the list of the defunct threads, and after that
the thread is not closed. -/
theorem replace {th : Thread} {objectList : List Tid} {ended : Tid → Bool}
    (hdefunct : t ∉ s.kernel.tlist .defunct) (hlive : th.stat ≠ .close)
    (hthread : k'.thread = update s.kernel.thread t th) (htlist : k'.tlist = s.kernel.tlist)
    (hself : ended t = false) (hother : ∀ u, u ≠ t → ended u = s.ended u) (hnodup : objectList.Nodup)
    (hobjects : ∀ u ∈ objectList, u = t ∨ u ∈ s.objectList) : Inv ⟨k', objectList, ended⟩ := by
  have hsame : ∀ u, u ≠ t → k'.thread u = s.kernel.thread u := fun u hu => by
    rw [hthread, update_of_ne hu]
  have hnew : k'.thread t = th := by rw [hthread, update_self]
  constructor
  · refine ⟨by rw [htlist]; exact h.shape.exclusive, fun {hd u} hmem => ?_⟩
    rw [htlist] at hmem
    rcases eq_or_ne u t with rfl | hne
    · rw [hnew]
      refine iff_of_false ?_ hlive
      rintro rfl
      exact hdefunct hmem
    · rw [hsame u hne]
      exact h.shape.closed hmem
  · intro u
    dsimp only
    rw [htlist]
    rcases eq_or_ne u t with rfl | hne
    · simp [hself, hdefunct]
    · rw [hsame u hne, hother u hne, h.pending]
  · intro u hended
    rcases eq_or_ne u t with rfl | hne
    · exact absurd (hself.symm.trans hended) nofun
    · dsimp only
      rw [hsame u hne]
      exact h.closed u ((hother u hne).symm.trans hended)
  · exact hnodup
  · intro u hu hclosed hdynamic
    rcases eq_or_ne u t with rfl | hne
    · exact absurd (hnew ▸ hclosed) hlive
    · dsimp only at hclosed hdynamic ⊢
      rw [hsame u hne] at hclosed hdynamic
      rw [htlist]
      exact h.dynamic u ((hobjects u hu).resolve_left hne) hclosed hdynamic

theorem init {b : Bool} {priority : Nat} (hstat : (s.kernel.thread t).stat = .init ∨
      (s.kernel.thread t).stat = .close ∧ t ∉ s.kernel.tlist .defunct)
    (hobject : t ∉ s.objectList) (hk : s.kernel.rtThreadInit t b priority = some k') :
    Inv { kernel := k', objectList := t :: s.objectList, ended := update s.ended t false } := by
  obtain ⟨-, ⟨⟩⟩ := rtAssert_bind_eq_some.mp hk
  have hdefunct : t ∉ s.kernel.tlist .defunct := by
    rcases hstat with hinit | ⟨-, hdefunct⟩
    · exact (h.live (by rw [hinit]; nofun)).2
    · exact hdefunct
  refine h.replace hdefunct ?_ rfl rfl (update_self ..) (fun u hu => update_of_ne hu ..)
    (List.nodup_cons.mpr ⟨hobject, h.nodup⟩) fun u => List.mem_cons.mp
  nofun

theorem setCleanup (hlive : (s.kernel.thread t).stat ≠ .close) (cleanup : Bool) :
    Inv { s with kernel := s.kernel.setThread t { s.kernel.thread t with cleanup := cleanup } } := by
  obtain ⟨hended, hdefunct⟩ := h.live hlive
  refine h.replace hdefunct ?_ rfl rfl hended (fun _ _ => rfl) h.nodup fun u => .inr
  exact hlive

theorem idle : Inv (rtThreadIdleExcute s).1 := by
  have hreaps := rtThreadIdleExcute_reaps s
  obtain ⟨l, hl⟩ : ∃ l, l = handled s.kernel.thread (s.kernel.tlist .defunct) := ⟨_, rfl⟩
  rw [← hl] at hreaps
  have hnodup : (l ++ (rtThreadIdleExcute s).1.kernel.tlist .defunct).Nodup :=
    hreaps.defunct ▸ h.shape.exclusive.nodup .defunct
  have hmem : ∀ t, t ∈ (rtThreadIdleExcute s).1.kernel.tlist .defunct ↔
      t ∈ s.kernel.tlist .defunct ∧ t ∉ l := by
    intro t
    rw [hreaps.defunct, List.mem_append]
    have hdisjoint := (List.nodup_append.mp hnodup).2.2
    constructor
    · exact fun ht => ⟨.inr ht, fun htl => hdisjoint t htl t ht rfl⟩
    · exact fun ht => ht.1.resolve_left ht.2
  constructor
  · refine ⟨⟨fun hd => (h.shape.exclusive.nodup hd).sublist (hreaps.sublist hd), ?_⟩, ?_⟩
    · intro hd hd' t ht ht'
      exact h.shape.exclusive.unique ((hreaps.sublist hd).subset ht) ((hreaps.sublist hd').subset ht')
    · intro hd t ht
      rw [hreaps.thread]
      exact h.shape.closed ((hreaps.sublist hd).subset ht)
  · intro t
    rw [hmem, hreaps.ended, hreaps.thread, h.pending, Bool.and_eq_true, decide_eq_true_iff]
    tauto
  · intro t hended
    rw [hreaps.ended, Bool.and_eq_true] at hended
    rw [hreaps.thread]
    exact h.closed t hended.1
  · rw [hreaps.objectList]
    exact h.nodup.sublist (List.diff_sublist ..)
  · intro t ht hclosed hdynamic
    rw [hreaps.objectList, h.nodup.mem_sdiff_iff] at ht
    rw [hreaps.thread] at hclosed hdynamic
    rw [hmem]
    refine ⟨h.dynamic t ht.1 hclosed hdynamic, fun htl => ht.2 (List.mem_filter.mpr ⟨htl, ?_⟩)⟩
    rw [isDynamic, hdynamic]
    rfl

end Inv

/-- The calls that neither begin nor end a thread. -/
def Quiet (e : Event) : Prop := ThreadDelete.Quiet e ∨ e = .call .schedulerStart

theorem effect_calm {e : Event} {b : Bool} (h : Shape k) (he : Quiet e)
    (hk : ThreadDelete.effect k e = some (k', b)) : Calm k k' := by
  rcases he with he | rfl
  · exact h.turns (ThreadDelete.effect_turns he hk).1
  · obtain ⟨k1, hstart, ⟨⟩⟩ := bind_eq_some_iff.mp hk
    obtain ⟨-, -, ⟨⟩⟩ := bind_eq_some_iff.mp hstart
    exact h.congr rfl rfl

theorem Quiet.frame {e : Event} (he : Quiet e) (s : Sys) :
    s.objects e = s.objectList ∧ s.endedAfter e = s.ended := by
  rcases he with he | rfl
  · cases e with
    | call e =>
      cases e with
      | exit => exact absurd rfl he.1
      | _ => exact ⟨rfl, rfl⟩
    | ipcSuspend | ipcResume | ipcResumeAll => exact ⟨rfl, rfl⟩
    | init | setCleanup | delete | detach | idle => exact he.elim
  · exact ⟨rfl, rfl⟩

/-- A call has an effect, and then `rt_schedule` may be called. -/
theorem step_eq_some {s s' : Sys} {e : Event} (hs : step s e = some s') (hne : e ≠ .idle) :
    s.Proper e ∧ ∃ k1 b k, ThreadDelete.effect s.kernel e = some (k1, b) ∧ (Shape k1 → Calm k1 k) ∧
      s' = ⟨k, s.objects e, s.endedAfter e⟩ := by
  have hstep : step s e = (do
      rtAssert (s.Proper e)
      let k ← ThreadDelete.step s.kernel e
      return ⟨k, s.objects e, s.endedAfter e⟩) := by
    cases e with
    | idle => exact absurd rfl hne
    | _ => rfl
  rw [hstep] at hs
  obtain ⟨hproper, hs⟩ := rtAssert_bind_eq_some.mp hs
  obtain ⟨k, hk, ⟨⟩⟩ := bind_eq_some_iff.mp hs
  obtain ⟨⟨k1, b⟩, heff, hk⟩ := bind_eq_some_iff.mp hk
  refine ⟨hproper, k1, b, k, heff, fun hshape => ?_, rfl⟩
  cases b with
  | false =>
    cases hk
    exact hshape.refl
  | true => exact hshape.rtSchedule hk

theorem step_quiet {s s' : Sys} {e : Event} (h : Inv s) (he : Quiet e) (hs : step s e = some s') : Inv s' := by
  have hne : e ≠ .idle := by
    rintro rfl
    exact he.elim id nofun
  obtain ⟨-, k1, b, k, heff, hschedule, rfl⟩ := step_eq_some hs hne
  have hcalm := effect_calm h.shape he heff
  obtain ⟨hobjects, hended⟩ := he.frame s
  rw [hobjects, hended]
  exact h.calm (hcalm.trans (hschedule hcalm.shape))

theorem step_inv (s : Sys) (e : Event) (s' : Sys) (h : Inv s) (hs : step s e = some s') : Inv s' := by
  cases e with
  | ipcSuspend hd flag time => exact step_quiet (e := .ipcSuspend hd flag time) h (.inl trivial) hs
  | ipcResume hd => exact step_quiet (e := .ipcResume hd) h (.inl trivial) hs
  | ipcResumeAll hd => exact step_quiet (e := .ipcResumeAll hd) h (.inl trivial) hs
  | call e =>
    by_cases he : e = .exit
    · subst he
      obtain ⟨hproper, k1, b, k, heff, hschedule, rfl⟩ := step_eq_some hs nofun
      obtain ⟨t, hcurrent, ⟨⟩⟩ := map_eq_some_iff.mp heff
      have hlive := hproper t hcurrent
      have hends := rtThreadExit_ends h.shape hlive
      have hended : s.endedAfter (.call .exit) = update s.ended t true := by
        simp [Sys.endedAfter, Sys.ends, hcurrent]
      rw [hended]
      refine h.ends (hends.calm (hschedule hends.shape)) hlive ?_ ?_
      · cases (s.kernel.thread t).isSystemObject <;> simp
      · simp only [Sys.objects, hcurrent]
        split
        · exact List.erase_sublist
        · exact .refl _
    · by_cases hstart : e = .schedulerStart
      · exact step_quiet h (.inr (congrArg _ hstart)) hs
      · exact step_quiet (e := .call e) h (.inl ⟨he, hstart⟩) hs
  | init t isSystemObject priority =>
    obtain ⟨hproper, k1, b, k, heff, hschedule, rfl⟩ := step_eq_some hs nofun
    obtain ⟨⟨-, hstat⟩, heff⟩ := rtAssert_bind_eq_some.mp heff
    obtain ⟨k2, hinit, ⟨⟩⟩ := bind_eq_some_iff.mp heff
    have hinv := h.init hstat hproper hinit
    exact hinv.calm (hschedule hinv.shape)
  | setCleanup t cleanup =>
    obtain ⟨hproper, k1, b, k, heff, hschedule, rfl⟩ := step_eq_some hs nofun
    cases heff
    have hinv := h.setCleanup hproper cleanup
    exact hinv.calm (hschedule hinv.shape)
  | delete t =>
    obtain ⟨⟨-, hdynamic⟩, k1, b, k, heff, hschedule, rfl⟩ := step_eq_some hs nofun
    obtain ⟨⟨-, hlive⟩, ⟨⟩⟩ := rtAssert_bind_eq_some.mp heff
    have hends := listed_ends h.shape hlive
    exact h.ends (hends.calm (hschedule hends.shape)) hlive (by simp [hdynamic]) (.refl _)
  | detach t =>
    obtain ⟨⟨-, hstatic⟩, k1, b, k, heff, hschedule, rfl⟩ := step_eq_some hs nofun
    obtain ⟨⟨-, hlive⟩, ⟨⟩⟩ := rtAssert_bind_eq_some.mp heff
    have hends := rtThreadDetach_ends h.shape hlive
    exact h.ends (hends.calm (hschedule hends.shape)) hlive (by simp [hstatic]) List.erase_sublist
  | idle =>
    cases hs
    exact h.idle

/-! ## Complete calls -/

/-- In every state of a run, a call of `rt_thread_idle_excute` does all that is left to do if and only if
no thread stands behind a static one on the list of the defunct threads, and no static thread is dead
and still among the objects. -/
theorem idle_complete_iff {s0 s : Sys} {es : List Event} (hinit : Initial s0)
    (hrun : run step s0 es = some s) :
    Complete s ↔
      (∀ t ∈ (s.kernel.tlist .defunct).dropLast, (s.kernel.thread t).isSystemObject = false) ∧
        ∀ t ∈ s.objectList, (s.kernel.thread t).isSystemObject = true → (s.kernel.thread t).stat ≠ .close := by
  have hinv : Inv s := run_invariant step_inv hinit.inv hrun
  have hreaps := rtThreadIdleExcute_reaps s
  have hall := handled_eq_iff s.kernel.thread (s.kernel.tlist .defunct)
  have hnodup := hinv.shape.exclusive.nodup .defunct
  rw [← hall]
  constructor
  · intro hcomplete
    refine ⟨?_, fun t ht hstatic hclosed => ?_⟩
    · have hdefunct := hreaps.defunct
      rw [hcomplete.defunct, List.append_nil] at hdefunct
      exact hdefunct.symm
    · refine hcomplete.objects t ?_ (by rwa [hreaps.thread])
      rw [hreaps.objectList, hinv.nodup.mem_sdiff_iff]
      refine ⟨ht, fun hmem => ?_⟩
      have hdynamic := (List.mem_filter.mp hmem).2
      rw [isDynamic, hstatic] at hdynamic
      cases hdynamic
  · rintro ⟨heq, hstatics⟩
    rw [heq] at hreaps
    constructor
    · have hdefunct := hreaps.defunct
      rwa [List.self_eq_append_right] at hdefunct
    · intro t hended hcleanup
      rw [hreaps.cleanups, List.nil_append]
      refine List.count_eq_one_of_mem (hnodup.filter _) (List.mem_filter.mpr ⟨?_, hcleanup⟩)
      exact (hinv.pending t).mpr ⟨hended, .inr hcleanup⟩
    · intro t hended hdynamic
      have hmem : t ∈ (s.kernel.tlist .defunct).filter (isDynamic s.kernel.thread) := by
        refine List.mem_filter.mpr ⟨(hinv.pending t).mpr ⟨hended, .inl hdynamic⟩, ?_⟩
        rw [isDynamic, hdynamic]
        rfl
      rw [hreaps.freedStacks, hreaps.freedObjects, List.nil_append]
      exact ⟨List.count_eq_one_of_mem (hnodup.filter _) hmem, List.count_eq_one_of_mem (hnodup.filter _) hmem⟩
    · intro t ht hclosed
      rw [hreaps.thread] at hclosed
      rw [hreaps.objectList, hinv.nodup.mem_sdiff_iff] at ht
      cases hkind : (s.kernel.thread t).isSystemObject with
      | true => exact hstatics t ht.1 hkind hclosed
      | false =>
        refine ht.2 (List.mem_filter.mpr ⟨hinv.dynamic t ht.1 hclosed hkind, ?_⟩)
        rw [isDynamic, hkind]
        rfl

/-- Nothing is initialised; all priorities are 5. -/
def boot : Sys where
  kernel := Kernel.boot fun _ => 5
  objectList := []
  ended := fun _ => false

theorem boot_initial : Initial boot := ⟨Scheduler.boot_initial _, rfl, fun _ => rfl⟩

/-- The static threads 1 and 2 with cleanup functions and the dynamic thread 3 are started. -/
def threeStarted : List Event :=
  [.init 1 true 5, .init 2 true 5, .init 3 false 5, .setCleanup 1 true, .setCleanup 2 true,
    .call (.startup 1), .call (.startup 2), .call (.startup 3)]

/-- Thread 1 is detached and thread 3 is deleted after it, so that the static thread comes last. -/
theorem idle_complete_staticLast :
    ∃ s, run step boot (threeStarted ++ [.detach 1, .delete 3]) = some s ∧
      s.kernel.tlist .defunct = [3, 1] ∧ Complete s := by
  refine run_exists (Q := fun s => s.kernel.tlist .defunct = [3, 1] ∧ s.objectList = [3, 2] ∧
    (s.kernel.thread 3).isSystemObject = false ∧ (s.kernel.thread 2).stat = .ready) (by decide +kernel) ?_
  rintro s hrun ⟨hdefunct, hobjects, hdynamic, hready⟩
  refine ⟨hdefunct, (idle_complete_iff boot_initial hrun).mpr ?_⟩
  rw [hdefunct, hobjects]
  simp [hdynamic, hready]

/-- Both static threads are detached. The call takes thread 2, which was detached last, and returns:
thread 1 stays on the list, and its cleanup function is not called. -/
theorem idle_stops_at_static :
    ∃ s, run step boot (threeStarted ++ [.detach 1, .detach 2]) = some s ∧
      s.ended 1 = true ∧ (s.kernel.thread 1).cleanup = true ∧
      (rtThreadIdleExcute s).1.kernel.tlist .defunct = [1] ∧ (rtThreadIdleExcute s).2.cleanups = [2] ∧
      ¬ Complete s := by
  refine run_exists (Q := fun s => s.ended 1 = true ∧ (s.kernel.thread 1).cleanup = true ∧
    (rtThreadIdleExcute s).1.kernel.tlist .defunct = [1] ∧ (rtThreadIdleExcute s).2.cleanups = [2])
    (by decide +kernel) ?_
  rintro s _ ⟨hended, hcleanup, hdefunct, hcleanups⟩
  refine ⟨hended, hcleanup, hdefunct, hcleanups, fun hcomplete => ?_⟩
  cases hdefunct.symm.trans hcomplete.defunct

end RtThread.Idle
