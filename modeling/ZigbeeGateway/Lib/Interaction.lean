-- SUMMARY: Programs that call an environment, and their traces.
import ZigbeeGateway.Lib.Run

/-!
# Programs that call an environment

A program is a tree of calls. The environment answers a call with a value of the call's type, and the
program goes on with it. A trace is a list of calls with their answers, and a program follows a trace
by a partial step function, so the runs of `Run` are its executions.

`wp` says what a program meets after a history, whatever the environment answers: a demand at every
call, and a postcondition where it returns. `wp_run` carries it along every trace.
-/

namespace Interaction

open Run

/-- Programs with the calls `κ`. The environment answers the call `c` with a value of `ρ c`. -/
inductive Prog (κ : Type) (ρ : κ → Type) (α : Type) where
  | ret (a : α)
  | call (c : κ) (k : ρ c → Prog κ ρ α)
  /-- The rounds that a loop may take are used up. -/
  | cut

/-- A call with its answer. -/
abbrev Event {κ : Type} (ρ : κ → Type) := (c : κ) × ρ c

/-- How a round of a loop ends. -/
inductive Round (σ α : Type) where
  | again (x : σ)
  | leave (a : α)

variable {κ : Type} {ρ : κ → Type} {α β σ : Type}

namespace Prog

def bind : Prog κ ρ α → (α → Prog κ ρ β) → Prog κ ρ β
  | ret a, f => f a
  | call c k, f => call c fun r => (k r).bind f
  | cut, _ => cut

instance : Monad (Prog κ ρ) where
  pure := ret
  bind := bind

/-- One call. -/
def ask (c : κ) : Prog κ ρ (ρ c) := call c ret

/-- A loop of at most `n` rounds over the local variables `σ`. -/
def rounds (body : σ → Prog κ ρ (Round σ α)) : Nat → σ → Prog κ ρ α
  | 0, _ => cut
  | n + 1, x => do
    match ← body x with
    | .again y => rounds body n y
    | .leave a => return a

/-- The program after an answer. There is no step if the program makes another call, or none. -/
def step [DecidableEq κ] : Prog κ ρ α → Event ρ → Option (Prog κ ρ α)
  | call c k, ⟨c', r⟩ => if h : c' = c then some (k (h ▸ r)) else none
  | ret _, _ => none
  | cut, _ => none

end Prog

/-- A history grows by the events of a trace. -/
def record (h : List (Event ρ)) (e : Event ρ) : Option (List (Event ρ)) := some (h ++ [e])

/-- What the environment may answer after a history, and what a call must meet. -/
structure Spec {κ : Type} (ρ : κ → Type) where
  allowed : List (Event ρ) → Event ρ → Prop
  demand : List (Event ρ) → κ → Prop

variable {S : Spec ρ} {h : List (Event ρ)} {P Q : α → List (Event ρ) → Prop}

/-! ## Weakest preconditions -/

/-- Every call meets the demand and every return meets `Q`, as long as the answers are allowed. -/
def wp (S : Spec ρ) : Prog κ ρ α → List (Event ρ) → (α → List (Event ρ) → Prop) → Prop
  | .ret a, h, Q => Q a h
  | .call c k, h, Q => S.demand h c ∧ ∀ r, S.allowed h ⟨c, r⟩ → wp S (k r) (h ++ [⟨c, r⟩]) Q
  | .cut, _, _ => True

variable {c : κ} {p : Prog κ ρ α} {f : α → Prog κ ρ β} {body : σ → Prog κ ρ (Round σ α)}
  {e : Event ρ}

theorem wp_mono (hPQ : ∀ a h, P a h → Q a h) (hp : wp S p h P) : wp S p h Q := by
  induction p generalizing h with
  | ret a => exact hPQ a h hp
  | call c k ih => exact ⟨hp.1, fun r hr => ih r (hp.2 r hr)⟩
  | cut => trivial

@[simp] theorem wp_bind {Q : β → List (Event ρ) → Prop} :
    wp S (p >>= f) h Q ↔ wp S p h fun a h' => wp S (f a) h' Q := by
  induction p generalizing h with
  | ret a => exact Iff.rfl
  | call c k ih => exact and_congr_right fun _ => forall_congr' fun r => imp_congr_right fun _ => ih r
  | cut => exact Iff.rfl

theorem wp_ask_bind {f : ρ c → Prog κ ρ α} :
    wp S (.ask c >>= f) h Q ↔
      S.demand h c ∧ ∀ r, S.allowed h ⟨c, r⟩ → wp S (f r) (h ++ [⟨c, r⟩]) Q :=
  wp_bind

/-- What a round must end with: the invariant of the loop, or its postcondition. -/
def Round.post (I : σ → List (Event ρ) → Prop) (Q : α → List (Event ρ) → Prop) :
    Round σ α → List (Event ρ) → Prop
  | .again x => I x
  | .leave a => Q a

/-- The rule for a loop: an invariant that every round keeps until the loop is left. -/
theorem wp_rounds {I : σ → List (Event ρ) → Prop}
    (hbody : ∀ x h, I x h → wp S (body x) h (Round.post I Q)) (n : Nat) {x : σ} (hx : I x h) :
    wp S (.rounds body n x) h Q := by
  induction n generalizing x h with
  | zero => trivial
  | succ n ih =>
    refine wp_bind.mpr (wp_mono (fun r h' hr => ?_) (hbody x h hx))
    cases r with
    | again y => exact ih hr
    | leave a => exact hr

theorem wp_rounds_bind
    {Q : β → List (Event ρ) → Prop} (I : σ → List (Event ρ) → Prop) (J : α → List (Event ρ) → Prop)
    (hbody : ∀ x h, I x h → wp S (body x) h (Round.post I J)) (n : Nat) {x : σ} (hx : I x h)
    (hf : ∀ a h, J a h → wp S (f a) h Q) : wp S (.rounds body n x >>= f) h Q :=
  wp_bind.mpr (wp_mono hf (wp_rounds hbody n hx))

/-- A program only adds to the history. -/
theorem wp_grows (hdemand : ∀ h c, S.demand h c) (p : Prog κ ρ α) : wp S p h fun _ h' => h <+: h' := by
  induction p generalizing h with
  | ret _ => exact List.prefix_rfl
  | call c k ih =>
    refine ⟨hdemand h c, fun r _ => wp_mono (fun _ h' hpre => ?_) (ih r)⟩
    exact (List.prefix_append h _).trans hpre
  | cut => trivial

/-! ## Traces -/

theorem run_record (h tr : List (Event ρ)) : run record h tr = some (h ++ tr) := by
  induction tr generalizing h with
  | nil => rw [List.append_nil]; rfl
  | cons e tr ih => exact run_cons.mpr ⟨h ++ [e], rfl, by rw [ih, List.append_assoc]; rfl⟩

/-- A condition along a trace, taken apart at the last event. -/
theorem along_concat {R : List (Event ρ) → Event ρ → Prop} :
    Along record R [] (h ++ [e]) ↔ Along record R [] h ∧ R h e := by
  constructor
  · intro halong
    obtain ⟨hh, he⟩ := along_of_append halong
    exact ⟨hh, (he h (run_record [] h)).1⟩
  · rintro ⟨hh, he⟩
    exact along_append hh (run_record [] h) (along_cons he rfl trivial)

theorem filterMap_concat (f : Event ρ → Option β) (h : List (Event ρ)) (e : Event ρ) :
    (h ++ [e]).filterMap f = h.filterMap f ++ (f e).toList := by
  cases he : f e <;> simp [he]

variable [DecidableEq κ] {p p' : Prog κ ρ α} {tr : List (Event ρ)}

theorem step_eq_some (hstep : p.step e = some p') : ∃ k, p = .call e.1 k ∧ p' = k e.2 := by
  cases p with
  | ret a => cases hstep
  | cut => cases hstep
  | call c' k =>
    simp only [Prog.step] at hstep
    split at hstep
    next heq =>
      subst heq
      exact ⟨k, rfl, (Option.some.inj hstep).symm⟩
    next => cases hstep

/-- The program has followed a trace and makes the call `c`. -/
def Waits (p : Prog κ ρ α) (tr : List (Event ρ)) (c : κ) : Prop :=
  ∃ k, run Prog.step p tr = some (.call c k)

/-- The environment answers the call that the program makes. -/
theorem run_ask_bind {f : ρ c → Prog κ ρ α} (r : ρ c) :
    run Prog.step (.ask c >>= f) (⟨c, r⟩ :: tr) = run Prog.step (f r) tr :=
  congrArg (fun q => Option.bind q fun p => run Prog.step p tr) (dif_pos rfl)

theorem run_bind_ret {a : α} (hrun : run Prog.step p tr = some (.ret a)) :
    run Prog.step (p >>= f) tr = some (f a) := by
  induction tr generalizing p with
  | nil =>
    obtain rfl := Option.some.inj hrun
    rfl
  | cons e tr ih =>
    obtain ⟨m, hm, hrest⟩ := run_cons.mp hrun
    obtain ⟨k, rfl, rfl⟩ := step_eq_some hm
    exact (run_ask_bind (f := fun r => k r >>= f) e.2).trans (ih hrest)

theorem Waits.bind (hw : Waits p tr c) : Waits (p >>= f) tr c := by
  obtain ⟨k, hrun⟩ := hw
  induction tr generalizing p with
  | nil =>
    obtain rfl := Option.some.inj hrun
    exact ⟨_, rfl⟩
  | cons e tr ih =>
    obtain ⟨m, hm, hrest⟩ := run_cons.mp hrun
    obtain ⟨k', rfl, rfl⟩ := step_eq_some hm
    obtain ⟨k1, hk1⟩ := ih hrest
    exact ⟨k1, (run_ask_bind (f := fun r => k' r >>= f) e.2).trans hk1⟩

theorem Waits.ask {c' : κ} {f : ρ c → Prog κ ρ α} {r : ρ c} (hw : Waits (f r) tr c') :
    Waits (.ask c >>= f) (⟨c, r⟩ :: tr) c' := by
  obtain ⟨k, hk⟩ := hw
  exact ⟨k, (run_ask_bind r).trans hk⟩

/-- A round that is followed by another one. -/
theorem Waits.again {n : Nat} {x y : σ}
    {tr' : List (Event ρ)} (hbody : run Prog.step (body x) tr = some (.ret (.again y)))
    (hw : Waits (.rounds body n y) tr' c) : Waits (.rounds body (n + 1) x) (tr ++ tr') c := by
  obtain ⟨k, hk⟩ := hw
  exact ⟨k, run_append.mpr ⟨_, run_bind_ret hbody, hk⟩⟩

/-- Along every trace with allowed answers the calls meet the demand, and the rest of the program
keeps its postcondition. -/
theorem wp_run (hp : wp S p h Q) (hrun : run Prog.step p tr = some p')
    (hallowed : Along record S.allowed h tr) :
    Along record (fun h e => S.demand h e.1) h tr ∧ wp S p' (h ++ tr) Q := by
  induction tr generalizing p h with
  | nil =>
    obtain rfl := Option.some.inj hrun
    rw [List.append_nil]
    exact ⟨trivial, hp⟩
  | cons e tr ih =>
    obtain ⟨m, hm, hrest⟩ := run_cons.mp hrun
    obtain ⟨k, rfl, rfl⟩ := step_eq_some hm
    obtain ⟨hdemand, hk⟩ := ih (hp.2 e.2 hallowed.1) hrest (hallowed.2 _ rfl)
    rw [List.append_assoc] at hk
    exact ⟨along_cons hp.1 rfl hdemand, hk⟩

/-- The postcondition holds wherever the program returns. -/
theorem wp_returns {a : α} (hp : wp S p [] Q) (hrun : run Prog.step p tr = some (.ret a))
    (hallowed : Along record S.allowed [] tr) : Q a tr :=
  (wp_run hp hrun hallowed).2

/-- The demand is met by the call that the program makes. -/
theorem wp_waits (hp : wp S p [] Q) (hw : Waits p tr c)
    (hallowed : Along record S.allowed [] tr) : S.demand tr c := by
  obtain ⟨k, hrun⟩ := hw
  exact (wp_run hp hrun hallowed).2.1

end Interaction
