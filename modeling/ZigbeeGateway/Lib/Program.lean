-- SUMMARY: Structured sequential programs with calls.
import Mathlib.Logic.Basic

/-!
# Sequential programs

A `Code` is a structured program over local variables. What it does to the rest of the
system is done by its calls, and the meaning of a call is given by the system. Between two
calls a program takes silent steps, on a stack of the programs that are left to run.

`Code.flow` follows an abstract state through the calls of a program, whichever way the
branches go. `flows_silent` and `flows_call` carry it along an execution.
-/

namespace Program

/-- Programs over the local variables `σ` with the calls `κ`. -/
inductive Code (σ κ : Type) where
  | skip
  | call (c : κ)
  | assign (f : σ → σ)
  | seq (p q : Code σ κ)
  | ite (b : σ → Bool) (p q : Code σ κ)
  | loop (b : σ → Bool) (p : Code σ κ)

variable {σ κ τ : Type}

/-- The programs of a list one after another. -/
def Code.block : List (Code σ κ) → Code σ κ
  | [] => .skip
  | [p] => p
  | p :: ps => .seq p (block ps)

/-- A step that only uses local variables. There is none at a call and at the end. -/
def silent : List (Code σ κ) → σ → Option (List (Code σ κ) × σ)
  | [], _ => none
  | .skip :: k, v => some (k, v)
  | .call _ :: _, _ => none
  | .assign f :: k, v => some (k, f v)
  | .seq p q :: k, v => some (p :: q :: k, v)
  | .ite b p q :: k, v => some ((if b v then p else q) :: k, v)
  | .loop b p :: k, v => some (if b v then p :: .loop b p :: k else k, v)

/-- Every call of a program meets `P`. -/
def Code.All (P : κ → Prop) : Code σ κ → Prop
  | .skip => True
  | .call c => P c
  | .assign _ => True
  | .seq p q => p.All P ∧ q.All P
  | .ite _ p q => p.All P ∧ q.All P
  | .loop _ p => p.All P

theorem Code.all_block {P : κ → Prop} {ps : List (Code σ κ)} :
    (Code.block ps).All P ↔ ∀ p ∈ ps, p.All P := by
  induction ps with
  | nil => simp [Code.block, Code.All]
  | cons p ps ih =>
    cases ps with
    | nil => simp [Code.block]
    | cons q ps =>
      rw [Code.block, Code.All, ih, List.forall_mem_cons (a := p)]
      exact fun h => nomatch h

theorem all_silent {P : κ → Prop} {k k' : List (Code σ κ)} {v v' : σ}
    (hk : silent k v = some (k', v')) (hall : ∀ p ∈ k, p.All P) : ∀ p ∈ k', p.All P := by
  cases k with
  | nil => cases hk
  | cons p k =>
    obtain ⟨hp, hrest⟩ := List.forall_mem_cons.mp hall
    cases p with
    | call c => cases hk
    | skip | assign f =>
      cases hk
      exact hrest
    | seq p q =>
      cases hk
      exact List.forall_mem_cons.mpr ⟨hp.1, List.forall_mem_cons.mpr ⟨hp.2, hrest⟩⟩
    | ite b p q =>
      cases hk
      refine List.forall_mem_cons.mpr ⟨?_, hrest⟩
      split
      · exact hp.1
      · exact hp.2
    | loop b p =>
      cases hk
      split
      · exact List.forall_mem_cons.mpr ⟨hp, hall⟩
      · exact hrest

variable [DecidableEq τ] {f : κ → τ → Option τ}

/-- The abstract state after a program, if every call is allowed in the state it is made in. Both
branches must end in the same state, and a loop must end in the state it begins in. -/
def Code.flow (f : κ → τ → Option τ) : Code σ κ → τ → Option τ
  | .skip, t => some t
  | .call c, t => f c t
  | .assign _, t => some t
  | .seq p q, t => (p.flow f t).bind (q.flow f)
  | .ite _ p q, t => (p.flow f t).bind fun t' => if q.flow f t = some t' then some t' else none
  | .loop _ p, t => if p.flow f t = some t then some t else none

/-- The abstract state after a stack of programs. -/
def flows (f : κ → τ → Option τ) : List (Code σ κ) → τ → Option τ
  | [], t => some t
  | p :: k, t => (p.flow f t).bind (flows f k)

theorem flows_cons {p : Code σ κ} {k : List (Code σ κ)} {t t' : τ} :
    flows f (p :: k) t = some t' ↔ ∃ t1, p.flow f t = some t1 ∧ flows f k t1 = some t' :=
  Option.bind_eq_some_iff

theorem flows_call {c : κ} {k : List (Code σ κ)} {t t' : τ}
    (h : flows f (.call c :: k) t = some t') : ∃ t1, f c t = some t1 ∧ flows f k t1 = some t' :=
  flows_cons.mp h

theorem flows_silent {k k' : List (Code σ κ)} {v v' : σ} {t t' : τ}
    (hk : silent k v = some (k', v')) (hflow : flows f k t = some t') : flows f k' t = some t' := by
  cases k with
  | nil => cases hk
  | cons p k =>
    obtain ⟨t1, hp, hrest⟩ := flows_cons.mp hflow
    cases p with
    | call c => cases hk
    | skip | assign g =>
      cases hk
      cases hp
      exact hrest
    | seq p q =>
      cases hk
      obtain ⟨t2, hp, hq⟩ := Option.bind_eq_some_iff.mp hp
      exact flows_cons.mpr ⟨t2, hp, flows_cons.mpr ⟨t1, hq, hrest⟩⟩
    | ite b p q =>
      cases hk
      obtain ⟨t2, hp, hif⟩ := Option.bind_eq_some_iff.mp hp
      obtain ⟨hq, ⟨⟩⟩ := Option.ite_none_right_eq_some.mp hif
      refine flows_cons.mpr ⟨t1, ?_, hrest⟩
      split
      · exact hp
      · exact hq
    | loop b p =>
      cases hk
      obtain ⟨hbody, ⟨⟩⟩ := Option.ite_none_right_eq_some.mp hp
      split
      · exact flows_cons.mpr ⟨t, hbody, hflow⟩
      · exact hrest

end Program
