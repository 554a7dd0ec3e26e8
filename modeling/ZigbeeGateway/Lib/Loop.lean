-- SUMMARY: Loops with a bound on the number of rounds.
import Mathlib.Data.Nat.Notation

/-!
# Bounded loops

A loop of a program runs while a condition holds, and its body may fail. Here it gets a bound on the number
of its rounds. `Rounds.loop_eq` says that a loop that ends needs only enough fuel, and `loop_spins` that a
loop whose condition is kept by its rounds has no result for any bound.
-/

namespace Loop

variable {σ : Type*} {running : σ → Bool} {body : σ → Option σ}

/-- A loop that runs at most `fuel` rounds. It has no result if it still runs after them. -/
def loop (running : σ → Bool) (body : σ → Option σ) : Nat → σ → Option σ
  | 0, s => if running s then none else some s
  | fuel + 1, s => if running s then (body s).bind (loop running body fuel) else some s

/-- `n` rounds of the loop lead from one state to another. -/
inductive Rounds (running : σ → Bool) (body : σ → Option σ) : Nat → σ → σ → Prop
  | refl (s : σ) : Rounds running body 0 s s
  | cons {n : Nat} {s m s' : σ} (hrun : running s = true) (hbody : body s = some m)
      (hrest : Rounds running body n m s') : Rounds running body (n + 1) s s'

/-- A loop with enough fuel for its rounds ends in the state after them. -/
theorem Rounds.loop_eq {n fuel : Nat} {s s' : σ} (h : Rounds running body n s s')
    (hstop : running s' = false) (hfuel : n ≤ fuel) : loop running body fuel s = some s' := by
  induction h generalizing fuel with
  | refl s => cases fuel <;> simp [loop, hstop]
  | cons hrun hbody _ ih =>
    obtain ⟨fuel, rfl⟩ : ∃ k, fuel = k + 1 := ⟨fuel - 1, by omega⟩
    have hrest := ih hstop (Nat.le_of_succ_le_succ hfuel)
    simp [loop, hrun, hbody, hrest]

/-- A loop has no result, with any fuel, when its rounds keep what lets it run. -/
theorem loop_spins {I : σ → Prop} (hrun : ∀ s, I s → running s = true)
    (hbody : ∀ s s', I s → body s = some s' → I s') {s : σ} (h : I s) (fuel : Nat) :
    loop running body fuel s = none := by
  induction fuel generalizing s with
  | zero => rw [loop, if_pos (hrun s h)]
  | succ fuel ih =>
    rw [loop, if_pos (hrun s h)]
    cases hs' : body s with
    | none => rfl
    | some s' => exact ih (hbody s s' h hs')

end Loop
