import Mathlib.Tactic.Common
/-!
# Loops that carry their ranking function

A `loop { .. }` of an imperative program is a body that either goes round again
with a new state or leaves with a result.  A `RankedLoop` bundles such a body
with a natural number that drops on every round, so its `run` is total: no fuel
appears in a statement about it, and it still evaluates by structural recursion.

`run_next` and `run_done` are the two unfolding equations, `run_induction` is
the invariant rule and `run_simulation` compares two loops; `Reaches` names the
states a run goes through.
-/

namespace GooseHttp.Lib

/-- What one round of a loop does: go on with a state, or leave with a result. -/
inductive Flow (σ ρ : Type)
  | next (state : σ)
  | done (result : ρ)
  deriving DecidableEq, Repr

def Flow.map {σ ρ σ' ρ' : Type} (f : σ → σ') (g : ρ → ρ') : Flow σ ρ → Flow σ' ρ'
  | .next s => .next (f s)
  | .done r => .done (g r)

structure RankedLoop (σ ρ : Type) where
  body : σ → Flow σ ρ
  rank : σ → Nat
  rank_lt : ∀ {s s' : σ}, body s = .next s' → rank s' < rank s

namespace RankedLoop

variable {σ ρ : Type}

def iterate (body : σ → Flow σ ρ) : Nat → σ → Option ρ
  | 0, _ => none
  | fuel + 1, s =>
      match body s with
      | .next s' => iterate body fuel s'
      | .done r => some r

theorem iterate_isSome (L : RankedLoop σ ρ) {fuel : Nat} {s : σ}
    (hfuel : L.rank s < fuel) : (iterate L.body fuel s).isSome := by
  induction fuel generalizing s with
  | zero => omega
  | succ fuel ih =>
      rw [iterate]
      cases hbody : L.body s with
      | next s' =>
          have hlt := L.rank_lt hbody
          exact ih (by omega)
      | done r => rfl

/-- Two amounts of fuel that both suffice give the same result. -/
theorem iterate_eq_of_isSome (body : σ → Flow σ ρ) {n m : Nat} {s : σ}
    (hn : (iterate body n s).isSome) (hm : (iterate body m s).isSome) :
    iterate body n s = iterate body m s := by
  induction n generalizing m s with
  | zero => simp [iterate] at hn
  | succ n ih =>
      cases m with
      | zero => simp [iterate] at hm
      | succ m =>
          rw [iterate] at hn hm ⊢
          rw [iterate]
          cases hbody : body s with
          | next s' =>
              rw [hbody] at hn hm
              exact ih hn hm
          | done r => rfl

def run (L : RankedLoop σ ρ) (s : σ) : ρ :=
  (iterate L.body (L.rank s + 1) s).get (L.iterate_isSome (Nat.lt_succ_self _))

theorem run_eq_of_iterate (L : RankedLoop σ ρ) {s : σ} {r : ρ} (fuel : Nat)
    (h : iterate L.body fuel s = some r) : L.run s = r := by
  have hsome : (iterate L.body fuel s).isSome := by rw [h]; rfl
  have heq := iterate_eq_of_isSome L.body
    (L.iterate_isSome (Nat.lt_succ_self (L.rank s))) hsome
  rw [run]
  simp only [heq, h, Option.get_some]

theorem iterate_run (L : RankedLoop σ ρ) (s : σ) :
    iterate L.body (L.rank s + 1) s = some (L.run s) := by
  rw [run, Option.some_get]

theorem run_next (L : RankedLoop σ ρ) {s s' : σ} (h : L.body s = .next s') :
    L.run s = L.run s' := by
  apply L.run_eq_of_iterate (L.rank s' + 1 + 1)
  rw [iterate, h]
  exact L.iterate_run s'

theorem run_done (L : RankedLoop σ ρ) {s : σ} {r : ρ} (h : L.body s = .done r) :
    L.run s = r := by
  apply L.run_eq_of_iterate 1
  rw [iterate, h]

/-- The invariant rule: what the last round establishes and every earlier round
carries back holds of the whole run. -/
theorem run_induction (L : RankedLoop σ ρ) {motive : σ → ρ → Prop}
    (done : ∀ s r, L.body s = .done r → motive s r)
    (next : ∀ s s', L.body s = .next s' → motive s' (L.run s') → motive s (L.run s'))
    (s : σ) : motive s (L.run s) := by
  induction hrank : L.rank s using Nat.strongRecOn generalizing s with
  | ind n ih =>
      cases hbody : L.body s with
      | next s' =>
          have hlt := L.rank_lt hbody
          rw [L.run_next hbody]
          exact next s s' hbody (ih (L.rank s') (by omega) s' rfl)
      | done r =>
          rw [L.run_done hbody]
          exact done s r hbody

/-- Forward simulation: a round of `L` is matched by a round of `M` or leaves the state
of `M` where it is, and where `L` leaves, `M` leaves too. -/
theorem run_simulation {τ υ : Type} (L : RankedLoop σ ρ) (M : RankedLoop τ υ)
    {R : σ → τ → Prop} {Q : ρ → υ → Prop}
    (next : ∀ s t s', R s t → L.body s = .next s' →
      R s' t ∨ ∃ t', M.body t = .next t' ∧ R s' t')
    (done : ∀ s t r, R s t → L.body s = .done r → ∃ u, M.body t = .done u ∧ Q r u)
    {s : σ} {t : τ} (h : R s t) : Q (L.run s) (M.run t) := by
  refine L.run_induction (motive := fun s r => ∀ t, R s t → Q r (M.run t)) ?_ ?_ s t h
  · intro s r hbody t hst
    obtain ⟨u, hu, hq⟩ := done s t r hst hbody
    rw [M.run_done hu]
    exact hq
  · intro s s' hbody ih t hst
    rcases next s t s' hst hbody with hst' | ⟨t', ht', hst'⟩
    · exact ih t hst'
    · rw [M.run_next ht']
      exact ih t' hst'

inductive Reaches (L : RankedLoop σ ρ) (s : σ) : σ → Prop
  | start : Reaches L s s
  | round {t u : σ} : Reaches L s t → L.body t = .next u → Reaches L s u

theorem Reaches.head {L : RankedLoop σ ρ} {s t u : σ} (h : L.body s = .next t)
    (htu : L.Reaches t u) : L.Reaches s u := by
  induction htu with
  | start => exact .round .start h
  | round _ hbody ih => exact .round ih hbody

theorem Reaches.run_eq {L : RankedLoop σ ρ} {s t : σ} (h : L.Reaches s t) :
    L.run s = L.run t := by
  induction h with
  | start => rfl
  | round _ hbody ih => exact ih.trans (L.run_next hbody)

end RankedLoop

end GooseHttp.Lib
