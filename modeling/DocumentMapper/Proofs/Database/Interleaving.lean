import DocumentMapper.Database.Program
import Mathlib.Algebra.BigOperators.Ring.Finset
import Mathlib.Data.Fintype.BigOperators

/-!
# Interleaved programs

Programs that are under way at the same time share one state. In a step one of them makes its next
request and gets the answer; which one it is, is left open. `Reaches` counts the steps of a run, so
that a bound for the requests of each program bounds the runs of all of them.
-/

namespace DocumentMapper.Database

variable {ι σ α : Type} [DecidableEq ι] (execute : (r : Request) → Action σ r.Answer)

/-- A program makes its next request and goes on with the answer, or fails where it is refused. -/
inductive Program.Advances : Program α → σ → Program α → σ → Prop
  | answered {r : Request} {next : r.Answer → Program α} {a : r.Answer} {s s' : σ} :
      (execute r).run s = (.ok a, s') → Advances (.call r next) s (next a) s'
  | refused {r : Request} {next : r.Answer → Program α} {e : Error} {s s' : σ} :
      (execute r).run s = (.error e, s') → Advances (.call r next) s (.fail e) s'

/-- A program makes at most some number of requests, whatever the answers are. -/
def Program.AtMost : Nat → Program α → Prop
  | _, .done _ => True
  | _, .fail _ => True
  | 0, .call .. => False
  | n + 1, .call _ next => ∀ a, AtMost n (next a)

/-- Programs under way, and the state that they share. -/
structure Pool (ι σ α : Type) where
  state : σ
  programs : ι → Program α

namespace Pool

/-- The pool after one of the programs has come to another one. -/
def update (pool : Pool ι σ α) (j : ι) (program : Program α) (state : σ) : Pool ι σ α :=
  ⟨state, Function.update pool.programs j program⟩

/-- The pools that some programs come to, with the number of their steps. -/
inductive Reaches (start : Pool ι σ α) : Nat → Pool ι σ α → Prop
  | start : Reaches start 0 start
  | step {n : Nat} {pool : Pool ι σ α} {j : ι} {program : Program α} {state : σ} :
      Reaches start n pool →
      Program.Advances execute (pool.programs j) pool.state program state →
      Reaches start (n + 1) (pool.update j program state)

end Pool

variable {execute} {start pool : Pool ι σ α} {program program' : Program α} {s s' s₁ : σ}
  {n bound : Nat} {j j' : ι}

namespace Program

theorem Advances.of_answer {r : Request} {next : r.Answer → Program α} {a : r.Answer}
    (h : Advances execute (.call r next) s program s') (hanswer : (execute r).run s = (.ok a, s₁)) :
    program = next a ∧ s' = s₁ := by
  cases h with
  | answered hrun =>
    rw [hanswer] at hrun
    cases hrun
    exact ⟨rfl, rfl⟩
  | refused hrun =>
    rw [hanswer] at hrun
    cases hrun

theorem AtMost.advances (h : AtMost bound program)
    (hadvances : Advances execute program s program' s') :
    ∃ less, bound = less + 1 ∧ AtMost less program' := by
  cases hadvances with
  | answered hrun =>
    cases bound with
    | zero => exact h.elim
    | succ less => exact ⟨less, rfl, h _⟩
  | refused hrun =>
    cases bound with
    | zero => exact h.elim
    | succ less =>
      refine ⟨less, rfl, ?_⟩
      rw [AtMost]
      trivial

end Program

namespace Pool

@[simp] theorem update_self (program : Program α) (state : σ) :
    (pool.update j program state).programs j = program :=
  Function.update_self ..

theorem update_of_ne (h : j' ≠ j) (program : Program α) (state : σ) :
    (pool.update j program state).programs j' = pool.programs j' :=
  Function.update_of_ne h ..

theorem update_eq_self : pool.update j (pool.programs j) pool.state = pool := by
  rw [update, Function.update_eq_self]

theorem update_update (program program' : Program α) (s s' : σ) :
    (pool.update j program s).update j program' s' = pool.update j program' s' := by
  simp only [update, Function.update_idem]

namespace Reaches

/-- What holds at first and is preserved by every step holds in every pool that is reached. -/
theorem invariant (h : Reaches execute start n pool) (Holds : Pool ι σ α → Prop)
    (hstart : Holds start)
    (hstep : ∀ (pool : Pool ι σ α) (j : ι) (program : Program α) (state : σ), Holds pool →
      Program.Advances execute (pool.programs j) pool.state program state →
      Holds (pool.update j program state)) : Holds pool := by
  induction h with
  | start => exact hstart
  | step _ hadvances ih => exact hstep _ _ _ _ ih hadvances

/-- If each program makes a bounded number of requests, then a run of all of them is bounded. -/
theorem length_le [Fintype ι] (h : Reaches execute start n pool)
    (hbound : ∀ j, (start.programs j).AtMost bound) : n ≤ bound * Fintype.card ι := by
  have hleft : ∃ left : ι → Nat, (∀ j, (pool.programs j).AtMost (left j)) ∧
      n + ∑ j, left j = bound * Fintype.card ι := by
    induction h with
    | start =>
      refine ⟨fun _ => bound, hbound, ?_⟩
      rw [Nat.zero_add, Finset.sum_const, Finset.card_univ, Nat.nsmul_eq_mul,
        Nat.mul_comm]
    | @step n pool j program state _ hadvances ih =>
      obtain ⟨left, hall, hsum⟩ := ih
      obtain ⟨less, hless, hprogram⟩ := (hall j).advances hadvances
      refine ⟨Function.update left j less, ?_, ?_⟩
      · intro j'
        by_cases hj : j' = j
        · subst hj
          rw [update_self, Function.update_self]
          exact hprogram
        · rw [update_of_ne hj, Function.update_of_ne hj]
          exact hall j'
      · have hrest := Finset.sum_update_of_mem (Finset.mem_univ j) left less
        have hwhole := Finset.add_sum_erase Finset.univ left (Finset.mem_univ j)
        rw [Finset.sdiff_singleton_eq_erase] at hrest
        omega
  obtain ⟨left, _, hsum⟩ := hleft
  omega

/-- A program runs as in one piece if nobody comes between its requests. -/
theorem run {a : α} (h : Reaches execute start n pool)
    (hrun : ((pool.programs j).run execute).run pool.state = (.ok a, s')) :
    ∃ n', Reaches execute start n' (pool.update j (.done a) s') := by
  induction hprogram : pool.programs j generalizing n pool with
  | done b =>
    rw [hprogram] at hrun
    cases hrun
    exact ⟨n, by rwa [← hprogram, update_eq_self]⟩
  | fail e =>
    rw [hprogram] at hrun
    cases hrun
  | call r next ih =>
    rw [hprogram] at hrun
    obtain ⟨answer, s₁, hanswer, hnext⟩ := Action.run_bind_eq_ok.1 hrun
    have hadvances : Program.Advances execute (pool.programs j) pool.state (next answer) s₁ := by
      rw [hprogram]
      exact .answered hanswer
    have hstep := h.step hadvances
    obtain ⟨n', hreaches⟩ := ih answer hstep (by rwa [update_self]) (update_self ..)
    rw [update_update] at hreaches
    exact ⟨n', hreaches⟩

end Reaches

end Pool

end DocumentMapper.Database
