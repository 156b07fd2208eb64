import DocumentMapper.Model.Counter
import DocumentMapper.Proofs.Database.Interleaving

/-!
# Numbers for everyone

Callers that take numbers at the same time share the counters. Whatever the order of their requests
is, the callers of one collection are served one after another: the order in which their raises
come to the counter is the order of the numbers. `Tallied` is the invariant, which keeps that order,
and it holds for each collection whatever the callers of the others do.

Of the executor nothing is used but what it does with counters: raising gives the counter as it is
afterwards, seeding makes a counter where there is none, and each of these is one step.
-/

namespace DocumentMapper.Counter

open Database

variable {ι σ : Type}

/-- An executor that keeps counters; `value` is what the counter of a collection holds. -/
structure Keeps (execute : (r : Request) → Action σ r.Answer)
    (value : σ → String → Option Int) : Prop where
  raise_none {s : σ} {collection : String} (step : Int) : value s collection = none →
    ∃ s', (execute (raise collection step)).run s = (.ok none, s') ∧ value s' = value s
  raise_some {s : σ} {collection : String} {v : Int} (step : Int) : value s collection = some v →
    ∃ d s', (execute (raise collection step)).run s = (.ok (some d), s') ∧
      number (some d) = .ok (.int (v + step)) ∧
      value s' = Function.update (value s) collection (some (v + step))
  seed (s : σ) (collection : String) (start : Int) :
    ∃ changed s', (execute (seed collection start)).run s = (.ok changed, s') ∧
      value s' = Function.update (value s) collection (some ((value s collection).getD start))
  find_none {s : σ} {collection : String} : value s collection = none →
    ∃ s', (execute ⟨home, .findOne (selector collection)⟩).run s = (.ok none, s') ∧
      value s' = value s
  find_some {s : σ} {collection : String} {v : Int} : value s collection = some v →
    ∃ d s', (execute ⟨home, .findOne (selector collection)⟩).run s = (.ok (some d), s') ∧
      number (some d) = .ok (.int v) ∧ value s' = value s

/-- Someone who takes a number. -/
structure Caller where
  collection : String
  step : Int
  first : Int

namespace Caller

variable (caller : Caller)

def program : Program Value :=
  next caller.collection caller.step caller.first

/-- What is left to do with a counter that is surely there. -/
def again : Program Value :=
  .call (raise caller.collection caller.step) fun counter => ofOutcome (number counter)

/-- What is left to do when no counter was found. -/
def seeding : Program Value :=
  .call (Counter.seed caller.collection (caller.first - caller.step)) fun _ => caller.again

theorem exists_program : ∃ found, caller.program =
      .call (raise caller.collection caller.step) found ∧
    found none = caller.seeding ∧ ∀ d, found (some d) = ofOutcome (number (some d)) :=
  ⟨_, rfl, rfl, fun _ => rfl⟩

theorem atMost_ofOutcome (outcome : Except Error Value) (n : Nat) :
    (ofOutcome outcome).AtMost n := by
  cases outcome with
  | error e =>
    rw [ofOutcome, Program.AtMost]
    trivial
  | ok a =>
    rw [ofOutcome, Program.AtMost]
    trivial

theorem atMost_program : caller.program.AtMost 3 := by
  intro answer
  cases answer with
  | none =>
    intro _ counter
    exact atMost_ofOutcome (number counter) 0
  | some d => exact atMost_ofOutcome (number (some d)) 2

end Caller

variable {execute : (r : Request) → Action σ r.Answer} {value : σ → String → Option Int}
  {caller : Caller} {callers : ι → Caller} {collection : String} {k i first v : Int} {s s' : σ}
  {program : Program Value} {pool start : Pool ι σ Value} {order : List ι} {j : ι}

/-! ## One caller -/

/-- A caller that has no number yet. It goes on without a counter only until it has seeded one. -/
inductive Waits (value : σ → String → Option Int) (caller : Caller) (s : σ) :
    Program Value → Prop
  | start : Waits value caller s caller.program
  | seeding : Waits value caller s caller.seeding
  | again {v : Int} : value s caller.collection = some v → Waits value caller s caller.again

/-- What one step of a waiting caller does. -/
inductive Turn (value : σ → String → Option Int) (caller : Caller) (s : σ) (s' : σ) :
    Program Value → Prop
  | none : value s caller.collection = none → value s' = value s →
      Turn value caller s s' caller.seeding
  | seeded : value s' = Function.update (value s) caller.collection
        (some ((value s caller.collection).getD (caller.first - caller.step))) →
      Turn value caller s s' caller.again
  | served {v : Int} : value s caller.collection = some v →
      value s' = Function.update (value s) caller.collection (some (v + caller.step)) →
      Turn value caller s s' (.done (.int (v + caller.step)))

theorem Keeps.turn (hkeeps : Keeps execute value) (hwaits : Waits value caller s program)
    {program' : Program Value} (h : Program.Advances execute program s program' s') :
    Turn value caller s s' program' := by
  cases hwaits with
  | start =>
    obtain ⟨found, hprogram, hnone, hsome⟩ := caller.exists_program
    rw [hprogram] at h
    cases hv : value s caller.collection with
    | none =>
      obtain ⟨s₁, hrun, hvalue⟩ := hkeeps.raise_none caller.step hv
      obtain ⟨rfl, rfl⟩ := h.of_answer hrun
      rw [hnone]
      exact .none hv hvalue
    | some v =>
      obtain ⟨d, s₁, hrun, hnumber, hvalue⟩ := hkeeps.raise_some caller.step hv
      obtain ⟨rfl, rfl⟩ := h.of_answer hrun
      rw [hsome, hnumber]
      exact .served hv hvalue
  | seeding =>
    obtain ⟨changed, s₁, hrun, hvalue⟩ :=
      hkeeps.seed s caller.collection (caller.first - caller.step)
    obtain ⟨rfl, rfl⟩ := h.of_answer hrun
    exact .seeded hvalue
  | again hv =>
    obtain ⟨d, s₁, hrun, hnumber, hvalue⟩ := hkeeps.raise_some caller.step hv
    obtain ⟨rfl, rfl⟩ := h.of_answer hrun
    rw [hnumber]
    exact .served hv hvalue

/-- A caller without a number can go on. -/
theorem Keeps.exists_advances (hkeeps : Keeps execute value)
    (hwaits : Waits value caller s program) :
    ∃ program' s', Program.Advances execute program s program' s' := by
  cases hwaits with
  | start =>
    obtain ⟨found, hprogram, _⟩ := caller.exists_program
    rw [hprogram]
    cases hv : value s caller.collection with
    | none =>
      obtain ⟨s', hrun, _⟩ := hkeeps.raise_none caller.step hv
      exact ⟨found none, s', .answered hrun⟩
    | some v =>
      obtain ⟨d, s', hrun, _⟩ := hkeeps.raise_some caller.step hv
      exact ⟨found (some d), s', .answered hrun⟩
  | seeding =>
    obtain ⟨changed, s', hrun, _⟩ :=
      hkeeps.seed s caller.collection (caller.first - caller.step)
    exact ⟨_, s', .answered hrun⟩
  | again hv =>
    obtain ⟨d, s', hrun, _⟩ := hkeeps.raise_some caller.step hv
    exact ⟨_, s', .answered hrun⟩

namespace Turn

theorem waits (h : Turn value caller s s' program) :
    Waits value caller s' program ∨ ∃ n, program = .done (.int n) := by
  cases h with
  | none => exact .inl .seeding
  | seeded hvalue => exact .inl (.again (by rw [hvalue, Function.update_self]))
  | served => exact .inr ⟨_, rfl⟩

theorem value_of_ne (h : Turn value caller s s' program) (hne : collection ≠ caller.collection) :
    value s' collection = value s collection := by
  cases h with
  | none _ hvalue => rw [hvalue]
  | seeded hvalue => rw [hvalue, Function.update_of_ne hne]
  | served _ hvalue => rw [hvalue, Function.update_of_ne hne]

/-- A counter that is there stays there. -/
theorem exists_value (h : Turn value caller s s' program) (hv : value s collection = some v) :
    ∃ v', value s' collection = some v' := by
  by_cases hne : collection = caller.collection
  · subst hne
    cases h with
    | none hnone => exact absurd hv (by rw [hnone]; exact nofun)
    | seeded hvalue => exact ⟨_, by rw [hvalue, Function.update_self]⟩
    | served _ hvalue => exact ⟨_, by rw [hvalue, Function.update_self]⟩
  · exact ⟨v, by rw [h.value_of_ne hne, hv]⟩

theorem waits_of_waits {caller' : Caller} {program' : Program Value}
    (h : Turn value caller s s' program) (hwaits : Waits value caller' s program') :
    Waits value caller' s' program' := by
  cases hwaits with
  | start => exact .start
  | seeding => exact .seeding
  | again hv =>
    obtain ⟨v', hv'⟩ := h.exists_value hv
    exact .again hv'

end Turn

theorem Waits.ne_done (h : Waits value caller s program) (a : Value) : program ≠ .done a := by
  cases h with
  | start => exact nofun
  | seeding => exact nofun
  | again => exact nofun

/-! ## All callers of a collection -/

/-- The first number that is given out from now on. -/
def upcoming (counter : Option Int) (k i : Int) : Int :=
  match counter with
  | none => i
  | some v => v + k

theorem getD_sub_eq (counter : Option Int) (k i : Int) :
    counter.getD (i - k) = upcoming counter k i - k := by
  cases counter with
  | none => rfl
  | some v =>
    rw [upcoming, Option.getD_some]
    omega

/-- The callers of a collection that have been served, in the order in which they were, each one
with the number that is next; `counter` is what the counter held before. -/
structure Tallied (value : σ → String → Option Int) (callers : ι → Caller) (collection : String)
    (counter : Option Int) (k i : Int) (pool : Pool ι σ Value) (order : List ι) : Prop where
  waiting (j : ι) : Waits value (callers j) pool.state (pool.programs j) ∨
    ∃ n, pool.programs j = .done (.int n)
  nodup : order.Nodup
  asked : ∀ j ∈ order, (callers j).collection = collection
  finished : ∀ j a, (callers j).collection = collection → pool.programs j = .done a → j ∈ order
  served : order.map pool.programs =
    (List.range order.length).map fun (x : Nat) => .done (.int (upcoming counter k i + x * k))
  count : value pool.state collection = counter ∧ order = [] ∨
    value pool.state collection = some (upcoming counter k i - k + order.length * k) ∧
      ∃ j, (callers j).collection = collection

variable {counter : Option Int}

theorem tallied_start (callers : ι → Caller) (collection : String) (k i : Int) (s : σ) :
    Tallied value callers collection (value s collection) k i
      ⟨s, fun j => (callers j).program⟩ [] where
  waiting _ := .inl .start
  nodup := List.nodup_nil
  asked := by simp
  finished j a _ h := by
    have hwaits : Waits value (callers j) s (callers j).program := .start
    exact absurd h (hwaits.ne_done a)
  served := rfl
  count := .inl ⟨rfl, rfl⟩

namespace Tallied

theorem exists_done (h : Tallied value callers collection counter k i pool order)
    (hj : j ∈ order) : ∃ a, pool.programs j = .done a := by
  have hmem : pool.programs j ∈ order.map pool.programs := List.mem_map_of_mem hj
  rw [h.served] at hmem
  obtain ⟨x, _, hx⟩ := List.mem_map.1 hmem
  exact ⟨_, hx.symm⟩

/-- Different callers of the collection have different numbers. -/
theorem ne_of_ne (hk : k ≠ 0) (h : Tallied value callers collection counter k i pool order)
    {j j' : ι} (hj : j ∈ order) (hj' : j' ∈ order) (hne : j ≠ j') :
    pool.programs j ≠ pool.programs j' := by
  have hnodup : (order.map pool.programs).Nodup := by
    rw [h.served]
    refine List.nodup_range.map fun x y hxy => ?_
    have hint := Value.int.inj (Program.done.inj hxy)
    have hmul : (x : Int) * k = y * k := by omega
    exact Int.ofNat.inj (Int.eq_of_mul_eq_mul_right hk hmul)
  exact fun heq => hne (List.inj_on_of_nodup_map hnodup hj hj' heq)

theorem exists_iff (h : Tallied value callers collection counter k i pool order) (a : Value) :
    (∃ j ∈ order, pool.programs j = .done a) ↔
      ∃ x < order.length, a = .int (upcoming counter k i + (x : Int) * k) := by
  have hmem : (∃ j ∈ order, pool.programs j = .done a) ↔
      Program.done a ∈ order.map pool.programs := List.mem_map.symm
  rw [hmem, h.served, List.mem_map]
  constructor
  · rintro ⟨x, hx, heq⟩
    exact ⟨x, List.mem_range.1 hx, (Program.done.inj heq).symm⟩
  · rintro ⟨x, hx, rfl⟩
    exact ⟨x, List.mem_range.2 hx, rfl⟩

theorem value_eq (h : Tallied value callers collection counter k i pool order)
    (hall : ∀ j, (callers j).collection = collection → ∃ a, pool.programs j = .done a) :
    (value pool.state collection).getD 0 = if order.length = 0 then counter.getD 0
      else upcoming counter k i + ((order.length : Int) - 1) * k := by
  rcases h.count with ⟨hcounter, rfl⟩ | ⟨hcounter, j, hj⟩
  · rw [hcounter]
    rfl
  · obtain ⟨a, hdone⟩ := hall j hj
    have hlength : order.length ≠ 0 :=
      (List.length_pos_of_mem (h.finished j a hj hdone)).ne'
    rw [hcounter, if_neg hlength, Option.getD_some, Int.sub_mul]
    omega

end Tallied

variable [DecidableEq ι]

namespace Tallied

theorem map_update (hj : j ∉ order) (program : Program Value) (s' : σ) :
    order.map (pool.update j program s').programs = order.map pool.programs := by
  refine List.map_congr_left fun j' hj' => Pool.update_of_ne ?_ program s'
  rintro rfl
  exact hj hj'

theorem waiting_update (h : Tallied value callers collection counter k i pool order)
    (hturn : Turn value (callers j) pool.state s' program) (j' : ι) :
    Waits value (callers j') s' ((pool.update j program s').programs j') ∨
      ∃ n, (pool.update j program s').programs j' = .done (.int n) := by
  by_cases hj : j' = j
  · subst hj
    rw [Pool.update_self]
    exact hturn.waits
  · rw [Pool.update_of_ne hj]
    exact (h.waiting j').imp_left hturn.waits_of_waits

/-- A step in which no caller of the collection is served. -/
theorem unserved (h : Tallied value callers collection counter k i pool order) (hj : j ∉ order)
    (hturn : Turn value (callers j) pool.state s' program)
    (hprogram : (callers j).collection = collection → ∀ a, program ≠ .done a)
    (hcount : value s' collection = counter ∧ order = [] ∨
      value s' collection = some (upcoming counter k i - k + order.length * k) ∧
        ∃ j, (callers j).collection = collection) :
    Tallied value callers collection counter k i (pool.update j program s') order where
  waiting := h.waiting_update hturn
  nodup := h.nodup
  asked := h.asked
  finished j' a hj' hdone := by
    by_cases hne : j' = j
    · subst hne
      rw [Pool.update_self] at hdone
      exact absurd hdone (hprogram hj' a)
    · rw [Pool.update_of_ne hne] at hdone
      exact h.finished j' a hj' hdone
  served := by rw [map_update hj, h.served]
  count := hcount

/-- A step in which a caller of the collection is served. -/
theorem serve (h : Tallied value callers collection counter k i pool order) (hj : j ∉ order)
    (hcollection : (callers j).collection = collection)
    (hv : value pool.state collection = some v)
    (hvalue : value s' = Function.update (value pool.state) collection (some (v + k)))
    (hturn : Turn value (callers j) pool.state s' (.done (.int (v + k)))) :
    Tallied value callers collection counter k i (pool.update j (.done (.int (v + k))) s')
      (order ++ [j]) := by
  have hlength : v = upcoming counter k i - k + order.length * k := by
    rcases h.count with ⟨hcounter, rfl⟩ | ⟨hcounter, _⟩
    · rw [hv] at hcounter
      subst hcounter
      simp [upcoming]
    · rw [hv] at hcounter
      exact Option.some.inj hcounter
  have hnumber : v + k = upcoming counter k i + order.length * k := by
    omega
  refine ⟨h.waiting_update hturn, ?nodup, ?asked, ?finished, ?served, ?count⟩
  case nodup =>
    refine h.nodup.append (List.nodup_singleton j) ?_
    rwa [List.disjoint_singleton]
  case asked =>
    intro j' hj'
    rcases List.mem_append.1 hj' with hmem | hmem
    · exact h.asked j' hmem
    · rw [List.mem_singleton.1 hmem]
      exact hcollection
  case finished =>
    intro j' a hj' hdone
    by_cases hne : j' = j
    · rw [hne]
      exact List.mem_append_right _ List.mem_cons_self
    · rw [Pool.update_of_ne hne] at hdone
      exact List.mem_append_left _ (h.finished j' a hj' hdone)
  case served =>
    rw [List.map_append, map_update hj, h.served, List.length_append, List.length_singleton,
      List.range_succ, List.map_append, List.map_singleton, List.map_singleton, Pool.update_self,
      hnumber]
  case count =>
    refine .inr ⟨?_, j, hcollection⟩
    have hvalue : value (pool.update j (.done (.int (v + k))) s').state collection =
        some (v + k) := by
      show value s' collection = _
      rw [hvalue, Function.update_self]
    rw [hvalue, hnumber, List.length_append, List.length_singleton, Nat.cast_succ, Int.add_mul]
    congr 1
    omega

/-- Whoever takes a step, the callers of the collection stay tallied. -/
theorem step (hkeeps : Keeps execute value)
    (hcallers : ∀ j, (callers j).collection = collection →
      (callers j).step = k ∧ (callers j).first = i)
    (h : Tallied value callers collection counter k i pool order)
    (hadvances : Program.Advances execute (pool.programs j) pool.state program s') :
    ∃ order', Tallied value callers collection counter k i (pool.update j program s') order' := by
  have hwaits : Waits value (callers j) pool.state (pool.programs j) := by
    rcases h.waiting j with hwaits | ⟨n, hdone⟩
    · exact hwaits
    · rw [hdone] at hadvances
      cases hadvances
  have hj : j ∉ order := by
    intro hmem
    obtain ⟨a, hdone⟩ := h.exists_done hmem
    exact hwaits.ne_done a hdone
  have hturn := hkeeps.turn hwaits hadvances
  by_cases hcollection : (callers j).collection = collection
  · obtain ⟨hstep, hfirst⟩ := hcallers j hcollection
    cases hturn with
    | none hnone hvalue =>
      refine ⟨order, h.unserved hj (.none hnone hvalue) (fun _ => nofun) ?_⟩
      rw [hvalue]
      exact h.count
    | seeded hvalue =>
      refine ⟨order, h.unserved hj (.seeded hvalue) (fun _ => nofun) (.inr ⟨?_, j, hcollection⟩)⟩
      rw [hvalue, hcollection, hstep, hfirst, Function.update_self]
      rcases h.count with ⟨hcounter, rfl⟩ | ⟨hcounter, _⟩
      · rw [hcounter, getD_sub_eq]
        simp
      · rw [hcounter, Option.getD_some]
    | @served v hv hvalue =>
      have hturn := Turn.served hv hvalue
      rw [hstep] at hturn hvalue ⊢
      rw [hcollection] at hv hvalue
      exact ⟨order ++ [j], h.serve hj hcollection hv hvalue hturn⟩
  · have hvalue := hturn.value_of_ne (Ne.symm hcollection)
    refine ⟨order, h.unserved hj hturn (fun hsame => absurd hsame hcollection) ?_⟩
    rw [hvalue]
    exact h.count

end Tallied

/-- The last number of a collection is what its counter holds. -/
theorem run_last (hkeeps : Keeps execute value) (s : σ) (collection : String) :
    ∃ s', ((last collection).run execute).run s =
      (.ok (.int ((value s collection).getD 0)), s') := by
  cases hv : value s collection with
  | none =>
    obtain ⟨s', hrun, _⟩ := hkeeps.find_none hv
    refine ⟨s', ?_⟩
    rw [last, Program.run, Action.run_bind_ok hrun]
    rfl
  | some v =>
    obtain ⟨d, s', hrun, hnumber, _⟩ := hkeeps.find_some hv
    refine ⟨s', ?_⟩
    rw [last, Program.run, Action.run_bind_ok hrun]
    cases d with
    | nil => cases hnumber
    | cons e d =>
      simp only [hnumber]
      rfl

/-- What the callers of a collection get, as far as they have come after some steps. -/
structure GivenOut [Fintype ι] (execute : (r : Request) → Action σ r.Answer)
    (callers : ι → Caller) (collection : String) (counter : Option Int) (k i : Int) (steps : Nat)
    (pool : Pool ι σ Value) : Prop where
  bounded : steps ≤ 3 * Fintype.card ι
  /-- Nobody fails or has to wait for another caller. -/
  going (j : ι) : (∃ a, pool.programs j = .done a) ∨
    ∃ program s', Program.Advances execute (pool.programs j) pool.state program s'
  distinct {j j' : ι} {a : Value} : (callers j).collection = collection →
    (callers j').collection = collection → j ≠ j' → pool.programs j = .done a →
    pool.programs j' ≠ .done a
  /-- When all callers of the collection have finished, their numbers are the next ones. -/
  numbers : (∀ j, (callers j).collection = collection → ∃ a, pool.programs j = .done a) →
    ∀ a, (∃ j, (callers j).collection = collection ∧ pool.programs j = .done a) ↔
      ∃ x < (Finset.univ.filter fun j => (callers j).collection = collection).card,
        a = .int (upcoming counter k i + (x : Int) * k)
  /-- The last number is then the last one of these. -/
  last : (∀ j, (callers j).collection = collection → ∃ a, pool.programs j = .done a) →
    let n := (Finset.univ.filter fun j => (callers j).collection = collection).card
    ∃ s', ((last collection).run execute).run pool.state =
      (.ok (.int (if n = 0 then counter.getD 0 else upcoming counter k i + ((n : Int) - 1) * k)),
        s')

namespace Tallied

/-- When all callers of the collection have finished, just these have been served. -/
theorem length_eq [Fintype ι] (h : Tallied value callers collection counter k i pool order)
    (hall : ∀ j, (callers j).collection = collection → ∃ a, pool.programs j = .done a) :
    order.length = (Finset.univ.filter fun j => (callers j).collection = collection).card := by
  rw [← List.toFinset_card_of_nodup h.nodup]
  congr 1
  ext j
  rw [List.mem_toFinset, Finset.mem_filter]
  constructor
  · intro hj
    exact ⟨Finset.mem_univ j, h.asked j hj⟩
  · rintro ⟨_, hj⟩
    obtain ⟨a, hdone⟩ := hall j hj
    exact h.finished j a hj hdone

end Tallied

/-- However the requests of all callers are interleaved, the callers of each collection with the
same step are given the numbers that follow one another, each number once. -/
theorem reaches_givenOut [Fintype ι] (hkeeps : Keeps execute value) (callers : ι → Caller)
    (collection : String) {k i : Int} (hk : k ≠ 0)
    (hcallers : ∀ j, (callers j).collection = collection →
      (callers j).step = k ∧ (callers j).first = i)
    (s : σ) {steps : Nat} {pool : Pool ι σ Value}
    (h : Pool.Reaches execute ⟨s, fun j => (callers j).program⟩ steps pool) :
    GivenOut execute callers collection (value s collection) k i steps pool := by
  have hbounded := h.length_le fun j => (callers j).atMost_program
  have htallied : ∃ order,
      Tallied value callers collection (value s collection) k i pool order := by
    refine h.invariant (fun pool => ∃ order,
      Tallied value callers collection (value s collection) k i pool order)
      ⟨[], tallied_start callers collection k i s⟩ ?_
    rintro pool j program s' ⟨order, horder⟩ hadvances
    exact horder.step hkeeps hcallers hadvances
  obtain ⟨order, horder⟩ := htallied
  refine ⟨hbounded, ?going, ?distinct, ?numbers, ?last⟩
  case going =>
    intro j
    rcases horder.waiting j with hwaits | ⟨n, hdone⟩
    · exact .inr (hkeeps.exists_advances hwaits)
    · exact .inl ⟨_, hdone⟩
  case distinct =>
    intro j j' a hj hj' hne hdone hdone'
    have hmem := horder.finished j a hj hdone
    have hmem' := horder.finished j' a hj' hdone'
    exact horder.ne_of_ne hk hmem hmem' hne (hdone.trans hdone'.symm)
  case numbers =>
    intro hall a
    rw [← horder.length_eq hall, ← horder.exists_iff]
    constructor
    · rintro ⟨j, hj, hdone⟩
      exact ⟨j, horder.finished j a hj hdone, hdone⟩
    · rintro ⟨j, hj, hdone⟩
      exact ⟨j, horder.asked j hj, hdone⟩
  case last =>
    intro hall n
    obtain ⟨s', hrun⟩ := run_last hkeeps pool.state collection
    rw [horder.value_eq hall, horder.length_eq hall] at hrun
    exact ⟨s', hrun⟩

/-! ## Counters in memory -/

namespace Ledger

/-- The collection whose counter a filter finds. -/
def owner (filter : Document) : String :=
  match filter with
  | [(.text "collection", .text collection)] => collection
  | _ => ""

/-- The number in an update. -/
def amount (update : Value) : Int :=
  match update with
  | .dict [(_, .dict [(_, .int n)])] => n
  | _ => 0

def entry (n : Int) : Document :=
  [(.text "id", .int n)]

/-- An executor whose state are the counters. -/
def serve : (r : Request) → Action (String → Option Int) r.Answer
  | ⟨_, .findOneAndUpdate filter update _⟩ => ⟨fun counters =>
    match counters (owner filter) with
    | none => (.ok none, counters)
    | some v => (.ok (some (entry (v + amount update))),
        Function.update counters (owner filter) (some (v + amount update)))⟩
  | ⟨_, .updateOne filter update _⟩ => ⟨fun counters =>
    (.ok (0 : Int), Function.update counters (owner filter)
      (some ((counters (owner filter)).getD (amount update))))⟩
  | ⟨_, .findOne filter⟩ => ⟨fun counters => (.ok ((counters (owner filter)).map entry), counters)⟩
  | _ => throw (.raised "refused")

theorem run_raise (counters : String → Option Int) (collection : String) (step : Int) :
    (serve (raise collection step)).run counters =
      match counters collection with
      | none => (.ok none, counters)
      | some v => (.ok (some (entry (v + step))),
          Function.update counters collection (some (v + step))) := rfl

theorem keeps_serve : Keeps serve fun counters => counters where
  raise_none {counters collection} step h := by
    refine ⟨counters, ?_, rfl⟩
    rw [run_raise, h]
  raise_some {counters collection v} step h := by
    refine ⟨entry (v + step), Function.update counters collection (some (v + step)), ?_, rfl, rfl⟩
    rw [run_raise, h]
  seed counters collection start := ⟨_, _, rfl, rfl⟩
  find_none {counters collection} h := by
    refine ⟨counters, ?_, rfl⟩
    show (Except.ok ((counters collection).map entry), counters) = _
    rw [h]
    rfl
  find_some {counters collection v} h := by
    refine ⟨entry v, counters, ?_, rfl, rfl⟩
    show (Except.ok ((counters collection).map entry), counters) = _
    rw [h]
    rfl

/-- Two callers of one collection and one of another. -/
def crowd : Fin 3 → Caller
  | 0 | 1 => ⟨"orders", 1, 1⟩
  | 2 => ⟨"invoices", 10, 1000⟩

/-- Nobody has taken a number yet. -/
def opening : Pool (Fin 3) (String → Option Int) Value :=
  ⟨fun _ => none, fun j => (crowd j).program⟩

/-- The first caller finds no counter, then the second one takes its number and so does the third
one, and only after that the first one goes on. -/
theorem exists_reaches_crowd : ∃ steps pool, Pool.Reaches serve opening steps pool ∧
    pool.programs 0 = .done (.int 2) ∧ pool.programs 1 = .done (.int 1) ∧
    pool.programs 2 = .done (.int 1000) := by
  have hstart : Pool.Reaches serve opening 0 opening := .start
  have hfirst := hstart.step (j := 0) (.answered rfl)
  obtain ⟨_, hsecond⟩ := hfirst.run (j := 1) (a := .int 1) rfl
  obtain ⟨_, hthird⟩ := hsecond.run (j := 2) (a := .int 1000) rfl
  obtain ⟨_, hlast⟩ := hthird.run (j := 0) (a := .int 2) rfl
  exact ⟨_, _, hlast, rfl, rfl, rfl⟩

end Ledger

theorem reaches_givenOut_crowd : ∃ steps pool,
    Pool.Reaches Ledger.serve Ledger.opening steps pool ∧
      (∀ j, ∃ a, pool.programs j = .done a) ∧
      GivenOut Ledger.serve Ledger.crowd "orders" none 1 1 steps pool := by
  obtain ⟨steps, pool, hreaches, hfirst, hsecond, hthird⟩ := Ledger.exists_reaches_crowd
  refine ⟨steps, pool, hreaches, ?_, ?_⟩
  · intro j
    match j with
    | 0 => exact ⟨_, hfirst⟩
    | 1 => exact ⟨_, hsecond⟩
    | 2 => exact ⟨_, hthird⟩
  · exact reaches_givenOut Ledger.keeps_serve Ledger.crowd "orders" (by decide) (by decide) _
      hreaches

end DocumentMapper.Counter
