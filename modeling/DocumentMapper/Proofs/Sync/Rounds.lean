import DocumentMapper.Proofs.Sync.Transition

/-!
# Rounds of the rules

When a record was saved or deleted its rules are gone through one after another. Each has a round:
it finds out what there is to do, and then its targets have their turns. The first round that does
not end well is the last one.

Rules fail independently of each other if every rule has its round whatever became of the rules
before it, and if what comes out in the end reports the failures of all of them. That is so exactly
if no rule fails but the last.
-/

namespace DocumentMapper

/-- The targets that failed according to an error, each by its identity, with the reasons. -/
def Error.reported : Error → List (Value × Error)
  | .syncFailed _ _ _ _ failures => failures
  | .syncAborted _ _ _ target reason => [(target, reason)]
  | _ => []

namespace Sync

variable {σ : Type} (ctx : Context σ) (below : Cascade σ) (rule : Rule σ) (r : Record)

/-- What has become of a record when its rules are told. -/
inductive Occasion where
  | saved (change : Change)
  | deleted

/-- What a rule does on an occasion, in a word. -/
def Occasion.task : Occasion → String
  | saved .created => "embed into"
  | saved (.updated _) => "update"
  | deleted => "clean up"

def onOccasion : Occasion → Action σ Unit
  | .saved change => onSave ctx below rule r change
  | .deleted => onDestroy ctx below rule r

/-! ## One round -/

/-- Targets that were found and how to treat them. -/
structure Plan (σ : Type) where
  found : List Record
  treat : Action (Record × σ) Unit

/-- What a rule finds to do on an occasion, if anything. -/
def plan : Occasion → Action σ (Option (Plan σ))
  | .saved .created => do
    if rule.embedFrom.isEmpty then return none
    let (target, v) ← reporting ctx rule r (Occasion.saved .created).task do
      let id ← Action.ofExcept (r.data.columnD (rule.embedFrom ++ ".id") .null)
      let target ← Finder.first ctx (ctx.model rule.target) (Finder.on (.text "id") id)
      return (target, ← Action.ofExcept (rule.payload (schemaOf ctx r) r))
    return target.map fun target =>
      ⟨[target], changeAndSave below (embed rule.mode rule.columns v) .standard⟩
  | .saved (.updated old) => do
    if ← Action.ofExcept (isDue rule r old) then
      let found ← targets ctx rule r (Occasion.saved (.updated old)).task
      let v ← payload ctx rule r (Occasion.saved (.updated old)).task
      return some ⟨found, changeAndSave below (refresh rule.mode rule.columns r.id v)
        { SaveOptions.standard with cast := false }⟩
    else return none
  | .deleted => do
    if rule.onDelete = .ignore then return none
    return some ⟨← targets ctx rule r Occasion.deleted.task, clean ctx below rule r⟩

/-- A rule finds out what there is to do and then does it. -/
theorem onOccasion_eq_plan (o : Occasion) :
    onOccasion ctx below rule r o = (do
      match ← plan ctx below rule r o with
      | some p => run ctx rule r o.task p.treat p.found
      | none => return) := by
  cases o with
  | saved change =>
    cases change with
    | created =>
      simp only [onOccasion, onSave, onCreate, plan]
      split
      · rfl
      · simp only [bind_assoc]
        refine bind_congr fun (target, v) => ?_
        cases target <;> rfl
    | updated old =>
      simp only [onOccasion, onSave, onUpdate, plan, bind_assoc]
      refine bind_congr fun due => ?_
      cases due <;> simp [Occasion.task]
  | deleted =>
    simp only [onOccasion, onDestroy, plan]
    split
    · rfl
    · simp [Occasion.task]

section

variable {ctx rule r}

theorem run_reporting_eq_ok {α : Type} {task : String} {act : Action σ α} {a : α} {s s' : σ} :
    (reporting ctx rule r task act).run s = (.ok a, s') ↔ act.run s = (.ok a, s') :=
  Action.run_tryCatch_throw_eq_ok

/-- An update that is due finds the targets of the search and puts the payload into them. -/
theorem run_plan_updated {old : Option Record} {s s₁ : σ} {found : List Record} {v : Value}
    (hdue : isDue rule r old = .ok true) (hsearch : (search ctx rule r).run s = (.ok found, s₁))
    (hpayload : rule.payload (schemaOf ctx r) r = .ok v) :
    (plan ctx below rule r (.saved (.updated old))).run s =
      (.ok (some ⟨found, changeAndSave below (refresh rule.mode rule.columns r.id v)
        { SaveOptions.standard with cast := false }⟩), s₁) := by
  have hfound : (targets ctx rule r (Occasion.saved (.updated old)).task).run s = (.ok found, s₁) :=
    run_reporting_eq_ok.2 hsearch
  have hv : (payload ctx rule r (Occasion.saved (.updated old)).task).run s₁ = (.ok v, s₁) :=
    run_reporting_eq_ok.2 (by rw [hpayload]; rfl)
  simp only [plan, hdue]
  refine (Action.run_bind_ok (Action.run_ofExcept _ _)).trans ?_
  exact (Action.run_bind_ok hfound).trans (Action.run_bind_ok hv)

/-- There is nothing to do for an update only if it is not due. -/
theorem exists_of_plan_updated {old : Option Record} {s s₁ : σ} {planned : Option (Plan σ)}
    (h : (plan ctx below rule r (.saved (.updated old))).run s = (.ok planned, s₁)) :
    (isDue rule r old = .ok false ∧ planned = none) ∨
    (isDue rule r old = .ok true ∧ ∃ found v, (search ctx rule r).run s = (.ok found, s₁) ∧
      rule.payload (schemaOf ctx r) r = .ok v ∧
      planned = some ⟨found, changeAndSave below (refresh rule.mode rule.columns r.id v)
        { SaveOptions.standard with cast := false }⟩) := by
  obtain ⟨due, s', htest, h⟩ := Action.run_bind_eq_ok.1 h
  obtain ⟨hdue, rfl⟩ := Prod.mk.inj htest
  cases due with
  | false =>
    cases h
    exact .inl ⟨hdue, rfl⟩
  | true =>
    obtain ⟨found, s₂, hfound, h⟩ := Action.run_bind_eq_ok.1 h
    obtain ⟨v, s₃, hv, h⟩ := Action.run_bind_eq_ok.1 h
    obtain ⟨hpayload, rfl⟩ := Prod.mk.inj (run_reporting_eq_ok.1 hv)
    cases h
    exact .inr ⟨hdue, found, v, run_reporting_eq_ok.1 hfound, hpayload, rfl⟩

end

/-- How a round goes. -/
inductive Round where
  /-- There was nothing to do. -/
  | idle
  | treated (turns : List Turn)
  /-- What there is to do could not be found out, or a failure not be reported. -/
  | broken (e : Error)

namespace Round

/-- The targets that failed, with the reasons. -/
def failures : Round → List (Record × Error)
  | treated turns => Sync.failures turns
  | _ => []

def IsBroken : Round → Prop
  | broken _ => True
  | _ => False

/-- What comes out of a round. -/
def outcome (rule : Rule σ) (r : Record) (task : String) : Round → Except Error Unit
  | idle => .ok ()
  | treated turns => verdict rule r task turns
  | broken e => .error e

end Round

/-- A rule has its round, from a state to a later one. -/
inductive Fares (o : Occasion) : σ → Round → σ → Prop
  | idle {s s' : σ} : (plan ctx below rule r o).run s = (.ok none, s') → Fares o s .idle s'
  | treated {s s₁ s' : σ} {p : Plan σ} {turns : List Turn} :
      (plan ctx below rule r o).run s = (.ok (some p), s₁) →
      Turns (treatment ctx rule r o.task p.treat) s₁ turns s' → rule.policy.Gives p.found turns →
      Fares o s (.treated turns) s'
  | unplanned {s s' : σ} {e : Error} : (plan ctx below rule r o).run s = (.error e, s') →
      Fares o s (.broken e) s'
  | unreported {s s₁ s₂ s' : σ} {p : Plan σ} {turns : List Turn} {target : Record}
      {rest : List Record} {e : Error} :
      (plan ctx below rule r o).run s = (.ok (some p), s₁) →
      Turns (treatment ctx rule r o.task p.treat) s₁ turns s₂ →
      (rule.policy = .abort → Sync.failures turns = []) →
      p.found = turns.map Turn.found ++ target :: rest →
      Unreported (treatment ctx rule r o.task p.treat) s₂ target e s' → Fares o s (.broken e) s'

variable {ctx below rule r} {o : Occasion} {round : Round} {s s' : σ} {result : Except Error Unit}

theorem run_of_fares (h : Fares ctx below rule r o s round s') :
    (onOccasion ctx below rule r o).run s = (round.outcome rule r o.task, s') := by
  rw [onOccasion_eq_plan]
  cases h with
  | idle hplan => rw [Action.run_bind_ok hplan]; rfl
  | treated hplan hturns hgives =>
    rw [Action.run_bind_ok hplan]
    exact run_of_turns hturns hgives
  | unplanned hplan => exact Action.run_bind_error hplan
  | @unreported _ _ _ p _ _ rest _ hplan hturns hpolicy hfound hunreported =>
    rw [Action.run_bind_ok hplan]
    have hfanned := hturns.run_unreported hpolicy hunreported rest
    rw [← hfound] at hfanned
    simp only [run_eq]
    exact Action.run_bind_error hfanned

variable (ctx below rule r o s) in
/-- Every rule has its round. -/
theorem exists_fares : ∃ round s', Fares ctx below rule r o s round s' := by
  rcases hplan : (plan ctx below rule r o).run s with ⟨e | (_ | p), s₁⟩
  · exact ⟨.broken e, s₁, .unplanned hplan⟩
  · exact ⟨.idle, s₁, .idle hplan⟩
  · rcases exists_turns rule.policy (treatment ctx rule r o.task p.treat) p.found s₁ with
      ⟨turns, s', hturns, hgives⟩ |
      ⟨turns, s₂, target, rest, e, s', hturns, hpolicy, hfound, hunreported⟩
    · exact ⟨.treated turns, s', .treated hplan hturns hgives⟩
    · exact ⟨.broken e, s', .unreported hplan hturns hpolicy hfound hunreported⟩

/-! ## All rounds -/

variable (ctx below r) in
/-- Rules are gone through one after another, up to the first round that does not end well. -/
inductive Tour (o : Occasion) : List (Rule σ) → σ → List Round → Except Error Unit → σ → Prop
  | done {s : σ} : Tour o [] s [] (.ok ()) s
  | next {rule : Rule σ} {rules : List (Rule σ)} {s s₁ s' : σ} {round : Round}
      {rounds : List Round} {result : Except Error Unit} :
      Fares ctx below rule r o s round s₁ → round.outcome rule r o.task = .ok () →
      Tour o rules s₁ rounds result s' → Tour o (rule :: rules) s (round :: rounds) result s'
  | ended {rule : Rule σ} {rules : List (Rule σ)} {s s' : σ} {round : Round} {e : Error} :
      Fares ctx below rule r o s round s' → round.outcome rule r o.task = .error e →
      Tour o (rule :: rules) s [round] (.error e) s'

variable {rules : List (Rule σ)} {rounds : List Round}

theorem Tour.run (h : Tour ctx below r o rules s rounds result s') :
    (rules.forM fun rule => onOccasion ctx below rule r o).run s = (result, s') := by
  induction h with
  | done => rfl
  | next hfares hout _ ih =>
    have hround := run_of_fares hfares
    rw [hout] at hround
    exact (Action.run_bind_ok hround).trans ih
  | ended hfares hout =>
    have hround := run_of_fares hfares
    rw [hout] at hround
    exact Action.run_bind_error hround

variable (ctx below r o) in
theorem exists_tour (rules : List (Rule σ)) (s : σ) :
    ∃ rounds result s', Tour ctx below r o rules s rounds result s' := by
  induction rules generalizing s with
  | nil => exact ⟨[], .ok (), s, .done⟩
  | cons rule rules ih =>
    obtain ⟨round, s₁, hfares⟩ := exists_fares ctx below rule r o s
    cases hout : round.outcome rule r o.task with
    | error e => exact ⟨[round], .error e, s₁, .ended hfares hout⟩
    | ok _ =>
      obtain ⟨rounds, result, s', htour⟩ := ih s₁
      exact ⟨round :: rounds, result, s', .next hfares hout htour⟩

/-! ## Rounds of an update -/

variable (below) in
/-- Documents are changed one after another and saved with what the change gives. -/
inductive Renews (change : Document → Except Error Document) : List Record → σ → σ → Prop
  | nil {s : σ} : Renews change [] s s
  | cons {target left : Record} {rest : List Record} {d : Document} {s s₁ s' : σ} :
      change target.data = .ok d →
      (below.save { SaveOptions.standard with cast := false }).run ({ target with data := d }, s) =
        (.ok (), left, s₁) →
      Renews change rest s₁ s' → Renews change (target :: rest) s s'

variable (ctx below r) in
/-- For one rule after another, all documents that hold copies of a record are looked for and saved
with the present copy in the place of the old ones. -/
inductive Renewal : List (Rule σ) → σ → σ → Prop
  | nil {s : σ} : Renewal [] s s
  | cons {rule : Rule σ} {rules : List (Rule σ)} {found : List Record} {v : Value}
      {s s₁ s₂ s' : σ} :
      (search ctx rule r).run s = (.ok found, s₁) → rule.payload (schemaOf ctx r) r = .ok v →
      Renews below (refresh rule.mode rule.columns r.id v) found s₁ s₂ → Renewal rules s₂ s' →
      Renewal (rule :: rules) s s'

variable {old : Option Record} {found : List Record} {turns : List Turn}

/-- Turns of which none has failed have changed and saved their targets. -/
theorem Turns.renews {task : String} {change : Document → Except Error Document}
    (h : Turns (treatment ctx rule r task
      (changeAndSave below change { SaveOptions.standard with cast := false })) s turns s')
    (hnone : Sync.failures turns = []) : Renews below change (turns.map Turn.found) s s' := by
  induction h with
  | none => exact .nil
  | success htreat _ ih =>
    obtain ⟨d, hchange, hsave⟩ := changeAndSave_eq_ok htreat
    exact .cons hchange hsave (ih hnone)
  | failure => cases hnone

/-- Under either policy a run over targets that ends well has treated all of them. -/
theorem Policy.Gives.found_eq {policy : Policy} (h : policy.Gives found turns)
    (hnone : Sync.failures turns = []) : turns.map Turn.found = found := by
  cases policy with
  | «continue» => exact h
  | abort => exact h.2.2 hnone

theorem failures_of_verdict_ok {task : String} (h : verdict rule r task turns = .ok ()) :
    Sync.failures turns = [] := by
  unfold verdict at h
  cases hfailed : Sync.failures turns with
  | nil => rfl
  | cons failure rest =>
    rw [hfailed] at h
    cases hpolicy : rule.policy with
    | «continue» =>
      rw [hpolicy] at h
      cases h
    | abort =>
      rw [hpolicy] at h
      cases h

/-- A round of an update that ends well has renewed all copies, unless the update is not due. -/
theorem Fares.updated (h : Fares ctx below rule r (.saved (.updated old)) s round s')
    (hout : round.outcome rule r (Occasion.saved (.updated old)).task = .ok ()) :
    (round = .idle ∧ isDue rule r old = .ok false) ∨
    ((∃ turns, round = .treated turns) ∧ isDue rule r old = .ok true ∧
      ∃ found v s₁, (search ctx rule r).run s = (.ok found, s₁) ∧
        rule.payload (schemaOf ctx r) r = .ok v ∧
        Renews below (refresh rule.mode rule.columns r.id v) found s₁ s') := by
  cases h with
  | idle hplan =>
    obtain ⟨hdue, -⟩ | ⟨-, found, v, -, -, hplanned⟩ := exists_of_plan_updated below hplan
    · exact .inl ⟨rfl, hdue⟩
    · cases hplanned
  | treated hplan hturns hgives =>
    obtain ⟨-, hplanned⟩ | ⟨hdue, found, v, hsearch, hpayload, hplanned⟩ :=
      exists_of_plan_updated below hplan
    · cases hplanned
    · cases hplanned
      have hnone := failures_of_verdict_ok hout
      have hrenews := hturns.renews hnone
      rw [hgives.found_eq hnone] at hrenews
      exact .inr ⟨⟨_, rfl⟩, hdue, found, v, _, hsearch, hpayload, hrenews⟩
  | unplanned => cases hout
  | unreported => cases hout

/-- In a tour of an update that ends well every rule has treated its targets exactly if the update
is due for every rule. -/
theorem Tour.treated_iff {rules : List (Rule σ)} {rounds : List Round}
    (h : Tour ctx below r (.saved (.updated old)) rules s rounds (.ok ()) s') :
    (∀ round ∈ rounds, ∃ turns, round = .treated turns) ↔
      ∀ rule ∈ rules, isDue rule r old = .ok true := by
  generalize hresult : Except.ok () = result at h
  induction h with
  | done => exact iff_of_true (List.forall_mem_nil _) (List.forall_mem_nil _)
  | next hfares hout _ ih =>
    rw [List.forall_mem_cons, List.forall_mem_cons, ih hresult]
    refine and_congr_left fun _ => ?_
    obtain ⟨rfl, hdue⟩ | ⟨htreated, hdue, -⟩ := hfares.updated hout
    · rw [hdue]
      exact iff_of_false (by rintro ⟨turns, hnever⟩; cases hnever) (by simp)
    · exact iff_of_true htreated hdue
  | ended => cases hresult

/-- If the update is due for every rule, then the tour has renewed all copies. -/
theorem Tour.renewal {rules : List (Rule σ)} {rounds : List Round}
    (h : Tour ctx below r (.saved (.updated old)) rules s rounds (.ok ()) s')
    (hdue : ∀ rule ∈ rules, isDue rule r old = .ok true) : Renewal ctx below r rules s s' := by
  generalize hresult : Except.ok () = result at h
  induction h with
  | done => exact .nil
  | next hfares hout _ ih =>
    rw [List.forall_mem_cons] at hdue
    obtain ⟨-, hundue⟩ | ⟨-, -, found, v, s₁, hsearch, hpayload, hrenews⟩ := hfares.updated hout
    · cases hdue.1.symm.trans hundue
    · exact .cons hsearch hpayload hrenews (ih hdue.2 hresult)
  | ended => cases hresult

/-! ## Independence -/

/-- What comes out tells of the failure of a target. -/
def Reports (result : Except Error Unit) (failure : Record × Error) : Prop :=
  ∃ e, result = .error e ∧ (failure.1.id, failure.2) ∈ e.reported

/-- Rules fail independently of each other: every rule has its round, in which all targets that it
finds are treated, and what comes out tells of all failures. -/
def Independent (rules : List (Rule σ)) (rounds : List Round) (result : Except Error Unit) :
    Prop :=
  rounds.length = rules.length ∧
    ∀ round ∈ rounds, ¬ round.IsBroken ∧ ∀ failure ∈ round.failures, Reports result failure

/-- No rule fails but the last, and that only by failures of its targets. -/
def OnlyLastFails (rules : List (Rule σ)) (rounds : List Round) : Prop :=
  ∀ i round, rounds[i]? = some round →
    ¬ round.IsBroken ∧ (round.failures ≠ [] → i + 1 = rules.length)

theorem Round.failures_of_ok {task : String} (h : round.outcome rule r task = .ok ()) :
    ¬ round.IsBroken ∧ round.failures = [] := by
  cases round with
  | idle => exact ⟨id, rfl⟩
  | broken e => cases h
  | treated turns => exact ⟨id, failures_of_verdict_ok h⟩

theorem Round.reports_of_error (hpolicy : rule.policy = .continue) {task : String} {e : Error}
    (h : round.outcome rule r task = .error e) (hsound : ¬ round.IsBroken) :
    round.failures ≠ [] ∧ ∀ failure ∈ round.failures, Reports (.error e) failure := by
  cases round with
  | idle => cases h
  | broken e => exact absurd trivial hsound
  | treated turns =>
    replace h : verdict rule r task turns = .error e := h
    unfold verdict at h
    rw [hpolicy] at h
    show Sync.failures turns ≠ [] ∧ ∀ failure ∈ Sync.failures turns, Reports (.error e) failure
    cases hfailed : Sync.failures turns with
    | nil =>
      rw [hfailed] at h
      cases h
    | cons failure rest =>
      rw [hfailed] at h
      cases h
      exact ⟨List.cons_ne_nil _ _, fun other hmem => ⟨_, rfl, List.mem_map.2 ⟨other, hmem, rfl⟩⟩⟩

/-- The rules of a tour fail independently of each other exactly if none fails but the last. -/
theorem Tour.independent_iff (hpolicy : ∀ rule ∈ rules, rule.policy = .continue)
    (h : Tour ctx below r o rules s rounds result s') :
    Independent rules rounds result ↔ OnlyLastFails rules rounds := by
  induction h with
  | done => exact iff_of_true ⟨rfl, List.forall_mem_nil _⟩ fun i round hi => by cases hi
  | @next rule rules s s₁ s' round rounds result hfares hout _ ih =>
    rw [List.forall_mem_cons] at hpolicy
    obtain ⟨hsound, hnone⟩ := Round.failures_of_ok hout
    have ih := ih hpolicy.2
    constructor
    · rintro ⟨hlength, hall⟩
      rw [List.forall_mem_cons] at hall
      have hrest := ih.1 ⟨by simpa using hlength, hall.2⟩
      intro i round' hi
      cases i with
      | zero =>
        cases hi
        exact ⟨hsound, fun hfailed => absurd hnone hfailed⟩
      | succ i =>
        refine (hrest i round' hi).imp_right fun hlast hfailed => ?_
        rw [List.length_cons, hlast hfailed]
    · intro hlast
      obtain ⟨hlength, hall⟩ := ih.2 fun i round' hi => by
        refine (hlast (i + 1) round' hi).imp_right fun hend hfailed => ?_
        simpa using hend hfailed
      refine ⟨by simpa using hlength, List.forall_mem_cons.2 ⟨⟨hsound, ?_⟩, hall⟩⟩
      rw [hnone]
      exact List.forall_mem_nil _
  | @ended rule rules s s' round e hfares hout =>
    have hpolicy := hpolicy rule List.mem_cons_self
    constructor
    · rintro ⟨hlength, hall⟩ i round' hi
      have hmem := List.mem_of_getElem? hi
      cases List.mem_singleton.1 hmem
      refine ⟨(hall _ hmem).1, fun _ => ?_⟩
      have hlt := (List.getElem?_eq_some_iff.1 hi).1
      rw [← hlength]
      simp only [List.length_singleton] at hlt ⊢
      omega
    · intro hlast
      obtain ⟨hsound, hend⟩ := hlast 0 round rfl
      obtain ⟨hfailed, hreports⟩ := Round.reports_of_error hpolicy hout hsound
      exact ⟨hend hfailed, List.forall_mem_singleton.2 ⟨hsound, hreports⟩⟩

end Sync

end DocumentMapper
