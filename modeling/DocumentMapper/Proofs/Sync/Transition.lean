import DocumentMapper.Proofs.Json.Writable
import DocumentMapper.Proofs.Model.Sample
import DocumentMapper.Proofs.Sync.FanOut
import DocumentMapper.Sync.Transition

/-!
# What a rule promises of its targets

A transition looks for targets, prepares their treatment and treats them in turn. It promises that
an error of the search or of the preparation comes out as it is, before any target is treated, and
that targets have the turns of the policy, with an error at the end that tells exactly which of
them failed.

The promise is kept as long as failures can be logged. The data of the record and the identity of
the target go into the log as JSON, and a key that JSON lacks makes the report fail itself.
-/

namespace DocumentMapper.Sync

variable {σ : Type} (ctx : Context σ) (below : Cascade σ) (rule : Rule σ) (r : Record)

/-! ## Reports -/

/-- Whether the failure of a target can be logged. A target of null stands for none. -/
def Loggable (target : Value) : Prop :=
  Json.Writable (.dict r.data) ∧ Json.Writable target

variable {ctx r} in
/-- A log that takes every message takes every report that can be written. -/
theorem run_report (hlog : ∀ entry s, ∃ s', (ctx.log entry).run s = (.ok (), s')) (task : String)
    (target : Value) (e : Error) (s : σ) :
    (Loggable r target ∧ ∃ s', (report ctx rule r task target e).run s = (.ok (), s')) ∨
    (¬ Loggable r target ∧ ∃ kind,
      (report ctx rule r task target e).run s = (.error (.misuse (.jsonKey kind)), s)) := by
  have hiff : Json.Writable (.ofEntries [("source", .dict r.data),
      ("target_collection", .text (ctx.model rule.target).collection), ("target_id", target),
      ("columns", .list (rule.columns.map .text))]) ↔ Loggable r target := by
    simp [Json.writable_ofEntries, Json.writable_text, Json.writable_texts, Loggable]
  rw [← hiff]
  unfold report Context.report Log.withContext
  simp only [Value.ofEntries, Value.isTruthy]
  generalize Value.dict _ = context
  cases hw : Json.write context with
  | error key =>
    refine .inr ⟨?_, key.qualifiedKind, rfl⟩
    rintro ⟨text, h⟩
    cases hw.symm.trans h
  | ok text => exact .inl ⟨⟨text, hw⟩, hlog _ s⟩

variable {ctx rule r} in
theorem run_reporting_ok {α : Type} {act : Action σ α} {s s' : σ} {a : α}
    (h : act.run s = (.ok a, s')) (task : String) :
    (reporting ctx rule r task act).run s = (.ok a, s') :=
  Action.run_tryCatch_ok h

variable {ctx rule r} in
theorem run_reporting_error {α : Type} {act : Action σ α} {s s' : σ} {e : Error}
    (h : act.run s = (.error e, s')) (task : String) :
    (reporting ctx rule r task act).run s =
      match (report ctx rule r task .null e).run s' with
      | (.ok (), s₁) => (.error e, s₁)
      | (.error fault, s₁) => (.error fault, s₁) := by
  rw [reporting, Action.run_tryCatch_error h, Action.run_bind]
  split <;> simp_all

/-! ## Parts of a transition -/

/-- The targets as the query of the rule gives them. -/
def search : Action σ (List Record) := do
  let q ← targetsQuery ctx rule r
  return (← q.launch (Query.fetch ctx none)).filterMap Record.ofValue?

/-- What is done to the targets of a changed record, unless there is nothing to embed. -/
def updating : Except Error (Action (Record × σ) Unit) :=
  (rule.payload (schemaOf ctx r) r).map fun v =>
    changeAndSave below (refresh rule.mode rule.columns r.id v)
      { SaveOptions.standard with cast := false }

/-- Looks for targets, prepares their treatment and treats them. -/
def transition (task : String) (prepared : Except Error (Action (Record × σ) Unit)) :
    Action σ Unit := do
  let found ← reporting ctx rule r task (search ctx rule r)
  let treat ← reporting ctx rule r task (Action.ofExcept prepared)
  run ctx rule r task treat found

variable {below} in
/-- A target that was changed and saved was saved with the data that the change gives. -/
theorem changeAndSave_eq_ok {change : Document → Except Error Document} {o : SaveOptions}
    {target after : Record} {s s' : σ}
    (h : (changeAndSave below change o).run (target, s) = (.ok (), after, s')) :
    ∃ d, change target.data = .ok d ∧
      (below.save o).run ({ target with data := d }, s) = (.ok (), after, s') := by
  unfold changeAndSave at h
  rw [Action.run_bind_ok (Action.run_get _)] at h
  cases hd : change target.data with
  | error e =>
    rw [Action.run_bind] at h
    simp [hd] at h
  | ok d =>
    simp only [hd] at h
    exact ⟨d, rfl, h⟩

variable {ctx rule r} in
theorem reporting_map_bind {α β γ : Type} (task : String) (outcome : Except Error α) (f : α → β)
    (next : β → Action σ γ) :
    (do let b ← reporting ctx rule r task (Action.ofExcept (outcome.map f)); next b) =
      (do let a ← reporting ctx rule r task (Action.ofExcept outcome); next (f a)) := by
  ext s : 2
  cases outcome with
  | ok a => rfl
  | error e =>
    rw [Action.run_bind, Action.run_bind, run_reporting_error rfl, run_reporting_error rfl]
    cases (report ctx rule r task .null e).run s with
    | mk result s' => cases result <;> rfl

theorem onUpdate_eq_transition {old : Option Record} (h : isDue rule r old = .ok true) :
    onUpdate ctx below rule r old =
      transition ctx rule r "update" (updating ctx below rule r) := by
  unfold onUpdate transition payload updating
  simp only [h, reporting_map_bind]
  rfl

theorem onDestroy_eq_transition (h : rule.onDelete ≠ .ignore) :
    onDestroy ctx below rule r =
      transition ctx rule r "clean up" (.ok (clean ctx below rule r)) := by
  unfold onDestroy
  rw [if_neg h]
  rfl

/-! ## The promise -/

/-- How the targets of a task are treated. -/
def treatment (task : String) (treat : Action (Record × σ) Unit) : Treatment σ where
  treat := treat
  report := fun target e => report ctx rule r task target.id e
  aborted := fun target e => .syncAborted r.model r.id rule.target target.id e

/-- What a run over targets ends with: all failures in the order of the targets, or, under the
policy of aborting, the one that it came to. -/
def verdict (task : String) (turns : List Turn) : Except Error Unit :=
  match rule.policy, failures turns with
  | _, [] => .ok ()
  | .continue, failed =>
    .error (.syncFailed task r.model r.id rule.target
      (failed.map fun (target, e) => (target.id, e)))
  | .abort, (target, e) :: _ => .error (.syncAborted r.model r.id rule.target target.id e)

/-- Targets have the turns of the policy and the run ends with the verdict on them. -/
def FansOut (task : String) (treat : Action (Record × σ) Unit) (found : List Record) (s : σ)
    (result : Except Error Unit × σ) : Prop :=
  ∃ turns s', Turns (treatment ctx rule r task treat) s turns s' ∧
    rule.policy.Gives found turns ∧ result = (verdict rule r task turns, s')

/-- An error is reported and comes out as it is, with nothing done in between. -/
def Reraises (task : String) (e : Error) (s : σ) (result : Except Error Unit × σ) : Prop :=
  ∃ s', (report ctx rule r task .null e).run s = (.ok (), s') ∧ result = (.error e, s')

/-- What a transition promises, whether its search, its preparation or neither fails. -/
def Promised (task : String) (prepared : Except Error (Action (Record × σ) Unit)) (s : σ)
    (result : Except Error Unit × σ) : Prop :=
  match (search ctx rule r).run s, prepared with
  | (.error e, s₁), _ => Reraises ctx rule r task e s₁ result
  | (.ok _, s₁), .error e => Reraises ctx rule r task e s₁ result
  | (.ok found, s₁), .ok treat => FansOut ctx rule r task treat found s₁ result

/-- A run over targets comes to one whose failure cannot be logged. -/
def FailsUnlogged (task : String) (treat : Action (Record × σ) Unit) (found : List Record)
    (s : σ) : Prop :=
  ∃ turns target rest left e s₁ s₂, Turns (treatment ctx rule r task treat) s turns s₁ ∧
    (rule.policy = .abort → failures turns = []) ∧
    found = turns.map Turn.found ++ target :: rest ∧
    treat.run (target, s₁) = (.error e, left, s₂) ∧ ¬ Loggable r left.id

/-- A transition comes to a failure that cannot be logged. -/
def EndsUnlogged (task : String) (prepared : Except Error (Action (Record × σ) Unit)) (s : σ) :
    Prop :=
  match (search ctx rule r).run s, prepared with
  | (.ok found, s₁), .ok treat => FailsUnlogged ctx rule r task treat found s₁
  | _, _ => ¬ Loggable r .null

variable {ctx rule r} {task : String} {treat : Action (Record × σ) Unit}
  {prepared : Except Error (Action (Record × σ) Unit)} {s s₁ s₂ s₃ : σ} {e : Error}
  {found rest : List Record} {turns : List Turn} {target left : Record}

theorem run_eq (task : String) (treat : Action (Record × σ) Unit) (found : List Record) :
    run ctx rule r task treat found = (do
      let failed ← fanOut rule.policy (treatment ctx rule r task treat) found
      if !failed.isEmpty then throw (.syncFailed task r.model r.id rule.target failed)) :=
  rfl

theorem run_of_turns (h : Turns (treatment ctx rule r task treat) s turns s₁)
    (hg : rule.policy.Gives found turns) :
    (run ctx rule r task treat found).run s = (verdict rule r task turns, s₁) := by
  rw [run_eq, Action.run_bind, h.run_fanOut hg]
  unfold outcome verdict
  cases rule.policy <;> cases failures turns <;> rfl

theorem verdict_ne_misuse (fault : Misuse) :
    verdict rule r task turns ≠ .error (.misuse fault) := by
  unfold verdict
  split <;> simp

/-- A run over targets keeps to the policy unless it comes to a failure that cannot be logged. -/
theorem fansOut_iff (hlog : ∀ entry s, ∃ s', (ctx.log entry).run s = (.ok (), s')) :
    FansOut ctx rule r task treat found s ((run ctx rule r task treat found).run s) ↔
      ¬ FailsUnlogged ctx rule r task treat found s := by
  constructor
  · rintro ⟨turns, s', -, -, hresult⟩
      ⟨turns₁, target, rest, left, e, s₁, s₂, hturns, hp, rfl, ht, hl⟩
    obtain ⟨hloggable, -⟩ | ⟨-, kind, hr⟩ := run_report rule hlog task left.id e s₂
    · exact hl hloggable
    · have hrun := hturns.run_unreported hp ⟨left, e, s₂, ht, hr⟩ rest
      rw [run_eq, Action.run_bind_error hrun] at hresult
      exact verdict_ne_misuse _ (congrArg Prod.fst hresult).symm
  · intro hu
    rcases exists_turns rule.policy (treatment ctx rule r task treat) found s with
      ⟨turns, s', hturns, hg⟩ |
      ⟨turns, s₁, target, rest, fault, s', hturns, hp, hfound, left, e, s₂, ht, hr⟩
    · exact ⟨turns, s', hturns, hg, run_of_turns hturns hg⟩
    · refine absurd ⟨turns, target, rest, left, e, s₁, s₂, hturns, hp, hfound, ht, ?_⟩ hu
      obtain ⟨-, s'', hr'⟩ | ⟨hl, -⟩ := run_report rule hlog task left.id e s₂
      · cases (congrArg Prod.fst hr).symm.trans (congrArg Prod.fst hr')
      · exact hl

theorem reraises_iff (hlog : ∀ entry s, ∃ s', (ctx.log entry).run s = (.ok (), s')) {α : Type}
    {act : Action σ α} (h : act.run s = (.error e, s₁)) (next : α → Action σ Unit) :
    Reraises ctx rule r task e s₁ ((reporting ctx rule r task act >>= next).run s) ↔
      Loggable r .null := by
  rw [Action.run_bind, run_reporting_error h]
  obtain ⟨hl, s', hr⟩ | ⟨hl, kind, hr⟩ := run_report rule hlog task .null e s₁
  · rw [hr]
    exact iff_of_true ⟨s', hr, rfl⟩ hl
  · rw [hr]
    refine iff_of_false ?_ hl
    rintro ⟨s', hr', -⟩
    cases (congrArg Prod.fst hr).symm.trans (congrArg Prod.fst hr')

/-- A transition keeps its promise unless it comes to a failure that cannot be logged. -/
theorem promised_iff (hlog : ∀ entry s, ∃ s', (ctx.log entry).run s = (.ok (), s')) :
    Promised ctx rule r task prepared s ((transition ctx rule r task prepared).run s) ↔
      ¬ EndsUnlogged ctx rule r task prepared s := by
  unfold Promised EndsUnlogged
  rcases hsearch : (search ctx rule r).run s with ⟨e | found, s₁⟩
  · exact (reraises_iff hlog hsearch _).trans Classical.not_not.symm
  · have hfound : (transition ctx rule r task prepared).run s =
        (do
          let treat ← reporting ctx rule r task (Action.ofExcept prepared)
          run ctx rule r task treat found).run s₁ :=
      Action.run_bind_ok (run_reporting_ok hsearch task)
    rw [hfound]
    cases prepared with
    | error e => exact (reraises_iff hlog rfl _).trans Classical.not_not.symm
    | ok treat => exact fansOut_iff hlog

variable (ctx rule r) in
/-- Updates that are due and clean-ups keep the promise exactly if they come to no failure that
cannot be logged. An update that is not due does nothing. -/
theorem onUpdate_onDestroy_promised_iff
    (hlog : ∀ entry s, ∃ s', (ctx.log entry).run s = (.ok (), s')) :
    (∀ old s, isDue rule r old = .ok true →
      (Promised ctx rule r "update" (updating ctx below rule r) s
          ((onUpdate ctx below rule r old).run s) ↔
        ¬ EndsUnlogged ctx rule r "update" (updating ctx below rule r) s)) ∧
    (∀ old s, isDue rule r old ≠ .ok true →
      (onUpdate ctx below rule r old).run s = ((fun _ => ()) <$> isDue rule r old, s)) ∧
    (rule.onDelete ≠ .ignore → ∀ s,
      (Promised ctx rule r "clean up" (.ok (clean ctx below rule r)) s
          ((onDestroy ctx below rule r).run s) ↔
        ¬ EndsUnlogged ctx rule r "clean up" (.ok (clean ctx below rule r)) s)) := by
  refine ⟨fun old s hdue => ?_, fun old s hdue => ?_, fun hdelete s => ?_⟩
  · rw [onUpdate_eq_transition ctx below rule r hdue]
    exact promised_iff hlog
  · unfold onUpdate
    rcases hresult : isDue rule r old with e | due
    · rfl
    · cases due with
      | true => exact absurd hresult hdue
      | false => rfl
  · rw [onDestroy_eq_transition ctx below rule r hdelete]
    exact promised_iff hlog

/-! ### Orders that cannot be saved -/

/-- Every record fails to be saved. The state keeps the identities of those that were tried. -/
def fullDisk : Cascade (List Value) where
  save _ := do
    let (target, tried) ← get
    set (target, tried ++ [target.id])
    throw (.raised "disk full")
  destroy := throw (.raised "disk full")

def order (id : Int) : Document :=
  [(.text "_id", .int id), (.text "id", .int id), (.text "customer", .dict [(.text "id", .int 1)])]

def orders : Context (List Value) :=
  .sample [order 31, order 32] fun _ => return 1

def customerRule : Rule (List Value) :=
  .sample "Order" ["customer"] .single

def customer : Record :=
  .ofData "Customer" [(.text "_id", .int 9), (.text "id", .int 1)]

/-- A customer whose time of deletion is under a key that JSON lacks. -/
def oddCustomer : Record :=
  .ofData "Customer" [(.text "_id", .int 9), (.text "id", .int 1),
    (.tuple [.text "meta", .text "deletedAt"], .moment default)]

theorem search_orders (r : Record) (hr : r = customer ∨ r = oddCustomer) :
    (search orders customerRule r).run [] =
      (.ok [.ofData "Order" (order 31), .ofData "Order" (order 32)], []) := by
  rcases hr with rfl | rfl <;> rfl

theorem onUpdate_onDestroy_promised_iff_orders :
    (∀ entry s, ∃ s', (orders.log entry).run s = (.ok (), s')) ∧ customerRule.onDelete ≠ .ignore ∧
    Promised orders customerRule customer "clean up"
      (.ok (clean orders fullDisk customerRule customer)) []
      ((onDestroy orders fullDisk customerRule customer).run []) := by
  have hlog : ∀ entry s, ∃ s', (orders.log entry).run s = (.ok (), s') := fun _ s => ⟨s, rfl⟩
  have hdelete : customerRule.onDelete ≠ .ignore := by decide
  obtain ⟨-, -, hdestroy⟩ :=
    onUpdate_onDestroy_promised_iff orders fullDisk customerRule customer hlog
  refine ⟨hlog, hdelete, (hdestroy hdelete []).2 ?_⟩
  unfold EndsUnlogged
  rw [search_orders customer (.inl rfl)]
  rintro ⟨turns, target, rest, left, e, s₁, s₂, -, -, hfound, ht, hl⟩
  have hmem : target ∈ [Record.ofData "Order" (order 31), .ofData "Order" (order 32)] := by
    rw [hfound]
    simp
  simp only [List.mem_cons, List.not_mem_nil, or_false] at hmem
  refine hl ⟨⟨_, rfl⟩, ?_⟩
  rcases hmem with rfl | rfl
  · rw [← (Prod.mk.inj (Prod.mk.inj ht).2).1]
    exact Json.writable_int 31
  · rw [← (Prod.mk.inj (Prod.mk.inj ht).2).1]
    exact Json.writable_int 32

/-- Neither order can be saved, but the run ends with the first: its failure cannot be logged. -/
theorem not_promised_oddCustomer :
    ¬ Promised orders customerRule oddCustomer "clean up"
      (.ok (clean orders fullDisk customerRule oddCustomer)) []
      ((onDestroy orders fullDisk customerRule oddCustomer).run []) := by
  rw [onDestroy_eq_transition _ _ _ _ (by decide), promised_iff fun _ s => ⟨s, rfl⟩]
  refine not_not_intro ?_
  unfold EndsUnlogged
  rw [search_orders oddCustomer (.inr rfl)]
  refine ⟨[], .ofData "Order" (order 31), [.ofData "Order" (order 32)], _, _, [], _, .none,
    nofun, rfl, rfl, ?_⟩
  rintro ⟨⟨text, htext⟩, -⟩
  cases htext

end DocumentMapper.Sync
