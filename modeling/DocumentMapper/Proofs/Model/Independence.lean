import DocumentMapper.Proofs.Model.DestroyCourse
import DocumentMapper.Proofs.Sync.Rounds

/-!
# Rules of a record that is saved or deleted

When the document of a record was written or taken out, the save or the deletion comes to what the
tour of the rules comes to. So under the policy of going on the rules of a record fail independently
of each other exactly if none of them fails but the last.
-/

namespace DocumentMapper.Lifecycle

open Sync (Independent OnlyLastFails Tour onOccasion)

variable {σ : Type} {ctx : Context σ} {below : Cascade σ} {m : Model σ} {o : SaveOptions}
  {r r₁ : Record} {s s₁ s₂ : σ} {result : Except Error Unit}

theorem run_forM_outside {γ : Type} {f : γ → Action σ Unit} {l : List γ}
    (h : (l.forM f).run s = (result, s₁)) (r : Record) :
    (l.forM fun x => outside (f x)).run (r, s) = (result, r, s₁) := by
  induction l generalizing s with
  | nil =>
    cases h
    rfl
  | cons x l ih =>
    rcases hf : (f x).run s with ⟨e | ⟨⟩, s'⟩
    · cases (Action.run_bind_error hf).symm.trans h
      exact Action.run_bind_error (Action.run_second hf r)
    · refine (Action.run_bind_ok (Action.run_second hf r)).trans (ih ?_)
      exact (Action.run_bind_ok hf).symm.trans h

variable (ctx m) in
/-- What a save does before the rules are told. -/
def stores (o : SaveOptions) : Step σ (Option Sync.Change) := do
  outside (ctx.requireBound m.toSchema)
  store ctx m o

variable (ctx m) in
/-- What a deletion does before the rules are told. -/
def withdraws : Step σ Unit := do
  outside (ctx.requireBound m.toSchema)
  markDeleted ctx m
  withdraw ctx m

variable (below) in
/-- A save that has written something comes to what the rules come to. -/
theorem run_save_of_stores (hm : ctx.model r.model = m) {change : Sync.Change}
    (h : (stores ctx m o).run (r, s) = (.ok (some change), r₁, s₁))
    (hrules : (m.rules.forM fun rule =>
      onOccasion ctx below rule { r₁ with stored := r₁.data } (.saved change)).run s₁ =
        (result, s₂)) :
    (save ctx below o).run (r, s) = (result, { r₁ with stored := r₁.data }, s₂) := by
  obtain ⟨⟨⟩, t, hbound, hstore⟩ := Action.run_bind_eq_ok.1 h
  unfold save
  rw [run_bind_record, hm, Action.run_bind_ok hbound, Action.run_bind_ok (run_logged_ok hstore)]
  exact run_forM_outside hrules _

variable (below) in
/-- A deletion that has taken out the document comes to what the rules come to. -/
theorem run_destroy_of_withdraws (hm : ctx.model r.model = m) (hkey : r.key.isTruthy = true)
    (h : (withdraws ctx m).run (r, s) = (.ok (), r₁, s₁))
    (hrules : (m.rules.forM fun rule => onOccasion ctx below rule r₁ .deleted).run s₁ =
      (result, s₂)) :
    (destroy ctx below).run (r, s) = (result, r₁, s₂) := by
  obtain ⟨⟨⟩, t, hbound, hrest⟩ := Action.run_bind_eq_ok.1 h
  obtain ⟨⟨⟩, t', hmark, hwithdraw⟩ := Action.run_bind_eq_ok.1 hrest
  rw [run_destroy below hm hkey, Action.run_bind_ok hbound, Action.run_bind_ok hmark,
    Action.run_bind_ok (run_logged_ok hwithdraw)]
  exact run_forM_outside hrules _

variable (ctx below) in
/-- Whatever a save has written or a deletion has taken out, there is a tour of the rules, and the
save or deletion ends with what comes out of it. If all rules go on after failures, they fail
independently of each other exactly if none but the last fails. -/
theorem save_destroy_independent_iff (hm : ctx.model r.model = m)
    (hpolicy : ∀ rule ∈ m.rules, rule.policy = .continue) (s : σ) :
    (∀ o change r₁ s₁, (stores ctx m o).run (r, s) = (.ok (some change), r₁, s₁) →
      (∃ rounds result s₂, Tour ctx below { r₁ with stored := r₁.data } (.saved change) m.rules s₁
        rounds result s₂) ∧
      ∀ rounds result s₂, Tour ctx below { r₁ with stored := r₁.data } (.saved change) m.rules s₁
          rounds result s₂ →
        (save ctx below o).run (r, s) = (result, { r₁ with stored := r₁.data }, s₂) ∧
        (Independent m.rules rounds result ↔ OnlyLastFails m.rules rounds)) ∧
    (r.key.isTruthy = true → ∀ r₁ s₁, (withdraws ctx m).run (r, s) = (.ok (), r₁, s₁) →
      (∃ rounds result s₂, Tour ctx below r₁ .deleted m.rules s₁ rounds result s₂) ∧
      ∀ rounds result s₂, Tour ctx below r₁ .deleted m.rules s₁ rounds result s₂ →
        (destroy ctx below).run (r, s) = (result, r₁, s₂) ∧
        (Independent m.rules rounds result ↔ OnlyLastFails m.rules rounds)) := by
  constructor
  · intro o change r₁ s₁ hstores
    refine ⟨Sync.exists_tour ctx below _ _ m.rules s₁, fun rounds result s₂ htour => ?_⟩
    exact ⟨run_save_of_stores below hm hstores htour.run, htour.independent_iff hpolicy⟩
  · intro hkey r₁ s₁ hwithdraws
    refine ⟨Sync.exists_tour ctx below _ _ m.rules s₁, fun rounds result s₂ htour => ?_⟩
    exact ⟨run_destroy_of_withdraws below hm hkey hwithdraws htour.run, htour.independent_iff hpolicy⟩

/-! ### A customer who buys and pays -/

/-- A log that leaves the state as it is takes a report without a trace. -/
theorem run_report_silent {rule : Sync.Rule σ} {task : String} {target : Value} {e : Error}
    (hlog : ∀ entry s, (ctx.log entry).run s = (.ok (), s)) (h : Sync.Loggable r target) (s : σ) :
    (Sync.report ctx rule r task target e).run s = (.ok (), s) := by
  rcases Sync.run_report rule (fun entry s => ⟨s, hlog entry s⟩) task target e s with
    ⟨-, s', hreport⟩ | ⟨hnever, -⟩
  · obtain ⟨message, s₁, hmessage, hlogged⟩ := Action.run_bind_eq_ok.1 hreport
    cases (Prod.mk.inj hmessage).2
    rw [hlog] at hlogged
    cases hlogged
    exact hreport
  · exact absurd h hnever

/-- A customer who was renamed. -/
def renamed : Record :=
  { Record.ofData "Customer" ((.text "_id", .int 9) :: Sample.person 1 "Ann") with
    stored := (.text "_id", .int 9) :: Sample.person 1 "Anne" }

/-- An order that embeds the customer as the buyer and as the one who pays. -/
def bill (id : Int) (buyer payer : Document) : Record :=
  .ofData "Order" [(.text "_id", .int id), (.text "id", .int id), (.text "buyer", .dict buyer),
    (.text "payer", .dict payer)]

def buyerRule : Sync.Rule (List Value) :=
  .sample "Order" ["buyer"] .single

def payerRule : Sync.Rule (List Value) :=
  .sample "Order" ["payer"] .single

/-- Two orders that know the customer by the old name. -/
def oldBills : List Record :=
  [bill 31 renamed.stored renamed.stored, bill 32 renamed.stored renamed.stored]

/-- A database with two orders that refuses one replacement, the one after some number of them. The
state keeps the identities of the documents that were to be replaced. -/
def bills (taken : Nat) : Context (List Value) :=
  { Context.sample (oldBills.map Record.data) fun d => do
      let tried ← get
      set (tried ++ [d.fieldOrNull "_id"])
      if tried.length = taken then throw (.raised "disk full") else return 1 with
    model := fun name => { (default : Model (List Value)) with
      toSchema := { Schema.plain name with updatedAt := .null }
      rules := if name = "Customer" then [buyerRule, payerRule] else [] } }

/-- The customer after the new name was stored. -/
def noted : Record :=
  ⟨renamed.model, renamed.data, renamed.data, renamed.restored⟩

theorem noted_eq :
    (⟨renamed.model, renamed.data, renamed.data, renamed.restored⟩ : Record) = noted := rfl

def newName : Sync.Change :=
  .updated (some (.ofData "Customer" renamed.stored))

/-- How an order is treated that embeds the customer in a column. -/
def treatBill (taken : Nat) (column : String) : Action (Record × List Value) Unit :=
  Sync.changeAndSave (cascade (bills taken) 1)
    (Sync.refresh .single [column] (.int 1) (.dict renamed.data))
    { SaveOptions.standard with cast := false }

theorem plan_buyer (taken : Nat) (tried : List Value) :
    (Sync.plan (bills taken) (cascade (bills taken) 1) buyerRule noted
      (.saved newName)).run tried = (.ok (some ⟨oldBills, treatBill taken "buyer"⟩), tried) :=
  Sync.run_plan_updated _ rfl rfl rfl

theorem plan_payer (taken : Nat) (tried : List Value) :
    (Sync.plan (bills taken) (cascade (bills taken) 1) payerRule noted
      (.saved newName)).run tried = (.ok (some ⟨oldBills, treatBill taken "payer"⟩), tried) :=
  Sync.run_plan_updated _ rfl rfl rfl

theorem loggable_noted (id : Int) : Sync.Loggable noted (.int id) :=
  ⟨⟨_, rfl⟩, Json.writable_int id⟩

/-- An order that could be saved with the new name of the buyer or of the one who pays. -/
def savedBill (id : Int) (buyer payer : Document) : Sync.Turn :=
  ⟨bill id renamed.stored renamed.stored, bill id buyer payer, none⟩

/-- An order that could not be saved with it. -/
def refusedBill (id : Int) (buyer payer : Document) : Sync.Turn :=
  ⟨bill id renamed.stored renamed.stored,
    { bill id buyer payer with stored := (bill id renamed.stored renamed.stored).data },
    some (.raised "disk full")⟩

/-- What comes out if the second order cannot be saved. -/
def refusal : Error :=
  .syncFailed "update" "Customer" (.int 1) "Order" [(.int 32, .raised "disk full")]

/-- If the second order cannot be saved for the buyer, that is the end of the tour. -/
theorem tour_buyer : Tour (bills 2) (cascade (bills 2) 1) noted (.saved newName)
    ((bills 2).model "Customer").rules [.int 9]
    [.treated [savedBill 31 renamed.data renamed.stored, refusedBill 32 renamed.data renamed.stored]]
    (.error refusal) [.int 9, .int 31, .int 32] := by
  have hturns : Sync.Turns (Sync.treatment (bills 2) buyerRule noted "update" (treatBill 2 "buyer"))
      [.int 9] [savedBill 31 renamed.data renamed.stored, refusedBill 32 renamed.data renamed.stored]
      [.int 9, .int 31, .int 32] :=
    .success rfl
      (.failure rfl (run_report_silent (fun _ _ => rfl) (loggable_noted 32) _) .none)
  exact .ended (.treated (plan_buyer 2 _) hturns rfl) rfl

theorem stores_renamed :
    (stores (bills 2) ((bills 2).model "Customer") .standard).run (renamed, []) =
      (.ok (some newName), renamed, [.int 9]) := rfl

theorem run_save_renamed : (save (bills 2) (cascade (bills 2) 1) .standard).run (renamed, []) =
    (.error refusal, noted, [.int 9, .int 31, .int 32]) := by
  have hrules := tour_buyer.run
  rw [← noted_eq] at hrules
  have hsave := run_save_of_stores (m := (bills 2).model "Customer") (cascade (bills 2) 1) rfl
    stores_renamed hrules
  rw [noted_eq] at hsave
  exact hsave

/-- If only the last order fails for the one who pays, every rule has its round and the failure is
told. -/
theorem save_destroy_independent_iff_payer :
    (∀ rule ∈ ((bills 4).model "Customer").rules, rule.policy = .continue) ∧
    ∃ rounds tried, (save (bills 4) (cascade (bills 4) 1) .standard).run (renamed, []) =
        (.error refusal, noted, tried) ∧
      Independent ((bills 4).model "Customer").rules rounds (.error refusal) ∧
      rounds.flatMap Sync.Round.failures ≠ [] := by
  have hpolicy : ∀ rule ∈ ((bills 4).model "Customer").rules, rule.policy = .continue := by
    intro rule hmem
    have hrule : rule = buyerRule ∨ rule = payerRule := by simpa [bills] using hmem
    rcases hrule with rfl | rfl <;> rfl
  have hbuyer : Sync.Turns (Sync.treatment (bills 4) buyerRule noted "update" (treatBill 4 "buyer"))
      [.int 9] [savedBill 31 renamed.data renamed.stored, savedBill 32 renamed.data renamed.stored]
      [.int 9, .int 31, .int 32] :=
    .success rfl (.success rfl .none)
  have hpayer : Sync.Turns (Sync.treatment (bills 4) payerRule noted "update" (treatBill 4 "payer"))
      [.int 9, .int 31, .int 32]
      [savedBill 31 renamed.stored renamed.data, refusedBill 32 renamed.stored renamed.data]
      [.int 9, .int 31, .int 32, .int 31, .int 32] :=
    .success rfl
      (.failure rfl (run_report_silent (fun _ _ => rfl) (loggable_noted 32) _) .none)
  have htour : Tour (bills 4) (cascade (bills 4) 1) noted (.saved newName)
      ((bills 4).model "Customer").rules [.int 9] _ (.error refusal) _ :=
    .next (.treated (plan_buyer 4 _) hbuyer rfl) rfl
      (.ended (.treated (plan_payer 4 _) hpayer rfl) rfl)
  obtain ⟨hsave, -⟩ := save_destroy_independent_iff (bills 4) (cascade (bills 4) 1)
    (m := (bills 4).model "Customer") (r := renamed) rfl hpolicy []
  obtain ⟨-, htours⟩ := hsave .standard newName renamed [.int 9] rfl
  rw [noted_eq] at htours
  obtain ⟨hrun, hiff⟩ := htours _ _ _ htour
  refine ⟨hpolicy, _, _, hrun, hiff.2 fun i round hi => ?_, List.cons_ne_nil _ _⟩
  match i with
  | 0 =>
    cases hi
    exact ⟨id, fun hfailed => absurd rfl hfailed⟩
  | 1 =>
    cases hi
    exact ⟨id, fun _ => rfl⟩
  | i + 2 => cases hi

/-- If an order fails for the buyer, none has a turn for the one who pays. -/
theorem not_independent_payer : ∃ rounds e,
    Tour (bills 2) (cascade (bills 2) 1) noted (.saved newName)
      ((bills 2).model "Customer").rules [.int 9] rounds (.error e) [.int 9, .int 31, .int 32] ∧
    (save (bills 2) (cascade (bills 2) 1) .standard).run (renamed, []) =
      (.error e, noted, [.int 9, .int 31, .int 32]) ∧
    ¬ Independent ((bills 2).model "Customer").rules rounds (.error e) := by
  refine ⟨_, _, tour_buyer, run_save_renamed, ?_⟩
  rintro ⟨hlength, -⟩
  cases hlength

end DocumentMapper.Lifecycle
