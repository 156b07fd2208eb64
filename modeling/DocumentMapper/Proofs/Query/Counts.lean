import DocumentMapper.Proofs.Outcome
import DocumentMapper.Proofs.Query.Concatenation
import DocumentMapper.Proofs.Query.Joinables

/-!
# The number of the records joined

A call that joins records and counts them puts down the stage that joins them and at the end one
that takes the size of the array in which they land. Nothing comes between the two, unless a single
record is to be joined: then the first record takes the place of the array before it is counted.
-/

namespace DocumentMapper

open Outcome

/-! ## Stages and references -/

/-- Whether a stage leaves what stands in a field there, in every document: it only picks or orders
documents, or it adds fields and none of them is that field or holds it. -/
def Stage.Keeps (a : String) (s : Stage) : Prop :=
  s.name ∈ ["match", "sort", "skip", "limit", "sample"] ∨
    ∃ entries, s = addFields (.dict entries) ∧
      ∀ name, .text name ∈ entries.map Prod.fst → ¬ Path.ofText name <+: Path.ofText a

theorem Stage.not_keeps_self (a : String) (content : Value) :
    ¬ (addFields (.dict [(.text a, content)])).Keeps a := by
  rintro (hpicks | ⟨entries, hadds, hapart⟩)
  · simp [addFields] at hpicks
  · cases hadds
    exact hapart a (by simp) (List.prefix_refl _)

theorem Column.reference_eq_ok {v w : Value} :
    reference v = .ok w ↔ ∃ a, v = .text a ∧ w = .text (referenceTo a) := by
  cases v <;> simp [reference, eq_comm]

/-- A reference is the name with a dollar sign in front, unless the name begins with one. -/
theorem Column.referenceTo_eq_iff {a : String} :
    referenceTo a = "$" ++ a ↔ a.toList.head? ≠ some '$' := by
  rw [referenceTo, String.append_right_inj, ← String.toList_inj, String.toList_ofList]
  cases a.toList with
  | nil => simp
  | cons c rest =>
    by_cases hc : c = '$'
    · subst hc
      have hlength := (List.dropWhile_suffix (l := rest) (· == '$')).length_le
      have hne : rest.dropWhile (· == '$') ≠ '$' :: rest := by
        intro h
        rw [h, List.length_cons] at hlength
        omega
      simpa using hne
    · simp [hc]

/-- The stage of a join writes the array where the records land. -/
theorem Stage.exists_ofJoin (source landing : Value) (options : Document) :
    ∃ entries : Document, ofJoin source landing options = ⟨"lookup", .dict entries⟩ ∧
      entries.field? "as" = some landing := by
  refine ⟨_, rfl, ?_⟩
  unfold Stage.entryIf
  split <;> split <;> rfl

/-! ## The joinable and its options -/

namespace Joinable

variable {j : Joinable}

theorem clone_clone (j : Joinable) : j.clone.clone = j.clone := by
  by_cases h : (j.options.fieldOrNull "from").isTruthy = true
  · simp [clone, withOptions, h]
  · apply clone_eq
    simp [clone, withOptions, h]

theorem exists_source (j : Joinable) : ∃ source, j.clone.options.field? "from" = some source := by
  by_cases h : (j.options.fieldOrNull "from").isTruthy = true
  · exact ⟨_, by simpa [clone, withOptions, h] using Document.field?_of_isTruthy h⟩
  · exact ⟨.text j.schema.collection, by simp [clone, withOptions, h]⟩

end Joinable

/-- What a join adds to the stages of its joinable. -/
def JoinExtras.refinements (extras : JoinExtras) : List Refinement :=
  (if extras.filter.isTruthy then [.clause [extras.filter]] else []) ++
    (if extras.select.isTruthy then [.select [extras.select]] else []) ++
    if extras.pipeline.isTruthy then [.raws extras.pipeline] else []

def JoinExtras.draft (extras : JoinExtras) : Draft :=
  extras.refinements.flatMap (Refinement.draft [])

namespace Query

variable {σ : Type} {m : Model σ} {ref : JoinRef} {extras : JoinExtras} {j : Joinable}

theorem clone_of_resolve (h : resolve m ref = .ok j) :
    j.clone = j ∧ ∃ source, j.options.field? "from" = some source := by
  obtain ⟨j₀, rfl⟩ : ∃ j₀ : Joinable, j = j₀.clone := by
    cases ref with
    | given j₀ => exact ⟨j₀, (Except.ok.inj h).symm⟩
    | named name =>
      simp only [resolve] at h
      cases hname : m.joinings.lookup name with
      | none => simp [hname] at h
      | some declared =>
        rw [hname] at h
        obtain ⟨j₀, -, hclone⟩ := map_eq_ok.1 h
        exact ⟨j₀, hclone.symm⟩
  exact ⟨j₀.clone_clone, j₀.exists_source⟩

/-- A join without a place of its own for the records only refines the joinable further. -/
theorem joinOptions_eq (extras : JoinExtras) : joinOptions { extras with landing := .null } =
    (extras.refinements.map .refine).forM Joinable.apply >>= fun _ => Joinable.take := by
  unfold joinOptions ifGiven JoinExtras.refinements
  cases extras.filter.isTruthy <;> cases extras.select.isTruthy <;>
    cases extras.pipeline.isTruthy <;> simp [Value.isTruthy]

theorem run_joinOptions (extras : JoinExtras) (j : Joinable) :
    ((joinOptions { extras with landing := .null }).run j).1 = extras.draft.outcome.map fun _ =>
      Joinable.lookup { j with stages := j.stages ++ extras.draft.placed } := by
  have hplain : ∀ r ∈ extras.refinements, r.isPlain = true := by
    intro r hr
    simp only [JoinExtras.refinements, List.mem_append, List.mem_ite_nil_right,
      List.mem_singleton] at hr
    rcases hr with (⟨-, rfl⟩ | ⟨-, rfl⟩) | ⟨-, rfl⟩ <;> rfl
  have hrefined := Joinable.run_refinements hplain j
  rw [joinOptions_eq]
  cases houtcome : extras.draft.outcome with
  | error e =>
    rw [← JoinExtras.draft, houtcome] at hrefined
    rw [Action.run_bind_error hrefined]
    rfl
  | ok =>
    rw [← JoinExtras.draft, houtcome] at hrefined
    rw [Action.run_bind_ok hrefined]
    rfl

/-! ## What the call puts down -/

/-- Stages that join records and then count them: the first one writes the array of the records
into a field, the last one takes the size of that field, and every stage in between keeps it. -/
def Counts (field : Value) (stages : List Stage) : Prop :=
  ∃ (options : Document) (between : List Stage) (a : String),
    stages = ⟨"lookup", .dict options⟩ :: between ++
      [Stage.addFields (.dict [(field, .single "$size" (.text ("$" ++ a)))])] ∧
    options.field? "as" = some (.text a) ∧ ∀ s ∈ between, s.Keeps a

/-- For a single match the first record takes the place of the array. -/
def collapse (single : Value) (a : String) : List Stage :=
  if single.isTruthy && (Value.text a).isTruthy then
    [Stage.addFields (.dict [(.text a, .single "$first" (.text (Column.referenceTo a)))])]
  else []

theorem ofSingle_text (single : Value) (a : String) :
    Draft.ofSingle single (.text a) = (collapse single a).map .ok := by
  unfold Draft.ofSingle collapse
  split
  · simp [Expression.first, Expression.onColumn, Column.reference, Draft.after,
      Refinement.oneField, Value.asKey_text, Expression.apply, bind, Except.bind]
  · rfl

theorem oneField_eq_ok {field content : Value} {s : Stage} :
    Refinement.oneField field content = .ok s ↔
      (∃ key, field.asKey = .ok key) ∧ s = .addFields (.dict [(field, content)]) := by
  unfold Refinement.oneField Value.asKey
  cases field.unhashable? <;> simp [bind, Except.bind, eq_comm]

/-- The stages that join records in a field, before the last one that counts them. -/
def joining (source : Value) (j : Joinable) (extras : JoinExtras) (a : String) : List Stage :=
  Stage.ofJoin source (.text a)
      (Joinable.lookup { j with stages := j.stages ++ extras.draft.placed }) ::
    collapse (j.option "single") a

theorem joinDraft_text {source : Value} {a : String} (hclone : j.clone = j)
    (hsource : j.options.field? "from" = some source) (hlanding : j.landing = .text a) :
    joinDraft m (.given j) { extras with landing := .null } =
      Draft.after extras.draft.outcome fun _ => (joining source j extras a).map .ok := by
  generalize hmore : ({ j with stages := j.stages ++ extras.draft.placed } : Joinable) = more
  have hoptions : more.options.field? "from" = some source := by
    rw [← hmore]
    exact hsource
  have hat : more.landing = .text a := by
    rw [← hmore]
    exact hlanding
  have hplace : more.lookup.fieldOrNull "as" = .text a := by
    rw [Document.fieldOrNull, more.field?_lookup_landing, hat]
    rfl
  have hsingle : more.option "single" = j.option "single" := by
    rw [← hmore]
    rfl
  have hstages : Refinement.lookupDraft (.dict more.lookup) =
      (joining source j extras a).map .ok := by
    rw [Joinable.lookupDraft_lookup hoptions, hat, hsingle, ofSingle_text, joining, hmore]
    rfl
  simp only [joinDraft, resolve, hclone, Draft.after, run_joinOptions]
  cases extras.draft.outcome with
  | error e => rfl
  | ok => simp only [Except.map, hmore, hplace, Value.asKey_text, ite_self, hstages]

/-- A call that counts joins first, and then adds the size of the place of the records. -/
theorem joinCount_draft (hresolve : resolve m ref = .ok j) (stages : List Stage) :
    (Extension.joinCount ref extras).draft m stages =
      joinDraft m (.given j) { extras with landing := .null } ++
        Draft.after (Column.reference j.landing) fun size =>
          [Refinement.oneField (countField j extras) (.single "$size" size)] := by
  show Draft.after (resolve m ref) _ = _
  rw [hresolve]
  rfl

/-- A call that counts goes through exactly if the extras do, the place of the records can be
referred to, and there can be a field for the number. -/
theorem joinCount_outcome (hresolve : resolve m ref = .ok j) (stages : List Stage) :
    ((Extension.joinCount ref extras).draft m stages).outcome = .ok () ↔
      extras.draft.outcome = .ok () ∧ (∃ a, j.landing = .text a) ∧
        ∃ key, (countField j extras).asKey = .ok key := by
  obtain ⟨hclone, source, hsource⟩ := clone_of_resolve hresolve
  have hjoin : ∀ a, j.landing = .text a →
      ((joinDraft m (.given j) { extras with landing := .null }).outcome = .ok () ↔
        extras.draft.outcome = .ok ()) := by
    intro a hlanding
    rw [joinDraft_text hclone hsource hlanding, Draft.outcome_after]
    constructor
    · rintro ⟨_, hextras, -⟩
      exact hextras
    · intro hextras
      exact ⟨(), hextras, (Draft.map_ok _).1⟩
  simp only [joinCount_draft hresolve, Draft.outcome_append_eq_ok, Draft.outcome_after,
    Draft.outcome_singleton, Column.reference_eq_ok, oneField_eq_ok]
  constructor
  · rintro ⟨hplaced, _, ⟨a, hlanding, -⟩, _, hkey, -⟩
    exact ⟨(hjoin a hlanding).1 hplaced, ⟨a, hlanding⟩, hkey⟩
  · rintro ⟨hextras, ⟨a, hlanding⟩, hkey⟩
    exact ⟨(hjoin a hlanding).2 hextras, _, ⟨a, hlanding, rfl⟩, _, hkey, rfl⟩

/-- What a call that counts puts down if it goes through. -/
theorem joinCount_placed {source : Value} {a : String} (hresolve : resolve m ref = .ok j)
    (hsource : j.options.field? "from" = some source) (hlanding : j.landing = .text a)
    {stages : List Stage}
    (hok : ((Extension.joinCount ref extras).draft m stages).outcome = .ok ()) :
    ((Extension.joinCount ref extras).draft m stages).placed = joining source j extras a ++
      [Stage.addFields (.dict [(countField j extras,
        .single "$size" (.text (Column.referenceTo a)))])] := by
  obtain ⟨hextras, -, hkey⟩ := (joinCount_outcome hresolve stages).1 hok
  have hlast : ∀ content, Refinement.oneField (countField j extras) content =
      .ok (.addFields (.dict [(countField j extras, content)])) :=
    fun _ => oneField_eq_ok.2 ⟨hkey, rfl⟩
  obtain ⟨hjoined, hplaced⟩ := Draft.map_ok (joining source j extras a)
  rw [joinCount_draft hresolve, joinDraft_text (clone_of_resolve hresolve).1 hsource hlanding,
    hextras, hlanding]
  simp only [Draft.after, Column.reference, hlast]
  rw [(Draft.append_of_ok hjoined _).2, hplaced]
  rfl

/-- The stages of a call that counts do so exactly if all the records are joined and the field in
which they land can be referred to. -/
theorem counts_joining_iff {source field : Value} {a : String} :
    Counts field (joining source j extras a ++
        [Stage.addFields (.dict [(field, .single "$size" (.text (Column.referenceTo a)))])]) ↔
      ((j.option "single").isTruthy && (Value.text a).isTruthy) = false ∧
        a.toList.head? ≠ some '$' := by
  obtain ⟨entries, hjoin, hat⟩ := Stage.exists_ofJoin source (.text a)
    (Joinable.lookup { j with stages := j.stages ++ extras.draft.placed })
  rw [joining, hjoin, ← Column.referenceTo_eq_iff]
  constructor
  · rintro ⟨options, between, a', hstages, hat', hkept⟩
    obtain ⟨hfirst, hlast⟩ := List.append_inj' hstages rfl
    injection hfirst with hlookup hbetween
    cases hlookup
    obtain rfl : a = a' := by simpa [hat] using hat'
    constructor
    · rw [← hbetween] at hkept
      apply Bool.eq_false_iff.2
      intro hsingle
      rw [collapse, if_pos hsingle] at hkept
      exact Stage.not_keeps_self a _ (hkept _ List.mem_cons_self)
    · simpa [Stage.addFields, Value.single] using hlast
  · rintro ⟨hsingle, href⟩
    refine ⟨entries, [], a, ?_, hat, by simp⟩
    rw [collapse, hsingle, href]
    rfl

/-- A call that joins records and counts them fails without a trace if it finds no joinable.
Otherwise it goes through exactly if its extras do, the place of the records can be referred to, and
there can be a field for the number. What it then puts down counts the records exactly if all of
them are joined and their place is not written like a reference. -/
theorem joinCount_counts_iff (m : Model σ) (ref : JoinRef) (extras : JoinExtras) (q : Query) :
    (∀ e, resolve m ref = .error e → (joinCount m ref extras).run q = (.error e, q)) ∧
    ∀ j, resolve m ref = .ok j →
      (((joinCount m ref extras).run q).1 = .ok () ↔
        extras.draft.outcome = .ok () ∧ (∃ a, j.landing = .text a) ∧
          ∃ key, (countField j extras).asKey = .ok key) ∧
      ∀ q', (joinCount m ref extras).run q = (.ok (), q') →
        ∃ a appended, j.landing = .text a ∧ q'.stages = q.stages ++ appended ∧
          (Counts (countField j extras) appended ↔
            ((j.option "single").isTruthy && (Value.text a).isTruthy) = false ∧
              a.toList.head? ≠ some '$') := by
  have hfollows := follows_act (m := m) (c := .joinCount ref extras) rfl []
  constructor
  · intro e hresolve
    rw [joinCount, hresolve]
    rfl
  · intro j hresolve
    have houtcome : ((Extension.joinCount ref extras).draft m []).outcome = .ok () ↔ _ :=
      joinCount_outcome hresolve []
    constructor
    · rw [← houtcome, ← (hfollows q).1]
      rfl
    · intro q' hrun
      obtain ⟨hend, hstages⟩ := hfollows q
      have hact : ((Extension.joinCount ref extras).act m).run q = (.ok (), q') := hrun
      rw [hact] at hend hstages
      obtain ⟨-, ⟨a, hlanding⟩, -⟩ := houtcome.1 hend.symm
      obtain ⟨-, source, hsource⟩ := clone_of_resolve hresolve
      refine ⟨a, _, hlanding, hstages, ?_⟩
      rw [joinCount_placed hresolve hsource hlanding hend.symm]
      exact counts_joining_iff

/-- Customers that have orders and a last invoice. -/
def buyers : Model Unit where
  toSchema := { Schema.plain "Customer" with collection := "customers" }
  casts := []
  defaults := []
  joinings := [
    ("orders", Joinable.build { Schema.plain "Order" with collection := "orders" }
      [.option "localField" (.text "id"), .option "foreignField" (.text "customer.id")]),
    ("lastInvoice", Joinable.build { Schema.plain "Invoice" with collection := "invoices" }
      [.option "localField" (.text "id"), .option "foreignField" (.text "customerId"),
        .option "as" (.text "invoice"), .option "single" (.bool true)])]
  relations := []
  rules := []

theorem joinCount_counts_iff_orders :
    let paid : JoinExtras :=
      { (default : JoinExtras) with filter := .single "status" (.text "paid") }
    ∃ q', (joinCount buyers (.named "orders") paid).run (fresh "customers" (.model "Customer")) =
        (.ok (), q') ∧ Counts (.text "ordersCount") q'.stages := by
  intro paid
  obtain ⟨-, hresolved⟩ :=
    joinCount_counts_iff buyers (.named "orders") paid (fresh "customers" (.model "Customer"))
  obtain ⟨hok, hcounts⟩ := hresolved _ rfl
  have hrun := hok.2 ⟨rfl, ⟨_, rfl⟩, _, rfl⟩
  obtain ⟨a, appended, hlanding, hstages, hiff⟩ := hcounts _ (Prod.ext hrun rfl)
  obtain rfl : "orders" = a := Value.text.inj hlanding
  refine ⟨_, Prod.ext hrun rfl, ?_⟩
  rw [hstages]
  exact hiff.2 ⟨rfl, by decide⟩

/-- The last invoice takes the place of the array of invoices before that is counted. -/
theorem not_counts_invoice :
    let first := Stage.addFields (.single "invoice" (.single "$first" (.text "$invoice")))
    ∃ q', (joinCount buyers (.named "lastInvoice") default).run
        (fresh "customers" (.model "Customer")) = (.ok (), q') ∧
      q'.stages = [⟨"lookup", .ofEntries [("from", .text "invoices"), ("localField", .text "id"),
        ("foreignField", .text "customerId"), ("as", .text "invoice")]⟩, first,
        .addFields (.single "invoiceCount" (.single "$size" (.text "$invoice")))] ∧
      ¬ Counts (.text "invoiceCount") q'.stages := by
  intro first
  refine ⟨_, rfl, rfl, ?_⟩
  rintro ⟨options, between, a, hstages, hat, hkept⟩
  have hparts : [_, first] ++ [_] = ⟨"lookup", .dict options⟩ :: between ++ [_] := hstages
  obtain ⟨hjoined, -⟩ := List.append_inj' hparts rfl
  injection hjoined with hlookup hbetween
  cases hlookup
  obtain rfl : "invoice" = a := Value.text.inj (Option.some.inj hat)
  rw [← hbetween] at hkept
  exact Stage.not_keeps_self "invoice" _ (hkept first List.mem_cons_self)

end Query

end DocumentMapper
