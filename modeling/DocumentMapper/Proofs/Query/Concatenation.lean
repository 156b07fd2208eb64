import DocumentMapper.Proofs.Model.Sample
import DocumentMapper.Proofs.Query.Drafts

/-!
# Pipelines as concatenations of calls

A plain call puts behind any pipeline what it puts down in an empty one, and ends in the same way.
So the pipeline of several calls consists of what each of them yields by itself, and the wire form
of a pipeline, put down as raw stages, is the pipeline again.
-/

namespace DocumentMapper

/-- The wire form of a stage is read as that stage. -/
theorem Stage.ofValue_wire (s : Stage) : Stage.ofValue s.wire = .ok s := by
  have hname : ("$" ++ s.name).toList = '$' :: s.name.toList := by
    rw [String.toList_append]
    rfl
  simp [wire, Value.single, ofValue, hname]

namespace Draft

/-- A draft without failures puts everything down. -/
theorem map_ok (stages : List Stage) :
    outcome (stages.map Except.ok) = .ok () ∧ placed (stages.map Except.ok) = stages := by
  induction stages with
  | nil => exact ⟨rfl, rfl⟩
  | cons s rest ih =>
    obtain ⟨houtcome, hplaced⟩ := ih
    exact ⟨houtcome, congrArg (s :: ·) hplaced⟩

end Draft

namespace Query

variable {σ : Type} {m : Model σ} {empty q : Query} {c : Extension} {calls : List Extension}

/-! ## One call -/

/-- A plain call ends on every pipeline as on an empty one, and puts the same stages behind it. -/
theorem run_act (hempty : empty.stages = []) (hc : c.isPlain = true) (q : Query) :
    ((c.act m).run q).1 = ((c.act m).run empty).1 ∧
      ((c.act m).run q).2.stages = q.stages ++ ((c.act m).run empty).2.stages := by
  have hfollows : Follows Query.stages (c.draft m []) (c.act m) := follows_act hc []
  obtain ⟨houtcome, hstages⟩ := hfollows q
  obtain ⟨halone, hnew⟩ := hfollows empty
  rw [hempty, List.nil_append] at hnew
  exact ⟨houtcome.trans halone.symm, hstages.trans (by rw [hnew])⟩

/-- The first limit of a pipeline that says anything. -/
def limited? (stages : List Stage) : Option Value :=
  ((stages.find? fun s => s.name == "limit").map Stage.payload).filter Value.isTruthy

/-- A random sample without a size takes that of the first limit, or there is none. -/
theorem run_sample {size : Value} (hsize : size.isTruthy = false) (q : Query) :
    ((Extension.refine (.sample size)).act m).run q =
      match limited? q.stages with
      | some n => (.ok (), { q with stages := q.stages ++ [.sample n] })
      | none => (.error .missingLimit, q) := by
  have hsampled : Refinement.sampled q.stages size =
      match limited? q.stages with
      | some n => .ok (.sample n)
      | none => .error .missingLimit := by
    simp only [Refinement.sampled, limited?, Refinement.firstLimit, Value.orElse, hsize]
    cases q.stages.find? fun s => s.name == "limit" with
    | none => rfl
    | some s => cases htruthy : s.payload.isTruthy <;> simp [htruthy, Option.filter]
  show (((Refinement.sample size).apply.run q.stages).1,
    { q with stages := ((Refinement.sample size).apply.run q.stages).2 }) = _
  rw [Refinement.run_sample, hsampled]
  cases limited? q.stages <;> rfl

/-! ## Several calls -/

/-- A query after some calls, the next one also made after one that has failed. -/
def extended (m : Model σ) (calls : List Extension) (q : Query) : Query :=
  calls.foldl (fun q c => ((c.act m).run q).2) q

theorem stages_extended (hempty : empty.stages = []) (hcalls : ∀ c ∈ calls, c.isPlain = true)
    (q : Query) : (extended m calls q).stages =
      q.stages ++ calls.flatMap fun c => ((c.act m).run empty).2.stages := by
  induction calls generalizing q with
  | nil => exact (List.append_nil _).symm
  | cons c rest ih =>
    obtain ⟨hc, hrest⟩ := List.forall_mem_cons.1 hcalls
    have hfirst := (run_act (m := m) hempty hc q).2
    show (extended m rest ((c.act m).run q).2).stages = _
    rw [ih hrest, hfirst, List.flatMap_cons, List.append_assoc]

/-- A chain of calls succeeds exactly if each of them does so on an empty pipeline. -/
theorem run_chain_eq_ok (hempty : empty.stages = []) (hcalls : ∀ c ∈ calls, c.isPlain = true)
    (q q' : Query) : (calls.forM (Extension.act m)).run q = (.ok (), q') ↔
      (∀ c ∈ calls, ((c.act m).run empty).1 = .ok ()) ∧ q' = extended m calls q := by
  induction calls generalizing q with
  | nil => simp [extended, eq_comm]
  | cons c rest ih =>
    obtain ⟨hc, hrest⟩ := List.forall_mem_cons.1 hcalls
    have hsame := (run_act (m := m) hempty hc q).1
    show (c.act m >>= fun _ => rest.forM (Extension.act m)).run q = _ ↔ _
    rw [Action.run_bind, List.forall_mem_cons, ← hsame]
    rcases hrun : (c.act m).run q with ⟨e | ⟨⟨⟩⟩, q₁⟩
    · simp
    · have hgo : extended m (c :: rest) q = extended m rest q₁ := by
        simp only [extended, List.foldl_cons, hrun]
      simp only [true_and, ih hrest q₁, hgo]

/-! ## The wire form -/

theorem run_raws_wire (hempty : empty.stages = []) (q : Query) :
    ((Extension.refine (.raws (.list q.wire))).act m).run empty =
      (.ok (), { empty with stages := q.stages }) := by
  have hdraft : q.wire.map Stage.ofValue = q.stages.map Except.ok := by
    simp only [wire, List.map_map, Function.comp_def, Stage.ofValue_wire]
  obtain ⟨houtcome, hstages⟩ := Refinement.follows_addRaws q.wire empty.stages
  obtain ⟨hok, hplaced⟩ := Draft.map_ok q.stages
  rw [hdraft, hok] at houtcome
  rw [hdraft, hplaced, id, hempty, id, List.nil_append] at hstages
  show (((Refinement.addRaws q.wire).run empty.stages).1,
    { empty with stages := ((Refinement.addRaws q.wire).run empty.stages).2 }) = _
  rw [houtcome, hempty, hstages]

/-! ## Pipelines as a whole -/

/-- A plain call ends on any pipeline as on an empty one and puts behind it what it yields there, so
that the pipeline of a chain is the concatenation of what the calls yield by themselves. A random
sample without a size puts down one of the size of the first limit, or fails and puts down nothing.
The wire form of any pipeline, added to an empty one, is that pipeline. -/
theorem calls_concatenate (m : Model σ) (hempty : empty.stages = []) (q : Query) :
    (∀ c : Extension, c.isPlain = true →
      ((c.act m).run q).1 = ((c.act m).run empty).1 ∧
        ((c.act m).run q).2.stages = q.stages ++ ((c.act m).run empty).2.stages) ∧
    (∀ calls : List Extension, (∀ c ∈ calls, c.isPlain = true) →
      (extended m calls q).wire =
          q.wire ++ calls.flatMap (fun c => ((c.act m).run empty).2.wire) ∧
        ∀ q', (calls.forM (Extension.act m)).run q = (.ok (), q') ↔
          (∀ c ∈ calls, ((c.act m).run empty).1 = .ok ()) ∧ q' = extended m calls q) ∧
    (∀ size : Value, size.isTruthy = false →
      ((Extension.refine (.sample size)).act m).run q =
        match limited? q.stages with
        | some n => (.ok (), { q with stages := q.stages ++ [.sample n] })
        | none => (.error .missingLimit, q)) ∧
    ((Extension.refine (.raws (.list q.wire))).act m).run empty =
      (.ok (), { empty with stages := q.stages }) := by
  refine ⟨fun c hc => run_act hempty hc q, fun calls hcalls => ⟨?_, ?_⟩,
    fun size hsize => run_sample hsize q, run_raws_wire hempty q⟩
  · have hstages := stages_extended (m := m) hempty hcalls q
    simp only [wire, hstages, List.map_append, List.map_flatMap]
  · exact fun q' => run_chain_eq_ok hempty hcalls q q'

/-- Open orders with many tags, and how many shops each of them has. -/
def openOrders : List Extension :=
  [.refine (.clause [.text "status", .text "open"]),
    .refine (.arraySize (.text "tags") [.text ">", .int 3]),
    .joinCount (.given (.fresh (.plain "shops"))) default]

theorem calls_concatenate_openOrders :
    let q := fresh "orders" (.model "Order")
    let m : Model Unit := Context.quiet.model "Order"
    q.stages = [] ∧ (∀ c ∈ openOrders, c.isPlain = true) ∧
      (openOrders.forM (Extension.act m)).run q = (.ok (), extended m openOrders q) ∧
      (extended m openOrders q).wire.length = 5 := by
  have hplain : ∀ c ∈ openOrders, c.isPlain = true := by decide
  have hempty : (fresh "orders" (.model "Order")).stages = [] := rfl
  obtain ⟨-, hchain, -⟩ := calls_concatenate (Context.quiet.model "Order") hempty
    (fresh "orders" (.model "Order"))
  obtain ⟨hwire, hok⟩ := hchain openOrders hplain
  refine ⟨hempty, hplain, (hok _).2 ⟨?_, rfl⟩, ?_⟩
  · simp only [openOrders, List.forall_mem_cons]
    exact ⟨rfl, rfl, rfl, List.forall_mem_nil _⟩
  · rw [hwire]
    rfl

end Query

end DocumentMapper
