import DocumentMapper.Proofs.Sync.ReleaseFrame
import DocumentMapper.Proofs.Sync.Targets

/-!
# What becomes of documents when a record is deleted

A rule that takes copies out of its targets should touch nothing else in them, and one that deletes
its targets should delete nothing but documents that hold a copy. Taking copies out keeps
everything else exactly as far as nothing else is taken for a copy and a list is there where one is
looked for. The documents that are deleted are those that the database finds by the identity of the
record, which hold a copy unless the record has no identity or theirs is an array.
-/

namespace DocumentMapper.Sync

variable {mode : Mode} {columns : List String} {id : Value} {embedded : Except Error Value}
  {d d' : Document}

/-- Everything but copies is left alone as far as releasing sees to it. -/
structure Confined (mode : Mode) (columns : List String) (id : Value)
    (embedded : Except Error Value) (d d' : Document) : Prop where
  /-- A column keeps everything but copies at its turn exactly if nothing else is taken for one. -/
  turn : ∀ before column after, columns = before ++ column :: after → ∃ d₁ d₂,
    AtTurn (releaseColumn mode id embedded) before column after d d₁ d₂ d' ∧
    (Preserved id (view mode d₁ column) (view mode d₂ column) ↔
      Harmless mode id embedded d₁ column)
  /-- In the whole run that holds of a column that lies apart from the others. -/
  whole : ∀ before column after, columns = before ++ column :: after →
    (∀ other ∈ before ++ after, Apart mode other column) →
    (Preserved id (view mode d column) (view mode d' column) ↔ Harmless mode id embedded d column)
  outside : ∀ path, (∀ column ∈ columns, Outside mode column path) →
    leadsTo d' path = leadsTo d path
  absent : ∀ column ∈ columns, Absent mode d column → (Absent mode d' column ↔ mode = .single ∨
    ∀ other ∈ columns, (parts other).1 = (parts column).1 → (parts other).2 = none)

theorem confined_of_release (h : release mode columns id embedded d = .ok d') :
    Confined mode columns id embedded d d' where
  turn before column after hcolumns := by
    unfold release at h
    rw [hcolumns] at h
    obtain ⟨d₁, d₂, hat⟩ := exists_atTurn h
    exact ⟨d₁, d₂, hat, releaseColumn_preserved_iff hat.own⟩
  whole before column after hcolumns ha := by
    unfold release at h
    rw [hcolumns] at h
    obtain ⟨d₁, d₂, hat⟩ := exists_atTurn h
    rw [List.forall_mem_append] at ha
    exact release_preserved_iff ha.1 ha.2 hat
  outside path ho :=
    foldlM_keeps (f := fun d => leadsTo d path)
      (fun column hc _ _ hs => leadsTo_releaseColumn_of_outside (ho column hc) hs) h
  absent _ _ ha := absent_release_iff h ha

variable {σ : Type}

theorem run_changeAndSave_ok {below : Cascade σ} {change : Document → Except Error Document}
    {target : Record} (hd : change target.data = .ok d) (o : SaveOptions) (s : σ) :
    (changeAndSave below change o).run (target, s) =
      (below.save o).run ({ target with data := d }, s) := by
  unfold changeAndSave
  rw [Action.run_bind_ok (Action.run_get _)]
  simp only [hd]
  rfl

theorem run_changeAndSave_error {below : Cascade σ} {change : Document → Except Error Document}
    {target : Record} {e : Error} (he : change target.data = .error e) (o : SaveOptions) (s : σ) :
    (changeAndSave below change o).run (target, s) = (.error e, target, s) := by
  unfold changeAndSave
  rw [Action.run_bind_ok (Action.run_get _)]
  simp only [he]
  rfl

/-- Where copies are taken out, a target is left as it is if that fails, and else saved with
everything but copies left alone as far as releasing sees to it. Where targets are deleted, these
are the ones that the query gives, each made of a document that the database gave. The query starts
with a filter, and a document passes it exactly if it holds a copy in some column, or a dictionary
with an array for an identity that has the one of the record in it, or if the record has no
identity and there is nothing in some column. -/
theorem onDestroy_confined_iff (ctx : Context σ) (depth : Nat) (rule : Rule σ) (r : Record) :
    let below := Lifecycle.cascade ctx depth
    let embedded := r.embeddedValue (schemaOf ctx r)
    (rule.onDelete = .unset → ∀ (target : Record) (s : σ),
      (∀ e, release rule.mode rule.columns r.id embedded target.data = .error e →
        (clean ctx below rule r).run (target, s) = (.error e, target, s)) ∧
      (∀ d, release rule.mode rule.columns r.id embedded target.data = .ok d →
        (clean ctx below rule r).run (target, s) =
          (below.save .standard).run ({ target with data := d }, s) ∧
        Confined rule.mode rule.columns r.id embedded target.data d ∧
        (ctx.LeavesRecords → (ctx.model target.model).casts = [] →
          { target with data := d }.isNew = false → ∀ after s',
          (clean ctx below rule r).run (target, s) = (.ok (), after, s') →
            Lifecycle.Stamped (ctx.model target.model) d after.data))) ∧
    targetsQuery ctx rule r = (do
      let q ← Finder.query ctx (ctx.model rule.target)
      let wanted := Stage.filter (Query.anyOf (condition rule.columns r.id))
      let (outcome, q) ← Action.alongside { q with stages := q.stages ++ [wanted] }
        (rule.refiner.getD (return))
      Action.ofExcept outcome
      return q) ∧
    (rule.onDelete = .remove → ∀ s found s', (search ctx rule r).run s = (.ok found, s') →
      (∀ other : Cascade σ,
        (∀ t ∈ found, ∀ s, other.destroy.run (t, s) = below.destroy.run (t, s)) →
        (onDestroy ctx other rule r).run s = (onDestroy ctx below rule r).run s) ∧
      ∃ (q : Query) (s₁ : σ) (docs : List Document),
        (ctx.request q.collection (.aggregate q.wire)).run s₁ = (.ok docs, s') ∧
        ∀ t ∈ found, ∃ doc ∈ docs,
          (∃ name d, Query.transformed doc q.transforms = .ok d ∧ t = .ofData name d) ∧
          (Query.PassesAny (Query.anyOf (condition rule.columns r.id)) doc ↔
            ∃ column ∈ rule.columns, HoldsCopy r.id doc column ∨ HoldsAmong r.id doc column ∨
              (r.id = .null ∧ HoldsNothing doc column))) := by
  intro below embedded
  refine ⟨?_, targetsQuery_eq ctx rule r, ?_⟩
  · intro hunset target s
    have hclean : clean ctx below rule r = changeAndSave below
        (release rule.mode rule.columns r.id embedded) .standard := by
      unfold clean
      rw [hunset]
    rw [hclean]
    refine ⟨fun e he => run_changeAndSave_error he _ s, fun d hd => ?_⟩
    have hrun : (changeAndSave below (release rule.mode rule.columns r.id embedded)
        .standard).run (target, s) = (below.save .standard).run ({ target with data := d }, s) :=
      run_changeAndSave_ok hd .standard s
    refine ⟨hrun, confined_of_release hd, fun hl hcasts hnew after s' hafter => ?_⟩
    rw [hrun] at hafter
    cases depth with
    | zero => cases hafter
    | succ depth =>
      have huncast : Lifecycle.Uncast ctx .standard { target with data := d } := .inr hcasts
      exact Lifecycle.stamped_of_save hl huncast rfl hnew hafter
  · intro hremove s found s' hsearch
    obtain ⟨q, s₁, docs, hsent, hmade⟩ := exists_of_search hsearch
    refine ⟨fun other hdestroy => run_onDestroy_congr hremove hsearch hdestroy, q, s₁, docs,
      hsent, fun t ht => ?_⟩
    obtain ⟨doc, hdoc, htransformed⟩ := hmade t ht
    exact ⟨doc, hdoc, htransformed, passesAny_condition_iff⟩

/-! ### A shop with a product on its shelves that is deleted -/

open Sample

/-- A shop with a product on each of its shelves. -/
def shelves (products : List Document) : Record :=
  .ofData "Shop" [(.text "_id", .int 7),
    (.text "items", .list (products.map fun p => .dict [(.text "product", .dict p)]))]

def shelvesRule (columns : List String) (onDelete : OnDelete) : Rule Unit :=
  { Rule.sample "Shop" columns .many with onDelete }

/-- The shelf with the product is found. -/
theorem passesAny_shelves (columns : List String) (products : List Document) :
    Query.PassesAny (Query.anyOf (condition ("items.product" :: columns) ann.id))
      (shelves (person 1 "Ann" :: products)).data := by
  refine Query.passesAny_anyOf.2 ⟨_, mem_condition.2 ⟨_, List.mem_cons_self, rfl⟩, _, rfl, ?_⟩
  refine ⟨some (.int 1), ?_, .inl rfl⟩
  exact .key rfl (.element List.mem_cons_self (.key rfl (.key rfl .here)))

theorem onDestroy_confined_iff_shelves :
    let unset := shelvesRule ["items.product"] .unset
    let remove := shelvesRule ["items.product"] .remove
    let target := shelves [person 1 "Ann", person 2 "Bob"]
    let cleared : Document := [(.text "_id", .int 7),
      (.text "items", .list [.dict [], .dict [(.text "product", .dict (person 2 "Bob"))]])]
    let stocked : Context Unit := .sample [target.data] fun _ => return 1
    unset.onDelete = .unset ∧ remove.onDelete = .remove ∧
    (release .many unset.columns ann.id (ann.embeddedValue (schemaOf .quiet ann)) target.data =
        .ok cleared ∧
      Preserved ann.id (view .many target.data "items.product")
        (view .many cleared "items.product")) ∧
    (search stocked remove ann).run () = (.ok [target], ()) ∧
      (HoldsCopy ann.id target.data "items.product" ∨
        HoldsAmong ann.id target.data "items.product") := by
  intro unset remove target cleared stocked
  have hid : ann.id ≠ .null := Value.noConfusion
  refine ⟨rfl, rfl, ⟨rfl, ?_⟩, rfl, ?_⟩
  · obtain ⟨hunset, -⟩ := onDestroy_confined_iff .quiet 1 unset ann
    obtain ⟨-, hall⟩ := hunset rfl target ()
    obtain ⟨-, hconfined, -⟩ := hall cleared rfl
    refine (hconfined.whole [] "items.product" [] rfl (List.forall_mem_nil _)).2 ?_
    exact fun v _ htaken => (isCopyOf_iff hid).1 htaken
  · obtain ⟨-, -, hremove⟩ := onDestroy_confined_iff stocked 1 remove ann
    obtain ⟨-, q, s₁, docs, hsent, hmade⟩ := hremove rfl () [target] () rfl
    cases hsent
    obtain ⟨doc, hdoc, -, hiff⟩ := hmade target List.mem_cons_self
    cases List.mem_singleton.1 hdoc
    obtain ⟨column, hcolumn, hholds⟩ := hiff.1 (passesAny_shelves [] [person 2 "Bob"])
    cases List.mem_singleton.1 hcolumn
    obtain hcopy | hamong | ⟨hnull, -⟩ := hholds
    · exact .inl hcopy
    · exact .inr hamong
    · exact absurd hnull hid

/-- Where another list may hold the product as well but is absent, it is there afterwards. -/
theorem not_confined_extras :
    let rule := shelvesRule ["items.product", "extras.product"] .unset
    let target := shelves [person 1 "Ann"]
    Query.PassesAny (Query.anyOf (condition rule.columns ann.id)) target.data ∧
    ∃ after, (clean .quiet (Lifecycle.cascade .quiet 1) rule ann).run (target, ()) =
        (.ok (), after, ()) ∧
      Absent .many target.data "extras.product" ∧ ¬ Absent .many after.data "extras.product" := by
  intro rule target
  refine ⟨passesAny_shelves ["extras.product"] [], _, rfl, rfl, ?_⟩
  intro habsent
  cases habsent

end DocumentMapper.Sync
