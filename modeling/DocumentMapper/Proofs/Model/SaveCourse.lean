import DocumentMapper.Model.Lifecycle
import DocumentMapper.Proofs.Model.Sample
import DocumentMapper.Proofs.Model.Saving
import DocumentMapper.Proofs.Outcome
import DocumentMapper.Proofs.Procedure

/-!
# The course of a save

A save is a procedure: it prepares the record, tells the listeners, writes the document, tells the
listeners again, notes what was stored and goes through the rules. `saving` writes its phases down
for a new record and for a stored one, and `save` is shown to perform just these.
-/

namespace DocumentMapper.Lifecycle

variable {σ : Type} (ctx : Context σ) (below : Cascade σ) (m : Model σ)

/-- The steps of a save. -/
inductive Effect (σ : Type) where
  /-- Finds out that the models have an executor. -/
  | require
  | merge (changes : Value)
  /-- Gives a new record the defaults of its model. -/
  | fill
  /-- Takes a number from the counter of the collection. -/
  | number
  /-- Reads the clock and writes the time into columns. -/
  | stamp (columns : List Value)
  | cast (force : Bool) (column : String) (rule : CastRule σ)
  /-- One listener of a registry hears of an event. -/
  | hear (id : RegistryId) (event : Event) (old : Option Record) (listener : Listener σ)
  | insert
  | replace
  /-- Notes the data of the record as those that are stored. -/
  | keep
  | sync (rule : Sync.Rule σ) (change : Sync.Change)

namespace Effect

/-- What a step does. -/
def act : Effect σ → Step σ Unit
  | require => outside (ctx.requireBound m.toSchema)
  | merge changes => do
    let changes ← Action.ofExcept (changes.entriesFor "items")
    modifyData (·.merge changes)
  | fill => applyDefaults m
  | number => do
    let id ← outside (Finder.nextId ctx m)
    modifyData (·.putField "id" id)
  | stamp columns => do
    let now ← outside ctx.now
    columns.forM fun column => Lifecycle.stamp column now
  | cast force column rule => Casting.castColumn ctx force column rule
  | hear _ _ old listener => listener.onRecord old
  | insert => do
    let key ← outside (ctx.request m.collection (.insertOne (← record).data))
    modify fun (r, s) => ({ r with data := r.data.putField "_id" key, restored := false }, s)
  | replace => Lifecycle.replace ctx m
  | keep => modify fun (r, s) => ({ r with stored := r.data }, s)
  | sync rule change => do
    let r ← record
    outside (Sync.onSave ctx below rule r change)

end Effect

/-! ## The phases of a save -/

/-- The listeners that a registry has for an event. -/
def listening (id : RegistryId) (event : Event) (old : Option Record) :
    Step σ (List (Effect σ)) := do
  let ls ← outside (ctx.listeners id event)
  return ls.map (.hear id event old)

/-- Events reach the listeners of the model and then those of the base, if anyone is to hear. -/
def hearing (wanted : Bool) (events : List Event) (old : Option Record) :
    List (Phase (Record × σ) (Effect σ)) :=
  if wanted then
    events.flatMap fun event => m.registries.flatMap fun id =>
      [.each (listening ctx id event old)]
  else []

def casting (wanted force : Bool) : List (Phase (Record × σ) (Effect σ)) :=
  if wanted then (m.casts.map fun (column, rule) => Effect.cast force column rule).map .one else []

/-- A record that has a number already needs none. -/
def unnumbered : Step σ (List (Effect σ)) := do
  return if (← record).id.isTruthy then [] else [.number]

/-- What is done before a new record is announced. -/
def preparing (o : SaveOptions) : List (Phase (Record × σ) (Effect σ)) :=
  [.one .fill, .each unnumbered, .one (.stamp [m.createdAt, m.updatedAt])] ++
    casting m o.cast false

/-- What is done before the change of a record is announced. -/
def updating (o : SaveOptions) : List (Phase (Record × σ) (Effect σ)) :=
  casting m o.cast o.force ++ .only (fun (r, _) => r.isChanged) ::
    if m.updatedAt.isTruthy then [.one (.stamp [m.updatedAt])] else []

/-- The phases up to the one that writes the document. -/
def before (o : SaveOptions) (r : Record) : List (Phase (Record × σ) (Effect σ)) :=
  if r.isNew then preparing m o ++ hearing ctx m o.announce [.creating, .saving] none
  else
    updating m o ++ hearing ctx m o.announce [.updating, .saving] (some (.ofData r.model r.stored))

/-- The step that writes the document. -/
def writing (r : Record) : Effect σ :=
  if r.isNew then .insert else .replace

/-- The phases between writing the document and noting what was written. -/
def after (o : SaveOptions) (r : Record) : List (Phase (Record × σ) (Effect σ)) :=
  if r.isNew then hearing ctx m o.announce [.created, .saved] none
  else hearing ctx m o.announce [.updated, .saved] (some (.ofData r.model r.stored))

/-- What the rules are told of a save. -/
def changeOf (r : Record) : Sync.Change :=
  if r.isNew then .created else .updated (some (.ofData r.model r.stored))

/-- The phases that store a record. -/
def storing (o : SaveOptions) (r : Record) : List (Phase (Record × σ) (Effect σ)) :=
  before ctx m o r ++ .one (writing r) :: after ctx m o r

/-- The rules one after another, in the order of their declaration. -/
def syncing (r : Record) : List (Phase (Record × σ) (Effect σ)) :=
  (m.rules.map fun rule => Effect.sync rule (changeOf r)).map .one

def merging (o : SaveOptions) : List (Phase (Record × σ) (Effect σ)) :=
  if o.changes.isTruthy then [.one (.merge o.changes)] else []

/-- The record with the changes that a save is told of. -/
def merged (o : SaveOptions) (r : Record) : Record :=
  match o.changes.isTruthy, o.changes.entriesFor "items" with
  | true, .ok changes => r.merge changes
  | _, _ => r

/-- All phases of a save. -/
def saving (o : SaveOptions) (r : Record) : List (Phase (Record × σ) (Effect σ)) :=
  .one .require :: (merging o ++ storing ctx m o (merged o r)) ++
    .one .keep :: syncing m (merged o r)

variable {ctx below m} {o : SaveOptions} {r r' : Record} {s s' : σ} {old : Option Record}

/-! ## What steps leave alone -/

section Records

variable {P : Record → Prop}

variable (P) in
theorem preserves_outside_of {α : Type} (act : Action σ α) :
    (outside act).Preserves fun t => P t.1 :=
  Action.Preserves.second act

theorem preserves_modifyData_of {f : Document → Document}
    (h : ∀ r, P r → P { r with data := f r.data }) :
    (modifyData f).Preserves fun t : Record × σ => P t.1 :=
  fun (r, _) hr => h r hr

theorem preserves_stamp_of {column : Value} {time : Calendar.Moment}
    (h : ∀ r, P r → P { r with data := r.data.put column (.moment time) }) :
    (stamp column time).Preserves fun t : Record × σ => P t.1 := by
  unfold stamp
  split
  · exact preserves_modifyData_of h
  · exact .pure ()

theorem preserves_number_of (h : ∀ r v, P r → P { r with data := r.data.putField "id" v }) : (do
    let id ← outside (Finder.nextId ctx m)
    modifyData (·.putField "id" id)).Preserves fun t : Record × σ => P t.1 :=
  (preserves_outside_of P _).bind fun id => preserves_modifyData_of fun r hr => h r id hr

variable (ctx) in
/-- How a column of a record is cast that is due. -/
def castFound (r : Record) (column : String) (rule : CastRule σ) : Step σ Unit := do
  if let some v ← Action.ofExcept (r.data.column? column) then
    let v ← outside (Casting.castContent ctx r column rule v)
    let r' ← Action.ofExcept (r.set column v)
    Action.first (set r')

/-- What the column is set to is put into the record as it was at the start. -/
theorem preserves_castColumn_of {column : String}
    (h : ∀ r v r', r.set column v = .ok r' → P r → P r') (force : Bool) (rule : CastRule σ) :
    (Casting.castColumn ctx force column rule).Preserves fun t => P t.1 := by
  rintro ⟨r, s⟩ hr
  have hfound : (castFound ctx r column rule).Preserves fun t => P t.1 := by
    refine (Action.Preserves.ofExcept _).bind fun found => ?_
    split
    · refine (preserves_outside_of P _).bind fun v => .ofExcept_bind fun r' hset => ?_
      exact fun _ _ => h r v r' hset hr
    · exact .pure ()
  have hdue : ∀ due : Bool,
      (if due then castFound ctx r column rule else return).Preserves fun t => P t.1 := by
    intro due
    split
    · exact hfound
    · exact .pure ()
  cases force with
  | true => exact hdue true (r, s) hr
  | false => exact (Action.Preserves.ofExcept _).bind hdue (r, s) hr

end Records

/-- The record is one of a model and has some data as those last stored. Only listeners and the
end of a save change that. -/
def Stored (name : String) (stored : Document) (t : Record × σ) : Prop :=
  t.1.model = name ∧ t.1.stored = stored

variable {name : String} {stored : Document}

theorem preserves_modifyData (f : Document → Document) :
    (modifyData f).Preserves (Stored name stored : Record × σ → Prop) := fun _ ht => ht

theorem preserves_record : record.Preserves (Stored name stored : Record × σ → Prop) :=
  fun _ ht => ht

theorem preserves_outside {α : Type} (act : Action σ α) :
    (outside act).Preserves (Stored name stored) :=
  preserves_outside_of (fun r => r.model = name ∧ r.stored = stored) act

theorem preserves_castColumn (force : Bool) (column : String) (rule : CastRule σ) :
    (Casting.castColumn ctx force column rule).Preserves (Stored name stored) := by
  refine preserves_castColumn_of (P := fun r => r.model = name ∧ r.stored = stored)
    (fun r v r' hset hr => ?_) force rule
  obtain ⟨d, -, h⟩ := Outcome.bind_eq_ok.1 hset
  cases h
  exact hr

theorem preserves_applyDefaults :
    (applyDefaults m).Preserves (Stored name stored : Record × σ → Prop) := by
  refine preserves_record.bind fun _ => (Action.Preserves.ofExcept _).bind fun _ => ?_
  split
  · exact preserves_modifyData _
  · exact .pure ()

theorem preserves_number : (do
    let id ← outside (Finder.nextId ctx m)
    modifyData (·.putField "id" id)).Preserves (Stored name stored) :=
  preserves_number_of (P := fun r => r.model = name ∧ r.stored = stored) fun _ _ hr => hr

theorem preserves_assignId : (assignId ctx m).Preserves (Stored name stored) := by
  refine preserves_record.bind fun _ => ?_
  split
  · exact preserves_number
  · exact .pure ()

theorem preserves_stamp (column : Value) (time : Calendar.Moment) :
    (stamp column time).Preserves (Stored name stored : Record × σ → Prop) :=
  preserves_stamp_of (P := fun r => r.model = name ∧ r.stored = stored) fun _ hr => hr

theorem Effect.preserves_act (effect : Effect σ)
    (h : ∀ id event old l, effect ≠ .hear id event old l) (hkeep : effect ≠ .keep) :
    (effect.act ctx below m).Preserves (Stored name stored) := by
  cases effect with
  | require => exact preserves_outside _
  | merge changes => exact (Action.Preserves.ofExcept _).bind fun _ => preserves_modifyData _
  | fill => exact preserves_applyDefaults
  | number => exact preserves_number
  | stamp columns =>
    exact (preserves_outside _).bind fun _ => .forM fun _ _ => preserves_stamp _ _
  | cast force column rule => exact preserves_castColumn force column rule
  | hear id event old l => exact absurd rfl (h id event old l)
  | insert => exact preserves_record.bind fun _ => (preserves_outside _).bind fun _ _ ht => ht
  | replace =>
    exact preserves_record.bind fun _ => (Action.Preserves.ofExcept _).bind fun _ =>
      (preserves_outside _).bind fun _ => .pure ()
  | keep => exact absurd rfl hkeep
  | sync rule change => exact preserves_record.bind fun _ => preserves_outside _

/-! ## A save performs its phases -/

variable (ctx below m) in
theorem amount_hearing (wanted : Bool) (events : List Event) (old : Option Record) :
    Phase.Amount (Effect.act ctx below m) (hearing ctx m wanted events old)
      (announceAll ctx wanted m events old) := by
  refine .ite (.flatMap events fun event _ => .flatMap m.registries fun id _ => ?_)
  have heach := Phase.Amount.each (Effect.act ctx below m) (listening ctx id event old)
  simp only [listening, bind_assoc, pure_bind, List.forM_eq_forM, List.forM_map] at heach
  exact heach

variable (ctx m) in
/-- Casts the columns of a record of the model if that is wanted. -/
def castAll (wanted force : Bool) : Step σ Unit :=
  if wanted then m.casts.forM fun (column, rule) => Casting.castColumn ctx force column rule
  else return

variable (ctx below m) in
theorem amount_casting (wanted force : Bool) :
    Phase.Amount (Effect.act ctx below m) (casting m wanted force)
      (castAll ctx m wanted force) := by
  refine .ite ?_
  have hcasts := Phase.Amount.ones (Effect.act ctx below m)
    (m.casts.map fun (column, rule) => Effect.cast force column rule)
  rw [List.forM_eq_forM, List.forM_map] at hcasts
  exact hcasts

theorem preserves_castAll (wanted force : Bool) :
    (castAll ctx m wanted force).Preserves (Stored name stored) := by
  unfold castAll
  split
  · exact .forM fun _ _ => preserves_castColumn _ _ _
  · exact .pure ()

theorem run_castData_bind {α : Type} (hm : ctx.model r.model = m) (wanted force : Bool)
    (next : Unit → Step σ α) (s : σ) :
    (if wanted then Casting.castData ctx force >>= next else next ()).run (r, s) =
      (castAll ctx m wanted force >>= next).run (r, s) := by
  subst hm
  cases wanted <;> rfl

theorem forM_unnumbered :
    (do (← unnumbered).forM (Effect.act ctx below m)) = assignId ctx m := by
  unfold unnumbered assignId
  simp only [bind_assoc, pure_bind]
  refine bind_congr fun r => ?_
  cases r.id.isTruthy <;> simp [Effect.act]

variable (ctx below m) in
theorem amount_preparing (o : SaveOptions) :
    Phase.Amount (Effect.act ctx below m) (preparing m o) (do
      applyDefaults m
      assignId ctx m
      let now ← outside ctx.now
      stamp m.createdAt now
      stamp m.updatedAt now
      castAll ctx m o.cast false) := by
  have hfill := Phase.Amount.one (Effect.act ctx below m) .fill
  have hnumber := Phase.Amount.each (Effect.act ctx below m) unnumbered
  have hstamp := Phase.Amount.one (Effect.act ctx below m)
    (.stamp [m.createdAt, m.updatedAt])
  rw [forM_unnumbered] at hnumber
  have hcasting := amount_casting ctx below m o.cast false
  have hall := ((hfill.append hnumber).append hstamp).append hcasting
  simpa [Effect.act, preparing] using hall

variable (below) in
theorem run_storeNew (hm : ctx.model name = m) (hr : Stored name stored (r, s)) :
    (storeNew ctx m o).run (r, s) = (do
      if ← Phase.perform (Effect.act ctx below m) (preparing m o ++
          hearing ctx m o.announce [.creating, .saving] none ++ .one .insert ::
          hearing ctx m o.announce [.created, .saved] none)
      then return some .created else return none : Step σ (Option Sync.Change)).run (r, s) := by
  have hbefore := amount_hearing ctx below m o.announce [.creating, .saving] none
  have hafter := amount_hearing ctx below m o.announce [.created, .saved] none
  have hphases := ((amount_preparing ctx below m o).append hbefore).append
    ((Phase.Amount.one _ .insert).append hafter)
  rw [List.singleton_append] at hphases
  rw [hphases.perform_bind]
  simp only [Effect.act, bind_assoc]
  refine preserves_applyDefaults.run_bind_congr hr fun _ _ ht => ?_
  refine preserves_assignId.run_bind_congr ht fun _ _ ht => ?_
  refine (preserves_outside _).run_bind_congr ht fun now _ ht => ?_
  refine (preserves_stamp _ _).run_bind_congr ht fun _ _ ht => ?_
  refine (preserves_stamp _ _).run_bind_congr ht fun _ t ht => ?_
  obtain ⟨r, s⟩ := t
  obtain ⟨hname, -⟩ : Stored name stored (r, s) := ht
  exact run_castData_bind (by rw [hname, hm]) o.cast false _ s

theorem run_bind_record {α : Type} (next : Record → Step σ α) (r : Record) (s : σ) :
    (record >>= next).run (r, s) = (next r).run (r, s) := rfl

/-- Finding out that the models have an executor changes nothing. -/
theorem eq_of_requireBound {outcome : Except Error Unit} {t t' : Record × σ}
    (h : (outside (ctx.requireBound m.toSchema)).run t = (outcome, t')) : t' = t := by
  obtain ⟨r, s⟩ := t
  obtain ⟨r', s'⟩ := t'
  obtain ⟨hbound, rfl⟩ := Action.run_second_eq_iff.1 h
  unfold Context.requireBound at hbound
  split at hbound <;> cases hbound <;> rfl

/-- The filter for a record names the identifier of its data. -/
theorem keyFilter_eq_ok {d filter : Document} (h : keyFilter d = .ok filter) :
    ∃ id, (Value.dict d).field "_id" = .ok id ∧ filter = [(.text "_id", id)] := by
  obtain ⟨id, hid, hfilter⟩ := Outcome.bind_eq_ok.1 h
  cases hfilter
  exact ⟨id, hid, rfl⟩

/-- A request for the document of a record asks for the one with the identifier of the record. -/
theorem exists_of_keyed {operation : Document → Operation} {collection : String}
    {t' : Record × σ} (h : (do
      let filter ← Action.ofExcept (keyFilter r.data)
      let _ ← outside (ctx.request collection (operation filter)) : Step σ Unit).run (r, s) =
        (.ok (), t')) :
    ∃ id s' answer, t' = (r, s') ∧ (Value.dict r.data).field "_id" = .ok id ∧
      (ctx.request collection (operation [(.text "_id", id)])).run s = (.ok answer, s') := by
  obtain ⟨filter, ⟨r₁, s₁⟩, hfilter, hrest⟩ := Action.run_bind_eq_ok.1 h
  obtain ⟨answer, ⟨r₂, s₂⟩, hrequest, hdone⟩ := Action.run_bind_eq_ok.1 hrest
  cases hdone
  obtain ⟨hkey, hstate⟩ := Prod.mk.inj hfilter
  cases hstate
  obtain ⟨id, hid, rfl⟩ := keyFilter_eq_ok hkey
  obtain ⟨hanswer, rfl⟩ := Action.run_second_eq_iff.1 hrequest
  exact ⟨id, s₂, answer, rfl, hid, hanswer⟩

variable (ctx below m) in
theorem amount_stampUpdated :
    Phase.Amount (Effect.act ctx below m)
      (if m.updatedAt.isTruthy then [.one (.stamp [m.updatedAt])] else [])
      (if m.updatedAt.isTruthy then (outside ctx.now >>= stamp m.updatedAt) else return) := by
  refine .ite ?_
  have hstamp := Phase.Amount.one (Effect.act ctx below m) (.stamp [m.updatedAt])
  simpa [Effect.act] using hstamp

variable (below) in
theorem run_storeChanged (hm : ctx.model r.model = m) (s : σ) :
    (storeChanged ctx m o).run (r, s) = (do
      if ← Phase.perform (Effect.act ctx below m) (updating m o ++
          hearing ctx m o.announce [.updating, .saving] (some (.ofData r.model r.stored)) ++
          .one .replace ::
          hearing ctx m o.announce [.updated, .saved] (some (.ofData r.model r.stored)))
      then return some (.updated (some (.ofData r.model r.stored))) else return none :
        Step σ (Option Sync.Change)).run (r, s) := by
  have hbefore := amount_hearing ctx below m o.announce [.updating, .saving]
    (some (.ofData r.model r.stored))
  have hafter := amount_hearing ctx below m o.announce [.updated, .saved]
    (some (.ofData r.model r.stored))
  have hchanged := (amount_stampUpdated ctx below m).append
    (hbefore.append ((Phase.Amount.one _ .replace).append hafter))
  rw [List.singleton_append] at hchanged
  unfold storeChanged updating
  rw [List.append_assoc, List.append_assoc, amount_casting ctx below m, bind_assoc,
    List.cons_append]
  refine (run_castData_bind hm o.cast o.force _ s).trans ?_
  refine (preserves_castAll _ _).run_bind_congr (P := Stored r.model r.stored) ⟨rfl, rfl⟩ ?_
  rintro ⟨⟩ ⟨r₁, s₁⟩ ⟨hname, hstored⟩
  rw [Phase.perform, bind_assoc, Action.run_bind_ok (Action.run_get _), run_bind_record]
  simp only at hname hstored ⊢
  by_cases hdiffers : r₁.isChanged = true
  · rw [if_neg (by simp [hdiffers]), if_pos hdiffers, hchanged.perform_bind, hname, hstored]
    cases m.updatedAt.isTruthy <;> simp [Effect.act]
  · rw [if_pos (by simp [hdiffers]), if_neg hdiffers]
    rfl

variable (below) in
theorem run_storing (hm : ctx.model r.model = m) (s : σ) :
    (if r.isNew then storeNew ctx m o else storeChanged ctx m o).run (r, s) = (do
      if ← Phase.perform (Effect.act ctx below m) (storing ctx m o r)
      then return some (changeOf r) else return none : Step σ (Option Sync.Change)).run (r, s) := by
  unfold storing before writing after changeOf
  by_cases hnew : r.isNew = true
  · simp only [if_pos hnew]
    exact run_storeNew below hm ⟨rfl, rfl⟩
  · simp only [if_neg hnew]
    exact run_storeChanged below hm s

variable (below) in
theorem run_store (hm : ctx.model r.model = m) (s : σ) :
    (store ctx m o).run (r, s) = (do
      if ← Phase.perform (Effect.act ctx below m) (merging o ++ storing ctx m o (merged o r))
      then return some (changeOf (merged o r)) else return none :
        Step σ (Option Sync.Change)).run (r, s) := by
  unfold store merging merged
  cases htruthy : o.changes.isTruthy with
  | false => exact run_storing below hm s
  | true =>
    cases hentries : o.changes.entriesFor "items" with
    | error e =>
      simp only [if_true, List.singleton_append, Phase.perform, Effect.act, hentries]
      rfl
    | ok d =>
      simp only [if_true, List.singleton_append, Phase.perform, Effect.act, hentries]
      exact run_storing below (r := r.merge d) hm s

variable (ctx) in
/-- How a save ends when its phases end as they do: a failure of storing is logged before it goes
on. -/
def Ends (course : Except Error Bool × Record × σ) (result : Except Error Unit × Record × σ) :
    Prop :=
  match course with
  | (.ok _, t) => result = (.ok (), t)
  | (.error e, r, s) => ∃ s', result = (.error e, r, s') ∧
    (s' = s ∨ ∃ entry, (ctx.log entry).run s = (.ok (), s'))

/-- What is done outside of a record one after another is done with the same record. -/
theorem forM_record_outside {γ : Type} (f : γ → Record → Action σ Unit) (l : List γ) :
    (l.forM fun x => do outside (f x (← record))) =
      (do let r ← record; l.forM fun x => outside (f x r)) := by
  ext t : 2
  obtain ⟨r, s⟩ := t
  rw [run_bind_record]
  induction l generalizing s with
  | nil => rfl
  | cons x l ih =>
    have houtside : (outside (f x r)).Preserves fun t => t.1 = r :=
      Action.Preserves.second (Q := fun r' : Record => r' = r) _
    refine houtside.run_bind_congr rfl ?_
    rintro ⟨⟩ ⟨_, s₁⟩ rfl
    exact ih s₁

variable (ctx below m) in
theorem amount_finishing (r : Record) :
    Phase.Amount (Effect.act ctx below m) (.one .keep :: syncing m r) (do
      modify fun (r, s) => ({ r with stored := r.data }, s)
      syncSaved ctx below m (changeOf r)) := by
  have hkeep := Phase.Amount.one (Effect.act ctx below m) .keep
  have hsync := Phase.Amount.ones (Effect.act ctx below m)
    (m.rules.map fun rule => Effect.sync rule (changeOf r))
  have hrules := forM_record_outside
    (fun rule r' => Sync.onSave ctx below rule r' (changeOf r)) m.rules
  rw [List.forM_eq_forM, List.forM_map] at hsync
  simp only [Effect.act] at hsync hkeep
  rw [List.forM_eq_forM] at hrules
  rw [hrules] at hsync
  exact hkeep.append hsync

theorem ends_logged {α : Type} (task : String) {act : Step σ α} {e : Error}
    (hlog : ∀ entry s, ∃ s', (ctx.log entry).run s = (.ok (), s'))
    (h : act.run (r, s) = (.error e, r', s')) :
    ∃ s₁, (logged ctx m task act).run (r, s) = (.error e, r', s₁) ∧
      ∃ entry, (ctx.log entry).run s' = (.ok (), s₁) := by
  obtain ⟨s₁, hentry⟩ := hlog
    ⟨logger, .error, "Error in " ++ m.name ++ "." ++ task ++ "(): " ++ e.message⟩ s'
  refine ⟨s₁, ?_, _, hentry⟩
  rw [logged, Action.run_tryCatch_error h]
  exact Action.run_bind_ok (Action.run_second hentry r')

theorem run_logged_ok {α : Type} {task : String} {act : Step σ α} {a : α} {t t' : Record × σ}
    (h : act.run t = (.ok a, t')) : (logged ctx m task act).run t = (.ok a, t') :=
  Action.run_tryCatch_ok h

variable (below) in
theorem ends_save (hlog : ∀ entry s, ∃ s', (ctx.log entry).run s = (.ok (), s'))
    (hm : ctx.model r.model = m) (s : σ) :
    Ends ctx ((Phase.perform (Effect.act ctx below m) (saving ctx m o r)).run (r, s))
      ((save ctx below o).run (r, s)) := by
  unfold save saving
  rw [run_bind_record, hm, List.cons_append, Phase.perform, Phase.perform_append,
    (amount_finishing ctx below m _).perform_eq]
  rcases hrequire : (ctx.requireBound m.toSchema).run s with ⟨e | ⟨⟩, s₁⟩
  · have hbound : (outside (ctx.requireBound m.toSchema)).run (r, s) = (.error e, r, s₁) :=
      Action.run_second hrequire r
    rw [Effect.act, Action.run_bind_error hbound, Action.run_bind_error hbound]
    exact ⟨s₁, rfl, .inl rfl⟩
  have hbound : (outside (ctx.requireBound m.toSchema)).run (r, s) = (.ok (), r, s₁) :=
    Action.run_second hrequire r
  rw [Effect.act, Action.run_bind_ok hbound, Action.run_bind_ok hbound]
  have hstore := run_store below (o := o) hm s₁
  rcases hcourse : (Phase.perform (Effect.act ctx below m)
      (merging o ++ storing ctx m o (merged o r))).run (r, s₁) with ⟨e | done, t⟩
  · rw [Action.run_bind_error hcourse] at hstore ⊢
    obtain ⟨s', hlogged, hentry⟩ := ends_logged "save" hlog hstore
    rw [Action.run_bind_error hlogged]
    exact ⟨s', rfl, .inr hentry⟩
  · rw [Action.run_bind_ok hcourse] at hstore ⊢
    cases done with
    | false => rw [Action.run_bind_ok (run_logged_ok hstore)]; rfl
    | true =>
      rw [Action.run_bind_ok (run_logged_ok hstore), if_pos rfl]
      rcases hfinish : (do
        modify fun (r, s) => ({ r with stored := r.data }, s)
        syncSaved ctx below m (changeOf (merged o r)) : Step σ Unit).run t with ⟨e | ⟨⟩, t'⟩
      · rw [Action.run_bind_error hfinish]
        exact ⟨t'.2, hfinish, .inl rfl⟩
      · rw [Action.run_bind_ok hfinish]
        exact hfinish

/-! ## The order of the steps -/

/-- When the listeners of an event hear of it: before a document is written or after that. -/
def eventStage : Event → Nat
  | .creating | .updating | .deleting | .fetching => 3
  | .saving => 4
  | .created | .updated | .deleted => 6
  | .saved => 7

namespace Effect

/-- The stages that a save goes through. -/
def stage : Effect σ → Nat
  | require => 0
  | merge _ => 1
  | fill | number | stamp _ | cast _ _ _ => 2
  | hear _ event _ _ => eventStage event
  | insert | replace => 5
  | keep => 8
  | sync _ _ => 9

/-- Whether a step tells a listener. -/
def Tells : Effect σ → Prop
  | hear _ _ _ _ => True
  | _ => False

end Effect

variable {P : Effect σ → Prop} {wanted : Bool} {events : List Event}

theorem all_hearing
    (h : wanted = true → ∀ event ∈ events, ∀ id ∈ m.registries, ∀ l, P (.hear id event old l)) :
    ∀ phase ∈ hearing ctx m wanted events old, phase.All P := by
  intro phase hmem
  unfold hearing at hmem
  split at hmem
  · next hwanted =>
    simp only [List.mem_flatMap, List.mem_singleton] at hmem
    obtain ⟨event, hevent, id, hid, rfl⟩ := hmem
    rintro ⟨r, s⟩ found t' hfound step hstep
    obtain ⟨ls, t₁, -, hls⟩ := Action.run_bind_eq_ok.1 hfound
    cases hls
    obtain ⟨l, -, rfl⟩ := List.mem_map.1 hstep
    exact h hwanted event hevent id hid l
  · cases hmem

theorem all_casting {force : Bool} (h : ∀ column rule, P (.cast force column rule)) :
    ∀ phase ∈ casting m wanted force, phase.All P := by
  intro phase hmem
  unfold casting at hmem
  split at hmem
  · simp only [List.map_map, List.mem_map] at hmem
    obtain ⟨⟨column, rule⟩, -, rfl⟩ := hmem
    exact h column rule
  · cases hmem

/-- Listeners of the two events hear of them one event after the other. -/
theorem ordered_hearing (first second : Event) (h : eventStage second = eventStage first + 1) :
    Phase.Ordered Effect.stage (eventStage first) (eventStage first + 2)
      (hearing ctx m wanted [first, second] old) := by
  have hone : ∀ event, Phase.Ordered Effect.stage (eventStage event) (eventStage event + 1)
      (hearing ctx m wanted [event] old) := fun event =>
    .of_all <| all_hearing fun _ event' hmem _ _ _ => by rw [List.mem_singleton.1 hmem]; rfl
  have hboth : hearing ctx m wanted [first, second] old =
      hearing ctx m wanted [first] old ++ hearing ctx m wanted [second] old := by
    unfold hearing
    cases wanted <;> simp
  rw [hboth]
  have hsecond := hone second
  rw [h] at hsecond
  exact (hone first).append hsecond

theorem ordered_preparing : Phase.Ordered Effect.stage 2 3 (preparing m o) := by
  refine .of_all ?_
  unfold preparing
  rw [List.forall_mem_append]
  refine ⟨?_, all_casting fun _ _ => rfl⟩
  simp only [List.forall_mem_cons, Phase.All]
  refine ⟨rfl, fun t found t' hfound step hstep => ?_, rfl, List.forall_mem_nil _⟩
  obtain ⟨r, t₁, -, hnumber⟩ := Action.run_bind_eq_ok.1 hfound
  cases hnumber
  split at hstep
  · cases hstep
  · rw [List.mem_singleton.1 hstep]
    rfl

theorem ordered_updating : Phase.Ordered Effect.stage 2 3 (updating m o) := by
  refine .of_all ?_
  unfold updating
  rw [List.forall_mem_append, List.forall_mem_cons]
  refine ⟨all_casting fun _ _ => rfl, trivial, ?_⟩
  split
  · simp only [List.forall_mem_singleton, Phase.All, Effect.stage]
  · exact List.forall_mem_nil _

theorem ordered_before : Phase.Ordered Effect.stage 2 5 (before ctx m o r) := by
  unfold before
  split
  · exact ordered_preparing.append (ordered_hearing .creating .saving rfl)
  · exact ordered_updating.append (ordered_hearing .updating .saving rfl)

theorem ordered_after : Phase.Ordered Effect.stage 6 8 (after ctx m o r) := by
  unfold after
  split
  · exact ordered_hearing .created .saved rfl
  · exact ordered_hearing .updated .saved rfl

theorem ordered_merging :
    Phase.Ordered Effect.stage 1 2 (merging o : List (Phase (Record × σ) (Effect σ))) := by
  unfold merging
  split
  · exact .one (Effect.merge o.changes)
  · exact .nil (by decide)

theorem ordered_writing :
    Phase.Ordered Effect.stage 5 6 ([.one (writing r)] : List (Phase (Record × σ) (Effect σ))) := by
  unfold writing
  split
  · exact .one Effect.insert
  · exact .one Effect.replace

theorem ordered_syncing : Phase.Ordered Effect.stage 9 10 (syncing m r) :=
  .of_all <| by simp [syncing, Phase.All, Effect.stage]

theorem ordered_storing : Phase.Ordered Effect.stage 2 8 (storing ctx m o r) :=
  Phase.Ordered.append ordered_before (Phase.Ordered.append ordered_writing ordered_after)

theorem ordered_finishing : Phase.Ordered Effect.stage 8 10 (.one .keep :: syncing m r) :=
  Phase.Ordered.append (.one Effect.keep) ordered_syncing

theorem ordered_stored :
    Phase.Ordered Effect.stage 0 8 (.one .require :: (merging o ++ storing ctx m o r)) :=
  Phase.Ordered.append (.one Effect.require) (ordered_merging.append ordered_storing)

/-- A save goes through its stages in order. -/
theorem ordered_saving : Phase.Ordered Effect.stage 0 10 (saving ctx m o r) :=
  Phase.Ordered.append ordered_stored ordered_finishing

variable {steps whole : List (Effect σ)} {ending : Ending} {t t' : Record × σ}

theorem Effect.tells_iff {step : Effect σ} :
    step.Tells ↔ step.stage ∈ [3, 4, 6, 7] := by
  cases step with
  | hear id event old l => cases event <;> simp [Effect.Tells, Effect.stage, eventStage]
  | _ => simp [Effect.Tells, Effect.stage]

theorem hearing_silent : hearing ctx m false events old = [] := rfl

theorem ordered_before_silent (h : o.announce = false) :
    Phase.Ordered Effect.stage 2 3 (before ctx m o r) := by
  unfold before
  rw [h, hearing_silent, hearing_silent, List.append_nil, List.append_nil]
  split
  · exact ordered_preparing
  · exact ordered_updating

theorem after_silent (h : o.announce = false) : after ctx m o r = [] := by
  unfold after
  rw [h, hearing_silent, hearing_silent, ite_self]

/-- What a full course of a save looks like: between the first steps and the one that writes, and
between that and the last steps, stand steps of the stages in between. -/
theorem exists_of_full_saving (h : Phase.Full (saving ctx m o r) whole) :
    ∃ early late, whole = .require :: early ++ writing (merged o r) :: late ++
        .keep :: m.rules.map (.sync · (changeOf (merged o r))) ∧
      (∀ step ∈ early, 1 ≤ step.stage ∧ step.stage < 5) ∧
      (∀ step ∈ late, 6 ≤ step.stage ∧ step.stage < 8) ∧
      (o.announce = false → (∀ step ∈ early, ¬ step.Tells) ∧ late = []) := by
  obtain ⟨stored, finished, rfl, hstored, hfinished⟩ := Phase.Full.append_iff.1 h
  obtain _ | hstored := hstored
  obtain ⟨merge, stored, rfl, hmerge, hstored⟩ := Phase.Full.append_iff.1 hstored
  obtain ⟨early, written, rfl, hearly, hwritten⟩ := Phase.Full.append_iff.1 hstored
  obtain _ | hlate := hwritten
  obtain _ | hrules := hfinished
  have hmerging := (ordered_merging.2 _ hmerge).2
  refine ⟨merge ++ early, _, ?_, ?_, (ordered_after.2 _ hlate).2, fun hsilent => ⟨?_, ?_⟩⟩
  · rw [hrules.of_ones]
    simp
  · have hbefore := (ordered_before.2 _ hearly).2
    rw [List.forall_mem_append]
    constructor
    · intro step hmem
      have := hmerging step hmem
      omega
    · intro step hmem
      have := hbefore step hmem
      omega
  · have hbefore := ((ordered_before_silent hsilent).2 _ hearly).2
    rw [List.forall_mem_append]
    constructor
    · intro step hmem
      have := hmerging step hmem
      simp [Effect.tells_iff]
      omega
    · intro step hmem
      have := hbefore step hmem
      simp [Effect.tells_iff]
      omega
  · rw [after_silent hsilent] at hlate
    cases hlate
    rfl

theorem preserves_stored (step : Effect σ) (hkeep : step ≠ .keep)
    (hlisteners : ∀ id event old l, step = .hear id event old l →
      (l.onRecord old).Preserves fun t => t.1.stored = stored) :
    (step.act ctx below m).Preserves fun t => t.1.stored = stored := by
  by_cases hhear : ∃ id event old l, step = .hear id event old l
  · obtain ⟨id, event, old, l, rfl⟩ := hhear
    exact hlisteners id event old l rfl
  · intro t ht
    have hact : (step.act ctx below m).Preserves (Stored t.1.model stored) :=
      step.preserves_act (fun id event old l h => hhear ⟨id, event, old, l, h⟩) hkeep
    exact (hact t ⟨rfl, ht⟩).2

/-- Noting what was stored and going through the rules. -/
theorem of_follows_finishing
    (h : Phase.Follows (Effect.act ctx below m) (.one .keep :: syncing m r) t steps ending t') :
    t'.1 = { t.1 with stored := t.1.data } := by
  cases h with
  | one hkeep h =>
    cases hkeep
    obtain ⟨whole, hfull, hinitial, -⟩ := h.exists_full
    refine h.preserves (P := fun u => u.1 = { t.1 with stored := t.1.data }) ?_ ?_ rfl
    · intro step hmem
      have hmem := hinitial.subset hmem
      rw [hfull.of_ones] at hmem
      obtain ⟨rule, -, rfl⟩ := List.mem_map.1 hmem
      have hrecord : record.Preserves fun u : Record × σ => u.1 = { t.1 with stored := t.1.data } :=
        fun _ hu => hu
      exact hrecord.bind fun _ => Action.Preserves.second (Q := (· = _)) _
    · intro find hmem
      simp [syncing] at hmem
  | fail hkeep => cases hkeep

theorem each_mem_hearing {find : Step σ (List (Effect σ))}
    (h : .each find ∈ hearing ctx m wanted events old) :
    ∃ id event, find = listening ctx id event old := by
  unfold hearing at h
  split at h
  · simp only [List.mem_flatMap, List.mem_singleton, Phase.each.injEq] at h
    obtain ⟨event, -, id, -, rfl⟩ := h
    exact ⟨id, event, rfl⟩
  · cases h

theorem each_mem_saving {find : Step σ (List (Effect σ))} (h : .each find ∈ saving ctx m o r) :
    find = unnumbered ∨ ∃ id event old, find = listening ctx id event old := by
  have hcasting : ∀ wanted force, .each find ∉ casting m wanted force := by
    intro wanted force
    cases wanted <;> simp [casting]
  have hhearing : ∀ {events old}, .each find ∈ hearing ctx m o.announce events old →
      ∃ id event old, find = listening ctx id event old := by
    intro events old h
    obtain ⟨id, event, hfind⟩ := each_mem_hearing h
    exact ⟨id, event, old, hfind⟩
  unfold saving storing before after merging preparing updating syncing at h
  by_cases hnew : (merged o r).isNew = true
  · simp [hnew, hcasting] at h
    obtain h | h | h := h
    · exact .inl h
    · exact .inr (hhearing h)
    · exact .inr (hhearing h)
  · simp [hnew, hcasting] at h
    obtain h | h := h
    · exact .inr (hhearing h)
    · exact .inr (hhearing h)

theorem preserves_finds {find : Step σ (List (Effect σ))} (h : .each find ∈ saving ctx m o r) :
    find.Preserves fun t => t.1.stored = stored := by
  obtain rfl | ⟨id, event, old, rfl⟩ := each_mem_saving h
  · exact fun _ ht => ht
  · exact (Action.Preserves.second (Q := fun r : Record => r.stored = stored) _).bind
      fun _ => .pure _

/-- The snapshot of a record that is saved is its data if the save came to note them. Before that
only listeners may change it. -/
theorem stored_of_follows
    (h : Phase.Follows (Effect.act ctx below m) (saving ctx m o r) (r, s) steps ending t) :
    (.keep ∈ steps → t.1.stored = t.1.data) ∧
    (.keep ∉ steps →
      (∀ id event old l, .hear id event old l ∈ steps →
        (l.onRecord old).Preserves fun t => t.1.stored = r.stored) →
      t.1.stored = r.stored) := by
  constructor
  · intro hkeep
    obtain ⟨hfirst, -⟩ | ⟨first, last, t₁, rfl, hfirst, hlast⟩ := h.append
    · obtain ⟨whole, hfull, hinitial, -⟩ := hfirst.exists_full
      have hstage := (ordered_stored.2 _ hfull).2 _ (hinitial.subset hkeep)
      exact absurd hstage.2 (lt_irrefl 8)
    · rw [of_follows_finishing hlast]
  · intro hkeep hlisteners
    refine h.preserves (P := fun t => t.1.stored = r.stored) (fun step hmem => ?_)
      (fun find hmem => preserves_finds hmem) rfl
    refine preserves_stored step (fun heq => hkeep (heq ▸ hmem)) fun id event old l heq => ?_
    exact hlisteners id event old l (heq ▸ hmem)

variable (m) in
/-- The phases after which a stored record is compared with what was stored. -/
def comparing (o : SaveOptions) : List (Phase (Record × σ) (Effect σ)) :=
  .one .require :: (merging o ++ casting m o.cast o.force)

/-- A stored record that is as it was stored when it is compared is left like that. -/
theorem follows_saving_unchanged {first : List (Effect σ)} {t₁ : Record × σ}
    (hnew : (merged o r).isNew = false)
    (h : Phase.Follows (Effect.act ctx below m) (comparing m o) (r, s) first .finished t₁)
    (hunchanged : t₁.1.isChanged = false) :
    Phase.Follows (Effect.act ctx below m) (saving ctx m o r) (r, s) first .stopped t₁ := by
  have hphases : saving ctx m o r = comparing m o ++ .only (fun (r, _) => r.isChanged) ::
      ((if m.updatedAt.isTruthy then [.one (.stamp [m.updatedAt])] else []) ++
        hearing ctx m o.announce [.updating, .saving]
          (some (.ofData (merged o r).model (merged o r).stored)) ++
        .one (writing (merged o r)) :: after ctx m o (merged o r) ++
        .one .keep :: syncing m (merged o r)) := by
    simp [saving, comparing, storing, before, updating, hnew]
  rw [hphases, ← List.append_nil first]
  exact h.trans (.stop hunchanged)

variable (ctx m) in
/-- The steps of a save that ends so are the first ones of a whole course, and all of it if the
save came to its end. In a whole course there is one step that writes, between those that come
before it and those that come after it, and the rules come last. -/
def Orderly (o : SaveOptions) (r : Record) (steps : List (Effect σ)) (ending : Ending) : Prop :=
  ∃ early late whole, whole = .require :: early ++ writing (merged o r) :: late ++
      .keep :: m.rules.map (.sync · (changeOf (merged o r))) ∧
    steps <+: whole ∧ (ending = .finished → steps = whole) ∧
    whole.Pairwise (fun a b => a.stage ≤ b.stage) ∧
    (∀ step ∈ early, step.stage < 5) ∧ (∀ step ∈ late, 5 < step.stage ∧ step.stage < 8) ∧
    (o.announce = false → (∀ step ∈ early, ¬ step.Tells) ∧ late = [])

theorem orderly_of_follows
    (h : Phase.Follows (Effect.act ctx below m) (saving ctx m o r) (r, s) steps ending t) :
    Orderly m o r steps ending := by
  obtain ⟨whole, hfull, hinitial, hall⟩ := h.exists_full
  obtain ⟨early, late, hwhole, hearly, hlate, hsilent⟩ := exists_of_full_saving hfull
  refine ⟨early, late, whole, hwhole, hinitial, hall, (ordered_saving.2 _ hfull).1, ?_, ?_, hsilent⟩
  · exact fun step hmem => (hearly step hmem).2
  · intro step hmem
    have := hlate step hmem
    omega

end DocumentMapper.Lifecycle
