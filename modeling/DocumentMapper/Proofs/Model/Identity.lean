import DocumentMapper.Proofs.Document.Frame
import DocumentMapper.Proofs.Model.SaveCourse

/-!
# What leaves the identity of a record alone

Edits and the steps of a save are gathered here as deeds. A deed may touch a field of the data of a
record, as an edit of that column does, and listeners may do anything. Every other deed leaves the
field as it is, whether it succeeds or fails.

A record has an identifier of the database or none yet, and it may be marked as restored. A deed
that does not name the identifier leaves the identity as it is; only an insertion gives the record a
new one.
-/

namespace DocumentMapper

namespace Lifecycle

variable {σ : Type}

/-- What callers do with the data of a record between saving it. -/
inductive Edit where
  | set (column : String) (v : Value)
  | unset (column : String)
  | merge (d : Document)
  | replaceWith (d : Document)

def Edit.apply : Edit → Record → Except Error Record
  | set column v, r => r.set column v
  | unset column, r => r.unset column
  | merge d, r => .ok (r.merge d)
  | replaceWith d, r => .ok (r.replaceWith d)

inductive Deed (σ : Type) where
  | edit (e : Edit)
  /-- A step of a save of a record of the model. -/
  | effect (m : Model σ) (e : Effect σ)

def Edit.act (e : Edit) : Step σ Unit := do
  let r ← Action.ofExcept (e.apply (← record))
  modify fun (_, s) => (r, s)

def Deed.act (ctx : Context σ) (below : Cascade σ) : Deed σ → Step σ Unit
  | edit e => e.act
  | effect m e => e.act ctx below m

/-- Whether a column is the identifier or lies below it. -/
def Heads (column : String) : Prop :=
  (Path.ofText column).head? = some "_id"

/-- Whether an edit names the identifier. Replacing the data does if they bring their own. -/
def Edit.Names : Edit → Prop
  | set column _ | unset column => Heads column
  | merge d => ∃ e ∈ d, e.1 = .text "_id"
  | replaceWith d => (d.fieldOrNull "_id").isTruthy = true

/-- Whether a step of a save names the identifier; listeners may. Where an entry of the data hides
behind another one with the same key, filling in defaults brings it to light. -/
def Effect.Names (m : Model σ) (r : Record) : Effect σ → Prop
  | merge changes => ∃ d, changes.entriesFor "items" = .ok d ∧ ∃ e ∈ d, e.1 = .text "_id"
  | fill => (∃ e ∈ m.defaults, e.1 = "_id") ∨ ¬ r.data.Distinct
  | stamp columns => .text "_id" ∈ columns
  | cast _ column _ => Heads column
  | hear .. => True
  | require | number | insert | replace | keep | sync .. => False

/-- Whether a deed that is done to a record names the identifier. -/
def Deed.Names (r : Record) : Deed σ → Prop
  | edit e => e.Names
  | effect m e => e.Names m r

/-- Whether a column is a field of the data or lies below it. -/
def Below (field column : String) : Prop :=
  (Path.ofText column).head? = some field

/-- Whether an edit may write to a field of the data. -/
def Edit.Touches (field : String) : Edit → Prop
  | set column _ | unset column => Below field column
  | merge d => ∃ e ∈ d, e.1 = .text field
  | replaceWith _ => True

/-- Whether a step of a save may write to a field of the data of a record. -/
def Effect.Touches (field : String) (m : Model σ) (r : Record) : Effect σ → Prop
  | merge changes => ∃ d, changes.entriesFor "items" = .ok d ∧ ∃ e ∈ d, e.1 = .text field
  | fill => (∃ e ∈ m.defaults, e.1 = field) ∨ ¬ r.data.Distinct
  | number => field = "id"
  | stamp columns => .text field ∈ columns
  | cast _ column _ => Below field column
  | hear .. => True
  | insert => field = "_id"
  | require | replace | keep | sync .. => False

/-- Whether a deed that is done to a record may write to a field of its data. -/
def Deed.Touches (field : String) (r : Record) : Deed σ → Prop
  | edit e => e.Touches field
  | effect m e => e.Touches field m r

end Lifecycle

/-- A record has the identifier of another one, or neither of them has one, and is not marked as
restored unless that one is. -/
def Record.Keeps (r r' : Record) : Prop :=
  (r'.key = r.key ∨ r.key.isTruthy = false ∧ r'.key.isTruthy = false) ∧
    (r'.restored = true → r.restored = true)

theorem Record.keeps_of_eq {r r' : Record} (hdata : r'.data.field? "_id" = r.data.field? "_id")
    (hrestored : r'.restored = r.restored) : r.Keeps r' := by
  refine ⟨.inl ?_, fun h => hrestored ▸ h⟩
  rw [key, key, Document.fieldOrNull, Document.fieldOrNull, hdata]

theorem Record.keeps_refl (r : Record) : r.Keeps r :=
  keeps_of_eq rfl rfl

namespace Lifecycle

variable {σ : Type} {ctx : Context σ} {below : Cascade σ} {m : Model σ} {o : SaveOptions}
  {r r' : Record} {s s' : σ} {t t' : Record × σ} {outcome : Except Error Unit} {field : String}

theorem position?_id : Path.position? "_id" = none := rfl

/-! ## Edits -/

/-- The record has the field of another one and is marked as restored like it. -/
def Bears (field : String) (r r' : Record) : Prop :=
  r'.data.field? field = r.data.field? field ∧ r'.restored = r.restored

theorem Bears.refl (field : String) (r : Record) : Bears field r r :=
  ⟨rfl, rfl⟩

theorem Bears.of_field? {d : Document} (h : Bears field r r')
    (hd : d.field? field = r'.data.field? field) : Bears field r { r' with data := d } :=
  ⟨hd.trans h.1, h.2⟩

theorem Bears.keeps (h : Bears "_id" r r') : r.Keeps r' :=
  Record.keeps_of_eq h.1 h.2

theorem bears_set {column : String} {v : Value} (hfield : Path.position? field = none)
    (hcolumn : ¬ Below field column) (h : r.set column v = .ok r') : Bears field r r' := by
  obtain ⟨d, hd, hr'⟩ := Outcome.bind_eq_ok.1 h
  cases hr'
  exact ⟨Document.field?_of_putColumn hd hcolumn hfield, rfl⟩

theorem Edit.bears_apply {e : Edit} (hfield : Path.position? field = none)
    (htouches : ¬ e.Touches field) (h : e.apply r = .ok r') : Bears field r r' := by
  cases e with
  | set column v => exact bears_set hfield htouches h
  | unset column =>
    obtain ⟨d, hd, hr'⟩ := Outcome.bind_eq_ok.1 h
    cases hr'
    exact ⟨Document.field?_of_eraseColumn hd htouches hfield, rfl⟩
  | merge d =>
    cases h
    have hothers : ∀ e ∈ d, e.1 ≠ .text field := fun e he heq => htouches ⟨e, he, heq⟩
    exact ⟨Document.field?_merge_of_ne hothers r.data, rfl⟩
  | replaceWith d => exact absurd trivial htouches

theorem keeps_replaceWith {d : Document} (hd : (d.fieldOrNull "_id").isTruthy = false) :
    r.Keeps (r.replaceWith d) := by
  refine ⟨?_, id⟩
  have hid : (Record.keepIdentity r.data d "id").fieldOrNull "_id" = d.fieldOrNull "_id" := by
    simp only [Record.keepIdentity]
    split
    · rfl
    · exact Document.fieldOrNull_putField_of_ne (by decide)
  have hkey : (r.replaceWith d).key =
      (Record.keepIdentity r.data (Record.keepIdentity r.data d "id") "_id").fieldOrNull "_id" := rfl
  rw [hkey]
  cases hold : (r.data.fieldOrNull "_id").isTruthy with
  | true =>
    left
    rw [Record.keepIdentity, if_neg (by simp [hid, hd, hold]), Document.fieldOrNull_putField_self]
    rfl
  | false =>
    right
    rw [Record.keepIdentity, if_pos (by simp [hold]), hid]
    exact ⟨hold, hd⟩

theorem Edit.keeps_apply {e : Edit} (hnames : ¬ e.Names) (h : e.apply r = .ok r') :
    r.Keeps r' := by
  cases e with
  | set column v => exact (bears_apply (e := .set column v) position?_id hnames h).keeps
  | unset column => exact (bears_apply (e := .unset column) position?_id hnames h).keeps
  | merge d => exact (bears_apply (e := .merge d) position?_id hnames h).keeps
  | replaceWith d =>
    cases h
    exact keeps_replaceWith (Bool.eq_false_iff.2 hnames)

/-- An edit that fails leaves the record as it is. -/
theorem Edit.act_cases {e : Edit} (h : e.act.run t = (outcome, t')) :
    t'.1 = t.1 ∨ e.apply t.1 = .ok t'.1 := by
  obtain ⟨r, s⟩ := t
  unfold Edit.act at h
  rw [run_bind_record] at h
  cases happly : e.apply r with
  | error e =>
    rw [happly] at h
    cases h
    exact .inl rfl
  | ok r' =>
    rw [happly] at h
    cases h
    exact .inr rfl

/-! ## Writes -/

theorem run_outside {α : Type} {act : Action σ α} {outcome : Except Error α}
    (h : act.run s = (outcome, s')) (r : Record) :
    (outside act).run (r, s) = (outcome, r, s') :=
  Action.run_second h r

/-- An insertion that fails leaves the record as it is, and one that succeeds gives it the
identifier that the database answered. -/
theorem insert_cases (h : (Effect.insert.act ctx below m).run t = (outcome, t')) :
    (∃ e, (ctx.request m.collection (.insertOne t.1.data)).run t.2 = (.error e, t'.2) ∧
      t'.1 = t.1) ∨
    ∃ key, (ctx.request m.collection (.insertOne t.1.data)).run t.2 = (.ok key, t'.2) ∧
      t'.1 = { t.1 with data := t.1.data.putField "_id" key, restored := false } := by
  obtain ⟨r, s⟩ := t
  simp only [Effect.act] at h
  rw [run_bind_record] at h
  rcases hrequest : (ctx.request m.collection (.insertOne r.data)).run s with ⟨e | key, s₁⟩
  · rw [Action.run_bind_error (run_outside hrequest r)] at h
    cases h
    exact .inl ⟨e, rfl, rfl⟩
  · rw [Action.run_bind_ok (run_outside hrequest r)] at h
    cases h
    exact .inr ⟨key, rfl, rfl⟩

/-- A stored record is replaced by its identifier. -/
theorem exists_replace {key : Value} (hkey : t.1.key = key) (htruthy : key.isTruthy = true)
    (h : (Effect.replace.act ctx below m).run t = (outcome, t')) :
    ∃ answer, (ctx.request m.collection
      (.replaceOne [(.text "_id", key)] t.1.data false)).run t.2 = (answer, t'.2) := by
  obtain ⟨r, s⟩ := t
  have hnull : key ≠ .null := by
    rintro rfl
    cases htruthy
  have hfield : r.data.field? "_id" = some key := Document.field?_of_fieldOrNull hkey hnull
  have hfilter : keyFilter r.data = .ok [(.text "_id", key)] := by
    rw [keyFilter, Value.field, hfield]
    rfl
  simp only [Effect.act, Lifecycle.replace] at h
  rw [run_bind_record, hfilter, Action.run_bind_ok (Action.run_ofExcept _ _)] at h
  rcases hrequest : (ctx.request m.collection
    (.replaceOne [(.text "_id", key)] r.data false)).run s with ⟨e | n, s₁⟩
  · rw [Action.run_bind_error (run_outside hrequest r)] at h
    cases h
    exact ⟨_, rfl⟩
  · rw [Action.run_bind_ok (run_outside hrequest r)] at h
    cases h
    exact ⟨_, rfl⟩

/-! ## Steps of a save -/

section

variable {r₀ : Record}

theorem bears_merge {changes : Value}
    (h : ∀ d, changes.entriesFor "items" = .ok d → ∀ e ∈ d, e.1 ≠ .text field) :
    ((Effect.merge changes).act ctx below m).Preserves fun t => Bears field r₀ t.1 := by
  refine .ofExcept_bind fun d hd => preserves_modifyData_of fun r hr => ?_
  exact hr.of_field? (Document.field?_merge_of_ne (h d hd) r.data)

theorem bears_number (hfield : field ≠ "id") :
    (Effect.number.act ctx below m).Preserves fun t => Bears field r₀ t.1 :=
  preserves_number_of fun _ _ hr => hr.of_field? (Document.field?_putField_of_ne hfield)

theorem bears_stamp {columns : List Value} (h : .text field ∉ columns) :
    ((Effect.stamp columns).act ctx below m).Preserves fun t => Bears field r₀ t.1 := by
  refine (preserves_outside_of _ _).bind fun now => .forM fun column hmem => ?_
  refine preserves_stamp_of fun r hr => hr.of_field? (Document.field?_put_of_ne ?_)
  rintro rfl
  exact h hmem

theorem bears_cast (hfield : Path.position? field = none) (force : Bool) {column : String}
    (hcolumn : ¬ Below field column) (rule : CastRule σ) :
    ((Effect.cast force column rule).act ctx below m).Preserves fun t => Bears field r₀ t.1 := by
  refine preserves_castColumn_of (fun r v r' hset hr => ?_) force rule
  obtain ⟨hdata, hrestored⟩ := bears_set hfield hcolumn hset
  exact ⟨hdata.trans hr.1, hrestored.trans hr.2⟩

theorem bears_replace :
    (Effect.replace.act ctx below m).Preserves fun t => Bears field r₀ t.1 := by
  have hrecord : record.Preserves fun t : Record × σ => Bears field r₀ t.1 := fun _ hr => hr
  exact hrecord.bind fun _ => (Action.Preserves.ofExcept _).bind fun _ =>
    (preserves_outside_of _ _).bind fun _ => .pure ()

theorem bears_sync (rule : Sync.Rule σ) (change : Sync.Change) :
    ((Effect.sync rule change).act ctx below m).Preserves fun t => Bears field r₀ t.1 := by
  have hrecord : record.Preserves fun t : Record × σ => Bears field r₀ t.1 := fun _ hr => hr
  exact hrecord.bind fun _ => preserves_outside_of _ _

end

theorem field?_defaultEntries {entries : List (String × Default)} {d : Document}
    (hentries : ∀ e ∈ entries, e.1 ≠ field) (h : defaultEntries r entries = .ok d) :
    d.field? field = none := by
  induction entries generalizing d with
  | nil =>
    cases h
    rfl
  | cons entry entries ih =>
    obtain ⟨name, default⟩ := entry
    rw [List.forall_mem_cons] at hentries
    have hname : Value.text name ≠ .text field := fun heq => hentries.1 (Value.text.inj heq)
    cases default with
    | value v =>
      obtain ⟨rest, hrest, hd⟩ := Outcome.bind_eq_ok.1 h
      cases hd
      rw [Document.field?_cons_of_ne hname, ih hentries.2 hrest]
    | computed f =>
      obtain ⟨v, -, hd⟩ := Outcome.bind_eq_ok.1 h
      obtain ⟨rest, hrest, hd⟩ := Outcome.bind_eq_ok.1 hd
      cases hd
      rw [Document.field?_cons_of_ne hname, ih hentries.2 hrest]

theorem bears_fill (hdefaults : ∀ e ∈ m.defaults, e.1 ≠ field) (hdistinct : t.1.data.Distinct)
    (h : (Effect.fill.act ctx below m).run t = (outcome, t')) : Bears field t.1 t'.1 := by
  obtain ⟨r, s⟩ := t
  simp only [Effect.act, applyDefaults] at h
  rw [run_bind_record] at h
  cases hentries : defaultEntries r m.defaults with
  | error e =>
    rw [hentries] at h
    cases h
    exact .refl field r
  | ok d =>
    rw [hentries, Action.run_bind_ok (Action.run_ofExcept _ _)] at h
    have hfield := Document.field?_merge_of_field?_eq_none hdistinct
      (field?_defaultEntries hdefaults hentries)
    split at h
    · cases h
      exact ⟨hfield, rfl⟩
    · cases h
      exact .refl field r

/-- A step that does not touch a field leaves it as it is, and only an insertion takes the mark of a
restored record away. -/
theorem Effect.bears_act {e : Effect σ} (hfield : Path.position? field = none)
    (htouches : ¬ e.Touches field m t.1) (hinsert : e ≠ .insert)
    (h : (e.act ctx below m).run t = (outcome, t')) : Bears field t.1 t'.1 := by
  have hbears : ((e.act ctx below m).Preserves fun u => Bears field t.1 u.1) →
      Bears field t.1 t'.1 := fun hpreserves => hpreserves.of_run (.refl field t.1) h
  cases e with
  | require => exact hbears (preserves_outside_of _ _)
  | merge changes =>
    refine hbears (bears_merge fun d hd e he heq => ?_)
    exact htouches ⟨d, hd, e, he, heq⟩
  | fill =>
    rw [Effect.Touches, not_or, not_exists, Classical.not_not] at htouches
    exact bears_fill (fun e he heq => htouches.1 e ⟨he, heq⟩) htouches.2 h
  | number => exact hbears (bears_number htouches)
  | stamp columns => exact hbears (bears_stamp htouches)
  | cast force column rule => exact hbears (bears_cast hfield force htouches rule)
  | hear => exact absurd trivial htouches
  | insert => exact absurd rfl hinsert
  | replace => exact hbears bears_replace
  | keep => exact hbears fun _ ht => ht
  | sync rule change => exact hbears (bears_sync rule change)

theorem Effect.names_of_touches {e : Effect σ} (h : e.Touches "_id" m r) (hinsert : e ≠ .insert) :
    e.Names m r := by
  cases e with
  | number => exact absurd h (by decide : ("_id" : String) ≠ "id")
  | insert => exact absurd rfl hinsert
  | _ => exact h

/-- A step that does not name the identifier and is no insertion keeps it. -/
theorem Effect.keeps_act {e : Effect σ} (hnames : ¬ e.Names m t.1) (hinsert : e ≠ .insert)
    (h : (e.act ctx below m).run t = (outcome, t')) : t.1.Keeps t'.1 := by
  have htouches : ¬ e.Touches "_id" m t.1 := fun htouches =>
    hnames (names_of_touches htouches hinsert)
  exact (bears_act position?_id htouches hinsert h).keeps

theorem Edit.keeps_act {e : Edit} (hnames : ¬ e.Names) (h : e.act.run t = (outcome, t')) :
    t.1.Keeps t'.1 := by
  rcases act_cases h with hsame | happly
  · rw [hsame]
    exact t.1.keeps_refl
  · exact e.keeps_apply hnames happly

theorem Deed.keeps_act {deed : Deed σ} (hnames : ¬ deed.Names t.1)
    (hinsert : ∀ m, deed ≠ .effect m .insert) (h : (deed.act ctx below).run t = (outcome, t')) :
    t.1.Keeps t'.1 := by
  cases deed with
  | edit e => exact e.keeps_act hnames h
  | effect m e =>
    refine e.keeps_act hnames ?_ h
    rintro rfl
    exact hinsert m rfl

/-- A deed that does not touch a field leaves it as it is. -/
theorem Deed.field?_act {deed : Deed σ} (hfield : Path.position? field = none)
    (htouches : ¬ deed.Touches field t.1) (h : (deed.act ctx below).run t = (outcome, t')) :
    t'.1.data.field? field = t.1.data.field? field := by
  cases deed with
  | edit e =>
    rcases e.act_cases h with hsame | happly
    · rw [hsame]
    · exact (e.bears_apply hfield htouches happly).1
  | effect m e =>
    by_cases hinsert : e = .insert
    · subst hinsert
      have hinserted : (Effect.insert.act ctx below m).run t = (outcome, t') := h
      rcases insert_cases hinserted with ⟨-, -, hsame⟩ | ⟨key, -, hafter⟩
      · rw [hsame]
      · rw [hafter]
        exact Document.field?_putField_of_ne htouches
    · exact (e.bears_act hfield htouches hinsert h).1

end Lifecycle

end DocumentMapper
