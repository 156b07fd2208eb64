import DocumentMapper.Proofs.Model.Asking
import DocumentMapper.Proofs.Model.DestroyCourse
import DocumentMapper.Proofs.Path.Segments
import DocumentMapper.Proofs.Query.Conjunction
import DocumentMapper.Proofs.Query.Matching

/-!
# Records that are only marked as deleted

A model may keep its deleted records in their collection, with the time in a column of their own.
Its finders then ask that there is nothing in that column, unless a filter says something else of
it. Writing the mark takes the name of the column for a key, and the database takes it for a path.
The two agree on a column of one segment; in any other column the mark is not found, and without a
name there is none.
-/

namespace DocumentMapper

open Outcome DocumentMapper.Action

/-! ## Filters of finders -/

theorem Record.map_fst_identified (d : Document) : (identified d).map (·.1) = d.map (·.1) := by
  unfold identified
  split
  · next hfield =>
    split
    · refine Document.map_fst_put_of_has ?_ _
      simpa [Document.has, Document.field?, Document.get?] using congrArg Option.isSome hfield
    · rfl
  · rfl

namespace Value

theorem map_fst_normalizeEntries {d d' : Document} (h : normalizeEntries d = .ok d') :
    d'.map (·.1) = d.map (·.1) := by
  induction d generalizing d' with
  | nil =>
    cases h
    rfl
  | cons e rest ih =>
    obtain ⟨k, v⟩ := e
    rw [normalizeEntries] at h
    obtain ⟨w, -, h⟩ := bind_eq_ok.1 h
    obtain ⟨rest', hrest, h⟩ := bind_eq_ok.1 h
    cases h
    exact congrArg (k :: ·) (ih hrest)

/-- An entry with a value that nothing else becomes is there exactly if it was there before. -/
theorem mem_normalizeEntries_iff {d d' : Document} {key v : Value}
    (hv : ∀ w : Value, w.normalizeDates = .ok v ↔ w = v) (h : normalizeEntries d = .ok d') :
    (key, v) ∈ d' ↔ (key, v) ∈ d := by
  induction d generalizing d' with
  | nil =>
    cases h
    rfl
  | cons e rest ih =>
    obtain ⟨k, w⟩ := e
    rw [normalizeEntries] at h
    obtain ⟨w', hw, h⟩ := bind_eq_ok.1 h
    obtain ⟨rest', hrest, h⟩ := bind_eq_ok.1 h
    cases h
    have hhead : v = w' ↔ v = w := by
      constructor
      · rintro rfl
        exact ((hv w).1 hw).symm
      · rintro rfl
        exact Except.ok.inj (((hv v).2 rfl).symm.trans hw)
    rw [List.mem_cons, List.mem_cons, ih hrest, Prod.mk.injEq, Prod.mk.injEq, hhead]

theorem mem_normalizeEntries_null {d d' : Document} {key : Value}
    (h : normalizeEntries d = .ok d') (hmem : (key, .null) ∈ d) : (key, .null) ∈ d' := by
  refine (mem_normalizeEntries_iff ?_ h).2 hmem
  intro w
  cases w <;> simp [normalizeDates, bind_eq_ok]

end Value

namespace Finder

variable {s : Schema} {d f : Document} {mentioned : Bool}

/-- A filter that does not ask for deleted records and says nothing of their mark. -/
def Silent (s : Schema) (d : Document) : Prop :=
  (d.fieldOrNull "with_deleted").isTruthy = false ∧ d.has s.deletedAt = false

/-- A filter that asks for deleted records too, and mentions their mark beside that or not. -/
def Inclusive (s : Schema) (mentioned : Bool) (d : Document) : Prop :=
  (d.fieldOrNull "with_deleted").isTruthy = true ∧
    (d.eraseField "with_deleted").has s.deletedAt = mentioned

theorem normalizeEntries_of_normalized (h : normalized s d = .ok f) :
    Value.normalizeEntries
      (if s.deletion = .soft ∧ !(d.fieldOrNull "with_deleted").isTruthy then
        hideDeleted s (Record.identified (d.eraseField "with_deleted"))
      else Record.identified (d.eraseField "with_deleted")) = .ok f := by
  obtain ⟨v, hv, h⟩ := bind_eq_ok.1 h
  cases h
  rw [Value.normalizeDates] at hv
  obtain ⟨f, hf, hv⟩ := bind_eq_ok.1 hv
  cases hv
  exact hf

/-- The condition that there is no mark is among what finders ask for. -/
theorem mem_of_normalized (hsoft : s.deletion = .soft) (hd : Silent s d)
    (h : normalized s d = .ok f) : (s.deletedAt, .null) ∈ f := by
  obtain ⟨hwithout, hsilent⟩ := hd
  have hentries := normalizeEntries_of_normalized h
  rw [if_pos ⟨hsoft, by simp [hwithout]⟩] at hentries
  refine Value.mem_normalizeEntries_null hentries ?_
  have hnone : (Record.identified (d.eraseField "with_deleted")).has s.deletedAt = false := by
    rw [Document.has_of_map_fst (Record.map_fst_identified _)]
    exact Document.not_has_eraseField hsilent _
  rw [hideDeleted, if_neg (by simp [hnone]), Document.put_of_not_has hnone]
  simp

/-- Whoever asks for nothing asks that there is no mark, and for nothing else. -/
theorem normalized_nil (hsoft : s.deletion = .soft) :
    normalized s [] = .ok [(s.deletedAt, .null)] := by
  have hshown : s.deletion = .soft ∧ !(Document.fieldOrNull [] "with_deleted").isTruthy := by
    exact ⟨hsoft, rfl⟩
  simp only [normalized, if_pos hshown]
  rfl

theorem has_of_normalized (hd : Inclusive s mentioned d) (h : normalized s d = .ok f) :
    f.has s.deletedAt = mentioned := by
  obtain ⟨hwith, hmentioned⟩ := hd
  have hentries := normalizeEntries_of_normalized h
  rw [if_neg (by simp [hwith])] at hentries
  rw [Document.has_of_map_fst (Value.map_fst_normalizeEntries hentries),
    Document.has_of_map_fst (Record.map_fst_identified _), hmentioned]

theorem makes_silent (hsoft : s.deletion = .soft) :
    Makes s (Silent s) fun f => (s.deletedAt, .null) ∈ f where
  prepared _ _ hd h := mem_of_normalized hsoft hd h
  onUtc _ _ h hmem := Value.mem_normalizeEntries_null h hmem

theorem makes_inclusive :
    Makes s (Inclusive s mentioned) fun f => f.has s.deletedAt = mentioned where
  prepared _ _ hd h := has_of_normalized hd h
  onUtc _ _ h hf := (Document.has_of_map_fst (Value.map_fst_normalizeEntries h) _).trans hf

end Finder

/-! ## The mark -/

namespace Path

/-- What a dictionary leads to depends on the field that the path begins with. -/
theorem leads_dict_congr {d d' : Document} {key : String} {rest : Path} {found : Option Value}
    (h : d'.field? key = d.field? key) (hleads : Leads (key :: rest) (.dict d) found) :
    Leads (key :: rest) (.dict d') found := by
  cases hleads with
  | key hc hrest => exact .key (h.trans hc) hrest
  | absent hc => exact .absent (h.trans hc)
  | beyond hdict => cases hdict

end Path

namespace Query

/-- Whether the database finds nothing in a column, or null. The name of a column is a path to it;
what is no name is a key like any other. -/
def Lacks (column : Value) (doc : Document) : Prop :=
  match column with
  | .text name => Path.Finds (Path.ofText name) .null doc
  | key => ∀ v ∈ doc.get? key, v = .null

theorem not_lacks_put_segment {name : String} (h : Path.ofText name = [name])
    (time : Calendar.Moment) (d : Document) :
    ¬ Lacks (.text name) (d.put (.text name) (.moment time)) := by
  intro hlacks
  have hfield : (d.put (.text name) (.moment time)).field? name = some (.moment time) :=
    Document.field?_putField_self d name _
  rw [Lacks, h, Path.finds_field, hfield] at hlacks
  rcases hlacks with hequal | ⟨items, hlist, -⟩
  · cases hequal
  · cases hlist

/-- A column whose name is not its only segment is not where the mark is written. -/
theorem lacks_put_path {name : String} (h : Path.ofText name ≠ [name]) (v : Value)
    (d : Document) : Lacks (.text name) (d.put (.text name) v) ↔ Lacks (.text name) d := by
  obtain ⟨key, rest, hpath⟩ := List.exists_cons_of_ne_nil (Path.ofText_ne_nil name)
  have hkey : key ≠ name := by
    rintro rfl
    exact h (Path.ofText_of_mem (s := key) (by rw [hpath]; exact List.mem_cons_self))
  have hfield : (d.put (.text name) v).field? key = d.field? key :=
    Document.field?_putField_of_ne hkey
  show (Path.ofText name).Finds .null _ ↔ (Path.ofText name).Finds .null _
  rw [hpath]
  exact exists_congr fun found => and_congr_left' ⟨Path.leads_dict_congr hfield.symm,
    Path.leads_dict_congr hfield⟩

end Query

namespace Schema

/-- The data of a record with the mark of deleted records, if the model has a column for it. -/
def mark (s : Schema) (time : Calendar.Moment) (d : Document) : Document :=
  if s.deletedAt.isTruthy then d.put s.deletedAt (.moment time) else d

/-- Whether the column of the mark is there and means the same as a key and as a path. -/
def MarksWell (s : Schema) : Prop :=
  s.deletedAt.isTruthy = true ∧ ∀ name, s.deletedAt = .text name → Path.ofText name = [name]

/-- The database finds something in the column of a record that was marked exactly if the column
means the same as a key and as a path, or if there was something in it before. -/
theorem not_lacks_mark_iff {s : Schema} (hself : s.deletedAt.same s.deletedAt = true)
    (time : Calendar.Moment) (d : Document) :
    ¬ Query.Lacks s.deletedAt (s.mark time d) ↔ s.MarksWell ∨ ¬ Query.Lacks s.deletedAt d := by
  unfold mark MarksWell
  generalize s.deletedAt = column at *
  by_cases htruthy : column.isTruthy = true
  · rw [if_pos htruthy]
    by_cases htext : ∃ name, column = .text name
    · obtain ⟨name, rfl⟩ := htext
      by_cases hsegment : Path.ofText name = [name]
      · refine iff_of_true (Query.not_lacks_put_segment hsegment time d) (.inl ⟨htruthy, ?_⟩)
        rintro _ ⟨⟩
        exact hsegment
      · rw [Query.lacks_put_path hsegment]
        exact (or_iff_right fun h => hsegment (h.2 name rfl)).symm
    · have hmarked : ¬ Query.Lacks column (d.put column (.moment time)) := by
        intro hlacks
        unfold Query.Lacks at hlacks
        split at hlacks
        · exact htext ⟨_, rfl⟩
        · cases hlacks _ (Document.get?_put_self hself _ d)
      exact iff_of_true hmarked (.inl ⟨htruthy, fun name h => absurd ⟨name, h⟩ htext⟩)
  · rw [if_neg htruthy]
    exact (or_iff_right fun h => htruthy h.1).symm

end Schema

/-! ## Deletions -/

namespace Lifecycle

variable {σ : Type} {ctx : Context σ} {below : Cascade σ} {m : Model σ} {r r' : Record}
  {s s' : σ}

variable (ctx below m) in
/-- A deletion that marks a record at a time and stores it in the place of what was stored: as the
listeners leave it that hear of the deletion beforehand, and before those that hear of it afterwards
and the rules. -/
def StoresMarked (r : Record) (time : Calendar.Moment) (r₁ r' : Record) (s s' : σ) : Prop :=
  ∃ id n s₁ s₂ s₃, (do
      outside (ctx.requireBound m.toSchema)
      markDeleted ctx m : Step σ Unit).run (r, s) =
        (.ok (), { r with data := m.mark time r.data }, s₁) ∧
    (announce ctx m .deleting none).run ({ r with data := m.mark time r.data }, s₁) =
      (.ok (), r₁, s₂) ∧
    (Value.dict r₁.data).field "_id" = .ok id ∧
    (ctx.request m.collection (.replaceOne [(.text "_id", id)] r₁.data false)).run s₂ =
      (.ok n, s₃) ∧
    (do
      announce ctx m .deleted none
      syncDestroyed ctx below m : Step σ Unit).run (r₁, s₃) = (.ok (), r', s')

/-- Listeners that leave records as they are leave the mark. -/
theorem StoresMarked.eq_mark (hl : ctx.LeavesRecords) {time : Calendar.Moment} {r₁ : Record}
    (h : StoresMarked ctx below m r time r₁ r' s s') :
    r₁ = { r with data := m.mark time r.data } := by
  obtain ⟨id, n, s₁, s₂, s₃, -, hdeleting, -⟩ := h
  exact keeps_announce hl _ _ _ _ _ _ _ hdeleting

theorem eq_mark_of_markDeleted (h : (markDeleted ctx m).run (r, s) = (.ok (), r', s')) :
    ∃ time, r' = { r with data := m.mark time r.data } := by
  unfold markDeleted stamp at h
  unfold Schema.mark
  split at h
  · next htruthy =>
    obtain ⟨time, ⟨r₁, s₁⟩, hnow, hstamp⟩ := Action.run_bind_eq_ok.1 h
    obtain ⟨-, rfl⟩ := Action.run_second_eq_iff.1 hnow
    cases hstamp
    exact ⟨time, by rw [if_pos htruthy]⟩
  · next habsent =>
    cases h
    exact ⟨default, by rw [if_neg habsent]⟩

/-- A deletion of a model that only marks its records stores the data with the mark. -/
theorem storesMarked_of_destroy (hm : ctx.model r.model = m) (hsoft : m.deletion = .soft)
    (hkey : r.key.isTruthy = true) (h : (destroy ctx below).run (r, s) = (.ok (), r', s')) :
    ∃ time r₁, StoresMarked ctx below m r time r₁ r' s s' := by
  rw [run_destroy below hm hkey] at h
  obtain ⟨⟨⟩, t, hbound, h⟩ := Action.run_bind_eq_ok.1 h
  obtain rfl := eq_of_requireBound hbound
  obtain ⟨⟨⟩, ⟨r₁, s₁⟩, hmark, h⟩ := Action.run_bind_eq_ok.1 h
  obtain ⟨time, rfl⟩ := eq_mark_of_markDeleted hmark
  obtain ⟨⟨⟩, ⟨r₂, s₂⟩, hlogged, hclean⟩ := Action.run_bind_eq_ok.1 h
  have hwithdraw := run_logged_eq_ok hlogged
  unfold withdraw at hwithdraw
  rw [if_neg (by simp [hsoft])] at hwithdraw
  obtain ⟨⟨⟩, ⟨r₃, s₃⟩, hdeleting, hwithdraw⟩ := Action.run_bind_eq_ok.1 hwithdraw
  obtain ⟨⟨⟩, t, hremove, hdeleted⟩ := Action.run_bind_eq_ok.1 hwithdraw
  unfold remove replace at hremove
  rw [if_pos hsoft, run_bind_record] at hremove
  obtain ⟨id, s₄, n, rfl, hid, hreplace⟩ := exists_of_keyed hremove
  exact ⟨time, r₃, id, n, s₁, s₃, s₄, (Action.run_bind_ok hbound).trans hmark, hdeleting, hid,
    hreplace, (Action.run_bind_ok hdeleted).trans hclean⟩

end Lifecycle

namespace Store

variable {σ : Type} {ctx : Context σ} {below cascade : Cascade σ} {m : Model σ}
  {meaning : Value → Value → Document → Prop}

/-- What becomes of the deleted records of a model that only marks them, whatever the entries of
filters mean to the database. -/
structure Hides (ctx : Context σ) (below cascade : Cascade σ) (m : Model σ)
    (meaning : Value → Value → Document → Prop) : Prop where
  /-- A deletion stores a document that no filter with the condition that there is no mark selects
  exactly if there is something in the column. If listeners have left the mark, there is exactly if
  the column means the same as a key and as a path, or if the record had something in it before. -/
  deleted : ∀ r s r' s', ctx.model r.model = m → r.key.isTruthy = true →
    (Lifecycle.destroy ctx below).run (r, s) = (.ok (), r', s') →
    ∃ time r₁, Lifecycle.StoresMarked ctx below m r time r₁ r' s s' ∧
      ((∀ f, (m.deletedAt, .null) ∈ f → ¬ Query.Selects meaning f r₁.data) ↔
        ¬ Query.Lacks m.deletedAt r₁.data) ∧
      (r₁.data = m.mark time r.data → (¬ Query.Lacks m.deletedAt r₁.data ↔
        m.MarksWell ∨ ¬ Query.Lacks m.deletedAt r.data))
  /-- Besides saving, nothing is asked for without the condition by methods that look for records
  and whose filter says nothing of the mark. -/
  asked : ∀ (P : σ → Prop) (method : Method σ),
    ctx.Heeds (fun f => (m.deletedAt, .null) ∈ f) P → Saves P cascade →
    method.Asks m.toSchema (Finder.Silent m.toSchema) P → (method.act ctx cascade m).Preserves P
  /-- The condition is all that is asked for if the caller asks for nothing. -/
  least : Finder.normalized m.toSchema [] = .ok [(m.deletedAt, .null)]
  /-- Methods whose filter asks for deleted records too mention the mark exactly if the filter
  does. -/
  shown : ∀ (P : σ → Prop) (method : Method σ) mentioned,
    ctx.Heeds (fun f => f.has m.deletedAt = mentioned) P → Saves P cascade →
    method.Asks m.toSchema (Finder.Inclusive m.toSchema mentioned) P →
    (method.act ctx cascade m).Preserves P

/-- Filters with a condition pass over a document exactly if it does not meet the condition. -/
theorem forall_not_selects_iff {e : Value × Value} {doc : Document} :
    (∀ f, e ∈ f → ¬ Query.Selects meaning f doc) ↔ ¬ meaning e.1 e.2 doc := by
  constructor
  · intro h hmeant
    refine h [e] List.mem_cons_self fun e' he' => ?_
    rw [List.mem_singleton.1 he']
    exact hmeant
  · exact fun h f he hselects => h (hselects e he)

/-- Every method that looks for records of a model that only marks the deleted ones asks that there
is no mark, unless the caller says otherwise, and this hides the deleted records exactly if the
column of the mark is one that the database finds by its name, or was not empty before. -/
theorem softDeleted_hidden_iff (hsoft : m.deletion = .soft)
    (hself : m.deletedAt.same m.deletedAt = true)
    (hmeaning : ∀ doc, meaning m.deletedAt .null doc ↔ Query.Lacks m.deletedAt doc) :
    Hides ctx below cascade m meaning where
  deleted r s r' s' hm hkey h := by
    obtain ⟨time, r₁, hstores⟩ := Lifecycle.storesMarked_of_destroy hm hsoft hkey h
    refine ⟨time, r₁, hstores, ?_, fun hmark => ?_⟩
    · rw [forall_not_selects_iff, hmeaning]
    · rw [hmark]
      exact Schema.not_lacks_mark_iff hself time r.data
  asked _ _ hctx hsaves hasks :=
    Method.preserves_of_asks hctx hsaves (Finder.makes_silent hsoft) hasks
  least := Finder.normalized_nil hsoft
  shown _ _ _ hctx hsaves hasks :=
    Method.preserves_of_asks hctx hsaves Finder.makes_inclusive hasks

/-! ### Posts that are only marked -/

/-- What an entry of a filter means to the database: its key is a path to a value. -/
def meant (key v : Value) (doc : Document) : Prop :=
  ∃ path, key = .text path ∧ Path.Finds (Path.ofText path) v doc

theorem meant_null_iff (name : String) (doc : Document) :
    meant (.text name) .null doc ↔ Query.Lacks (.text name) doc := by
  constructor
  · rintro ⟨path, hpath, hfinds⟩
    cases hpath
    exact hfinds
  · exact fun h => ⟨name, rfl, h⟩

/-- A journal of what is asked about posts, whose deleted ones have a mark in a column. -/
def marking (column : Value) : Context (List Request) :=
  { Context.journaling with
    model := fun name => { Context.journaling.model name with
      collection := "posts", deletion := .soft, deletedAt := column } }

def post : Record :=
  .ofData "Post" [(.text "_id", .int 7), (.text "id", .int 1)]

/-- Everything that was asked for is a filter of some kind. -/
def AsksOnly (K : Document → Prop) (journal : List Request) : Prop :=
  ∀ r ∈ journal, ∀ f, r.operation.sought? = some f → K f

theorem heeds_marking (K : Document → Prop) (column : Value) :
    (marking column).Heeds K (AsksOnly K) where
  execute r f hr hf := by
    intro s hs
    refine List.forall_mem_append.2 ⟨hs, List.forall_mem_singleton.2 fun f' hf' => ?_⟩
    cases hr.symm.trans hf'
    exact hf
  listeners _ _ := .pure (List.forall_mem_nil _)

/-- A post with the mark in a column of one segment is not found any more, on no page of all
posts. -/
theorem softDeleted_hidden_iff_posts :
    let ctx := marking (.text "deletedAt")
    let m := ctx.model "Post"
    let below := Lifecycle.cascade ctx 0
    m.deletion = .soft ∧ m.deletedAt.same m.deletedAt = true ∧
    (∀ doc, meant m.deletedAt .null doc ↔ Query.Lacks m.deletedAt doc) ∧
    ∃ time r₁ r' journal, Lifecycle.StoresMarked ctx below m post time r₁ r' [] journal ∧
      (∀ f, (.text "deletedAt", .null) ∈ f → ¬ Query.Selects meant f r₁.data) ∧
      AsksOnly (fun f => (.text "deletedAt", .null) ∈ f)
        (((Method.paginate .null (.int 1) (.int 10)).act ctx below m).run journal).2 := by
  intro ctx m below
  have hl : ctx.LeavesRecords := by
    intro id event s ls s' h
    cases h
    exact List.forall_mem_nil _
  have hmeaning := meant_null_iff "deletedAt"
  have hhides : Hides ctx below below m meant := softDeleted_hidden_iff rfl rfl hmeaning
  refine ⟨rfl, rfl, hmeaning, ?_⟩
  obtain ⟨time, r₁, hstores, hhidden, hmark⟩ := hhides.deleted post [] _ _ rfl rfl rfl
  have hwell : m.MarksWell := by
    refine ⟨rfl, ?_⟩
    rintro name ⟨⟩
    rfl
  have hmarked := congrArg Record.data (hstores.eq_mark hl)
  refine ⟨time, r₁, _, _, hstores, hhidden.2 ((hmark hmarked).2 (.inl hwell)), ?_⟩
  refine hhides.asked _ _ (heeds_marking _ _) (fun _ _ hs => hs) ?_ _ ?_
  · rintro d ⟨⟩
    exact ⟨rfl, rfl⟩
  · refine List.forall_mem_singleton.2 ?_
    rintro f ⟨⟩

/-- With the mark in a part of a column the deleted post is found by whoever asks for any post. For
want of a column it is stored as it was, and the condition is one that it meets. -/
theorem not_hidden_nested :
    (let ctx := marking (.text "meta.deletedAt")
      ∃ r' d f, (Lifecycle.destroy ctx (Lifecycle.cascade ctx 0)).run (post, []) =
          (.ok (), r', [⟨"posts", .replaceOne [(.text "_id", .int 7)] d false⟩]) ∧
        ((Finder.first ctx (ctx.model "Post") .null).run []).2 = [⟨"posts", .findOne f⟩] ∧
        Query.Selects meant f d) ∧
    (let ctx := marking .null
      ∃ r', (Lifecycle.destroy ctx (Lifecycle.cascade ctx 0)).run (post, []) =
          (.ok (), r', [⟨"posts", .replaceOne [(.text "_id", .int 7)] post.data false⟩]) ∧
        ((Finder.first ctx (ctx.model "Post") .null).run []).2 =
          [⟨"posts", .findOne [(.null, .null)]⟩] ∧
        Query.Lacks .null post.data) := by
  refine ⟨⟨_, _, [(.text "meta.deletedAt", .null)], rfl, rfl, ?_⟩, _, rfl, rfl, by rintro v ⟨⟩⟩
  intro e he
  rw [List.mem_singleton.1 he]
  exact ⟨_, rfl, none, .absent rfl, rfl⟩

end Store

end DocumentMapper
