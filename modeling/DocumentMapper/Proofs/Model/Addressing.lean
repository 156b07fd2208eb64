import DocumentMapper.Proofs.Model.Hiding

/-!
# Records that are named by an identity

Finding and changing a record by an identity asks for it in the primary column, where texts of
digits are numbers, and texts of identifiers are identifiers if that is the column of identifiers.
Deleting by an identity asks for it as it was given. The two ask for one and the same record
exactly if there is nothing to convert in the identity, and if the primary column is not the one
name that finders take for an option.
-/

namespace DocumentMapper

open Outcome DocumentMapper.Action

/-- Whether a value names a record by its primary column: a number or a text. -/
def Value.isIdentity : Value → Bool
  | int _ | bool _ | text _ => true
  | _ => false

theorem Value.normalizeDates_eq_ok_iff {v : Value} (hv : v.isIdentity = true) (w : Value) :
    w.normalizeDates = .ok v ↔ w = v := by
  cases v with
  | int | bool | text => cases w <;> simp [normalizeDates, bind_eq_ok]
  | _ => cases hv

theorem Value.normalizeEntries_self {d : Document}
    (h : ∀ e ∈ d, e.2.normalizeDates = .ok e.2) : normalizeEntries d = .ok d := by
  induction d with
  | nil => rfl
  | cons e rest ih =>
    rw [List.forall_mem_cons] at h
    rw [normalizeEntries, h.1, ih h.2]
    rfl

namespace Finder

variable {s : Schema} {id v : Value} {t : String} {f : Document}

/-- A value as it is sent in the primary column. Texts of identifiers are identifiers if that is the
column of identifiers. -/
def recognized (s : Schema) (v : Value) : Value :=
  match s.primaryId, v with
  | .text "_id", .text t => (ObjectId.ofText? t).elim v .objectId
  | _, _ => v

/-- A filter together with the condition that there is no mark of deleted records, for models that
only mark them. -/
def shown (s : Schema) (filter : Document) : Document :=
  if s.deletion = .soft then hideDeleted s filter else filter

/-- What a search for an identity asks for, unless listeners change it. -/
def Seeks (s : Schema) (id : Value) (f : Document) : Prop :=
  ∃ v, identity id = .ok v ∧ normalized s [(s.primaryId, v)] = .ok f

/-- A search takes something else for the identity than was given: a number for a text of digits, or
an identifier for its text. -/
def Converts (s : Schema) (id : Value) : Prop :=
  ∃ t, id = .text t ∧
    (Text.isDigits t = true ∨ s.primaryId = .text "_id" ∧ (ObjectId.ofText? t).isSome = true)

/-- A search asks for the identity that was given, in the primary column. A column is lost that has
the name of the option to find deleted records too. -/
def Keeps (s : Schema) (id : Value) : Prop :=
  s.primaryId ≠ .text "with_deleted" ∧ ¬ Converts s id

/-! ## What is sought -/

theorem isIdentity_of_identity (hid : id.isIdentity = true) (h : identity id = .ok v) :
    v.isIdentity = true := by
  unfold identity at h
  split at h
  · split at h
    · obtain ⟨n, -, hv⟩ := bind_eq_ok.1 h
      cases hv
      rfl
    · cases h
      exact hid
  · cases h
    exact hid

/-- An identity stays as it is, or it is a text of digits and becomes a number. -/
theorem identity_cases (h : identity id = .ok v) :
    (v = id ∧ ∀ t, id = .text t → Text.isDigits t = false) ∨
      ∃ t n, id = .text t ∧ Text.isDigits t = true ∧ v = .int n := by
  unfold identity at h
  split at h
  · next t =>
    split at h
    · next hdigits =>
      obtain ⟨n, -, hv⟩ := bind_eq_ok.1 h
      cases hv
      exact .inr ⟨t, n, rfl, hdigits, rfl⟩
    · next hother =>
      cases h
      refine .inl ⟨rfl, ?_⟩
      rintro t' ⟨⟩
      exact Bool.eq_false_iff.2 hother
  · next hother =>
    cases h
    refine .inl ⟨rfl, ?_⟩
    intro t heq
    exact absurd heq (hother t)

theorem identity_of_ne (h : ∀ t, id = .text t → Text.isDigits t = false) :
    identity id = .ok id := by
  cases id with
  | text t => rw [identity, h t rfl]; rfl
  | _ => rfl

theorem recognized_of_ne (h : s.primaryId ≠ .text "_id") (v : Value) : recognized s v = v := by
  unfold recognized
  split
  · next hprimary => exact absurd hprimary h
  · rfl

theorem recognized_text (h : s.primaryId = .text "_id") (t : String) :
    recognized s (.text t) = (ObjectId.ofText? t).elim (.text t) .objectId := by
  simp [recognized, h]

theorem recognized_of_isText (h : v.isText = false) : recognized s v = v := by
  unfold recognized
  split
  · cases h
  · rfl

/-- A search looks for the very identity that was given exactly if there is nothing to convert. -/
theorem exists_recognized_eq_self_iff :
    (∃ v, identity id = .ok v ∧ recognized s v = id) ↔ ¬ Converts s id := by
  constructor
  · rintro ⟨v, hv, hsame⟩ ⟨t, rfl, hdigits | ⟨hprimary, hsome⟩⟩
    · obtain ⟨-, hother⟩ | ⟨_, n, -, -, rfl⟩ := identity_cases hv
      · have hno := hother t rfl
        rw [hdigits] at hno
        cases hno
      · rw [recognized_of_isText rfl] at hsame
        cases hsame
    · obtain ⟨o, ho⟩ := Option.isSome_iff_exists.1 hsome
      obtain ⟨rfl, -⟩ | ⟨_, n, -, -, rfl⟩ := identity_cases hv
      · rw [recognized_text hprimary, ho] at hsame
        cases hsame
      · rw [recognized_of_isText rfl] at hsame
        cases hsame
  · intro hkept
    refine ⟨id, identity_of_ne ?_, ?_⟩
    · rintro t rfl
      exact Bool.eq_false_iff.2 fun hdigits => hkept ⟨t, rfl, .inl hdigits⟩
    · by_cases hprimary : s.primaryId = .text "_id"
      · cases id with
        | text t =>
          rw [recognized_text hprimary]
          cases ho : ObjectId.ofText? t with
          | none => rfl
          | some o => exact absurd ⟨t, rfl, .inr ⟨hprimary, by rw [ho]; rfl⟩⟩ hkept
        | _ => exact recognized_of_isText rfl
      · exact recognized_of_ne hprimary id

/-! ## The filter of a search -/

theorem identified_singleton (s : Schema) (v : Value) :
    Record.identified [(s.primaryId, v)] = [(s.primaryId, recognized s v)] := by
  by_cases hprimary : s.primaryId = .text "_id"
  · unfold Record.identified
    rw [hprimary, Document.field?_cons_self]
    cases v with
    | text t =>
      rw [recognized_text hprimary]
      cases ho : ObjectId.ofText? t with
      | none => simp [ho]
      | some o => simp [ho, Document.putField, Document.put, Value.same_text]
    | _ => rw [recognized_of_isText rfl]
  · have hnone : Document.field? [(s.primaryId, v)] "_id" = none := by
      rw [Document.field?_cons_of_ne hprimary, Document.field?_nil]
    rw [recognized_of_ne hprimary, Record.identified, hnone]

theorem normalizeDates_recognized (hv : v.isIdentity = true) :
    (recognized s v).normalizeDates = .ok (recognized s v) := by
  have hself := (Value.normalizeDates_eq_ok_iff hv v).2 rfl
  by_cases hprimary : s.primaryId = .text "_id"
  · cases v with
    | text t =>
      rw [recognized_text hprimary]
      cases ObjectId.ofText? t <;> rfl
    | _ => rwa [recognized_of_isText rfl]
  · rwa [recognized_of_ne hprimary]

theorem mem_shown_iff {d : Document} {key : Value} (hv : v ≠ .null) :
    (key, v) ∈ shown s d ↔ (key, v) ∈ d := by
  unfold shown hideDeleted
  split
  · split
    · rfl
    · next hnone =>
      rw [Document.put_of_not_has (Bool.eq_false_iff.2 hnone)]
      simp [hv]
  · rfl

theorem normalizeEntries_shown (key : Value) (hv : v.normalizeDates = .ok v) :
    Value.normalizeEntries (shown s [(key, v)]) = .ok (shown s [(key, v)]) := by
  refine Value.normalizeEntries_self ?_
  rintro ⟨k, w⟩ hmem
  by_cases hnull : w = .null
  · rw [hnull]
    rfl
  · rw [mem_shown_iff hnull] at hmem
    cases List.mem_singleton.1 hmem
    exact hv

/-- What a search for an identity asks for in the primary column is the identity that is sought. -/
theorem seeks_iff (hid : id.isIdentity = true) (hprimary : s.primaryId ≠ .text "with_deleted") :
    Seeks s id f ↔ ∃ v, identity id = .ok v ∧ f = shown s [(s.primaryId, recognized s v)] := by
  refine exists_congr fun v => and_congr_right fun hv => ?_
  have hplain := normalizeDates_recognized (s := s) (isIdentity_of_identity hid hv)
  have hoption : Document.fieldOrNull [(s.primaryId, v)] "with_deleted" = .null := by
    rw [Document.fieldOrNull, Document.field?_cons_of_ne hprimary]
    rfl
  have herase : Document.eraseField [(s.primaryId, v)] "with_deleted" = [(s.primaryId, v)] := by
    simp [Document.eraseField, Document.erase, Value.same_text_eq_false hprimary]
  have hnormal :
      normalized s [(s.primaryId, v)] = .ok (shown s [(s.primaryId, recognized s v)]) := by
    have hshown := normalizeEntries_shown (s := s) s.primaryId hplain
    unfold shown at hshown ⊢
    simp only [normalized, hoption, herase, identified_singleton, Value.isTruthy, Bool.not_false,
      and_true, Value.normalizeDates, hshown]
    rfl
  rw [hnormal, Except.ok.injEq, eq_comm]

theorem Seeks.unique {f' : Document} (h : Seeks s id f) (h' : Seeks s id f') : f = f' := by
  obtain ⟨v, hv, hf⟩ := h
  obtain ⟨v', hv', hf'⟩ := h'
  cases hv.symm.trans hv'
  exact Except.ok.inj (hf.symm.trans hf')

/-- No search asks for anything in a column that has the name of the option. -/
theorem not_mem_of_seeks (hid : id.isIdentity = true)
    (hprimary : s.primaryId = .text "with_deleted") (h : Seeks s id f) :
    (s.primaryId, id) ∉ f := by
  have hnull : id ≠ .null := by
    rintro rfl
    cases hid
  obtain ⟨v, -, hf⟩ := h
  have hentries := normalizeEntries_of_normalized hf
  rw [Value.mem_normalizeEntries_iff (Value.normalizeDates_eq_ok_iff hid) hentries]
  have hlost : Record.identified (Document.eraseField [(s.primaryId, v)] "with_deleted") = [] := by
    simp [hprimary, Document.eraseField, Document.erase, Value.same_text, Record.identified]
  rw [hlost]
  intro hmem
  split at hmem
  · simp [hideDeleted, Document.has, Document.put, hnull] at hmem
  · cases hmem

/-- A search asks for the identity as it was given exactly if there is nothing to convert. -/
theorem exists_mem_of_seeks_iff (hid : id.isIdentity = true) :
    (∃ f, Seeks s id f ∧ (s.primaryId, id) ∈ f) ↔ Keeps s id := by
  by_cases hprimary : s.primaryId = .text "with_deleted"
  · refine iff_of_false ?_ fun hkeeps => hkeeps.1 hprimary
    rintro ⟨f, hf, hmem⟩
    exact not_mem_of_seeks hid hprimary hf hmem
  · have hnull : id ≠ .null := by
      rintro rfl
      cases hid
    have hkeeps : Keeps s id ↔ ¬ Converts s id := and_iff_right hprimary
    rw [hkeeps, ← exists_recognized_eq_self_iff]
    simp only [seeks_iff hid hprimary]
    constructor
    · rintro ⟨f, ⟨v, hv, rfl⟩, hmem⟩
      rw [mem_shown_iff hnull, List.mem_singleton, Prod.mk.injEq] at hmem
      exact ⟨v, hv, hmem.2.symm⟩
    · rintro ⟨v, hv, hsame⟩
      refine ⟨_, ⟨v, hv, rfl⟩, ?_⟩
      rw [mem_shown_iff hnull, hsame]
      exact List.mem_singleton_self _

theorem mem_of_seeks_iff (hid : id.isIdentity = true) (h : Seeks s id f) :
    (s.primaryId, id) ∈ f ↔ Keeps s id := by
  rw [← exists_mem_of_seeks_iff hid]
  constructor
  · intro hmem
    exact ⟨f, h, hmem⟩
  · rintro ⟨f', h', hmem⟩
    rwa [h.unique h']

/-- An entry is among the conditions of a filter exactly if all documents meet it that the filter
selects, whatever entries mean. -/
theorem mem_iff_forall_selects {e : Value × Value} :
    e ∈ f ↔ ∀ meaning doc, Query.Selects meaning f doc → Query.Selects meaning [e] doc := by
  constructor
  · intro hmem meaning doc hselects e' he'
    rw [List.mem_singleton.1 he']
    exact hselects e hmem
  · intro h
    -- Entries that are in the filter mean something true, and no others.
    have hself : Query.Selects (fun k v _ => (k, v) ∈ f) f [] := fun _ he => he
    exact h _ _ hself e (List.mem_singleton_self e)

/-- Searches for an identity ask for it exactly if it is kept. -/
theorem makes_kept (hid : id.isIdentity = true) :
    Makes s (fun d => ∃ v, identity id = .ok v ∧ d = [(s.primaryId, v)])
      fun f => (s.primaryId, id) ∈ f ↔ Keeps s id where
  prepared := by
    rintro d f ⟨v, hv, rfl⟩ hf
    exact mem_of_seeks_iff hid ⟨v, hv, hf⟩
  onUtc f f' h hmem := by
    rwa [Value.mem_normalizeEntries_iff (Value.normalizeDates_eq_ok_iff hid) h]

end Finder

namespace Store

variable {σ : Type} {ctx : Context σ} {cascade : Cascade σ} {m : Model σ} {id changes : Value}

/-- Deleting by an identity asks for it as it was given. Finding and changing a record by it ask for
it in the form that is sought, together with the condition that hides deleted records. What they
find is among what a deletion selects, for every meaning of the entries of filters and every
document, exactly if the identity is kept; then, and only then, every request of theirs that
listeners do not change in this names the identity that was given. -/
theorem delete_selects_found_iff (hid : id.isIdentity = true) :
    (∀ s, (Finder.delete ctx m id).run s = (do
      ctx.requireBound m.toSchema
      ctx.request m.collection (.deleteOne [(m.primaryId, id)]) : Action σ Int).run s) ∧
    (m.primaryId ≠ .text "with_deleted" → ∀ f, Finder.Seeks m.toSchema id f ↔
      ∃ v, Finder.identity id = .ok v ∧
        f = Finder.shown m.toSchema [(m.primaryId, Finder.recognized m.toSchema v)]) ∧
    ((∃ f, Finder.Seeks m.toSchema id f ∧ ∀ meaning doc,
      Query.Selects meaning f doc → Query.Selects meaning [(m.primaryId, id)] doc) ↔
        Finder.Keeps m.toSchema id) ∧
    ∀ (P : σ → Prop) (method : Method σ), method = .find id ∨ method = .update id changes →
      ctx.Heeds (fun f => (m.primaryId, id) ∈ f ↔ Finder.Keeps m.toSchema id) P →
      Saves P cascade → (method.act ctx cascade m).Preserves P := by
  refine ⟨?_, fun hprimary f => Finder.seeks_iff hid hprimary, ?_, ?_⟩
  · intro s
    cases id <;> first | rfl | cases hid
  · simp only [← Finder.mem_iff_forall_selects]
    exact Finder.exists_mem_of_seeks_iff hid
  · intro P method hmethod hctx hsaves
    refine Method.preserves_of_asks hctx hsaves (Finder.makes_kept hid) ?_
    rcases hmethod with rfl | rfl <;> exact fun v hv => ⟨v, hv, rfl⟩

/-! ### Customers with numbers -/

/-- A journal of what is asked about customers. -/
def customers : Context (List Request) :=
  { Context.journaling with
    model := fun name => { Context.journaling.model name with collection := "customers" } }

def nobody : Cascade (List Request) :=
  Lifecycle.cascade customers 0

/-- A customer is found, changed and deleted by the number 7. -/
theorem delete_selects_found_iff_seven :
    (Value.int 7).isIdentity = true ∧
    (∃ f, Finder.Seeks (customers.model "Customer").toSchema (.int 7) f ∧ ∀ meaning doc,
      Query.Selects meaning f doc → Query.Selects meaning [(.text "id", .int 7)] doc) ∧
    ((Finder.delete customers (customers.model "Customer") (.int 7)).run []).2 =
      [⟨"customers", .deleteOne [(.text "id", .int 7)]⟩] := by
  have hid : (Value.int 7).isIdentity = true := rfl
  obtain ⟨hdelete, -, hiff, -⟩ :=
    @delete_selects_found_iff _ customers nobody (customers.model "Customer") _ .null hid
  refine ⟨hid, hiff.2 ⟨?_, ?_⟩, ?_⟩
  · show Value.text "id" ≠ .text "with_deleted"
    simp
  · rintro ⟨t, htext, -⟩
    cases htext
  · rw [hdelete]
    rfl

/-- By the text of that number the customer is found and not deleted. -/
theorem not_deletes_found_digits :
    ((Finder.find customers (customers.model "Customer") (.text "7")).run []).2 =
      [⟨"customers", .findOne [(.text "id", .int 7)]⟩] ∧
    ((Finder.delete customers (customers.model "Customer") (.text "7")).run []).2 =
      [⟨"customers", .deleteOne [(.text "id", .text "7")]⟩] ∧
    Query.Selects meant [(.text "id", .int 7)] (Sample.person 7 "Ann") ∧
    ¬ Query.Selects meant [(.text "id", .text "7")] (Sample.person 7 "Ann") := by
  have hpath : Path.ofText "id" = ["id"] := rfl
  have hfield : (Sample.person 7 "Ann").field? "id" = some (.int 7) := rfl
  refine ⟨rfl, rfl, ?_, ?_⟩
  · intro e he
    rw [List.mem_singleton.1 he]
    refine ⟨"id", rfl, ?_⟩
    rw [hpath, Path.finds_field, hfield]
    exact .inl rfl
  · intro h
    obtain ⟨path, hkey, hfinds⟩ := h _ (List.mem_singleton_self _)
    cases hkey
    rw [hpath, Path.finds_field, hfield] at hfinds
    rcases hfinds with hequal | ⟨items, hlist, -⟩
    · cases hequal
    · cases hlist

end Store

end DocumentMapper
