import DocumentMapper.Proofs.Document.Moments
import DocumentMapper.Sync.Copies

/-!
# Moments of records and their copies

What a record embeds, and what becomes of a document when its copies are changed, holds no moments
but those of the record, of the document and of what the model declares.
-/

namespace DocumentMapper

open Calendar Outcome

variable {σ : Type} {reach : Reach} {p : Moment → Prop} {v w id payload : Value} {d d' : Document}
  {columns : List String}

/-! ## Records -/

/-- Every moment in the data of a record, and in its data when last stored, has a property. -/
structure Record.All (p : Moment → Prop) (r : Record) : Prop where
  data : r.data.All .records p
  stored : r.stored.All .records p

/-- Every moment in what a schema gives to its records has a property. -/
structure Schema.All (p : Moment → Prop) (s : Schema) : Prop where
  methods : ∀ name v, (name, .value v) ∈ s.methods → v.All .records p
  settings : ∀ name v, Record.setting? s name = some v → v.All .records p

namespace Record

variable {r r' : Record} {s : Schema}

theorem all_identified (hd : d.All reach p) : (identified d).All reach p := by
  unfold identified
  split
  · split
    · exact hd.putField (Value.all_of_moments rfl) _
    · exact hd
  · exact hd

theorem all_ofData (model : String) (hd : d.All .records p) : (ofData model d).All p :=
  ⟨all_identified hd, all_identified hd⟩

theorem all_of_build {model : String} (hv : v.All .records p) (h : build model v = .ok r) :
    r.All p := by
  unfold build at h
  split at h
  · cases h
    exact all_ofData model (Value.all_dict.1 hv)
  · cases h
    exact all_ofData model (Value.all_record.1 hv).1
  · split at h
    · cases h
    · cases h
      exact all_ofData model Document.all_nil

theorem all_toValue (hr : r.All p) : r.toValue.All .records p :=
  Value.all_record.2 ⟨hr.data, hr.stored⟩

theorem all_of_ofValue? (hv : v.All .records p) (h : ofValue? v = some r) : r.All p := by
  unfold ofValue? at h
  split at h
  · cases h
    obtain ⟨hdata, hstored⟩ := Value.all_record.1 hv
    exact ⟨hdata, hstored⟩
  · cases h

theorem All.set {column : String} (hr : r.All p) (hv : v.All .records p)
    (h : r.set column v = .ok r') : r'.All p := by
  obtain ⟨d, hd, h⟩ := bind_eq_ok.1 h
  cases h
  exact ⟨hr.data.putColumn hv hd, hr.stored⟩

/-- What a record embeds is part of it. -/
theorem All.embedded (hr : r.All p) (h : embedded s r = .ok d) : d.All .records p := by
  unfold Record.embedded at h
  split at h
  · exact hr.data.without h
  · split at h
    · obtain ⟨names, -, h⟩ := bind_eq_ok.1 h
      exact hr.data.without h
    · split at h
      · exact hr.data.only h
      · cases h
        exact hr.data

theorem All.embeddedValue (hr : r.All p) (h : embeddedValue s r = .ok v) : v.All .records p := by
  obtain ⟨d, hd, rfl⟩ := map_eq_ok.1 h
  exact Value.all_dict.2 (hr.embedded hd)

theorem All.callMethod {m : Method} (hr : r.All p) (hm : ∀ v, m = .value v → v.All .records p)
    (h : callMethod r m = .ok v) : v.All .records p := by
  unfold Record.callMethod at h
  split at h
  · obtain ⟨d, hd, rfl⟩ := map_eq_ok.1 h
    exact Value.all_dict.2 (hr.data.only hd)
  · cases h
    exact Value.all_null
  · cases h
  · cases h
    exact hm v rfl

theorem All.ownMember? {name : String} (hr : r.All p)
    (h : ownMember? s r name = some (.ok v)) : v.All .records p := by
  unfold Record.ownMember? at h
  split at h
  · cases h
    exact hr.data.fieldOrNull "id"
  · exact hr.embeddedValue (Option.some.inj h)
  · cases h
    exact Value.all_bool _
  · cases h
    exact Value.all_bool _
  · cases h
    exact all_toValue (all_ofData _ hr.data)
  · cases h
    exact Value.all_text _
  · cases h
    exact Value.all_text _
  all_goals cases h

/-- A record gives under a name what it holds or what its model declares. -/
theorem All.member? {name : String} (hr : r.All p) (hs : s.All p)
    (h : member? s r name = some (.ok v)) : v.All .records p := by
  unfold Record.member? at h
  split at h
  · cases h
    exact Value.all_dict.2 hr.data
  · cases h
    exact Value.all_dict.2 hr.stored
  · cases h
    exact Value.all_bool _
  · split at h
    · rename_i m hm
      obtain ⟨l₁, l₂, hmethods, -⟩ := List.lookup_eq_some_iff.1 hm
      refine hr.callMethod (fun v hv => hs.methods name v ?_) (Option.some.inj h)
      subst hv
      rw [hmethods]
      exact List.mem_append_right _ List.mem_cons_self
    · rcases Option.or_eq_some_iff.1 h with hown | ⟨-, hsetting⟩
      · exact hr.ownMember? hown
      · obtain ⟨w, hw, hv⟩ := Option.map_eq_some_iff.1 hsetting
        cases hv
        exact hs.settings name v hw

end Record

/-! ## Copies -/

namespace Sync

variable {mode : Mode} {column top field : String}

theorem all_changeIn {change : Document → Document}
    (hchange : ∀ d : Document, d.All reach p → (change d).All reach p) (hv : v.All reach p) :
    (changeIn change field id v).All reach p := by
  unfold changeIn
  split
  · split
    · exact Value.all_dict.2 (hchange _ (Value.all_dict.1 hv))
    · exact hv
  · exact hv

theorem all_of_elements? {items : List Value} (hd : d.All reach p)
    (h : elements? d top = .ok (some items)) : ∀ v ∈ items, v.All reach p := by
  obtain ⟨held, hheld, h⟩ := bind_eq_ok.1 h
  split at h
  · cases h
    exact Value.all_list.1 (EmbeddedList.all_of_current hd hheld)
  · cases h

theorem all_of_replaceNested (hpayload : payload.All reach p) (hd : d.All reach p)
    (h : replaceNested d top field id payload = .ok d') : d'.All reach p := by
  obtain ⟨found, hfound, h⟩ := bind_eq_ok.1 h
  cases found with
  | none =>
    cases h
    exact hd
  | some items =>
    simp only at h
    split at h
    · refine hd.putColumn (Value.all_list.2 (List.forall_mem_map.2 fun v hv => ?_)) h
      exact all_changeIn (fun _ hd => hd.putField hpayload field) (all_of_elements? hd hfound v hv)
    · cases h
      exact hd

theorem all_of_unsetNested (hd : d.All reach p) (h : unsetNested d top field id = .ok d') :
    d'.All reach p := by
  obtain ⟨found, hfound, h⟩ := bind_eq_ok.1 h
  cases found with
  | none =>
    cases h
    exact hd
  | some items =>
    refine hd.putColumn (Value.all_list.2 (List.forall_mem_map.2 fun v hv => ?_)) h
    exact all_changeIn (fun _ hd => hd.eraseField field) (all_of_elements? hd hfound v hv)

theorem all_of_refreshColumn (hpayload : payload.All reach p) (hd : d.All reach p)
    (h : refreshColumn mode id payload d column = .ok d') : d'.All reach p := by
  unfold refreshColumn at h
  split at h
  · exact all_of_replaceNested hpayload hd h
  · obtain ⟨found, -, h⟩ := bind_eq_ok.1 h
    split at h
    · split at h
      · exact hd.putColumn hpayload h
      · exact EmbeddedList.all_of_reassociate hpayload hd h
    · cases h
      exact hd

/-- A refreshed document holds what it held and the payload. -/
theorem all_of_refresh (hpayload : payload.All reach p) (hd : d.All reach p)
    (h : refresh mode columns id payload d = .ok d') : d'.All reach p :=
  hd.foldlM (fun _ _ _ => all_of_refreshColumn hpayload) h

theorem all_of_releaseColumn {embedded : Except Error Value} (hd : d.All reach p)
    (h : releaseColumn mode id embedded d column = .ok d') : d'.All reach p := by
  unfold releaseColumn at h
  split at h
  · exact all_of_unsetNested hd h
  · obtain ⟨found, -, h⟩ := bind_eq_ok.1 h
    split at h
    · split at h
      · exact hd.eraseColumn h
      · obtain ⟨copy, -, h⟩ := bind_eq_ok.1 h
        exact EmbeddedList.all_of_disassociate hd h
    · cases h
      exact hd

/-- A document without copies holds what it held. -/
theorem all_of_release {embedded : Except Error Value} (hd : d.All reach p)
    (h : release mode columns id embedded d = .ok d') : d'.All reach p :=
  hd.foldlM (fun _ _ _ => all_of_releaseColumn) h

/-- A document with another copy holds what it held and the payload. -/
theorem all_of_embed (hpayload : payload.All reach p) (hd : d.All reach p)
    (h : embed mode columns payload d = .ok d') : d'.All reach p := by
  refine hd.foldlM (fun d column d' hd h => ?_) h
  unfold embedColumn at h
  split at h
  · exact hd.putColumn hpayload h
  · exact EmbeddedList.all_of_associate hpayload hd h

theorem Rule.all_of_payload {rule : Rule σ} {s : Schema} {r : Record} (hs : s.All p)
    (hr : r.All p) (h : rule.payload s r = .ok v) : v.All .records p := by
  unfold Rule.payload at h
  split at h
  · exact hr.embeddedValue h
  · rename_i outcome hmember
    obtain ⟨w, hw, hpayload⟩ := bind_eq_ok.1 h
    subst hw
    split at hpayload
    · exact hr.embeddedValue hpayload
    · cases hpayload
      exact hr.member? hs hmember

end Sync

end DocumentMapper
