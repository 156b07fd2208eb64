import DocumentMapper.Proofs.Document.Fields
import DocumentMapper.Proofs.Document.Update
import DocumentMapper.Proofs.Path.Segments
import DocumentMapper.Proofs.Procedure
import DocumentMapper.Proofs.Query.Concatenation

/-!
# What becomes of joined records

A joining may come with a transform, which the query keeps in a table under the field in which the
records land. Once documents are fetched, every field is treated by the transform that the table
has for it, whatever stands there.

What is due to a field is the transform of the last joining under it since the query last began
anew. The table, however, gains an entry with each joining that has a transform and never loses
one: neither beginning anew nor a joining without a transform takes it out again. It is also looked
up by the names of fields, so that nothing ever happens to what stands further down on a path.
-/

namespace DocumentMapper

open Outcome

namespace Document

/-- A document as a database gives it, with texts for keys. -/
def HasTextKeys (d : Document) : Prop :=
  ∀ key ∈ d.map Prod.fst, ∃ name, key = .text name

theorem has_of_field? {d : Document} {name : String} {v : Value} (h : d.field? name = some v) :
    d.has (.text name) = true := by
  obtain ⟨e, he, -⟩ := Option.map_eq_some_iff.1 h
  have hsame := List.find?_some he
  exact List.any_eq_true.2 ⟨e, List.mem_of_find?_eq_some he, hsame⟩

theorem HasTextKeys.of_keys {d d' : Document} (h : d.HasTextKeys)
    (hkeys : d'.map Prod.fst = d.map Prod.fst) : d'.HasTextKeys := by
  unfold HasTextKeys
  rwa [hkeys]

theorem hasTextKeys_singleton (name : String) (v : Value) : HasTextKeys [(.text name, v)] :=
  fun _ hkey => ⟨name, List.mem_singleton.1 hkey⟩

theorem HasTextKeys.eraseField {d : Document} (h : d.HasTextKeys) (name : String) :
    (d.eraseField name).HasTextKeys := by
  intro key hkey
  obtain ⟨e, he, rfl⟩ := List.mem_map.1 hkey
  exact h e.1 (List.mem_map_of_mem (List.mem_of_mem_filter he))

end Document

namespace Query

variable {σ : Type} {m : Model σ} {q : Query} {calls : List Extension} {c : Extension}
  {table rest : List (Value × Transform)} {d d₁ d' : Document} {key landing v w : Value}
  {field field' : Option Value} {t : Transform} {s s' : Option Transform} {a b : String}

/-! ## Treatments -/

/-- What becomes of a value: of each element of a list by itself, of null nothing. -/
def treat : Option Transform → Value → Except Error Value
  | none, v => .ok v
  | some t, .list items => Value.list <$> items.mapM t
  | some _, .null => .ok .null
  | some t, v => t v

/-- A treatment that leaves every value as it is. -/
def Idle (s : Option Transform) : Prop :=
  ∀ v, treat s v = .ok v

/-- What becomes of a field, if there is one. -/
def treatField (s : Option Transform) : Option Value → Except Error (Option Value)
  | none => .ok none
  | some v => some <$> treat s v

theorem treatField_some_eq_ok :
    treatField s (some v) = .ok field ↔ ∃ w, treat s v = .ok w ∧ field = some w := by
  show some <$> treat s v = _ ↔ _
  rw [map_eq_ok]
  simp only [eq_comm]

@[simp] theorem treatField_none (field : Option Value) : treatField none field = .ok field := by
  cases field <;> rfl

/-- Of two transforms for a field one at most does anything to it. -/
theorem treatField_or (h : s = none ∨ s' = none) :
    treatField (s.or s') field = .ok field' ↔
      ∃ between, treatField s field = .ok between ∧ treatField s' between = .ok field' := by
  rcases h with rfl | rfl
  · simp
  · simp

/-! ## One field after another -/

/-- Writes a field, if there is something to write. -/
def putIfSome (a : String) (d : Document) : Option Value → Document
  | some v => d.putField a v
  | none => d

/-- A transform under a text treats the field of that name. -/
theorem transformField_text (d : Document) (a : String) (t : Transform) :
    transformField d (.text a) t = putIfSome a d <$> treatField (some t) (d.field? a) := by
  have hget : d.get? (.text a) = d.field? a := rfl
  unfold transformField
  rw [hget]
  cases hfield : d.field? a with
  | none => rfl
  | some v =>
    cases v with
    | null => exact congrArg Except.ok (Document.putField_of_field? hfield).symm
    | list items =>
      simp only [treatField, treat]
      cases items.mapM t <;> rfl
    | _ =>
      simp only [treatField, treat]
      cases t _ <;> rfl

/-- A document has nothing under a key that is no text. -/
theorem transformField_of_ne_text (hd : d.HasTextKeys) (hkey : ∀ a, key ≠ .text a)
    (t : Transform) : transformField d key t = .ok d := by
  have hget : d.get? key = none := by
    rw [Document.get?, Option.map_eq_none_iff, List.find?_eq_none]
    rintro ⟨k, v⟩ he hsame
    obtain ⟨name, rfl⟩ := hd k (List.mem_map_of_mem (f := Prod.fst) he)
    exact hkey name (Value.text_same.1 hsame)
  unfold transformField
  rw [hget]

/-- The transform that a table has for a field. -/
def transformAt (table : List (Value × Transform)) (a : String) : Option Transform :=
  (table.find? fun e => e.1.same (.text a)).map (·.2)

@[simp] theorem transformAt_nil (a : String) : transformAt [] a = none := rfl

@[simp] theorem transformAt_cons_self (a : String) (t : Transform) (rest) :
    transformAt ((.text a, t) :: rest) a = some t := by
  simp [transformAt, Value.same_text]

theorem transformAt_cons_of_ne (h : key ≠ .text a) (t : Transform) (rest) :
    transformAt ((key, t) :: rest) a = transformAt rest a := by
  simp [transformAt, Value.same_text_eq_false h]

theorem transformAt_cons (key : Value) (t : Transform) (rest) (a : String) :
    transformAt ((key, t) :: rest) a = (transformAt [(key, t)] a).or (transformAt rest a) := by
  by_cases h : key = .text a
  · simp [h]
  · simp [transformAt_cons_of_ne h]

/-- What one entry of the table does to a document: it treats the fields. -/
theorem transformField_fields (hd : d.HasTextKeys) (h : transformField d key t = .ok d₁) :
    d₁.map Prod.fst = d.map Prod.fst ∧
      ∀ b, treatField (transformAt [(key, t)] b) (d.field? b) = .ok (d₁.field? b) := by
  by_cases hkey : ∀ a, key ≠ .text a
  · rw [transformField_of_ne_text hd hkey, Except.ok.injEq] at h
    subst h
    refine ⟨rfl, fun b => ?_⟩
    rw [transformAt_cons_of_ne (hkey b), transformAt_nil, treatField_none]
  · push Not at hkey
    obtain ⟨a, rfl⟩ := hkey
    rw [transformField_text, map_eq_ok] at h
    obtain ⟨field, hfield, rfl⟩ := h
    cases hat : d.field? a with
    | none =>
      rw [hat] at hfield
      cases hfield
      refine ⟨rfl, fun b => ?_⟩
      by_cases hb : b = a
      · rw [hb, putIfSome, hat]
        rfl
      · rw [transformAt_cons_of_ne (by simpa using Ne.symm hb)]
        simp [putIfSome]
    | some v =>
      rw [hat] at hfield
      obtain ⟨w, hw, rfl⟩ := treatField_some_eq_ok.1 hfield
      refine ⟨Document.map_fst_put_of_has (Document.has_of_field? hat) w, fun b => ?_⟩
      by_cases hb : b = a
      · rw [hb, transformAt_cons_self, hat, hfield, putIfSome, Document.field?_putField_self]
      · rw [transformAt_cons_of_ne (by simpa using Ne.symm hb), putIfSome,
          Document.field?_putField_of_ne hb]
        simp

/-- One entry of the table goes through if the fields do. -/
theorem exists_transformField (hd : d.HasTextKeys)
    (h : ∀ b, ∃ field, treatField (transformAt [(key, t)] b) (d.field? b) = .ok field) :
    ∃ d₁, transformField d key t = .ok d₁ := by
  by_cases hkey : ∀ a, key ≠ .text a
  · exact ⟨d, transformField_of_ne_text hd hkey t⟩
  · push Not at hkey
    obtain ⟨a, rfl⟩ := hkey
    obtain ⟨field, hfield⟩ := h a
    rw [transformAt_cons_self] at hfield
    exact ⟨putIfSome a d field, by rw [transformField_text, hfield]; rfl⟩

/-! ## All transforms of a table -/

/-- A table has one transform for a field at most. -/
def Unambiguous : List (Value × Transform) → Prop
  | [] => True
  | (key, _) :: rest => (∀ a, key = .text a → transformAt rest a = none) ∧ Unambiguous rest

theorem Unambiguous.head (h : Unambiguous ((key, t) :: rest)) (a : String) :
    transformAt [(key, t)] a = none ∨ transformAt rest a = none := by
  by_cases hkey : key = .text a
  · exact .inr (h.1 a hkey)
  · exact .inl (transformAt_cons_of_ne hkey t [])

/-- A field is treated by the first entry of a table and then by the others. -/
theorem treatField_cons (h : Unambiguous ((key, t) :: rest)) (a : String) :
    treatField (transformAt ((key, t) :: rest) a) field = .ok field' ↔
      ∃ between, treatField (transformAt [(key, t)] a) field = .ok between ∧
        treatField (transformAt rest a) between = .ok field' := by
  rw [transformAt_cons]
  exact treatField_or (h.head a)

/-- What comes out of a document has the same keys, and under each of them what its own transform
makes of what was there. -/
theorem transformed_fields (htable : Unambiguous table) (hd : d.HasTextKeys)
    (h : transformed d table = .ok d') :
    d'.map Prod.fst = d.map Prod.fst ∧
      ∀ a, treatField (transformAt table a) (d.field? a) = .ok (d'.field? a) := by
  induction table generalizing d with
  | nil =>
    obtain rfl := foldlM_nil_eq_ok.1 h
    exact ⟨rfl, fun a => treatField_none (d.field? a)⟩
  | cons e rest ih =>
    obtain ⟨key, t⟩ := e
    obtain ⟨d₁, hfirst, hrest⟩ := foldlM_cons_eq_ok.1 h
    obtain ⟨hkeys, hfields⟩ := transformField_fields hd hfirst
    obtain ⟨hkeys', hfields'⟩ := ih htable.2 (hd.of_keys hkeys) hrest
    refine ⟨hkeys'.trans hkeys, fun a => ?_⟩
    exact (treatField_cons htable a).2 ⟨d₁.field? a, hfields a, hfields' a⟩

/-- A document comes out exactly if each of its fields does. -/
theorem exists_transformed_iff (htable : Unambiguous table) (hd : d.HasTextKeys) :
    (∃ d', transformed d table = .ok d') ↔
      ∀ a, ∃ field, treatField (transformAt table a) (d.field? a) = .ok field := by
  constructor
  · rintro ⟨d', h⟩ a
    exact ⟨d'.field? a, (transformed_fields htable hd h).2 a⟩
  · intro h
    induction table generalizing d with
    | nil => exact ⟨d, rfl⟩
    | cons e rest ih =>
      obtain ⟨key, t⟩ := e
      obtain ⟨d₁, hfirst⟩ : ∃ d₁, transformField d key t = .ok d₁ := by
        refine exists_transformField hd fun a => ?_
        obtain ⟨field, hfield⟩ := h a
        obtain ⟨between, hbetween, -⟩ := (treatField_cons htable a).1 hfield
        exact ⟨between, hbetween⟩
      obtain ⟨hkeys, hfields⟩ := transformField_fields hd hfirst
      obtain ⟨d', hrest⟩ : ∃ d', transformed d₁ rest = .ok d' := by
        refine ih htable.2 (hd.of_keys hkeys) fun a => ?_
        obtain ⟨field, hfield⟩ := h a
        obtain ⟨between, hbetween, hrest⟩ := (treatField_cons htable a).1 hfield
        cases hbetween.symm.trans (hfields a)
        exact ⟨field, hrest⟩
      exact ⟨d', foldlM_cons_eq_ok.2 ⟨d₁, hfirst, hrest⟩⟩

/-! ## The table of a query -/

theorem transformAt_putTransform (landing : Value) (t : Transform) (table) (a : String) :
    transformAt (putTransform landing t table) a =
      if landing.same (.text a) then some t else transformAt table a := by
  induction table with
  | nil =>
    simp only [putTransform, transformAt, List.find?_cons]
    cases landing.same (.text a) <;> rfl
  | cons e rest ih =>
    obtain ⟨key, old⟩ := e
    unfold putTransform
    by_cases hkey : key = .text a
    · subst hkey
      by_cases hsame : (Value.text a).same landing = true
      · obtain rfl := Value.text_same.1 hsame
        simp [Value.same_text]
      · have hne : landing ≠ .text a := fun h => hsame (Value.text_same.2 h)
        simp [hsame, Value.same_text_eq_false hne]
    · by_cases hsame : key.same landing = true
      · have hne : landing ≠ .text a := by
          rintro rfl
          exact hkey (Value.same_text.1 hsame)
        simp [hsame, transformAt_cons_of_ne hkey, Value.same_text_eq_false hne]
      · simp [hsame, transformAt_cons_of_ne hkey, ih]

theorem Unambiguous.putTransform (h : Unambiguous table) (landing : Value) (t : Transform) :
    Unambiguous (putTransform landing t table) := by
  induction table with
  | nil => exact ⟨fun _ _ => rfl, trivial⟩
  | cons e rest ih =>
    obtain ⟨key, old⟩ := e
    obtain ⟨hkey, hrest⟩ := h
    unfold Query.putTransform
    split
    · exact ⟨hkey, hrest⟩
    · next hsame =>
      refine ⟨fun a ha => ?_, ih hrest⟩
      subst ha
      have hne : landing ≠ .text a := fun h => hsame (Value.text_same.2 h)
      rw [transformAt_putTransform, Value.same_text_eq_false hne, hkey a rfl]
      rfl

/-- Where the records of a joining land, and what is to become of them. -/
def attachment (m : Model σ) (ref : JoinRef) (extras : JoinExtras) :
    Except Error (Value × Option Transform) := do
  let j ← resolve m ref
  let options ← ((joinOptions extras).run j).1
  .ok (options.fieldOrNull "as", j.transform)

/-- The transform of a joining, if its records land under an alias. -/
def under (a : String) : Option (Value × Option Transform) → Option (Option Transform)
  | some (landing, t) => if landing.same (.text a) then some t else none
  | none => none

namespace Extension

/-- Where the records of a call's joining land, if the call joins any. -/
def attachment? (m : Model σ) : Extension → Option (Value × Option Transform)
  | join ref extras => (attachment m ref extras).toOption
  | joinCount ref extras => do
    let j ← (resolve m ref).toOption
    (attachment m (.given j) { extras with landing := .null }).toOption
  | _ => none

/-- The transform of a call's joining, if it joins under an alias. -/
def attached? (m : Model σ) (a : String) (c : Extension) : Option (Option Transform) :=
  under a (c.attachment? m)

def isReset : Extension → Bool
  | refine .reset => true
  | _ => false

end Extension

/-- The transform of the last joining under an alias since the query last began anew. -/
def due (m : Model σ) (a : String) (calls : List Extension) : Option Transform :=
  ((calls.reverse.takeWhile fun c => !c.isReset).findSome? (Extension.attached? m a)).join

/-- The last transform that any joining under an alias ever came with. -/
def held (m : Model σ) (a : String) (calls : List Extension) : Option Transform :=
  calls.reverse.findSome? fun c => (c.attached? m a).join

theorem findSome?_join {α β : Type} {f : α → Option (Option β)} {l : List α} {x : β}
    (h : (l.findSome? f).join = some x) : (l.findSome? fun a => (f a).join) = some x := by
  induction l with
  | nil => cases h
  | cons a l ih =>
    rw [List.findSome?_cons] at h ⊢
    cases hf : f a with
    | none =>
      rw [hf] at h
      exact ih h
    | some found =>
      rw [hf] at h
      cases h
      rfl

/-- What is due is held. -/
theorem held_of_due (h : due m a calls = some t) : held m a calls = some t := by
  have hrecent := findSome?_join h
  rw [held, ← List.takeWhile_append_dropWhile (p := fun c => !c.isReset) (l := calls.reverse),
    List.findSome?_append, hrecent]
  rfl

/-- A table after a joining: one that has a transform enters it. -/
def entered (table : List (Value × Transform)) :
    Option (Value × Option Transform) → List (Value × Transform)
  | some (landing, some t) =>
    if landing.unhashable?.isNone then putTransform landing t table else table
  | _ => table

theorem preserves_onStages (act : Action (List Stage) Unit) (table : List (Value × Transform)) :
    (onStages act).Preserves fun q => q.transforms = table :=
  fun _ h => h

theorem transforms_join (m : Model σ) (ref : JoinRef) (extras : JoinExtras) (q : Query) :
    ((join m ref extras).run q).2.transforms =
      entered q.transforms (attachment m ref extras).toOption := by
  unfold join attachment
  cases resolve m ref with
  | error e => rfl
  | ok j =>
    simp only [Action.run_ofExcept, bind, Except.bind]
    cases ((joinOptions extras).run j).1 with
    | error e => rfl
    | ok options =>
      dsimp only
      cases j.transform with
      | none => rfl
      | some t =>
        simp only [Except.toOption, entered, Value.asKey]
        cases (options.fieldOrNull "as").unhashable? <;> rfl

/-- What a call does to the table. -/
theorem transforms_act (m : Model σ) (c : Extension) (q : Query) :
    ((c.act m).run q).2.transforms = entered q.transforms (c.attachment? m) := by
  cases c with
  | refine r => rfl
  | join ref extras => exact transforms_join m ref extras q
  | joinCount ref extras =>
    simp only [Extension.act, Extension.attachment?, joinCount]
    cases resolve m ref with
    | error e => rfl
    | ok j =>
      have hjoin := transforms_join m (.given j) { extras with landing := .null } q
      -- what comes after the join adds a field and leaves the table alone
      change ((join m (.given j) { extras with landing := .null } >>= fun _ =>
        Action.ofExcept (Column.reference j.landing) >>= fun size =>
          onStages (Refinement.addField (countField j extras) (.single "$size" size)).apply).run
            q).2.transforms = _
      rw [Action.run_bind]
      rcases hrun : (join m (.given j) { extras with landing := .null }).run q with ⟨e | ⟨⟨⟩⟩, q₁⟩
      · rw [hrun] at hjoin
        exact hjoin
      · rw [hrun] at hjoin
        exact Action.Preserves.ofExcept_bind (fun size _ => preserves_onStages _ _) q₁ hjoin
  | relate name params =>
    simp only [Extension.act, Extension.attachment?, relate, entered]
    cases m.relations.lookup name with
    | none => rfl
    | some relation =>
      have hlookup := fun options : Document =>
        preserves_onStages (Refinement.lookup (.dict options)).apply q.transforms
      exact Action.Preserves.ofExcept_bind (fun options _ => hlookup options) q rfl

theorem transformAt_entered (table : List (Value × Transform))
    (found : Option (Value × Option Transform)) (a : String) :
    transformAt (entered table found) a =
      (under a found).join.or (transformAt table a) := by
  cases found with
  | none => rfl
  | some found =>
    obtain ⟨landing, t⟩ := found
    by_cases hlanding : landing = .text a
    · subst hlanding
      cases t with
      | none => simp [entered, under, Value.same_text]
      | some t =>
        simp [entered, under, Value.same_text, transformAt_putTransform, Value.unhashable?]
    · have hsame := Value.same_text_eq_false hlanding
      cases t with
      | none => simp [entered, under, hsame]
      | some t =>
        simp only [entered]
        split <;> simp [under, hsame, transformAt_putTransform]

theorem Unambiguous.entered (h : Unambiguous table) (found : Option (Value × Option Transform)) :
    Unambiguous (entered table found) := by
  unfold Query.entered
  split
  · split
    · exact h.putTransform _ _
    · exact h
  · exact h

/-- After some calls the table of a query has for a field the transform that is held for it, or else
the one that it had before. -/
theorem transformAt_extended (m : Model σ) (calls : List Extension) (q : Query) (a : String) :
    transformAt (extended m calls q).transforms a =
      (held m a calls).or (transformAt q.transforms a) := by
  induction calls generalizing q with
  | nil => rfl
  | cons c rest ih =>
    have hheld : held m a (c :: rest) = (held m a rest).or (c.attached? m a).join := by
      simp [held, List.findSome?_append]
    show transformAt (extended m rest ((c.act m).run q).2).transforms a = _
    rw [ih, transforms_act, transformAt_entered, hheld, Option.or_assoc]
    rfl

theorem unambiguous_extended (m : Model σ) (calls : List Extension) (h : Unambiguous q.transforms) :
    Unambiguous (extended m calls q).transforms := by
  induction calls generalizing q with
  | nil => exact h
  | cons c rest ih =>
    show Unambiguous (extended m rest ((c.act m).run q).2).transforms
    apply ih
    rw [transforms_act]
    exact h.entered _

/-! ## Aliases -/

/-- The field in which an alias is found, directly or further down. -/
def topField (a : String) : String :=
  (Path.ofText a).headD a

/-- A table does to what stands at an alias what it ought to: in a document that comes out without
the field of the alias, the value there becomes what the treatment makes of it. -/
def Honours (table : List (Value × Transform)) (a : String) (s : Option Transform) : Prop :=
  ∀ (d : Document) (v : Value), d.HasTextKeys →
    Path.get? (.dict d) (Path.ofText a) = .ok (some v) →
    (∃ others, transformed (d.eraseField (topField a)) table = .ok others) →
    ∀ w, treat s v = .ok w ↔ ∃ d', transformed d table = .ok d' ∧
      Path.get? (.dict d') (Path.ofText a) = .ok (some w)

theorem topField_eq {top : String} {below : Path} (ha : Path.ofText a = top :: below) :
    topField a = top := by
  rw [topField, ha]
  rfl

/-- What comes out at an alias is read off what becomes of its field. -/
theorem transformed_at_iff (htable : Unambiguous table) (hd : d.HasTextKeys) {top : String}
    {below : Path} {c : Value} (hc : d.field? top = some c)
    (hothers : ∃ others, transformed (d.eraseField top) table = .ok others) :
    (∃ d', transformed d table = .ok d' ∧ Path.get? (.dict d') (top :: below) = .ok (some w)) ↔
      ∃ c', treat (transformAt table top) c = .ok c' ∧ Path.get? c' below = .ok (some w) := by
  constructor
  · rintro ⟨d', hd', hget⟩
    have hfield := (transformed_fields htable hd hd').2 top
    rw [hc] at hfield
    obtain ⟨c', hc', hat⟩ := treatField_some_eq_ok.1 hfield
    rw [Path.get?_dict_cons, hat] at hget
    exact ⟨c', hc', hget⟩
  · rintro ⟨c', hc', hget⟩
    have htop := treatField_some_eq_ok.2 ⟨c', hc', rfl⟩
    have hall : ∀ b, ∃ field, treatField (transformAt table b) (d.field? b) = .ok field := by
      intro b
      by_cases hb : b = top
      · rw [hb, hc]
        exact ⟨some c', htop⟩
      · rw [← Document.field?_eraseField_of_ne hb]
        exact (exists_transformed_iff htable (hd.eraseField top)).1 hothers b
    obtain ⟨d', hd'⟩ := (exists_transformed_iff htable hd).2 hall
    have hfield := (transformed_fields htable hd hd').2 top
    rw [hc, htop, Except.ok.injEq] at hfield
    refine ⟨d', hd', ?_⟩
    rw [Path.get?_dict_cons, ← hfield]
    exact hget

/-- Whether a table honours an alias depends on its transform for the field alone. -/
theorem honours_iff (htable : Unambiguous table) (s : Option Transform) {top : String}
    {below : Path} (ha : Path.ofText a = top :: below) :
    Honours table a s ↔ ∀ c v, Path.get? c below = .ok (some v) → ∀ w, treat s v = .ok w ↔
      ∃ c', treat (transformAt table top) c = .ok c' ∧ Path.get? c' below = .ok (some w) := by
  unfold Honours
  rw [ha, topField_eq ha]
  constructor
  · intro h c v hget w
    -- the document of this field alone, which is empty without it
    have hd := Document.hasTextKeys_singleton top c
    have hfield := Document.field?_cons_self top c []
    have hempty : Document.eraseField [(.text top, c)] top = [] := by
      simp [Document.eraseField, Document.erase, Value.same_text]
    have hothers : ∃ others, transformed (Document.eraseField [(.text top, c)] top) table =
        .ok others := by
      rw [exists_transformed_iff htable (hd.eraseField top), hempty]
      exact fun b => ⟨none, rfl⟩
    have hat : Path.get? (.dict [(.text top, c)]) (top :: below) = .ok (some v) := by
      rw [Path.get?_dict_cons, hfield]
      exact hget
    exact (h _ v hd hat hothers w).trans (transformed_at_iff htable hd hfield hothers)
  · intro h d v hd hat hothers w
    rw [Path.get?_dict_cons] at hat
    cases hfield : d.field? top with
    | none =>
      rw [hfield] at hat
      cases hat
    | some c =>
      rw [hfield] at hat
      exact (h c v hat w).trans (transformed_at_iff htable hd hfield hothers).symm

/-- A table honours the name of a field exactly if its transform does what ought to be done. -/
theorem honours_field_iff (htable : Unambiguous table) (s : Option Transform)
    (ha : Path.ofText a = [a]) :
    Honours table a s ↔ ∀ v w, treat s v = .ok w ↔ treat (transformAt table a) v = .ok w := by
  rw [honours_iff htable s ha]
  simp [Path.get?]

/-- Anything can be found at a path. -/
theorem exists_get? (path : Path) (v : Value) : ∃ c, Path.get? c path = .ok (some v) := by
  induction path with
  | nil => exact ⟨v, rfl⟩
  | cons key rest ih =>
    obtain ⟨c, hc⟩ := ih
    refine ⟨.dict [(.text key, c)], ?_⟩
    rw [Path.get?_dict_cons, Document.field?_cons_self]
    exact hc

/-- In a field without a transform nothing is done at any alias. -/
theorem honours_iff_idle (htable : Unambiguous table) (s : Option Transform)
    (hnone : transformAt table (topField a) = none) : Honours table a s ↔ Idle s := by
  obtain ⟨top, below, ha⟩ := List.exists_cons_of_ne_nil (Path.ofText_ne_nil a)
  rw [topField_eq ha] at hnone
  rw [honours_iff htable s ha, hnone]
  constructor
  · intro h v
    obtain ⟨c, hc⟩ := exists_get? below v
    exact (h c v hc v).2 ⟨c, rfl, hc⟩
  · intro h c v hc w
    rw [h v]
    constructor
    · intro hw
      rw [← Except.ok.inj hw]
      exact ⟨c, rfl, hc⟩
    · rintro ⟨c', hc', hw⟩
      cases hc'
      cases hc.symm.trans hw
      rfl

/-! ## Fetching -/

/-- What a query gives for the documents that it fetches: each field of each document is treated by
the last transform that any joining under the field's name came with, and what comes out at an alias
is read off that. For the name of a field this is what is due to it exactly if nothing is held where
nothing is due, or what is held leaves every value as it is. At an alias in a field that has no
transform nothing is done, be anything due or not. -/
theorem fetch_honours_iff (m : Model σ) (collection : String) (source : Source)
    (calls : List Extension) :
    let q := extended m calls (fresh collection source)
    (∀ (ctx : Context σ) (map : Option Transform) (q₀ : Query) (s s' : σ) (found : List Document),
      (execute ctx).run (q₀, s) = (.ok found, q, s') →
        (fetch ctx map).run (q₀, s) = (results q map found, q, s')) ∧
    (∀ d : Document, d.HasTextKeys →
      ((∃ d', transformed d q.transforms = .ok d') ↔
        ∀ a, ∃ field, treatField (held m a calls) (d.field? a) = .ok field) ∧
      ∀ d', transformed d q.transforms = .ok d' → d'.map Prod.fst = d.map Prod.fst ∧
        ∀ a, treatField (held m a calls) (d.field? a) = .ok (d'.field? a)) ∧
    (∀ a t, due m a calls = some t → held m a calls = some t) ∧
    (∀ a top below, Path.ofText a = top :: below →
      (Honours q.transforms a (due m a calls) ↔
        ∀ c v, Path.get? c below = .ok (some v) → ∀ w, treat (due m a calls) v = .ok w ↔
          ∃ c', treat (held m top calls) c = .ok c' ∧ Path.get? c' below = .ok (some w))) ∧
    (∀ a, Path.ofText a = [a] → (Honours q.transforms a (due m a calls) ↔
      (due m a calls = none → Idle (held m a calls)))) ∧
    ∀ a, held m (topField a) calls = none →
      (Honours q.transforms a (due m a calls) ↔ Idle (due m a calls)) := by
  intro q
  have htable : Unambiguous q.transforms := unambiguous_extended m calls trivial
  have hat : ∀ a, transformAt q.transforms a = held m a calls := by
    intro a
    exact (transformAt_extended m calls _ a).trans Option.or_none
  refine ⟨?_, fun d hd => ⟨?_, fun d' h => ?_⟩, fun a t => held_of_due, fun a top below ha => ?_,
    fun a ha => ?_, fun a hnone => ?_⟩
  · intro ctx map q₀ s s' found hexecute
    exact Action.run_bind_ok hexecute
  · simp only [exists_transformed_iff htable hd, hat]
  · simpa only [hat] using transformed_fields htable hd h
  · rw [honours_iff htable _ ha, hat]
  · rw [honours_field_iff htable _ ha, hat]
    cases hdue : due m a calls with
    | none =>
      constructor
      · intro h _ v
        exact (h v v).1 rfl
      · intro h v w
        rw [h rfl v]
        rfl
    | some t => simp [held_of_due hdue]
  · exact honours_iff_idle htable _ ((hat _).trans hnone)

/-- Puts a value into a dictionary of its own. -/
def wrap : Transform := fun v => .ok (.single "wrapped" v)

/-- Joins orders under an alias, with or without a transform. -/
def joinOrders (a : String) (t : Option Transform) : Extension :=
  .join (.given { Joinable.fresh (.plain "Order") with transform := t })
    { (default : JoinExtras) with landing := .text a }

/-- A customer with two numbers in the field for orders. -/
def customer : Document :=
  [(.text "id", .int 1), (.text "orders", .list [.int 31, .int 32])]

/-- Orders that are joined and joined once more, now with a transform. -/
theorem fetch_honours_iff_orders :
    let m : Model Unit := Context.quiet.model "Customer"
    let calls := [joinOrders "orders" none, joinOrders "orders" (some wrap)]
    let q := extended m calls (fresh "customers" (.model "Customer"))
    due m "orders" calls = some wrap ∧ Honours q.transforms "orders" (some wrap) ∧
      (fetch (.sample [customer] fun _ => return 1) (some .ok)).run (q, ()) =
        (.ok [.dict [(.text "id", .int 1), (.text "orders", .list
          [.single "wrapped" (.int 31), .single "wrapped" (.int 32)])]], q, ()) := by
  intro m calls q
  obtain ⟨hfetch, -, -, -, hfield, -⟩ := fetch_honours_iff m "customers" (.model "Customer") calls
  have hdue : due m "orders" calls = some wrap := rfl
  refine ⟨hdue, ?_, ?_⟩
  · rw [← hdue]
    exact (hfield "orders" (by decide)).2 (by simp [hdue])
  · exact hfetch (.sample [customer] fun _ => return 1) (some .ok) q () () [customer] rfl

/-- A query that has begun anew still transforms what stands where it joined orders before. -/
theorem not_honours_anew :
    let m : Model Unit := Context.quiet.model "Customer"
    let calls := [joinOrders "orders" (some wrap), .refine .reset]
    due m "orders" calls = none ∧ ¬ Honours
      (extended m calls (fresh "customers" (.model "Customer"))).transforms "orders" none := by
  intro m calls
  refine ⟨rfl, fun h => ?_⟩
  have hkeys : customer.HasTextKeys := by
    intro key hkey
    simp [customer] at hkey
    rcases hkey with rfl | rfl <;> exact ⟨_, rfl⟩
  obtain ⟨d', hd', hget⟩ := (h customer (.list [.int 31, .int 32]) hkeys rfl ⟨_, rfl⟩ _).1 rfl
  have hwrapped : transformed customer
      (extended m calls (fresh "customers" (.model "Customer"))).transforms =
      .ok [(.text "id", .int 1), (.text "orders", .list
        [.single "wrapped" (.int 31), .single "wrapped" (.int 32)])] := rfl
  cases hwrapped.symm.trans hd'
  cases hget

end Query

end DocumentMapper
