import DocumentMapper.Action
import DocumentMapper.Proofs.Path.Writing

/-!
# Writing in place

A document that is written to in place is changed on the way: where there is neither a dictionary
nor a list below a key, a new dictionary is put there before the walk goes on. A walk that fails
later on would leave it behind. It never does, because below a new dictionary nothing can fail, so
that writing in place changes the document as a whole or not at all.

A walk fails in lists only: at a segment that names no element, and at an element that has no parts
while there are segments left.
-/

namespace DocumentMapper

namespace Action

variable {σ : Type}

/-- The action that changes the state as a whole or not at all. -/
def update (f : σ → Except Error σ) : Action σ Unit :=
  ⟨fun s =>
    match f s with
    | .ok s' => (.ok (), s')
    | .error e => (.error e, s)⟩

variable {f : σ → Except Error σ} {s s' : σ} {e : Error}

theorem run_update (f : σ → Except Error σ) (s : σ) :
    (update f).run s =
      match f s with
      | .ok s' => (.ok (), s')
      | .error e => (.error e, s) := rfl

theorem run_update_eq_ok : (update f).run s = (.ok (), s') ↔ f s = .ok s' := by
  rw [run_update]
  cases f s <;> simp

theorem run_update_eq_error :
    (update f).run s = (.error e, s') ↔ f s = .error e ∧ s' = s := by
  rw [run_update]
  cases f s <;> simp [eq_comm]

/-- An action that changes a part as a whole or not at all. -/
theorem run_within_update {τ : Type} (part : τ → σ) (replace : σ → τ → τ) (t : τ) :
    ((update f).within part replace).run t =
      match f (part t) with
      | .ok s => (.ok (), replace s t)
      | .error e => (.error e, replace (part t) t) := by
  simp only [within, run_update]
  cases f (part t) <;> rfl

end Action

namespace Path

variable {v new c : Value} {p rest : Path} {d : Document} {items : List Value} {key : String}
  {i : Nat} {e : Error}

/-! ## The walk -/

/-- The dictionary with a new one below a key, unless there is one or a list. -/
def makeWay (key : String) (d : Document) : Document :=
  match d.field? key with
  | some (.dict _) | some (.list _) => d
  | _ => d.putField key (.dict [])

/-- The element of a list that a segment names, with its position. -/
def elementAt (items : List Value) (key : String) (rest : Path) : Except Error (Nat × Value) :=
  if Text.isDigits key then do
    let i ← position key
    match items[i]? with
    | some item => .ok (i, item)
    | none => .error (beyondEnd rest)
  else .error (noListKey rest)

/-- The walk along a path to the place where `new` is written. -/
def write (new : Value) : Path → Action Value Unit
  | [] => set new
  | key :: rest => do
    match ← get with
    | .dict d =>
      let d : Document := if rest.isEmpty then d else makeWay key d
      set (Value.dict d)
      (write new rest).within (fun _ => d.fieldOrNull key) fun c _ => .dict (d.putField key c)
    | .list items =>
      let (i, item) ← Action.ofExcept (elementAt items key rest)
      (write new rest).within (fun _ => item) fun c _ => .list (items.set i c)
    | other => throw (noPlace other rest)

/-- In a new dictionary anything can be written anywhere. -/
theorem exists_put_nil (new : Value) (p : Path) : ∃ v', put new p (.dict []) = .ok v' := by
  induction p with
  | nil => exact ⟨new, rfl⟩
  | cons key rest ih =>
    obtain ⟨below, hbelow⟩ := ih
    exact ⟨_, put_cons_dict hbelow⟩

/-- What a walk fails in was there before. -/
theorem eq_container_of_put_eq_error {found : Option Value}
    (h : put new rest (container found) = .error e) : found = some (container found) := by
  obtain ⟨below, hnil⟩ := exists_put_nil new rest
  rcases found with _ | c
  · cases hnil.symm.trans h
  · cases c with
    | dict => rfl
    | list => rfl
    | _ => cases hnil.symm.trans h

theorem makeWay_eq_putField (key : String) (d : Document) :
    makeWay key d = d.putField key (container (d.field? key)) := by
  unfold makeWay
  split
  · next h => rw [h, container, Document.putField_of_field? h]
  · next h => rw [h, container, Document.putField_of_field? h]
  · next hdict hlist =>
    rcases hf : d.field? key with _ | c
    · rfl
    · cases c with
      | dict below => exact absurd hf (hdict below)
      | list below => exact absurd hf (hlist below)
      | _ => rfl

theorem put_cons_dict_of_error (h : put new rest (container (d.field? key)) = .error e) :
    put new (key :: rest) (.dict d) = .error e := by
  rw [put, h]
  rfl

/-- No failure comes after a new dictionary was made. -/
theorem run_write_dict (hrest : write new rest = .update (put new rest)) :
    (write new (key :: rest)).run (.dict d) =
      (Action.update (put new (key :: rest))).run (.dict d) := by
  unfold write
  rw [hrest, Action.run_bind_ok (Action.run_get _), Action.run_bind_ok (Action.run_set _ _),
    Action.run_within_update]
  cases rest with
  | nil => rfl
  | cons l rest =>
    simp only [List.isEmpty_cons, Bool.false_eq_true, if_false, makeWay_eq_putField,
      Document.fieldOrNull_putField_self, Document.putField_putField]
    cases hput : put new (l :: rest) (container (d.field? key)) with
    | ok below => rw [Action.run_update, put_cons_dict hput]
    | error e =>
      have hkeep := Document.putField_of_field? (eq_container_of_put_eq_error hput)
      rw [Action.run_update, put_cons_dict_of_error hput, hkeep]

theorem elementAt_eq_ok {item : Value} :
    elementAt items key rest = .ok (i, item) ↔ position? key = some i ∧ items[i]? = some item := by
  unfold elementAt
  rw [position?_eq_some]
  by_cases hdigits : Text.isDigits key = true
  · rw [if_pos hdigits]
    cases position key with
    | error e => simp [bind, Except.bind]
    | ok j =>
      simp only [bind, Except.bind, hdigits, true_and, Except.ok.injEq]
      cases hitem : items[j]? with
      | none =>
        refine iff_of_false (by simp) ?_
        rintro ⟨rfl, hsome⟩
        cases hitem.symm.trans hsome
      | some found =>
        rw [Except.ok.injEq, Prod.mk.injEq]
        refine and_congr_right ?_
        rintro rfl
        rw [hitem, Option.some.injEq]
  · simp [hdigits]

theorem put_cons_list_eq (new : Value) (key : String) (rest : Path) (items : List Value) :
    put new (key :: rest) (.list items) = (do
      let found ← elementAt items key rest
      .ok (.list (items.set found.1 (← put new rest found.2)))) := by
  rw [put, elementAt]
  split
  · cases position key with
    | error e => rfl
    | ok i =>
      simp only [bind, Except.bind]
      cases items[i]? <;> rfl
  · rfl

theorem run_write_list (hrest : write new rest = .update (put new rest)) :
    (write new (key :: rest)).run (.list items) =
      (Action.update (put new (key :: rest))).run (.list items) := by
  unfold write
  rw [hrest, Action.run_bind_ok (Action.run_get _), Action.run_update, put_cons_list_eq]
  show (Action.ofExcept (elementAt items key rest) >>= fun found =>
    (Action.update (put new rest)).within (fun _ => found.2)
      fun c _ => .list (items.set found.1 c)).run (Value.list items) = _
  cases hfound : elementAt items key rest with
  | error e => rfl
  | ok found =>
    obtain ⟨i, item⟩ := found
    obtain ⟨hi, hget⟩ := List.getElem?_eq_some_iff.1 (elementAt_eq_ok.1 hfound).2
    rw [Action.run_bind_ok (Action.run_ofExcept _ _), Action.run_within_update]
    cases hbelow : put new rest item with
    | ok below => simp [hbelow, bind, Except.bind]
    | error e =>
      have hkeep : items.set i item = items := by rw [← hget, List.set_getElem_self]
      simp [hbelow, hkeep, bind, Except.bind]

/-- Writing in place changes the whole or nothing. -/
theorem write_eq_update (new : Value) (p : Path) : write new p = .update (put new p) := by
  induction p with
  | nil => rfl
  | cons key rest ih =>
    ext v : 2
    cases v with
    | dict d => exact run_write_dict ih
    | list items => exact run_write_list ih
    | _ => rfl

/-! ## What the walk fails in -/

/-- Whether a value is neither a dictionary nor a list. -/
def Partless (v : Value) : Prop :=
  v.isDict = false ∧ v.isList = false

/-- Whether a walk comes to a list at a segment that names none of its elements, or by way of an
element to a value without parts while there are segments left. The position that a segment names
is the one that its decimal digits are read as. -/
inductive Blocked : Value → Path → Prop
  | noElement {items : List Value} {key : String} {rest : Path} :
      (∀ i, position? key = some i → items.length ≤ i) → Blocked (.list items) (key :: rest)
  | noParts {items : List Value} {key l : String} {rest : Path} {i : Nat} {c : Value} :
      position? key = some i → items[i]? = some c → Partless c →
      Blocked (.list items) (key :: l :: rest)
  | belowKey {d : Document} {key : String} {rest : Path} {c : Value} :
      d.field? key = some c → Blocked c rest → Blocked (.dict d) (key :: rest)
  | belowElement {items : List Value} {key : String} {rest : Path} {i : Nat} {c : Value} :
      position? key = some i → items[i]? = some c → Blocked c rest →
      Blocked (.list items) (key :: rest)

theorem not_partless_container (found : Option Value) : ¬ Partless (container found) := by
  rintro ⟨hdict, hlist⟩
  rcases found with _ | c
  · cases hdict
  · cases c with
    | list => cases hlist
    | _ => cases hdict

theorem not_blocked_of_partless (h : Partless v) : ¬ Blocked v p := by
  obtain ⟨hdict, hlist⟩ := h
  rintro (_ | _ | _ | _)
  · cases hlist
  · cases hlist
  · cases hdict
  · cases hlist

/-- Where the walk makes its own way it is not blocked. -/
theorem blocked_container {found : Option Value} :
    Blocked (container found) rest ↔ ∃ c, found = some c ∧ Blocked c rest := by
  have hnew : ¬ Blocked (.dict []) rest := by
    rintro (_ | _ | ⟨hfield, _⟩ | _)
    cases hfield
  rcases found with _ | c
  · exact iff_of_false hnew (by simp)
  · simp only [Option.some.injEq, exists_eq_left']
    cases c with
    | dict => rfl
    | list => rfl
    | _ => exact iff_of_false hnew (not_blocked_of_partless ⟨rfl, rfl⟩)

theorem blocked_dict :
    Blocked (.dict d) (key :: rest) ↔ Blocked (container (d.field? key)) rest := by
  rw [blocked_container]
  constructor
  · rintro (_ | _ | ⟨hfield, hbelow⟩ | _)
    exact ⟨_, hfield, hbelow⟩
  · rintro ⟨c, hfield, hbelow⟩
    exact .belowKey hfield hbelow

theorem blocked_list (hi : position? key = some i) (hitem : items[i]? = some c) :
    Blocked (.list items) (key :: rest) ↔ Blocked c rest ∨ (rest ≠ [] ∧ Partless c) := by
  constructor
  · rintro (hnone | ⟨hj, hc, hpartless⟩ | _ | ⟨hj, hc, hbelow⟩)
    · exact absurd (lt_length_of_getElem? hitem) (Nat.not_lt.2 (hnone i hi))
    · cases hi.symm.trans hj
      cases hitem.symm.trans hc
      exact .inr ⟨List.cons_ne_nil _ _, hpartless⟩
    · cases hi.symm.trans hj
      cases hitem.symm.trans hc
      exact .inl hbelow
  · rintro (hbelow | ⟨hrest, hpartless⟩)
    · exact .belowElement hi hitem hbelow
    · obtain ⟨l, rest, rfl⟩ := List.exists_cons_of_ne_nil hrest
      exact .noParts hi hitem hpartless

theorem fails_bind_ok {α β : Type} {first : Except Error α} {f : α → β} :
    (∃ e, (first >>= fun a => Except.ok (f a)) = .error e) ↔ ∃ e, first = .error e := by
  cases first <;> simp [bind, Except.bind]

/-- Writing fails exactly where the walk is blocked or cannot even start. -/
theorem put_fails_iff :
    (∃ e, put new p v = .error e) ↔ Blocked v p ∨ (p ≠ [] ∧ Partless v) := by
  induction p generalizing v with
  | nil =>
    refine iff_of_false (by simp [put]) ?_
    rintro (hnil | ⟨hnil, -⟩)
    · cases hnil
    · exact hnil rfl
  | cons key rest ih =>
    cases v with
    | dict d =>
      have hdict : ¬ Partless (.dict d) := not_partless_container (some (.dict d))
      rw [put, fails_bind_ok, ih, blocked_dict]
      simp [hdict, not_partless_container]
    | list items =>
      have hlist : ¬ Partless (.list items) := not_partless_container (some (.list items))
      simp only [hlist, and_false, or_false, put_cons_list_eq]
      cases hfound : elementAt items key rest with
      | error e =>
        refine iff_of_true ⟨e, rfl⟩ (.noElement fun i hi => ?_)
        refine Nat.not_lt.1 fun hlt => ?_
        have hitem := List.getElem?_eq_getElem hlt
        cases hfound.symm.trans (elementAt_eq_ok.2 ⟨hi, hitem⟩)
      | ok found =>
        obtain ⟨hi, hitem⟩ := elementAt_eq_ok.1 hfound
        rw [blocked_list hi hitem, ← ih]
        exact fails_bind_ok
    | _ => exact iff_of_true ⟨_, rfl⟩ (.inr ⟨List.cons_ne_nil _ _, rfl, rfl⟩)

end Path

namespace Document

/-- The walk along a column of a document to the place where `v` is written. -/
def writeColumn (column : String) (v : Value) : Action Document Unit :=
  (Path.write v (Path.ofText column)).within .dict fun written _ => written.entries

theorem writeColumn_eq_update (column : String) (v : Value) :
    writeColumn column v = .update (·.putColumn column v) := by
  ext d : 2
  rw [writeColumn, Path.write_eq_update, Action.run_within_update, Action.run_update, putColumn]
  cases Path.put v (Path.ofText column) (.dict d) <;> rfl

end Document

end DocumentMapper
