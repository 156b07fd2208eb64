import DocumentMapper.Model.Finder
import DocumentMapper.Proofs.Path.Modify

/-!
# Lookups that fail

A lookup has an answer at every segment but one sort: a segment that passes the digit test is read
as a number when the walk comes to a list with it, and not every text of digit characters is a
numeral. A dressed digit such as a superscript has no decimal value, and a numeral may be too long.
Whether a lookup fails depends on the value as well, since only a list asks for a position; a path
can be looked up in every value exactly if none of its segments is of this sort. The same test
stands before the identity by which a record is found.
-/

namespace DocumentMapper

namespace Path

variable {v c : Value} {p rest : Path} {key : String} {items : List Value} {e : Error}

/-! ## Numerals -/

/-- Whether a segment can be read as a number: there is a decimal value to each of its characters,
and there are not too many of them. -/
def Numeral (key : String) : Prop :=
  (∀ c ∈ key.toList, (Text.decimalValue? c).isSome = true) ∧
    key.toList.length ≤ Number.maxIntegerDigits

/-- Whether a segment passes the digit test and is no numeral. -/
def Misleading (key : String) : Prop :=
  Text.isDigits key = true ∧ ¬ Numeral key

theorem isSome_mapM {α β : Type} {f : α → Option β} {l : List α} :
    (l.mapM f).isSome = true ↔ ∀ a ∈ l, (f a).isSome = true := by
  induction l with
  | nil => simp
  | cons a l ih =>
    rw [List.forall_mem_cons, ← ih, List.mapM_cons]
    cases f a <;> cases l.mapM f <;> simp

theorem length_of_mapM {α β : Type} {f : α → Option β} {l : List α} {l' : List β}
    (h : l.mapM f = some l') : l'.length = l.length := by
  induction l generalizing l' with
  | nil =>
    obtain rfl : [] = l' := by simpa using h
    rfl
  | cons a l ih =>
    rw [List.mapM_cons] at h
    obtain ⟨b, -, h⟩ := Option.bind_eq_some_iff.1 h
    obtain ⟨rest, hrest, h⟩ := Option.bind_eq_some_iff.1 h
    obtain rfl := Option.some.inj h
    rw [List.length_cons, List.length_cons, ih hrest]

/-- The position that a numeral names, and the fault of any other segment. -/
theorem position_cases (key : String) :
    (Numeral key ∧ ∃ i, position key = .ok i) ∨
    (¬ Numeral key ∧ ∃ fault, position key = .error (.notAnInteger key fault)) := by
  unfold position
  cases hdigits : key.toList.mapM Text.decimalValue? with
  | none =>
    refine .inr ⟨fun hnumeral => ?_, _, rfl⟩
    have hsome := isSome_mapM.2 hnumeral.1
    rw [hdigits] at hsome
    cases hsome
  | some digits =>
    have hall := isSome_mapM.1 (Option.isSome_of_eq_some hdigits)
    have hlength := length_of_mapM hdigits
    by_cases hlong : Number.maxIntegerDigits < digits.length
    · rw [hlength] at hlong
      exact .inr ⟨fun hnumeral => Nat.not_lt.2 hnumeral.2 hlong, _, by simp [hlength, hlong]; rfl⟩
    · refine .inl ⟨⟨hall, ?_⟩, _, by simp [hlong]; rfl⟩
      omega

theorem not_misleading_of_position? {i : Nat} (h : position? key = some i) : ¬ Misleading key := by
  rintro ⟨-, hnumeral⟩
  obtain ⟨hyes, -⟩ | ⟨-, fault, hfault⟩ := position_cases key
  · exact hnumeral hyes
  · cases hfault.symm.trans (position?_eq_some.1 h).2

/-! ## Walks -/

/-- Whether a path leads from a value to another one, by the keys of dictionaries and the positions
of lists. -/
inductive Addresses : Value → Path → Value → Prop
  | here {v : Value} : Addresses v [] v
  | inDict {d : Document} {key : String} {rest : Path} {b c : Value} :
      d.field? key = some b → Addresses b rest c → Addresses (.dict d) (key :: rest) c
  | inList {items : List Value} {key : String} {rest : Path} {i : Nat} {b c : Value} :
      position? key = some i → items[i]? = some b → Addresses b rest c →
      Addresses (.list items) (key :: rest) c

/-- Whether the walk along a path comes to a list at a misleading segment. -/
inductive Stumbles : Value → Path → String → Prop
  | here {items : List Value} {key : String} {rest : Path} :
      Misleading key → Stumbles (.list items) (key :: rest) key
  | inDict {d : Document} {l key : String} {rest : Path} {b : Value} :
      d.field? l = some b → Stumbles b rest key → Stumbles (.dict d) (l :: rest) key
  | inList {items : List Value} {l key : String} {rest : Path} {i : Nat} {b : Value} :
      position? l = some i → items[i]? = some b → Stumbles b rest key →
      Stumbles (.list items) (l :: rest) key

/-- Whether the walk along a path never comes to a list at a misleading segment. -/
def Sure (v : Value) (p : Path) : Prop :=
  ∀ key, ¬ Stumbles v p key

theorem get?_of_addresses (h : Addresses v p c) : get? v p = .ok (some c) := by
  induction h with
  | here => rfl
  | inDict hb _ ih => rwa [get?_dict_cons, hb]
  | inList hi hb _ ih => rwa [get?_list_cons hi, hb]

theorem get?_of_stumbles (h : Stumbles v p key) :
    ∃ fault, get? v p = .error (.notAnInteger key fault) := by
  induction h with
  | @here items key rest hmisleading =>
    obtain ⟨hdigits, hnumeral⟩ := hmisleading
    obtain ⟨hyes, -⟩ | ⟨-, fault, hposition⟩ := position_cases key
    · exact absurd hyes hnumeral
    · refine ⟨fault, ?_⟩
      rw [get?, child?, if_pos hdigits, hposition]
      rfl
  | inDict hb _ ih => rwa [get?_dict_cons, hb]
  | inList hi hb _ ih => rwa [get?_list_cons hi, hb]

/-- What comes of a walk. -/
theorem walk_cases (v : Value) (p : Path) :
    (∃ key, Stumbles v p key) ∨ (∃ c, Addresses v p c) ∨ get? v p = .ok none := by
  induction p generalizing v with
  | nil => exact .inr (.inl ⟨v, .here⟩)
  | cons l rest ih =>
    cases v with
    | dict d =>
      rw [get?_dict_cons]
      cases hb : Document.field? d l with
      | none => exact .inr (.inr rfl)
      | some b =>
        obtain ⟨key, h⟩ | ⟨c, h⟩ | h := ih b
        · exact .inl ⟨key, .inDict hb h⟩
        · exact .inr (.inl ⟨c, .inDict hb h⟩)
        · exact .inr (.inr h)
    | list items =>
      by_cases hdigits : Text.isDigits l = true
      · obtain ⟨-, i, hi⟩ | ⟨hnumeral, -⟩ := position_cases l
        · have hi := position?_eq_some.2 ⟨hdigits, hi⟩
          rw [get?_list_cons hi]
          cases hb : items[i]? with
          | none => exact .inr (.inr rfl)
          | some b =>
            obtain ⟨key, h⟩ | ⟨c, h⟩ | h := ih b
            · exact .inl ⟨key, .inList hi hb h⟩
            · exact .inr (.inl ⟨c, .inList hi hb h⟩)
            · exact .inr (.inr h)
        · exact .inl ⟨l, .here ⟨hdigits, hnumeral⟩⟩
      · refine .inr (.inr ?_)
        rw [get?, child?, if_neg hdigits]
        rfl
    | _ => exact .inr (.inr rfl)

theorem get?_eq_none (hsure : Sure v p) (hnone : ∀ c, ¬ Addresses v p c) : get? v p = .ok none := by
  obtain ⟨key, h⟩ | ⟨c, h⟩ | h := walk_cases v p
  · exact absurd h (hsure key)
  · exact absurd h (hnone c)
  · exact h

/-- A lookup has an answer exactly if the walk does not stumble. -/
theorem exists_get?_iff : (∃ found, get? v p = .ok found) ↔ Sure v p := by
  constructor
  · rintro ⟨found, hfound⟩ key hstumbles
    obtain ⟨fault, hfault⟩ := get?_of_stumbles hstumbles
    cases hfound.symm.trans hfault
  · intro hsure
    obtain ⟨key, h⟩ | ⟨c, h⟩ | h := walk_cases v p
    · exact absurd h (hsure key)
    · exact ⟨_, get?_of_addresses h⟩
    · exact ⟨_, h⟩

/-- A path is sure in every value exactly if none of its segments is misleading. -/
theorem forall_sure_iff : (∀ v, Sure v p) ↔ ∀ key ∈ p, ¬ Misleading key := by
  constructor
  · intro h key hkey hmisleading
    induction p with
    | nil => cases hkey
    | cons l rest ih =>
      rcases List.mem_cons.1 hkey with rfl | hrest
      · exact h (.list []) key (.here hmisleading)
      · refine ih (fun v below hstumbles => ?_) hrest
        exact h (.single l v) below (.inDict (Document.field?_cons_self l v []) hstumbles)
  · intro h v key hstumbles
    induction hstumbles with
    | here hmisleading => exact h _ List.mem_cons_self hmisleading
    | inDict _ _ ih => exact ih fun key hkey => h key (List.mem_cons_of_mem _ hkey)
    | inList _ _ _ ih => exact ih fun key hkey => h key (List.mem_cons_of_mem _ hkey)

theorem exists_getD_iff {fallback : Value} :
    (∃ w, getD v p fallback = .ok w) ↔ ∃ found, get? v p = .ok found := by
  rw [getD]
  cases get? v p <;> simp [bind, Except.bind]

theorem exists_has_iff : (∃ b, has v p = .ok b) ↔ ∃ found, get? v p = .ok found := by
  rw [has]
  cases get? v p <;> simp [bind, Except.bind]

end Path

namespace Finder

open DocumentMapper.Path

variable {σ : Type}

/-- The identity that a text stands for: a number if it is a numeral, and itself if it does not pass
the digit test. A misleading text stands for none. -/
theorem identity_text_cases (s : String) :
    (∃ n, position? s = some n ∧ identity (.text s) = .ok (.int n)) ∨
    (Text.isDigits s = false ∧ identity (.text s) = .ok (.text s)) ∨
    (Misleading s ∧ ∃ fault, identity (.text s) = .error (.notAnInteger s fault)) := by
  by_cases hdigits : Text.isDigits s = true
  · rw [identity, if_pos hdigits]
    obtain ⟨-, n, hn⟩ | ⟨hnumeral, fault, hfault⟩ := position_cases s
    · refine .inl ⟨n, position?_eq_some.2 ⟨hdigits, hn⟩, ?_⟩
      rw [hn]
      rfl
    · refine .inr (.inr ⟨⟨hdigits, hnumeral⟩, fault, ?_⟩)
      rw [hfault]
      rfl
  · rw [identity, if_neg hdigits]
    exact .inr (.inl ⟨Bool.eq_false_iff.2 hdigits, rfl⟩)

theorem find_of_identity {ctx : Context σ} {m : Model σ} {id w : Value}
    (h : identity id = .ok w) : find ctx m id = findBy ctx m m.primaryId w := by
  rw [find, h]
  rfl

theorem run_find_of_identity_error {ctx : Context σ} {m : Model σ} {id : Value} {e : Error}
    (h : identity id = .error e) (s : σ) : (find ctx m id).run s = (.error e, s) := by
  rw [find, h]
  rfl

end Finder

namespace Path

/-- Lookups at a path have an answer exactly if the walk never comes to a list at a misleading
segment: what the path leads to, or the fallback if it leads nowhere. Else both fail with the fault
of that segment. A path is sure in every value exactly if none of its segments is misleading. And a
record is looked for by every text that is not misleading; by a misleading one nothing is asked for,
and the error is the same. -/
theorem lookup_answers_iff (v : Value) (path : String) (fallback : Value) :
    ((∃ w, getD v (ofText path) fallback = .ok w) ↔ Sure v (ofText path)) ∧
    ((∃ b, has v (ofText path) = .ok b) ↔ Sure v (ofText path)) ∧
    (∀ c, Addresses v (ofText path) c →
      getD v (ofText path) fallback = .ok c ∧ has v (ofText path) = .ok true) ∧
    (Sure v (ofText path) → (∀ c, ¬ Addresses v (ofText path) c) →
      getD v (ofText path) fallback = .ok fallback ∧ has v (ofText path) = .ok false) ∧
    (∀ key, Stumbles v (ofText path) key → ∃ fault,
      getD v (ofText path) fallback = .error (.notAnInteger key fault) ∧
      has v (ofText path) = .error (.notAnInteger key fault)) ∧
    ((∀ u, Sure u (ofText path)) ↔ ∀ key ∈ ofText path, ¬ Misleading key) ∧
    ∀ (σ : Type) (ctx : Context σ) (m : Model σ) (id : String),
      (¬ Misleading id → ∃ w, (w = .text id ∨ ∃ n, position? id = some n ∧ w = .int n) ∧
        Finder.find ctx m (.text id) = Finder.findBy ctx m m.primaryId w) ∧
      (Misleading id → ∃ fault, ∀ s,
        (Finder.find ctx m (.text id)).run s = (.error (.notAnInteger id fault), s)) := by
  refine ⟨exists_getD_iff.trans exists_get?_iff, exists_has_iff.trans exists_get?_iff,
    fun c hc => ?_, fun hsure hnone => ?_, fun key hkey => ?_, forall_sure_iff,
    fun σ ctx m id => ⟨fun hid => ?_, fun hid => ?_⟩⟩
  · rw [getD, has, get?_of_addresses hc]
    exact ⟨rfl, rfl⟩
  · rw [getD, has, get?_eq_none hsure hnone]
    exact ⟨rfl, rfl⟩
  · obtain ⟨fault, hfault⟩ := get?_of_stumbles hkey
    rw [getD, has, hfault]
    exact ⟨fault, rfl, rfl⟩
  · obtain ⟨n, hn, hw⟩ | ⟨-, hw⟩ | ⟨hmisleading, -⟩ := Finder.identity_text_cases id
    · exact ⟨_, .inr ⟨n, hn, rfl⟩, Finder.find_of_identity hw⟩
    · exact ⟨_, .inl rfl, Finder.find_of_identity hw⟩
    · exact absurd hmisleading hid
  · obtain ⟨n, hn, -⟩ | ⟨hdigits, -⟩ | ⟨-, fault, hfault⟩ := Finder.identity_text_cases id
    · exact absurd hid (not_misleading_of_position? hn)
    · exact absurd hid.1 (Bool.eq_false_iff.1 hdigits)
    · exact ⟨fault, Finder.run_find_of_identity_error hfault⟩

/-- An order cannot be asked for the tag at a superscript. -/
theorem not_answered_superscript : ¬ ∀ (v : Value) (path : String), ∃ b,
    has v (ofText path) = .ok b := by
  intro h
  obtain ⟨b, hb⟩ := h (.single "tags" (.list [.text "new"])) "tags.²"
  cases hb

end Path

end DocumentMapper
