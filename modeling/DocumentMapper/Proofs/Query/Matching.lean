import DocumentMapper.Proofs.Document.Update
import DocumentMapper.Proofs.Path.Apart

/-!
# What the database finds by a path

To the database a path is more than to this library: it goes into every dictionary of an array on
its way, so it may lead to several values, and it may lead to nothing in one part of a document and
to something in another. An equality holds of a document if one of these values is equal, or an
array with an equal element, and an equality with null if there is nothing as well.
-/

namespace DocumentMapper

namespace Path

variable {v : Value} {p q : Path} {found : Option Value}

/-- A path leads from a value to another one, or to nothing. From an array it goes on in each
dictionary in it, and in the element that it names by its position. -/
inductive Leads : Path → Value → Option Value → Prop
  | here {v : Value} : Leads [] v (some v)
  | key {d : Document} {key : String} {rest : Path} {c : Value} {found : Option Value} :
      d.field? key = some c → Leads rest c found → Leads (key :: rest) (.dict d) found
  | absent {d : Document} {key : String} {rest : Path} :
      d.field? key = none → Leads (key :: rest) (.dict d) none
  | element {items : List Value} {d : Document} {key : String} {rest : Path}
      {found : Option Value} :
      .dict d ∈ items → Leads (key :: rest) (.dict d) found →
      Leads (key :: rest) (.list items) found
  | position {items : List Value} {key : String} {rest : Path} {i : Nat} {c : Value}
      {found : Option Value} :
      position? key = some i → items[i]? = some c → Leads rest c found →
      Leads (key :: rest) (.list items) found
  | beyond {v : Value} {key : String} {rest : Path} :
      v.isDict = false → v.isList = false → Leads (key :: rest) v none

theorem leads_dict (d : Document) (key : String) : Leads [key] (.dict d) (d.field? key) := by
  cases hc : d.field? key with
  | none => exact .absent hc
  | some c => exact .key hc .here

theorem leads_dict_iff {d : Document} {key : String} :
    Leads [key] (.dict d) found ↔ found = d.field? key := by
  constructor
  · intro h
    cases h with
    | key hc h =>
      cases h
      exact hc.symm
    | absent hc => exact hc.symm
    | beyond hdict _ => cases hdict
  · rintro rfl
    exact leads_dict d key

/-- A longer path leads on from where the shorter one leads, and to nothing if there is nothing. -/
theorem leads_append : Leads (p ++ q) v found ↔
    (∃ c, Leads p v (some c) ∧ Leads q c found) ∨ (Leads p v none ∧ found = none) := by
  constructor
  · intro h
    induction p generalizing v with
    | nil => exact .inl ⟨v, .here, h⟩
    | cons key p ih =>
      generalize hpath : key :: p ++ q = path at h
      induction h with
      | here => cases hpath
      | key hc hrest _ =>
        cases hpath
        obtain ⟨c, hfirst, hlast⟩ | ⟨hfirst, hnone⟩ := ih hrest
        · exact .inl ⟨c, .key hc hfirst, hlast⟩
        · exact .inr ⟨.key hc hfirst, hnone⟩
      | absent hc =>
        cases hpath
        exact .inr ⟨.absent hc, rfl⟩
      | element hmem _ ih' =>
        obtain ⟨c, hfirst, hlast⟩ | ⟨hfirst, hnone⟩ := ih' @ih hpath
        · exact .inl ⟨c, .element hmem hfirst, hlast⟩
        · exact .inr ⟨.element hmem hfirst, hnone⟩
      | position hi hc hrest _ =>
        cases hpath
        obtain ⟨c, hfirst, hlast⟩ | ⟨hfirst, hnone⟩ := ih hrest
        · exact .inl ⟨c, .position hi hc hfirst, hlast⟩
        · exact .inr ⟨.position hi hc hfirst, hnone⟩
      | beyond hdict hlist =>
        cases hpath
        exact .inr ⟨.beyond hdict hlist, rfl⟩
  · rintro (⟨c, hfirst, hlast⟩ | ⟨hfirst, rfl⟩)
    · generalize hend : some c = first at hfirst
      induction hfirst with
      | here =>
        cases hend
        exact hlast
      | key hc _ ih => exact .key hc (ih hend)
      | absent _ => cases hend
      | element hmem _ ih => exact .element hmem (ih hend)
      | position hi hc _ ih => exact .position hi hc (ih hend)
      | beyond _ _ => cases hend
    · generalize hend : none = first at hfirst
      induction hfirst with
      | here => cases hend
      | key hc _ ih => exact .key hc (ih hend)
      | absent hc => exact .absent hc
      | element hmem _ ih => exact .element hmem (ih hend)
      | position hi hc _ ih => exact .position hi hc (ih hend)
      | beyond hdict hlist => exact .beyond hdict hlist

/-- An equality that the database checks, of what a path leads to. Null is equal to nothing. -/
def Equals (v : Value) : Option Value → Prop
  | none => v = .null
  | some w => w.equal v = true ∨ ∃ items, w = .list items ∧ ∃ e ∈ items, e.equal v = true

/-- Whether a document passes a filter that asks for a value at a path. -/
def Finds (path : Path) (v : Value) (doc : Document) : Prop :=
  ∃ found, Leads path (.dict doc) found ∧ Equals v found

theorem finds_field {key : String} {doc : Document} :
    Finds [key] v doc ↔ Equals v (doc.field? key) := by
  simp only [Finds, leads_dict_iff, exists_eq_left]

end Path

namespace Query

/-- Whether a document passes a filter that asks for values at paths. -/
def Passes (filter doc : Document) : Prop :=
  ∀ e ∈ filter, ∃ path, e.1 = .text path ∧ Path.Finds (Path.ofText path) e.2 doc

/-- Whether a document passes one of the alternatives of a filter. -/
def PassesAny (filter : Value) (doc : Document) : Prop :=
  ∃ alternatives, filter = .single "$or" (.list alternatives) ∧
    ∃ f, .dict f ∈ alternatives ∧ Passes f doc

/-- The disjunction of the entries of a dictionary. -/
def anyOf (entries : Document) : Value :=
  .single "$or" (.list (entries.map fun e => .dict [e]))

theorem passesAny_anyOf {entries doc : Document} : PassesAny (anyOf entries) doc ↔
    ∃ e ∈ entries, ∃ path, e.1 = .text path ∧ Path.Finds (Path.ofText path) e.2 doc := by
  constructor
  · rintro ⟨alternatives, h, f, hf, hpasses⟩
    obtain rfl : entries.map (fun e => .dict [e]) = alternatives := by
      simpa [anyOf, Value.single] using h
    obtain ⟨e, he, hf⟩ := List.mem_map.1 hf
    cases hf
    exact ⟨e, he, hpasses e List.mem_cons_self⟩
  · rintro ⟨e, he, hfinds⟩
    refine ⟨_, rfl, [e], List.mem_map.2 ⟨e, he, rfl⟩, ?_⟩
    intro e' he'
    rw [List.mem_singleton.1 he']
    exact hfinds

end Query

end DocumentMapper
