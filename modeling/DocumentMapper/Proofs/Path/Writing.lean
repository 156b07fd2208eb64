import DocumentMapper.Proofs.Path.Apart

/-!
# The laws of writing

Writing at a path is a lawful update. What was written is read back, as a whole and in its parts,
a second writing at the same path leaves nothing of the first one, and wherever another path turns
off from the written one it reads the same as before. Two paths turn off from each other in a
dictionary by any two segments, in a list only by segments that do not name the same position.
-/

namespace DocumentMapper

namespace Path

variable {v v' new below : Value} {p q rest : Path}

/-- Whether a path turns off from another one that is walked along to write there. Where there is
neither a dictionary nor a list below a key, the walk comes to a new dictionary. -/
inductive TurnsOff : Value → Path → Path → Prop
  | inDict {d : Document} {k l : String} {p q : Path} :
      k ≠ l → TurnsOff (.dict d) (k :: p) (l :: q)
  | inList {items : List Value} {k l : String} {p q : Path} :
      k ≠ l → (∀ i, position? k = some i → position? l ≠ some i) →
      TurnsOff (.list items) (k :: p) (l :: q)
  | belowKey {d : Document} {key : String} {p q : Path} :
      TurnsOff (container (d.field? key)) p q → TurnsOff (.dict d) (key :: p) (key :: q)
  | belowElement {items : List Value} {key : String} {i : Nat} {c : Value} {p q : Path} :
      position? key = some i → items[i]? = some c → TurnsOff c p q →
      TurnsOff (.list items) (key :: p) (key :: q)

theorem TurnsOff.ne_nil (h : TurnsOff v p q) : q ≠ [] := by
  cases h <;> exact List.cons_ne_nil _ _

/-- Writing leaves alone what a path reads that turns off. -/
theorem get?_put_of_turnsOff (hpq : TurnsOff v p q) (h : put new p v = .ok v') :
    get? v' q = get? v q := by
  induction hpq generalizing v' with
  | inDict hne =>
    rcases put_cons_eq_ok h with ⟨d, below, hd, -, rfl⟩ | ⟨_, _, _, _, hlist, -⟩
    · cases hd
      rw [get?_dict_cons, get?_dict_cons, Document.field?_putField_of_ne (Ne.symm hne)]
    · cases hlist
  | inList _ hposition =>
    rcases put_cons_eq_ok h with ⟨_, _, hdict, -⟩ | ⟨items, i, item, below, hl, hi, -, -, rfl⟩
    · cases hdict
    · cases hl
      refine get?_list_congr (fun j hj => List.getElem?_set_ne ?_) _
      rintro rfl
      exact hposition i hi hj
  | belowKey hbelow ih =>
    rcases put_cons_eq_ok h with ⟨d, below, hd, hb, rfl⟩ | ⟨_, _, _, _, hlist, -⟩
    · cases hd
      rw [get?_dict_cons, get?_dict_cons, Document.field?_putField_self]
      exact (ih hb).trans (get?_container _ hbelow.ne_nil)
    · cases hlist
  | belowElement hi hc _ ih =>
    rcases put_cons_eq_ok h with ⟨_, _, hdict, -⟩ | ⟨items, j, item, below, hl, hj, hitem, hb, rfl⟩
    · cases hdict
    · cases hl
      cases hi.symm.trans hj
      cases hc.symm.trans hitem
      rw [get?_list_cons hi, get?_list_cons hi, hc,
        List.getElem?_set_self (lt_length_of_getElem? hc)]
      exact ih hb

/-- What something was written into is a dictionary or a list. -/
theorem container_of_put (hrest : rest ≠ []) (h : put new rest v = .ok v') :
    container (some v') = v' := by
  obtain ⟨key, rest, rfl⟩ := List.exists_cons_of_ne_nil hrest
  rcases put_cons_eq_ok h with ⟨_, _, -, -, rfl⟩ | ⟨_, _, _, _, -, -, -, -, rfl⟩ <;> rfl

theorem put_cons_dict {d : Document} {key : String}
    (h : put new rest (container (d.field? key)) = .ok below) :
    put new (key :: rest) (.dict d) = .ok (.dict (d.putField key below)) := by
  rw [put, h]
  rfl

theorem put_cons_list {items : List Value} {key : String} {i : Nat} {item : Value}
    (hi : position? key = some i) (hitem : items[i]? = some item)
    (h : put new rest item = .ok below) :
    put new (key :: rest) (.list items) = .ok (.list (items.set i below)) := by
  obtain ⟨hdigits, hposition⟩ := position?_eq_some.1 hi
  simp [put, hdigits, hposition, hitem, h, bind, Except.bind]

/-- Where something was written anything else can be written, and it leaves nothing of what was
written first. -/
theorem exists_put_put (h : put new p v = .ok v') (other : Value) :
    ∃ w, put other p v' = .ok w ∧ put other p v = .ok w := by
  induction p generalizing v v' with
  | nil => exact ⟨other, rfl, rfl⟩
  | cons key rest ih =>
    rcases put_cons_eq_ok h with
      ⟨d, below, rfl, hb, rfl⟩ | ⟨items, i, item, below, rfl, hi, hitem, hb, rfl⟩
    · obtain ⟨w, hw, hv⟩ := ih hb
      have hagain : put other rest (container ((d.putField key below).field? key)) = .ok w := by
        rw [Document.field?_putField_self]
        by_cases hrest : rest = []
        · subst hrest
          exact hw
        · rwa [container_of_put hrest hb]
      refine ⟨.dict (d.putField key w), ?_, put_cons_dict hv⟩
      rw [put_cons_dict hagain, Document.putField_putField]
    · obtain ⟨w, hw, hv⟩ := ih hb
      have hagain : (items.set i below)[i]? = some below :=
        List.getElem?_set_self (lt_length_of_getElem? hitem)
      refine ⟨.list (items.set i w), ?_, put_cons_list hi hitem hv⟩
      rw [put_cons_list hi hagain hw, List.set_set]

end Path

namespace Document

variable {d d' : Document} {column : String} {v : Value}

/-- Writing to a column is a lawful update: the value is read back, and so are its parts, writing
once more is as good as writing at once, and what turns off from the column reads the same. -/
theorem putColumn_lawful (h : d.putColumn column v = .ok d') :
    d'.column? column = .ok (some v) ∧
    (∀ more, d'.column? (column ++ "." ++ more) = Path.get? v (Path.ofText more)) ∧
    (∀ w, ∃ d'', d'.putColumn column w = .ok d'' ∧ d.putColumn column w = .ok d'') ∧
    ∀ other, Path.TurnsOff (.dict d) (Path.ofText column) (Path.ofText other) →
      d'.column? other = d.column? other := by
  have hput := putColumn_eq_ok.1 h
  refine ⟨Path.get?_put_self hput, fun more => ?_, fun w => ?_, fun other hother => ?_⟩
  · rw [column?, Path.ofText_append]
    exact Path.get?_put_append hput (Path.ofText more)
  · obtain ⟨whole, hagain, hdirect⟩ := Path.exists_put_put hput w
    refine ⟨whole.entries, ?_, ?_⟩
    · rw [putColumn, hagain]
      rfl
    · rw [putColumn, hdirect]
      rfl
  · exact Path.get?_put_of_turnsOff hother hput

/-- A list of two dictionaries, one with a text where a path may want to lead on. -/
def basket : Document :=
  [(.text "items", .list [.dict [(.text "product", .text "pen")], .dict []])]

theorem putColumn_lawful_basket : ∃ d',
    basket.putColumn "items.00.product.price" (.dict [(.text "net", .int 2)]) = .ok d' ∧
    d'.column? "items.00.product.price" = .ok (some (.dict [(.text "net", .int 2)])) ∧
    d'.column? "items.00.product.price.net" = .ok (some (.int 2)) ∧
    (∃ d'', d'.putColumn "items.00.product.price" .null = .ok d'' ∧
      basket.putColumn "items.00.product.price" .null = .ok d'') ∧
    d'.column? "items.1.product" = basket.column? "items.1.product" := by
  obtain ⟨d', hput⟩ : ∃ d',
      basket.putColumn "items.00.product.price" (.dict [(.text "net", .int 2)]) = .ok d' :=
    ⟨_, rfl⟩
  obtain ⟨hwhole, hparts, hagain, hrest⟩ := putColumn_lawful hput
  refine ⟨d', hput, hwhole, hparts "net", hagain .null, hrest "items.1.product" ?_⟩
  -- The two paths part in the list.
  exact .belowKey (.inList (by decide) (by decide))

end Document

end DocumentMapper
