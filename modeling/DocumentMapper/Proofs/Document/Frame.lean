import DocumentMapper.Document.Merge
import DocumentMapper.Proofs.Document.Update
import DocumentMapper.Proofs.Path.Erase

/-!
# What leaves a field alone

A field of a document stands as it is when a column is written to or erased that begins with
another segment, and when entries are merged into the document that have other keys. Merging a
dictionary into one without the field gives the field that the dictionary has.
-/

namespace DocumentMapper

namespace Path

theorem apart_of_head?_ne {p : Path} {name : String} (hp : p ≠ []) (h : p.head? ≠ some name)
    (hname : position? name = none) : apart p [name] = true := by
  obtain ⟨key, rest, rfl⟩ := List.exists_cons_of_ne_nil hp
  have hne : key ≠ name := fun heq => h (congrArg some heq)
  rw [apart_cons_of_ne hne, parted, hname]
  cases position? key <;> simp [hne]

theorem get?_dict_singleton (d : Document) (name : String) :
    get? (.dict d) [name] = .ok (d.field? name) := by
  rw [get?_dict_cons]
  cases d.field? name <;> rfl

end Path

namespace Document

variable {d d' entries : Document} {column name : String} {v : Value}

theorem field?_of_putColumn (h : d.putColumn column v = .ok d')
    (hcolumn : (Path.ofText column).head? ≠ some name) (hname : Path.position? name = none) :
    d'.field? name = d.field? name := by
  have hapart := Path.apart_of_head?_ne (Path.ofText_ne_nil column) hcolumn hname
  have hget := Path.get?_put_of_apart hapart (putColumn_eq_ok.1 h)
  rw [Path.get?_dict_singleton, Path.get?_dict_singleton] at hget
  exact Except.ok.inj hget

theorem field?_of_eraseColumn (h : d.eraseColumn column = .ok d')
    (hcolumn : (Path.ofText column).head? ≠ some name) (hname : Path.position? name = none) :
    d'.field? name = d.field? name := by
  have hapart := Path.apart_of_head?_ne (Path.ofText_ne_nil column) hcolumn hname
  have hget := Path.get?_erase_of_apart hapart (eraseColumn_eq_ok.1 h)
  rw [Path.get?_dict_singleton, Path.get?_dict_singleton] at hget
  exact Except.ok.inj hget

theorem field?_merge_of_ne (h : ∀ e ∈ entries, e.1 ≠ .text name) (d : Document) :
    (d.merge entries).field? name = d.field? name := by
  induction entries generalizing d with
  | nil => rw [merge]
  | cons e rest ih =>
    obtain ⟨k, v⟩ := e
    rw [List.forall_mem_cons] at h
    rw [merge, ih h.2, field?_put_of_ne h.1]

theorem mergeValue_none (v : Value) : mergeValue none v = v := by
  cases v <;> simp [mergeValue]

theorem field?_merge_of_field?_eq_none (hentries : Distinct entries) (hd : d.field? name = none) :
    (d.merge entries).field? name = entries.field? name := by
  induction entries generalizing d with
  | nil =>
    rw [merge, hd]
    rfl
  | cons e rest ih =>
    obtain ⟨k, v⟩ := e
    obtain ⟨hfirst, hrest⟩ := List.pairwise_cons.1 hentries
    by_cases hk : k = .text name
    · subst hk
      have hothers : ∀ e ∈ rest, e.1 ≠ .text name := by
        intro e he heq
        have hsame := hfirst e.1 (List.mem_map_of_mem he)
        rw [heq, Value.text_same.2 rfl] at hsame
        cases hsame
      have hget : d.get? (.text name) = none := hd
      rw [merge, hget, mergeValue_none, field?_merge_of_ne hothers, field?_cons_self]
      exact field?_putField_self d name v
    · rw [merge, ih hrest ((field?_put_of_ne hk).trans hd), field?_cons_of_ne hk]

end Document

end DocumentMapper
