import DocumentMapper.Document.AtPath
import DocumentMapper.Proofs.Outcome

/-!
# Segments of columns

A text is cut at its points and nowhere else: no segment has a point in it, and a text without a
point is one segment, itself. A column of one segment is a field of its document, so that reading
and writing it never fail.
-/

namespace DocumentMapper

namespace Path

theorem splitPoints_ne_nil (cs : List Char) : splitPoints cs ≠ [] := by
  induction cs with
  | nil => simp [splitPoints]
  | cons c rest ih =>
    unfold splitPoints
    split
    · simp
    · split <;> simp

theorem splitPoints_of_notMem {cs : List Char} (h : '.' ∉ cs) : splitPoints cs = [cs] := by
  induction cs with
  | nil => rfl
  | cons c rest ih =>
    obtain ⟨hc, hrest⟩ := not_or.1 (mt List.mem_cons.2 h)
    rw [splitPoints, if_neg (Ne.symm hc), ih hrest]

theorem notMem_of_mem_splitPoints {cs segment : List Char} (h : segment ∈ splitPoints cs) :
    '.' ∉ segment := by
  induction cs generalizing segment with
  | nil =>
    rw [splitPoints, List.mem_singleton] at h
    simp [h]
  | cons c rest ih =>
    unfold splitPoints at h
    split at h
    · rcases List.mem_cons.1 h with rfl | h
      · simp
      · exact ih h
    · next hc =>
      split at h
      · next first more he =>
        rcases List.mem_cons.1 h with rfl | h
        · have hfirst : '.' ∉ first := ih (by simp [he])
          exact mt List.mem_cons.1 (not_or.2 ⟨Ne.symm hc, hfirst⟩)
        · exact ih (by simp [he, h])
      · next he => exact absurd he (splitPoints_ne_nil rest)

/-- The only segment of a text is the text. -/
theorem eq_of_splitPoints_eq_singleton {cs segment : List Char}
    (h : splitPoints cs = [segment]) : segment = cs := by
  induction cs generalizing segment with
  | nil => simpa [splitPoints, eq_comm] using h
  | cons c rest ih =>
    unfold splitPoints at h
    split at h
    · exact absurd (List.cons.inj h).2 (splitPoints_ne_nil rest)
    · split at h
      · next first more he =>
        obtain ⟨rfl, rfl⟩ := List.cons.inj h
        rw [ih he]
      · next he => exact absurd he (splitPoints_ne_nil rest)

theorem ofText_ne_nil (s : String) : ofText s ≠ [] := by
  simpa [ofText] using splitPoints_ne_nil s.toList

theorem ofText_eq_singleton {s segment : String} (h : ofText s = [segment]) : segment = s := by
  unfold ofText at h
  obtain ⟨cs, hcs, rfl⟩ := List.map_eq_singleton_iff.1 h
  rw [eq_of_splitPoints_eq_singleton hcs, String.ofList_toList]

/-- A segment of a text is a text of one segment. -/
theorem ofText_of_mem {s segment : String} (h : segment ∈ ofText s) :
    ofText segment = [segment] := by
  unfold ofText at h
  obtain ⟨cs, hcs, rfl⟩ := List.mem_map.1 h
  rw [ofText, String.toList_ofList, splitPoints_of_notMem (notMem_of_mem_splitPoints hcs),
    List.map_singleton]

theorem splitPoints_append (a b : List Char) :
    splitPoints (a ++ '.' :: b) = splitPoints a ++ splitPoints b := by
  induction a with
  | nil => simp [splitPoints]
  | cons c rest ih =>
    rw [List.cons_append, splitPoints, splitPoints, ih]
    split
    · rfl
    · cases hrest : splitPoints rest with
      | nil => exact absurd hrest (splitPoints_ne_nil rest)
      | cons segment more => rfl

/-- A text with a point between two others has the segments of both. -/
theorem ofText_append (s t : String) : ofText (s ++ "." ++ t) = ofText s ++ ofText t := by
  have hlist : (s ++ "." ++ t).toList = s.toList ++ '.' :: t.toList := by simp
  rw [ofText, hlist, splitPoints_append, List.map_append, ofText, ofText]

theorem get?_dict_cons (d : Document) (key : String) (rest : Path) :
    get? (.dict d) (key :: rest) =
      match d.field? key with
      | some c => get? c rest
      | none => .ok none := by
  rw [get?]
  cases h : d.field? key <;> simp [child?, h] <;> rfl

end Path

namespace Document

variable {d : Document} {column : String}

theorem column?_of_segment (h : Path.ofText column = [column]) :
    d.column? column = .ok (d.field? column) := by
  rw [column?, h, Path.get?_dict_cons]
  cases d.field? column <;> rfl

theorem columnD_of_segment (h : Path.ofText column = [column]) :
    d.columnD column .null = .ok (d.fieldOrNull column) := by
  have hc := column?_of_segment (d := d) h
  rw [column?] at hc
  rw [columnD, Path.getD, hc]
  rfl

theorem putColumn_of_segment (h : Path.ofText column = [column]) (v : Value) :
    d.putColumn column v = .ok (d.putField column v) := by
  rw [putColumn, h]
  rfl

end Document

end DocumentMapper
