import DocumentMapper.Log.Manager
import Mathlib.Data.List.Basic

/-!
# Names of loggers

The name of a logger stands in the name of its file and in the key under which it is kept. A name
without a slash keeps the file in the directory of the component, and a name without a point is told
apart from the component by the key, so that two such pairs with one key have one file.
-/

namespace DocumentMapper

/-! ## Lower case -/

theorem Text.ofNat_ne_slash {n : Nat} (h : '/'.toNat < n) : Char.ofNat n ≠ '/' := by
  by_cases hvalid : n.isValidChar
  · rw [Char.ofNat, dif_pos hvalid]
    intro hslash
    have hn : n = '/'.toNat := congrArg Char.toNat hslash
    exact absurd hn (Nat.ne_of_gt h)
  · rw [Char.ofNat, dif_neg hvalid]
    decide

theorem Text.lowerChar_ne_slash {c : Char} (h : c ≠ '/') : lowerChar c ≠ '/' := by
  have hruns : ∀ run ∈ capitalRuns, ('/'.toNat : Int) < run.1 + run.2.2.2 := by decide +kernel
  unfold lowerChar
  dsimp only
  split
  · rename_i first last step distance hfind
    have hrun := hruns _ (List.mem_of_find?_eq_some hfind)
    have hfirst := List.find?_some hfind
    simp only [Bool.and_eq_true, decide_eq_true_eq] at hfirst
    refine ofNat_ne_slash ?_
    simp only at hrun
    omega
  · exact h

theorem Text.slash_notMem_lowerChars {cs : List Char} (h : '/' ∉ cs) (before : List Char) :
    '/' ∉ lowerChars before cs := by
  induction cs generalizing before with
  | nil => exact List.not_mem_nil
  | cons c rest ih =>
    rw [List.mem_cons, not_or] at h
    rw [lowerChars, List.mem_append]
    refine not_or.2 ⟨?_, ih h.2 _⟩
    split_ifs
    · decide
    · decide
    · decide
    · exact List.mem_singleton.not.2 (lowerChar_ne_slash (Ne.symm h.1)).symm

namespace Log

/-! ## Files -/

theorem Place.splitSlashes_of_notMem {cs : List Char} (h : '/' ∉ cs) : splitSlashes cs = [cs] := by
  induction cs with
  | nil => rfl
  | cons c rest ih =>
    rw [List.mem_cons, not_or] at h
    rw [splitSlashes, if_neg (Ne.symm h.1), ih h.2]

/-- A longer name than the two points, without a slash, leads to what is named so. -/
theorem Place.follow_of_notMem (directory : Place) {name : String} (h : '/' ∉ name.toList)
    (hlength : 2 < name.toList.length) : directory.follow name = directory ++ [name] := by
  have hhead : name.toList.head? ≠ some '/' := fun hhead => h (List.mem_of_head? hhead)
  have hstep : directory.step name.toList = directory ++ [name] := by
    unfold step
    rw [if_neg, if_neg, String.ofList_toList]
    · intro hname
      rw [hname] at hlength
      exact absurd hlength (by decide)
    · rintro (hname | hname) <;> rw [hname] at hlength <;> exact absurd hlength (by decide)
  rw [follow, splitSlashes_of_notMem h, if_neg hhead, List.foldl_cons, List.foldl_nil, hstep]

/-- The file of a name without a slash is in the directory of the component. -/
theorem loggerFile_of_notMem (directory : Place) {name : String} (h : '/' ∉ name.toList)
    (component : Option String) : loggerFile directory name component =
      home directory component ++ [Text.lowercase name ++ ".log"] := by
  have htoList : (Text.lowercase name ++ ".log").toList =
      Text.lowerChars [] name.toList ++ ['.', 'l', 'o', 'g'] := by
    rw [String.toList_append, Text.lowercase, String.toList_ofList]
    rfl
  refine Place.follow_of_notMem _ ?_ ?_
  · rw [htoList, List.mem_append]
    exact not_or.2 ⟨Text.slash_notMem_lowerChars h [], by decide⟩
  · rw [htoList, List.length_append]
    exact Nat.lt_of_lt_of_le (by decide) (Nat.le_add_left 4 _)

/-! ## Keys -/

theorem eq_nil_of_cons_eq_append {mark : Char} {lead rest rest' : List Char} (h : mark ∉ rest)
    (heq : mark :: rest = lead ++ mark :: rest') : lead = [] ∧ rest = rest' := by
  cases lead with
  | nil => exact ⟨rfl, (List.cons.inj heq).2⟩
  | cons c more =>
    rw [(List.cons.inj heq).2] at h
    exact absurd (List.mem_append_right _ List.mem_cons_self) h

/-- What stands behind the last mark, and before it, is told by the whole. -/
theorem split_last_inj {mark : Char} {lead lead' rest rest' : List Char} (h : mark ∉ rest)
    (h' : mark ∉ rest') (heq : lead ++ mark :: rest = lead' ++ mark :: rest') :
    lead = lead' ∧ rest = rest' := by
  obtain ⟨more, hlead, hrest⟩ | ⟨more, hlead, hrest⟩ := List.append_eq_append_iff.1 heq
  · obtain ⟨rfl, heq⟩ := eq_nil_of_cons_eq_append h hrest
    exact ⟨(hlead.trans (List.append_nil _)).symm, heq⟩
  · obtain ⟨rfl, heq⟩ := eq_nil_of_cons_eq_append h' hrest
    exact ⟨hlead.trans (List.append_nil _), heq.symm⟩

theorem loggerKey_of_none {component : Option String} (h : component? component = none)
    (name : String) : loggerKey name component = name := by
  rw [loggerKey, h]

theorem toList_loggerKey_of_some {component : Option String} {c : String}
    (h : component? component = some c) (name : String) :
    (loggerKey name component).toList = c.toList ++ '.' :: name.toList := by
  rw [loggerKey, h]
  simp

/-- Names without a point are told apart by the key, and so are their components. -/
theorem component?_eq_of_key_eq {n n' : String} {c c' : Option String} (h : '.' ∉ n.toList)
    (h' : '.' ∉ n'.toList) (hkey : loggerKey n c = loggerKey n' c') :
    component? c = component? c' ∧ n = n' := by
  have hlists := congrArg String.toList hkey
  cases hc : component? c with
  | none =>
    rw [loggerKey_of_none hc] at hkey hlists
    cases hc' : component? c' with
    | none => exact ⟨rfl, hkey.trans (loggerKey_of_none hc' n')⟩
    | some a' =>
      rw [hlists, toList_loggerKey_of_some hc'] at h
      exact absurd (List.mem_append_right _ List.mem_cons_self) h
  | some a =>
    rw [toList_loggerKey_of_some hc] at hlists
    cases hc' : component? c' with
    | none =>
      rw [loggerKey_of_none hc'] at hlists
      rw [← hlists] at h'
      exact absurd (List.mem_append_right _ List.mem_cons_self) h'
    | some a' =>
      rw [toList_loggerKey_of_some hc'] at hlists
      obtain ⟨ha, hn⟩ := split_last_inj h h' hlists
      exact ⟨congrArg some (String.toList_inj.1 ha), String.toList_inj.1 hn⟩

theorem home_eq_of_component?_eq (directory : Place) {c c' : Option String}
    (h : component? c = component? c') : home directory c = home directory c' := by
  have hgiven (c : Option String) : home directory (component? c) = home directory c := by
    cases c with
    | none => rfl
    | some c =>
      by_cases hc : c = ""
      · rw [hc]
        rfl
      · rw [component?, Option.filter_some, if_pos (by simp [hc])]
  rw [← hgiven c, h, hgiven c']

theorem loggerFile_eq_of_key_eq (directory : Place) {n n' : String} {c c' : Option String}
    (h : '.' ∉ n.toList) (h' : '.' ∉ n'.toList) (hkey : loggerKey n c = loggerKey n' c') :
    loggerFile directory n c = loggerFile directory n' c' := by
  obtain ⟨hcomponent, rfl⟩ := component?_eq_of_key_eq h h' hkey
  rw [loggerFile, home_eq_of_component?_eq directory hcomponent, loggerFile]

end Log

end DocumentMapper
