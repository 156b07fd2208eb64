import DocumentMapper.Proofs.Path.Modify
import Mathlib.Data.List.Pairwise

/-!
# Independent paths

Two paths are independent in a value if they come to a place where their segments name different
parts, or to one below which there is nothing. Whether they do is a matter of the value: a
dictionary tells two spellings of a position apart, a list does not. A change at one path leaves
independent paths alone, and they stay independent, so that changes at pairwise independent paths
may be made in any order.
-/

namespace DocumentMapper.Path

variable {f g : Value → Value} {v c : Value} {key l m : String} {p q r : Path}

theorem SamePart.symm (h : SamePart key l v) : SamePart l key v := by
  cases v with
  | dict d => exact Eq.symm h
  | list items => exact Eq.symm h
  | _ => trivial

theorem SamePart.trans (h : SamePart key l v) (h' : SamePart l m v) : SamePart key m v := by
  cases v with
  | dict d => exact Eq.trans h h'
  | list items => exact Eq.trans h h'
  | _ => trivial

/-- A part is found under every segment that names it. -/
theorem SamePart.child?_eq_some (h : SamePart key l v) (hc : child? v key = .ok (some c)) :
    child? v l = .ok (some c) := by
  cases v with
  | dict d =>
    obtain rfl : key = l := h
    exact hc
  | list items =>
    obtain ⟨i, hi, hitem⟩ := child?_list_eq_some hc
    have hl : position? l = some i := Eq.trans (Eq.symm h) hi
    rw [child?_list_of_position? hl, hitem]
  | _ => cases hc

/-! ## What a change of a part does to the parts -/

theorem child?_modifyChild_of_samePart (h : SamePart m key v) :
    child? (modifyChild g m v) key = Option.map g <$> child? v key := by
  cases v with
  | dict d =>
    obtain rfl : m = key := h
    rw [modifyChild_dict]
    cases hd : Document.field? d m with
    | none => simp [child?, hd]
    | some b => simp [child?, hd, Document.field?_putField_self]
  | list items =>
    have hposition : position? m = position? key := h
    cases hkey : position? key with
    | none =>
      have hm : modifyChild g m (.list items) = .list items := by
        simp [modifyChild, hposition, hkey]
      rw [hm]
      cases hfound : child? (.list items) key with
      | error e => rfl
      | ok found =>
        cases found with
        | none => rfl
        | some c =>
          obtain ⟨i, hi, -⟩ := child?_list_eq_some hfound
          cases hkey.symm.trans hi
    | some i =>
      rw [modifyChild, hposition, hkey, child?_list_of_position? hkey,
        child?_list_of_position? hkey]
      simp
  | _ => rfl

theorem child?_modifyChild_of_not_samePart (h : ¬ SamePart m key v) :
    child? (modifyChild g m v) key = child? v key := by
  cases v with
  | dict d =>
    have hne : key ≠ m := fun he => h he.symm
    rw [modifyChild_dict]
    cases Document.field? d m with
    | none => rfl
    | some b => simp [child?, Document.field?_putField_of_ne hne]
  | list items =>
    have hne : position? m ≠ position? key := h
    cases hm : position? m with
    | none => simp [modifyChild, hm]
    | some i =>
      have hlist : modifyChild g m (.list items) = .list (items.modify i g) := by
        simp [modifyChild, hm]
      rw [hlist]
      refine child?_list_congr fun j hj => ?_
      have hij : i ≠ j := fun hij => hne (by rw [hm, hj, hij])
      exact List.getElem?_modify_ne g items hij
  | _ => exact absurd trivial h

/-- Functions that agree on a part change it alike. -/
theorem modifyChild_congr (h : ∀ c, child? v key = .ok (some c) → f c = g c) :
    modifyChild f key v = modifyChild g key v := by
  cases v with
  | dict d =>
    rw [modifyChild_dict, modifyChild_dict]
    cases hd : Document.field? d key with
    | none => rfl
    | some c => simp only [h c (congrArg Except.ok hd)]
  | list items =>
    cases hkey : position? key with
    | none => simp [modifyChild, hkey]
    | some i =>
      cases hitem : items[i]? with
      | none => simp [modifyChild, hkey, List.modify_eq_set_getElem?, hitem]
      | some c =>
        have hc : child? (.list items) key = .ok (some c) := by
          rw [child?_list_of_position? hkey, hitem]
        rw [modifyChild_list hkey hitem, modifyChild_list hkey hitem, h c hc]
  | _ => rfl

/-! ## Independence -/

/-- Whether neither of two paths leads into what the other one leads to. -/
inductive Independent : Value → Path → Path → Prop
  | parted {v : Value} {k l : String} {p q : Path} :
      ¬ SamePart k l v → Independent v (k :: p) (l :: q)
  | inside {v : Value} {k l : String} {p q : Path} :
      SamePart k l v → (∀ c, child? v k = .ok (some c) → Independent c p q) →
      Independent v (k :: p) (l :: q)

namespace Independent

theorem exists_cons (h : Independent v p q) : ∃ k p', p = k :: p' := by
  cases h <;> exact ⟨_, _, rfl⟩

theorem of_samePart (h : Independent v (key :: p) (l :: q)) (hsame : SamePart key l v)
    (hc : child? v key = .ok (some c)) : Independent c p q := by
  cases h with
  | parted hparted => exact absurd hsame hparted
  | inside _ hbelow => exact hbelow c hc

theorem symm (h : Independent v p q) : Independent v q p := by
  induction h with
  | parted hparted => exact .parted fun hsame => hparted hsame.symm
  | inside hsame _ ih => exact .inside hsame.symm fun c hc => ih c (hsame.symm.child?_eq_some hc)

/-- Paths of which neither begins the other are independent if a list that they part in tells their
segments apart. -/
theorem of_branch {w : Path} (hne : key ≠ l)
    (h : ∀ items, get? v w = .ok (some (.list items)) →
      ∀ i, position? key = some i → position? l ≠ some i) :
    Independent v (w ++ key :: p) (w ++ l :: q) := by
  induction w generalizing v with
  | nil =>
    cases v with
    | dict d => exact .parted hne
    | list items =>
      have hpositions := h items rfl
      by_cases hsame : position? key = position? l
      · refine .inside hsame fun c hc => ?_
        obtain ⟨i, hi, -⟩ := child?_list_eq_some hc
        exact absurd (hsame.symm.trans hi) (hpositions i hi)
      · exact .parted hsame
    | _ => exact .inside trivial nofun
  | cons k w ih =>
    refine .inside ?_ fun c hc => ih fun items hitems => h items ?_
    · cases v with
      | dict d => exact Eq.refl k
      | list items => exact Eq.refl (position? k)
      | _ => trivial
    · rw [get?, hc]
      exact hitems

/-- Paths stay independent when a change is made at a third one that is independent of either. -/
theorem modify (h : Independent v p q) (hr : Independent v r q) (g : Value → Value) :
    Independent (modify g r v) p q := by
  induction h generalizing r with
  | @parted v k l p q hparted =>
    obtain ⟨m, r, rfl⟩ := hr.exists_cons
    rw [Path.modify]
    exact .parted fun hsame => hparted ((samePart_modifyChild _ m).1 hsame)
  | @inside v k l p q hsame hbelow ih =>
    obtain ⟨m, r, rfl⟩ := hr.exists_cons
    rw [Path.modify]
    refine .inside ((samePart_modifyChild _ m).2 hsame) fun c hc => ?_
    by_cases hm : SamePart m k v
    · rw [child?_modifyChild_of_samePart hm] at hc
      obtain ⟨found, hfound, hmap⟩ := Outcome.map_eq_ok.1 hc
      obtain ⟨c, rfl, rfl⟩ := Option.map_eq_some_iff.1 hmap
      exact ih c hfound (hr.of_samePart (hm.trans hsame) (hm.symm.child?_eq_some hfound))
    · rw [child?_modifyChild_of_not_samePart hm] at hc
      exact hbelow c hc

/-- A change at one path is not seen at the other. -/
theorem get?_modify (h : Independent v p q) (f : Value → Value) :
    get? (Path.modify f p v) q = get? v q := by
  induction h with
  | @parted v k l p q hparted =>
    rw [Path.modify, get?, get?, child?_modifyChild_of_not_samePart hparted]
  | @inside v k l p q hsame hbelow ih =>
    rw [Path.modify, get?, get?, child?_modifyChild_of_samePart hsame]
    cases hchild : child? v l with
    | error e => rfl
    | ok found =>
      cases found with
      | none => rfl
      | some c => exact ih c (hsame.symm.child?_eq_some hchild)

theorem modify_comm (h : Independent v p q) :
    Path.modify f p (Path.modify g q v) = Path.modify g q (Path.modify f p v) := by
  induction h with
  | parted hparted => exact modifyChild_comm hparted
  | @inside v k l p q hsame hbelow ih =>
    have hsame' : SamePart k l (modifyChild (Path.modify f p) k v) :=
      (samePart_modifyChild _ _).2 hsame
    rw [Path.modify, Path.modify, Path.modify, Path.modify, modifyChild_of_samePart hsame,
      modifyChild_of_samePart hsame', modifyChild_modifyChild, modifyChild_modifyChild]
    exact modifyChild_congr ih

end Independent

/-! ## Several changes -/

/-- A path and what is done to the value that it leads to. -/
abbrev Change := Path × (Value → Value)

/-- Changes made one after another. -/
def modifyEach (changes : List Change) (v : Value) : Value :=
  changes.foldl (fun v change => modify change.2 change.1 v) v

@[simp] theorem modifyEach_cons (change : Change) (rest : List Change) (v : Value) :
    modifyEach (change :: rest) v = modifyEach rest (modify change.2 change.1 v) := rfl

variable {changes changes' : List Change}

theorem dict_entries_modifyEach (h : ∀ a ∈ changes, a.1 ≠ []) (d : Document) :
    .dict (modifyEach changes (.dict d)).entries = modifyEach changes (.dict d) := by
  induction changes generalizing d with
  | nil => rfl
  | cons a rest ih =>
    obtain ⟨ha, hrest⟩ := List.forall_mem_cons.1 h
    rw [modifyEach_cons, ← dict_entries_modify ha, ih hrest]

/-- Changes at paths that are independent of each other. -/
abbrev Apart (changes : List Change) (v : Value) : Prop :=
  changes.Pairwise fun a b => Independent v a.1 b.1

theorem apart_modify (h : Apart changes v) (hp : ∀ a ∈ changes, Independent v p a.1) :
    Apart changes (modify f p v) := by
  refine h.imp_of_mem fun {a b} _ hb hab => hab.modify (hp b hb) f

theorem get?_modifyEach_of_independent (h : Apart changes v)
    (hq : ∀ a ∈ changes, Independent v a.1 q) : get? (modifyEach changes v) q = get? v q := by
  induction changes generalizing v with
  | nil => rfl
  | cons a rest ih =>
    obtain ⟨ha, hrest⟩ := List.pairwise_cons.1 h
    obtain ⟨hfirst, hmore⟩ := List.forall_mem_cons.1 hq
    have hlater : ∀ b ∈ rest, Independent (modify a.2 a.1 v) b.1 q :=
      fun b hb => (hmore b hb).modify hfirst a.2
    rw [modifyEach_cons, ih (apart_modify hrest ha) hlater, hfirst.get?_modify]

theorem get?_modify_self (f : Value → Value) (p : Path) (v : Value) :
    get? (modify f p v) p = Option.map f <$> get? v p := by
  cases hfound : get? v p with
  | error e =>
    rw [modify_of_fixed (fun c hc => nomatch hfound.symm.trans hc), hfound]
    rfl
  | ok found =>
    cases found with
    | none =>
      rw [modify_of_fixed (fun c hc => nomatch hfound.symm.trans hc), hfound]
      rfl
    | some c => exact get?_modify hfound f

/-- What one of several changes has made of its path. -/
theorem get?_modifyEach_of_mem (h : Apart changes v) {a : Change} (ha : a ∈ changes) :
    get? (modifyEach changes v) a.1 = Option.map a.2 <$> get? v a.1 := by
  induction changes generalizing v with
  | nil => cases ha
  | cons b rest ih =>
    obtain ⟨hb, hrest⟩ := List.pairwise_cons.1 h
    have hlater : Apart rest (modify b.2 b.1 v) := apart_modify hrest hb
    rw [modifyEach_cons]
    rcases List.mem_cons.1 ha with rfl | hmem
    · have hself : ∀ c ∈ rest, Independent (modify a.2 a.1 v) c.1 a.1 :=
        fun c hc => ((hb c hc).modify (hb c hc) a.2).symm
      rw [get?_modifyEach_of_independent hlater hself, get?_modify_self]
    · rw [ih hlater hmem, (hb a hmem).get?_modify]

/-- Independent changes may be made in any order. -/
theorem modifyEach_perm (hperm : changes.Perm changes') (h : Apart changes v) :
    modifyEach changes v = modifyEach changes' v := by
  induction hperm generalizing v with
  | nil => rfl
  | cons a _ ih =>
    obtain ⟨ha, hrest⟩ := List.pairwise_cons.1 h
    exact ih (apart_modify hrest ha)
  | swap a b rest =>
    obtain ⟨hb, -⟩ := List.pairwise_cons.1 h
    have hba : Independent v b.1 a.1 := hb a List.mem_cons_self
    simp only [modifyEach_cons, hba.modify_comm]
  | trans hfirst _ ih ih' =>
    exact (ih h).trans (ih' (h.perm hfirst Independent.symm))

end DocumentMapper.Path
