import DocumentMapper.Document
import DocumentMapper.Proofs.Outcome

/-!
# Columns in turn

The columns of a rule are gone through in their order, each with a step that changes the document
or fails. What is shown of one step holds of the document that the column finds at its turn. It
holds of the whole run as far as the other steps leave alone what it is about.
-/

namespace DocumentMapper.Sync

variable {step : Document → String → Except Error Document} {P Q : Document → Prop}
  {columns before after : List String} {column : String} {d d' : Document}

/-- The documents before and after the step of a column, on the way from the first document to the
last one. -/
structure AtTurn (step : Document → String → Except Error Document) (before : List String)
    (column : String) (after : List String) (d d₁ d₂ d' : Document) : Prop where
  reached : before.foldlM step d = .ok d₁
  own : step d₁ column = .ok d₂
  rest : after.foldlM step d₂ = .ok d'

theorem exists_atTurn (h : (before ++ column :: after).foldlM step d = .ok d') :
    ∃ d₁ d₂, AtTurn step before column after d d₁ d₂ d' := by
  rw [List.foldlM_append] at h
  obtain ⟨d₁, hreached, h⟩ := Outcome.bind_eq_ok.1 h
  obtain ⟨d₂, hown, hrest⟩ := Outcome.foldlM_cons_eq_ok.1 h
  exact ⟨d₁, d₂, hreached, hown, hrest⟩

/-- What every step preserves is preserved. -/
theorem foldlM_preserves (hstep : ∀ c ∈ columns, ∀ d d', step d c = .ok d' → P d → P d') (hd : P d)
    (h : columns.foldlM step d = .ok d') : P d' := by
  induction columns generalizing d with
  | nil =>
    rw [← Outcome.foldlM_nil_eq_ok.1 h]
    exact hd
  | cons c rest ih =>
    obtain ⟨d₁, hc, hrest⟩ := Outcome.foldlM_cons_eq_ok.1 h
    have hd₁ := hstep c List.mem_cons_self d d₁ hc hd
    exact ih (fun c hmem => hstep c (List.mem_cons_of_mem _ hmem)) hd₁ hrest

/-- What every step leaves as it is stays as it is. -/
theorem foldlM_keeps {β : Type} {f : Document → β}
    (hstep : ∀ c ∈ columns, ∀ d d', step d c = .ok d' → f d' = f d)
    (h : columns.foldlM step d = .ok d') : f d' = f d :=
  foldlM_preserves (P := fun e => f e = f d)
    (fun c hc e e' hs he => (hstep c hc e e' hs).trans he) rfl h

/-- A document that no step changes is not changed by the whole run. -/
theorem foldlM_of_fixed (h : ∀ c ∈ columns, step d c = .ok d) : columns.foldlM step d = .ok d := by
  induction columns with
  | nil => rfl
  | cons c rest ih =>
    obtain ⟨hc, hrest⟩ := List.forall_mem_cons.1 h
    exact Outcome.foldlM_cons_eq_ok.2 ⟨d, hc, ih hrest⟩

/-- A run succeeds if every step does and preserves what makes the others succeed. -/
theorem foldlM_succeeds (hstep : ∀ c ∈ columns, ∀ d, P d → ∃ d', step d c = .ok d' ∧ P d')
    (hd : P d) : ∃ d', columns.foldlM step d = .ok d' := by
  induction columns generalizing d with
  | nil => exact ⟨d, rfl⟩
  | cons c rest ih =>
    obtain ⟨d₁, hc, hd₁⟩ := hstep c List.mem_cons_self d hd
    obtain ⟨d', hrest⟩ := ih (fun c hmem => hstep c (List.mem_cons_of_mem _ hmem)) hd₁
    exact ⟨d', Outcome.foldlM_cons_eq_ok.2 ⟨d₁, hc, hrest⟩⟩

/-- What the step of one column brings about holds in the end if every step preserves it, and also
what it takes to bring it about. -/
theorem foldlM_reaches (hstep : ∀ c ∈ columns, ∀ d d', step d c = .ok d' → P d → P d')
    (hown : ∀ d d', step d column = .ok d' → P d → Q d')
    (hlast : ∀ c ∈ columns, ∀ d d', step d c = .ok d' → Q d → Q d') (hc : column ∈ columns)
    (hd : P d) (h : columns.foldlM step d = .ok d') : Q d' := by
  obtain ⟨before, after, rfl⟩ := List.append_of_mem hc
  obtain ⟨d₁, d₂, hat⟩ := exists_atTurn h
  have hd₁ : P d₁ :=
    foldlM_preserves (fun c hmem => hstep c (List.mem_append_left _ hmem)) hd hat.reached
  refine foldlM_preserves (fun c hmem => hlast c ?_) (hown d₁ d₂ hat.own hd₁) hat.rest
  exact List.mem_append_right _ (List.mem_cons_of_mem _ hmem)

/-- If no step changes a document that it made itself, and the steps leave it to each other whether
they would change a document, then a second run changes nothing. -/
theorem foldlM_again (hown : ∀ c ∈ columns, ∀ d d', step d c = .ok d' → step d' c = .ok d')
    (hother : ∀ a ∈ columns, ∀ b ∈ columns, ∀ d d', step d a = .ok d' → step d b = .ok d →
      step d' b = .ok d')
    (h : columns.foldlM step d = .ok d') : columns.foldlM step d' = .ok d' := by
  refine foldlM_of_fixed fun c hc => ?_
  obtain ⟨before, after, hsplit⟩ := List.append_of_mem hc
  rw [hsplit] at h
  obtain ⟨d₁, d₂, hat⟩ := exists_atTurn h
  have hsettled : step d₂ c = .ok d₂ := hown c hc d₁ d₂ hat.own
  refine foldlM_preserves (P := fun e => step e c = .ok e) (fun a ha => ?_) hsettled hat.rest
  have hmem : a ∈ columns := hsplit ▸ List.mem_append_right _ (List.mem_cons_of_mem _ ha)
  exact hother a hmem c hc

/-- Once `Q` says of a document what `P` says, no step changes that. -/
theorem foldlM_settled (hstep : ∀ c ∈ columns, ∀ d d', step d c = .ok d' → (Q d ↔ P d) →
      (Q d' ↔ P d') ∧ (P d' ↔ P d))
    (hd : Q d ↔ P d) (h : columns.foldlM step d = .ok d') : Q d' ↔ P d := by
  refine foldlM_preserves (P := fun e => (Q e ↔ P d) ∧ (P e ↔ P d))
    (fun c hc e e' hs he => ?_) ⟨hd, Iff.rfl⟩ h |>.1
  obtain ⟨hq, hp⟩ := hstep c hc e e' hs (he.1.trans he.2.symm)
  exact ⟨hq.trans (hp.trans he.2), hp.trans he.2⟩

/-- If the step of a column makes `Q` of what `P` was before, and the other steps leave both alone,
the whole run makes `Q` of what `P` was at the start. -/
theorem foldlM_iff
    (hown : ∀ d d', step d column = .ok d' → (Q d' ↔ P d) ∧ (P d' ↔ P d))
    (hother : ∀ other ∈ columns, other ≠ column → ∀ d d', step d other = .ok d' →
      (P d' ↔ P d) ∧ (Q d → Q d') ∧ (¬ P d → Q d' → Q d))
    (hc : column ∈ columns) (h : columns.foldlM step d = .ok d') : Q d' ↔ P d := by
  obtain ⟨before, after, rfl, hnot⟩ := List.eq_append_cons_of_mem hc
  obtain ⟨d₁, d₂, hat⟩ := exists_atTurn h
  have hreached : P d₁ = P d := by
    refine foldlM_keeps (fun other hmem e e' hs => propext ?_) hat.reached
    refine (hother other (List.mem_append_left _ hmem) ?_ e e' hs).1
    rintro rfl
    exact hnot hmem
  obtain ⟨hq, hp⟩ := hown d₁ d₂ hat.own
  rw [← hreached, ← hp]
  refine foldlM_settled (fun other hmem e e' hs he => ?_) (hq.trans hp.symm) hat.rest
  by_cases heq : other = column
  · subst heq
    obtain ⟨hq', hp'⟩ := hown e e' hs
    exact ⟨hq'.trans hp'.symm, hp'⟩
  · obtain ⟨hp', hkeep, hback⟩ :=
      hother other (List.mem_append_right _ (List.mem_cons_of_mem _ hmem)) heq e e' hs
    refine ⟨?_, hp'⟩
    rw [hp']
    by_cases hpe : P e
    · exact iff_of_true (hkeep (he.2 hpe)) hpe
    · exact iff_of_false (fun hq'' => hpe (he.1 (hback hpe hq''))) hpe

end DocumentMapper.Sync
