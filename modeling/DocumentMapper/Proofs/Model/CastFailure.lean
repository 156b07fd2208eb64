import DocumentMapper.Proofs.Model.Recasting
import DocumentMapper.Proofs.Model.SaveCourse
import DocumentMapper.Proofs.Value.Overruns

/-!
# Saves that fail in a cast

A save that comes to a column which a named cast cannot convert ends there, with the record as it
was. What it raises names the column exactly if the cast refuses the value: an error of a value that
is beyond what the kind can hold comes out as it is.
-/

namespace DocumentMapper

open Outcome

namespace Casting

variable {σ : Type} {ctx : Context σ} {r : Record} {column type : String} {s : σ}
  {v given : Value} {e : Error} {force : Bool}

/-- The values that a cast goes through one by one. -/
def partsFor (type : String) : Value → List Value
  | .list items => if type == "array" || type == "location" then [.list items] else items
  | v => [v]

variable (ctx) in
/-- A cast of a content fails in one of its parts, the first one that cannot be cast. -/
def FailsAt (column type : String) (v given : Value) (e : Error) : Prop :=
  ∃ front back, partsFor type v = front ++ given :: back ∧
    (∀ u ∈ front, ∃ w, castPart ctx column type u = .ok w) ∧
    castPart ctx column type given = .error e

theorem failsAt_single (hparts : partsFor type v = [v])
    (h : castPart ctx column type v = .error e) : FailsAt ctx column type v v e :=
  ⟨[], [], hparts, List.forall_mem_nil _, h⟩

theorem exists_failsAt (h : converted ctx column type v = .error e) :
    ∃ given, FailsAt ctx column type v given e := by
  by_cases hlist : ∃ items, v = .list items
  · obtain ⟨items, rfl⟩ := hlist
    rw [converted] at h
    by_cases hwhole : (type == "array" || type == "location") = true
    · rw [if_pos hwhole] at h
      refine ⟨_, failsAt_single ?_ h⟩
      rw [partsFor, if_pos hwhole]
    · rw [if_neg hwhole] at h
      have hitems : items.mapM (castPart ctx column type) = .error e := by
        cases hcast : items.mapM (castPart ctx column type) with
        | error e' =>
          rw [hcast] at h
          exact congrArg _ (Except.error.inj h)
        | ok ws =>
          rw [hcast] at h
          cases h
      obtain ⟨front, given, back, hparts, hfront, hgiven⟩ := mapM_eq_error.1 hitems
      refine ⟨given, front, back, ?_, hfront, hgiven⟩
      rw [partsFor, if_neg hwhole]
      exact hparts
  · have hparts : partsFor type v = [v] := by
      cases v <;> first | rfl | exact absurd ⟨_, rfl⟩ hlist
    refine ⟨v, failsAt_single hparts ?_⟩
    cases v <;> first | exact h | exact absurd ⟨_, rfl⟩ hlist

/-- A named cast that fails names the column exactly if the value is not beyond the kind. -/
theorem named_reports_iff (h : named column type v = .error e) :
    (∃ reason, e = .cannotCast column v type reason) ↔ ¬ (CastKind.ofName type).Overruns v := by
  obtain ⟨reason, hcast, hreport⟩ := mapError_eq_error.1 h
  have hsorted := Value.sorted_of_cast hcast
  rw [← hsorted.refusesValue_iff]
  by_cases hrefuses : reason.refusesValue = true
  · rw [if_pos hrefuses] at hreport
    exact iff_of_true ⟨reason, hreport.symm⟩ hrefuses
  · rw [if_neg hrefuses] at hreport
    refine iff_of_false ?_ hrefuses
    rintro ⟨reason', rfl⟩
    rcases hsorted with ⟨hyes, -⟩ | ⟨hoverruns, -⟩
    · exact hrefuses hyes
    · rw [hreport] at hoverruns
      cases hoverruns

end Casting

namespace Lifecycle

variable {σ : Type} {ctx : Context σ} {below : Cascade σ} {o : SaveOptions} {r : Record} {s : σ}
  {step : Effect σ} {t : Record × σ} {force : Bool} {column type : String} {v : Value} {e : Error}

/-- A column that is due and cannot be converted is left as it is. -/
theorem run_castColumn_error (hdue : force = true ∨ r.isColumnChanged column = .ok true)
    (hv : r.data.column? column = .ok (some v))
    (h : Casting.converted ctx column type v = .error e) (s : σ) :
    (Casting.castColumn ctx force column (.named type)).run (r, s) = (.error e, r, s) := by
  have hcomes : Casting.due force r.isNew r column = .ok true := by
    cases force with
    | true => rfl
    | false => exact hdue.resolve_left Bool.false_ne_true
  rw [Casting.run_castColumn_due, hcomes]
  refine (Casting.run_castColumn_found hv s).trans ?_
  rw [h]
  rfl

variable (ctx below) in
/-- A save goes through the steps before one of its own without failing or stopping. -/
def ComesTo (o : SaveOptions) (r : Record) (s : σ) (step : Effect σ) (t : Record × σ) : Prop :=
  ∃ front back steps, saving ctx (ctx.model r.model) o r = front ++ .one step :: back ∧
    Phase.Follows (Effect.act ctx below (ctx.model r.model)) front (r, s) steps .finished t

/-- A save ends with a step that fails. -/
theorem save_of_comesTo (hlog : ∀ entry s, ∃ s', (ctx.log entry).run s = (.ok (), s'))
    (h : ComesTo ctx below o r s step t) {t' : Record × σ}
    (hstep : (step.act ctx below (ctx.model r.model)).run t = (.error e, t')) :
    ∃ s', (save ctx below o).run (r, s) = (.error e, t'.1, s') := by
  obtain ⟨front, back, steps, hphases, hfront⟩ := h
  have hlast : Phase.Follows (Effect.act ctx below (ctx.model r.model)) (.one step :: back) t
      [step] (.failed e) t' := .fail hstep
  have hcourse := hfront.trans hlast
  rw [← hphases] at hcourse
  have hends := ends_save below (r := r) (o := o) hlog rfl s
  rw [hcourse.run_perform] at hends
  obtain ⟨s', hsave, -⟩ := hends
  exact ⟨s', hsave⟩

/-- Shops have a place that is cast to a location. -/
def placing : Context (List Request) :=
  { Context.journaling with
    model := fun name => { Context.journaling.model name with
      casts := [("place", .named "location")] } }

def shopAt (place : Value) : Record :=
  .ofData "Shop" [(.text "_id", .int 7), (.text "place", place)]

def forced : SaveOptions :=
  { SaveOptions.standard with force := true }

theorem comesTo_place (place : Value) :
    ComesTo placing (cascade placing 0) forced (shopAt place) []
      (.cast true "place" (.named "location")) (shopAt place, []) :=
  ⟨[.one .require], _, _, rfl, .one rfl .nil⟩

end Lifecycle

end DocumentMapper
