import DocumentMapper.Proofs.Filter.Negation
import DocumentMapper.Proofs.Value.Normalization

/-!
# Which clauses are accepted

A clause is refused if it does not have one, two or three parts, if a single part is no filter, if
its operator does not exist, or if an operator for ranges is given something else than two values.
Besides, no moment in it may lie outside of the calendar, unless it stands in an operand that is
searched for as a text. Nothing else is refused. A filter keeps its keys, and a column is compared
by operators of the query language only.
-/

namespace DocumentMapper

open Outcome

namespace Value

variable {v w : Value}

theorem ItemsInUtc.length_eq {items ws : List Value} (h : ItemsInUtc items ws) :
    ws.length = items.length := by
  induction items generalizing ws with
  | nil =>
    cases h
    rfl
  | cons v rest ih =>
    obtain ⟨u, us, -, hrest, rfl⟩ := itemsInUtc_cons_iff.1 h
    simp [ih hrest]

theorem EntriesInUtc.map_fst {entries es : List (Value × Value)} (h : EntriesInUtc entries es) :
    es.map Prod.fst = entries.map Prod.fst := by
  induction entries generalizing es with
  | nil =>
    cases h
    rfl
  | cons entry rest ih =>
    obtain ⟨w, ws, -, hrest, rfl⟩ := entriesInUtc_cons_iff.1 h
    simp [ih hrest]

/-- On clocks of UTC a pair is still a pair, and nothing else becomes one. -/
theorem isPair_iff_of_inUtc (h : InUtc v w) : w.IsPair ↔ v.IsPair := by
  cases h with
  | list hitems => simp [IsPair, hitems.length_eq]
  | tuple hitems => simp [IsPair, hitems.length_eq]
  | moment _ | dict _ | leaf _ => rfl

theorem normalizeDates_eq_error_iff {e : Error} : v.normalizeDates = .error e ↔
    e = .dateRange ∧ ∃ m ∈ v.moments .parts, ¬ m.InCalendar := by
  have hout : (∃ m ∈ v.moments .parts, ¬ m.InCalendar) ↔ ¬ ∃ w, v.normalizeDates = .ok w := by
    simp only [normalizeDates_iff_inUtc, exists_inUtc_iff, All, not_forall, exists_prop]
  rw [hout]
  cases h : v.normalizeDates with
  | error e' =>
    obtain rfl := dateRange_of_normalizeDates v h
    simp [eq_comm]
  | ok w => simp

end Value

namespace Operator

variable {op : Operator} {v : Value} {e : Error}

/-- The operators whose operand is searched for as a text. -/
def searches : List Operator :=
  [like, notLike, startsWith, endsWith, notStartsWith, notEndsWith]

def ranges : List Operator :=
  [between, notBetween]

theorem ofValue_eq_ok_iff : ofValue v = .ok op ↔ v = .text op.token := by
  constructor
  · intro h
    unfold ofValue at h
    split at h
    · next s =>
      cases hfound : ofToken? s with
      | none =>
        rw [hfound] at h
        cases h
      | some op' =>
        rw [hfound] at h
        cases h
        have htoken := List.find?_some hfound
        rw [beq_iff_eq] at htoken
        rw [htoken]
    · cases h
  · rintro rfl
    simp [ofValue, ofToken?_token]

theorem ofValue_eq_error_iff : ofValue v = .error e ↔
    e = .unknownOperator v ∧ ∀ op : Operator, v ≠ .text op.token := by
  have hnone : (∀ op : Operator, v ≠ .text op.token) ↔ ¬ ∃ op, ofValue v = .ok op := by
    simp only [ofValue_eq_ok_iff, not_exists, ne_eq]
  rw [hnone]
  unfold ofValue
  split
  · next s => cases ofToken? s <;> simp [eq_comm]
  · simp [eq_comm]

theorem head?_native (op : Operator) : op.native.toList.head? = some '$' := by
  cases op <;> decide

end Operator

namespace Filter

variable {args : List Value} {op : Operator} {v f : Value} {e : Error}

/-! ## What an operator refuses -/

/-- A dictionary of operators of the query language. -/
def Compares : Value → Prop
  | .dict entries =>
    entries ≠ [] ∧ ∀ entry ∈ entries, ∃ name : String,
      entry.1 = .text name ∧ name.toList.head? = some '$'
  | _ => False

theorem compares_single {name : String} (hname : name.toList.head? = some '$') (v : Value) :
    Compares (.single name v) :=
  ⟨nofun, List.forall_mem_singleton.2 ⟨name, rfl, hname⟩⟩

theorem compares_range (low high : Value) :
    Compares (.ofEntries [("$gte", low), ("$lte", high)]) := by
  refine ⟨nofun, ?_⟩
  simp only [List.map_cons, List.map_nil, List.forall_mem_cons]
  exact ⟨⟨"$gte", rfl, by decide⟩, ⟨"$lte", rfl, by decide⟩, List.forall_mem_nil _⟩

theorem expression_of_searches (h : op ∈ Operator.searches) (v : Value) :
    ∃ f, expression op v = .ok f ∧ Compares f := by
  simp only [Operator.searches, List.mem_cons, List.not_mem_nil, or_false] at h
  rcases h with rfl | rfl | rfl | rfl | rfl | rfl
  all_goals exact ⟨_, rfl, compares_single (by decide) _⟩

theorem expression_of_ranges (h : op ∈ Operator.ranges) (v : Value) :
    ∃ wrap : Value → Value, (∀ f, Compares f → Compares (wrap f)) ∧
      expression op v = v.normalizeDates >>= fun w => wrap <$> range op w := by
  simp only [Operator.ranges, List.mem_cons, List.not_mem_nil, or_false] at h
  rcases h with rfl | rfl
  · refine ⟨id, fun f hf => hf, ?_⟩
    simp only [expression, plainExpression, id_map]
  · exact ⟨negated, fun f _ => compares_single (by decide) f, rfl⟩

/-- All other operators are compared with their operand, but a text after `in` names a column. -/
theorem expression_of_other (hsearch : op ∉ Operator.searches) (hrange : op ∉ Operator.ranges)
    (v : Value) :
    (v.isText = true ∧ ∃ f, expression op v = .ok f ∧ Compares f) ∨
      expression op v = .single op.native <$> v.normalizeDates := by
  rw [← plainExpression_eq hrange]
  cases op with
  | isIn | notIn =>
    rcases isText_cases v with ⟨s, rfl⟩ | ⟨hin, hnotIn, -⟩
    · exact .inl ⟨rfl, _, rfl, compares_single (by decide) _⟩
    · first | exact .inr hin | exact .inr hnotIn
  | like | notLike | startsWith | endsWith | notStartsWith | notEndsWith =>
    exact absurd (by decide) hsearch
  | _ => exact .inr rfl

theorem expression_eq_error_iff : expression op v = .error e ↔
    (op ∉ Operator.searches ∧ e = .dateRange ∧ ∃ m ∈ v.moments .parts, ¬ m.InCalendar) ∨
    (op ∈ Operator.ranges ∧ ¬ v.IsPair ∧ ∃ w, v.InUtc w ∧ e = .rangeExpected op.token w) := by
  by_cases hsearch : op ∈ Operator.searches
  · obtain ⟨f, hf, -⟩ := expression_of_searches hsearch v
    have hrange : op ∉ Operator.ranges := by
      revert hsearch
      cases op <;> decide
    simp [hf, hsearch, hrange]
  by_cases hrange : op ∈ Operator.ranges
  · obtain ⟨wrap, -, hwrap⟩ := expression_of_ranges hrange v
    rw [hwrap, bind_eq_error, Value.normalizeDates_eq_error_iff]
    simp only [hsearch, hrange, not_false_iff, true_and]
    refine or_congr_right ?_
    constructor
    · rintro ⟨w, hw, h⟩
      have hutc := (Value.normalizeDates_iff_inUtc v w).1 hw
      rcases range_cases op w with ⟨-, low, high, hok⟩ | ⟨hpair, herror⟩
      · rw [hok op] at h
        cases h
      · rw [herror] at h
        cases h
        exact ⟨(Value.isPair_iff_of_inUtc hutc).not.1 hpair, w, hutc, rfl⟩
    · rintro ⟨hpair, w, hutc, rfl⟩
      refine ⟨w, (Value.normalizeDates_iff_inUtc v w).2 hutc, ?_⟩
      rcases range_cases op w with ⟨hpair', -⟩ | ⟨-, herror⟩
      · exact absurd ((Value.isPair_iff_of_inUtc hutc).1 hpair') hpair
      · rw [herror]
        rfl
  · simp only [hsearch, hrange, not_false_iff, true_and, false_and, or_false]
    rcases expression_of_other hsearch hrange v with ⟨htext, f, hf, -⟩ | h
    · have hmoments : v.moments .parts = [] := by
        cases v with
        | text s => rfl
        | _ => cases htext
      simp [hf, hmoments]
    · rw [h, ← Value.normalizeDates_eq_error_iff]
      cases v.normalizeDates <;> simp [Functor.map, Except.map]

theorem compares_of_expression (h : expression op v = .ok f) : Compares f := by
  by_cases hsearch : op ∈ Operator.searches
  · obtain ⟨f', hf, hcompares⟩ := expression_of_searches hsearch v
    cases hf.symm.trans h
    exact hcompares
  by_cases hrange : op ∈ Operator.ranges
  · obtain ⟨wrap, hwrap, heq⟩ := expression_of_ranges hrange v
    rw [heq] at h
    obtain ⟨w, -, h⟩ := bind_eq_ok.1 h
    obtain ⟨bounds, hbounds, rfl⟩ := map_eq_ok.1 h
    rcases range_cases op w with ⟨-, low, high, hok⟩ | ⟨-, herror⟩
    · cases (hok op).symm.trans hbounds
      exact hwrap _ (compares_range low high)
    · cases herror.symm.trans hbounds
  · rcases expression_of_other hsearch hrange v with ⟨-, f', hf, hcompares⟩ | heq
    · cases hf.symm.trans h
      exact hcompares
    · rw [heq] at h
      obtain ⟨w, -, rfl⟩ := map_eq_ok.1 h
      exact compares_single op.head?_native w

/-! ## What a clause is refused for -/

/-- A clause on a column with its operator and operand. Without an operator it asks for equality. -/
inductive Asks : List Value → String → Operator → Value → Prop
  | equal {column : String} {v : Value} : Asks [.text column, v] column .eq v
  | named {column : String} {op : Operator} {v : Value} :
      Asks [.text column, .text op.token, v] column op v

/-- The reasons for which a clause is refused, each with its error. -/
inductive Refused : List Value → Error → Prop
  | operator {column given v : Value} : (∀ op : Operator, given ≠ .text op.token) →
      Refused [column, given, v] (.unknownOperator given)
  | count {args : List Value} : args.length = 0 ∨ 3 < args.length →
      Refused args (.clauseArguments args.length)
  | filter {v : Value} : v.isDict = false → Refused [v] (.filterExpected v.kind)
  | range {args : List Value} {column : String} {op : Operator} {v w : Value} :
      Asks args column op v → op ∈ Operator.ranges → ¬ v.IsPair → v.InUtc w →
      Refused args (.rangeExpected op.token w)
  | filterMoment {d : Document} {m : Calendar.Moment} : m ∈ (Value.dict d).moments .parts →
      ¬ m.InCalendar → Refused [.dict d] .dateRange
  | moment {args : List Value} {column : String} {op : Operator} {v : Value}
      {m : Calendar.Moment} : Asks args column op v → op ∉ Operator.searches →
      m ∈ v.moments .parts → ¬ m.InCalendar → Refused args .dateRange

/-- What a clause that is not refused becomes: a filter with the keys of the one that was given, or
a filter on one column. -/
inductive Accepted : List Value → Value → Prop
  | filter {d d' : Document} : (Value.dict d).InUtc (.dict d') →
      d'.map Prod.fst = d.map Prod.fst → Accepted [.dict d] (.dict d')
  | column {args : List Value} {column : String} {op : Operator} {v e : Value} :
      Asks args column op v → Compares e → Accepted args (.dict [(.text column, e)])

theorem onColumn_text (column : String) (op : Operator) (v : Value) :
    onColumn (.text column) op v = (fun e => .dict [(.text column, e)]) <$> expression op v := by
  unfold onColumn
  rw [Value.asKey_text]
  cases expression op v <;> rfl

theorem ofClause_named (column given v : Value) : ofClause [column, given, v] =
    Operator.ofValue given >>= fun op => onColumn column op v := by
  cases column <;> rfl

theorem Asks.ofClause_eq {column : String} (h : Asks args column op v) :
    ofClause args = (fun e => .dict [(.text column, e)]) <$> expression op v := by
  cases h with
  | equal => exact onColumn_text column .eq v
  | named =>
    rw [ofClause_named, Operator.ofValue_eq_ok_iff.2 rfl]
    exact onColumn_text column op v

/-- The forms that a clause may have. -/
theorem clause_cases (hcolumn : args.tail ≠ [] → ∃ column, args.head? = some (.text column)) :
    (args.length = 0 ∨ 3 < args.length) ∨ (∃ v, args = [v]) ∨
    (∃ column given v, args = [column, given, v] ∧ ∀ op : Operator, given ≠ .text op.token) ∨
    ∃ column op v, Asks args column op v := by
  match args with
  | [] => exact .inl (.inl rfl)
  | [v] => exact .inr (.inl ⟨v, rfl⟩)
  | [c, v] =>
    obtain ⟨column, hhead⟩ := hcolumn (List.cons_ne_nil _ _)
    obtain rfl : c = .text column := Option.some.inj hhead
    exact .inr (.inr (.inr ⟨column, .eq, v, .equal⟩))
  | [c, given, v] =>
    obtain ⟨column, hhead⟩ := hcolumn (List.cons_ne_nil _ _)
    obtain rfl : c = .text column := Option.some.inj hhead
    by_cases hop : ∃ op : Operator, given = .text op.token
    · obtain ⟨op, rfl⟩ := hop
      exact .inr (.inr (.inr ⟨column, op, v, .named⟩))
    · exact .inr (.inr (.inl ⟨_, given, v, rfl, not_exists.1 hop⟩))
  | a :: b :: c :: d :: rest =>
    refine .inl (.inr ?_)
    simp only [List.length_cons]
    omega

theorem ofClause_count (h : args.length = 0 ∨ 3 < args.length) :
    ofClause args = .error (.clauseArguments args.length) := by
  match args with
  | [] => rfl
  | [_] | [_, _] | [_, _, _] => simp at h
  | a :: _ :: _ :: _ :: _ => cases a <;> rfl

theorem ofClause_operator {column given : Value} (h : ∀ op : Operator, given ≠ .text op.token) :
    ofClause [column, given, v] = .error (.unknownOperator given) := by
  rw [ofClause_named, Operator.ofValue_eq_error_iff.2 ⟨rfl, h⟩]
  rfl

theorem ofClause_singleton (h : v.isDict = false) :
    ofClause [v] = .error (.filterExpected v.kind) := by
  cases v with
  | dict d => cases h
  | _ => rfl

theorem ofClause_dict (d : Document) : ofClause [.dict d] = (Value.dict d).normalizeDates :=
  rfl

theorem Refused.ofClause_eq (h : Refused args e) : ofClause args = .error e := by
  cases h with
  | operator hnone => exact ofClause_operator hnone
  | count hlength => exact ofClause_count hlength
  | filter hdict => exact ofClause_singleton hdict
  | range hasks hop hpair hutc =>
    rw [hasks.ofClause_eq, expression_eq_error_iff.2 (.inr ⟨hop, hpair, _, hutc, rfl⟩)]
    rfl
  | filterMoment hm hout =>
    rw [ofClause_dict]
    exact Value.normalizeDates_eq_error_iff.2 ⟨rfl, _, hm, hout⟩
  | moment hasks hop hm hout =>
    rw [hasks.ofClause_eq, expression_eq_error_iff.2 (.inl ⟨hop, rfl, _, hm, hout⟩)]
    rfl

/-- Whatever a clause is, it is refused for one of the reasons or it is accepted. -/
theorem refused_or_accepted
    (hcolumn : args.tail ≠ [] → ∃ column, args.head? = some (.text column)) :
    (∃ e, ofClause args = .error e ∧ Refused args e) ∨
      ∃ f, ofClause args = .ok f ∧ Accepted args f := by
  rcases clause_cases hcolumn with
    hlength | ⟨v, rfl⟩ | ⟨column, given, v, rfl, hnone⟩ | ⟨column, op, v, hasks⟩
  · exact .inl ⟨_, ofClause_count hlength, .count hlength⟩
  · cases hdict : v.isDict with
    | false => exact .inl ⟨_, ofClause_singleton hdict, .filter hdict⟩
    | true =>
      obtain ⟨d, rfl⟩ : ∃ d, v = .dict d := by
        cases v <;> first | exact ⟨_, rfl⟩ | cases hdict
      rw [ofClause_dict]
      cases h : (Value.dict d).normalizeDates with
      | error e =>
        obtain ⟨rfl, m, hm, hout⟩ := Value.normalizeDates_eq_error_iff.1 h
        exact .inl ⟨_, rfl, .filterMoment hm hout⟩
      | ok f =>
        have hutc := (Value.normalizeDates_iff_inUtc _ _).1 h
        obtain ⟨d', hentries, rfl⟩ := Value.inUtc_dict_iff.1 hutc
        exact .inr ⟨_, rfl, .filter hutc hentries.map_fst⟩
  · exact .inl ⟨_, ofClause_operator hnone, .operator hnone⟩
  · rw [hasks.ofClause_eq]
    cases h : expression op v with
    | error e =>
      rcases expression_eq_error_iff.1 h with
        ⟨hop, rfl, m, hm, hout⟩ | ⟨hop, hpair, w, hutc, rfl⟩
      · exact .inl ⟨_, rfl, .moment hasks hop hm hout⟩
      · exact .inl ⟨_, rfl, .range hasks hop hpair hutc⟩
    | ok f => exact .inr ⟨_, rfl, .column hasks (compares_of_expression h)⟩

end Filter

end DocumentMapper
