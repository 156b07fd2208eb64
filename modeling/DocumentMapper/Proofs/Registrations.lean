import DocumentMapper.Call.Script
import DocumentMapper.Proofs.Document.Fields
import DocumentMapper.Proofs.Model.Sample
import DocumentMapper.Proofs.Procedure
import Mathlib.Data.List.DropRight

/-!
# What a registry comes to

Listeners are registered under names, and taken off of one name or of the nine. What is then
registered under a name is what was registered since the name was last cleared. A name that is not
one of the nine cannot be registered under at first, and can be from the first time it was cleared
by name, so that a registry stays closed exactly as long as no other name is cleared.
-/

namespace DocumentMapper.Registry

variable {σ α : Type} {name : String} {event : Value}

/-! ## Names -/

theorem of?_cons (collection : Value) (e : Value × List α) (rest : List (Value × List α)) :
    of? ⟨collection, e :: rest⟩ event =
      if e.1.same event then some e.2 else of? ⟨collection, rest⟩ event := by
  simp only [of?, List.find?_cons]
  cases e.1.same event <;> rfl

theorem of?_put (collection event : Value) (ls : List α) (entries : List (Value × List α)) :
    of? ⟨collection, put event ls entries⟩ (.text name) =
      if event.same (.text name) then some ls else of? ⟨collection, entries⟩ (.text name) := by
  induction entries with
  | nil => rw [put, of?_cons]
  | cons e rest ih =>
    obtain ⟨key, old⟩ := e
    unfold put
    by_cases hkey : key.same event = true
    · rw [if_pos hkey, of?_cons, of?_cons]
      by_cases hevent : event.same (.text name) = true
      · have hname : key.same (.text name) = true := Value.same_text.1 hevent ▸ hkey
        rw [if_pos hname, if_pos hevent]
      · -- The key equals the event, so it is another name as well.
        have hname : ¬ key.same (.text name) = true := by
          intro hname
          rw [Value.same_text.1 hname] at hkey
          exact hevent (Value.same_text.2 (Value.text_same.1 hkey))
        rw [if_neg hname, if_neg hevent, if_neg hname]
    · rw [if_neg hkey, of?_cons, of?_cons, ih]
      by_cases hname : key.same (.text name) = true
      · have hevent : ¬ event.same (.text name) = true := fun hevent =>
          hkey (Value.same_text.1 hevent ▸ hname)
        rw [if_pos hname, if_neg hevent, if_pos hname]
      · rw [if_neg hname, if_neg hname]

theorem clear_cons (r : Registry α) (event : Value) (rest : List Value) :
    r.clear (event :: rest) = clear ⟨r.collection, put event [] r.listeners⟩ rest := rfl

theorem of?_clear (r : Registry α) (events : List Value) (name : String) :
    (r.clear events).of? (.text name) =
      if events.any (·.same (.text name)) then some [] else r.of? (.text name) := by
  induction events generalizing r with
  | nil => rfl
  | cons event rest ih =>
    rw [clear_cons, ih, of?_put, List.any_cons]
    cases event.same (.text name) <;> cases rest.any (·.same (.text name)) <;> rfl

theorem any_names (name : String) :
    (Event.names.map Value.text).any (·.same (.text name)) = decide (name ∈ Event.names) := by
  rw [Bool.eq_iff_iff, List.any_eq_true, decide_eq_true_iff]
  constructor
  · rintro ⟨event, hevent, hsame⟩
    obtain ⟨other, hother, rfl⟩ := List.mem_map.1 hevent
    exact Value.text.inj (Value.same_text.1 hsame) ▸ hother
  · intro h
    exact ⟨_, List.mem_map_of_mem h, Value.same_text.2 rfl⟩

theorem of?_fresh (collection : Value) (name : String) :
    (fresh collection : Registry α).of? (.text name) =
      if name ∈ Event.names then some [] else none := by
  unfold fresh
  induction Event.names with
  | nil => rfl
  | cons other rest ih =>
    rw [List.map_cons, of?_cons, ih]
    by_cases h : other = name
    · subst h
      rw [if_pos (Value.same_text.2 rfl), if_pos List.mem_cons_self]
    · have hname : ¬ (Value.text other).same (.text name) = true := fun hsame =>
        h (Value.text.inj (Value.same_text.1 hsame))
      simp only [if_neg hname, List.mem_cons, Ne.symm h, false_or]

theorem on_text (r : Registry α) (name : String) (l : α) :
    r.on (.text name) l = match r.of? (.text name) with
      | some ls => .ok { r with listeners := put (.text name) (ls ++ [l]) r.listeners }
      | none => .error (.unknownEvent (.text name)) := rfl

theorem asKey_cases (v : Value) :
    v.asKey = .ok v ∨ (∃ e, v.asKey = .error e) ∧ ∀ name, v.same (.text name) = false := by
  cases h : v.unhashable? with
  | none =>
    rw [Value.asKey, h]
    exact .inl rfl
  | some kind =>
    rw [Value.asKey, h]
    refine .inr ⟨⟨_, rfl⟩, fun name => Value.same_text_eq_false ?_⟩
    rintro rfl
    cases h

/-- What registering a listener can do. An event that is a text is refused only as an unknown
one. -/
theorem on_cases (r : Registry α) (event : Value) (l : α) :
    (∃ ls, r.of? event = some ls ∧
      r.on event l = .ok ⟨r.collection, put event (ls ++ [l]) r.listeners⟩) ∨
    (∃ e, r.on event l = .error e) ∧
      ∀ name, event.same (.text name) = true → r.of? event = none := by
  obtain hkey | ⟨⟨e, hkey⟩, hother⟩ := asKey_cases event
  · cases hfound : r.of? event with
    | none =>
      have hon : r.on event l = .error (.unknownEvent event) := by
        simp only [on, hkey, hfound, bind, Except.bind]
      exact .inr ⟨⟨_, hon⟩, fun _ _ => rfl⟩
    | some ls => exact .inl ⟨ls, rfl, by simp only [on, hkey, hfound, bind, Except.bind]⟩
  · refine .inr ⟨⟨e, by simp only [on, hkey, bind, Except.bind]⟩, fun name hname => ?_⟩
    cases (hother name).symm.trans hname

/-- What taking listeners off can do. It fails only for what is no name. -/
theorem off_cases (r : Registry α) (event : Value) :
    event.isTruthy = true ∧ r.off event = .ok (r.clear [event]) ∨
    event.isTruthy = true ∧ (∃ e, r.off event = .error e) ∧
      (∀ name, event.same (.text name) = false) ∨
    event.isTruthy = false ∧ r.off event = .ok (r.clear (Event.names.map .text)) := by
  unfold off
  cases event.isTruthy with
  | false => exact .inr (.inr ⟨rfl, rfl⟩)
  | true =>
    obtain hkey | ⟨⟨e, hkey⟩, hother⟩ := asKey_cases event
    · exact .inl ⟨rfl, by rw [hkey]; rfl⟩
    · exact .inr (.inl ⟨rfl, ⟨e, by rw [hkey]; rfl⟩, hother⟩)

/-! ## Changes -/

/-- A call that changes what is registered. -/
inductive Change (α : Type) where
  | on (event : Value) (listener : α)
  | onEvent (event : Event) (listener : α)
  | off (event : Value)

namespace Change

def apply (r : Registry α) : Change α → Except Error (Registry α)
  | on event l => r.on event l
  | onEvent event l => r.on (.text event.name) l
  | off event => r.off event

/-- Whether a change takes off the listeners of a name. What counts as absent stands for the
nine. -/
def covers (name : String) : Change α → Bool
  | off event => if event.isTruthy then event.same (.text name) else name ∈ Event.names
  | _ => false

/-- The listener that a change registers under a name. -/
def listener? (name : String) : Change α → Option α
  | on event l => if event.same (.text name) then some l else none
  | onEvent event l => if (Value.text event.name).same (.text name) then some l else none
  | off _ => none

theorem covers_off (event : Value) (name : String) : (off event : Change α).covers name =
    if event.isTruthy then event.same (.text name) else decide (name ∈ Event.names) := rfl

end Change

/-- The registry after a change. A change that fails leaves it as it was. -/
def take (r : Registry α) (change : Change α) : Registry α :=
  match change.apply r with
  | .ok r' => r'
  | .error _ => r

/-- The registry after some changes in turn. -/
def after (r : Registry α) (changes : List (Change α)) : Registry α :=
  changes.foldl take r

theorem take_of_ok {r r' : Registry α} {c : Change α} (h : c.apply r = .ok r') :
    r.take c = r' := by
  rw [take, h]

theorem take_of_error {r : Registry α} {c : Change α} {e : Error} (h : c.apply r = .error e) :
    r.take c = r := by
  rw [take, h]

theorem map_append_nil (found : Option (List α)) :
    (found.map fun ls => ls ++ (none : Option α).toList) = found := by
  cases found <;> simp

theorem of?_take_on (r : Registry α) (event : Value) (l : α) (name : String) :
    (r.take (.on event l)).of? (.text name) = (r.of? (.text name)).map fun ls =>
      ls ++ (if event.same (.text name) then some l else none).toList := by
  by_cases hname : event.same (.text name) = true
  · obtain rfl := Value.same_text.1 hname
    rw [if_pos hname]
    obtain ⟨ls, hfound, hon⟩ | ⟨⟨e, hon⟩, hnone⟩ := on_cases r (.text name) l
    · rw [take_of_ok (c := .on (.text name) l) hon, of?_put, if_pos hname, hfound]
      rfl
    · rw [take_of_error (c := .on (.text name) l) hon, hnone name hname]
      rfl
  · rw [if_neg hname, map_append_nil]
    obtain ⟨ls, -, hon⟩ | ⟨⟨e, hon⟩, -⟩ := on_cases r event l
    · rw [take_of_ok (c := .on event l) hon, of?_put, if_neg hname]
    · rw [take_of_error (c := .on event l) hon]

theorem of?_take_off (r : Registry α) (event : Value) (name : String) :
    (r.take (.off event)).of? (.text name) =
      if (Change.off event : Change α).covers name then some [] else r.of? (.text name) := by
  rw [Change.covers_off]
  obtain ⟨htruthy, hoff⟩ | ⟨htruthy, ⟨e, hoff⟩, hother⟩ | ⟨htruthy, hoff⟩ := off_cases r event
  · rw [htruthy, if_pos rfl, take_of_ok (c := .off event) hoff, of?_clear, List.any_cons,
      List.any_nil, Bool.or_false]
  · rw [htruthy, if_pos rfl, take_of_error (c := .off event) hoff, hother,
      if_neg Bool.false_ne_true]
  · rw [htruthy, if_neg Bool.false_ne_true, take_of_ok (c := .off event) hoff, of?_clear,
      any_names]

/-- What one change does to what is registered under a name. -/
theorem of?_take (r : Registry α) (change : Change α) (name : String) :
    (r.take change).of? (.text name) = if change.covers name then some []
      else (r.of? (.text name)).map fun ls => ls ++ (change.listener? name).toList := by
  cases change with
  | on event l => exact of?_take_on r event l name
  | onEvent event l => exact of?_take_on r (.text event.name) l name
  | off event =>
    rw [of?_take_off]
    unfold Change.listener?
    rw [map_append_nil]

/-! ## Histories -/

/-- Whether listeners can be registered under a name after some changes. -/
def Known (changes : List (Change α)) (name : String) : Prop :=
  name ∈ Event.names ∨ name ≠ "" ∧ .off (.text name) ∈ changes

/-- The listeners registered under a name since it was last cleared, in order. -/
def standing (changes : List (Change α)) (name : String) : List α :=
  (changes.rtakeWhile fun change => !change.covers name).filterMap (·.listener? name)

theorem covers_iff_of_notMem {change : Change α} (h : name ∉ Event.names) :
    change.covers name = true ↔ name ≠ "" ∧ change = .off (.text name) := by
  cases change with
  | off event =>
    rw [Change.covers_off]
    by_cases htruthy : event.isTruthy = true
    · rw [if_pos htruthy, Value.same_text]
      constructor
      · rintro rfl
        refine ⟨?_, rfl⟩
        rintro rfl
        cases htruthy
      · rintro ⟨-, hoff⟩
        exact Change.off.inj hoff
    · rw [if_neg htruthy, decide_eq_true_iff]
      refine iff_of_false h ?_
      rintro ⟨hname, hoff⟩
      rw [Change.off.inj hoff] at htruthy
      simp [Value.isTruthy, hname] at htruthy
  | _ => exact iff_of_false Bool.false_ne_true fun hoff => nomatch hoff.2

theorem known_concat {changes : List (Change α)} {change : Change α} :
    Known (changes ++ [change]) name ↔ Known changes name ∨ change.covers name = true := by
  unfold Known
  by_cases h : name ∈ Event.names
  · exact iff_of_true (.inl h) (.inl (.inl h))
  · rw [covers_iff_of_notMem h, List.mem_append, List.mem_singleton, and_or_left, or_assoc,
      eq_comm (a := change)]

theorem standing_concat (changes : List (Change α)) (change : Change α) (name : String) :
    standing (changes ++ [change]) name = if change.covers name then []
      else standing changes name ++ (change.listener? name).toList := by
  unfold standing
  rw [List.rtakeWhile_concat]
  cases change.covers name with
  | true => rfl
  | false =>
    simp only [Bool.not_false, if_true, if_neg Bool.false_ne_true, List.filterMap_append,
      List.filterMap_cons, List.filterMap_nil]
    cases change.listener? name <;> rfl

/-- What is registered under a name after a history of a fresh registry, told by the history
alone. -/
theorem of?_after_fresh (collection : Value) (changes : List (Change α)) (name : String) :
    (Known changes name →
      ((fresh collection).after changes).of? (.text name) = some (standing changes name)) ∧
    (¬ Known changes name → ((fresh collection).after changes).of? (.text name) = none) := by
  induction changes using List.reverseRecOn with
  | nil =>
    have hknown : Known ([] : List (Change α)) name ↔ name ∈ Event.names :=
      or_iff_left fun hoff => nomatch hoff.2
    rw [hknown, after, List.foldl_nil, of?_fresh]
    exact ⟨fun h => if_pos h, fun h => if_neg h⟩
  | append_singleton changes change ih =>
    have hafter : (fresh collection).after (changes ++ [change]) =
        ((fresh collection).after changes).take change := by
      rw [after, List.foldl_append]
      rfl
    rw [hafter, of?_take, known_concat, standing_concat]
    -- A change that covers the name makes it known, any other one leaves that as it was.
    by_cases hcovers : change.covers name = true
    · rw [if_pos hcovers, if_pos hcovers]
      exact ⟨fun _ => rfl, fun h => absurd (.inr hcovers) h⟩
    · rw [if_neg hcovers, if_neg hcovers, or_iff_left hcovers]
      refine ⟨fun h => ?_, fun h => ?_⟩
      · rw [ih.1 h]
        rfl
      · rw [ih.2 h]
        rfl

/-! ## Calls -/

namespace Change

/-- The call that makes a change. -/
def arguments : Change α → Arguments (Argument σ α)
  | on event l => ⟨"on", [.object (.value event), .listener l], []⟩
  | onEvent event l => ⟨"on_" ++ event.name, [.listener l], []⟩
  | off event => ⟨"off", [.object (.value event)], []⟩

/-- What the call of a change gives back. -/
def reply : Change α → Reply σ
  | off _ => .nothing
  | _ => .itself

end Change

variable {w : Workspace σ α} {id : RegistryId} {held : σ → Registry α} {s s' : σ}

/-- A workspace keeps a registry in its state. -/
structure Kept (w : Workspace σ α) (id : RegistryId) (held : σ → Registry α) : Prop where
  get (s : σ) : (w.registry id).run s = (.ok (held s), s)
  set (s : σ) (r : Registry α) : ∃ s', (w.setRegistry id r).run s = (.ok (), s') ∧ held s' = r

/-- Makes a change of a registry, unless it fails. -/
def Change.act (w : Workspace σ α) (id : RegistryId) (change : Change α) :
    Action (RegistryId × σ) (Reply σ) := do
  let r ← Action.second (w.registry id)
  Action.second (w.setRegistry id (← Action.ofExcept (change.apply r)))
  return change.reply

theorem call_change (w : Workspace σ α) (id : RegistryId) (change : Change α) :
    (Object.registry id).call w change.arguments = do
      let (outcome, own) ← Action.alongside id (change.act w id)
      return (outcome, .registry own) := by
  cases change with
  | on event l => rfl
  | onEvent event l => cases event <;> rfl
  | off event => rfl

theorem run_act_ok {change : Change α} {r : Registry α} (hk : Kept w id held)
    (h : change.apply (held s) = .ok r) :
    ∃ s', (change.act w id).run (id, s) = (.ok change.reply, (id, s')) ∧ held s' = r := by
  obtain ⟨s', hset, hheld⟩ := hk.set s r
  refine ⟨s', ?_, hheld⟩
  unfold Change.act
  rw [Action.run_bind_ok (Action.run_second (hk.get s) id), h,
    Action.run_bind_ok (Action.run_ofExcept _ _), Action.run_bind_ok (Action.run_second hset id)]
  rfl

theorem run_act_error {change : Change α} {e : Error} (hk : Kept w id held)
    (h : change.apply (held s) = .error e) :
    (change.act w id).run (id, s) = (.error e, (id, s)) := by
  unfold Change.act
  rw [Action.run_bind_ok (Action.run_second (hk.get s) id), h,
    Action.run_bind_error (Action.run_ofExcept _ _)]

theorem run_alongside {τ β : Type} {own own' : τ} {act : Action (τ × σ) β}
    {outcome : Except Error β}
    (h : act.run (own, s) = (outcome, own', s')) :
    (Action.alongside own act).run s = (.ok (outcome, own'), s') := by
  simp only [Action.alongside, h]

/-- The call of a change has the outcome of the change and leaves the registry after it. -/
theorem run_call_change (hk : Kept w id held) (change : Change α) (s : σ) :
    ∃ s', held s' = (held s).take change ∧
      ((Object.registry id).call w change.arguments).run s =
        (.ok ((change.apply (held s)).map fun _ => change.reply, .registry id), s') := by
  rw [call_change]
  cases happly : change.apply (held s) with
  | ok r =>
    obtain ⟨s', hrun, hheld⟩ := run_act_ok hk happly
    refine ⟨s', hheld.trans (take_of_ok happly).symm, ?_⟩
    rw [Action.run_bind_ok (run_alongside hrun)]
    rfl
  | error e =>
    refine ⟨s, (take_of_error happly).symm, ?_⟩
    rw [Action.run_bind_ok (run_alongside (run_act_error hk happly))]
    rfl

/-- Makes the calls of some changes in turn, whatever comes of each. -/
def callAll (w : Workspace σ α) (id : RegistryId) : List (Change α) → Action σ Unit
  | [] => return
  | change :: rest => do
    let _ ← (Object.registry id).call w change.arguments
    callAll w id rest

/-- A history of calls leaves the registry after the history of changes. -/
theorem run_callAll (hk : Kept w id held) (changes : List (Change α)) (s : σ) :
    ∃ s', (callAll w id changes).run s = (.ok (), s') ∧ held s' = (held s).after changes := by
  induction changes generalizing s with
  | nil => exact ⟨s, rfl, rfl⟩
  | cons change rest ih =>
    obtain ⟨s₁, hfirst, hrun⟩ := run_call_change hk change s
    obtain ⟨s', hrest, hheld⟩ := ih s₁
    refine ⟨s', ?_, ?_⟩
    · rw [callAll, Action.run_bind_ok hrun, hrest]
    · rw [hheld, hfirst]
      rfl

theorem tellAll_eq (w : Workspace σ α) (args : List Value) (ls : List α) :
    tellAll w args ls = ls.forM fun l => (w.listener l).onValues args := by
  induction ls with
  | nil => rfl
  | cons l rest ih =>
    rw [tellAll, ih]
    rfl

theorem run_trigger (hk : Kept w id held) (name : String) (args : List Value) (s : σ) :
    (trigger w id (.text name) args).run s =
      (((held s).of (.text name)).forM fun l => (w.listener l).onValues args).run s := by
  rw [← tellAll_eq, trigger, Action.run_bind_ok (hk.get s), Value.asKey_text,
    Action.run_bind_ok (Action.run_ofExcept _ _)]

/-- A workspace with one registry, whose listeners note that they are told. -/
def noting : Workspace (Registry Nat × List Nat) Nat where
  context := .sample [] fun _ => return 1
  cascade := Lifecycle.cascade (.sample [] fun _ => return 1) 1
  registry _ := return (← get).1
  setRegistry _ r := modify fun s => (r, s.2)
  listener n := {
    onRecord := fun _ => return
    onSearch := fun _ => return
    onQuery := return
    onValues := fun _ => modify fun s => (s.1, s.2 ++ [n]) }

end DocumentMapper.Registry
