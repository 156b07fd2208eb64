import DocumentMapper.Cast
import DocumentMapper.Model.Finder

/-!
# Casting the columns of a record

A model says how some of its columns are cast. Casting goes through them in the order of the
declaration, leaves out columns that are absent, and those that have not changed unless it is
forced. A list is cast element by element, except where the cast is for a list as a whole.
-/

namespace DocumentMapper.Casting

variable {σ : Type} (ctx : Context σ)

/-- A named cast whose refusal names the column. -/
def named (column type : String) (v : Value) : Except Error Value :=
  (v.cast (CastKind.ofName type)).mapError fun e =>
    if e.refusesValue then .cannotCast column v type e else e

/-- The embedded part of a record, null for no record. -/
def embeddedOrNull (s : Schema) : Option Record → Except Error Value
  | some r => r.embeddedValue s
  | none => .ok .null

/-- One value cast by a rule. Records become their embedded parts under any rule. -/
def castValue (r : Record) (column : String) (rule : CastRule σ) (v : Value) : Action σ Value :=
  match Record.ofValue? v, rule with
  | some other, _ => Action.ofExcept (other.embeddedValue (ctx.model other.model).toSchema)
  | none, .named type => Action.ofExcept (named column type v)
  | none, .model name => do
    if v.isDict then return v
    let related := ctx.model name
    let found ← Finder.find ctx related v
    Action.ofExcept (embeddedOrNull related.toSchema found)
  | none, .custom cast => cast v column r

/-- Whether a cast is for a list as a whole. -/
def takesList : CastRule σ → Bool
  | .named type => type == "array" || type == "location"
  | _ => false

def castItems (r : Record) (column : String) (rule : CastRule σ) :
    List Value → Action σ (List Value)
  | [] => return []
  | v :: rest => do
    let v ← castValue ctx r column rule v
    return v :: (← castItems r column rule rest)

/-- What stands in a column, cast by a rule. -/
def castContent (r : Record) (column : String) (rule : CastRule σ) (v : Value) :
    Action σ Value :=
  match v with
  | .list items =>
    if takesList rule then castValue ctx r column rule v
    else Value.list <$> castItems ctx r column rule items
  | v => castValue ctx r column rule v

/-- Casts one column of a record. -/
def castColumn (force : Bool) (column : String) (rule : CastRule σ) :
    Action (Record × σ) Unit := do
  let (r, _) ← get
  let due ← if force then pure true else Action.ofExcept (r.isColumnChanged column)
  if due then
    if let some v ← Action.ofExcept (r.data.column? column) then
      let v ← Action.second (castContent ctx r column rule v)
      let r' ← Action.ofExcept (r.set column v)
      Action.first (set r')

/-- Casts the columns of a record. -/
def castData (force : Bool) : Action (Record × σ) Unit := do
  let (r, _) ← get
  (ctx.model r.model).casts.forM fun (column, rule) => castColumn ctx force column rule

end DocumentMapper.Casting
