/-
ReminderExpr.Variables — the variables of a script, and the locals of a call.

`Variables` holds at most one entry per name (`Name.key`), in the order of
their spellings, case apart. An entry keeps the spelling under which it was
first set, cut to the characters that count, and a flag that protects it when
the table is cleared.

`Locals` binds the parameters of a function; the binding made first wins.
-/
import ReminderExpr.Value

namespace ReminderExpr

/-- An entry of the table of variables. -/
structure Variable where
  /-- The spelling first set, cut to the characters that count. -/
  name : String
  value : Value
  /-- Whether the entry survives a clearing of the unprotected ones. -/
  preserved : Bool := false
  deriving DecidableEq, Repr

/-- The variables of a script, by increasing name. -/
structure Variables where
  entries : List Variable := []
  deriving DecidableEq, Repr

namespace Variables

/-- Whether an entry is that of a name. -/
def isNamed (name : String) (v : Variable) : Bool := Name.key v.name == Name.key name

/-- The entry of a name. -/
def find? (vars : Variables) (name : String) : Option Variable :=
  vars.entries.find? (isNamed name)

/-- The value of a name. -/
def get? (vars : Variables) (name : String) : Option Value :=
  (vars.find? name).map (·.value)

def contains (vars : Variables) (name : String) : Bool := (vars.find? name).isSome

def size (vars : Variables) : Nat := vars.entries.length

def isEmpty (vars : Variables) : Bool := vars.entries.isEmpty

/-- The entries with one more, before the first that has a greater name. -/
def insertEntry (entry : Variable) : List Variable → List Variable
  | [] => [entry]
  | v :: rest =>
      if Name.compareIgnoreCase v.name entry.name == .lt then v :: insertEntry entry rest
      else entry :: v :: rest

/-- The entry of a name changed by `change`. -/
def modify (vars : Variables) (name : String) (change : Variable → Variable) : Variables :=
  { entries := vars.entries.map fun v => if isNamed name v then change v else v }

/-- A variable set to a value. An entry that is there keeps its spelling and
its protection. -/
def set (vars : Variables) (name : String) (value : Value) : Result Variables :=
  if !Name.isValid name then .error .badIdentifier
  else if vars.contains name then
    .ok (vars.modify name fun v => { v with value })
  else
    .ok { entries := insertEntry { name := Name.significant name, value } vars.entries }

/-- A variable taken out, with the value it had. -/
def delete (vars : Variables) (name : String) : Result (Value × Variables) :=
  match vars.get? name with
  | none => .error (.noSuchVariable name)
  | some value =>
      .ok (value, { entries := vars.entries.filter fun v => !isNamed name v })

/-- A variable protected from clearing; it is set to 0 if it was not there. -/
def preserve (vars : Variables) (name : String) : Result Variables := do
  let vars ← if vars.contains name then .ok vars else vars.set name (.int 0)
  .ok (vars.modify name fun v => { v with preserved := true })

/-- Every variable dropped, or only those that are not protected. -/
def clear (vars : Variables) (all : Bool) : Variables :=
  { entries := if all then [] else vars.entries.filter (·.preserved) }

end Variables

/-! ## Locals -/

/-- The parameters of a call and their values, in order. -/
structure Locals where
  bindings : List (String × Value) := []
  deriving DecidableEq, Repr

namespace Locals

/-- The bindings with one more after them. -/
def bind (locals : Locals) (name : String) (value : Value) : Locals :=
  { bindings := locals.bindings ++ [(Name.significant name, value)] }

/-- Names and values bound in order. -/
def ofList (pairs : List (String × Value)) : Locals :=
  { bindings := pairs.map fun (name, value) => (Name.significant name, value) }

/-- The value of a name: that of the first binding whose name is the same. -/
def get? (locals : Locals) (name : String) : Option Value :=
  (locals.bindings.find? fun (bound, _) => Name.same bound name).map (·.2)

def size (locals : Locals) : Nat := locals.bindings.length

def isEmpty (locals : Locals) : Bool := locals.bindings.isEmpty

/-- Binding a list of pairs binds them one by one. -/
theorem ofList_append_singleton (pairs : List (String × Value)) (name : String) (value : Value) :
    ofList (pairs ++ [(name, value)]) = (ofList pairs).bind name value := by
  simp [ofList, bind]

end Locals

end ReminderExpr
