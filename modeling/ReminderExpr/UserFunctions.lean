/-
ReminderExpr.UserFunctions — functions that a script defines.

A function is a list of parameters and the text of an expression, in which
the parameters are local names. `UserFunctions` holds at most one function
per name (`Name.key`); defining a name again replaces the function.
-/
import ReminderExpr.Variables
import ReminderExpr.Text.Blank

namespace ReminderExpr

/-- A function that a script defines; names are cut to the characters that
count. -/
structure UserFunction where
  name : String
  parameters : List String
  body : String
  deriving DecidableEq, Repr

namespace UserFunction

/-- The name under which a function is filed. -/
def key (f : UserFunction) : String := Name.key f.name

def arity (f : UserFunction) : Nat := f.parameters.length

/-- The text of the body that is evaluated: without leading blanks, and
without a bracket that opens it. -/
def source (f : UserFunction) : List Char :=
  match Text.trimStart f.body.toList with
  | '[' :: rest => rest
  | cs => cs

/-- The locals of a call: every parameter bound to the argument in its place.
There must be as many arguments as parameters. -/
def bind (f : UserFunction) (arguments : List Value) : Result Locals :=
  if arguments.length < f.arity then .error .tooFewArgs
  else if f.arity < arguments.length then .error .tooManyArgs
  else .ok (.ofList (f.parameters.zip arguments))

/-- The parameters of a definition, cut to the characters that count, if they
are valid names and no two are the same. -/
def checkParameters (accepted : List String) : List String → Result (List String)
  | [] => .ok accepted
  | p :: rest =>
      if !Name.isValid p || accepted.any fun q => Name.same q p then .error .badIdentifier
      else checkParameters (accepted ++ [Name.significant p]) rest

end UserFunction

/-- The functions that a script has defined. -/
structure UserFunctions where
  functions : List UserFunction := []
  deriving DecidableEq, Repr

namespace UserFunctions

/-- The function of a name. -/
def find? (table : UserFunctions) (name : String) : Option UserFunction :=
  table.functions.find? fun f => f.key == Name.key name

/-- The number of parameters of the function of a name. -/
def arity? (table : UserFunctions) (name : String) : Option Nat :=
  (table.find? name).map UserFunction.arity

def size (table : UserFunctions) : Nat := table.functions.length

def isEmpty (table : UserFunctions) : Bool := table.functions.isEmpty

/-- The functions other than that of a name. -/
def without (table : UserFunctions) (name : String) : List UserFunction :=
  table.functions.filter fun f => f.key != Name.key name

/-- The table with a function defined. -/
def define (table : UserFunctions) (name : String) (parameters : List String) (body : String) :
    Result UserFunctions :=
  if !Name.isValid name then .error .badIdentifier
  else do
    let parameters ← UserFunction.checkParameters [] parameters
    .ok { functions := { name := Name.significant name, parameters, body } :: table.without name }

/-- The table with no function of a name. -/
def undefine (table : UserFunctions) (name : String) : UserFunctions :=
  { functions := table.without name }

/-- The function found under a name belongs to the table. -/
theorem mem_of_find?_eq_some {table : UserFunctions} {name : String} {f : UserFunction}
    (h : table.find? name = some f) : f ∈ table.functions :=
  List.mem_of_find?_eq_some h

theorem key_of_find? {table : UserFunctions} {name : String} {f : UserFunction}
    (h : table.find? name = some f) : f.key = Name.key name := by
  unfold find? at h
  have hkey := List.find?_some h
  exact eq_of_beq hkey

/-- Of the functions with one key, only one can be found. -/
theorem eq_of_find? {table : UserFunctions} {name name' : String} {f f' : UserFunction}
    (h : table.find? name = some f) (h' : table.find? name' = some f') (hkey : f.key = f'.key) :
    f = f' := by
  rw [key_of_find? h, key_of_find? h'] at hkey
  unfold find? at h h'
  rw [hkey, h'] at h
  exact (Option.some.inj h).symm

end UserFunctions

end ReminderExpr
