/-
ReminderExpr.CommandLine.Options — what the arguments of the program ask for.

`Options.parse` reads the arguments after the program's name. It yields the
options, nothing if help is asked for or there is nothing to do, or a message
for arguments it cannot read.
-/
import ReminderExpr.Text.Blank

namespace ReminderExpr.CommandLine

open Text

/-- One thing to do, in the order of the arguments. -/
inductive Action
  /-- The value of an expression assigned to a name. -/
  | set (name expr : String)
  /-- The value of an expression printed. -/
  | eval (expr : String)
  /-- The value of each line of standard input printed. -/
  | stdin
  deriving DecidableEq, Repr

/-- A user function to define. -/
structure Definition where
  name : String
  parameters : List String
  body : String
  deriving DecidableEq, Repr

/-- What the arguments ask for. -/
structure Options where
  actions : List Action := []
  definitions : List Definition := []
  dumpVars : Bool := false
  dumpSysvars : Bool := false
  deriving DecidableEq, Repr

/-- A text cut at the first occurrence of a character, which is dropped. -/
def splitOnce (c : Char) (cs : List Char) : Option (List Char × List Char) :=
  match cs.dropWhile (· != c) with
  | [] => none
  | _ :: rest => some (cs.takeWhile (· != c), rest)

/-- The pieces of a text between the occurrences of a character. -/
def splitAll (c : Char) : List Char → List (List Char)
  | [] => [[]]
  | d :: cs =>
      if d = c then [] :: splitAll c cs
      else match splitAll c cs with
        | [] => [[d]]
        | piece :: pieces => (d :: piece) :: pieces

/-- `NAME=EXPR`. Blanks around the name are dropped. -/
def parseSet (text : String) : Except String Action :=
  match splitOnce '=' text.toList with
  | none => .error ("expected NAME=EXPR, found `" ++ text ++ "'")
  | some (name, expr) => .ok (.set (String.ofList (trim name)) (String.ofList expr))

/-- `NAME(A,B)=BODY`. Blanks around names and the body are dropped, and so
are parameters without a name. -/
def parseDefinition (text : String) : Except String Definition :=
  let read : Option Definition := do
    let (head, rest) ← splitOnce ')' text.toList
    let (name, parameters) ← splitOnce '(' head
    match trimStart rest with
    | '=' :: body =>
        some {
          name := String.ofList (trim name)
          parameters :=
            (((splitAll ',' parameters).map trim).filter fun p => !p.isEmpty).map String.ofList
          body := String.ofList (trim body) }
    | _ => none
  match read with
  | some definition => .ok definition
  | none => .error ("expected NAME(PARAMS)=BODY, found `" ++ text ++ "'")

namespace Options

/-- Whether there is nothing to do. Definitions alone do nothing. -/
def isIdle (o : Options) : Bool := o.actions.isEmpty && !o.dumpVars && !o.dumpSysvars

/-- The options with one more action, after the others. -/
def addAction (o : Options) (a : Action) : Options := { o with actions := o.actions ++ [a] }

/-- The options with one more definition, after the others. -/
def addDefinition (o : Options) (d : Definition) : Options :=
  { o with definitions := o.definitions ++ [d] }

/-- The options after further arguments; `none` if help is asked for. -/
def parseFrom (o : Options) : List String → Except String (Option Options)
  | [] => .ok (some o)
  | "-h" :: _ | "--help" :: _ => .ok none
  | "--set" :: rest =>
      match rest with
      | [] => .error "--set needs an argument"
      | text :: rest =>
          match parseSet text with
          | .error e => .error e
          | .ok a => (o.addAction a).parseFrom rest
  | "--def" :: rest =>
      match rest with
      | [] => .error "--def needs an argument"
      | text :: rest =>
          match parseDefinition text with
          | .error e => .error e
          | .ok d => (o.addDefinition d).parseFrom rest
  | "--dump-vars" :: rest => { o with dumpVars := true }.parseFrom rest
  | "--dump-sysvars" :: rest => { o with dumpSysvars := true }.parseFrom rest
  | "-" :: rest => (o.addAction .stdin).parseFrom rest
  | arg :: rest =>
      match arg.toList with
      | '-' :: '-' :: _ => .error ("unknown option `" ++ arg ++ "'")
      | _ => (o.addAction (.eval arg)).parseFrom rest

/-- The options of a list of arguments; `none` if help is asked for or there
is nothing to do. -/
def parse (args : List String) : Except String (Option Options) := do
  match ← parseFrom {} args with
  | none => .ok none
  | some o => .ok (if o.isIdle then none else some o)

end Options

end ReminderExpr.CommandLine
