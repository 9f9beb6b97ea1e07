/-!
Arguments of a command sorted into options and operands. A long option starts with two hyphens and may
have its value after an equals sign; short options are single letters after one hyphen, and several of
them can stand together, the last one with its value. A value may also be the next argument, whatever it
looks like. After two hyphens alone there are only operands.
-/

namespace ClassDiagram.CommandLine

inductive Switch where
  | help
  | verbose
  | package (shown : Bool)
  | constructors (shown : Bool)
  | fieldRelationships (shown : Bool)
  | methodRelationships (shown : Bool)
  deriving DecidableEq, Repr

inductive Slot where
  | output
  | title
  | workers
  deriving DecidableEq, Repr

inductive Given where
  | on (switch : Switch)
  | filled (slot : Slot) (text : String)
  deriving DecidableEq, Repr

structure OptionSet where
  switches : List (String × Switch) := []
  slots : List (String × Slot) := []
  shortSwitches : List (Char × Switch) := []
  shortSlots : List (Char × Slot) := []
  interspersed : Bool := true
  deriving DecidableEq, Repr

inductive Reading where
  | operand
  | options (given : List Given)
  | wanting (given : List Given) (slot : Slot)
  | unknown
  deriving DecidableEq, Repr

def readLetters (o : OptionSet) (given : List Given) : List Char → Reading
  | [] => .options given
  | c :: cs =>
      match o.shortSwitches.lookup c, o.shortSlots.lookup c with
      | some s, _ => readLetters o (given ++ [.on s]) cs
      | none, some slot =>
          if cs = [] then .wanting given slot else .options (given ++ [.filled slot (String.ofList cs)])
      | none, none => .unknown

def atEquals (cs : List Char) : String × Option String :=
  let name := String.ofList (cs.takeWhile (· ≠ '='))
  match cs.dropWhile (· ≠ '=') with
  | [] => (name, none)
  | _ :: value => (name, some (String.ofList value))

def readArgument (o : OptionSet) (arg : String) : Reading :=
  match arg.toList with
  | '-' :: c :: cs =>
      let (name, value) := atEquals ('-' :: c :: cs)
      match o.switches.lookup name, o.slots.lookup name, value with
      | some s, _, none => .options [.on s]
      | some _, _, some _ => .unknown
      | none, some slot, some v => .options [.filled slot v]
      | none, some slot, none => .wanting [] slot
      | none, none, _ => if c = '-' then .unknown else readLetters o [] (c :: cs)
  | _ => .operand

structure Sorted where
  given : List Given := []
  operands : List String := []
  deriving DecidableEq, Repr

def sortArguments (o : OptionSet) : List String → Option Sorted
  | [] => some {}
  | arg :: rest =>
      if arg = "--" then some { operands := rest }
      else match readArgument o arg with
        | .operand =>
            if o.interspersed then
              (sortArguments o rest).map fun s => { s with operands := arg :: s.operands }
            else some { operands := arg :: rest }
        | .options given => (sortArguments o rest).map fun s => { s with given := given ++ s.given }
        | .wanting given slot =>
            match rest with
            | [] => none
            | value :: rest =>
                (sortArguments o rest).map fun s =>
                  { s with given := given ++ .filled slot value :: s.given }
        | .unknown => none

def Sorted.filled? (s : Sorted) (slot : Slot) : Option String :=
  s.given.reverse.findSome? fun
    | .filled other text => if other = slot then some text else none
    | .on _ => none

def Sorted.choice? (s : Sorted) (choice : Switch → Option Bool) : Option Bool :=
  s.given.reverse.findSome? fun
    | .on switch => choice switch
    | .filled .. => none

def Sorted.has (s : Sorted) (switch : Switch) : Bool := .on switch ∈ s.given

end ClassDiagram.CommandLine
