import WordMachine.Processor
import WordMachine.Text.Quoted

/-!
# Descriptions

One-line descriptions of components, for a host's log: fields by name, words with a fraction or an
exponent, names in quotes.
-/

set_option autoImplicit false

namespace WordMachine

def bracketed (items : List String) : String := "[" ++ ", ".intercalate items ++ "]"

def describeFields (name : String) (fields : List (String × String)) : String :=
  name ++ " \x7b " ++ ", ".intercalate (fields.map fun (f, v) => f ++ ": " ++ v) ++ " \x7d"

def Kind.title (k : Kind) : String := k.name.capitalize

def Model.title : Model → String
  | base => "Base"
  | extended => "Extended"

def Registers.describe (r : Registers) : String :=
  describeFields "RegisterFile"
    [("numeric", r.kind.title), ("names", bracketed (r.names.map Text.quoted)),
      ("values", bracketed (r.words.map (Word.decimal Decimal.inspect))),
      ("ip_index", toString r.ipIndex), ("observed", toString r.observer.isSome)]

def Memory.describe (m : Memory) : String :=
  "MemoryUnit \x7b numeric: " ++ m.kind.title ++ ", capacity: " ++ toString m.capacity
    ++ ", observed: " ++ toString m.observer.isSome ++ ", .. \x7d"

def Switches.describe (s : Switches) : String :=
  describeFields "ExecutionConfig"
    [("halt_on_no_op", toString s.haltOnIdle), ("emit_detail", toString s.emitDetail),
      ("emit_commentary", toString s.emitCommentary)]

def Processor.describe (p : Processor) : String :=
  describeFields "Processor"
    [("model", p.variant.model.title), ("registers", p.core.registers.describe),
      ("memory", p.core.memory.describe), ("execution", p.switches.describe),
      ("state", p.state.name)]

end WordMachine
