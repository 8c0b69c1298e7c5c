import WordMachine.Flag
import WordMachine.Operator

/-!
# Operations

What an opcode does, apart from its number and name. Operations are told apart by the operand words
they take from the instruction stream.
-/

set_option autoImplicit false

namespace WordMachine

inductive Argument where
  | register
  | registerPointer
  | address
  | constant
  | symbol
  deriving DecidableEq, Repr

def Argument.all : List Argument := [.register, .registerPointer, .address, .constant, .symbol]

def Argument.label : Argument → String
  | register => "register"
  | registerPointer => "registerPtr"
  | address => "address"
  | constant => "constant"
  | symbol => "symbol"

inductive Operand where
  | register
  | constant
  deriving DecidableEq, Repr

def Operand.argument : Operand → Argument
  | register => .register
  | constant => .constant

inductive OneOperand where
  | squareRoot (operand : Operand)
  | increment
  | decrement
  | complement
  | jump (condition : Condition) (operand : Operand)
  | push (operand : Operand)
  | pop
  | call (operand : Operand)
  deriving DecidableEq, Repr

def OneOperand.argument : OneOperand → Argument
  | squareRoot operand | jump _ operand | push operand | call operand => operand.argument
  | increment | decrement | complement | pop => .register

/-- `load` and `copyIn` both read memory at an address into a register; they are worded
differently. -/
inductive TwoOperand where
  | move
  | storeThrough
  | loadThrough
  | moveConstant
  | load
  | copyIn
  | copyOut
  | arithmetic (op : Arithmetic) (operand : Operand)
  | bitwise (op : Bitwise) (operand : Operand)
  | compare (operand : Operand)
  deriving DecidableEq, Repr

def TwoOperand.arguments : TwoOperand → Argument × Argument
  | move => (.register, .register)
  | storeThrough => (.registerPointer, .register)
  | loadThrough => (.register, .registerPointer)
  | moveConstant => (.register, .constant)
  | load | copyIn => (.register, .address)
  | copyOut => (.address, .register)
  | arithmetic _ operand | bitwise _ operand | compare operand => (.register, operand.argument)

/-- `idle` stops or goes on as the machine is configured; `stop` always stops, with a remark. -/
inductive Operation where
  | idle
  | stop (remark : String)
  | ret
  | one (op : OneOperand)
  | two (op : TwoOperand)
  deriving DecidableEq, Repr

def Operation.arguments : Operation → List Argument
  | idle | stop _ | ret => []
  | one op => [op.argument]
  | two op => [op.arguments.1, op.arguments.2]

end WordMachine
