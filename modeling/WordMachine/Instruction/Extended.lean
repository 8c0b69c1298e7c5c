import WordMachine.Instruction

/-!
# The accumulator instruction set

Opcodes are grouped by their high digit: data movement, arithmetic, bitwise operators, comparison
and jumps, stack and subroutines. Results of arithmetic go to the accumulator.
-/

set_option autoImplicit false
set_option maxRecDepth 4000

namespace WordMachine

def extendedInstructions : InstructionSet := [
  ⟨"NOP", "Nop", "NOP", 0x00, [],
    "No operation - skip or halt",
    false, false, .idle⟩,
  ⟨"MOV_REG_REG", "MovRegReg", "MOV", 0x10, [.register, .register],
    "Copy contents of [register2] to [register1]",
    false, false, .two .move⟩,
  ⟨"MOV_REGPTR_REG", "MovRegPtrReg", "MOV", 0x11, [.registerPointer, .register],
    "Move value stored in register [register] to the address stored in [registerPtr]",
    false, false, .two .storeThrough⟩,
  ⟨"MOV_REG_REGPTR", "MovRegRegPtr", "MOV", 0x12, [.register, .registerPointer],
    "Move value stored at address in register [registerPtr] to register [register]",
    true, false, .two .loadThrough⟩,
  ⟨"MOV_CONST_REG", "MovConstReg", "MOV", 0x13, [.register, .constant],
    "Move constant [constant] to [register]",
    true, false, .two .moveConstant⟩,
  ⟨"MOV_ADDR_REG", "MovAddrReg", "MOV", 0x14, [.register, .address],
    "Move value at address [address] to [register]",
    true, false, .two .copyIn⟩,
  ⟨"MOV_REG_ADDR", "MovRegAddr", "MOV", 0x15, [.address, .register],
    "Move value in register [register] to [address]",
    false, false, .two .copyOut⟩,
  ⟨"ADD_REG_REG", "AddRegReg", "ADD", 0x30, [.register, .register],
    "Store register1 + register2 in acc",
    false, false, .two (.arithmetic .add .register)⟩,
  ⟨"ADD_REG_CONST", "AddRegConst", "ADD", 0x31, [.register, .constant],
    "Store register + constant in acc",
    true, false, .two (.arithmetic .add .constant)⟩,
  ⟨"SUB_REG_REG", "SubRegReg", "SUB", 0x32, [.register, .register],
    "Store register1 - register2 in acc",
    false, false, .two (.arithmetic .sub .register)⟩,
  ⟨"SUB_REG_CONST", "SubRegConst", "SUB", 0x33, [.register, .constant],
    "Store register - constant in acc",
    true, false, .two (.arithmetic .sub .constant)⟩,
  ⟨"MUL_REG_REG", "MulRegReg", "MUL", 0x34, [.register, .register],
    "Store register1 * register2 in acc",
    false, false, .two (.arithmetic .mul .register)⟩,
  ⟨"MUL_REG_CONST", "MulRegConst", "MUL", 0x35, [.register, .constant],
    "Store register * constant in acc",
    true, false, .two (.arithmetic .mul .constant)⟩,
  ⟨"DIV_REG_REG", "DivRegReg", "DIV", 0x36, [.register, .register],
    "Store register1 / register2 in acc",
    false, false, .two (.arithmetic .div .register)⟩,
  ⟨"DIV_REG_CONST", "DivRegConst", "DIV", 0x37, [.register, .constant],
    "Store register1 / constant in acc",
    true, false, .two (.arithmetic .div .constant)⟩,
  ⟨"IDIV_REG_REG", "IdivRegReg", "IDIV", 0x38, [.register, .register],
    "Store integer (register1 / register2) in acc",
    false, false, .two (.arithmetic .intDiv .register)⟩,
  ⟨"IDIV_REG_CONST", "IdivRegConst", "IDIV", 0x39, [.register, .constant],
    "Store integer (register1 / constant) in acc",
    true, false, .two (.arithmetic .intDiv .constant)⟩,
  ⟨"POW_REG_REG", "PowRegReg", "POW", 0x3a, [.register, .register],
    "Store pow(register1, register2) in acc",
    false, false, .two (.arithmetic .pow .register)⟩,
  ⟨"POW_REG_CONST", "PowRegConst", "POW", 0x3b, [.register, .constant],
    "Store pow(register, constant) in acc",
    true, false, .two (.arithmetic .pow .constant)⟩,
  ⟨"SQRT_REG", "SqrtReg", "SQRT", 0x3c, [.register],
    "Calculate square root of contents of [register]",
    false, false, .one (.squareRoot .register)⟩,
  ⟨"SQRT_CONST", "SqrtConst", "SQRT", 0x3d, [.constant],
    "Calculate square root of contents of [constant]",
    true, false, .one (.squareRoot .constant)⟩,
  ⟨"INC", "Inc", "INC", 0x3e, [.register],
    "Increment (+1) register [register]",
    false, false, .one .increment⟩,
  ⟨"DEC", "Dec", "DEC", 0x3f, [.register],
    "Decrement (-1) register [register]",
    false, false, .one .decrement⟩,
  ⟨"AND_REG_REG", "AndRegReg", "AND", 0x40, [.register, .register],
    "Bitwise and between two registers and move to acc",
    false, false, .two (.bitwise .and .register)⟩,
  ⟨"AND_REG_CONST", "AndRegConst", "AND", 0x41, [.register, .constant],
    "Bitwise and [register] and [constant] and move to acc",
    true, false, .two (.bitwise .and .constant)⟩,
  ⟨"OR_REG_REG", "OrRegReg", "OR", 0x42, [.register, .register],
    "Bitwise or between two registers and move to acc",
    false, false, .two (.bitwise .or .register)⟩,
  ⟨"OR_REG_CONST", "OrRegConst", "OR", 0x43, [.register, .constant],
    "Bitwise or [register] and [constant] and move to acc",
    true, false, .two (.bitwise .or .constant)⟩,
  ⟨"XOR_REG_REG", "XorRegReg", "XOR", 0x44, [.register, .register],
    "Bitwise xor between two registers and move to acc",
    false, false, .two (.bitwise .xor .register)⟩,
  ⟨"XOR_REG_CONST", "XorRegConst", "XOR", 0x45, [.register, .constant],
    "Bitwise xor [register] and [constant] and move to acc",
    true, false, .two (.bitwise .xor .constant)⟩,
  ⟨"NOT", "Not", "NOT", 0x46, [.register],
    "Bitwise not register [register] and move to acc",
    false, false, .one .complement⟩,
  ⟨"SHL_REG_REG", "ShlRegReg", "SHL", 0x47, [.register, .register],
    "Left shift [register1] by [register2]",
    false, false, .two (.bitwise .shiftLeft .register)⟩,
  ⟨"SHL_REG_CONST", "ShlRegConst", "SHL", 0x48, [.register, .constant],
    "Left shift [register1] by [constant]",
    true, false, .two (.bitwise .shiftLeft .constant)⟩,
  ⟨"SHR_REG_REG", "ShrRegReg", "SHR", 0x49, [.register, .register],
    "Right shift [register1] by [register2]",
    false, false, .two (.bitwise .shiftRight .register)⟩,
  ⟨"SHR_REG_CONST", "ShrRegConst", "SHR", 0x4a, [.register, .constant],
    "Right shift [register1] by [constant]",
    true, false, .two (.bitwise .shiftRight .constant)⟩,
  ⟨"CMP_REG_REG", "CmpRegReg", "CMP", 0x50, [.register, .register],
    "Compare register [register1] to [register2]. Set flag in cmp register.",
    true, false, .two (.compare .register)⟩,
  ⟨"CMP_REG_CONST", "CmpRegConst", "CMP", 0x51, [.register, .constant],
    "Compare register [register1] to [constant]. Set flag in cmp register.",
    true, false, .two (.compare .constant)⟩,
  ⟨"JMP_CONST", "JmpConst", "JMP", 0x52, [.constant],
    "Set instruction pointer to constant [constant]",
    true, false, .one (.jump .always .constant)⟩,
  ⟨"JMP_REG", "JmpReg", "JMP", 0x53, [.register],
    "Set instruction pointer to register [register]",
    true, false, .one (.jump .always .register)⟩,
  ⟨"JEQ_CONST", "JeqConst", "JEQ", 0x54, [.constant],
    "Set instruction pointer to constant [constant] if comparison is 'Equal To'",
    true, false, .one (.jump .equal .constant)⟩,
  ⟨"JEQ_REG", "JeqReg", "JEQ", 0x55, [.register],
    "Set instruction pointer to register [register] if comparison is 'Equal To'",
    true, false, .one (.jump .equal .register)⟩,
  ⟨"JNE_CONST", "JneConst", "JNE", 0x56, [.constant],
    "Set instruction pointer to constant [constant] if comparison is 'Not Equal To'",
    true, false, .one (.jump .notEqual .constant)⟩,
  ⟨"JNE_REG", "JneReg", "JNE", 0x57, [.register],
    "Set instruction pointer to register [register] if comparison is 'Not Equal To'",
    true, false, .one (.jump .notEqual .register)⟩,
  ⟨"JLT_REG", "JltReg", "JLT", 0x58, [.register],
    "Set instruction pointer to register [register] if comparison is 'Less Than'",
    true, false, .one (.jump .less .register)⟩,
  ⟨"JLT_CONST", "JltConst", "JLT", 0x59, [.constant],
    "Set instruction pointer to constant [constant] if comparison is 'Less Than'",
    true, false, .one (.jump .less .constant)⟩,
  ⟨"JGT_REG", "JgtReg", "JGT", 0x5a, [.register],
    "Set instruction pointer to register [register] if comparison is 'Greater Than'",
    true, false, .one (.jump .greater .register)⟩,
  ⟨"JGT_CONST", "JgtConst", "JGT", 0x5b, [.constant],
    "Set instruction pointer to constant [constant] if comparison is 'Greater Than'",
    true, false, .one (.jump .greater .constant)⟩,
  ⟨"PUSH_CONST", "PushConst", "PUSH", 0x60, [.constant],
    "Push [constant] to stack",
    true, false, .one (.push .constant)⟩,
  ⟨"PUSH_REG", "PushReg", "PUSH", 0x61, [.register],
    "Push register [register] to stack",
    true, false, .one (.push .register)⟩,
  ⟨"POP", "Pop", "POP", 0x62, [.register],
    "Pop value from stack and store in [register]",
    true, false, .one .pop⟩,
  ⟨"CALL_CONST", "CallConst", "CALL", 0x63, [.constant],
    "Call subroutine at memory address [constant] (NB number of arguments MUST be pushed before CALL)",
    true, false, .one (.call .constant)⟩,
  ⟨"CALL_REG", "CallReg", "CALL", 0x64, [.register],
    "Call subroutine at register [register] (NB number of arguments MUST be pushed before CALL)",
    true, false, .one (.call .register)⟩,
  ⟨"RET", "Ret", "RET", 0x65, [],
    "Return from subroutine (used after CALL)",
    false, false, .ret⟩,
  ⟨"BRK", "Brk", "BRK", 0x7e, [],
    "Pause execution",
    false, false, .stop "Pause execution"⟩,
  ⟨"HALT", "Halt", "HLT", 0x7f, [],
    "Stop execution",
    false, false, .stop "Halt execution"⟩]

theorem extendedInstructions_consistent : extendedInstructions.Consistent where
  names := by decide +kernel
  opcodes := by decide +kernel
  arguments := by decide +kernel

end WordMachine
