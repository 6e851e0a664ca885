/-!
# Opcodes

Opcodes are numbered so that each category occupies one half-open range of numbers, and the
categories follow each other without a gap. An opcode also fixes how many operands its
instructions have.
-/

namespace SsaGraph

/-- How many operands the instructions of an opcode have. -/
inductive Arity where
  /-- Always this many. -/
  | fixed (count : Nat)
  /-- As many as given when the instruction is built; more can be added later. -/
  | variadic
deriving DecidableEq

/-- The opcodes of instructions, in the order of their numbers. -/
inductive Opcode where
  | ret | br | switch | unreachable
  | add | fadd | sub | fsub | mul | fmul | udiv | sdiv | fdiv | urem | srem | frem
  | shl | lshr | ashr | and | or | xor
  | alloca | load | store | getelementptr
  | trunc | zext | sext | fptoui | fptosi | uitofp | sitofp | fptrunc | fpext
  | ptrtoint | inttoptr | bitcast
  | icmp | fcmp | phi | call | select
deriving DecidableEq

/-- The categories of opcodes, in the order of their ranges. -/
inductive OpcodeCategory where
  /-- Instructions that end a basic block. -/
  | terminator
  /-- Binary operators. -/
  | binary
  /-- Memory operators. -/
  | memory
  /-- Casts. -/
  | cast
  /-- Comparisons, phis, calls and selects. -/
  | other
deriving DecidableEq

namespace Opcode

/-- All opcodes in the order of their numbers. -/
def all : List Opcode :=
  [ret, br, switch, unreachable,
    add, fadd, sub, fsub, mul, fmul, udiv, sdiv, fdiv, urem, srem, frem,
    shl, lshr, ashr, and, or, xor,
    alloca, load, store, getelementptr,
    trunc, zext, sext, fptoui, fptosi, uitofp, sitofp, fptrunc, fpext,
    ptrtoint, inttoptr, bitcast,
    icmp, fcmp, phi, call, select]

/-- The number of an opcode; the first is 1. -/
def num : Opcode → Nat
  | ret => 1 | br => 2 | switch => 3 | unreachable => 4
  | add => 5 | fadd => 6 | sub => 7 | fsub => 8 | mul => 9 | fmul => 10
  | udiv => 11 | sdiv => 12 | fdiv => 13 | urem => 14 | srem => 15 | frem => 16
  | shl => 17 | lshr => 18 | ashr => 19 | and => 20 | or => 21 | xor => 22
  | alloca => 23 | load => 24 | store => 25 | getelementptr => 26
  | trunc => 27 | zext => 28 | sext => 29 | fptoui => 30 | fptosi => 31
  | uitofp => 32 | sitofp => 33 | fptrunc => 34 | fpext => 35
  | ptrtoint => 36 | inttoptr => 37 | bitcast => 38
  | icmp => 39 | fcmp => 40 | phi => 41 | call => 42 | select => 43

/-- The opcode of a given number. -/
def ofNum? (n : Nat) : Option Opcode := all.find? (·.num == n)

/-- The mnemonic of an opcode. -/
def mnemonic : Opcode → String
  | ret => "ret" | br => "br" | switch => "switch" | unreachable => "unreachable"
  | add => "add" | fadd => "fadd" | sub => "sub" | fsub => "fsub" | mul => "mul" | fmul => "fmul"
  | udiv => "udiv" | sdiv => "sdiv" | fdiv => "fdiv"
  | urem => "urem" | srem => "srem" | frem => "frem"
  | shl => "shl" | lshr => "lshr" | ashr => "ashr" | and => "and" | or => "or" | xor => "xor"
  | alloca => "alloca" | load => "load" | store => "store" | getelementptr => "getelementptr"
  | trunc => "trunc" | zext => "zext" | sext => "sext"
  | fptoui => "fptoui" | fptosi => "fptosi" | uitofp => "uitofp" | sitofp => "sitofp"
  | fptrunc => "fptrunc" | fpext => "fpext"
  | ptrtoint => "ptrtoint" | inttoptr => "inttoptr" | bitcast => "bitcast"
  | icmp => "icmp" | fcmp => "fcmp" | phi => "phi" | call => "call" | select => "select"

/-- The opcode of a given mnemonic. -/
def ofMnemonic? (s : String) : Option Opcode := all.find? (·.mnemonic == s)

/-- How many operands the instructions of an opcode have. -/
def arity : Opcode → Arity
  | ret | br | switch | getelementptr | phi | call => .variadic
  | unreachable => .fixed 0
  | alloca | load => .fixed 1
  | trunc | zext | sext | fptoui | fptosi | uitofp | sitofp | fptrunc | fpext
  | ptrtoint | inttoptr | bitcast => .fixed 1
  | select => .fixed 3
  | _ => .fixed 2

end Opcode

namespace OpcodeCategory

/-- All categories in the order of their ranges. -/
def all : List OpcodeCategory := [terminator, binary, memory, cast, other]

/-- The first opcode number of the category and the first one after it. -/
def range : OpcodeCategory → Nat × Nat
  | terminator => (Opcode.ret.num, Opcode.unreachable.num + 1)
  | binary => (Opcode.add.num, Opcode.xor.num + 1)
  | memory => (Opcode.alloca.num, Opcode.getelementptr.num + 1)
  | cast => (Opcode.trunc.num, Opcode.bitcast.num + 1)
  | other => (Opcode.icmp.num, Opcode.select.num + 1)

/-- An opcode belongs to a category when its number lies in the category's range. -/
def contains (c : OpcodeCategory) (op : Opcode) : Bool :=
  c.range.1 ≤ op.num && op.num < c.range.2

/-- The name of a category. -/
def name : OpcodeCategory → String
  | terminator => "Terminator"
  | binary => "Binary"
  | memory => "Memory"
  | cast => "Cast"
  | other => "Other"

end OpcodeCategory

namespace Opcode

/-- The opcode ends a basic block. -/
def isTerminator (op : Opcode) : Bool := OpcodeCategory.terminator.contains op

/-- The opcode is a binary operator. -/
def isBinary (op : Opcode) : Bool := OpcodeCategory.binary.contains op

/-- The opcode is a memory operator. -/
def isMemory (op : Opcode) : Bool := OpcodeCategory.memory.contains op

/-- The opcode is a cast. -/
def isCast (op : Opcode) : Bool := OpcodeCategory.cast.contains op

/-- The opcode is in none of the other categories. -/
def isOther (op : Opcode) : Bool := OpcodeCategory.other.contains op

/-- The category of an opcode. -/
def category (op : Opcode) : OpcodeCategory :=
  if op.isTerminator then .terminator
  else if op.isBinary then .binary
  else if op.isMemory then .memory
  else if op.isCast then .cast
  else .other

/-- The binary operator works on floating point operands. -/
def isFloatBinary : Opcode → Bool
  | fadd | fsub | fmul | fdiv | frem => true
  | _ => false

/-- Swapping the operands of the binary operator keeps its result. -/
def isCommutative : Opcode → Bool
  | add | fadd | mul | fmul | and | or | xor => true
  | _ => false

end Opcode

/-- The opcodes that are binary operators. -/
abbrev BinaryOpcode := { op : Opcode // op.isBinary = true }

/-- The opcodes that are casts. -/
abbrev CastOpcode := { op : Opcode // op.isCast = true }

end SsaGraph
