/-!
# Blocks: names and roles

A block is known by its name, a 64-bit word, one of which is reserved and names no block.  Its role
is what it does, without its links.
-/

namespace Blockwise

structure BlockId where
  word : UInt64
  deriving DecidableEq, Repr, Inhabited

namespace BlockId

def reserved : BlockId := ⟨0xFFFFFFFFFFFFFFFF⟩

def text (id : BlockId) : String :=
  "#" ++ toString id.word.toNat

end BlockId

inductive Role where
  | start
  | finish
  | input
  | output
  | decision
  | declaration
  | assignment
  deriving DecidableEq, Repr

namespace Role

def label : Role → String
  | start => "START"
  | finish => "END"
  | input => "INPUT"
  | output => "OUTPUT"
  | decision => "DECISION"
  | declaration => "INIT"
  | assignment => "CALC"

/-- The blocks that hold no source. -/
def isTerminal : Role → Bool
  | start | finish => true
  | _ => false

end Role

end Blockwise
