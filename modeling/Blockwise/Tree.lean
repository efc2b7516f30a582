import Blockwise.Value.Operator

/-!
# Trees

The compiled form of a block's source.  A variable is set to a value as a new variable if the node
`declares` it, and as an existing one otherwise.
-/

namespace Blockwise

inductive Tree where
  | literal (value : Value)
  | get (name : String)
  | template (segments : List Segment)
  | unary (op : UnaryOp) (operand : Tree)
  | binary (op : BinaryOp) (left right : Tree)
  | cast (operand : Tree) (target : ValueType)
  | call (name : String) (args : List Tree)
  | set (name : String) (value : Tree) (declares : Bool)
  | sequence (trees : List Tree)
  | write (operand : Tree)
  | read (name : String) (target : ValueType)
  deriving Inhabited

end Blockwise
