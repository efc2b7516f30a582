import Blockwise.Chart.Role
import Blockwise.Fault
import Blockwise.Token

/-!
# Causes of faults

Everything that can go wrong with a source, a chart or an evaluation, each with the data that
its message needs.  A cause determines its fault.
-/

namespace Blockwise

inductive Cause where
  -- reading a source into tokens
  | unexpectedChar (c : Char) (column : Nat)
  | badNumberLiteral (literal : String) (column : Nat)
  | nameAfterNumber (column : Nat)
  | openString (column : Nat)
  -- reading tokens into a tree
  | unexpectedToken (found : PlacedToken)
  | expectedValue (found : PlacedToken)
  | expectedSymbol (symbol : Symbol) (found : PlacedToken)
  | expectedKeyword (keyword : Keyword) (found : PlacedToken)
  | expectedType (found : PlacedToken)
  | expectedName (found : PlacedToken)
  -- building a program
  | noSource (role : Role)
  | openLink (block : BlockId)
  -- values
  | badCast (source target : ValueType)
  | badNumber (literal : String)
  | badBoolean (literal : String)
  | badOperands (operator : String) (left right : ValueType)
  | badOperand (operator : String) (operand : ValueType)
  | divisionByZero
  | moduloByZero
  | notReal
  -- variables
  | alreadyDefined (name : String)
  | notDefined (name : String)
  -- calls
  | unknownFunction (name : String)
  | wrongCount (function : Function) (expected received : Nat)
  | tooFew (function : Function) (least received : Nat)
  | tooMany (function : Function) (most received : Nat)
  | badArgument (function : Function) (index : Nat) (received : ValueType)
  | outsideDomain (function : Function) (value : Float)
  -- reads that were called off
  | interrupted
  deriving DecidableEq

namespace Cause

def kind : Cause → FaultKind
  | unexpectedChar .. | badNumberLiteral .. | nameAfterNumber .. | openString .. => .syntaxError
  | unexpectedToken .. | expectedValue .. | expectedSymbol .. => .syntaxError
  | expectedKeyword .. | expectedType .. | expectedName .. => .syntaxError
  | noSource .. | openLink .. => .compError
  | badCast .. | badOperands .. | badOperand .. | badArgument .. => .typeError
  | badNumber .. | badBoolean .. => .valueError
  | divisionByZero | moduloByZero | notReal | outsideDomain .. => .mathError
  | alreadyDefined .. | notDefined .. => .varError
  | unknownFunction .. | wrongCount .. | tooFew .. | tooMany .. => .callError
  | interrupted => .interrupted

/-- The name of the message, the last part of its catalog key. -/
def label : Cause → String
  | unexpectedChar .. => "unexpected_char"
  | badNumberLiteral .. => "invalid_num_literal"
  | nameAfterNumber .. => "ident_after_num"
  | openString .. => "open_string"
  | unexpectedToken .. => "unexpected_token"
  | expectedValue .. => "expected_value"
  | expectedSymbol .. => "expected_sym"
  | expectedKeyword .. => "expected_keyword"
  | expectedType .. => "expected_type"
  | expectedName .. => "expected_ident"
  | noSource .. => "failed_compile"
  | openLink .. => "incomplete_tree"
  | badCast .. => "invalid_cast"
  | badNumber .. => "bad_num_lit"
  | badBoolean .. => "bad_bool_lit"
  | badOperands .. => "invalid_op_types"
  | badOperand .. => "invalid_uni_op_types"
  | divisionByZero => "division_by_zero"
  | moduloByZero => "modulo_by_zero"
  | notReal => "negative_root"
  | alreadyDefined .. => "var_already_defined"
  | notDefined .. => "var_not_defined"
  | unknownFunction .. => "unknown_func"
  | wrongCount .. => "wrong_arg_count"
  | tooFew .. => "too_few_args"
  | tooMany .. => "too_many_args"
  | badArgument .. => "invalid_arg_type"
  | outsideDomain .. => "math_domain"
  | interrupted => "execution_stopped"

def key (c : Cause) : String :=
  "error.msg." ++ c.label

def foundArgs (found : PlacedToken) : List (String × String) :=
  [("tok_type", found.token.describe), ("column", toString found.column)]

/-- The arguments of the message, by name. -/
def args : Cause → List (String × String)
  | unexpectedChar c column => [("char", String.singleton c), ("column", toString column)]
  | badNumberLiteral literal column => [("literal", literal), ("column", toString column)]
  | nameAfterNumber column => [("column", toString column)]
  | openString column => [("column", toString column)]
  | unexpectedToken found => foundArgs found
  | expectedValue found => foundArgs found
  | expectedSymbol symbol found => ("string", symbol.text) :: foundArgs found
  | expectedKeyword keyword found => ("keyword", keyword.text) :: foundArgs found
  | expectedType found => foundArgs found
  | expectedName found => foundArgs found
  | noSource role => [("block_kind", role.label)]
  | openLink block => [("block", block.text)]
  | badCast source target => [("op_type", source.name), ("cast_type", target.name)]
  | badNumber literal => [("literal", literal)]
  | badBoolean literal => [("literal", literal)]
  | badOperands operator left right =>
      [("left_type", left.name), ("right_type", right.name), ("operand", operator)]
  | badOperand operator operand => [("op_type", operand.name), ("operand", operator)]
  | divisionByZero => []
  | moduloByZero => []
  | notReal => []
  | alreadyDefined name => [("var_name", name)]
  | notDefined name => [("var_name", name)]
  | unknownFunction name => [("func", name)]
  | wrongCount function expected received =>
      [("func", function.name), ("received", toString received), ("expected", toString expected)]
  | tooFew function least received =>
      [("func", function.name), ("received", toString received), ("min", toString least)]
  | tooMany function most received =>
      [("func", function.name), ("received", toString received), ("max", toString most)]
  | badArgument function index received =>
      [("func", function.name), ("arg_idx", toString index),
        ("expected", ValueType.number.name), ("received", received.name)]
  | outsideDomain function value => [("func", function.name), ("value", Number.text value)]
  | interrupted => []

def fault (c : Cause) : Fault where
  kind := c.kind
  message := c.key
  args := Dictionary.ofList c.args

end Cause

end Blockwise
