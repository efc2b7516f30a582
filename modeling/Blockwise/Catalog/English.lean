import Blockwise.Catalog

/-!
# The English catalog

The templates of the language's own catalog, with their slots in braces.
-/

namespace Blockwise
namespace Catalog

/-- A slot as it is written in a template. -/
def slot (name : String) : String :=
  String.ofList (Template.openBrace :: name.toList ++ [Template.closeBrace])

def englishNames : List (String × String) :=
  [("error.name.syntax_error", "Syntax error"),
    ("error.name.comp_error", "Compile error"),
    ("error.name.type_error", "Type error"),
    ("error.name.value_error", "Value error"),
    ("error.name.math_error", "Math error"),
    ("error.name.var_error", "Variable error"),
    ("error.name.call_error", "Call error"),
    ("error.name.interrupted", "Interrupted")]

def englishMessages : List (String × String) :=
  [("error.msg.unexpected_char",
      "unexpected character '" ++ slot "char" ++ "' at column " ++ slot "column"),
    ("error.msg.invalid_num_literal",
      "invalid number literal '" ++ slot "literal" ++ "' at column " ++ slot "column"),
    ("error.msg.ident_after_num",
      "a number cannot be followed by a name (column " ++ slot "column" ++ ")"),
    ("error.msg.open_string",
      "string starting at column " ++ slot "column" ++ " is never closed"),
    ("error.msg.unexpected_token",
      "unexpected " ++ slot "tok_type" ++ " at column " ++ slot "column"),
    ("error.msg.expected_value",
      "expected a value, found " ++ slot "tok_type" ++ " at column " ++ slot "column"),
    ("error.msg.expected_sym",
      "expected '" ++ slot "string" ++ "', found " ++ slot "tok_type" ++ " at column " ++
        slot "column"),
    ("error.msg.expected_keyword",
      "expected '" ++ slot "keyword" ++ "', found " ++ slot "tok_type" ++ " at column " ++
        slot "column"),
    ("error.msg.expected_type",
      "expected a type (Number, String or Boolean), found " ++ slot "tok_type" ++
        " at column " ++ slot "column"),
    ("error.msg.expected_ident",
      "expected a variable name, found " ++ slot "tok_type" ++ " at column " ++ slot "column"),
    ("error.msg.failed_compile", slot "block_kind" ++ " blocks cannot be compiled"),
    ("error.msg.incomplete_tree", "block " ++ slot "block" ++ " has an unconnected output"),
    ("error.msg.invalid_cast", "cannot convert " ++ slot "op_type" ++ " to " ++ slot "cast_type"),
    ("error.msg.bad_num_lit", "'" ++ slot "literal" ++ "' is not a number"),
    ("error.msg.bad_bool_lit",
      "'" ++ slot "literal" ++ "' is not a Boolean (expected true or false)"),
    ("error.msg.invalid_op_types",
      "operator '" ++ slot "operand" ++ "' is not defined for " ++ slot "left_type" ++ " and " ++
        slot "right_type"),
    ("error.msg.invalid_uni_op_types",
      "operator '" ++ slot "operand" ++ "' is not defined for " ++ slot "op_type"),
    ("error.msg.division_by_zero", "division by zero"),
    ("error.msg.modulo_by_zero", "modulo by zero"),
    ("error.msg.negative_root", "the result is not a real number"),
    ("error.msg.var_already_defined",
      "variable '" ++ slot "var_name" ++ "' is already defined"),
    ("error.msg.var_not_defined", "variable '" ++ slot "var_name" ++ "' is not defined"),
    ("error.msg.unknown_func", "unknown function '" ++ slot "func" ++ "'"),
    ("error.msg.wrong_arg_count",
      slot "func" ++ " takes " ++ slot "expected" ++ " argument(s), got " ++ slot "received"),
    ("error.msg.too_few_args",
      slot "func" ++ " takes at least " ++ slot "min" ++ " argument(s), got " ++
        slot "received"),
    ("error.msg.too_many_args",
      slot "func" ++ " takes at most " ++ slot "max" ++ " argument(s), got " ++
        slot "received"),
    ("error.msg.invalid_arg_type",
      "argument " ++ slot "arg_idx" ++ " of " ++ slot "func" ++ " must be " ++
        slot "expected" ++ ", got " ++ slot "received"),
    ("error.msg.math_domain", slot "func" ++ " is not defined for " ++ slot "value"),
    ("error.msg.execution_stopped", "execution was stopped")]

def english : Catalog where
  templates := Dictionary.ofList (englishNames ++ englishMessages)

end Catalog
end Blockwise
