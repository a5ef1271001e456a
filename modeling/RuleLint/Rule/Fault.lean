import RuleLint.Rule.Token
import RuleLint.Rule.Ty

namespace RuleLint.Rule

inductive FaultKind
  | malformed
  | unresolved
  | arity
  | mismatch
  | other
deriving DecidableEq, Repr

inductive Owner
  | enumeration
  | type
deriving DecidableEq, Repr

inductive Fault
  | invalidNumber (text : String)
  | unterminatedString
  | strayCharacter (c : Char)
  | halfOperator (c : Char)
  | emptyExpression
  | tooDeep
  | unexpected (found : Option Token)
  | missingParen (found : Option Token)
  | argumentEnd (found : Option Token)
  | missingMember (found : Option Token)
  | notInvocable
  | trailing (found : Token)
  | methodNotCalled (name : String)
  | typeAsValue (name : String)
  | unknownIdentifier (name : String)
  | unknownFunction (name : String)
  | noTypeMember (owner : Owner) (type name : String)
  | noValueMember (type name : String)
  | wrongArity (name : String) (expected given : Nat)
  | wrongArgument (index : Nat) (name : String) (expected actual : Ty)
  | wrongOperand (op : UnaryOp) (operand : Ty)
  | wrongOperands (op : BinOp) (left right : Ty)
  | notCondition (found : Ty)
deriving DecidableEq, Repr

namespace Fault

def kind : Fault → FaultKind
  | invalidNumber _ | unterminatedString | strayCharacter _ | halfOperator _ | emptyExpression
  | tooDeep | unexpected _ | missingParen _ | argumentEnd _ | missingMember _ | notInvocable
  | trailing _ => .malformed
  | unknownIdentifier _ | unknownFunction _ | noTypeMember .. | noValueMember .. => .unresolved
  | wrongArity .. => .arity
  | methodNotCalled _ | typeAsValue _ | wrongArgument .. | wrongOperand .. | wrongOperands ..
  | notCondition _ => .mismatch

private def quoted (text : String) : String := "'" ++ text ++ "'"

def text : Fault → String
  | invalidNumber text => "invalid number " ++ quoted text
  | unterminatedString => "unterminated string literal"
  | strayCharacter c => "unexpected character " ++ quoted c.toString
  | halfOperator c =>
    "unexpected " ++ quoted c.toString ++ " (did you mean " ++
      quoted (c.toString ++ c.toString) ++ "?)"
  | emptyExpression => "empty expression"
  | tooDeep => "expression nested too deeply"
  | unexpected found => "unexpected " ++ quoted (Token.foundText found)
  | missingParen found => "expected ')', found " ++ quoted (Token.foundText found)
  | argumentEnd found => "expected ',' or ')', found " ++ quoted (Token.foundText found)
  | missingMember found =>
    "expected member name after '.', found " ++ quoted (Token.foundText found)
  | notInvocable => "only functions called by name can be invoked"
  | trailing found => "unexpected " ++ quoted found.text ++ " after complete expression"
  | methodNotCalled name => "method " ++ quoted name ++ " must be called"
  | typeAsValue name => "type " ++ quoted name ++ " cannot be used as a value"
  | unknownIdentifier name => "Identifier " ++ quoted name ++ " not known"
  | unknownFunction name => "Function " ++ quoted name ++ " not known"
  | noTypeMember .enumeration type name =>
    "Enum " ++ quoted type ++ " has no member " ++ quoted name
  | noTypeMember .type type name => "Type " ++ quoted type ++ " has no member " ++ quoted name
  | noValueMember type name => quoted type ++ " has no member " ++ quoted name
  | wrongArity name expected given =>
    "Function " ++ quoted name ++ " accepts " ++ toString expected ++
      (if expected = 1 then " argument, " else " arguments, ") ++ toString given ++ " given"
  | wrongArgument index name expected actual =>
    "argument " ++ toString index ++ " of " ++ quoted name ++ " expects " ++
      quoted expected.text ++ ", found " ++ quoted actual.text
  | wrongOperand op operand =>
    "operator " ++ quoted op.symbol ++ " cannot be applied to operand of type " ++
      quoted operand.text
  | wrongOperands op left right =>
    "operator " ++ quoted op.symbol ++ " cannot be applied to operands of type " ++
      quoted left.text ++ " and " ++ quoted right.text
  | notCondition found => "expression must evaluate to bool, found " ++ quoted found.text

end Fault

structure Diagnostic where
  fault : Fault
  column : Nat
deriving DecidableEq, Repr

structure RuleError where
  kind : FaultKind
  message : String
  column : Option Nat
deriving DecidableEq, Repr

def Diagnostic.toRuleError (d : Diagnostic) : RuleError where
  kind := d.fault.kind
  message := "Parse error at column " ++ toString d.column ++ ": " ++ d.fault.text ++ "."
  column := some d.column

end RuleLint.Rule
