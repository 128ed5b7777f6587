import Opal.Source.Span

/-!
# Errors of meaning

What can be wrong with a module that follows the grammar. Each cause holds the names and the types
involved, as they are written in the message.
-/

namespace Opal

/-- Broad groups of causes. -/
inductive Category where
  | identifier
  | compatibility
  | mutability
  | constantEvaluation
  | initializationOrder
  | callBinding
  | genericInstantiation
deriving DecidableEq, Repr

def Category.display : Category → String
  | identifier => "identifier"
  | compatibility => "type compatibility"
  | mutability => "mutability"
  | constantEvaluation => "constant evaluation"
  | initializationOrder => "initialization order"
  | callBinding => "call binding"
  | genericInstantiation => "generic instantiation"

/-- What is wrong. -/
inductive SemanticCause where
  | duplicateDeclaration (name : String)
  | undeclaredIdentifier (name : String)
  | reservedIdentifier (name : String)
  | typeMismatch (expected found : String)
  | arraySizeMismatch (expected found : Nat)
  | arityMismatch (expected found : Nat)
  | invalidType (name reason : String)
  | notAPlace
  | ambiguousLambdaSignature (name : String)
  | immutableAssignment (name : String)
  | immutableTargetAssignment (type : String)
  | ambiguousLiteralType (literal : String)
  | literalOutOfRange (value type : String)
  | notAConstantExpression (what : String)
  | circularConstantDefinition (name : String)
  | arithmeticOverflow (type : String)
  | divisionByZero
  | useBeforeInitialization (name : String)
  | unknownParameter (function name : String)
  | missingArgument (function name : String)
  | duplicateArgument (name : String)
  | invalidGenericArgument (reason : String)
deriving DecidableEq, Repr

namespace SemanticCause

def code : SemanticCause → String
  | duplicateDeclaration .. => "DuplicateDeclaration"
  | undeclaredIdentifier .. => "UndeclaredIdentifier"
  | reservedIdentifier .. => "ReservedIdentifier"
  | typeMismatch .. => "TypeMismatch"
  | arraySizeMismatch .. => "ArraySizeMismatch"
  | arityMismatch .. => "ArityMismatch"
  | invalidType .. => "InvalidType"
  | notAPlace => "NotAPlace"
  | ambiguousLambdaSignature .. => "AmbiguousLambdaSignature"
  | immutableAssignment .. => "ImmutableAssignment"
  | immutableTargetAssignment .. => "ImmutableTargetAssignment"
  | ambiguousLiteralType .. => "AmbiguousLiteralType"
  | literalOutOfRange .. => "LiteralOutOfRange"
  | notAConstantExpression .. => "NotAConstantExpression"
  | circularConstantDefinition .. => "CircularConstantDefinition"
  | arithmeticOverflow .. => "ArithmeticOverflow"
  | divisionByZero => "DivisionByZero"
  | useBeforeInitialization .. => "UseBeforeInitialization"
  | unknownParameter .. => "UnknownParameter"
  | missingArgument .. => "MissingArgument"
  | duplicateArgument .. => "DuplicateArgument"
  | invalidGenericArgument .. => "InvalidGenericArgument"

def category : SemanticCause → Category
  | duplicateDeclaration .. | undeclaredIdentifier .. | reservedIdentifier .. => .identifier
  | typeMismatch .. | arraySizeMismatch .. | arityMismatch .. | invalidType .. | notAPlace
  | ambiguousLambdaSignature .. => .compatibility
  | immutableAssignment .. | immutableTargetAssignment .. => .mutability
  | ambiguousLiteralType .. | literalOutOfRange .. | notAConstantExpression ..
  | circularConstantDefinition .. | arithmeticOverflow .. | divisionByZero => .constantEvaluation
  | useBeforeInitialization .. => .initializationOrder
  | unknownParameter .. | missingArgument .. | duplicateArgument .. => .callBinding
  | invalidGenericArgument .. => .genericInstantiation

def message : SemanticCause → String
  | duplicateDeclaration name => "'" ++ name ++ "' is already declared in this scope"
  | undeclaredIdentifier name => "cannot find '" ++ name ++ "' in this scope"
  | reservedIdentifier name => "'" ++ name ++ "' is reserved and cannot be used here"
  | typeMismatch expected found => "mismatched types: expected " ++ expected ++ ", found " ++ found
  | arraySizeMismatch expected found =>
    "expected an array of " ++ toString expected ++ " element(s), found " ++ toString found
  | arityMismatch expected found =>
    "expected " ++ toString expected ++ " argument(s), found " ++ toString found
  | invalidType name reason => "invalid type '" ++ name ++ "': " ++ reason
  | notAPlace => "expression does not denote a storage location"
  | ambiguousLambdaSignature name => "cannot infer the type of lambda parameter '" ++ name ++ "'"
  | immutableAssignment name => "cannot assign to immutable binding '" ++ name ++ "'"
  | immutableTargetAssignment type =>
    "cannot assign through '" ++ type ++ "': the referenced value is immutable"
  | ambiguousLiteralType literal => "cannot infer a type for integer literal " ++ literal
  | literalOutOfRange value type => "literal " ++ value ++ " is out of range for " ++ type
  | notAConstantExpression what => what ++ " is not a constant expression"
  | circularConstantDefinition name => "constant '" ++ name ++ "' depends on its own value"
  | arithmeticOverflow type => "constant arithmetic overflows " ++ type
  | divisionByZero => "division by zero in constant expression"
  | useBeforeInitialization name => "'" ++ name ++ "' is used before it is initialized"
  | unknownParameter function name => "'" ++ function ++ "' has no parameter named '" ++ name ++ "'"
  | missingArgument function name =>
    "missing argument for parameter '" ++ name ++ "' of '" ++ function ++ "'"
  | duplicateArgument name => "parameter '" ++ name ++ "' is supplied more than once"
  | invalidGenericArgument reason => "invalid generic argument: " ++ reason

end SemanticCause

/-- A cause with the span it concerns. -/
structure SemanticError where
  cause : SemanticCause
  span : Span
deriving DecidableEq, Repr

end Opal
