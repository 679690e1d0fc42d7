/-! The numbers and names of what the checker reports. -/
namespace TagCheck

inductive Code where
  | funcShape | arrayShape | objectShape | reimplyUndefTagged | reimplyUndefInferred
  | implyParamFromArgTagged | implyParamFromArgInferred | implyVarTagged | implyVarInferred
  | restUndeclared | restType | assignmentUndeclared | assignmentType | assignmentShape
  | callArgCount | callArgCountUnverifiable | callArgSpread | callArgType | callArgShape
  | callNoShape | binaryPlusMixedTypes | relationalMixedTypes | relationalBothTypes
  | relationalType | looseEqualityUnknownType | looseEqualityMixedTypes
  | strictEqualityKnownMixedTypes | strictEqualityKnownMatchingTypes | unaryNumericType
  | modulusBothTypes | modulusType | binaryNumericType | returnType | returnShape
  | ternaryCondType | spreadUnknownType | spreadType | logicalCondType | inOpType
  | instanceofOpType | ifConditional | whileConditional | doWhileConditional | taggedLiteralType
  | taggedLiteralShape | taggedInvalidLiteral | taggedExprType | taggedExprShape | tooManyPasses
  deriving DecidableEq, Repr, Inhabited

namespace Code

/-- All codes, in the order of their numbers. -/
def all : List Code :=
  [funcShape, arrayShape, objectShape, reimplyUndefTagged, reimplyUndefInferred,
   implyParamFromArgTagged, implyParamFromArgInferred, implyVarTagged, implyVarInferred,
   restUndeclared, restType, assignmentUndeclared, assignmentType, assignmentShape, callArgCount,
   callArgCountUnverifiable, callArgSpread, callArgType, callArgShape, callNoShape,
   binaryPlusMixedTypes, relationalMixedTypes, relationalBothTypes, relationalType,
   looseEqualityUnknownType, looseEqualityMixedTypes, strictEqualityKnownMixedTypes,
   strictEqualityKnownMatchingTypes, unaryNumericType, modulusBothTypes, modulusType,
   binaryNumericType, returnType, returnShape, ternaryCondType, spreadUnknownType, spreadType,
   logicalCondType, inOpType, instanceofOpType, ifConditional, whileConditional,
   doWhileConditional, taggedLiteralType, taggedLiteralShape, taggedInvalidLiteral,
   taggedExprType, taggedExprShape, tooManyPasses]

/-- The codes count from 101. -/
def number (c : Code) : Nat := 101 + all.idxOf c

def ofNumber? (n : Nat) : Option Code := all.find? fun c => c.number == n

def name : Code → String
  | funcShape => "func-shape"
  | arrayShape => "array-shape"
  | objectShape => "object-shape"
  | reimplyUndefTagged | reimplyUndefInferred => "reimply-undef"
  | implyParamFromArgTagged | implyParamFromArgInferred => "imply-param-from-arg"
  | implyVarTagged | implyVarInferred => "imply-var"
  | restUndeclared => "rest-undeclared"
  | restType => "rest-type"
  | assignmentUndeclared => "assignment-undeclared"
  | assignmentType => "assignment-type"
  | assignmentShape => "assignment-shape"
  | callArgCount => "call-arg-count"
  | callArgCountUnverifiable => "call-arg-count-unverifiable"
  | callArgSpread => "call-arg-spread"
  | callArgType => "call-arg-type"
  | callArgShape => "call-arg-shape"
  | callNoShape => "call-no-shape"
  | binaryPlusMixedTypes => "binary-plus-mixed-types"
  | relationalMixedTypes => "relational-mixed-types"
  | relationalBothTypes => "relational-both-types"
  | relationalType => "relational-type"
  | looseEqualityUnknownType => "loose-equality-unknown-type"
  | looseEqualityMixedTypes => "loose-equality-mixed-types"
  | strictEqualityKnownMixedTypes => "strict-equality-known-mixed-types"
  | strictEqualityKnownMatchingTypes => "strict-equality-known-matching-types"
  | unaryNumericType => "unary-numeric-type"
  | modulusBothTypes => "modulus-both-types"
  | modulusType => "modulus-type"
  | binaryNumericType => "binary-numeric-type"
  | returnType => "return-type"
  | returnShape => "return-shape"
  | ternaryCondType => "ternary-cond-type"
  | spreadUnknownType => "spread-unknown-type"
  | spreadType => "spread-type"
  | logicalCondType => "logical-cond-type"
  | inOpType => "in-op-type"
  | instanceofOpType => "instanceof-op-type"
  | ifConditional => "if-conditional"
  | whileConditional => "while-conditional"
  | doWhileConditional => "do-while-conditional"
  | taggedLiteralType => "tagged-literal-type"
  | taggedLiteralShape => "tagged-literal-shape"
  | taggedInvalidLiteral => "tagged-invalid-literal"
  | taggedExprType => "tagged-expr-type"
  | taggedExprShape => "tagged-expr-shape"
  | tooManyPasses => "too-many-passes"

end Code
end TagCheck
