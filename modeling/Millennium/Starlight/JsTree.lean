import Millennium.Lib.Bytes
import Millennium.Lib.TreeWalk

/-!
# Syntax trees of scripts

The trees that the parser gives to the bundler, with the data that the bundler reads, and the
children in the order in which it comes to them. What the parser has in a node between, such as the
block of a `try`, is in slots of the node above.
-/

namespace Millennium.Starlight.Js

open Bytes TreeWalk

abbrev Name := List Char

structure Span where
  start : Nat
  stop : Nat
  deriving DecidableEq, Repr

inductive Shape where
  | program
  -- statements
  | expressionStatement | variableDeclaration | returnStatement | ifStatement | blockStatement
  | whileStatement | doWhileStatement | forStatement | forInStatement | forOfStatement
  | tryStatement | throwStatement | switchStatement | functionDeclaration | classDeclaration
  | labeledStatement | withStatement | exportNamedDeclaration | exportDefaultDeclaration
  /-- `break`, `continue`, `debugger`, an empty statement, an import or a re-export. -/
  | otherStatement
  -- expressions
  | identifier (name : Name)
  /-- A literal, `this`, `super` or a meta property. -/
  | leaf
  /-- A call with the span of its callee and the offset of the parenthesis behind it. -/
  | call (callee : Span) (paren : Nat)
  | staticMember (span : Span) (property : Name)
  | computedMember | privateMember | sequence | functionExpression | arrowFunction | conditional
  | assignment | logical | binary | unary | update | await | yield | new | object | array
  | template | taggedTemplate | parenthesized | chain | classExpression | importExpression
  | privateIn
  -- parts of expressions
  | spread | elision
  | objectProperty (computed : Bool)
  | name
  -- parts of classes
  | methodDefinition | propertyDefinition | accessorProperty | staticBlock
  -- what is bound or assigned to
  | bindingIdentifier | objectPattern | arrayPattern | patternProperty | assignmentPattern
  | restElement
  deriving DecidableEq, Repr

inductive Slot where
  | body | expression | init | argument | test | consequent | alternate | update | left | right
  | block | handler | finalizer | param | discriminant | caseTest | caseBody | declaration
  | callee | object | last | property | element | key | value | tag | quasi | superClass
  | decorator | source | options | binding
  deriving DecidableEq, Repr

abbrev Node := Tree Shape Slot

abbrev Nodes := Forest Shape Slot

inductive Category where
  | statement | expression
  /-- A chain of member accesses and calls, some of them optional. -/
  | chainElement
  | argument
  | arrayElement
  | key
  | property | classElement
  | variableDeclaration
  | pattern
  | patternProperty
  deriving DecidableEq, Repr

namespace Shape

def isStatement : Shape → Bool
  | expressionStatement | variableDeclaration | returnStatement | ifStatement | blockStatement
  | whileStatement | doWhileStatement | forStatement | forInStatement | forOfStatement
  | tryStatement | throwStatement | switchStatement | functionDeclaration | classDeclaration
  | labeledStatement | withStatement | exportNamedDeclaration | exportDefaultDeclaration
  | otherStatement => true
  | _ => false

def isExpression : Shape → Bool
  | identifier _ | leaf | call _ _ | staticMember _ _ | computedMember | privateMember | sequence
  | functionExpression | arrowFunction | conditional | assignment | logical | binary | unary
  | update | await | yield | new | object | array | template | taggedTemplate | parenthesized
  | chain | classExpression | importExpression | privateIn => true
  | _ => false

def isChainElement : Shape → Bool
  | call _ _ | staticMember _ _ | computedMember | privateMember => true
  | _ => false

def isPattern : Shape → Bool
  | bindingIdentifier | objectPattern | arrayPattern | assignmentPattern | restElement
  | identifier _ | staticMember _ _ | computedMember | privateMember | parenthesized => true
  | _ => false

def isClassElement : Shape → Bool
  | methodDefinition | propertyDefinition | accessorProperty | staticBlock => true
  | _ => false

def isProperty : Shape → Bool
  | objectProperty _ | spread => true
  | _ => false

def fits (shape : Shape) : Category → Bool
  | .statement => shape.isStatement
  | .expression => shape.isExpression
  | .chainElement => shape.isChainElement
  | .argument => shape.isExpression || shape == spread
  | .arrayElement => shape.isExpression || shape == spread || shape == elision
  | .key => shape.isExpression || shape == name
  | .property => shape.isProperty
  | .classElement => shape.isClassElement
  | .variableDeclaration => shape == variableDeclaration
  | .pattern => shape.isPattern
  | .patternProperty => shape == patternProperty || shape == restElement

def takes : Shape → Slot → Option Category
  | program, .body => some .statement
  | expressionStatement, .expression => some .expression
  | variableDeclaration, .binding => some .pattern
  | variableDeclaration, .init => some .expression
  | returnStatement, .argument => some .expression
  | ifStatement, .test => some .expression
  | ifStatement, .consequent => some .statement
  | ifStatement, .alternate => some .statement
  | blockStatement, .body => some .statement
  | whileStatement, .test => some .expression
  | whileStatement, .body => some .statement
  | doWhileStatement, .body => some .statement
  | doWhileStatement, .test => some .expression
  | forStatement, .declaration => some .variableDeclaration
  | forStatement, .init => some .expression
  | forStatement, .test => some .expression
  | forStatement, .update => some .expression
  | forStatement, .body => some .statement
  | forInStatement, .declaration => some .variableDeclaration
  | forInStatement, .left => some .pattern
  | forInStatement, .right => some .expression
  | forInStatement, .body => some .statement
  | forOfStatement, .declaration => some .variableDeclaration
  | forOfStatement, .left => some .pattern
  | forOfStatement, .right => some .expression
  | forOfStatement, .body => some .statement
  | tryStatement, .block => some .statement
  | tryStatement, .param => some .pattern
  | tryStatement, .handler => some .statement
  | tryStatement, .finalizer => some .statement
  | throwStatement, .argument => some .expression
  | switchStatement, .discriminant => some .expression
  | switchStatement, .caseTest => some .expression
  | switchStatement, .caseBody => some .statement
  | functionDeclaration, .param => some .pattern
  | functionDeclaration, .body => some .statement
  | classDeclaration, .decorator => some .expression
  | classDeclaration, .superClass => some .expression
  | classDeclaration, .element => some .classElement
  | labeledStatement, .body => some .statement
  | withStatement, .object => some .expression
  | withStatement, .body => some .statement
  | exportNamedDeclaration, .declaration => some .statement
  | exportDefaultDeclaration, .declaration => some .statement
  | exportDefaultDeclaration, .expression => some .expression
  | call _ _, .callee => some .expression
  | call _ _, .argument => some .argument
  | staticMember _ _, .object => some .expression
  | computedMember, .object => some .expression
  | computedMember, .expression => some .expression
  | privateMember, .object => some .expression
  | sequence, .expression => some .expression
  | sequence, .last => some .expression
  | functionExpression, .param => some .pattern
  | functionExpression, .body => some .statement
  | arrowFunction, .param => some .pattern
  | arrowFunction, .body => some .statement
  | conditional, .test => some .expression
  | conditional, .consequent => some .expression
  | conditional, .alternate => some .expression
  | assignment, .left => some .pattern
  | assignment, .right => some .expression
  | logical, .left => some .expression
  | logical, .right => some .expression
  | binary, .left => some .expression
  | binary, .right => some .expression
  | unary, .argument => some .expression
  | update, .argument => some .pattern
  | await, .argument => some .expression
  | yield, .argument => some .expression
  | new, .callee => some .expression
  | new, .argument => some .argument
  | object, .property => some .property
  | array, .element => some .arrayElement
  | template, .expression => some .expression
  | taggedTemplate, .tag => some .expression
  | taggedTemplate, .quasi => some .expression
  | parenthesized, .expression => some .expression
  | chain, .expression => some .chainElement
  | classExpression, .decorator => some .expression
  | classExpression, .superClass => some .expression
  | classExpression, .element => some .classElement
  | importExpression, .source => some .expression
  | importExpression, .options => some .expression
  | privateIn, .right => some .expression
  | spread, .argument => some .expression
  | objectProperty _, .value => some .expression
  | objectProperty _, .key => some .key
  | methodDefinition, .decorator => some .expression
  | methodDefinition, .key => some .key
  | methodDefinition, .param => some .pattern
  | methodDefinition, .body => some .statement
  | propertyDefinition, .decorator => some .expression
  | propertyDefinition, .key => some .key
  | propertyDefinition, .value => some .expression
  | accessorProperty, .decorator => some .expression
  | accessorProperty, .key => some .key
  | accessorProperty, .value => some .expression
  | staticBlock, .body => some .statement
  | objectPattern, .property => some .patternProperty
  | arrayPattern, .element => some .pattern
  | patternProperty, .key => some .key
  | patternProperty, .value => some .pattern
  | assignmentPattern, .left => some .pattern
  | assignmentPattern, .right => some .expression
  | restElement, .argument => some .pattern
  | _, _ => none

end Shape

def grammatical (t : Node) : Bool :=
  t.children.toList.all fun (slot, child) => (t.shape.takes slot).any child.shape.fits

/-- The arguments of a call begin with a parenthesis after the callee. -/
def laid (source : Octets) (t : Node) : Bool :=
  match t.shape with
  | .call callee paren => decide (callee.stop ≤ paren) && source[paren]? == some 40
  | _ => true

def root (body : List Node) : Node :=
  .node .program (.ofList (body.map fun stmt => (.body, stmt)))

structure Program where
  source : Octets
  body : List Node
  grammatical_nodes : ∀ t ∈ nodes (root body), grammatical t = true
  laid_nodes : ∀ t ∈ nodes (root body), laid source t = true

end Millennium.Starlight.Js
