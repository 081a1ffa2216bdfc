import Millennium.Starlight.JsTree
import Millennium.Starlight.Wrapper

/-!
# The rewriting of bundles

`apply_transforms` collects patches: an argument for some calls of the client library, another text
for a member of it, and another callee for calls of the console. Each kind of place in the tree has
a walker with its own list of nodes that it goes into.
-/

namespace Millennium.Starlight.Js

open Bytes Utf8 TreeWalk

structure InjectArg where
  path : List Name
  arg : Name
  deriving DecidableEq, Repr

structure Rename where
  path : List Name
  replacement : Name
  deriving DecidableEq, Repr

structure ConsoleHook where
  fnName : Name
  methods : List Name
  deriving DecidableEq, Repr

structure Patch where
  start : Nat
  stop : Nat
  text : Octets
  deriving DecidableEq, Repr

structure MapToken where
  source : Option (List Char)
  srcLine : Nat
  deriving Repr

structure Ctx where
  source : Octets
  injectArgs : List InjectArg
  renames : List Rename
  consoleHook : Option ConsoleHook
  sourceMap : Option (Nat → Nat → Option MapToken)

def injectArgsForNs (ns : Name) : List InjectArg :=
  [ ⟨[ns, "callable".toList], "pluginName".toList⟩,
    ⟨[ns, "ffi".toList], "pluginName".toList⟩,
    ⟨[ns, "Millennium".toList, "callServerMethod".toList], "pluginName".toList⟩,
    ⟨[ns, "Millennium".toList, "exposeObj".toList], "__exports".toList⟩,
    ⟨[ns, "BindPluginSettings".toList], "pluginName".toList⟩,
    ⟨[ns, "pluginConfig".toList, "get".toList], "pluginName".toList⟩,
    ⟨[ns, "pluginConfig".toList, "set".toList], "pluginName".toList⟩,
    ⟨[ns, "pluginConfig".toList, "delete".toList], "pluginName".toList⟩,
    ⟨[ns, "pluginConfig".toList, "getAll".toList], "pluginName".toList⟩,
    ⟨[ns, "usePluginConfig".toList], "pluginName".toList⟩,
    ⟨[ns, "subscribePluginConfig".toList], "pluginName".toList⟩]

def frontendInjectArgs : List InjectArg := injectArgsForNs "millennium".toList

def webkitInjectArgs : List InjectArg := injectArgsForNs "millennium".toList

def pluginSelf : Rename :=
  ⟨["millennium".toList, "pluginSelf".toList], "window.PLUGIN_LIST[pluginName]".toList⟩

def frontendRenames : List Rename := [pluginSelf, pluginSelf, pluginSelf]

def webkitRenames : List Rename := [pluginSelf]

def consoleHook : ConsoleHook where
  fnName := "__millennium_plugin_console__".toList
  methods := ["log".toList, "warn".toList, "error".toList]

inductive BundleTarget where
  | frontend | webkit
  deriving DecidableEq, Repr

def BundleTarget.ctx (target : BundleTarget) (source : Octets)
    (sourceMap : Option (Nat → Nat → Option MapToken)) : Ctx where
  source := source
  injectArgs := match target with
    | .frontend => frontendInjectArgs
    | .webkit => webkitInjectArgs
  renames := match target with
    | .frontend => frontendRenames
    | .webkit => webkitRenames
  consoleHook := some consoleHook
  sourceMap := sourceMap

def child (slot : Slot) (children : Nodes) : Node := (children.at? slot).getD (.node .leaf .nil)

def isIdentifier (name : Name) (t : Node) : Bool := t.shape == .identifier name

/-- A member of the console with one of the names, and where it stands. -/
def consoleMember (methods : List Name) : Node → Option (Name × Span)
  | .node (.staticMember span property) children =>
    if isIdentifier "console".toList (child .object children) && methods.contains property then
      some (property, span)
    else none
  | _ => none

/-- A callee without one pair of parentheses, or the last one of a sequence. -/
def openOnce : Node → Node
  | .node .parenthesized children => child .expression children
  | .node .sequence children => child .last children
  | other => other

def detectConsoleCall (callee : Node) (methods : List Name) : Option (Name × Span) :=
  consoleMember methods (openOnce callee)

/-- `member_matches_path`, with the path from its end on. -/
def memberMatches : List Name → Node → Bool
  | [], _ => false
  | [single], t => isIdentifier single t
  | last :: rest, t =>
    match t with
    | .node (.staticMember _ property) children =>
      property == last && memberMatches rest (child .object children)
    | _ => false

def memberMatchesPath (t : Node) (path : List Name) : Bool := memberMatches path.reverse t

def staticMemberMatchesPath (property : Name) (children : Nodes) (path : List Name) : Bool :=
  match path.reverse with
  | [] | [_] => false
  | last :: rest => property == last && memberMatches rest (child .object children)

mutual
def unparen : Node → Node
  | .node .parenthesized children => unparenIn children
  | other => other

def unparenIn : Nodes → Node
  | .nil => .node .leaf .nil
  | .cons slot inner rest => if slot = .expression then unparen inner else unparenIn rest
end

def calleeMatchesPath (callee : Node) (path : List Name) : Bool :=
  match unparen callee with
  | .node .sequence children => memberMatchesPath (child .last children) path
  | other => memberMatchesPath other path

def firstArgIs (name : Name) (args : List Node) : Bool := args.head?.any (isIdentifier name)

def offsetToLineCol (source : Octets) (offset : Nat) : Nat × Nat :=
  ((source.take offset).count 10, ((source.take offset).rtakeWhile (· != 10)).length)

namespace Ctx
variable (ctx : Ctx)

def resolveSrcLoc (offset : Nat) : List Char × List Char :=
  match ctx.sourceMap with
  | none => ("undefined".toList, "undefined".toList)
  | some lookupToken =>
    match lookupToken (offsetToLineCol ctx.source offset).1 (offsetToLineCol ctx.source offset).2 with
    | some token =>
      (match token.source with
        | some src =>
          jsonString ((src.map fun c => if c = '\\' then '/' else c).rtakeWhile (· != '/'))
        | none => "undefined".toList,
        Nat.toDigits 10 (token.srcLine + 1))
    | none => ("undefined".toList, "undefined".toList)

def insertAt (calleeEnd : Nat) : Nat := calleeEnd + (ctx.source.drop calleeEnd).idxOf 40 + 1

def insertion (offset : Nat) (args : List Node) (text : List Char) : Patch where
  start := offset
  stop := offset
  text := encode (if args.isEmpty then text else text ++ ", ".toList)

def consoleArgs (level : Name) (callee : Span) : List Char :=
  '"' :: level ++ "\", ".toList ++ (ctx.resolveSrcLoc callee.start).1 ++ ", ".toList ++
    (ctx.resolveSrcLoc callee.start).2

def consolePatches (offset : Nat) (hook : ConsoleHook) (level : Name) (member callee : Span)
    (args : List Node) : List Patch :=
  [⟨member.start, member.stop, encode hook.fnName⟩,
    insertion offset args (ctx.consoleArgs level callee)]

/-- The member of the console that is called, if there is a hook for it. -/
def consoleCall (find : List Name → Option (Name × Span)) :
    Option (ConsoleHook × Name × Span) :=
  ctx.consoleHook.bind fun hook => (find hook.methods).map (hook, ·)

def handleCall (callee : Span) (children : Nodes) : List Patch :=
  match ctx.consoleCall (detectConsoleCall (child .callee children)) with
  | some (hook, level, member) =>
    ctx.consolePatches (ctx.insertAt callee.stop) hook level member callee
      (children.allAt .argument)
  | none =>
    (ctx.injectArgs.filter fun spec => calleeMatchesPath (child .callee children) spec.path &&
      !firstArgIs spec.arg (children.allAt .argument)).map fun spec =>
        insertion (ctx.insertAt callee.stop) (children.allAt .argument) spec.arg

def handleStaticMember (span : Span) (property : Name) (children : Nodes) : List Patch :=
  match ctx.renames.find? fun spec => staticMemberMatchesPath property children spec.path with
  | some spec => [⟨span.start, span.stop, encode spec.replacement⟩]
  | none => []

def handle : Node → List Patch
  | .node (.call callee _) children => ctx.handleCall callee children
  | .node (.staticMember span property) children => ctx.handleStaticMember span property children
  | _ => []

end Ctx

inductive Walker where
  | program | stmt | expr | callee | arg | chainElem | propertyKey | arrayElem
  /-- A property of an object, in `walk_expr` and `walk_arg`. -/
  | property
  | classElement
  | forInit
  deriving DecidableEq, Repr

def walkClass : Slot → Option Walker
  | .superClass => some .expr
  | .element => some .classElement
  | _ => none

def walkStmt : Shape → Slot → Option Walker
  | .expressionStatement, .expression => some .expr
  | .variableDeclaration, .init => some .expr
  | .returnStatement, .argument => some .expr
  | .ifStatement, .test => some .expr
  | .ifStatement, .consequent => some .stmt
  | .ifStatement, .alternate => some .stmt
  | .blockStatement, .body => some .stmt
  | .whileStatement, .test => some .expr
  | .whileStatement, .body => some .stmt
  | .forStatement, .declaration => some .forInit
  | .forStatement, .test => some .expr
  | .forStatement, .update => some .expr
  | .forStatement, .body => some .stmt
  | .forInStatement, .right => some .expr
  | .forInStatement, .body => some .stmt
  | .forOfStatement, .right => some .expr
  | .forOfStatement, .body => some .stmt
  | .tryStatement, .block => some .stmt
  | .tryStatement, .handler => some .stmt
  | .tryStatement, .finalizer => some .stmt
  | .throwStatement, .argument => some .expr
  | .switchStatement, .discriminant => some .expr
  | .switchStatement, .caseTest => some .expr
  | .switchStatement, .caseBody => some .stmt
  | .functionDeclaration, .body => some .stmt
  | .classDeclaration, slot => walkClass slot
  | _, _ => none

def walkExpr : Shape → Slot → Option Walker
  | .call _ _, .callee => some .callee
  | .call _ _, .argument => some .arg
  | .staticMember _ _, .object => some .expr
  | .sequence, .expression => some .expr
  | .sequence, .last => some .expr
  | .functionExpression, .body => some .stmt
  | .arrowFunction, .body => some .stmt
  | .conditional, .test => some .expr
  | .conditional, .consequent => some .expr
  | .conditional, .alternate => some .expr
  | .assignment, .right => some .expr
  | .logical, .left => some .expr
  | .logical, .right => some .expr
  | .binary, .left => some .expr
  | .binary, .right => some .expr
  | .unary, .argument => some .expr
  | .await, .argument => some .expr
  | .yield, .argument => some .expr
  | .new, .callee => some .expr
  | .new, .argument => some .arg
  | .object, .property => some .property
  | .array, .element => some .arrayElem
  | .template, .expression => some .expr
  | .taggedTemplate, .tag => some .expr
  | .taggedTemplate, .quasi => some .expr
  | .parenthesized, .expression => some .expr
  | .chain, .expression => some .chainElem
  | .classExpression, slot => walkClass slot
  | _, _ => none

def walkCallee : Shape → Slot → Option Walker
  | .parenthesized, .expression => some .callee
  | .sequence, .last => some .callee
  | shape, slot => walkExpr shape slot

/-- The expressions that `walk_arg` has an arm for. All of them do what `walk_expr` does. -/
def argArm : Shape → Bool
  | .call _ _ | .staticMember _ _ | .sequence | .functionExpression | .arrowFunction
  | .conditional | .assignment | .logical | .binary | .unary | .await | .new | .object | .array
  | .template | .parenthesized => true
  | _ => false

def walkArg : Shape → Slot → Option Walker
  | .spread, .argument => some .expr
  | shape, slot => if argArm shape then walkExpr shape slot else none

def walkChainElem : Shape → Slot → Option Walker
  | .call _ _, .callee => some .callee
  | .call _ _, .argument => some .arg
  | .staticMember _ _, .object => some .expr
  | .computedMember, .object => some .expr
  | .computedMember, .expression => some .expr
  | _, _ => none

def walkPropertyKey : Shape → Slot → Option Walker
  | .staticMember _ _, .object => some .expr
  | .call _ _, .callee => some .callee
  | .call _ _, .argument => some .arg
  | _, _ => none

def walkArrayElem : Shape → Slot → Option Walker
  | .spread, .argument => some .expr
  | .call _ _, .callee => some .callee
  | .call _ _, .argument => some .arg
  | .staticMember _ _, .object => some .expr
  | .sequence, .expression => some .expr
  | .sequence, .last => some .expr
  | .functionExpression, .body => some .stmt
  | .arrowFunction, .body => some .stmt
  | _, _ => none

def walkProperty : Shape → Slot → Option Walker
  | .objectProperty _, .value => some .expr
  | .objectProperty true, .key => some .propertyKey
  | .spread, .argument => some .expr
  | _, _ => none

def walkClassElement : Shape → Slot → Option Walker
  | .methodDefinition, .body => some .stmt
  | .propertyDefinition, .value => some .expr
  | .staticBlock, .body => some .stmt
  | _, _ => none

def walkForInit : Shape → Slot → Option Walker
  | .variableDeclaration, .init => some .expr
  | _, _ => none

def walkProgram : Shape → Slot → Option Walker
  | .program, .body => some .stmt
  | _, _ => none

namespace Walker

/-- With which walker the source goes on in a child, if at all. -/
def enter : Walker → Shape → Slot → Option Walker
  | program => walkProgram
  | stmt => walkStmt
  | expr => walkExpr
  | callee => walkCallee
  | arg => walkArg
  | chainElem => walkChainElem
  | propertyKey => walkPropertyKey
  | arrayElem => walkArrayElem
  | property => walkProperty
  | classElement => walkClassElement
  | forInit => walkForInit

/-- The walkers with an arm for calls and one for members, which look for what to rewrite. -/
def handles : Walker → Bool
  | expr | callee | arg | chainElem | propertyKey | arrayElem => true
  | program | stmt | property | classElement | forInit => false

end Walker

def Ctx.walkers (ctx : Ctx) : Walk Shape Slot Walker Patch where
  enter := Walker.enter
  push w t := if w.handles then ctx.handle t else []

def Ctx.patches (ctx : Ctx) (program : Program) : List Patch :=
  walk ctx.walkers .program (root program.body)

/-- The order in which patches are applied: from the end of the text to its beginning. -/
def Patch.before (a b : Patch) : Bool :=
  decide (b.start < a.start) || (a.start == b.start && decide (b.stop ≤ a.stop))

def replaceRange (text : Octets) (patch : Patch) : Octets :=
  text.take patch.start ++ patch.text ++ text.drop patch.stop

def applyPatchesInner (source : Octets) (patches : List Patch) : Octets :=
  (patches.mergeSort Patch.before).foldl replaceRange source

def applyTransforms (target : BundleTarget) (sourceMap : Option (Nat → Nat → Option MapToken))
    (program : Program) : Octets :=
  applyPatchesInner program.source ((target.ctx program.source sourceMap).patches program)

end Millennium.Starlight.Js
