import ScriptEngine.Heap.Elements
import ScriptEngine.Heap.Ladder
import ScriptEngine.Native.Collections
import ScriptEngine.Native.Instances
import ScriptEngine.Native.Numbers
import ScriptEngine.Program.Grammar
import ScriptEngine.Scope

-- Running programs. A walk along a tree is a recursion on the tree alone: entering the body of a
-- user function and running a script from a native function are left to the level below, which has
-- less fuel, and a loop goes round at most as often as there is fuel.

namespace ScriptEngine

variable {σ : Type}

-- How a statement ends when it does not fail.
inductive Completion where
  | normal
  | returned (value : Value)
  | broke
  | continued

-- Whether a native function runs its text as one expression or as statements.
inductive ScriptForm where
  | expression | statements
deriving DecidableEq, Repr

-- What a walk leaves to the level below.
structure Below (σ : Type) where
  -- Runs the body of a function with a receiver and arguments, called from a scope.
  enter : Location → Closure → Value → List Value → Scope → Run σ Error Value
  -- Runs a text against the global object.
  script : ScriptForm → String → Run σ Fault Value

-- The script whose tree is walked, and the scope.
structure Context where
  script : String
  scope : Scope

def Context.at (context : Context) (offset : Nat) : Location :=
  ⟨context.script, offset⟩

namespace GlobalFunction

def apply (below : Below σ) (function : GlobalFunction) (arguments : List Value) :
    Run σ Fault Value := do
  let heap ← Run.getHeap
  let value := argument arguments 0
  match function with
  | typeOf => return .string (heap.typeOf value)
  | exec => below.script .statements (heap.toText value)
  | eval => below.script .expression (heap.toText value)
  | parseInt =>
    match Number.leadingInt? (Text.trim (heap.toText value).toList) with
    | some value => return .int value
    | none => return .double Double.nan
  | parseFloat => return .double (heap.toNumber value).toDouble
  | isNaN => return .boolean (heap.toNumber value).isNaN
  | isFinite => return .boolean (heap.toNumber value).toDouble.isFinite

end GlobalFunction

namespace ConsoleFunction

-- Writes the texts of the arguments on a line.
def apply (function : ConsoleFunction) (arguments : List Value) : Run σ Fault Value :=
    fun machine =>
  let line := " ".intercalate (arguments.map machine.heap.toText) ++ "\n"
  match function with
  | log => (.done .undefined, machine.write line)
  | warn => (.done .undefined, machine.writeError ("Warning: " ++ line))
  | error => (.done .undefined, machine.writeError line)

end ConsoleFunction

def Native.apply (host : Host σ) (below : Below σ) (receiver : Value) (arguments : List Value) :
    Native → Run σ Fault Value
  | global function => function.apply below arguments
  | object function => Run.onHeap (function.apply receiver arguments)
  | array function => function.apply host receiver arguments
  | string function => Run.onHeap (function.apply receiver arguments)
  | number function => return .boolean (function.apply arguments)
  | math function => do
    let heap ← Run.getHeap
    return .number (function.apply arguments heap)
  | console function => function.apply arguments
  | .host handler => Run.ofStep (host.call handler receiver arguments)

-- A property of a global object that provides methods.
def Heap.provided? (heap : Heap) (root : ObjectRef) (provider name : String) : Option Value :=
  match heap.get? root provider with
  | some (.object ref) => heap.get? ref name
  | _ => none

-- The function that a method call on a target names: on the target or its prototypes, by the
-- target itself, which undefined stands for, or from the global providers.
def Heap.method (host : Host σ) (heap : Heap) (root : ObjectRef) (target : Value) (name : String) :
    Except Fault Value :=
  let own := match target with
    | .object ref =>
      match heap.find? ref name with
      | some value => some value
      | none =>
        match (heap.object ref).instance? with
        | some content => if content.hasMethod host name then some .undefined else none
        | none => none
    | .string _ => heap.provided? root "String" name
    | .array _ => heap.provided? root "Array" name
    | _ => none
  match own.or (heap.provided? root "Object" name) with
  | some value => .ok value
  | none => .error (.unknownFunction name)

-- A property of a value. Arrays and texts have a length, and only objects have anything else.
def Heap.property (heap : Heap) (target : Value) (name : String) : Value :=
  match target with
  | .object ref => (heap.get? ref name).getD .undefined
  | .array ref => if name = "length" then .ofNat (heap.array ref).size else .undefined
  | .string text => if name = "length" then .ofNat text.length else .undefined
  | _ => .undefined

-- The value of `target[key]`.
def Heap.subscript (heap : Heap) (target key : Value) : Value :=
  match target with
  | .array ref =>
    match key.toIndex? with
    | some index => heap.element ref index
    | none => .undefined
  | .object ref => (heap.get? ref (heap.toText key)).getD .undefined
  | _ => .undefined

-- Stores into `container[key]`.
def Heap.setSubscript (heap : Heap) (container key value : Value) : Except Fault Heap :=
  match container with
  | .array ref =>
    match key.toIndex? with
    | some index => heap.setElement ref index value
    | none => .error .notAssignable
  | .object ref => .ok (heap.set ref (heap.toText key) value)
  | _ => .error .notAssignable

-- Whether a key cannot be written: while it is made the name of a property, the object that gets the
-- property must not be looked at. Elements of arrays have no names.
def Heap.clashes (heap : Heap) (container key : Value) : Bool :=
  match container with
  | .object ref => heap.textVisits ref key
  | _ => false

-- Holds a container for a write. The program does not survive a key that looks at it.
def Run.hold {ε : Type} (container key : Value) : Run σ ε Unit := fun machine =>
  if machine.heap.clashes container key then (.crashed, machine) else (.done (), machine)

def Heap.setProperty (heap : Heap) (container : Value) (name : String) (value : Value) :
    Except Fault Heap :=
  match container with
  | .object ref => .ok (heap.set ref name value)
  | _ => .error .notAssignable

-- Runs an operation on the heap that may fail and then changes nothing.
def Run.changeHeap (change : Heap → Except Fault Heap) : Run σ Fault Unit := fun machine =>
  match change machine.heap with
  | .ok heap => (.done (), { machine with heap })
  | .error fault => (.failed fault, machine)

-- The value that a dotted path names.
def Context.path (context : Context) (heap : Heap) : List String → Value
  | [] => .undefined
  | first :: rest =>
    match context.scope.find? heap first with
    | some value => rest.foldl heap.property value
    | none => .undefined

-- The native function, the user function and the instance that a value may be.
def Heap.nativeOf? (heap : Heap) : Value → Option Native
  | .native ref => heap.native? ref
  | _ => none

def Heap.closureOf? (heap : Heap) : Value → Option Closure
  | .object ref => (heap.object ref).closure?
  | _ => none

def Heap.instanceOf? (heap : Heap) : Value → Option Instance
  | .object ref => (heap.object ref).instance?
  | _ => none

-- Calls a function value. At a method call, a target that answers the method itself is asked last.
def callValue (host : Host σ) (below : Below σ) (location : Location) (function receiver : Value)
    (arguments : List Value) (method : Option String) (scope : Scope) : Run σ Error Value := do
  let heap ← Run.getHeap
  match heap.nativeOf? function, heap.closureOf? function, method, heap.instanceOf? receiver with
  | some native, _, _, _ => Run.locate location (native.apply host below receiver arguments)
  | none, some closure, _, _ => below.enter location closure receiver arguments scope
  | none, none, some name, some content =>
    if content.hasMethod host name then
      Run.locate location (content.invoke host heap name arguments)
    else
      Run.fail ⟨.notAFunction, location⟩
  | none, none, _, _ => Run.fail ⟨.notAFunction, location⟩

-- A fresh object for a user function under `new`, with the prototype of the function.
def Object.forFunction (function : Object) : Object :=
  match function.prototype? with
  | some prototype => Object.empty.set "prototype" (.object prototype)
  | none => .empty

-- An instance of the class object, which becomes its prototype.
def construct (host : Host σ) (name : String) (class_ : ObjectRef) (arguments : List Value) :
    Run σ Fault Value := do
  let heap ← Run.getHeap
  let object ← match (heap.object class_).nativeClass? with
    | some nativeClass =>
      if nativeClass.constructable then
        nativeClass.maker.build host nativeClass.name arguments
      else
        Run.fail (.notConstructable name)
    | none => pure .empty
  Run.onHeap fun heap => heap.addObjectValue (object.set "prototype" (.object class_))

mutual

-- The value of an expression.
def Expr.eval (host : Host σ) (below : Below σ) (context : Context) : Expr → Run σ Error Value
  | .literal _ value => return value.toValue
  | .identifier _ name => do
    let heap ← Run.getHeap
    return (context.scope.find? heap name).getD .undefined
  | .receiver _ => do
    let heap ← Run.getHeap
    return context.scope.receiver heap
  | .dot _ target name => do
    let target ← Expr.eval host below context target
    let heap ← Run.getHeap
    return heap.property target name
  | .subscript _ target index => do
    let target ← Expr.eval host below context target
    let key ← Expr.eval host below context index
    let heap ← Run.getHeap
    return heap.subscript target key
  | .unary _ operator operand => do
    let value ← Expr.eval host below context operand
    let heap ← Run.getHeap
    match operator with
    | .not => return .boolean !value.isTruthy
    | .typeOf => return .string (heap.typeOf value)
  | .binary offset operator left right => do
    let a ← Expr.eval host below context left
    let b ← Expr.eval host below context right
    let heap ← Run.getHeap
    Run.locate (context.at offset) (Run.ofExcept (heap.applyBinary host operator a b))
  | .logical _ operator left right => do
    let a ← Expr.eval host below context left
    match operator, a.isTruthy with
    | .and, false => return .boolean false
    | .or, true => return .boolean true
    | _, _ => do
      let b ← Expr.eval host below context right
      return .boolean b.isTruthy
  | .ternary _ test yes no => do
    let test ← Expr.eval host below context test
    if test.isTruthy then Expr.eval host below context yes else Expr.eval host below context no
  | .assign _ target value => do
    let value ← Expr.eval host below context value
    Expr.store host below context target value
    return value
  | .update offset operator target value givesOld => do
    let old ← Expr.eval host below context target
    let other ← Expr.eval host below context value
    let heap ← Run.getHeap
    let new ← Run.locate (context.at offset)
      (Run.ofExcept (heap.applyBinary host operator old other))
    Expr.store host below context target new
    return if givesOld then old else new
  | .call offset (.dot _ target name) arguments => do
    let receiver ← Expr.eval host below context target
    let machine ← Run.get
    let function ← Run.locate (context.at offset)
      (Run.ofExcept (machine.heap.method host machine.root receiver name))
    Run.locate (context.at offset) (Run.checkpoint host)
    let arguments ← Expr.evalAll host below context arguments
    callValue host below (context.at offset) function receiver arguments (some name) context.scope
  | .call offset callee arguments => do
    let function ← Expr.eval host below context callee
    Run.locate (context.at offset) (Run.checkpoint host)
    let arguments ← Expr.evalAll host below context arguments
    callValue host below (context.at offset) function (.object context.scope.frame) arguments none
      context.scope
  | .construct offset path arguments => do
    let heap ← Run.getHeap
    match context.path heap path with
    | .object class_ =>
      match (heap.object class_).closure? with
      | some closure => do
        let instance_ ← Run.onHeap (·.addObjectValue (heap.object class_).forFunction)
        Run.locate (context.at offset) (Run.checkpoint host)
        let arguments ← Expr.evalAll host below context arguments
        let _ ← below.enter (context.at offset) closure instance_ arguments context.scope
        return instance_
      | none => do
        Run.locate (context.at offset) (Run.checkpoint host)
        let arguments ← Expr.evalAll host below context arguments
        Run.locate (context.at offset)
          (ScriptEngine.construct host (path.getLastD "") class_ arguments)
    | _ => return .undefined
  | .object _ entries => do
    let entries ← Expr.evalEntries host below context entries
    Run.onHeap (·.addObjectValue ⟨.ordinary, Properties.empty.setAll entries⟩)
  | .array _ elements => do
    let elements ← Expr.evalAll host below context elements
    Run.onHeap (·.addArrayValue elements)
  | .function _ lambda =>
    Run.onHeap (·.addObjectValue ⟨.function ⟨context.script, lambda⟩, .empty⟩)

-- Stores a value into the place that an expression names.
def Expr.store (host : Host σ) (below : Below σ) (context : Context) :
    Expr → Value → Run σ Error Unit
  | .identifier _ name, value => Run.modifyHeap (context.scope.assign name value)
  | .dot offset target name, value => do
    let container ← Expr.eval host below context target
    Run.locate (context.at offset) (Run.changeHeap (·.setProperty container name value))
  | .subscript offset target index, value => do
    let container ← Expr.eval host below context target
    let key ← Expr.eval host below context index
    Run.hold container key
    Run.locate (context.at offset) (Run.changeHeap (·.setSubscript container key value))
  | target, _ => Run.fail ⟨.notAssignable, context.at target.offset⟩

-- The values of expressions, from left to right.
def Expr.evalAll (host : Host σ) (below : Below σ) (context : Context) :
    List Expr → Run σ Error (List Value)
  | [] => return []
  | first :: rest => do
    let value ← Expr.eval host below context first
    return value :: (← Expr.evalAll host below context rest)

def Expr.evalEntries (host : Host σ) (below : Below σ) (context : Context) :
    List (String × Expr) → Run σ Error (List (String × Value))
  | [] => return []
  | (key, first) :: rest => do
    let value ← Expr.eval host below context first
    return (key, value) :: (← Expr.evalEntries host below context rest)

end

-- Whether an optional test holds. A missing one does.
def Expr.holds (host : Host σ) (below : Below σ) (context : Context) :
    Option Expr → Run σ Error Bool
  | some test => do
    let value ← test.eval host below context
    return value.isTruthy
  | none => return true

-- One round of a loop: none if another one follows, and else how the loop ends. A round that
-- tests last does not test after a `continue`.
def Loop.round (checkpoint : Run σ Error Unit) (test : Run σ Error Bool)
    (body : Run σ Error Completion) (step : Run σ Error Unit) (testLast : Bool) :
    Run σ Error (Option Completion) := do
  checkpoint
  let enters ← if testLast then pure true else test
  if !enters then
    return some .normal
  else
    match ← body with
    | .returned value => return some (.returned value)
    | .broke => return some .normal
    | .continued => do
      step
      return none
    | .normal => do
      step
      let again ← if testLast then test else pure true
      return if again then none else some .normal

mutual

-- Runs a statement.
def Stmt.exec (host : Host σ) (below : Below σ) (fuel : Nat) (context : Context) :
    Stmt → Run σ Error Completion
  | .empty _ => return .normal
  | .block _ body => Stmt.execAll host below fuel context body
  | .branch _ test yes no => do
    let test ← test.eval host below context
    if test.isTruthy then yes.exec host below fuel context
    else
      match no with
      | some no => no.exec host below fuel context
      | none => return .normal
  | .declare _ name initial => do
    let value ← match initial with
      | some value => value.eval host below context
      | none => pure .undefined
    Run.modifyHeap (context.scope.declare name value)
    return .normal
  | .loop offset initial test step body testLast => do
    let _ ← match initial with
      | some initial => initial.exec host below fuel context
      | none => pure .normal
    let checkpoint := Run.locate (context.at offset) (Run.checkpoint host)
    let advance : Run σ Error Unit := match step with
      | some step => do
        let _ ← step.eval host below context
        return ()
      | none => return ()
    Run.repeatUntil
      (Loop.round checkpoint (Expr.holds host below context test)
        (body.exec host below fuel context) advance testLast)
      fuel
  | .giveBack _ value => do
    match value with
    | some value => return .returned (← value.eval host below context)
    | none => return .returned .undefined
  | .breakLoop _ => return .broke
  | .continueLoop _ => return .continued
  | .expression value => do
    let _ ← value.eval host below context
    return .normal

-- Runs statements up to the first one that does not end normally.
def Stmt.execAll (host : Host σ) (below : Below σ) (fuel : Nat) (context : Context) :
    List Stmt → Run σ Error Completion
  | [] => return .normal
  | first :: rest => do
    match ← first.exec host below fuel context with
    | .normal => Stmt.execAll host below fuel context rest
    | completion => return completion

end

-- The frame of a call: the receiver, and the parameters with the arguments in order.
def Closure.frame (closure : Closure) (receiver : Value) (arguments : List Value) : Object :=
  let parameters := closure.function.parameters
  let padded := arguments ++ List.replicate parameters.length .undefined
  { Scope.callFrame receiver with
    properties := (Scope.callFrame receiver).properties.setAll (parameters.zip padded) }

-- Runs a computation one level deeper, and comes back whatever its ending.
def Run.deeper {α : Type} (location : Location) (run : Run σ Error α) : Run σ Error α :=
  fun machine =>
    if machine.maxDepth ≤ machine.depth then (.failed ⟨.callDepthExceeded, location⟩, machine)
    else
      let (ending, machine) := run { machine with depth := machine.depth + 1 }
      (ending, { machine with depth := machine.depth - 1 })

-- The levels of a run.
def Below.ofFuel (host : Host σ) : Nat → Below σ
  | 0 => { enter := fun _ _ _ _ _ => Run.spent, script := fun _ _ => Run.spent }
  | fuel + 1 =>
    { enter := fun location closure receiver arguments scope => Run.deeper location do
        let frame ← Run.onHeap (·.addObject (closure.frame receiver arguments))
        let context : Context := ⟨closure.script, scope.child frame⟩
        match ← Stmt.execAll host (Below.ofFuel host fuel) fuel context closure.function.body with
        | .returned value => return value
        | _ => return .undefined
      script := fun form text => do
        let machine ← Run.get
        let context : Context := ⟨text, .ofRoot machine.root⟩
        match form with
        | .expression =>
          match Expr.read text with
          | .ok expression =>
            Run.embed (expression.eval host (Below.ofFuel host fuel) context)
          | .error error => Run.fail (.nested ⟨text, error.offset⟩ (.malformed error.fault))
        | .statements =>
          match Program.read text with
          | .ok program => do
            let _ ← Run.embed
              (Stmt.execAll host (Below.ofFuel host fuel) fuel context program.body)
            return .undefined
          | .error error => Run.fail (.nested ⟨text, error.offset⟩ (.malformed error.fault)) }

end ScriptEngine
