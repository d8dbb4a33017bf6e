import ScriptEngine.Proofs.Logging.Log
import ScriptEngine.Proofs.Runs.Entry

-- The walk along a tree with a log. What is logged at which step is left to hooks, so that one walk
-- serves every log.

namespace ScriptEngine

variable {σ A ε α : Type}

-- What a checkpoint stands in front of: a round of a loop tests and runs its body, and a call or a
-- `new` takes its arguments and then enters a user function, asks a native one or builds an object.
inductive Work where
  | test | body | arguments | function | native | construction
deriving DecidableEq, Repr

-- What a user function is called by.
inductive Call where
  | method (target : Value)
  -- The object that `new` has made for the call.
  | construction (fresh : Value)
  -- The frame of the caller, or the global object outside of all calls.
  | plain (caller : ObjectRef)
  -- The object that the embedding program calls the function on.
  | host (object : ObjectRef)

def Call.receiver : Call → Value
  | method target => target
  | construction fresh => fresh
  | plain caller => .object caller
  | host object => .object object

-- What is logged. Where nothing is said, nothing is.
structure Hooks (σ A : Type) where
  -- A checkpoint comes to an ending.
  checkpoint : Machine σ → Ending Error Unit × Machine σ → List A := fun _ _ => []
  -- Work begins that the checkpoint with this reading has let pass. There is no reading for what an
  -- entry calls itself.
  began : Work → Option Nat → List A := fun _ _ => []
  -- A native function, a method or a class has come from one machine to another.
  asked : Machine σ → Machine σ → List A := fun _ _ => []
  -- `this` gives its value.
  received : Scope → Heap → List A := fun _ _ => []
  -- A value is stored at a key of a container.
  stored : Heap → Value → Value → Value → List A := fun _ _ _ _ => []
  -- A user function begins in a frame of its own.
  entered : ObjectRef → Call → List A := fun _ _ => []
  -- An act as a script that a native function runs shows it to the script around it.
  nested : A → A := id

-- What a walk with its log leaves to the level below. A function is entered for the call whose
-- checkpoint has the given reading.
structure ObservedBelow (σ A : Type) where
  enter : Option Nat → Call → Location → Closure → List Value → Scope → Logged A σ Error Value
  script : ScriptForm → String → Logged A σ Fault Value

open Logged (lift watch noted)

variable (hooks : Hooks σ A)

-- A computation that is no step of the walk itself.
def Hooks.asking (run : Run σ ε α) : Logged A σ ε α :=
  watch (fun machine => hooks.asked machine (run machine).2) run

-- Goes on behind a checkpoint with its reading.
def Hooks.guarded (host : Host σ) (location : Location) (next : Nat → Logged A σ Error α) :
    Logged A σ Error α := do
  let machine ← lift Run.get
  watch (fun machine =>
      hooks.checkpoint machine (Run.locate location (Run.checkpoint host) machine))
    (Run.locate location (Run.checkpoint host))
  next machine.readings

def Hooks.embed (logged : Logged A σ Error α) : Logged A σ Fault α :=
  (logged.mapActs hooks.nested).embed

variable (host : Host σ) (below : ObservedBelow σ A)

-- Two native functions run a script. The others leave nothing to the level below.
def Native.observed (receiver : Value) (arguments : List Value) :
    Native → Logged A σ Fault Value
  | .global .exec => do
    let heap ← lift Run.getHeap
    below.script .statements (heap.toText (argument arguments 0))
  | .global .eval => do
    let heap ← lift Run.getHeap
    below.script .expression (heap.toText (argument arguments 0))
  | native => hooks.asking (native.apply host (Below.ofFuel host 0) receiver arguments)

def observedCall (reading : Option Nat) (call : Call) (location : Location) (function : Value)
    (arguments : List Value) (method : Option String) (scope : Scope) :
    Logged A σ Error Value := do
  let heap ← lift Run.getHeap
  match heap.nativeOf? function, heap.closureOf? function, method,
    heap.instanceOf? call.receiver with
  | some native, _, _, _ =>
    noted (hooks.began .native reading)
      (Logged.locate location (native.observed hooks host below call.receiver arguments))
  | none, some closure, _, _ => below.enter reading call location closure arguments scope
  | none, none, some name, some content =>
    if content.hasMethod host name then
      noted (hooks.began .native reading)
        (Logged.locate location (hooks.asking (content.invoke host heap name arguments)))
    else
      lift (Run.fail ⟨.notAFunction, location⟩)
  | none, none, _, _ => lift (Run.fail ⟨.notAFunction, location⟩)

section Walk

variable (context : Context)

mutual

def Expr.observed : Expr → Logged A σ Error Value
  | .literal _ value => return value.toValue
  | .identifier _ name => do
    let heap ← lift Run.getHeap
    return (context.scope.find? heap name).getD .undefined
  | .receiver _ =>
    watch (fun machine => hooks.received context.scope machine.heap) do
      let heap ← Run.getHeap
      return context.scope.receiver heap
  | .dot _ target name => do
    let target ← Expr.observed target
    let heap ← lift Run.getHeap
    return heap.property target name
  | .subscript _ target index => do
    let target ← Expr.observed target
    let key ← Expr.observed index
    let heap ← lift Run.getHeap
    return heap.subscript target key
  | .unary _ operator operand => do
    let value ← Expr.observed operand
    let heap ← lift Run.getHeap
    match operator with
    | .not => return .boolean !value.isTruthy
    | .typeOf => return .string (heap.typeOf value)
  | .binary offset operator left right => do
    let a ← Expr.observed left
    let b ← Expr.observed right
    let heap ← lift Run.getHeap
    lift (Run.locate (context.at offset) (Run.ofExcept (heap.applyBinary host operator a b)))
  | .logical _ operator left right => do
    let a ← Expr.observed left
    match operator, a.isTruthy with
    | .and, false => return .boolean false
    | .or, true => return .boolean true
    | _, _ => do
      let b ← Expr.observed right
      return .boolean b.isTruthy
  | .ternary _ test yes no => do
    let test ← Expr.observed test
    if test.isTruthy then Expr.observed yes else Expr.observed no
  | .assign _ target value => do
    let value ← Expr.observed value
    Expr.observedStore target value
    return value
  | .update offset operator target value givesOld => do
    let old ← Expr.observed target
    let other ← Expr.observed value
    let heap ← lift Run.getHeap
    let new ← lift (Run.locate (context.at offset)
      (Run.ofExcept (heap.applyBinary host operator old other)))
    Expr.observedStore target new
    return if givesOld then old else new
  | .call offset (.dot _ target name) arguments => do
    let receiver ← Expr.observed target
    let machine ← lift Run.get
    let function ← lift (Run.locate (context.at offset)
      (Run.ofExcept (machine.heap.method host machine.root receiver name)))
    hooks.guarded host (context.at offset) fun reading => do
      let arguments ← noted (hooks.began .arguments reading) (Expr.observedAll arguments)
      observedCall hooks host below reading (.method receiver) (context.at offset) function
        arguments (some name) context.scope
  | .call offset callee arguments => do
    let function ← Expr.observed callee
    hooks.guarded host (context.at offset) fun reading => do
      let arguments ← noted (hooks.began .arguments reading) (Expr.observedAll arguments)
      observedCall hooks host below reading (.plain context.scope.frame) (context.at offset)
        function arguments none context.scope
  | .construct offset path arguments => do
    let heap ← lift Run.getHeap
    match context.path heap path with
    | .object class_ =>
      match (heap.object class_).closure? with
      | some closure => do
        let fresh ← lift (Run.onHeap (·.addObjectValue (heap.object class_).forFunction))
        hooks.guarded host (context.at offset) fun reading => do
          let arguments ← noted (hooks.began .arguments reading) (Expr.observedAll arguments)
          let _ ← below.enter reading (.construction fresh) (context.at offset) closure arguments
            context.scope
          return fresh
      | none =>
        hooks.guarded host (context.at offset) fun reading => do
          let arguments ← noted (hooks.began .arguments reading) (Expr.observedAll arguments)
          noted (hooks.began .construction reading) (Logged.locate (context.at offset)
            (hooks.asking (ScriptEngine.construct host (path.getLastD "") class_ arguments)))
    | _ => return .undefined
  | .object _ entries => do
    let entries ← Expr.observedEntries entries
    lift (Run.onHeap (·.addObjectValue ⟨.ordinary, Properties.empty.setAll entries⟩))
  | .array _ elements => do
    let elements ← Expr.observedAll elements
    lift (Run.onHeap (·.addArrayValue elements))
  | .function _ lambda =>
    lift (Run.onHeap (·.addObjectValue ⟨.function ⟨context.script, lambda⟩, .empty⟩))

def Expr.observedStore : Expr → Value → Logged A σ Error Unit
  | .identifier _ name, value => lift (Run.modifyHeap (context.scope.assign name value))
  | .dot offset target name, value => do
    let container ← Expr.observed target
    lift (Run.locate (context.at offset) (Run.changeHeap (·.setProperty container name value)))
  | .subscript offset target index, value => do
    let container ← Expr.observed target
    let key ← Expr.observed index
    watch (fun machine => hooks.stored machine.heap container key value) do
      Run.hold container key
      Run.locate (context.at offset) (Run.changeHeap (·.setSubscript container key value))
  | target, _ => lift (Run.fail ⟨.notAssignable, context.at target.offset⟩)

def Expr.observedAll : List Expr → Logged A σ Error (List Value)
  | [] => return []
  | first :: rest => do
    let value ← Expr.observed first
    return value :: (← Expr.observedAll rest)

def Expr.observedEntries : List (String × Expr) → Logged A σ Error (List (String × Value))
  | [] => return []
  | (key, first) :: rest => do
    let value ← Expr.observed first
    return (key, value) :: (← Expr.observedEntries rest)

end

-- Without an expression the value is undefined.
def Expr.observedOption : Option Expr → Logged A σ Error Value
  | some value => value.observed hooks host below context
  | none => return .undefined

def Expr.observedHolds : Option Expr → Logged A σ Error Bool
  | some test => do
    let value ← test.observed hooks host below context
    return value.isTruthy
  | none => return true

def Expr.observedStep : Option Expr → Logged A σ Error Unit
  | some step => do
    let _ ← step.observed hooks host below context
    return ()
  | none => return ()

-- A round of a loop. Its checkpoint lets its test and its body pass.
def Loop.observed (location : Location) (test : Logged A σ Error Bool)
    (body : Logged A σ Error Completion) (step : Logged A σ Error Unit) (testLast : Bool) :
    Logged A σ Error (Option Completion) :=
  hooks.guarded host location fun reading =>
    Loop.beyond (noted (hooks.began .test reading) test) (noted (hooks.began .body reading) body)
      step testLast

mutual

def Stmt.observed (fuel : Nat) : Stmt → Logged A σ Error Completion
  | .empty _ => return .normal
  | .block _ body => Stmt.observedAll fuel body
  | .branch _ test yes no => do
    let test ← test.observed hooks host below context
    if test.isTruthy then Stmt.observed fuel yes else Stmt.observedOption fuel no
  | .declare _ name initial => do
    let value ← Expr.observedOption hooks host below context initial
    lift (Run.modifyHeap (context.scope.declare name value))
    return .normal
  | .loop offset initial test step body testLast => do
    let _ ← Stmt.observedOption fuel initial
    Logged.repeatUntil
      (Loop.observed hooks host (context.at offset)
        (Expr.observedHolds hooks host below context test) (Stmt.observed fuel body)
        (Expr.observedStep hooks host below context step) testLast)
      fuel
  | .giveBack _ value => do
    let value ← Expr.observedOption hooks host below context value
    return .returned value
  | .breakLoop _ => return .broke
  | .continueLoop _ => return .continued
  | .expression value => do
    let _ ← value.observed hooks host below context
    return .normal

def Stmt.observedOption (fuel : Nat) : Option Stmt → Logged A σ Error Completion
  | some item => Stmt.observed fuel item
  | none => return .normal

def Stmt.observedAll (fuel : Nat) : List Stmt → Logged A σ Error Completion
  | [] => return .normal
  | first :: rest => do
    match ← Stmt.observed fuel first with
    | .normal => Stmt.observedAll fuel rest
    | completion => return completion

end

theorem Expr.observed_call {offset : Nat} {callee : Expr} {arguments : List Expr}
    (h : callee.isPlain) : (Expr.call offset callee arguments).observed hooks host below context =
      (do
        let function ← callee.observed hooks host below context
        hooks.guarded host (context.at offset) fun reading => do
          let arguments ← noted (hooks.began .arguments reading)
            (Expr.observedAll hooks host below context arguments)
          observedCall hooks host below reading (.plain context.scope.frame) (context.at offset)
            function arguments none context.scope) := by
  rw [Expr.observed]
  rintro _ _ _ rfl
  cases h

end Walk

-- The function that a closure is, run for a call in a frame on top of a scope.
def Closure.observed (fuel : Nat) (closure : Closure) (call : Call) (arguments : List Value)
    (scope : Scope) : Logged A σ Error Value := do
  let frame ← lift (Run.onHeap (·.addObject (closure.frame call.receiver arguments)))
  let context : Context := ⟨closure.script, scope.child frame⟩
  let completion ← noted (hooks.entered frame call)
    (Stmt.observedAll hooks host below context fuel closure.function.body)
  return completion.result

-- The text of a script, run against the global object.
def ScriptForm.observed (fuel : Nat) (form : ScriptForm) (text : String) :
    Logged A σ Fault Value := do
  let machine ← lift Run.get
  let context : Context := ⟨text, .ofRoot machine.root⟩
  match form with
  | .expression =>
    match Expr.read text with
    | .ok value => hooks.embed (value.observed hooks host below context)
    | .error error => lift (Run.fail (.nested ⟨text, error.offset⟩ (.malformed error.fault)))
  | .statements =>
    match Program.read text with
    | .ok program => do
      let _ ← hooks.embed (Stmt.observedAll hooks host below context fuel program.body)
      return .undefined
    | .error error => lift (Run.fail (.nested ⟨text, error.offset⟩ (.malformed error.fault)))

-- The levels of a run with their logs.
def ObservedBelow.ofFuel : Nat → ObservedBelow σ A
  | 0 => { enter := fun _ _ _ _ _ _ => lift Run.spent, script := fun _ _ => lift Run.spent }
  | fuel + 1 =>
    { enter := fun reading call location closure arguments scope => Logged.deeper location
        (noted (hooks.began .function reading)
          (closure.observed hooks host (ofFuel fuel) fuel call arguments scope))
      script := fun form text => form.observed hooks host (ofFuel fuel) fuel text }

-- The computation of an entry with its log.
def Entry.observed (fuel : Nat) (engine : Engine σ) : Entry → Logged A σ Error Unit
  | execute source =>
    match Program.read source with
    | .ok program => do
      let _ ← Stmt.observedAll hooks host below ⟨source, .ofRoot engine.root⟩ fuel program.body
      return ()
    | .error error => lift (Run.fail (.ofParse source error))
  | evaluate source =>
    match Expr.read source with
    | .ok value => do
      let _ ← value.observed hooks host below ⟨source, .ofRoot engine.root⟩
      return ()
    | .error error => lift (Run.fail (.ofParse source error))
  | callFunction name arguments =>
    match (engine.heap.get? engine.root name).filter engine.heap.isFunction with
    | some function => do
      let _ ← observedCall hooks host below none (.host engine.root) ⟨name, 0⟩ function arguments
        none (.ofRoot engine.root)
      return ()
    | none => lift (Run.fail ⟨.unknownFunction name, ⟨name, 0⟩⟩)
  | callWithin frame function arguments => do
    let _ ← observedCall hooks host below none (.host frame) ⟨"", 0⟩ function arguments none
      ((Scope.ofRoot engine.root).child frame)
    return ()

end ScriptEngine
