import ScriptEngine.Engine
import ScriptEngine.Proofs.Runs.Computation

-- The parts of a run that have no name in the evaluator: calls of functions that are no methods, the
-- body of a function, a script that is run by a native function, and the entries of an engine, of
-- which each is one computation on a machine that starts anew.

namespace ScriptEngine

variable {σ : Type}

-- A callee that is not a method.
def Expr.isPlain : Expr → Bool
  | .dot _ _ _ => false
  | _ => true

theorem Expr.eval_call {host : Host σ} {below : Below σ} {context : Context} {offset : Nat}
    {callee : Expr} {arguments : List Expr} (h : callee.isPlain) :
    (Expr.call offset callee arguments).eval host below context = (do
      let function ← callee.eval host below context
      Run.locate (context.at offset) (Run.checkpoint host)
      let arguments ← Expr.evalAll host below context arguments
      callValue host below (context.at offset) function (.object context.scope.frame) arguments
        none context.scope) := by
  rw [Expr.eval]
  rintro _ _ _ rfl
  cases h

-- What a body gives back that ends so.
def Completion.result : Completion → Value
  | returned value => value
  | _ => .undefined

-- The function that a closure is, run with a receiver and arguments in a frame on top of a scope.
def Closure.run (host : Host σ) (below : Below σ) (fuel : Nat) (closure : Closure)
    (receiver : Value) (arguments : List Value) (scope : Scope) : Run σ Error Value := do
  let frame ← Run.onHeap (·.addObject (closure.frame receiver arguments))
  let context : Context := ⟨closure.script, scope.child frame⟩
  match ← Stmt.execAll host below fuel context closure.function.body with
  | .returned value => return value
  | _ => return .undefined

-- The text of a script, run against the global object.
def ScriptForm.run (host : Host σ) (below : Below σ) (fuel : Nat) (form : ScriptForm)
    (text : String) : Run σ Fault Value := do
  let machine ← Run.get
  let context : Context := ⟨text, .ofRoot machine.root⟩
  match form with
  | .expression =>
    match Expr.read text with
    | .ok value => Run.embed (value.eval host below context)
    | .error error => Run.fail (.nested ⟨text, error.offset⟩ (.malformed error.fault))
  | .statements =>
    match Program.read text with
    | .ok program => do
      let _ ← Run.embed (Stmt.execAll host below fuel context program.body)
      return .undefined
    | .error error => Run.fail (.nested ⟨text, error.offset⟩ (.malformed error.fault))

theorem Below.ofFuel_succ (host : Host σ) (fuel : Nat) : Below.ofFuel host (fuel + 1) =
    { enter := fun location closure receiver arguments scope => Run.deeper location
        (closure.run host (Below.ofFuel host fuel) fuel receiver arguments scope)
      script := fun form text => form.run host (Below.ofFuel host fuel) fuel text } := rfl

-- The ways into an engine.
inductive Entry where
  | execute (source : String)
  | evaluate (source : String)
  | callFunction (name : String) (arguments : List Value)
  | callWithin (frame : ObjectRef) (function : Value) (arguments : List Value)

namespace Entry

-- Whether the entry calls a function itself.
def calls : Entry → Bool
  | execute _ | evaluate _ => false
  | callFunction _ _ | callWithin _ _ _ => true

def perform (host : Host σ) (fuel : Nat) (engine : Engine σ) : Entry → Ending Error Unit × Engine σ
  | execute source => engine.execute host fuel source
  | evaluate source => (engine.evaluate host fuel source).map Ending.forget id
  | callFunction name arguments =>
    (engine.callFunction host fuel name arguments).map Ending.forget id
  | callWithin frame function arguments =>
    (engine.callWithin host fuel frame function arguments).map Ending.forget id

-- The computation of an entry once the machine has started anew.
def run (host : Host σ) (below : Below σ) (fuel : Nat) (engine : Engine σ) :
    Entry → Run σ Error Unit
  | execute source =>
    match Program.read source with
    | .ok program => do
      let _ ← Stmt.execAll host below fuel ⟨source, .ofRoot engine.root⟩ program.body
      return ()
    | .error error => Run.fail (.ofParse source error)
  | evaluate source =>
    match Expr.read source with
    | .ok value => do
      let _ ← value.eval host below ⟨source, .ofRoot engine.root⟩
      return ()
    | .error error => Run.fail (.ofParse source error)
  | callFunction name arguments =>
    match (engine.heap.get? engine.root name).filter engine.heap.isFunction with
    | some function => do
      let _ ← callValue host below ⟨name, 0⟩ function (.object engine.root) arguments none
        (.ofRoot engine.root)
      return ()
    | none => Run.fail ⟨.unknownFunction name, ⟨name, 0⟩⟩
  | callWithin frame function arguments => do
    let _ ← callValue host below ⟨"", 0⟩ function (.object frame) arguments none
      ((Scope.ofRoot engine.root).child frame)
    return ()

variable {host : Host σ} {engine : Engine σ}

theorem enter_forget {α : Type} (run : Run σ Error α) :
    engine.enter host (run >>= fun _ => pure ()) =
      (engine.enter host run).map Ending.forget id := by
  unfold Engine.enter
  rw [Run.bind_apply]
  rcases run (engine.machine.restart host engine.timeout) with ⟨ending, machine⟩
  cases ending <;> rfl

theorem perform_eq_run (host : Host σ) (fuel : Nat) (engine : Engine σ) (entry : Entry) :
    entry.perform host fuel engine =
      engine.enter host (entry.run host (Below.ofFuel host fuel) fuel engine) := by
  cases entry with
  | execute source => rfl
  | evaluate source =>
    simp only [perform, run, Engine.evaluate]
    cases Expr.read source with
    | ok value => exact (enter_forget _).symm
    | error error => rfl
  | callFunction name arguments =>
    simp only [perform, run, Engine.callFunction]
    cases (engine.heap.get? engine.root name).filter engine.heap.isFunction with
    | some function => exact (enter_forget _).symm
    | none => rfl
  | callWithin frame function arguments => exact (enter_forget _).symm

end Entry

end ScriptEngine
