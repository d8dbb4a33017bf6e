import ScriptEngine.Proofs.Logging.Log
import ScriptEngine.Proofs.Runs.Entry

-- The walk along the statements of a body with a log, and its agreement with the walk. What the
-- functions do that the body calls stands in logs of their own.

namespace ScriptEngine

variable {σ : Type}

inductive Deed where
  -- A statement begins, or an expression that stands in one. Its parts are evaluated within it.
  | statement (offset : Nat)
  | expression (offset : Nat)
  -- A `return` has its value.
  | returned (value : Value)

def Deed.returned? : Deed → Option Value
  | returned value => some value
  | _ => none

structure Act where
  deed : Deed
  -- The number of loop initialisers that it stands in.
  initials : Nat

open Logged (noting lift)

variable (host : Host σ) (below : Below σ) (context : Context)

def Expr.logged (initials : Nat) (value : Expr) : Logged Act σ Error Value :=
  noting ⟨.expression value.offset, initials⟩ (lift (value.eval host below context))

def Expr.loggedHolds (initials : Nat) : Option Expr → Logged Act σ Error Bool
  | some test => do
    let value ← test.logged host below context initials
    return value.isTruthy
  | none => return true

def Expr.loggedStep (initials : Nat) : Option Expr → Logged Act σ Error Unit
  | some step => do
    let _ ← step.logged host below context initials
    return ()
  | none => return ()

-- Without an expression the value is undefined.
def Expr.loggedOption (initials : Nat) : Option Expr → Logged Act σ Error Value
  | some value => value.logged host below context initials
  | none => return .undefined

mutual

-- Runs a statement that stands in a number of loop initialisers.
def Stmt.logged (fuel : Nat) : Nat → Stmt → Logged Act σ Error Completion
  | initials, .empty offset => noting ⟨.statement offset, initials⟩ (return .normal)
  | initials, .block offset body => noting ⟨.statement offset, initials⟩
    (Stmt.loggedAll fuel initials body)
  | initials, .branch offset test yes no => noting ⟨.statement offset, initials⟩ do
    let test ← test.logged host below context initials
    if test.isTruthy then Stmt.logged fuel initials yes else Stmt.loggedOption fuel initials no
  | initials, .declare offset name initial => noting ⟨.statement offset, initials⟩ do
    let value ← Expr.loggedOption host below context initials initial
    lift (Run.modifyHeap (context.scope.declare name value))
    return .normal
  | initials, .loop offset initial test step body testLast =>
    noting ⟨.statement offset, initials⟩ do
      let _ ← Stmt.loggedOption fuel (initials + 1) initial
      Logged.repeatUntil
        (Loop.logged (Run.locate (context.at offset) (Run.checkpoint host))
          (Expr.loggedHolds host below context initials test) (Stmt.logged fuel initials body)
          (Expr.loggedStep host below context initials step) testLast)
        fuel
  | initials, .giveBack offset value => noting ⟨.statement offset, initials⟩ do
    let value ← Expr.loggedOption host below context initials value
    noting ⟨.returned value, initials⟩ (return .returned value)
  | initials, .breakLoop offset => noting ⟨.statement offset, initials⟩ (return .broke)
  | initials, .continueLoop offset => noting ⟨.statement offset, initials⟩ (return .continued)
  | initials, .expression value => noting ⟨.statement value.offset, initials⟩ do
    let _ ← value.logged host below context initials
    return .normal

def Stmt.loggedOption (fuel : Nat) : Nat → Option Stmt → Logged Act σ Error Completion
  | initials, some item => Stmt.logged fuel initials item
  | _, none => return .normal

def Stmt.loggedAll (fuel : Nat) : Nat → List Stmt → Logged Act σ Error Completion
  | _, [] => return .normal
  | initials, first :: rest => do
    match ← Stmt.logged fuel initials first with
    | .normal => Stmt.loggedAll fuel initials rest
    | completion => return completion

end

-- A function with what its body does in one invocation.
def Closure.logged (fuel : Nat) (closure : Closure) (receiver : Value) (arguments : List Value)
    (scope : Scope) : Logged Act σ Error Value := do
  let frame ← lift (Run.onHeap (·.addObject (closure.frame receiver arguments)))
  let context : Context := ⟨closure.script, scope.child frame⟩
  let completion ← Stmt.loggedAll host below context fuel 0 closure.function.body
  return completion.result

section Erase

variable {host below context}

@[simp] theorem Expr.erase_logged (initials : Nat) (value : Expr) :
    (value.logged host below context initials).erase = value.eval host below context := rfl

@[simp] theorem Expr.erase_loggedHolds (initials : Nat) (test : Option Expr) :
    (Expr.loggedHolds host below context initials test).erase =
      Expr.holds host below context test := by
  cases test <;> simp [Expr.loggedHolds, Expr.holds]

mutual

@[simp] theorem Stmt.erase_logged (fuel initials : Nat) (item : Stmt) :
    (item.logged host below context fuel initials).erase = item.exec host below fuel context := by
  cases item with
  | empty _ | breakLoop _ | continueLoop _ => simp [Stmt.logged, Stmt.exec]
  | block _ body => simp [Stmt.logged, Stmt.exec, Stmt.erase_loggedAll _ _ body]
  | branch _ test yes no =>
    cases no
    all_goals
      simp only [Stmt.logged, Stmt.exec, Logged.erase_noting, Logged.erase_bind, Expr.erase_logged]
      congr 1
      funext value
      cases value.isTruthy <;> simp [Stmt.loggedOption, Stmt.erase_logged]
  | declare _ _ initial => cases initial <;> simp [Stmt.logged, Stmt.exec, Expr.loggedOption]
  | loop _ initial test step body _ =>
    cases initial <;> cases step <;>
      simp [Stmt.logged, Stmt.loggedOption, Stmt.exec, Expr.loggedStep, Loop.erase_logged,
        Stmt.erase_logged]
  | giveBack _ value =>
    cases value with
    | none => rfl
    | some value => simp [Stmt.logged, Stmt.exec, Expr.loggedOption]
  | expression value => simp [Stmt.logged, Stmt.exec]

@[simp] theorem Stmt.erase_loggedAll (fuel initials : Nat) (body : List Stmt) :
    (Stmt.loggedAll host below context fuel initials body).erase =
      Stmt.execAll host below fuel context body := by
  cases body with
  | nil => simp [Stmt.loggedAll, Stmt.execAll]
  | cons first rest =>
    simp only [Stmt.loggedAll, Stmt.execAll, Logged.erase_bind, Stmt.erase_logged _ _ first]
    congr 1
    funext completion
    cases completion with
    | normal => exact Stmt.erase_loggedAll fuel initials rest
    | _ => rfl

end

-- An invocation is one without its log, in a scope of its own and one level deeper.
theorem Below.enter_eq_logged (fuel : Nat) (location : Location) (closure : Closure)
    (receiver : Value) (arguments : List Value) (scope : Scope) :
    (Below.ofFuel host (fuel + 1)).enter location closure receiver arguments scope =
      Run.deeper location
        (closure.logged host (Below.ofFuel host fuel) fuel receiver arguments scope).erase := by
  simp only [Below.ofFuel, Closure.logged, Logged.erase_bind, Logged.erase_lift,
    Stmt.erase_loggedAll]
  congr 2
  funext frame
  congr 1
  funext completion
  cases completion <;> rfl

end Erase

end ScriptEngine
