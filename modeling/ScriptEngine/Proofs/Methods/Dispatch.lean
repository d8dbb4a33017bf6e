import ScriptEngine.Proofs.Heap.Extension
import ScriptEngine.Proofs.Methods.Lineage

-- Method calls. The function is looked up before the arguments are evaluated, and called after them.
-- For a method that an instance declares there is no function: undefined stands for it in between.

namespace ScriptEngine

open Pairing

variable {σ : Type}

namespace Heap

-- What stands for a method that the target declares itself.
def declared? (host : Host σ) (heap : Heap) (target : Value) (name : String) : Option Value :=
  match heap.instanceOf? target with
  | some content => if content.hasMethod host name then some .undefined else none
  | none => none

variable {host : Host σ} {heap : Heap} {root : ObjectRef} {target : Value} {line : List ObjectRef}
  {name : String}

end Heap

section Instances

variable {host : Host σ} {receiver : Value} {content : Instance} {name : String}

-- The functions of the embedding program leave instances what they are.
def Host.KeepsInstances (host : Host σ) : Prop :=
  ∀ ref content, host.Keeps fun machine => (machine.heap.object ref).instance? = some content

theorem Heap.Extends.instance? {before after : Heap} (h : before.Extends after) {ref : ObjectRef}
    (hi : (before.object ref).instance? = some content) :
    (after.object ref).instance? = some content := by
  unfold Object.instance? at hi ⊢
  rwa [h.kind ref (Heap.index_lt_of_instance? hi)]

-- Machines on which an object is an instance.
def Pairing.wrapping (ref : ObjectRef) (content : Instance) : Pairing σ σ :=
  holding (fun machine => (machine.heap.object ref).instance? = some content) (fun _ => True)
    (fun _ => True) True

theorem Pairing.lawful_wrapping (hh : host.KeepsInstances) (ref : ObjectRef) (content : Instance) :
    (wrapping ref content).Lawful host host := by
  refine lawful_holding (hh ref content) (fun hc hm => ?_) (fun _ _ _ _ => trivial)
    (fun _ _ _ _ => trivial) (fun hc hm => hc.extends.instance? hm)
    (fun _ _ _ _ _ _ _ _ => trivial)
  rw [hc.heap]
  exact hm

theorem Pairing.covers_wrapping (hh : host.KeepsInstances) (ref : ObjectRef) (content : Instance)
    (fuel : Nat) (scope : Scope) :
    (wrapping ref content).Covers (Below.ofFuel host fuel) (Below.ofFuel host fuel) scope :=
  covers_holding (fun _ machine => (machine.heap.object ref).instance? = some content)
    (fun _ => lawful_wrapping hh ref content) id id 0 fuel scope

-- Evaluating arguments may run any code, and an instance stays what it is.
theorem Expr.instanceOf?_evalAll (hh : host.KeepsInstances) (fuel : Nat) (context : Context)
    (arguments : List Expr) {machine : Machine σ}
    (hi : machine.heap.instanceOf? receiver = some content) :
    (Expr.evalAll host (Below.ofFuel host fuel) context arguments machine).2.heap.instanceOf?
      receiver = some content := by
  cases receiver with
  | object ref =>
    have hmatches : (wrapping ref content).Matches
        (Expr.evalAll host (Below.ofFuel host fuel) context arguments)
        (Expr.evalAll host (Below.ofFuel host fuel) context arguments) :=
      Expr.matches_evalAll (lawful_wrapping hh ref content)
        (covers_wrapping hh ref content fuel context.scope) arguments fun _ _ => trivial
    exact (hmatches machine machine ⟨rfl, hi⟩).pairs.2
  | _ => cases hi

end Instances

section Calls

variable {host : Host σ} {below : Below σ} {context : Context} {offset : Nat} {target : Expr}
  {name : String} {arguments : List Expr} {start middle after : Machine σ}
  {receiver function : Value} {values : List Value} {content : Instance}

-- A method call up to where its function is called: the target is there, a function has been found for
-- the name, the time is not up, and the arguments have been evaluated.
structure Expr.Prepares (host : Host σ) (below : Below σ) (context : Context) (offset : Nat)
    (target : Expr) (name : String) (arguments : List Expr) (start middle after : Machine σ)
    (receiver function : Value) (values : List Value) : Prop where
  target : target.eval host below context start = (.done receiver, middle)
  function : middle.heap.method host middle.root receiver name = .ok function
  arguments : ∃ ready, Run.checkpoint host middle = (.done (), ready) ∧
    Expr.evalAll host below context arguments ready = (.done values, after)

theorem Expr.Prepares.eval_eq (h : Expr.Prepares host below context offset target name arguments
    start middle after receiver function values) (place : Nat) :
    (Expr.call offset (.dot place target name) arguments).eval host below context start =
      callValue host below (context.at offset) function receiver values (some name) context.scope
        after := by
  obtain ⟨ready, hcheck, hvalues⟩ := h.arguments
  have hfound : Run.locate (context.at offset)
      (Run.ofExcept (middle.heap.method host middle.root receiver name)) middle =
      (.done function, middle) := by
    rw [h.function]
    rfl
  have hready : Run.locate (context.at offset) (Run.checkpoint host) middle = (.done (), ready) := by
    rw [Run.locate, hcheck]
  rw [Expr.eval]
  simp only [Run.bind_apply, h.target, Run.get, hfound, hready, hvalues]

-- Neither the look at the clock nor the arguments change what the target is.
theorem Expr.Prepares.instanceOf? {fuel : Nat} (h : Expr.Prepares host (Below.ofFuel host fuel) context
    offset target name arguments start middle after receiver function values)
    (hh : host.KeepsInstances) (hi : middle.heap.instanceOf? receiver = some content) :
    after.heap.instanceOf? receiver = some content := by
  obtain ⟨ready, hcheck, hvalues⟩ := h.arguments
  have hready : ready.heap = middle.heap := by
    have hsame := Run.sameCore_checkpoint host middle
    rw [hcheck] at hsame
    exact hsame.heap
  have hkept := Expr.instanceOf?_evalAll hh fuel context arguments (hready ▸ hi)
  rwa [hvalues] at hkept

end Calls

section Sample

end Sample

end ScriptEngine
