import ScriptEngine.Host.Probe
import ScriptEngine.Proofs.Pairing.Walk

-- A machine beside itself: what a run keeps, from its steps up to the entries of an engine.

namespace ScriptEngine

open Pairing

variable {σ τ : Type}

-- The functions of the embedding program leave machines with the property such machines.
structure Host.Keeps (host : Host σ) (holds : Machine σ → Prop) : Prop where
  call {machine} (handler : Handler) (receiver : Value) (arguments : List Value) :
    holds machine → holds (host.call handler receiver arguments machine).2
  construct {machine} (handler : Handler) (name : String) (arguments : List Value) :
    holds machine → holds (host.construct handler name arguments machine).2
  invoke {machine} (handler : Handler) (className : String) (primitive : Value) (name : String)
    (arguments : List Value) :
    holds machine → holds (host.invoke handler className primitive name arguments machine).2

-- It is enough to know what a function may do to any machine that it is called on.
theorem Host.keeps_of_step {host : Host σ} {step : Machine σ → Machine σ → Prop}
    {holds : Machine σ → Prop} (hh : ∀ machine, host.Keeps (step machine))
    (hself : ∀ machine, step machine machine)
    (hstep : ∀ {machine after}, holds machine → step machine after → holds after) :
    host.Keeps holds where
  call _ _ _ hm := hstep hm ((hh _).call _ _ _ (hself _))
  construct _ _ _ hm := hstep hm ((hh _).construct _ _ _ (hself _))
  invoke _ _ _ _ _ hm := hstep hm ((hh _).invoke _ _ _ _ _ (hself _))

-- The functions of the probe add arrays at most, and they touch neither the root nor the depth.
theorem Probe.keeps {P : Heap → ObjectRef → Nat → Nat → Prop}
    (harray : ∀ {heap root depth maxDepth} elements, P heap root depth maxDepth →
      P (heap.addArray elements).2 root depth maxDepth) :
    Probe.host.Keeps fun machine =>
      P machine.heap machine.root machine.depth machine.maxDepth := by
  refine ⟨fun {machine} handler receiver arguments hm => ?_,
    fun {machine} handler name arguments hm => ?_, fun _ _ _ _ _ hm => hm⟩
  · have hcall : P (Probe.call handler receiver arguments machine).2.heap
        (Probe.call handler receiver arguments machine).2.root
        (Probe.call handler receiver arguments machine).2.depth
        (Probe.call handler receiver arguments machine).2.maxDepth := by
      unfold Probe.call
      split
      · exact harray _ hm
      all_goals exact hm
    exact hcall
  · have hconstruct : (Probe.host.construct handler name arguments machine).2 = machine := by
      change (Probe.construct handler name arguments machine).2 = machine
      unfold Probe.construct
      split <;> rfl
    rw [hconstruct]
    exact hm

-- The part of a machine that texts and readings of the clock leave alone.
structure Machine.SameCore (machine after : Machine σ) : Prop where
  heap : after.heap = machine.heap
  root : after.root = machine.root
  depth : after.depth = machine.depth
  maxDepth : after.maxDepth = machine.maxDepth
  host : after.host = machine.host

theorem Machine.sameCore_hear (host : Host σ) (machine : Machine σ) :
    machine.SameCore (machine.hear host) := by
  unfold Machine.hear
  split <;> exact ⟨rfl, rfl, rfl, rfl, rfl⟩

theorem Run.sameCore_checkpoint (host : Host σ) (machine : Machine σ) :
    machine.SameCore (Run.checkpoint host machine).2 := by
  have hhear := machine.sameCore_hear host
  unfold Run.checkpoint
  dsimp only
  split <;> exact ⟨hhear.heap, hhear.root, hhear.depth, hhear.maxDepth, hhear.host⟩

-- Every machine with a property beside itself.
def Pairing.holding (holds : Machine σ → Prop) (accepts : Closure → Prop) (admits : Native → Prop)
    (spends : Prop) : Pairing σ σ where
  Pairs machine machine' := machine = machine' ∧ holds machine
  accepts := accepts
  admits := admits
  spends := spends

section Holding

variable {host : Host σ} {holds : Machine σ → Prop} {accepts : Closure → Prop}
  {admits : Native → Prop} {spends : Prop}

theorem Pairing.matches_ofStep {ε α : Type} {step : Machine σ → Except ε α × Machine σ}
    (h : ∀ {machine}, holds machine → holds (step machine).2) :
    (holding holds accepts admits spends).Matches (Run.ofStep step) (Run.ofStep step) := by
  rintro machine _ ⟨rfl, hm⟩
  have hafter := h hm
  unfold Run.ofStep
  rcases hs : step machine with ⟨result, after⟩
  rw [hs] at hafter
  cases result with
  | ok value => exact ends_done ⟨rfl, hafter⟩
  | error error => exact ends_failed ⟨rfl, hafter⟩

theorem Pairing.lawful_holding (hhost : host.Keeps holds)
    (hcore : ∀ {machine after}, machine.SameCore after → holds machine → holds after)
    (hclosure : ∀ {machine}, holds machine → ∀ {ref closure},
      (machine.heap.object ref).closure? = some closure → accepts closure)
    (hnative : ∀ {machine}, holds machine → ∀ {ref native},
      machine.heap.native? ref = some native → admits native)
    (hchange : ∀ {machine heap}, machine.heap.Change accepts heap → holds machine →
      holds { machine with heap })
    (hbuilds : ∀ {machine}, holds machine → ∀ {handler name arguments object closure},
      (host.construct handler name arguments machine).1 = .ok object →
        object.kind = .function closure → accepts closure) :
    (holding holds accepts admits spends).Lawful host host where
  heap := by
    rintro machine _ ⟨rfl, -⟩
    rfl
  root := by
    rintro machine _ ⟨rfl, -⟩
    rfl
  closure := by
    rintro machine _ ⟨rfl, hm⟩
    exact hclosure hm
  native := by
    rintro machine _ ⟨rfl, hm⟩
    exact hnative hm
  change := by
    rintro machine _ ⟨rfl, hm⟩ heap hc
    exact ⟨rfl, hchange hc hm⟩
  write := by
    rintro machine _ ⟨rfl, hm⟩ change
    have hsame : machine.SameCore { machine with transcript := change machine.transcript } :=
      ⟨rfl, rfl, rfl, rfl, rfl⟩
    exact ⟨rfl, hcore hsame hm⟩
  checkpoint := by
    rintro machine _ ⟨rfl, hm⟩
    have hafter := hcore (Run.sameCore_checkpoint host machine) hm
    refine ⟨rfl, ⟨rfl, hafter⟩, ?_⟩
    unfold Run.checkpoint
    dsimp only
    split <;> exact nofun
  call handler receiver arguments := matches_ofStep (hhost.call handler receiver arguments)
  construct handler name arguments := matches_ofStep (hhost.construct handler name arguments)
  builds := by
    rintro machine _ ⟨rfl, hm⟩
    exact hbuilds hm
  invoke handler className primitive name arguments :=
    matches_ofStep (hhost.invoke handler className primitive name arguments)
  sameValue := rfl
  hasMethod := rfl

-- A property that entering a level and leaving it carry over holds on all levels, whatever functions
-- there are.
theorem Pairing.covers_holding (holds : Nat → Machine σ → Prop)
    (hp : ∀ level, (holding (holds level) (fun _ => True) (fun _ => True) True).Lawful host host)
    (hin : ∀ {level machine}, holds level machine →
      holds (level + 1) { machine with depth := machine.depth + 1 })
    (hout : ∀ {level machine}, holds (level + 1) machine →
      holds level { machine with depth := machine.depth - 1 })
    (level fuel : Nat) (scope : Scope) :
    (holding (holds level) (fun _ => True) (fun _ => True) True).Covers
      (Below.ofFuel host fuel) (Below.ofFuel host fuel) scope := by
  induction fuel generalizing level scope with
  | zero => exact ⟨fun _ _ _ _ _ => matches_spent trivial, fun _ _ _ => matches_spent trivial⟩
  | succ fuel ih =>
    rw [Below.ofFuel_succ]
    refine ⟨fun location closure receiver arguments _ => ?_, fun form text _ => ?_⟩
    · refine closure.matches_enter (hp (level + 1)) (fun frame => ih _ (scope.child frame))
        (fun _ => ⟨rfl, trivial⟩) (fun _ _ => trivial) id ?_ ?_
      · rintro machine _ ⟨rfl, hm⟩
        exact ⟨rfl, rfl, fun _ => ⟨rfl, hin hm⟩⟩
      · rintro machine _ ⟨rfl, hm⟩
        exact ⟨rfl, hout hm⟩
    · exact form.matches_run (hp level) (fun root => ih _ (.ofRoot root)) text ⟨rfl, trivial⟩
        fun _ => trivial

end Holding

namespace Entry

-- What is asked of the text of an entry: of its loops, if it has any, and of its functions.
def Meets (loops : Prop) (accepts : Closure → Prop) : Entry → Prop
  | execute source => ∀ program, Program.read source = .ok program →
    (Stmt.anyLoop program.body = true → loops) ∧
      ∀ literal ∈ program.functions, accepts ⟨source, literal⟩
  | evaluate source => ∀ value, Expr.read source = .ok value →
    ∀ literal ∈ value.functions, accepts ⟨source, literal⟩
  | callFunction _ _ | callWithin _ _ _ => True

theorem matches_run {pairing : Pairing σ σ} {host : Host σ} {below below' : Below σ}
    {fuel fuel' : Nat} (hp : pairing.Lawful host host)
    (hb : ∀ scope, pairing.Covers below below' scope) (engine : Engine σ) (entry : Entry)
    (hm : entry.Meets (fuel' = fuel ∧ pairing.spends) pairing.accepts) :
    pairing.Matches (entry.run host below fuel engine) (entry.run host below' fuel' engine) := by
  cases entry with
  | execute source =>
    simp only [run]
    cases hr : Program.read source with
    | ok program =>
      obtain ⟨hl, hf⟩ := hm program hr
      refine .bind ?_ fun _ => matches_pure _
      exact Stmt.matches_execAll hp (hb _) program.body hl hf
    | error error => exact matches_fail _
  | evaluate source =>
    simp only [run]
    cases hr : Expr.read source with
    | ok value =>
      refine .bind ?_ fun _ => matches_pure _
      exact value.matches_eval hp (hb _) (hm value hr)
    | error error => exact matches_fail _
  | callFunction name arguments =>
    simp only [run]
    cases (engine.heap.get? engine.root name).filter engine.heap.isFunction with
    | some function => exact (matches_callValue hp (hb _) _ _ _ _ _).bind fun _ => matches_pure _
    | none => exact matches_fail _
  | callWithin frame function arguments =>
    exact (matches_callValue hp (hb _) _ _ _ _ _).bind fun _ => matches_pure _

end Entry

end ScriptEngine
