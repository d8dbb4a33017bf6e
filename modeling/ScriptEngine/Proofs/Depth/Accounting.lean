import ScriptEngine.Host.Probe
import ScriptEngine.Proofs.Depth.Watch
import ScriptEngine.Proofs.Pairing.Invariant

-- The depth is exact. It goes up by one at the body of a user function and down again when the body
-- is left, whatever the ending, so it is bounded, it never falls below the depth at the start, and
-- the scopes keep in step with it.

namespace ScriptEngine

open Pairing

variable {σ ε α : Type}

-- The functions of the embedding program leave the depth and its bound alone.
def Host.KeepsDepth (host : Host σ) : Prop :=
  ∀ depth maxDepth, host.Keeps fun machine => machine.depth = depth ∧ machine.maxDepth = maxDepth

-- The number of scopes around the current one, beside the depth, in a run that starts at a depth with
-- a number of scopes. A script of a native function starts over with the global scope.
structure InStep (startDepth startAncestors : Nat) (nested : Bool) (depth ancestors : Nat) :
    Prop where
  exact : nested = false → ancestors + startDepth = depth + startAncestors
  bound (slack : Nat) : startAncestors ≤ startDepth + slack → ancestors ≤ depth + slack

structure Moment.Lawful (maxDepth startDepth startAncestors : Nat) (moment : Moment) : Prop where
  depth_le : moment.depth ≤ maxDepth
  -- A body is entered from a depth below the greatest one, and there is a depth to go back to.
  inside : moment.point.isInside → 0 < moment.depth ∧ moment.depth - 1 < maxDepth
  inStep : InStep startDepth startAncestors moment.nested moment.depth moment.ancestors

section InStep

variable {startDepth startAncestors depth ancestors : Nat} {nested : Bool}

theorem inStep_start : InStep startDepth startAncestors false startDepth startAncestors :=
  ⟨fun _ => Nat.add_comm _ _, fun _ h => h⟩

theorem inStep_script : InStep startDepth startAncestors true depth 0 :=
  ⟨nofun, fun _ _ => Nat.zero_le _⟩

-- A call adds a scope and a level.
theorem InStep.child (h : InStep startDepth startAncestors nested depth ancestors) :
    InStep startDepth startAncestors nested (depth + 1) (ancestors + 1) := by
  refine ⟨fun hn => ?_, fun slack hs => ?_⟩
  · have := h.exact hn
    omega
  · have := h.bound slack hs
    omega

end InStep

namespace Pairing

variable {host : Host σ} {maxDepth startDepth startAncestors depth : Nat} {nested : Bool}
  {scope : Scope}

-- A machine beside one that is watched: the same machine but for the moments, which are lawful.
def watching (maxDepth startDepth startAncestors depth : Nat) :
    Pairing σ (Watched.State σ) where
  Pairs machine machine' := machine'.mapHost Prod.fst = machine ∧
    machine'.depth = depth ∧ machine'.maxDepth = maxDepth ∧ depth ≤ maxDepth ∧
    ∀ moment ∈ machine'.host.2, moment.Lawful maxDepth startDepth startAncestors
  accepts _ := True
  admits _ := True
  spends := True

theorem matches_lift {step : Machine σ → Except ε α × Machine σ}
    (h : ∀ {machine}, machine.depth = depth ∧ machine.maxDepth = maxDepth →
      (step machine).2.depth = depth ∧ (step machine).2.maxDepth = maxDepth) :
    (watching maxDepth startDepth startAncestors depth).Matches (Run.ofStep step)
      (Run.ofStep (Watched.lift step)) := by
  rintro _ machine ⟨rfl, hdepth, hmax, hle, hlaw⟩
  obtain ⟨hdepth', hmax'⟩ := @h (machine.mapHost Prod.fst) ⟨hdepth, hmax⟩
  unfold Run.ofStep Watched.lift
  rcases hs : step (machine.mapHost Prod.fst) with ⟨result, after⟩
  rw [hs] at hdepth' hmax'
  cases result with
  | ok value => exact ends_done ⟨rfl, hdepth', hmax', hle, hlaw⟩
  | error error => exact ends_failed ⟨rfl, hdepth', hmax', hle, hlaw⟩

theorem checkpoint_mapHost (machine : Machine (Watched.State σ)) :
    Run.checkpoint host (machine.mapHost Prod.fst) =
      ((Run.checkpoint (Watched.host host) machine).1,
        (Run.checkpoint (Watched.host host) machine).2.mapHost Prod.fst) := by
  have hhear : (machine.mapHost Prod.fst).hear host =
      (machine.hear (Watched.host host)).mapHost Prod.fst := by
    change (if host.stops machine.readings then _ else _) =
      (if host.stops machine.readings then _ else _ : Machine (Watched.State σ)).mapHost Prod.fst
    split <;> rfl
  unfold Run.checkpoint
  rw [hhear]
  generalize machine.hear (Watched.host host) = heard
  dsimp only [Watched.host, Machine.mapHost]
  cases heard.deadline.check (host.clock heard.readings) <;> rfl

theorem lawful_watching (hh : host.KeepsDepth) :
    (watching maxDepth startDepth startAncestors depth).Lawful host (Watched.host host) where
  heap := by
    rintro _ machine ⟨rfl, -⟩
    rfl
  root := by
    rintro _ machine ⟨rfl, -⟩
    rfl
  closure _ _ _ _ := trivial
  native _ _ _ _ := trivial
  change := by
    rintro _ machine ⟨rfl, hm⟩ heap -
    exact ⟨rfl, hm⟩
  write := by
    rintro _ machine ⟨rfl, hm⟩ change
    exact ⟨rfl, hm⟩
  checkpoint := by
    rintro _ machine ⟨rfl, hdepth, hmax, hle, hlaw⟩
    have hsame := Run.sameCore_checkpoint (Watched.host host) machine
    rw [checkpoint_mapHost]
    refine ⟨rfl, ⟨rfl, hsame.depth.trans hdepth, hsame.maxDepth.trans hmax, hle, ?_⟩,
      fun _ => trivial⟩
    rw [hsame.host]
    exact hlaw
  call handler receiver arguments := matches_lift ((hh _ _).call handler receiver arguments)
  construct handler name arguments := matches_lift ((hh _ _).construct handler name arguments)
  builds _ _ _ _ _ _ _ _ := trivial
  invoke handler className primitive name arguments :=
    matches_lift ((hh _ _).invoke handler className primitive name arguments)
  sameValue := rfl
  hasMethod := rfl

-- What is noted is lawful, and noting it changes nothing else.
theorem pairs_note {machine : Machine σ} {machine' : Machine (Watched.State σ)} {point : Point}
    (hi : InStep startDepth startAncestors nested depth scope.depth)
    (hp : point.isInside → 0 < depth)
    (h : (watching maxDepth startDepth startAncestors depth).Pairs machine machine') :
    (watching maxDepth startDepth startAncestors depth).Pairs machine
      (Watched.note point nested scope machine') := by
  obtain ⟨rfl, rfl, hmax, hle, hlaw⟩ := h
  refine ⟨rfl, rfl, hmax, hle, fun moment hm => ?_⟩
  obtain hm | hm := List.mem_append.mp hm
  · exact hlaw moment hm
  · cases List.mem_singleton.mp hm
    refine ⟨hle, fun hinside => ?_, hi⟩
    have hpositive := hp hinside
    exact ⟨hpositive, Nat.lt_of_lt_of_le (Nat.sub_lt hpositive Nat.one_pos) hle⟩

theorem Matches.watch {first last : Point} {run : Run σ ε α} {other : Run (Watched.State σ) ε α}
    (hi : InStep startDepth startAncestors nested depth scope.depth)
    (hp : first.isInside || last.isInside → 0 < depth)
    (h : (watching maxDepth startDepth startAncestors depth).Matches run other) :
    (watching maxDepth startDepth startAncestors depth).Matches run
      (Watched.watch first last nested scope other) := by
  simp only [Bool.or_eq_true] at hp
  intro machine machine' hm
  have hfirst := pairs_note hi (fun hf => hp (.inl hf)) hm
  obtain ⟨ending, after, after', hrun, hother, hpairs, -⟩ := (h _ _ hfirst).exists_eq
  unfold Watched.watch
  rw [hrun, hother]
  exact ⟨rfl, pairs_note hi (fun hl => hp (.inr hl)) hpairs, fun _ => trivial⟩

-- Level by level. One level deeper there is one scope more.
theorem covers_watching (hh : host.KeepsDepth) (fuel : Nat)
    (hi : InStep startDepth startAncestors nested depth scope.depth) :
    (watching maxDepth startDepth startAncestors depth).Covers (Below.ofFuel host fuel)
      (Watched.below host nested fuel) scope := by
  induction fuel generalizing nested depth scope with
  | zero => exact ⟨fun _ _ _ _ _ => matches_spent trivial, fun _ _ _ => matches_spent trivial⟩
  | succ fuel ih =>
    rw [Below.ofFuel_succ, Watched.below]
    refine ⟨fun location closure receiver arguments _ => ?_, fun form text _ => ?_⟩
    · have hp : (watching maxDepth startDepth startAncestors (depth + 1)).Lawful host
          (Watched.host host) := lawful_watching hh
      have hframe : (watching maxDepth startDepth startAncestors (depth + 1)).Matches
          (Run.onHeap (·.addObject (closure.frame receiver arguments)) : Run σ Error ObjectRef)
          (Run.onHeap (·.addObject (closure.frame receiver arguments))) :=
        hp.onHeap fun heap => .addObject _ nofun
      dsimp only
      refine .watch hi nofun (.deeper
        (?_ : (watching maxDepth startDepth startAncestors (depth + 1)).Matches _ _) id ?_ ?_)
      · refine hframe.bind fun frame => ?_
        have hchild : InStep startDepth startAncestors nested (depth + 1)
          (scope.child frame).depth := hi.child
        refine .bind (.watch hchild (fun _ => Nat.succ_pos depth) ?_) fun completion => ?_
        · exact Stmt.matches_execAll hp (ih hchild) _ (fun _ => ⟨rfl, trivial⟩) fun _ _ => trivial
        · cases completion <;> exact matches_pure _
      · rintro _ machine ⟨rfl, rfl, rfl, -, hlaw⟩
        exact ⟨rfl, rfl, fun hlt => ⟨rfl, rfl, rfl, hlt, hlaw⟩⟩
      · rintro _ machine ⟨rfl, hdepth, rfl, hle, hlaw⟩
        exact ⟨rfl, congrArg (· - 1) hdepth, rfl, Nat.le_of_succ_le hle, hlaw⟩
    · intro machine machine' hm
      have hroot (root : ObjectRef) :
          InStep startDepth startAncestors true depth (Scope.ofRoot root).depth := inStep_script
      have hrun : (watching maxDepth startDepth startAncestors depth).Matches
          (form.run host (Below.ofFuel host fuel) fuel text)
          (form.run (Watched.host host) (Watched.below host true fuel) fuel text) :=
        form.matches_run (lawful_watching hh) (fun root => ih (hroot root)) text ⟨rfl, trivial⟩
          fun _ => trivial
      have hwatch : (watching maxDepth startDepth startAncestors depth).Matches _
          (Watched.watch .opened .closed true (.ofRoot machine'.root) _) :=
        hrun.watch (hroot machine'.root) nofun
      exact hwatch machine machine' hm

end Pairing

namespace Task

variable {host : Host σ}

theorem matches_run {fuel : Nat} {pairing : Pairing σ (Watched.State σ)} {below : Below σ}
    {below' : Below (Watched.State σ)} (hp : pairing.Lawful host (Watched.host host))
    (ha : ∀ closure, pairing.accepts closure) (hs : pairing.spends) (task : Task)
    (hb : pairing.Covers below below' task.scope) :
    pairing.Matches (task.run host below fuel) (task.run (Watched.host host) below' fuel) := by
  cases task with
  | execute context item =>
    refine .bind ?_ fun _ => matches_pure _
    exact item.matches_exec hp hb (fun _ => ⟨rfl, hs⟩) fun _ _ => ha _
  | evaluate context value =>
    refine .bind ?_ fun _ => matches_pure _
    exact value.matches_eval hp hb fun _ _ => ha _
  | call location function receiver arguments method scope =>
    refine .bind ?_ fun _ => matches_pure _
    exact matches_callValue hp hb _ _ _ _ _

-- A task comes back at the depth at which it began, however it ends. On the way the depth is never
-- above its bound, a body is left at a depth to go back from, and the scopes are in step. A call at
-- the greatest depth fails before anything is done.
theorem depth_run (hh : host.KeepsDepth) (fuel : Nat) (task : Task) (machine : Machine σ)
    (hd : machine.depth ≤ machine.maxDepth) :
    (task.record host fuel machine).2 = task.run host (Below.ofFuel host fuel) fuel machine ∧
    (task.run host (Below.ofFuel host fuel) fuel machine).2.depth = machine.depth ∧
    (∀ moment ∈ (task.record host fuel machine).1,
      moment.Lawful machine.maxDepth machine.depth task.scope.depth) ∧
    ∀ (location : Location) (closure : Closure) (receiver : Value) (arguments : List Value)
      (scope : Scope) (full : Machine σ), full.maxDepth ≤ full.depth →
        ∃ error : Error, error.kind = .rangeError ∧
          error.message = "Maximum call stack size exceeded" ∧
          (Below.ofFuel host (fuel + 1)).enter location closure receiver arguments scope full =
            (.failed error, full) := by
  have hmatches : (watching machine.maxDepth machine.depth task.scope.depth machine.depth).Matches
      (task.run host (Below.ofFuel host fuel) fuel)
      (task.run (Watched.host host) (Watched.below host false fuel) fuel) :=
    matches_run (lawful_watching hh) (fun _ => trivial) trivial task
      (covers_watching hh fuel inStep_start)
  obtain ⟨hsame, ⟨hmachine, hdepth, -, -, hlaw⟩, -⟩ :=
    hmatches machine (machine.mapHost fun state => (state, [])) ⟨rfl, rfl, rfl, hd, nofun⟩
  refine ⟨Prod.ext hsame hmachine, ?_, hlaw, ?_⟩
  · rw [← hmachine]
    exact hdepth
  · intro location closure receiver arguments scope full hfull
    rw [Below.ofFuel_succ]
    refine ⟨⟨.callDepthExceeded, location⟩, rfl, rfl, ?_⟩
    dsimp only
    rw [Run.deeper_of_le hfull]

section Sample

-- The functions of the probe do not touch the depth.
theorem keepsDepth_probe : Probe.host.KeepsDepth := fun depth maxDepth =>
  Probe.keeps (P := fun _ _ d m => d = depth ∧ m = maxDepth) fun _ hm => hm

-- Two levels of calls at most, and a function that calls itself from an inner script.
def descending : Engine Probe.State :=
  let engine := Engine.create { installStandard := false, maxDepth := 2 } default
  ((engine.registerNative "exec" (.global .exec)).execute Probe.host 10
    "function f() \x7b exec(\"f();\"); \x7d").2

def descent : Task :=
  .evaluate ⟨"f()", .ofRoot descending.root⟩ (.call 0 (.identifier 0 "f") [])

-- The third call is refused. All the calls come back, and the scopes start over in every script.
theorem depth_descent : Probe.host.KeepsDepth ∧
    descending.machine.depth ≤ descending.machine.maxDepth ∧
    (descent.run Probe.host (Below.ofFuel Probe.host 10) 10 descending.machine).2.depth =
      descending.machine.depth ∧
    (descent.record Probe.host 10 descending.machine).1 =
      [⟨.called, 0, 0, false⟩, ⟨.entered, 1, 1, false⟩, ⟨.opened, 1, 0, true⟩,
        ⟨.called, 1, 0, true⟩, ⟨.entered, 2, 1, true⟩, ⟨.opened, 2, 0, true⟩,
        ⟨.called, 2, 0, true⟩, ⟨.cameBack, 2, 0, true⟩, ⟨.closed, 2, 0, true⟩,
        ⟨.left, 2, 1, true⟩, ⟨.cameBack, 1, 0, true⟩, ⟨.closed, 1, 0, true⟩,
        ⟨.left, 1, 1, false⟩, ⟨.cameBack, 0, 0, false⟩] := by
  have hd : descending.machine.depth ≤ descending.machine.maxDepth := by decide +kernel
  have hrun := depth_run keepsDepth_probe 10 descent descending.machine hd
  exact ⟨keepsDepth_probe, hd, hrun.2.1, by decide +kernel⟩

end Sample

end Task

end ScriptEngine
