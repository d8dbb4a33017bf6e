import ScriptEngine.Proofs.Arena.FlatWalk
import ScriptEngine.Proofs.Faults.SyntaxErrors

-- Every function on the heap of an engine stands in a script that has been read, and running what
-- has been read raises no syntax error. The walk along flat storage, where it could come to a
-- statement in place of an expression or to no node at all, never does.

namespace ScriptEngine

open Pairing

variable {σ : Type}

-- The function is one of those of the program or the expression that its script spells.
def Closure.Parsed (closure : Closure) : Prop :=
  (∃ program, Program.read closure.script = .ok program ∧
    closure.function ∈ program.functions) ∨
  ∃ value, Expr.read closure.script = .ok value ∧ closure.function ∈ value.functions

-- So are the functions inside of its body.
theorem Closure.Parsed.inside {script : String} {literal inner : Function}
    (h : Closure.Parsed ⟨script, literal⟩) (hm : inner ∈ Stmt.functionsOfAll literal.body) :
    Closure.Parsed ⟨script, inner⟩ := by
  have hi : inner ∈ literal.functions := by
    cases literal
    exact List.mem_cons_of_mem _ hm
  obtain ⟨program, hr, hf⟩ | ⟨value, hr, hf⟩ := h
  · exact .inl ⟨program, hr, Stmt.functionsOfAll_trans hi program.body hf⟩
  · exact .inr ⟨value, hr, value.functions_trans hi hf⟩

namespace Heap

def Parsed (heap : Heap) : Prop :=
  ∀ (ref : ObjectRef) (closure : Closure), (heap.object ref).closure? = some closure →
    closure.Parsed

theorem Parsed.change {heap after : Heap} (h : heap.Parsed)
    (hc : heap.Change Closure.Parsed after) : after.Parsed :=
  fun ref closure hclosure => (hc.closure hclosure).elim (h ref closure) id

theorem Parsed.set {heap : Heap} (h : heap.Parsed) (ref : ObjectRef) (name : String)
    (value : Value) : (heap.set ref name value).Parsed :=
  h.change (.set ref name value)

theorem Parsed.installNatives {heap : Heap} (h : heap.Parsed) (ref : ObjectRef)
    (natives : List (String × Native)) : (heap.installNatives ref natives).Parsed := by
  unfold Heap.installNatives
  induction natives generalizing heap with
  | nil => exact h
  | cons first rest ih =>
    have hadded : (heap.addNative first.2).2.Parsed := h
    exact ih (hadded.set ref first.1 _)

theorem parsed_empty : Heap.empty.Parsed := by
  intro ref closure h
  simp [Heap.object, Heap.empty, Object.closure?, Object.empty] at h

end Heap

theorem Blueprint.parsed_build (blueprint : Blueprint) {heap : Heap} (h : heap.Parsed) :
    (blueprint.build heap).2.Parsed := by
  unfold Blueprint.build
  refine Heap.Parsed.installNatives (h.change (.addObject _ fun closure hk => ?_)) _ _
  dsimp only at hk
  split at hk <;> cases hk

theorem Registry.parsed_install (registry : Registry) {heap : Heap} (h : heap.Parsed)
    (root : ObjectRef) : (registry.install heap root).Parsed := by
  have hconstants (constants : List (String × Value)) {heap : Heap} (h : heap.Parsed) :
      (constants.foldl (fun heap entry => heap.set root entry.1 entry.2) heap).Parsed := by
    induction constants generalizing heap with
    | nil => exact h
    | cons first rest ih => exact ih (h.set root _ _)
  have hobjects (objects : List Blueprint) {heap : Heap} (h : heap.Parsed) :
      (objects.foldl (fun heap blueprint =>
        (blueprint.build heap).2.set root blueprint.name (.object (blueprint.build heap).1))
        heap).Parsed := by
    induction objects generalizing heap with
    | nil => exact h
    | cons first rest ih => exact ih ((first.parsed_build h).set root _ _)
  exact hobjects _ ((hconstants _ h).installNatives root _)

-- The functions of the embedding program bring no functions but parsed ones.
structure Host.KeepsParsed (host : Host σ) : Prop where
  keeps : host.Keeps fun machine => machine.heap.Parsed
  builds {machine : Machine σ} {handler name arguments object closure} :
    machine.heap.Parsed → (host.construct handler name arguments machine).1 = .ok object →
      object.kind = .function closure → closure.Parsed

section Run

variable {host : Host σ}

-- Machines with nothing but parsed functions.
def Pairing.parsed : Pairing σ σ :=
  holding (fun machine => machine.heap.Parsed) Closure.Parsed (fun _ => True) True

theorem Pairing.lawful_parsed (hh : host.KeepsParsed) : parsed.Lawful host host := by
  refine lawful_holding hh.keeps (fun hc hm => ?_) (fun hm _ _ h => hm _ _ h)
    (fun _ _ _ _ => trivial) (fun hc hm => hm.change hc) (fun hm => hh.builds hm)
  rw [hc.heap]
  exact hm

-- The functions of a script that is read when it is run are parsed ones.
theorem ScriptForm.matches_run_parsed (hh : host.KeepsParsed) {below : Below σ} {fuel : Nat}
    (hb : ∀ root, parsed.Covers below below (.ofRoot root)) (form : ScriptForm) (text : String) :
    parsed.Matches (form.run host below fuel text) (form.run host below fuel text) := by
  have hp := lawful_parsed hh
  refine hp.get_bind fun machine machine' _ hroot => ?_
  dsimp only
  rw [hroot]
  cases form with
  | expression =>
    cases hr : Expr.read text with
    | error error => exact matches_fail _
    | ok value =>
      exact (value.matches_eval hp (hb _) fun literal hm => .inr ⟨value, hr, hm⟩).embed
  | statements =>
    cases hr : Program.read text with
    | error error => exact matches_fail _
    | ok program =>
      have hbody : parsed.Matches
          (Stmt.execAll host below fuel ⟨text, .ofRoot machine.root⟩ program.body)
          (Stmt.execAll host below fuel ⟨text, .ofRoot machine.root⟩ program.body) :=
        Stmt.matches_execAll hp (hb _) _ (fun _ => ⟨rfl, trivial⟩)
          fun literal hm => .inl ⟨program, hr, hm⟩
      exact hbody.embed.bind fun _ => matches_pure _

theorem Pairing.covers_parsed (hh : host.KeepsParsed) (fuel : Nat) (scope : Scope) :
    parsed.Covers (Below.ofFuel host fuel) (Below.ofFuel host fuel) scope := by
  have hp : parsed.Lawful host host := lawful_parsed hh
  induction fuel generalizing scope with
  | zero => exact ⟨fun _ _ _ _ _ => matches_spent trivial, fun _ _ _ => matches_spent trivial⟩
  | succ fuel ih =>
    rw [Below.ofFuel_succ]
    refine ⟨fun location closure receiver arguments ha => ?_, fun form text _ => ?_⟩
    · refine closure.matches_enter hp (fun frame => ih (scope.child frame))
        (fun _ => ⟨rfl, trivial⟩) (fun literal hm => ha.inside hm) id ?_ ?_
      · rintro machine _ ⟨rfl, hm⟩
        exact ⟨rfl, rfl, fun _ => ⟨rfl, hm⟩⟩
      · rintro machine _ ⟨rfl, hm⟩
        exact ⟨rfl, hm⟩
    · exact form.matches_run_parsed hh (fun root => ih (.ofRoot root)) text

-- An entry leaves nothing but parsed functions behind.
theorem Entry.parsed_perform (hh : host.KeepsParsed) (fuel : Nat) {engine : Engine σ}
    (h : engine.heap.Parsed) (entry : Entry) : (entry.perform host fuel engine).2.heap.Parsed := by
  have hmeets : entry.Meets (fuel = fuel ∧ True) Closure.Parsed := by
    cases entry with
    | execute source =>
      exact fun program hr => ⟨fun _ => ⟨rfl, trivial⟩, fun _ hm => .inl ⟨program, hr, hm⟩⟩
    | evaluate source => exact fun value hr _ hm => .inr ⟨value, hr, hm⟩
    | callFunction _ _ | callWithin _ _ _ => trivial
  have hrun := matches_run (lawful_parsed hh) (covers_parsed hh fuel) engine entry hmeets
  have hends := hrun (engine.machine.restart host engine.timeout) _ ⟨rfl, h⟩
  rw [perform_eq_run]
  exact hends.pairs.2

end Run

-- The engines that can be come to: new ones, and those that a registration or an entry leaves.
inductive Engine.Reached (host : Host σ) : Engine σ → Prop where
  | create (config : Config) (hostState : σ) : Reached host (Engine.create config hostState)
  | register {engine : Engine σ} (name : String) (native : Native) : Reached host engine →
    Reached host (engine.registerNative name native)
  | perform {engine : Engine σ} (fuel : Nat) (entry : Entry) : Reached host engine →
    Reached host (entry.perform host fuel engine).2

theorem Engine.parsed_create (config : Config) (hostState : σ) :
    (Engine.create config hostState).heap.Parsed := by
  have hroot : (Heap.empty.addObject .empty).2.Parsed :=
    Heap.parsed_empty.change (.addObject _ fun _ hk => by cases hk)
  unfold Engine.create Engine.heap
  dsimp only
  split
  · exact Registry.standard.parsed_install hroot _
  · exact hroot

theorem Engine.Reached.parsed {host : Host σ} (hh : host.KeepsParsed) {engine : Engine σ}
    (h : Reached host engine) : engine.heap.Parsed := by
  induction h with
  | create config hostState => exact Engine.parsed_create config hostState
  | register name native _ ih => exact Heap.Parsed.installNatives ih _ _
  | perform fuel entry _ ih => exact entry.parsed_perform hh fuel ih

-- The levels of a run that gives up where a native function would run a script.
def Below.quiet (host : Host σ) : Nat → Below σ
  | 0 => { enter := fun _ _ _ _ _ => Run.spent, script := fun _ _ => Run.spent }
  | fuel + 1 =>
    { enter := fun location closure receiver arguments scope => Run.deeper location
        (closure.run host (quiet host fuel) fuel receiver arguments scope)
      script := fun _ _ => Run.spent }

-- Without such scripts no level raises syntax errors.
theorem Below.raises_quiet {host : Host σ} (hh : host.RaisesNoSyntaxErrors) (fuel : Nat) :
    (Below.quiet host fuel).Raises fun fault => fault.kind ≠ .syntaxError := by
  induction fuel with
  | zero => exact ⟨fun _ _ _ _ _ => Run.raises_spent, fun _ _ => Run.raises_spent⟩
  | succ fuel ih =>
    refine ⟨fun location closure receiver arguments scope => ?_, fun _ _ => Run.raises_spent⟩
    exact (closure.raises_run (fun _ => id) hh ih receiver arguments scope).deeper (fun _ => id) _

namespace Entry

-- The text of the entry, if it has one, can be read.
def Reads : Entry → Prop
  | execute source => ∃ program, Program.read source = .ok program
  | evaluate source => ∃ value, Expr.read source = .ok value
  | callFunction _ _ | callWithin _ _ _ => True

-- Neither `eval` nor `exec` is called: giving up where they would be changes nothing.
def CallsNoScript (host : Host σ) (fuel : Nat) (engine : Engine σ) (entry : Entry) : Prop :=
  engine.enter host (entry.run host (Below.quiet host fuel) fuel engine) =
    entry.perform host fuel engine

variable {host : Host σ} {fuel : Nat} {engine : Engine σ} {entry : Entry}

theorem raises_run {below : Below σ} {allowed : Fault → Prop} (hall : Fault.AllowsOthers allowed)
    (hh : host.Raises allowed) (hb : below.Raises allowed) (hr : entry.Reads) :
    (entry.run host below fuel engine).Raises fun error => allowed error.fault := by
  cases entry with
  | execute source =>
    obtain ⟨program, hread⟩ := hr
    rw [run, hread]
    exact (Stmt.raises_execAll hall hh hb _).bind fun _ => Run.raises_pure _
  | evaluate source =>
    obtain ⟨value, hread⟩ := hr
    rw [run, hread]
    exact (value.raises_eval hall hh hb).bind fun _ => Run.raises_pure _
  | callFunction name arguments =>
    rw [run]
    split
    · exact (raises_callValue hall hh hb _ _ _ _ _ _).bind fun _ => Run.raises_pure _
    · refine Run.raises_fail (hall _ fun hk => ?_)
      cases hk
  | callWithin frame function arguments =>
    exact (raises_callValue hall hh hb _ _ _ _ _ _).bind fun _ => Run.raises_pure _

theorem raises_perform {below : Below σ} {allowed : Fault → Prop} {error : Error}
    (hrun : engine.enter host (entry.run host below fuel engine) = entry.perform host fuel engine)
    (hraises : (entry.run host below fuel engine).Raises fun error => allowed error.fault)
    (hf : (entry.perform host fuel engine).1 = .failed error) : allowed error.fault := by
  rw [← hrun] at hf
  exact hraises _ error hf

-- On an engine that has been come to, every function stands in a script that has been read, and its
-- tree is well formed at every depth. An entry that walks flat trees does the same whatever would
-- happen at a place without a node or at a statement in place of an expression, so neither is ever
-- met. An entry whose own text can be read fails with no syntax error if no script is run by a native
-- function, and else only with one that such a script passes on.
theorem noSyntaxError_of_reached (hh : host.RaisesNoSyntaxErrors) (hk : host.KeepsParsed)
    (h : Engine.Reached host engine) (fuel : Nat) (entry : Entry) :
    (∀ ref closure, (engine.heap.object ref).closure? = some closure →
      closure.Parsed ∧ ∀ code ∈ closure.function.code.codes, code.Sound) ∧
    (∀ mishap : Mishap σ, engine.enter host (entry.flatRun mishap host fuel engine) =
      entry.perform host fuel engine) ∧
    (entry.Reads → ∀ error, (entry.perform host fuel engine).1 = .failed error →
      (entry.CallsNoScript host fuel engine → error.kind ≠ .syntaxError) ∧
      (error.kind = .syntaxError → error.fault.PassedOn)) := by
  refine ⟨fun ref closure hc => ?_, fun mishap => ?_, fun hr error hf => ⟨fun hn => ?_, ?_⟩⟩
  · exact ⟨h.parsed hk ref closure hc, closure.function.sound_code⟩
  · rw [flatRun_eq_run, perform_eq_run]
  · exact raises_perform hn (raises_run (fun _ => id) hh (Below.raises_quiet hh fuel) hr) hf
  · have hall := Fault.allowsOthers_syntaxPassedOn
    have hp := hh.passesOn
    exact raises_perform (perform_eq_run host fuel engine entry).symm
      (raises_run hall hp (Below.raises_ofFuel hp fuel) hr) hf

end Entry

section Quiet

variable {host : Host σ}

-- No native function of the heap runs scripts.
def Heap.Quiet (heap : Heap) : Prop :=
  ∀ (ref : NativeRef) (native : Native), heap.native? ref = some native →
    native.runsScripts = false

def Pairing.quiet : Pairing σ σ :=
  holding (fun machine => machine.heap.Quiet) (fun _ => True)
    (fun native => native.runsScripts = false) True

theorem Pairing.lawful_quiet (hh : host.Keeps fun machine => machine.heap.Quiet) :
    quiet.Lawful host host := by
  refine lawful_holding hh (fun hc hm => ?_) (fun _ _ _ _ => trivial) (fun hm _ _ h => hm _ _ h)
    (fun hc hm ref native hn => ?_) (fun _ _ _ _ _ _ _ _ => trivial)
  · rw [hc.heap]
    exact hm
  · unfold Heap.native? at hn
    rw [hc.natives] at hn
    exact hm ref native hn

theorem Pairing.covers_quiet (hh : host.Keeps fun machine => machine.heap.Quiet) (fuel : Nat)
    (scope : Scope) : quiet.Covers (Below.quiet host fuel) (Below.ofFuel host fuel) scope := by
  have hp : quiet.Lawful host host := lawful_quiet hh
  induction fuel generalizing scope with
  | zero => exact ⟨fun _ _ _ _ _ => matches_spent trivial, fun _ _ _ => matches_spent trivial⟩
  | succ fuel ih =>
    rw [Below.ofFuel_succ]
    refine ⟨fun location closure receiver arguments _ => ?_, fun form text ha => ?_⟩
    · refine closure.matches_enter hp (fun frame => ih (scope.child frame))
        (fun _ => ⟨rfl, trivial⟩) (fun _ _ => trivial) id ?_ ?_
      · rintro machine _ ⟨rfl, hm⟩
        exact ⟨rfl, rfl, fun _ => ⟨rfl, hm⟩⟩
      · rintro machine _ ⟨rfl, hm⟩
        exact ⟨rfl, hm⟩
    · cases form <;> cases ha

-- Where `eval` and `exec` are not installed, they are not called.
theorem Entry.callsNoScript_of_quiet (hh : host.Keeps fun machine => machine.heap.Quiet)
    (fuel : Nat) {engine : Engine σ} (h : engine.heap.Quiet) (entry : Entry) :
    entry.CallsNoScript host fuel engine := by
  have hmeets : entry.Meets (fuel = fuel ∧ True) fun _ => True := by
    cases entry with
    | execute source => exact fun _ _ => ⟨fun _ => ⟨rfl, trivial⟩, fun _ _ => trivial⟩
    | evaluate source => exact fun _ _ _ _ => trivial
    | callFunction _ _ | callWithin _ _ _ => trivial
  have hrun := matches_run (lawful_quiet hh) (covers_quiet hh fuel) engine entry hmeets
  have hends := hrun (engine.machine.restart host engine.timeout) _ ⟨rfl, h⟩
  rw [CallsNoScript, perform_eq_run, Engine.enter, Engine.enter]
  rw [Prod.ext hends.same.symm hends.pairs.1]

end Quiet

namespace Entry

section Sample

theorem keepsParsed_bare : Host.bare.KeepsParsed where
  keeps := ⟨fun _ _ _ hm => hm, fun _ _ _ hm => hm, fun _ _ _ _ _ hm => hm⟩
  builds _ hb hk := by
    cases hb
    cases hk

-- A script that defines a function, which makes a function and calls its own argument from there.
def definer : Entry :=
  .execute "function f(x) \x7b var g = function () \x7b return x(); \x7d; return g(); \x7d"

def defining : Engine Unit :=
  (definer.perform Host.bare 10 (Engine.create { installStandard := false } ())).2

-- A later call of it, with a number, which cannot be called.
def laterCall : Entry :=
  .callFunction "f" [.int 1]

theorem noSyntaxError_laterCall :
    Host.bare.RaisesNoSyntaxErrors ∧ Host.bare.KeepsParsed ∧ Engine.Reached Host.bare defining ∧
    laterCall.CallsNoScript Host.bare 10 defining ∧
    ∃ error, (laterCall.perform Host.bare 10 defining).1 = .failed error ∧
      error.message = "This expression is not a function!" ∧ error.kind ≠ .syntaxError := by
  have hh := Shell.raisesNoSyntaxErrors_bare
  have hreached : Engine.Reached Host.bare defining :=
    .perform 10 definer (.create { installStandard := false } ())
  have hquiet : defining.heap.Quiet := by
    have hnatives : defining.heap.natives = #[] := by decide +kernel
    intro ref native hn
    rw [Heap.native?, hnatives] at hn
    cases hn
  have hcalls : laterCall.CallsNoScript Host.bare 10 defining :=
    callsNoScript_of_quiet ⟨fun _ _ _ hm => hm, fun _ _ _ hm => hm, fun _ _ _ _ _ hm => hm⟩ 10
      hquiet laterCall
  have hmessage : (laterCall.perform Host.bare 10 defining).1.error?.map Error.message =
      some "This expression is not a function!" := by decide +kernel
  have hsound := noSyntaxError_of_reached hh keepsParsed_bare hreached 10 laterCall
  refine ⟨hh, keepsParsed_bare, hreached, hcalls, ?_⟩
  cases hending : (laterCall.perform Host.bare 10 defining).1 with
  | failed error =>
    rw [hending] at hmessage
    exact ⟨error, rfl, Option.some.inj hmessage, (hsound.2.2 trivial error hending).1 hcalls⟩
  | _ =>
    rw [hending] at hmessage
    cases hmessage

end Sample

end Entry

end ScriptEngine
