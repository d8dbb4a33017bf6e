import ScriptEngine.Proofs.Faults.Raising
import ScriptEngine.Proofs.Termination.LoopFree
import ScriptEngine.Shell

-- Where syntax errors come from. A text that cannot be read is refused before anything is run; once
-- it has been read, a syntax error can only be one that a native function met in a script of its own
-- and passes on. The shell does not tell the two apart.

namespace ScriptEngine

variable {σ : Type}

-- The fault comes from a script that a native function was running.
def Fault.PassedOn (fault : Fault) : Prop :=
  ∃ place inner, fault = .nested place inner

-- A syntax error, if it is one, that comes from such a script.
def Fault.SyntaxPassedOn (fault : Fault) : Prop :=
  fault.kind = .syntaxError → fault.PassedOn

theorem Fault.allowsOthers_syntaxPassedOn : Fault.AllowsOthers Fault.SyntaxPassedOn :=
  fun _ hk hs => absurd hs hk

theorem Fault.syntaxPassedOn_nested (place : Location) (fault : Fault) :
    (Fault.nested place fault).SyntaxPassedOn :=
  fun _ => ⟨place, fault, rfl⟩

section Levels

variable {host : Host σ}

theorem ScriptForm.raises_run (hh : host.Raises Fault.SyntaxPassedOn) {below : Below σ}
    (hb : below.Raises Fault.SyntaxPassedOn) (fuel : Nat) (form : ScriptForm) (text : String) :
    (form.run host below fuel text).Raises Fault.SyntaxPassedOn := by
  have hnested {α : Type} {run : Run σ Error α}
      (h : run.Raises fun error => error.fault.SyntaxPassedOn) :
      (Run.embed run).Raises Fault.SyntaxPassedOn := by
    rw [Run.embed_eq_mapError]
    exact h.mapError fun _ _ => Fault.syntaxPassedOn_nested _ _
  have hall := Fault.allowsOthers_syntaxPassedOn
  refine Run.raises_get.bind fun machine => ?_
  cases form with
  | expression =>
    dsimp only
    split
    · exact hnested (Expr.raises_eval hall hh hb _)
    · exact Run.raises_fail (Fault.syntaxPassedOn_nested _ _)
  | statements =>
    dsimp only
    split
    · exact (hnested (Stmt.raises_execAll hall hh hb _)).bind fun _ => Run.raises_pure _
    · exact Run.raises_fail (Fault.syntaxPassedOn_nested _ _)

-- Level by level: the scripts of native functions pass their faults on, and everything else raises
-- no syntax errors.
theorem Below.raises_ofFuel (hh : host.Raises Fault.SyntaxPassedOn) (fuel : Nat) :
    (Below.ofFuel host fuel).Raises Fault.SyntaxPassedOn := by
  induction fuel with
  | zero => exact ⟨fun _ _ _ _ _ => Run.raises_spent, fun _ _ => Run.raises_spent⟩
  | succ fuel ih =>
    have hall := Fault.allowsOthers_syntaxPassedOn
    rw [Below.ofFuel_succ]
    refine ⟨fun location closure receiver arguments scope => ?_, fun form text => ?_⟩
    · exact (closure.raises_run hall hh ih receiver arguments scope).deeper hall location
    · exact form.raises_run hh ih fuel text

end Levels

-- No function of the embedding program raises syntax errors.
def Host.RaisesNoSyntaxErrors (host : Host σ) : Prop :=
  host.Raises fun fault => fault.kind ≠ .syntaxError

theorem Host.RaisesNoSyntaxErrors.passesOn {host : Host σ} (hh : host.RaisesNoSyntaxErrors) :
    host.Raises Fault.SyntaxPassedOn where
  call h hs := absurd hs (hh.call h)
  construct h hs := absurd hs (hh.construct h)
  invoke h hs := absurd hs (hh.invoke h)

namespace Shell

theorem raisesNoSyntaxErrors_bare : Host.bare.RaisesNoSyntaxErrors where
  call := nofun
  construct := nofun
  invoke := by
    rintro handler className primitive name arguments machine fault ⟨⟩
    exact nofun

-- The engine as a text that cannot be read leaves it: only the clock has been read.
def restarted (state : State) : State :=
  { state with machine := state.machine.restart Host.bare state.timeout }

section Restarted

variable (state : State)

theorem heap_restarted : (restarted state).heap = state.heap := by
  unfold Engine.heap restarted
  exact Machine.heap_restart _ _ _

theorem root_restarted : (restarted state).root = state.root := by
  unfold Engine.root restarted
  exact Machine.root_restart _ _ _

theorem transcript_restarted :
    (restarted state).machine.transcript = state.machine.transcript := by
  unfold restarted
  exact Machine.transcript_restart _ _ _

end Restarted

theorem evaluate_of_unread {fuel : Nat} {line : String} {state : State} {refusal : ParseError}
    (h : Expr.read line = .error refusal) :
    state.evaluate Host.bare fuel line = (.failed (.ofParse line refusal), restarted state) := by
  rw [Engine.evaluate, h]
  rfl

-- If a line fails with a syntax error, then either it is no expression and evaluating it has changed
-- no object, no array and no global and has written nothing, or it is an expression and the error
-- comes from a script that it ran through a native function. In the first case what the shell does
-- next is the only run of the line.
theorem unchanged_of_syntaxError {fuel : Nat} {line : String} {state after : State} {error : Error}
    (hf : state.evaluate Host.bare fuel line = (.failed error, after))
    (hk : error.kind = .syntaxError) :
    ((∃ refusal, Expr.read line = .error refusal) ∧ after.heap = state.heap ∧
      after.root = state.root ∧ after.machine.transcript = state.machine.transcript) ∨
    ((∃ value, Expr.read line = .ok value) ∧ error.fault.PassedOn) := by
  cases hread : Expr.read line with
  | error refusal =>
    rw [evaluate_of_unread hread] at hf
    cases hf
    exact .inl ⟨⟨refusal, rfl⟩, heap_restarted state, root_restarted state,
      transcript_restarted state⟩
  | ok value =>
    refine .inr ⟨⟨value, rfl⟩, ?_⟩
    have hh := raisesNoSyntaxErrors_bare.passesOn
    have hraises : (value.eval Host.bare (Below.ofFuel Host.bare fuel)
        ⟨line, .ofRoot state.root⟩).Raises fun error => error.fault.SyntaxPassedOn :=
      value.raises_eval Fault.allowsOthers_syntaxPassedOn hh (Below.raises_ofFuel hh fuel)
    rw [Engine.evaluate, hread] at hf
    exact hraises _ error (congrArg Prod.fst hf) hk

-- A declaration is no expression.
theorem unchanged_of_declaration :
    ∃ error after, (start {}).evaluate Host.bare 10 "var x = 1;" = (.failed error, after) ∧
      error.kind = .syntaxError ∧ after.heap = (start {}).heap := by
  have hkind : ((start {}).evaluate Host.bare 10 "var x = 1;").1.error?.map Error.kind =
      some .syntaxError := by decide +kernel
  have hunread : (Expr.read "var x = 1;").toBool = false := by decide +kernel
  rcases hrun : (start {}).evaluate Host.bare 10 "var x = 1;" with ⟨ending, after⟩
  rw [hrun] at hkind
  cases ending with
  | failed error =>
    have hk : error.kind = .syntaxError := Option.some.inj hkind
    obtain ⟨-, hheap, -⟩ | ⟨⟨value, hvalue⟩, -⟩ := unchanged_of_syntaxError hrun hk
    · exact ⟨error, after, rfl, hk, hheap⟩
    · rw [hvalue] at hunread
      cases hunread
  | done _ | crashed | spent => cases hkind

-- An expression that writes a line and then runs a script that cannot be read.
def repeated : String :=
  "console.log(\"hi\") + eval(\"(\")"

-- It fails with a syntax error after it has written its line, and so the shell runs it once more.
theorem output_repeated :
    ((start {}).evaluate Host.bare 10 repeated).1.error?.map Error.kind = some .syntaxError ∧
    ((start {}).evaluate Host.bare 10 repeated).2.machine.transcript.output = "hi\n" ∧
    (runLine 10 repeated (start {})).1.output = "hi\nhi\n" := by
  decide +kernel

end Shell

end ScriptEngine
