import Mathlib.Data.List.Forall2
import ScriptEngine.Proofs.Likeness.Concatenation
import ScriptEngine.Proofs.Untimed.Walk

-- Calls by name, in a script and from outside. A call in a script evaluates its arguments in one
-- entry with the call; from outside each argument is an entry of its own, and so is the call. Unless
-- a deadline ends one of them, both do the same.

namespace ScriptEngine

open Pairing

variable {σ ι α : Type}

-- The ending without the place of its error.
def Ending.unlocated : Ending Error α → Ending Fault α
  | done value => done value
  | failed error => failed error.fault
  | crashed => crashed
  | spent => spent

-- A fault whose message begins with a place in an inner script.
def Fault.isNested : Fault → Bool
  | nested _ _ => true
  | _ => false

-- What is said of a failure: its kind, and its message unless that has a place in it.
def Ending.report? : Ending Error α → Option (ErrorKind × Option String)
  | failed error => some (error.kind, if error.fault.isNested then none else some error.message)
  | done _ | crashed | spent => none

section Report

variable {ending other : Ending Error α}

theorem Fault.kind_unplaced (fault : Fault) : fault.unplaced.kind = fault.kind := by
  induction fault with
  | nested place fault ih => exact ih
  | _ => rfl

theorem Ending.report?_view (ending : Ending Error α) : (ending.view id).report? = ending.report? := by
  cases ending with
  | failed error =>
    obtain ⟨fault, location⟩ := error
    cases fault with
    | nested place fault =>
      exact congrArg (fun kind => some (kind, none)) (Fault.kind_unplaced (.nested place fault))
    | _ => rfl
  | _ => rfl

-- Endings that are the same but for places say the same.
theorem Ending.report?_of_view (h : ending.view id = other.view id) :
    ending.report? = other.report? := by
  rw [← ending.report?_view, h, other.report?_view]

end Report

-- Runs that differ in nothing but the place where their own errors are.
def Run.Relocated (run other : Run σ Error α) : Prop :=
  ∀ machine, (run machine).1.unlocated = (other machine).1.unlocated ∧
    (run machine).2 = (other machine).2

-- A call outside of all functions, with the global object as its receiver.
def callOutside (host : Host σ) (below : Below σ) (location : Location) (root : ObjectRef)
    (function : Value) (arguments : List Value) : Run σ Error Value :=
  callValue host below location function (.object root) arguments none (.ofRoot root)

section Relocated

theorem Run.relocated_locate (location other : Location) (run : Run σ Fault α) :
    (Run.locate location run).Relocated (Run.locate other run) := by
  intro machine
  unfold Run.locate
  rcases run machine with ⟨ending, after⟩
  cases ending <;> exact ⟨rfl, rfl⟩

theorem Run.relocated_fail (location other : Location) (fault : Fault) :
    (Run.fail ⟨fault, location⟩ : Run σ Error α).Relocated (Run.fail ⟨fault, other⟩) :=
  fun _ => ⟨rfl, rfl⟩

-- The place of a call is told by its own error alone, which there is at the greatest depth.
theorem Run.relocated_deeper (location other : Location) (run : Run σ Error α) :
    (Run.deeper location run).Relocated (Run.deeper other run) := by
  intro machine
  unfold Run.deeper
  split <;> exact ⟨rfl, rfl⟩

variable (host : Host σ)

theorem Below.relocated_enter (fuel : Nat) (location other : Location) (closure : Closure)
    (receiver : Value) (arguments : List Value) (scope : Scope) :
    ((Below.ofFuel host fuel).enter location closure receiver arguments scope).Relocated
      ((Below.ofFuel host fuel).enter other closure receiver arguments scope) := by
  cases fuel with
  | zero => exact fun _ => ⟨rfl, rfl⟩
  | succ fuel => exact Run.relocated_deeper location other _

theorem relocated_callOutside (fuel : Nat) (location other : Location) (root : ObjectRef)
    (function : Value) (arguments : List Value) :
    (callOutside host (Below.ofFuel host fuel) location root function arguments).Relocated
      (callOutside host (Below.ofFuel host fuel) other root function arguments) := by
  intro machine
  unfold callOutside callValue
  rw [Run.bind_apply, Run.bind_apply]
  dsimp only [Run.getHeap]
  cases machine.heap.nativeOf? function with
  | some native => exact Run.relocated_locate location other _ machine
  | none =>
    cases machine.heap.closureOf? function with
    | some closure =>
      exact Below.relocated_enter host fuel location other closure _ arguments _ machine
    | none => exact Run.relocated_fail location other .notAFunction machine

end Relocated

-- An expression ends at the depth at which it began, and with the same global object.
theorem Expr.level_eval {host : Host σ} (hk : host.KeepsLevel) (fuel : Nat) (context : Context)
    (value : Expr) (machine : Machine σ) :
    (value.eval host (Below.ofFuel host fuel) context machine).2.depth = machine.depth ∧
      (value.eval host (Below.ofFuel host fuel) context machine).2.root = machine.root := by
  have hmatches : (atLevel machine.depth machine.root).Matches
      (value.eval host (Below.ofFuel host fuel) context)
      (value.eval host (Below.ofFuel host fuel) context) :=
    Expr.matches_eval (lawful_atLevel hk) (covers_atLevel hk fuel context.scope) value
      fun _ _ => trivial
  obtain ⟨-, hpairs⟩ := (hmatches machine machine ⟨rfl, rfl, rfl⟩).pairs
  exact hpairs

-- A call of a name outside of all functions, once its arguments are evaluated.
theorem Expr.eval_namedCall {host : Host σ} {below : Below σ} {text : String} {root : ObjectRef}
    {offset place : Nat} {name : String} {arguments : List Expr} {function : Value}
    {values : List Value} {machine middle after : Machine σ}
    (hfunction : machine.heap.get? root name = some function)
    (hcheckpoint : Run.checkpoint host machine = (.done (), middle))
    (harguments : Expr.evalAll host below ⟨text, .ofRoot root⟩ arguments middle =
      (.done values, after)) :
    (Expr.call offset (.identifier place name) arguments).eval host below ⟨text, .ofRoot root⟩
      machine =
      callOutside host below ⟨text, offset⟩ root function values after := by
  have hcallee : (Expr.identifier place name).eval host below ⟨text, .ofRoot root⟩ machine =
      (.done function, machine) := by
    rw [Expr.eval]
    exact congrArg (fun value => (Ending.done (value.getD .undefined), machine)) hfunction
  have hpause : Run.locate ⟨text, offset⟩ (Run.checkpoint host) machine = (.done (), middle) := by
    unfold Run.locate
    rw [hcheckpoint]
  rw [Expr.eval_call rfl]
  simp only [Run.bind_apply, hcallee, Context.at, hpause, harguments]
  rfl

-- A text of its own for an expression: it reads as the expression, but for where that stands.
def Expr.ReadFrom (text : String) (value : Expr) : Prop :=
  ∃ own, Expr.read text = .ok own ∧ own.relabel .nowhere = value.relabel .nowhere

theorem Expr.readFrom_relabelAll {texts : List String} {values : List Expr}
    (h : List.Forall₂ Expr.ReadFrom texts values) :
    List.Forall₂
      (fun text tree => ∃ own, Expr.read text = .ok own ∧ own.relabel .nowhere = tree) texts
      (Expr.relabelAll .nowhere values) := by
  induction h with
  | nil => exact .nil
  | cons hread _ ih => exact .cons hread ih

-- Expressions, and calls outside of all functions, without a clock and on idle machines.
section Seen

variable {host : Host σ} (fuel : Nat) (context : Context) (value : Expr) (location : Location)
  (root : ObjectRef) (function : Value) (arguments : List Value)

theorem Expr.lasts_ofFuel (ht : host.Timeless) :
    (value.eval host (Below.ofFuel host fuel) context).Lasts
      (value.eval host.untimed (Below.ofFuel host.untimed fuel) context) :=
  value.lasts_eval ht (Below.lasts_ofFuel ht fuel)

theorem lasts_callOutside (ht : host.Timeless) :
    (callOutside host (Below.ofFuel host fuel) location root function arguments).Lasts
      (callOutside host.untimed (Below.ofFuel host.untimed fuel) location root function arguments) :=
  lasts_callValue ht (Below.lasts_ofFuel ht fuel) _ _ _ _ _ _

theorem Expr.follows_ofFuel (hh : host.Indifferent) :
    (value.eval host (Below.ofFuel host fuel) context).Follows id
      ((value.relabel .nowhere).eval host.idle (Below.idle host fuel) context.unplaced) :=
  value.follows_eval hh (Below.follows_idle hh fuel)

theorem follows_callOutside (hh : host.Indifferent) :
    (callOutside host (Below.ofFuel host fuel) location root function arguments).Follows id
      (callOutside host.idle (Below.idle host fuel) .nowhere root function arguments) :=
  follows_callValue hh (Below.follows_idle hh fuel) _ _ _ _ _ _

end Seen

-- Without a clock no checkpoint ends a run.

theorem Run.checkpoint_untimed (host : Host σ) (machine : Machine σ) (readings : Nat) :
    Run.checkpoint host.untimed (machine.untimed readings) =
      (.done (), machine.untimed (readings + 1)) :=
  rfl

theorem Run.checkpoint_idle (host : Host σ) (machine : Machine σ) (readings : Nat) :
    Run.checkpoint host.idle (machine.idle readings) = (.done (), machine.idle (readings + 1)) :=
  rfl

-- What a new start leaves does not count where the time does not.

theorem Machine.heap_untimed (machine : Machine σ) (readings : Nat) :
    (machine.untimed readings).heap = machine.heap :=
  rfl

theorem Machine.untimed_restart {machine : Machine σ} (h : machine.depth = 0) (host : Host σ)
    (timeout readings : Nat) :
    (machine.restart host timeout).untimed readings = machine.untimed readings := by
  unfold Machine.restart Machine.untimed
  rw [h]

theorem Machine.untimed_untimed (machine : Machine σ) (first second : Nat) :
    (machine.untimed first).untimed second = machine.untimed second :=
  rfl

theorem Machine.idle_restart {machine : Machine σ} (h : machine.depth = 0) (host : Host σ)
    (timeout readings : Nat) :
    (machine.restart host timeout).idle readings = machine.idle readings := by
  unfold Machine.restart Machine.idle
  rw [h]

namespace Engine

-- The machine from which the next entry starts.
def start (host : Host σ) (engine : Engine σ) : Machine σ :=
  engine.machine.restart host engine.timeout

theorem ending_enter (host : Host σ) (run : Run σ Error α) (engine : Engine σ) :
    (engine.enter host run).1 = (run (engine.start host)).1 :=
  rfl

theorem machine_enter (host : Host σ) (run : Run σ Error α) (engine : Engine σ) :
    (engine.enter host run).2.machine = (run (engine.start host)).2 :=
  rfl

-- The function that is called by a name.
def function? (engine : Engine σ) (name : String) : Option Value :=
  (engine.heap.get? engine.root name).filter engine.heap.isFunction

-- The value of an expression that stands in a text, evaluated by itself.
def evaluateIn (host : Host σ) (fuel : Nat) (text : String) (value : Expr) (engine : Engine σ) :
    Ending Error Value × Engine σ :=
  engine.enter host (value.eval host (Below.ofFuel host fuel) ⟨text, .ofRoot engine.root⟩)

-- The values of entries that are made one after another, and the engine after the last one. None if
-- one of them comes to no value.
def inTurn (entry : ι → Engine σ → Ending Error Value × Engine σ) :
    List ι → Engine σ → Option (List Value × Engine σ)
  | [], engine => some ([], engine)
  | item :: rest, engine =>
    match entry item engine with
    | (.done value, middle) =>
      (inTurn entry rest middle).map fun (values, after) => (value :: values, after)
    | _ => none

theorem evaluate_eq_evaluateIn {host : Host σ} {fuel : Nat} {text : String} {value : Expr}
    (h : Expr.read text = .ok value) (engine : Engine σ) :
    engine.evaluate host fuel text = engine.evaluateIn host fuel text value := by
  rw [evaluate, h]
  rfl

theorem callFunction_of_function? (host : Host σ) (fuel : Nat) {engine : Engine σ} {name : String}
    {function : Value} (h : engine.function? name = some function) (values : List Value) :
    engine.callFunction host fuel name values = engine.enter host
      (callOutside host (Below.ofFuel host fuel) ⟨name, 0⟩ engine.root function values) := by
  unfold callFunction
  unfold function? at h
  rw [h]
  rfl

-- A run that, seen in another way, comes to a value where one engine starts and leaves what another
-- one starts from.
def Leads (host : Host σ) (view : Nat → Machine σ → Machine σ) (engine after : Engine σ)
    (run : Run σ Error α) (value : α) : Prop :=
  ∀ readings, ∃ later,
    run (view readings (engine.start host)) = (.done value, view later (after.start host))

-- If every entry is seen as the evaluation of a tree, then entries one after another are seen as the
-- evaluation of the list of the trees.
theorem leads_inTurn {host other : Host σ} {below : Below σ} {context : Context}
    {view : Nat → Machine σ → Machine σ} {root : ObjectRef}
    {entry : ι → Engine σ → Ending Error Value × Engine σ} {stands : ι → Expr → Prop}
    (hentry : ∀ item tree, stands item tree → ∀ engine value middle, engine.root = root →
      entry item engine = (.done value, middle) →
      middle.root = root ∧ Leads host view engine middle (tree.eval other below context) value)
    {items : List ι} {trees : List Expr} (h : List.Forall₂ stands items trees)
    {engine after : Engine σ} {values : List Value} (hroot : engine.root = root)
    (hrun : inTurn entry items engine = some (values, after)) :
    after.root = root ∧
      Leads host view engine after (Expr.evalAll other below context trees) values := by
  induction h generalizing engine values with
  | nil =>
    cases hrun
    refine ⟨hroot, fun readings => ⟨readings, ?_⟩⟩
    rw [Expr.evalAll]
    rfl
  | @cons item tree items trees hitem _ ih =>
    unfold inTurn at hrun
    split at hrun
    · next value middle hfirst =>
      obtain ⟨⟨rest, after⟩, hrest, heq⟩ := Option.map_eq_some_iff.mp hrun
      cases heq
      obtain ⟨hmiddle, hlead⟩ := hentry item tree hitem engine value middle hroot hfirst
      obtain ⟨hafter, hleads⟩ := ih hmiddle hrest
      refine ⟨hafter, fun readings => ?_⟩
      obtain ⟨later, heval⟩ := hlead readings
      obtain ⟨last, hevalAll⟩ := hleads later
      refine ⟨last, ?_⟩
      rw [Expr.evalAll]
      simp only [Run.bind_apply, heval, hevalAll]
      rfl
    · cases hrun

section Entries

variable {host : Host σ} {fuel : Nat} {text : String} {value : Expr} {root : ObjectRef}
  {engine middle : Engine σ} {result : Value}

-- An entry that comes to a value leaves the global object, and no call.
theorem level_evaluateIn (hk : host.KeepsLevel)
    (h : engine.evaluateIn host fuel text value = (.done result, middle)) :
    middle.machine.depth = 0 ∧ middle.root = engine.root := by
  have hlevel := value.level_eval hk fuel ⟨text, .ofRoot engine.root⟩ (engine.start host)
  have hmachine : middle.machine = (value.eval host (Below.ofFuel host fuel)
      ⟨text, .ofRoot engine.root⟩ (engine.start host)).2 :=
    congrArg (·.2.machine) h.symm
  rw [← hmachine] at hlevel
  exact ⟨hlevel.1, hlevel.2.trans (Machine.root_restart host _ _)⟩

theorem leads_untimed (ht : host.Timeless) (hk : host.KeepsLevel) (hroot : engine.root = root)
    (h : engine.evaluateIn host fuel text value = (.done result, middle)) :
    middle.root = root ∧ Leads host Machine.untimed engine middle
      (value.eval host.untimed (Below.ofFuel host.untimed fuel) ⟨text, .ofRoot root⟩) result := by
  subst hroot
  obtain ⟨hdepth, hroot⟩ := level_evaluateIn hk h
  refine ⟨hroot, fun readings => ?_⟩
  have hdone : value.eval host (Below.ofFuel host fuel) ⟨text, .ofRoot engine.root⟩
      (engine.start host) = (.done result, middle.machine) :=
    congrArg (fun result => (result.1, result.2.machine)) h
  have hlasts := Expr.lasts_ofFuel fuel ⟨text, .ofRoot engine.root⟩ value ht (engine.start host)
    readings
  rw [hdone] at hlasts
  obtain hhalts | ⟨later, heval⟩ := hlasts
  · cases hhalts
  · exact ⟨later, heval.trans (congrArg _ (Machine.untimed_restart hdepth host _ later).symm)⟩

theorem leads_idle (hh : host.Indifferent) (hk : host.KeepsLevel) (hroot : engine.root = root)
    (h : engine.evaluateIn host fuel text value = (.done result, middle)) :
    middle.root = root ∧ Leads host Machine.idle engine middle
      ((value.relabel .nowhere).eval host.idle (Below.idle host fuel) ⟨"", .ofRoot root⟩)
      result := by
  subst hroot
  obtain ⟨hdepth, hroot⟩ := level_evaluateIn hk h
  refine ⟨hroot, fun readings => ?_⟩
  have hdone : value.eval host (Below.ofFuel host fuel) ⟨text, .ofRoot engine.root⟩
      (engine.start host) = (.done result, middle.machine) :=
    congrArg (fun result => (result.1, result.2.machine)) h
  have hfollows := Expr.follows_ofFuel fuel ⟨text, .ofRoot engine.root⟩ value hh
    (engine.start host) readings
  rw [hdone] at hfollows
  obtain hhalts | ⟨later, heval⟩ := hfollows
  · cases hhalts
  · exact ⟨later, heval.trans (congrArg _ (Machine.idle_restart hdepth host _ later).symm)⟩

end Entries

section NamedCall

variable {host : Host σ} {fuel : Nat} {source name : String} {offset place : Nat}
  {arguments : List Expr} {engine after : Engine σ} {function : Value} {values : List Value}

theorem get?_start (host : Host σ) (h : engine.function? name = some function) :
    (engine.start host).heap.get? engine.root name = some function := by
  unfold start
  rw [Machine.heap_restart]
  exact (Option.filter_eq_some_iff.mp h).1

-- If the arguments are evaluated where they stand, all is the same.
theorem namedCall_inPlace (ht : host.Timeless) (hk : host.KeepsLevel)
    (hname : engine.function? name = some function)
    (hrun : inTurn (evaluateIn host fuel source) arguments engine = some (values, after))
    (hafter : after.function? name = some function) :
    let joint := engine.evaluateIn host fuel source (.call offset (.identifier place name) arguments)
    let apart := after.callFunction host fuel name values
    joint.1.halts ∨ apart.1.halts ∨
      (joint.1.unlocated = apart.1.unlocated ∧
        joint.2.machine.untimed 0 = apart.2.machine.untimed 0) := by
  have hentry (item tree : Expr) (heq : item = tree) (engine' : Engine σ) (value : Value)
      (middle : Engine σ) (hroot : engine'.root = engine.root)
      (hdone : engine'.evaluateIn host fuel source item = (.done value, middle)) :
      middle.root = engine.root ∧ Leads host Machine.untimed engine' middle
        (tree.eval host.untimed (Below.ofFuel host.untimed fuel) ⟨source, .ofRoot engine.root⟩)
        value :=
    heq ▸ leads_untimed ht hk hroot hdone
  obtain ⟨hroot, hleads⟩ := leads_inTurn hentry (List.forall₂_refl arguments) rfl hrun
  obtain ⟨later, harguments⟩ := hleads (0 + 1)
  have hglobal : ((engine.start host).untimed 0).heap.get? engine.root name = some function := by
    rw [Machine.heap_untimed]
    exact get?_start host hname
  have hcall : (Expr.call offset (.identifier place name) arguments).eval host.untimed
      (Below.ofFuel host.untimed fuel) ⟨source, .ofRoot engine.root⟩
      ((engine.start host).untimed 0) =
      callOutside host.untimed (Below.ofFuel host.untimed fuel) ⟨source, offset⟩ engine.root
        function values ((after.start host).untimed later) :=
    Expr.eval_namedCall hglobal (Run.checkpoint_untimed host _ 0) harguments
  have hapart := callFunction_of_function? host fuel hafter values
  rw [hroot] at hapart
  simp only [hapart, evaluateIn, ending_enter, machine_enter]
  -- Both runs are compared with the same call without a clock, but for where it stands.
  have hplace := relocated_callOutside host.untimed fuel ⟨source, offset⟩ ⟨name, 0⟩
    engine.root function values ((after.start host).untimed later)
  obtain hhalts | ⟨first, hfirst⟩ := Expr.lasts_ofFuel fuel ⟨source, .ofRoot engine.root⟩
    (.call offset (.identifier place name) arguments) ht (engine.start host) 0
  · exact .inl hhalts
  obtain hhalts | ⟨second, hsecond⟩ := lasts_callOutside fuel ⟨name, 0⟩ engine.root function values
    ht (after.start host) later
  · exact .inr (.inl hhalts)
  · rw [← hcall, hfirst, hsecond] at hplace
    have hmachines := congrArg (Machine.untimed 0) hplace.2
    rw [Machine.untimed_untimed, Machine.untimed_untimed] at hmachines
    exact .inr (.inr ⟨hplace.1, hmachines⟩)

-- If the arguments are evaluated from texts of their own, all is the same but for places.
theorem namedCall_apart (hh : host.Indifferent) (hk : host.KeepsLevel) {texts : List String}
    (htexts : List.Forall₂ Expr.ReadFrom texts arguments)
    (hname : engine.function? name = some function)
    (hrun : inTurn (evaluate host fuel) texts engine = some (values, after))
    (hafter : after.function? name = some function) :
    let joint := engine.evaluateIn host fuel source (.call offset (.identifier place name) arguments)
    let apart := after.callFunction host fuel name values
    joint.1.halts ∨ apart.1.halts ∨
      (joint.1.view id = apart.1.view id ∧ apart.2.machine.Alike joint.2.machine) := by
  have hentry (text : String) (tree : Expr)
      (hread : ∃ own, Expr.read text = .ok own ∧ own.relabel .nowhere = tree) (engine' : Engine σ)
      (value : Value) (middle : Engine σ) (hroot : engine'.root = engine.root)
      (hdone : engine'.evaluate host fuel text = (.done value, middle)) :
      middle.root = engine.root ∧ Leads host Machine.idle engine' middle
        (tree.eval host.idle (Below.idle host fuel) ⟨"", .ofRoot engine.root⟩) value := by
    obtain ⟨own, hread, rfl⟩ := hread
    rw [evaluate_eq_evaluateIn hread] at hdone
    exact leads_idle hh hk hroot hdone
  obtain ⟨hroot, hleads⟩ := leads_inTurn hentry (Expr.readFrom_relabelAll htexts) rfl hrun
  obtain ⟨later, harguments⟩ := hleads (0 + 1)
  have hglobal : ((engine.start host).idle 0).heap.get? engine.root name = some function :=
    (Heap.get?_unplaced _ _ _).trans (get?_start host hname)
  have hcall : ((Expr.call offset (.identifier place name) arguments).relabel .nowhere).eval
      host.idle (Below.idle host fuel) ⟨"", .ofRoot engine.root⟩ ((engine.start host).idle 0) =
      callOutside host.idle (Below.idle host fuel) .nowhere engine.root function values
        ((after.start host).idle later) := by
    rw [Expr.relabel, Expr.relabel]
    exact Expr.eval_namedCall hglobal (Run.checkpoint_idle host _ 0) harguments
  have hapart := callFunction_of_function? host fuel hafter values
  rw [hroot] at hapart
  simp only [hapart, evaluateIn, ending_enter, machine_enter]
  obtain hhalts | ⟨first, hfirst⟩ := Expr.follows_ofFuel fuel ⟨source, .ofRoot engine.root⟩
    (.call offset (.identifier place name) arguments) hh (engine.start host) 0
  · exact .inl hhalts
  obtain hhalts | ⟨second, hsecond⟩ := follows_callOutside fuel ⟨name, 0⟩ engine.root function
    values hh (after.start host) later
  · exact .inr (.inl hhalts)
  · have hsame := (hfirst.symm.trans hcall).trans hsecond
    exact .inr (.inr ⟨congrArg Prod.fst hsame, Machine.alike_of_idle (congrArg Prod.snd hsame)⟩)

-- A text that calls a function by its name does what its arguments and then a call from outside do,
-- unless a deadline ends one of the two. From texts of their own the arguments give the same value or
-- the same failure, and the same heap and output, but for places. Where they stand they give the same
-- machine but for the time, and the same failure but for its own place.
theorem evaluate_namedCall (ht : host.Timeless) (hh : host.Indifferent) (hk : host.KeepsLevel)
    (fuel : Nat)
    (hsource : Expr.read source = .ok (.call offset (.identifier place name) arguments))
    (hname : engine.function? name = some function) :
    (∀ texts values after, List.Forall₂ Expr.ReadFrom texts arguments →
      inTurn (evaluate host fuel) texts engine = some (values, after) →
      after.function? name = some function →
        let joint := engine.evaluate host fuel source
        let apart := after.callFunction host fuel name values
        joint.1.halts = false → apart.1.halts = false →
          joint.1.view id = apart.1.view id ∧ joint.1.report? = apart.1.report? ∧
          apart.2.machine.Alike joint.2.machine) ∧
    (∀ values after,
      inTurn (evaluateIn host fuel source) arguments engine = some (values, after) →
      after.function? name = some function →
        let joint := engine.evaluate host fuel source
        let apart := after.callFunction host fuel name values
        joint.1.halts = false → apart.1.halts = false →
          joint.1.unlocated = apart.1.unlocated ∧
          joint.2.machine.untimed 0 = apart.2.machine.untimed 0) := by
  rw [evaluate_eq_evaluateIn hsource]
  constructor
  · intro texts values after htexts hrun hafter joint apart hjoint hapart
    obtain hhalts | hhalts | ⟨hview, halike⟩ := namedCall_apart hh hk htexts hname hrun hafter
    · exact absurd (hjoint.symm.trans hhalts) Bool.false_ne_true
    · exact absurd (hapart.symm.trans hhalts) Bool.false_ne_true
    · exact ⟨hview, Ending.report?_of_view hview, halike⟩
  · intro values after hrun hafter joint apart hjoint hapart
    obtain hhalts | hhalts | hsame := namedCall_inPlace ht hk hname hrun hafter
    · exact absurd (hjoint.symm.trans hhalts) Bool.false_ne_true
    · exact absurd (hapart.symm.trans hhalts) Bool.false_ne_true
    · exact hsame

end NamedCall

section Sample

-- The functions of the probe do not look at the time.
theorem timeless_probe : Probe.host.Timeless where
  call handler receiver arguments machine readings := by
    unfold Host.untimedStep Probe.host Probe.call
    dsimp only
    split <;> simp [Machine.untimed, Machine.stop]
  construct handler name arguments machine readings := by
    unfold Host.untimedStep Probe.host Probe.construct
    dsimp only
    split <;> simp [Machine.untimed]
  invoke handler className primitive name arguments machine readings := rfl

-- A function that fails, and a call that hands it over to be called from an inner script.

def failing : String :=
  "function() \x7b return [] - 1; \x7d"

def handing : String :=
  "run(" ++ failing ++ ")"

def handed : Engine Probe.State :=
  (((Engine.create { installStandard := false } default).registerNative "eval"
    (.global .eval)).execute Probe.host 5
    "function run(f) \x7b g = f; return eval('g()'); \x7d").2

-- The tree of the function, which begins at an offset.
def failingAt (start : Nat) : Expr :=
  .function start (.mk none [] (start + 11) [.giveBack (start + 13)
    (some (.binary (start + 23) .subtract (.array (start + 20) [])
      (.literal (start + 25) (.number (.int 1)))))] "() \x7b return [] - 1; \x7d")

def isFailingAt (start : Nat) : Expr → Bool
  | .function offset (.mk none [] body [.giveBack result
      (some (.binary minus .subtract (.array array [])
        (.literal literal (.number (.int one)))))] text) =>
    offset = start && body = start + 11 && result = start + 13 && minus = start + 23 &&
      array = start + 20 && literal = start + 25 && one = 1 &&
      text = "() \x7b return [] - 1; \x7d"
  | _ => false

def isHanding : Expr → Bool
  | .call offset (.identifier place name) [argument] =>
    offset = 3 && place = 0 && name = "run" && isFailingAt 4 argument
  | _ => false

theorem eq_failingAt {start : Nat} {value : Expr} (h : isFailingAt start value = true) :
    value = failingAt start := by
  unfold isFailingAt at h
  split at h
  · simp only [Bool.and_eq_true, decide_eq_true_eq] at h
    obtain ⟨⟨⟨⟨⟨⟨⟨rfl, rfl⟩, rfl⟩, rfl⟩, rfl⟩, rfl⟩, rfl⟩, rfl⟩ := h
    rfl
  · cases h

theorem read_failing : Expr.read failing = .ok (failingAt 0) := by
  have hread : (Expr.read failing).toOption.any (isFailingAt 0) = true := by decide +kernel
  cases hr : Expr.read failing with
  | error error =>
    rw [hr] at hread
    cases hread
  | ok value =>
    rw [hr] at hread
    exact congrArg Except.ok (eq_failingAt hread)

theorem read_handing :
    Expr.read handing = .ok (.call 3 (.identifier 0 "run") [failingAt 4]) := by
  have hread : (Expr.read handing).toOption.any isHanding = true := by decide +kernel
  cases hr : Expr.read handing with
  | error error =>
    rw [hr] at hread
    cases hread
  | ok value =>
    rw [hr] at hread
    change isHanding value = true at hread
    unfold isHanding at hread
    split at hread
    · simp only [Bool.and_eq_true, decide_eq_true_eq] at hread
      obtain ⟨⟨⟨rfl, rfl⟩, rfl⟩, hargument⟩ := hread
      rw [eq_failingAt hargument]
    · cases hread

theorem readFrom_failing : List.Forall₂ Expr.ReadFrom [failing] [failingAt 4] := by
  have hsame : (failingAt 0).relabel .nowhere = (failingAt 4).relabel .nowhere := by
    simp [failingAt, Expr.relabel, Function.relabel, Stmt.relabel, Stmt.relabelAll,
      Expr.relabelAll, Relabelling.nowhere]
  exact .cons ⟨_, read_failing, hsame⟩ .nil

def message? : Ending Error Value → Option String
  | .failed error => some error.message
  | .done _ | .crashed | .spent => none

-- The function that is declared first comes behind the global object.
def runs (engine : Engine Probe.State) : Bool :=
  match engine.function? "run" with
  | some (.object ref) => ref = ⟨1⟩
  | _ => false

theorem function?_of_runs {engine : Engine Probe.State} (h : engine.runs = true) :
    engine.function? "run" = some (.object ⟨1⟩) := by
  unfold runs at h
  split at h
  · next hname =>
    rw [hname, of_decide_eq_true h]
  · cases h

-- How the call of the function ends after entries: whether a deadline ends it, and with which message
-- it fails.
def handedOver (entries : Option (List Value × Engine Probe.State)) :
    Option (Bool × Bool × Option String) :=
  entries.map fun (values, after) =>
    let ending := (after.callFunction Probe.host 5 "run" values).1
    (after.runs, ending.halts, message? ending)

theorem exists_of_handedOver {entries : Option (List Value × Engine Probe.State)} {text : String}
    (h : handedOver entries = some (true, false, some text)) :
    ∃ values after, entries = some (values, after) ∧
      after.function? "run" = some (.object ⟨1⟩) ∧
      (after.callFunction Probe.host 5 "run" values).1.halts = false ∧
      message? (after.callFunction Probe.host 5 "run" values).1 = some text := by
  obtain ⟨⟨values, after⟩, hentries, hresult⟩ := Option.map_eq_some_iff.mp h
  simp only [Prod.mk.injEq] at hresult
  exact ⟨values, after, hentries, function?_of_runs hresult.1, hresult.2⟩

theorem handedOver_apart :
    handedOver (inTurn (evaluate Probe.host 5) [failing] handed) =
      some (true, false, some "Line 1, column 24: '-' is not allowed on the Array type") := by
  decide +kernel

theorem handedOver_inPlace :
    handedOver (inTurn (evaluateIn Probe.host 5 handing) [failingAt 4] handed) =
      some (true, false, some "Line 1, column 28: '-' is not allowed on the Array type") := by
  decide +kernel

theorem handed_joint :
    handed.runs = true ∧ (handed.evaluate Probe.host 5 handing).1.halts = false ∧
    message? (handed.evaluate Probe.host 5 handing).1 =
      some "Line 1, column 28: '-' is not allowed on the Array type" := by
  decide +kernel

-- Once from texts of its own and once where it stands, the function is handed over.
theorem evaluate_namedCall_handing :
    Probe.host.Timeless ∧ Probe.host.Indifferent ∧ Probe.host.KeepsLevel ∧
    Expr.read handing = .ok (.call 3 (.identifier 0 "run") [failingAt 4]) ∧
    handed.function? "run" = some (.object ⟨1⟩) ∧
    (∃ values after, List.Forall₂ Expr.ReadFrom [failing] [failingAt 4] ∧
      inTurn (evaluate Probe.host 5) [failing] handed = some (values, after) ∧
      after.function? "run" = some (.object ⟨1⟩) ∧
      let joint := handed.evaluate Probe.host 5 handing
      let apart := after.callFunction Probe.host 5 "run" values
      joint.1.halts = false ∧ apart.1.halts = false ∧
      joint.1.view id = apart.1.view id ∧ joint.1.report? = apart.1.report? ∧
      apart.2.machine.Alike joint.2.machine) ∧
    (∃ values after,
      inTurn (evaluateIn Probe.host 5 handing) [failingAt 4] handed = some (values, after) ∧
      after.function? "run" = some (.object ⟨1⟩) ∧
      let joint := handed.evaluate Probe.host 5 handing
      let apart := after.callFunction Probe.host 5 "run" values
      joint.1.halts = false ∧ apart.1.halts = false ∧
      joint.1.unlocated = apart.1.unlocated ∧
      joint.2.machine.untimed 0 = apart.2.machine.untimed 0) := by
  have hname := function?_of_runs handed_joint.1
  have hjoint := handed_joint.2.1
  have hcall := evaluate_namedCall timeless_probe indifferent_probe keepsLevel_probe 5 read_handing
    hname
  obtain ⟨values, after, hrun, hafter, hapart, -⟩ := exists_of_handedOver handedOver_apart
  obtain ⟨values', after', hrun', hafter', hapart', -⟩ := exists_of_handedOver handedOver_inPlace
  exact ⟨timeless_probe, indifferent_probe, keepsLevel_probe, read_handing, hname,
    ⟨values, after, readFrom_failing, hrun, hafter, hjoint, hapart,
      hcall.1 _ _ _ readFrom_failing hrun hafter hjoint hapart⟩,
    ⟨values', after', hrun', hafter', hjoint, hapart', hcall.2 _ _ hrun' hafter' hjoint hapart'⟩⟩

-- An inner script makes the place of a failure a part of its message, and a function keeps the place
-- where it was read. So the message is another one if the function has a text of its own.
theorem namedCall_message_differs :
    Expr.read handing = .ok (.call 3 (.identifier 0 "run") [failingAt 4]) ∧
    Expr.read failing = .ok (failingAt 0) ∧
    List.Forall₂ Expr.ReadFrom [failing] [failingAt 4] ∧
    handed.function? "run" = some (.object ⟨1⟩) ∧
    ∃ values after, inTurn (evaluate Probe.host 5) [failing] handed = some (values, after) ∧
      after.function? "run" = some (.object ⟨1⟩) ∧
      let joint := handed.evaluate Probe.host 5 handing
      let apart := after.callFunction Probe.host 5 "run" values
      joint.1.halts = false ∧ apart.1.halts = false ∧
      message? joint.1 = some "Line 1, column 28: '-' is not allowed on the Array type" ∧
      message? apart.1 = some "Line 1, column 24: '-' is not allowed on the Array type" ∧
      message? joint.1 ≠ message? apart.1 := by
  obtain ⟨hruns, hjoint, htext⟩ := handed_joint
  obtain ⟨values, after, hrun, hafter, hapart, htext'⟩ := exists_of_handedOver handedOver_apart
  refine ⟨read_handing, read_failing, readFrom_failing, function?_of_runs hruns, values, after, hrun,
    hafter, hjoint, hapart, htext, htext', ?_⟩
  rw [htext, htext']
  decide

end Sample

end Engine

end ScriptEngine
