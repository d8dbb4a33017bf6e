import ScriptEngine.Host.Probe
import ScriptEngine.Proofs.Likeness.Walk
import ScriptEngine.Proofs.Reading.Joining

-- One text after another and the two as one. If the first ends normally and no deadline comes in
-- between, the second starts in the joined text from the machine that it starts from by itself, and
-- all that differs is where things stand.

namespace ScriptEngine

open Pairing

variable {σ : Type}

-- Where a tree stands is forgotten all the same after it has been moved.
theorem Stmt.relabelAll_nowhere_shift (distance : Nat) (items : List Stmt) :
    Stmt.relabelAll .nowhere (Stmt.relabelAll (.shift distance) items) =
      Stmt.relabelAll .nowhere items :=
  Stmt.relabelAll_relabelAll items

section Walk

variable {host : Host σ} {below : Below σ} {fuel : Nat} {context : Context}

-- Statements after statements run if those end normally.
theorem Stmt.execAll_append (items rest : List Stmt) :
    Stmt.execAll host below fuel context (items ++ rest) = (do
      match ← Stmt.execAll host below fuel context items with
      | .normal => Stmt.execAll host below fuel context rest
      | completion => return completion) := by
  induction items with
  | nil =>
    rw [Stmt.execAll]
    rfl
  | cons first items ih =>
    rw [List.cons_append, Stmt.execAll, Stmt.execAll, ih]
    funext machine
    simp only [Run.bind_apply]
    rcases first.exec host below fuel context machine with ⟨ending, after⟩
    cases ending with
    | done completion => cases completion <;> rfl
    | _ => rfl

-- Empty statements do nothing.
theorem Stmt.execAll_empties {gap : List Stmt} (hgap : ∀ item ∈ gap, ∃ offset, item = .empty offset)
    (rest : List Stmt) :
    Stmt.execAll host below fuel context (gap ++ rest) =
      Stmt.execAll host below fuel context rest := by
  induction gap with
  | nil => rfl
  | cons item gap ih =>
    obtain ⟨⟨offset, rfl⟩, hmore⟩ := List.forall_mem_cons.mp hgap
    rw [List.cons_append, Stmt.execAll, Stmt.exec]
    exact ih hmore

end Walk

-- The functions of the embedding program leave the depth and the global object alone.
def Host.KeepsLevel (host : Host σ) : Prop :=
  ∀ depth root, host.Keeps fun machine => machine.depth = depth ∧ machine.root = root

-- Machines at a depth and with a global object.
def Pairing.atLevel (depth : Nat) (root : ObjectRef) : Pairing σ σ :=
  holding (fun machine => machine.depth = depth ∧ machine.root = root) (fun _ => True)
    (fun _ => True) True

section Level

variable {host : Host σ} {depth : Nat} {root : ObjectRef}

theorem Pairing.lawful_atLevel (hk : host.KeepsLevel) :
    (atLevel depth root).Lawful host host := by
  refine lawful_holding (hk depth root) (fun hc hm => ?_) (fun _ _ _ _ => trivial)
    (fun _ _ _ _ => trivial) (fun _ hm => hm) (fun _ _ _ _ _ _ _ _ => trivial)
  rw [hc.depth, hc.root]
  exact hm

theorem Pairing.covers_atLevel (hk : host.KeepsLevel) (fuel : Nat) (scope : Scope) :
    (atLevel depth root).Covers (Below.ofFuel host fuel) (Below.ofFuel host fuel) scope :=
  covers_holding (fun level machine => machine.depth = level ∧ machine.root = root)
    (fun _ => lawful_atLevel hk) (fun hm => ⟨congrArg (· + 1) hm.1, hm.2⟩)
    (fun hm => ⟨congrArg (· - 1) hm.1, hm.2⟩) depth fuel scope

-- Statements end at the depth at which they began, and with the same global object.
theorem Stmt.level_execAll (hk : host.KeepsLevel) (fuel : Nat) (context : Context)
    (items : List Stmt) (machine : Machine σ) :
    (Stmt.execAll host (Below.ofFuel host fuel) fuel context items machine).2.depth =
      machine.depth ∧
    (Stmt.execAll host (Below.ofFuel host fuel) fuel context items machine).2.root =
      machine.root := by
  have hmatches : (atLevel machine.depth machine.root).Matches
      (Stmt.execAll host (Below.ofFuel host fuel) fuel context items)
      (Stmt.execAll host (Below.ofFuel host fuel) fuel context items) :=
    Stmt.matches_execAll (lawful_atLevel hk) (covers_atLevel hk fuel context.scope) items
      (fun _ => ⟨rfl, trivial⟩) fun _ _ => trivial
  obtain ⟨-, hpairs⟩ := (hmatches machine machine ⟨rfl, rfl, rfl⟩).pairs
  exact hpairs

end Level

-- Machines that are the same but for places, deadlines and readings of the clock.
structure Machine.Alike (machine other : Machine σ) : Prop where
  heap : other.heap.unplaced = machine.heap.unplaced
  root : other.root = machine.root
  depth : other.depth = machine.depth
  maxDepth : other.maxDepth = machine.maxDepth
  transcript : other.transcript = machine.transcript
  host : other.host = machine.host

namespace Machine

variable {machine other : Machine σ} {readings later : Nat}

theorem Alike.refl : machine.Alike machine :=
  ⟨rfl, rfl, rfl, rfl, rfl, rfl⟩

theorem Alike.trans {third : Machine σ} (h : machine.Alike other) (hn : other.Alike third) :
    machine.Alike third :=
  ⟨hn.heap.trans h.heap, hn.root.trans h.root, hn.depth.trans h.depth,
    hn.maxDepth.trans h.maxDepth, hn.transcript.trans h.transcript, hn.host.trans h.host⟩

theorem Alike.idle (h : machine.Alike other) (readings : Nat) :
    other.idle readings = machine.idle readings := by
  unfold Machine.idle
  rw [h.heap, h.root, h.depth, h.maxDepth, h.transcript, h.host]

theorem alike_of_idle (h : other.idle later = machine.idle readings) : machine.Alike other := by
  simp only [Machine.idle, Machine.mk.injEq] at h
  obtain ⟨hheap, hroot, -, -, hdepth, hmaxDepth, htranscript, hhost⟩ := h
  exact ⟨hheap, hroot, hdepth, hmaxDepth, htranscript, hhost⟩

theorem alike_restart (host : Host σ) (timeout : Nat) (h : machine.depth = 0) :
    (machine.restart host timeout).Alike machine := by
  unfold Machine.restart
  exact ⟨rfl, rfl, h, rfl, rfl, rfl⟩

end Machine

section Alike

variable {host : Host σ}

-- On alike machines the same statements come to the same ending but for places, and leave alike
-- machines, unless a deadline ends one of the two runs.
theorem Stmt.alike_execAll (hh : host.Indifferent) (fuel : Nat) {items items' : List Stmt}
    {scope : Scope} {script script' : String} {machine machine' : Machine σ}
    (hm : machine.Alike machine')
    (hitems : Stmt.relabelAll .nowhere items' = Stmt.relabelAll .nowhere items)
    {result result' : Ending Error Completion × Machine σ}
    (hrun : Stmt.execAll host (Below.ofFuel host fuel) fuel ⟨script, scope⟩ items machine = result)
    (hrun' : Stmt.execAll host (Below.ofFuel host fuel) fuel ⟨script', scope⟩ items' machine' =
      result') :
    result.1.halts ∨ result'.1.halts ∨
      (result'.1.view id = result.1.view id ∧ result.2.Alike result'.2) := by
  subst hrun hrun'
  have hb := Below.follows_idle hh fuel
  obtain hhalts | ⟨readings, hidle⟩ := Stmt.follows_execAll hh hb items machine 0
  · exact .inl hhalts
  obtain hhalts | ⟨later, hidle'⟩ := Stmt.follows_execAll hh hb items' machine' 0
  · exact .inr (.inl hhalts)
  rw [hitems, hm.idle] at hidle'
  have hsame := hidle'.symm.trans hidle
  exact .inr (.inr ⟨congrArg Prod.fst hsame, Machine.alike_of_idle (congrArg Prod.snd hsame)⟩)

-- What follows statements that end normally does behind them what it does by itself on an alike
-- machine. Places differ, and there may be empty statements in between.
theorem Stmt.alike_append (hh : host.Indifferent) (fuel : Nat) {scope : Scope}
    {first second joined : String} {items gap rest rest' : List Stmt}
    {machine middle middle' : Machine σ} {result result' : Ending Error Completion × Machine σ}
    (hgap : ∀ item ∈ gap, ∃ offset, item = .empty offset)
    (hrest : Stmt.relabelAll .nowhere rest' = Stmt.relabelAll .nowhere rest)
    (hm : middle'.Alike middle)
    (hfirst : Stmt.execAll host (Below.ofFuel host fuel) fuel ⟨first, scope⟩ items machine =
      (.done .normal, middle))
    (hsecond : Stmt.execAll host (Below.ofFuel host fuel) fuel ⟨second, scope⟩ rest middle' =
      result)
    (hjoined : Stmt.execAll host (Below.ofFuel host fuel) fuel ⟨joined, scope⟩
      (items ++ (gap ++ rest')) machine = result') :
    result.1.halts ∨ result'.1.halts ∨
      (result'.1.view id = result.1.view id ∧ result.2.Alike result'.2) := by
  rw [Stmt.execAll_append, Run.bind_apply, Stmt.execAll_empties hgap] at hjoined
  generalize hfront : Stmt.execAll host (Below.ofFuel host fuel) fuel ⟨joined, scope⟩ items machine =
    front at hjoined
  obtain ⟨ending, front⟩ := front
  obtain hhalts | hhalts | ⟨hsame, halike⟩ := Stmt.alike_execAll hh fuel .refl rfl hfirst hfront
  · cases hhalts
  · cases ending with
    | failed error =>
      subst hjoined
      exact .inr (.inl hhalts)
    | _ => cases hhalts
  · cases ending with
    | done completion =>
      cases hsame
      exact Stmt.alike_execAll hh fuel (hm.trans halike) hrest hsecond hjoined
    | _ => cases hsame

end Alike

namespace Ending

variable {ε α : Type} [Placed ε]

theorem halts_forget (ending : Ending ε α) : ending.forget.halts = ending.halts := by
  cases ending <;> rfl

theorem view_forget (ending : Ending ε α) : ending.forget.view id = (ending.view id).forget := by
  cases ending <;> rfl

end Ending

namespace Engine

-- The statements of a text, run from a new start.
def runStatements (host : Host σ) (fuel : Nat) (source : String) (items : List Stmt)
    (engine : Engine σ) : Ending Error Completion × Engine σ :=
  engine.enter host <|
    Stmt.execAll host (Below.ofFuel host fuel) fuel ⟨source, .ofRoot engine.root⟩ items

-- Whether the statements of a text end normally, neither with a failure nor by a jump.
def completes (host : Host σ) (fuel : Nat) (source : String) (engine : Engine σ) : Bool :=
  match Program.read source with
  | .ok program =>
    match (engine.runStatements host fuel source program.body).1 with
    | .done .normal => true
    | _ => false
  | .error _ => false

variable {host : Host σ} {fuel : Nat} {source : String} {program : Program}
  {engine after : Engine σ} {ending : Ending Error Completion}

theorem execute_of_read (h : Program.read source = .ok program) :
    engine.execute host fuel source =
      (engine.runStatements host fuel source program.body).map Ending.forget id := by
  rw [execute, h]
  exact Entry.enter_forget _

theorem completes_iff (h : Program.read source = .ok program) :
    engine.completes host fuel source = true ↔
      (engine.runStatements host fuel source program.body).1 = .done .normal := by
  rw [completes, h]
  dsimp only
  split
  · next hnormal => exact ⟨fun _ => hnormal, fun _ => rfl⟩
  · next hother => exact ⟨nofun, fun hnormal => absurd hnormal hother⟩

-- At the end of statements the depth is what it is at a new start.
theorem alike_restart (hk : host.KeepsLevel) {items : List Stmt}
    (h : engine.runStatements host fuel source items = (ending, after)) :
    (after.machine.restart host after.timeout).Alike after.machine ∧ after.root = engine.root := by
  have hlevel := Stmt.level_execAll hk fuel ⟨source, .ofRoot engine.root⟩ items
    (engine.machine.restart host engine.timeout)
  have hmachine : after.machine = (Stmt.execAll host (Below.ofFuel host fuel) fuel
      ⟨source, .ofRoot engine.root⟩ items (engine.machine.restart host engine.timeout)).2 :=
    congrArg (·.2.machine) h.symm
  rw [← hmachine, Machine.root_restart] at hlevel
  exact ⟨Machine.alike_restart host _ hlevel.1, hlevel.2⟩

-- What follows statements that end normally does behind them what it does from a new start.
theorem runStatements_append (hh : host.Indifferent) (hk : host.KeepsLevel)
    (first second joined : String) {items gap rest rest' : List Stmt}
    (hgap : ∀ item ∈ gap, ∃ offset, item = .empty offset)
    (hrest : Stmt.relabelAll .nowhere rest' = Stmt.relabelAll .nowhere rest)
    (hfirst : engine.runStatements host fuel first items = (.done .normal, after)) :
    let result := after.runStatements host fuel second rest
    let result' := engine.runStatements host fuel joined (items ++ (gap ++ rest'))
    result.1.halts ∨ result'.1.halts ∨
      (result'.1.view id = result.1.view id ∧ result.2.machine.Alike result'.2.machine) := by
  obtain ⟨hm, hroot⟩ := alike_restart hk hfirst
  have hstatements : Stmt.execAll host (Below.ofFuel host fuel) fuel ⟨first, .ofRoot engine.root⟩
      items (engine.machine.restart host engine.timeout) = (.done .normal, after.machine) :=
    congrArg (fun result => (result.1, result.2.machine)) hfirst
  unfold runStatements enter
  rw [hroot]
  exact Stmt.alike_append hh fuel hgap hrest hm hstatements rfl rfl

-- The text that two texts are joined to does what the one and then the other do, up to places, if
-- the first ends normally and no deadline comes in between.
theorem execute_join {first second : String} {program next : Program}
    (hf : Program.read first = .ok program) (hs : Program.read second = .ok next) :
    (∃ offset, Program.read (first ++ "\n;\n" ++ second) = .ok ⟨offset, program.body
      ++ ((if program.leftOpen first then [] else [.empty (Text.width first.toList + 1)])
      ++ Stmt.relabelAll (.shift (Text.width first.toList + 3)) next.body)⟩) ∧
    ∀ {σ : Type} {host : Host σ}, host.Indifferent → host.KeepsLevel →
      ∀ (fuel : Nat) (engine : Engine σ), engine.completes host fuel first →
        let joined := engine.execute host fuel (first ++ "\n;\n" ++ second)
        let separate := (engine.execute host fuel first).2.execute host fuel second
        joined.1.halts = false → separate.1.halts = false →
          joined.1.view id = separate.1.view id ∧
          separate.2.machine.Alike joined.2.machine := by
  obtain ⟨offset, hjoined⟩ := Program.read_join hf hs
  refine ⟨⟨offset, hjoined⟩, fun {σ host} hh hk fuel engine hc => ?_⟩
  obtain ⟨after, hfirst⟩ : ∃ after,
      engine.runStatements host fuel first program.body = (.done .normal, after) :=
    ⟨_, Prod.ext ((completes_iff hf).mp hc) rfl⟩
  have hgap : ∀ item ∈ (if program.leftOpen first then [] else
      [Stmt.empty (Text.width first.toList + 1)]), ∃ offset, item = .empty offset := by
    split <;> simp
  have happend := runStatements_append hh hk first second (first ++ "\n;\n" ++ second) hgap
    (Stmt.relabelAll_nowhere_shift (Text.width first.toList + 3) next.body) hfirst
  rw [execute_of_read hf, execute_of_read hjoined, hfirst]
  dsimp only [Prod.map, id_eq] at happend ⊢
  rw [execute_of_read hs]
  simp only [Prod.map, id_eq, Ending.halts_forget, Ending.view_forget]
  intro hj hs
  obtain hhalts | hhalts | ⟨hsame, halike⟩ := happend
  · rw [hs] at hhalts
    cases hhalts
  · rw [hj] at hhalts
    cases hhalts
  · exact ⟨congrArg Ending.forget hsame, halike⟩

section Sample

-- The functions of the probe look at values and counts alone.
theorem indifferent_probe : Probe.host.Indifferent where
  call handler receiver arguments machine readings := by
    have htext : Probe.textArgument machine.heap.unplaced arguments =
        Probe.textArgument machine.heap arguments := by
      funext index
      simp [Probe.textArgument]
    refine Host.idleStep_congr (Probe.call handler receiver arguments) ?_
    unfold Probe.call
    split <;> simp [Machine.idle, Machine.stop, htext]
  construct handler name arguments machine readings := by
    refine Host.idleStep_congr (Probe.construct handler name arguments) ?_
    unfold Probe.construct
    split <;> simp [Machine.idle]
  sameValue _ _ _ _ := rfl
  invoke handler className primitive name arguments machine readings := by
    refine Host.idleStep_congr (Probe.host.invoke handler className primitive name arguments) ?_
    simp [Probe.host, Machine.idle]

theorem keepsLevel_probe : Probe.host.KeepsLevel := fun depth root =>
  Probe.keeps (P := fun _ r d _ => d = depth ∧ r = root) fun _ hm => hm

-- Left without a semicolon at its end.
def opening : String :=
  "function f(x) \x7b return x; \x7d\nvar a = f(1)"

-- Calls the function of the other text, and fails at a number.
def closing : String :=
  "f(a).b = 2;"

def unopened : Engine Probe.State :=
  Engine.create { installStandard := false } default

def joined : Ending Error Unit × Engine Probe.State :=
  unopened.execute Probe.host 10 (opening ++ "\n;\n" ++ closing)

def separate : Ending Error Unit × Engine Probe.State :=
  (unopened.execute Probe.host 10 opening).2.execute Probe.host 10 closing

-- Where a run has failed.
def failureOffset? : Ending Error Unit → Option Nat
  | .failed error => some error.location.offset
  | .done _ | .crashed | .spent => none

-- The first text is left open, so that no empty statement stands in between. The same failure is
-- found in two places.
theorem execute_join_failing :
    (Program.read opening).toOption.map (·.leftOpen opening) = some true ∧
    (Program.read closing).isOk ∧ Probe.host.Indifferent ∧ Probe.host.KeepsLevel ∧
    unopened.completes Probe.host 10 opening ∧
    joined.1.halts = false ∧ separate.1.halts = false ∧
    failureOffset? joined.1 = some 47 ∧ failureOffset? separate.1 = some 4 ∧
    joined.1.view id = separate.1.view id ∧ separate.2.machine.Alike joined.2.machine := by
  have hopening : (Program.read opening).toOption.map (·.leftOpen opening) = some true := by
    decide +kernel
  have hclosing : (Program.read closing).isOk := by decide +kernel
  have hc : unopened.completes Probe.host 10 opening := by decide +kernel
  have hj : joined.1.halts = false ∧ failureOffset? joined.1 = some 47 := by decide +kernel
  have hs : separate.1.halts = false ∧ failureOffset? separate.1 = some 4 := by decide +kernel
  cases hf : Program.read opening with
  | error error =>
    rw [hf] at hopening
    cases hopening
  | ok program =>
    cases hn : Program.read closing with
    | error error =>
      rw [hn] at hclosing
      cases hclosing
    | ok next =>
      rw [hf] at hopening
      have hsame := (execute_join hf hn).2 indifferent_probe keepsLevel_probe 10 unopened hc
        hj.1 hs.1
      exact ⟨hopening, rfl, indifferent_probe, keepsLevel_probe, hc, hj.1, hs.1, hj.2, hs.2, hsame⟩

end Sample

end Engine

end ScriptEngine
