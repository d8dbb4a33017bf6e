import ScriptEngine.Host.Probe
import ScriptEngine.Proofs.Cancellation.Walk
import ScriptEngine.Proofs.Deadline.History

-- Entries of an engine that are stopped while they run.

namespace ScriptEngine

open Logged

variable {σ : Type}

namespace Entry

-- What happens after the entry has started the time anew, how it ends, and the engine it leaves.
def record (host : Host σ) (fuel : Nat) (engine : Engine σ) (entry : Entry) :
    List Event × Ending Error Unit × Engine σ :=
  let (events, ending, machine) :=
    (entry.observed Hooks.events host (.ofFuel Hooks.events host fuel) fuel engine).run
      (engine.machine.restart host engine.timeout)
  (events, ending, { engine with machine })

variable {host : Host σ} {fuel : Nat} {engine : Engine σ}

-- The record changes nothing.
theorem record_eq_perform (entry : Entry) :
    (entry.record host fuel engine).2 = entry.perform host fuel engine :=
  (perform_eq_observed Hooks.events host fuel engine entry).symm

-- Who calls a function itself may begin one.
def right : Entry → Right
  | execute _ | evaluate _ => .nothing
  | callFunction _ _ | callWithin _ _ _ => .work [.function, .native] none

theorem obeys_observed (hh : host.Steady) (entry : Entry) :
    (entry.observed Hooks.events host (.ofFuel Hooks.events host fuel) fuel engine).Obeys
      Error.fault entry.right := by
  have hb := ObservedBelow.obeys_ofFuel hh fuel
  cases entry with
  | execute source =>
    rw [observed]
    cases Program.read source with
    | ok program => exact (Stmt.obeys_observedAll hh hb _).andThen fun _ => obeys_pure _
    | error error => exact obeys_lift (Run.keepsTo_fail _)
  | evaluate source =>
    rw [observed]
    cases Expr.read source with
    | ok value => exact (value.obeys_traced hh hb).andThen fun _ => obeys_pure _
    | error error => exact obeys_lift (Run.keepsTo_fail _)
  | callFunction name arguments =>
    rw [observed]
    cases (engine.heap.get? engine.root name).filter engine.heap.isFunction with
    | some function => exact (obeys_observedCall hh hb).andThen fun _ => obeys_pure _
    | none => exact obeys_lift (Run.keepsTo_fail _)
  | callWithin frame function arguments =>
    exact (obeys_observedCall hh hb).andThen fun _ => obeys_pure _

end Entry

namespace Event

def isCheckpoint : Event → Bool
  | passed _ | refused _ => true
  | began _ _ | stopped => false

-- The events up to the next checkpoint.
def untilCheckpoint (events : List Event) : List Event :=
  events.takeWhile fun event => !event.isCheckpoint

-- The run has been stopped at a moment of its record. Until the next checkpoint nobody notices the
-- stop of another thread, and without a checkpoint nobody ever does.
def StoppedAt (before after : List Event) : Prop :=
  .stopped ∈ before ++ untilCheckpoint after ∨ untilCheckpoint after = after

instance (before after : List Event) : Decidable (StoppedAt before after) :=
  inferInstanceAs (Decidable (_ ∨ _))

theorem mem_left_of_mem_untilCheckpoint {event checkpoint : Event} {first rest : List Event}
    (hc : checkpoint.isCheckpoint) (h : event ∈ untilCheckpoint (first ++ checkpoint :: rest)) :
    event ∈ first := by
  induction first with
  | nil => simp [untilCheckpoint, hc] at h
  | cons other first ih =>
    by_cases ho : other.isCheckpoint
    · simp [untilCheckpoint, ho] at h
    · simp only [untilCheckpoint, List.cons_append, List.takeWhile_cons, ho] at h
      exact (List.mem_cons.mp h).elim (fun he => he ▸ List.mem_cons_self)
        fun hm => List.mem_cons_of_mem _ (ih hm)

theorem StoppedAt.mem {before after first rest : List Event} {checkpoint : Event}
    (h : StoppedAt before after) (ha : after = first ++ checkpoint :: rest)
    (hc : checkpoint.isCheckpoint) : .stopped ∈ before ++ first := by
  subst ha
  obtain h | h := h
  · refine List.mem_append.mpr ((List.mem_append.mp h).imp_right ?_)
    exact mem_left_of_mem_untilCheckpoint hc
  · have hm : checkpoint ∈ untilCheckpoint (first ++ checkpoint :: rest) := by
      rw [h]
      simp
    have hquiet := List.all_eq_true.mp List.all_takeWhile _ hm
    simp [hc] at hquiet

end Event

-- The error of a run that was stopped inside of some scripts.
def Error.Interrupts (depth : Nat) (error : Error) : Prop :=
  error.kind = .timeoutError ∧ ∃ places : List Location, places.length = depth ∧
    error.message = places.foldr (fun place text => place.render ++ ": " ++ text) "Interrupted"

theorem Error.interrupts_of_refuses {error : Error} {depth : Nat}
    (h : error.fault.Refuses depth .stopped) : error.Interrupts depth := by
  obtain ⟨places, hlength, hfault⟩ := h
  have htext (places : List Location) :
      (places.foldr Fault.nested .interrupted).kind = .timeoutError ∧
        (places.foldr Fault.nested .interrupted).message =
          places.foldr (fun place text => place.render ++ ": " ++ text) "Interrupted" := by
    induction places with
    | nil => exact ⟨rfl, rfl⟩
    | cons place rest ih =>
      exact ⟨ih.1, congrArg (fun text => place.render ++ ": " ++ text) ih.2⟩
  rw [Error.Interrupts, Error.kind, Error.message, hfault, if_pos rfl]
  exact ⟨(htext places).1, places, hlength, (htext places).2⟩

-- A run that comes to its end after a moment of its record.
structure Halts (before after : List Event) (ending : Ending Error Unit) : Prop where
  passed (reading : Nat) : .passed reading ∉ after
  -- Calls go on that were at their arguments, and the round that had begun. A call or a round begins
  -- only if its checkpoint was the last event before.
  began (work : Work) (reading : Nat) : .began work (some reading) ∈ after →
    before.getLast? = some (.passed reading) ∨ Event.Proceeds before work reading
  refused (depth : Nat) : .refused depth ∈ after →
    ∃ error, ending = .failed error ∧ error.Interrupts depth

-- From the moment of a stop on, a run whose record keeps the law comes to its end.
theorem Right.Covers.halts {right : Right} {machine final : Machine σ} {before after : List Event}
    {ending : Ending Error Unit}
    (h : right.Covers Error.fault [] machine (before ++ after, ending, final))
    (hs : Event.StoppedAt before after) : Halts before after ending := by
  have hlawful : Event.Lawful (before ++ after) := h.fits.lawful
  have hpassed (reading : Nat) : .passed reading ∉ after := by
    intro hm
    obtain ⟨first, rest, rfl⟩ := List.append_of_mem hm
    obtain ⟨-, hf⟩ := hlawful (before ++ first) (.passed reading) rest (by simp)
    exact hf.1 (hs.mem rfl rfl)
  refine ⟨hpassed, fun work reading hm => hlawful.of_began hpassed hm, fun depth hm => ?_⟩
  obtain ⟨error, hending, hfault⟩ := h.refused depth (List.mem_append_right _ hm)
  have hstopped : final.deadline = .stopped := by
    obtain ⟨first, rest, rfl⟩ := List.append_of_mem hm
    have hmem := List.mem_append_left (.refused depth :: rest) (hs.mem rfl rfl)
    rw [List.append_assoc] at hmem
    exact h.fits.stopped.mp hmem
  change error.fault.Refuses depth final.deadline at hfault
  rw [hstopped] at hfault
  exact ⟨error, hending, Error.interrupts_of_refuses hfault⟩

namespace Entry

variable {host : Host σ}

-- What is recorded keeps the law, and the ending tells of a refusal.
theorem covers_record (hh : host.Steady) (fuel : Nat) (engine : Engine σ) (entry : Entry) :
    entry.right.Covers Error.fault [] (engine.machine.restart host engine.timeout)
      ((entry.record host fuel engine).1, (entry.record host fuel engine).2.1,
        (entry.record host fuel engine).2.2.machine) := by
  have hfits : Event.Fits [] (engine.machine.restart host engine.timeout) := by
    refine ⟨Event.lawful_nil, ?_, nofun⟩
    exact iff_of_false List.not_mem_nil (Deadline.after_ne_stopped _ _)
  have hright : entry.right.Holds [] := by
    cases entry with
    | execute _ | evaluate _ => trivial
    | callFunction _ _ | callWithin _ _ _ => exact fun work => List.not_mem_nil
  exact obeys_observed hh entry [] _ hfits (fun depth => List.not_mem_nil) hright

theorem countP_isDirect_le {entry : Entry} {machine final : Machine σ} {events : List Event}
    {ending : Ending Error Unit}
    (h : entry.right.Covers Error.fault [] machine (events, ending, final)) :
    events.countP Event.isDirect ≤ entry.calls.toNat := by
  have hlawful : Event.Lawful events := h.fits.lawful
  have hnone (hn : entry.right = .nothing) : events.countP Event.isDirect = 0 := by
    refine List.countP_eq_zero.mpr fun event hm hd => ?_
    match event with
    | .began work none =>
      obtain hnames | ⟨reading, hcall, -⟩ := h.began work none hm
      · rw [hn] at hnames
        exact hnames
      · cases hcall
  cases entry with
  | execute _ | evaluate _ => exact Nat.le_of_eq (hnone rfl)
  | callFunction _ _ | callWithin _ _ _ => exact hlawful.countP_isDirect

-- No stop of an entry is lost. Every event happens once, so that a reading stands for one checkpoint,
-- and only the one function that the entry calls itself begins without a checkpoint.
theorem record_halts (hh : host.Steady) (fuel : Nat) (engine : Engine σ) (entry : Entry) :
    (entry.record host fuel engine).2 = entry.perform host fuel engine ∧
    (entry.record host fuel engine).1.Nodup ∧
    (entry.record host fuel engine).1.countP Event.isDirect ≤ entry.calls.toNat ∧
    (.stopped ∈ (entry.record host fuel engine).1 ↔
      (entry.record host fuel engine).2.2.machine.deadline = .stopped) ∧
    ∀ before after, (entry.record host fuel engine).1 = before ++ after →
      Event.StoppedAt before after → Halts before after (entry.record host fuel engine).2.1 := by
  have hc := covers_record hh fuel engine entry
  refine ⟨record_eq_perform entry, hc.fits.lawful.nodup, countP_isDirect_le hc, hc.fits.stopped,
    fun before after he hs => ?_⟩
  rw [he] at hc
  exact hc.halts hs

section Sample

-- The functions of the probe stop a run and never let it go on again.
theorem steady_probe : Probe.host.Steady := by
  have hself (machine : Machine Probe.State) : machine.Continues machine := ⟨id, Nat.le_refl _⟩
  refine ⟨fun handler receiver arguments machine => ?_, fun handler name arguments machine => ?_,
    fun _ _ _ _ _ machine => hself machine⟩
  · change machine.Continues (Probe.call handler receiver arguments machine).2
    unfold Probe.call
    split
    · exact ⟨id, Nat.le_refl _⟩
    · exact hself machine
    · exact ⟨fun _ => rfl, Nat.le_refl _⟩
    · exact ⟨fun _ => rfl, Nat.le_refl _⟩
    · exact hself machine
    · exact ⟨id, Nat.le_refl _⟩
    · exact hself machine
    · exact hself machine
  · change machine.Continues (Probe.construct handler name arguments machine).2
    unfold Probe.construct
    split <;> exact hself machine

-- An engine whose scripts can run scripts and stop themselves.
def stoppable : Engine Probe.State :=
  let engine := Engine.create { installStandard := false } default
  Probe.registerFunction "stop" "stop" (engine.registerNative "exec" (.global .exec))

-- The inner script is stopped among the arguments of a call.
def stopping : Entry :=
  .execute "function f(x) \x7b return x; \x7d exec(\"f(stop()); while (true) \x7b \x7d\");"

def untilStop : List Event :=
  [.passed 1, .began .arguments (some 1), .began .native (some 1), .passed 2,
    .began .arguments (some 2), .passed 3, .began .arguments (some 3), .began .native (some 3),
    .stopped]

-- The function is still entered, but not the loop.
theorem record_stopping : Probe.host.Steady ∧
    (stopping.record Probe.host 10 stoppable).1 =
      untilStop ++ [.began .function (some 2), .refused 1] ∧
    ∃ error, (stopping.perform Probe.host 10 stoppable).1 = .failed error ∧
      error.Interrupts 1 := by
  have hrecord : (stopping.record Probe.host 10 stoppable).1 =
      untilStop ++ [.began .function (some 2), .refused 1] := by
    decide +kernel
  have hstopped : Event.StoppedAt untilStop [.began .function (some 2), .refused 1] := by
    decide
  obtain ⟨hperform, -, -, -, hhalts⟩ := record_halts steady_probe 10 stoppable stopping
  rw [← hperform]
  exact ⟨steady_probe, hrecord, (hhalts _ _ hrecord hstopped).refused 1 (by decide)⟩

end Sample

end Entry

end ScriptEngine
