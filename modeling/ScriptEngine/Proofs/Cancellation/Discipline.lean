import ScriptEngine.Proofs.Cancellation.Record

-- Computations that keep the law of a record, whatever the host does as long as it does not take
-- back a stop.

namespace ScriptEngine

variable {σ ε α β : Type}

-- What may happen to a machine while functions of the host run: a stop stays, and the clock is not
-- turned back.
structure Machine.Continues (before after : Machine σ) : Prop where
  stopped : before.deadline = .stopped → after.deadline = .stopped
  readings : before.readings ≤ after.readings

structure Host.Steady (host : Host σ) : Prop where
  call (handler : Handler) (receiver : Value) (arguments : List Value) (machine : Machine σ) :
    machine.Continues (host.call handler receiver arguments machine).2
  construct (handler : Handler) (name : String) (arguments : List Value) (machine : Machine σ) :
    machine.Continues (host.construct handler name arguments machine).2
  invoke (handler : Handler) (className : String) (primitive : Value) (name : String)
    (arguments : List Value) (machine : Machine σ) :
    machine.Continues (host.invoke handler className primitive name arguments machine).2

-- The deadline and the clock are not touched.
def Manner.quiet : Manner σ where
  changes before after := after.deadline = before.deadline ∧ after.readings = before.readings
  crashes := True
  spends := True

instance Manner.free_quiet : (Manner.quiet : Manner σ).Free where
  refl _ := ⟨rfl, rfl⟩
  trans h h' := ⟨h'.1.trans h.1, h'.2.trans h.2⟩
  update _ _ _ := ⟨rfl, rfl⟩

def Manner.steady : Manner σ where
  changes := Machine.Continues
  crashes := True
  spends := True

instance Manner.free_steady : (Manner.steady : Manner σ).Free where
  refl _ := ⟨id, Nat.le_refl _⟩
  trans h h' := ⟨fun hs => h'.stopped (h.stopped hs), Nat.le_trans h.readings h'.readings⟩
  update _ _ _ := ⟨id, Nat.le_refl _⟩

theorem Host.Steady.suits {host : Host σ} (hh : host.Steady) : Manner.steady.Suits host :=
  ⟨hh.call, hh.construct, hh.invoke⟩

abbrev Run.Quiet (run : Run σ ε α) : Prop := run.KeepsTo .quiet

abbrev Run.Steady (run : Run σ ε α) : Prop := run.KeepsTo .steady

variable {host : Host σ}

-- A checkpoint lets a run go on that has not been stopped, and otherwise tells why it does not.
theorem Run.checkpoint_cases (host : Host σ) (machine : Machine σ) :
    ((machine.hear host).deadline ≠ .stopped ∧
      Run.checkpoint host machine = (.done (), (machine.hear host).tick)) ∨
    ∃ fault, Run.checkpoint host machine = (.failed fault, (machine.hear host).tick) ∧
      fault = if (machine.hear host).deadline = .stopped then .interrupted else .timedOut := by
  unfold Run.checkpoint Deadline.check
  dsimp only
  by_cases hs : (machine.hear host).deadline = .stopped
  · simp [hs]
  · simp only [hs, if_false]
    by_cases ht : (machine.hear host).deadline.word.toNat <
        min Deadline.limit (host.clock (machine.hear host).readings)
    · simp [ht]
    · simp [ht, hs]

-- The record agrees with the machine.
structure Event.Fits (history : List Event) (machine : Machine σ) : Prop where
  lawful : Lawful history
  stopped : .stopped ∈ history ↔ machine.deadline = .stopped
  passed (reading : Nat) : .passed reading ∈ history → reading < machine.readings

-- The fault of a checkpoint, around which every script has put a place.
def Fault.Refuses (depth : Nat) (deadline : Deadline) (fault : Fault) : Prop :=
  ∃ places : List Location, places.length = depth ∧
    fault = places.foldr Fault.nested (if deadline = .stopped then .interrupted else .timedOut)

-- What a computation may begin besides the work behind checkpoints of its own.
inductive Right where
  | nothing
  -- The work of the checkpoint that has just been passed.
  | behind (reading : Nat)
  -- Work that is left of a call, or the call that an entry makes.
  | work (works : List Work) (call : Option Nat)

namespace Right

def Holds (history : List Event) : Right → Prop
  | nothing => True
  | behind reading => history.getLast? = some (.passed reading)
  | work works (some reading) => ∀ work ∈ works,
    .began work (some reading) ∉ history ∧ Event.Proceeds history work reading
  | work _ none => ∀ work, .began work none ∉ history

-- Whose work it is.
def Names (call : Option Nat) : Right → Prop
  | nothing => False
  | behind reading => call = some reading
  | work _ owner => call = owner

-- What a computation with the right may have recorded and left behind.
structure Covers (fault : ε → Fault) (right : Right) (history : List Event) (machine : Machine σ)
    (result : List Event × Ending ε α × Machine σ) : Prop where
  fits : Event.Fits (history ++ result.1) result.2.2
  refused (depth : Nat) : .refused depth ∈ result.1 →
    ∃ error, result.2.1 = .failed error ∧ (fault error).Refuses depth result.2.2.deadline
  readings : machine.readings ≤ result.2.2.readings
  began (work : Work) (call : Option Nat) : .began work call ∈ result.1 →
    right.Names call ∨ ∃ reading, call = some reading ∧ machine.readings ≤ reading

end Right

-- From every machine, after every record that leaves the right.
def Logged.Obeys (fault : ε → Fault) (right : Right) (traced : Traced σ ε α) : Prop :=
  ∀ (history : List Event) (machine : Machine σ), Event.Fits history machine →
    Event.Running history → right.Holds history →
      right.Covers fault history machine (traced.run machine)

section Covers

variable {fault : ε → Fault} {right right' : Right} {history events : List Event}
  {machine after : Machine σ} {ending : Ending ε α}

theorem Event.Fits.quiet (h : Event.Fits history machine) (hd : after.deadline = machine.deadline)
    (hr : after.readings = machine.readings) : Event.Fits history after :=
  ⟨h.lawful, by rw [hd, h.stopped], by rw [hr]; exact h.passed⟩

-- A record sees the stop between two machines.
theorem Event.Fits.stopsBetween (hf : Event.Fits history machine) (hr : Running history)
    (hc : machine.Continues after) :
    Event.Fits (history ++ Event.stopsBetween machine after) after ∧
      Running (history ++ Event.stopsBetween machine after) := by
  have hpassed (reading : Nat) (hm : .passed reading ∈ history) : reading < after.readings :=
    Nat.lt_of_lt_of_le (hf.passed reading hm) hc.readings
  unfold Event.stopsBetween
  split
  · next hs =>
    have hnew : .stopped ∉ history := fun hm => hs.1 (hf.stopped.mp hm)
    refine ⟨⟨lawful_concat.mpr ⟨hf.lawful, hr, hnew⟩, ?_, fun reading hm => ?_⟩, fun depth hm => ?_⟩
    · simp [hs.2]
    · exact hpassed reading (by simpa using hm)
    · exact hr depth (by simpa using hm)
  · next hs =>
    rw [List.append_nil]
    refine ⟨⟨hf.lawful, ?_, hpassed⟩, hr⟩
    rw [hf.stopped]
    constructor
    · exact hc.stopped
    · intro ha
      exact Classical.byContradiction fun hm => hs ⟨hm, ha⟩

namespace Right.Covers

theorem silent (hf : Event.Fits history after) (hr : machine.readings ≤ after.readings) :
    right.Covers fault history machine (([], ending, after)) := by
  refine ⟨?_, nofun, hr, nofun⟩
  rw [List.append_nil]
  exact hf

-- A computation that has not failed has not been refused.
theorem running (h : right.Covers fault history machine (events, ending, after))
    (he : ∀ error, ending ≠ .failed error) (hr : Event.Running history) :
    Event.Running (history ++ events) := by
  intro depth hm
  obtain hm | hm := List.mem_append.mp hm
  · exact hr depth hm
  · obtain ⟨error, hfailed, -⟩ := h.refused depth hm
    exact he error hfailed

-- What ends without a value can be an ending of any type.
theorem change {ending' : Ending ε β}
    (h : right.Covers fault history machine (events, ending, after))
    (he : ∀ error, ending = .failed error → ending' = .failed error) :
    right.Covers fault history machine (events, ending', after) := by
  refine ⟨h.fits, fun depth hm => ?_, h.readings, h.began⟩
  obtain ⟨error, hfailed, hfault⟩ := h.refused depth hm
  exact ⟨error, he error hfailed, hfault⟩

theorem weaken (h : right.Covers fault history machine (events, ending, after))
    (hn : ∀ call, right.Names call → right'.Names call) :
    right'.Covers fault history machine (events, ending, after) :=
  ⟨h.fits, h.refused, h.readings, fun work call hm => (h.began work call hm).imp_left (hn call)⟩

-- One after the other.
theorem append {ending' : Ending ε β} {later : Machine σ} {events' : List Event}
    (h : right.Covers fault history machine (events, ending, after))
    (hrunning : ∀ error, ending ≠ .failed error)
    (hl : right.Covers fault (history ++ events) after (events', ending', later)) :
    right.Covers fault history machine (events ++ events', ending', later) := by
  refine ⟨?_, fun depth hm => ?_, Nat.le_trans h.readings hl.readings, fun work call hm => ?_⟩
  · rw [← List.append_assoc]
    exact hl.fits
  · obtain hm | hm := List.mem_append.mp hm
    · obtain ⟨error, hfailed, -⟩ := h.refused depth hm
      exact absurd hfailed (hrunning error)
    · exact hl.refused depth hm
  · obtain hm | hm := List.mem_append.mp hm
    · exact h.began work call hm
    · refine (hl.began work call hm).imp_right ?_
      rintro ⟨reading, hcall, hle⟩
      exact ⟨reading, hcall, Nat.le_trans h.readings hle⟩

-- Work that is left stays left while a computation begins nothing of it.
theorem holds_work {works : List Work} {call : Option Nat}
    (h : Right.nothing.Covers fault history machine (events, ending, after))
    (hf : Event.Fits history machine) (hw : (Right.work works call).Holds history) :
    (Right.work works call).Holds (history ++ events) := by
  cases call with
  | none =>
    intro work hm
    obtain hm | hm := List.mem_append.mp hm
    · exact hw work hm
    · obtain hnames | ⟨reading, hcall, -⟩ := h.began work none hm
      · exact hnames
      · cases hcall
  | some reading =>
    intro work hwork
    obtain ⟨hnew, earlier, hearlier, hfollows⟩ := hw work hwork
    refine ⟨fun hm => ?_, earlier, List.mem_append_left _ hearlier, hfollows⟩
    obtain hm | hm := List.mem_append.mp hm
    · exact hnew hm
    · obtain hnames | ⟨later, hcall, hle⟩ := h.began work (some reading) hm
      · exact hnames
      · cases hcall
        have hlt := hf.passed reading (hf.lawful.passed_of_began hearlier)
        omega

end Right.Covers

end Covers

namespace Logged

variable {fault : ε → Fault} {right : Right} {works works' : List Work} {call : Option Nat}
  {location : Location}

theorem Obeys.mono {traced : Traced σ ε α} (h : traced.Obeys fault (.work works call))
    (hw : works ⊆ works') : traced.Obeys fault (.work works' call) := by
  intro history machine hf hr hright
  have hholds : (Right.work works call).Holds history := by
    cases call with
    | none => exact hright
    | some reading => exact fun work hm => hright work (hw hm)
  exact (h history machine hf hr hholds).weaken fun _ hn => hn

-- Who begins no work of others may stand anywhere.
theorem Obeys.weaken {traced : Traced σ ε α} (h : traced.Obeys fault .nothing) :
    traced.Obeys fault right :=
  fun history machine hf hr _ => (h history machine hf hr trivial).weaken fun _ hn => hn.elim

theorem obeys_lift {run : Run σ ε α} (h : run.Quiet) : (lift run).Obeys fault right := by
  intro history machine hf _ _
  obtain ⟨⟨hd, hn⟩, -⟩ := h machine
  exact .silent (hf.quiet hd hn) (Nat.le_of_eq hn.symm)

theorem obeys_pure (value : α) : (pure value : Traced σ ε α).Obeys fault right :=
  obeys_lift (Run.keepsTo_pure value)

theorem obeys_asking {run : Run σ ε α} (h : run.Steady) :
    (Hooks.events.asking run).Obeys fault right := by
  intro history machine hf hr _
  obtain ⟨hcontinues, -⟩ := h machine
  obtain ⟨hfits, -⟩ := hf.stopsBetween hr hcontinues
  refine ⟨hfits, fun depth hm => ?_, hcontinues.readings, fun work call hm => ?_⟩
  · cases Event.eq_of_mem_stopsBetween hm
  · cases Event.eq_of_mem_stopsBetween hm

section Work

variable {history : List Event} {machine : Machine σ} {work : Work}

theorem fits_began (hf : Event.Fits history machine) (hr : Event.Running history)
    (hnext : (Event.began work call).Follows history) :
    Event.Fits (history ++ [.began work call]) machine ∧
      Event.Running (history ++ [.began work call]) := by
  refine ⟨⟨Event.lawful_concat.mpr ⟨hf.lawful, hr, hnext⟩, ?_, fun reading hm => ?_⟩,
    fun depth hm => ?_⟩
  · simp [← hf.stopped]
  · exact hf.passed reading (by simpa using hm)
  · exact hr depth (by simpa using hm)

theorem covers_noting {first : Right} {traced : Traced σ ε α} (hcall : right.Names call)
    (hn : ∀ call, first.Names call → right.Names call)
    (h : first.Covers fault (history ++ [.began work call]) machine (traced.run machine)) :
    right.Covers fault history machine ((noting (.began work call) traced).run machine) := by
  refine ⟨?_, fun depth hm => ?_, h.readings, fun other owner hm => ?_⟩
  · have hfits := h.fits
    rw [List.append_assoc] at hfits
    exact hfits
  · obtain he | hm := List.mem_cons.mp hm
    · cases he
    · exact h.refused depth hm
  · obtain he | hm := List.mem_cons.mp hm
    · cases he
      exact .inl hcall
    · exact (h.began other owner hm).imp_left (hn owner)

-- Work that is left begins.
theorem Obeys.beginning {traced : Traced σ ε α} (h : traced.Obeys fault .nothing) (hw : work ∈ works) :
    (noting (.began work call) traced).Obeys fault (.work works call) := by
  intro history machine hf hr hright
  have hnext : (Event.began work call).Follows history := by
    cases call with
    | none => exact hright
    | some reading =>
      obtain ⟨hnew, hproceeds⟩ := hright work hw
      exact ⟨hnew, .inr hproceeds⟩
  obtain ⟨hfits, hrunning⟩ := fits_began hf hr hnext
  exact covers_noting rfl (fun _ => False.elim) (h _ machine hfits hrunning trivial)

-- The first work of a checkpoint begins, which leaves other work.
theorem Obeys.opening (works : List Work) {traced : Traced σ ε α} {reading : Nat}
    (h : traced.Obeys fault (.work works (some reading))) (ho : work.opens)
    (hw : ∀ later ∈ works, later.follows work) :
    (noting (.began work (some reading)) traced).Obeys fault (.behind reading) := by
  intro history machine hf hr hright
  have hnone := hf.lawful.not_began_of_getLast? hright
  have hnext : (Event.began work (some reading)).Follows history :=
    ⟨hnone work, .inl ⟨ho, hright⟩⟩
  obtain ⟨hfits, hrunning⟩ := fits_began hf hr hnext
  refine @covers_noting _ _ _ _ _ _ _ _ _ (.work works (some reading)) _ rfl (fun _ hn => hn)
    (h _ machine hfits hrunning fun later hl => ?_)
  refine ⟨fun hm => ?_, work, by simp, hw later hl⟩
  obtain hm | hm := List.mem_append.mp hm
  · exact hnone later hm
  · cases List.mem_singleton.mp hm
    exact Work.not_follows_self work (hw work hl)

end Work

section Bind

variable {traced : Traced σ ε α} {next : α → Traced σ ε β}

-- One computation after another, as long as the first leaves to the second what it may begin.
theorem Obeys.bind {first later : Right} (h : traced.Obeys fault first)
    (hn : ∀ value, (next value).Obeys fault later)
    (hholds : ∀ history, right.Holds history → first.Holds history)
    (hnames : ∀ call, first.Names call ∨ later.Names call → right.Names call)
    (hkeep : ∀ {history events : List Event} {machine after : Machine σ} {ending : Ending ε α},
      Event.Fits history machine → right.Holds history →
      first.Covers fault history machine (events, ending, after) →
      later.Holds (history ++ events)) :
    (traced >>= next).Obeys fault right := by
  intro history machine hf hr hright
  have hc := h history machine hf hr (hholds history hright)
  rw [run_bind]
  generalize traced.run machine = result at hc ⊢
  obtain ⟨events, ending, after⟩ := result
  have hlater := hkeep hf hright hc
  have hfirst : right.Covers fault history machine (events, ending, after) :=
    hc.weaken fun call hn => hnames call (.inl hn)
  cases ending with
  | done value =>
    have hl := hn value (history ++ events) after hc.fits (hc.running nofun hr) hlater
    exact hfirst.append nofun (hl.weaken fun call hn => hnames call (.inr hn))
  | failed error =>
    refine hfirst.change fun found he => ?_
    cases he
    rfl
  | crashed | spent => exact hfirst.change nofun

theorem Obeys.andThen (h : traced.Obeys fault right)
    (hn : ∀ value, (next value).Obeys fault .nothing) : (traced >>= next).Obeys fault right :=
  h.bind hn (fun _ hright => hright) (fun _ hnames => hnames.elim id False.elim)
    fun _ _ _ => trivial

-- A computation that leaves work to the next.
theorem Obeys.before (h : traced.Obeys fault .nothing)
    (hn : ∀ value, (next value).Obeys fault (.work works call)) :
    (traced >>= next).Obeys fault (.work works call) :=
  h.bind hn (fun _ _ => trivial) (fun _ hnames => hnames.elim False.elim id)
    fun hf hright hc => hc.holds_work hf hright

-- A computation in which nothing happens leaves everything to the next.
theorem obeys_lift_bind {run : Run σ ε α} (h : run.Quiet)
    (hn : ∀ value, (next value).Obeys fault right) : (lift run >>= next).Obeys fault right := by
  intro history machine hf hr hright
  obtain ⟨⟨hd, hreadings⟩, -⟩ := h machine
  have hfits := hf.quiet hd hreadings
  rw [run_bind]
  simp only [lift, watch]
  generalize run machine = result at hfits hreadings ⊢
  obtain ⟨ending, after⟩ := result
  have hsilent : right.Covers fault history machine ([], ending, after) :=
    .silent hfits (Nat.le_of_eq hreadings.symm)
  cases ending with
  | done value =>
    have hl := hn value history after hfits hr hright
    exact hsilent.append nofun (by rwa [List.append_nil])
  | failed _ | crashed | spent => exact .silent hfits (Nat.le_of_eq hreadings.symm)

end Bind

-- Behind a checkpoint its work may begin.
theorem obeys_guarded {next : Nat → Traced σ Error α}
    (hn : ∀ reading, (next reading).Obeys Error.fault (.behind reading)) :
    (Hooks.events.guarded host location next).Obeys Error.fault right := by
  intro history machine hf hr _
  have hreadings : (machine.hear host).tick.readings = machine.readings + 1 := by
    unfold Machine.hear Machine.tick
    split <;> rfl
  have hcontinues : machine.Continues (machine.hear host).tick := by
    refine ⟨?_, hreadings ▸ Nat.le_succ _⟩
    unfold Machine.hear Machine.tick
    split
    · exact fun _ => rfl
    · exact id
  obtain ⟨hfits, hrunning⟩ := hf.stopsBetween hr hcontinues
  rw [Traced.run_guarded]
  obtain ⟨hgo, hc⟩ | ⟨fault, hc, hfault⟩ := Run.checkpoint_cases host machine
  · rw [Run.locate, hc]
    have hnext : (Event.passed machine.readings).Follows
        (history ++ Event.stopsBetween machine (machine.hear host).tick) := by
      refine ⟨fun hm => hgo (hfits.stopped.mp hm), fun earlier hm => ?_⟩
      obtain hm | hm := List.mem_append.mp hm
      · exact hf.passed earlier hm
      · cases Event.eq_of_mem_stopsBetween hm
    have hpassed : Event.Fits (history ++ Event.stopsBetween machine (machine.hear host).tick ++
        [.passed machine.readings]) (machine.hear host).tick := by
      refine ⟨Event.lawful_concat.mpr ⟨hfits.lawful, hrunning, hnext⟩, ?_, fun reading hm => ?_⟩
      · rw [← hfits.stopped]
        simp
      · obtain hm | hm := List.mem_append.mp hm
        · exact hfits.passed reading hm
        · cases List.mem_singleton.mp hm
          exact hreadings ▸ Nat.lt_succ_self _
    have hl := hn machine.readings _ _ hpassed
      (fun depth hm => hrunning depth (by simpa using hm)) List.getLast?_concat
    refine ⟨?_, fun depth hm => ?_, Nat.le_trans hcontinues.readings hl.readings,
      fun work call hm => .inr ?_⟩
    · have hlast := hl.fits
      rw [List.append_assoc, List.append_assoc] at hlast
      exact hlast
    · obtain hm | hm := List.mem_append.mp hm
      · cases Event.eq_of_mem_stopsBetween hm
      · obtain he | hm := List.mem_cons.mp hm
        · cases he
        · exact hl.refused depth hm
    · obtain hm | hm := List.mem_append.mp hm
      · cases Event.eq_of_mem_stopsBetween hm
      · obtain he | hm := List.mem_cons.mp hm
        · cases he
        · obtain hown | ⟨reading, hcall, hle⟩ := hl.began work call hm
          · exact ⟨machine.readings, hown, Nat.le_refl _⟩
          · exact ⟨reading, hcall, Nat.le_trans hcontinues.readings hle⟩
  · rw [Run.locate, hc]
    refine ⟨?_, fun depth hm => ?_, hcontinues.readings, fun work call hm => ?_⟩
    · rw [← List.append_assoc]
      refine ⟨Event.lawful_concat.mpr ⟨hfits.lawful, hrunning, trivial⟩, ?_, fun reading hm => ?_⟩
      · rw [← hfits.stopped]
        simp
      · exact hfits.passed reading (by simpa using hm)
    · obtain hm | hm := List.mem_append.mp hm
      · cases Event.eq_of_mem_stopsBetween hm
      · cases List.mem_singleton.mp hm
        exact ⟨_, rfl, [], rfl, hfault⟩
    · obtain hm | hm := List.mem_append.mp hm
      · cases Event.eq_of_mem_stopsBetween hm
      · cases List.mem_singleton.mp hm

theorem Obeys.locate {traced : Traced σ Fault α} (h : traced.Obeys id right) :
    (traced.locate location).Obeys Error.fault right := by
  intro history machine hf hr hright
  have hc := h history machine hf hr hright
  unfold Logged.locate Logged.mapError Run.mapError
  dsimp only
  generalize traced.run machine = result at hc ⊢
  obtain ⟨events, ending, after⟩ := result
  cases ending with
  | failed fault =>
    refine ⟨hc.fits, fun depth hm => ?_, hc.readings, hc.began⟩
    obtain ⟨found, he, hfault⟩ := hc.refused depth hm
    cases he
    exact ⟨_, rfl, hfault⟩
  | done _ | crashed | spent =>
    refine ⟨hc.fits, fun depth hm => ?_, hc.readings, hc.began⟩
    obtain ⟨found, he, -⟩ := hc.refused depth hm
    cases he

-- A script adds its place to a refusal.
theorem Obeys.embed {traced : Traced σ Error α} (h : traced.Obeys Error.fault right) :
    (Hooks.events.embed traced).Obeys id right := by
  intro history machine hf hr hright
  have hc := h history machine hf hr hright
  have hfits {after : Machine σ} {events : List Event} (h : Event.Fits (history ++ events) after) :
      Event.Fits (history ++ events.map Event.nested) after := by
    refine ⟨h.lawful.nested, ?_, fun reading hm => h.passed reading ?_⟩
    · rw [← h.stopped, List.mem_append, List.mem_append, Event.mem_map_nested rfl]
    · rwa [List.mem_append, Event.mem_map_nested rfl, ← List.mem_append] at hm
  have hbegan (work : Work) (call : Option Nat)
      (hm : .began work call ∈ (traced.run machine).1.map Event.nested) :=
    hc.began work call ((Event.mem_map_nested rfl).mp hm)
  unfold Hooks.embed mapActs Logged.embed Logged.mapError Run.mapError
  dsimp only [Hooks.events]
  generalize traced.run machine = result at hc hbegan ⊢
  obtain ⟨events, ending, after⟩ := result
  cases ending with
  | failed error =>
    refine ⟨hfits hc.fits, fun depth hm => ?_, hc.readings, hbegan⟩
    obtain ⟨inner, hinner, rfl⟩ := Event.refused_of_mem_map_nested hm
    obtain ⟨found, he, places, hlength, hfault⟩ := hc.refused inner hinner
    cases he
    exact ⟨_, rfl, error.location :: places, congrArg (· + 1) hlength,
      congrArg (Fault.nested error.location) hfault⟩
  | done _ | crashed | spent =>
    refine ⟨hfits hc.fits, fun depth hm => ?_, hc.readings, hbegan⟩
    obtain ⟨inner, hinner, rfl⟩ := Event.refused_of_mem_map_nested hm
    obtain ⟨found, he, -⟩ := hc.refused inner hinner
    cases he

theorem Obeys.deeper {traced : Traced σ Error α} (h : traced.Obeys Error.fault right) :
    (traced.deeper location).Obeys Error.fault right := by
  intro history machine hf hr hright
  unfold Logged.deeper
  dsimp only
  split
  · exact .silent hf (Nat.le_refl _)
  · have hc := h history { machine with depth := machine.depth + 1 } (hf.quiet rfl rfl) hr hright
    exact ⟨hc.fits.quiet rfl rfl, hc.refused, hc.readings, hc.began⟩

-- Round after round.
theorem Obeys.repeatUntil {step : Traced σ ε (Option α)} (h : step.Obeys fault .nothing)
    (fuel : Nat) : (step.repeatUntil fuel).Obeys fault .nothing := by
  induction fuel with
  | zero => exact obeys_lift (Run.keepsTo_spent trivial)
  | succ fuel ih =>
    refine h.andThen fun value => ?_
    cases value with
    | none => exact ih
    | some value => exact obeys_pure value

end Logged

end ScriptEngine
