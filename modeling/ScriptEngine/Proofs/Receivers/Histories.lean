import ScriptEngine.Host.Probe
import ScriptEngine.Proofs.Receivers.Walk

-- The histories of engines: all that has been reported on receivers since an engine is there. They
-- explain every value that `this` has ever given on it.

namespace ScriptEngine

open Logged
open Scope (receiverName)

variable {σ : Type} {host : Host σ} {history : List Report} {engine : Engine σ}

-- What an entry reports.
def Entry.reports (host : Host σ) (fuel : Nat) (engine : Engine σ) (entry : Entry) : List Report :=
  ((entry.reported host (ReportedBelow.ofFuel host fuel) fuel engine).run
    (engine.machine.restart host engine.timeout)).1

-- An engine that has been come to, with all that has been reported on the way.
inductive Engine.Reported (host : Host σ) : List Report → Engine σ → Prop where
  | create (config : Config) (hostState : σ) :
    Reported host [] (Engine.create config hostState)
  | register {history : List Report} {engine : Engine σ} (name : String) (native : Native) :
    Reported host history engine →
    Reported host
      (history ++ [.stored engine.root name (.native (engine.heap.addNative native).1)])
      (engine.registerNative name native)
  | perform {history : List Report} {engine : Engine σ} (fuel : Nat) (entry : Entry) :
    Reported host history engine →
    Reported host (history ++ entry.reports host fuel engine) (entry.perform host fuel engine).2

-- Every engine that can be come to has a history.
theorem Engine.Reached.exists_reported (h : Engine.Reached host engine) :
    ∃ history, Engine.Reported host history engine := by
  induction h with
  | create config hostState => exact ⟨[], .create config hostState⟩
  | register name native _ ih =>
    obtain ⟨history, h⟩ := ih
    exact ⟨_, h.register name native⟩
  | perform fuel entry _ ih =>
    obtain ⟨history, h⟩ := ih
    exact ⟨_, h.perform fuel entry⟩

theorem Heap.spares_foldl {α : Type} {step : Heap → α → Heap} {items : List α}
    (h : ∀ (heap : Heap), ∀ item ∈ items, heap.Spares (step heap item)) (heap : Heap) :
    heap.Spares (items.foldl step heap) := by
  induction items generalizing heap with
  | nil => exact .refl heap
  | cons first rest ih =>
    have hfirst := h heap first List.mem_cons_self
    exact hfirst.trans (ih (fun heap item hm => h heap item (List.mem_cons_of_mem _ hm)) _)

theorem Heap.spares_installNatives {natives : List (String × Native)}
    (h : receiverName ∉ natives.map (·.1)) (heap : Heap) (ref : ObjectRef) :
    heap.Spares (heap.installNatives ref natives) := by
  refine spares_foldl (fun heap entry hm => ?_) heap
  have hadded : heap.Spares (heap.addNative entry.2).2 := ⟨Nat.le_refl _, fun _ _ => rfl⟩
  refine hadded.trans (spares_set _ ref _ fun hn => h ?_)
  exact List.mem_map.mpr ⟨entry, hm, hn⟩

-- The names under which a registry puts anything on an object.
def Registry.names (registry : Registry) : List String :=
  registry.constants.map (·.1) ++ registry.methods.map (·.1) ++
    registry.objects.flatMap fun blueprint => blueprint.name :: blueprint.methods.map (·.1)

theorem Registry.spares_install {registry : Registry} (h : receiverName ∉ registry.names)
    (heap : Heap) (root : ObjectRef) : heap.Spares (registry.install heap root) := by
  simp only [names, List.mem_append, List.mem_flatMap, List.mem_cons, not_or, not_exists,
    not_and] at h
  obtain ⟨⟨hconstants, hmethods⟩, hobjects⟩ := h
  have hset (heap : Heap) : heap.Spares
      (registry.constants.foldl (fun heap entry => heap.set root entry.1 entry.2) heap) := by
    refine Heap.spares_foldl (fun heap entry hm => heap.spares_set root _ fun hn => ?_) heap
    exact hconstants (List.mem_map.mpr ⟨entry, hm, hn⟩)
  refine (hset heap).trans ((Heap.spares_installNatives hmethods _ root).trans ?_)
  refine Heap.spares_foldl (fun heap blueprint hm => ?_) _
  obtain ⟨hname, hinner⟩ := hobjects blueprint hm
  have hbuilt : heap.Spares (blueprint.build heap).2 :=
    (heap.adds_addObject _).spares.trans (Heap.spares_installNatives hinner _ _)
  exact hbuilt.trans (Heap.spares_set _ root _ fun hn => hname hn.symm)

-- No global of a new engine takes the place of the receiver.
theorem Engine.sound_create (config : Config) (hostState : σ) :
    Sound (Engine.create config hostState).root [] (Engine.create config hostState).machine := by
  let start := Heap.empty.addObject .empty
  have hnames : receiverName ∉ Registry.standard.names := by decide +kernel
  have hspares : start.2.Spares (Engine.create config hostState).heap := by
    unfold Engine.create Engine.heap
    dsimp only
    split
    · exact Registry.spares_install hnames start.2 start.1
    · exact .refl start.2
  have hinside : start.1.index < start.2.objects.size := Nat.one_pos
  exact {
    parsed := Engine.parsed_create config hostState
    root := rfl
    inside := Nat.lt_of_lt_of_le hinside hspares.size
    outside := by
      have hget : (Engine.create config hostState).heap.get? start.1 receiverName = none :=
        hspares.receiver start.1 hinside
      change ((Engine.create config hostState).heap.get? start.1 receiverName).getD _ = _
      rw [hget]
      rfl
    frame := fun hm => absurd hm List.not_mem_nil
    explained := fun hs => by simp at hs }

theorem Engine.sound_register (h : Sound engine.root history engine.machine) (name : String)
    (native : Native) : Sound engine.root
      (history ++ [.stored engine.root name (.native (engine.heap.addNative native).1)])
      (engine.registerNative name native).machine := by
  have hadded : Sound engine.root history
      { engine.machine with heap := (engine.heap.addNative native).2 } :=
    h.spares ⟨Nat.le_refl _, fun _ _ => rfl⟩ rfl h.parsed
  exact hadded.store engine.root name _

theorem Engine.sound_enter {logged : Logged Report σ Error Unit}
    (h : Sound engine.root history engine.machine)
    (hl : logged.Keeps engine.root (.ofRoot engine.root)) :
    Sound engine.root (history ++ (logged.run (engine.machine.restart host engine.timeout)).1)
      (engine.enter host logged.erase).2.machine := by
  have hstart : Sound engine.root history (engine.machine.restart host engine.timeout) := by
    refine h.spares ?_ (Machine.root_restart _ _ _) ?_
    · rw [Machine.heap_restart]
      exact .refl _
    · rw [Machine.heap_restart]
      exact h.parsed
  refine hl history _ hstart ?_
  rintro frame ⟨⟩

theorem Entry.sound_perform (hh : host.SparesReceivers) (hk : host.KeepsParsed)
    (h : Sound engine.root history engine.machine) (fuel : Nat) (entry : Entry) :
    Sound engine.root (history ++ entry.reports host fuel engine)
      (entry.perform host fuel engine).2.machine := by
  rw [perform_eq_observed Hooks.reports, reports]
  exact Engine.sound_enter h (entry.keeps_observed (ObservedBelow.keeps_ofFuel hh hk fuel))

theorem Engine.Reported.sound (hh : host.SparesReceivers) (hk : host.KeepsParsed)
    (h : Engine.Reported host history engine) : Sound engine.root history engine.machine := by
  induction h with
  | create config hostState => exact Engine.sound_create config hostState
  | register name native _ ih => exact Engine.sound_register ih name native
  | perform fuel entry _ ih =>
    have hsound := entry.sound_perform hh hk ih fuel
    have hroot : (entry.perform host fuel _).2.root = _ := hsound.root
    rw [hroot]
    exact hsound

-- The report is that something has been stored as the receiver of an object.
def Report.touches (ref : ObjectRef) : Report → Bool
  | stored container name _ => container = ref && name = receiverName
  | _ => false

def Untouched (ref : ObjectRef) (reports : List Report) : Prop :=
  ∀ report ∈ reports, report.touches ref = false

theorem Report.rebind_of_not_touches {ref : ObjectRef} {value : Value} {report : Report}
    (h : report.touches ref = false) : report.rebind ref value = value := by
  cases report with
  | stored container name new =>
    refine if_neg fun hs => ?_
    simp [touches, hs] at h
  | _ => rfl

theorem bound_of_untouched {ref : ObjectRef} {start : Value} {reports : List Report}
    (h : Untouched ref reports) : bound ref start reports = start := by
  unfold bound
  induction reports generalizing start with
  | nil => rfl
  | cons first rest ih =>
    rw [List.foldl_cons, Report.rebind_of_not_touches (h first List.mem_cons_self)]
    exact ih fun report hm => h report (List.mem_cons_of_mem _ hm)

def Expr.isReceiver : Expr → Bool
  | .receiver _ => true
  | _ => false

theorem Expr.read_this : ∃ offset, Expr.read "this" = .ok (.receiver offset) := by
  have hread : (Expr.read "this").toOption.any isReceiver = true := by decide +kernel
  cases hr : Expr.read "this" with
  | error error =>
    rw [hr] at hread
    cases hread
  | ok value =>
    rw [hr] at hread
    cases value with
    | receiver offset => exact ⟨offset, rfl⟩
    | _ => cases hread

-- The reports explain all that `this` gives. Outside of all functions it gives the global object, and
-- in an invocation of a function the receiver that the function has been entered with, until
-- something else has been stored there under the name of the receiver. Performing an entry with its
-- reports is performing it, so they leave nothing out.
theorem Engine.Reported.explains (hh : host.SparesReceivers) (hk : host.KeepsParsed)
    (h : Engine.Reported host history engine) :
    (∀ (fuel : Nat) (entry : Entry), entry.perform host fuel engine = engine.enter host
      (entry.reported host (ReportedBelow.ofFuel host fuel) fuel engine).erase) ∧
    (∀ fuel : Nat, (engine.evaluate host fuel "this").1 =
      .done (bound engine.root (.object engine.root) history)) ∧
    (∀ past value rest, history = past ++ .received none value :: rest →
      value = bound engine.root (.object engine.root) past ∧
      (Untouched engine.root past → value = .object engine.root)) ∧
    ∀ past frame value rest, history = past ++ .received (some frame) value :: rest →
      ∃ call since, Invoked past frame call since ∧
        value = bound frame call.receiver since ∧
        (Untouched frame since → value = call.receiver) := by
  have hs := h.sound hh hk
  refine ⟨fun fuel entry => entry.perform_eq_observed Hooks.reports host fuel engine, fun fuel => ?_,
    fun past value rest hsplit => ?_, fun past frame value rest hsplit => ?_⟩
  · obtain ⟨offset, hread⟩ := Expr.read_this
    have hvalue : (engine.heap.get? engine.root receiverName).getD (.object engine.root) =
        bound engine.root (.object engine.root) history := hs.outside
    rw [evaluate, hread, ← hvalue]
    rfl
  · have hvalue : value = bound engine.root (.object engine.root) past := hs.explained hsplit
    exact ⟨hvalue, fun hu => hvalue.trans (bound_of_untouched hu)⟩
  · obtain ⟨call, since, hinvoked, hvalue⟩ := hs.explained hsplit
    exact ⟨call, since, hinvoked, hvalue, fun hu => hvalue.trans (bound_of_untouched hu)⟩

section Sample

-- A function of the probe may make an array, which changes no object.
theorem sparesReceivers_probe : Probe.host.SparesReceivers := fun start =>
  Probe.keeps (P := fun heap root _ _ => start.heap.Spares heap ∧ root = start.root)
    fun _ hm => ⟨hm.1.trans ⟨Nat.le_refl _, fun _ _ => rfl⟩, hm.2⟩

theorem keepsParsed_probe : Probe.host.KeepsParsed where
  keeps := Probe.keeps (P := fun heap _ _ _ => heap.Parsed) fun _ hm => hm
  builds {machine handler name arguments object closure} _ hbuilt hk := by
    change (Probe.construct handler name arguments machine).1 = _ at hbuilt
    unfold Probe.construct at hbuilt
    split at hbuilt <;> cases hbuilt <;> cases hk

def Report.gives (frame object : ObjectRef) : Report → Bool
  | received (some place) (.object ref) => place = frame && ref = object
  | _ => false

theorem Report.eq_of_gives {frame object : ObjectRef} {report : Report}
    (h : report.gives frame object = true) : report = .received (some frame) (.object object) := by
  unfold gives at h
  split at h
  · simp only [Bool.and_eq_true, decide_eq_true_eq] at h
    rw [h.1, h.2]
  · cases h

def untried : Engine Probe.State :=
  Engine.create { installStandard := false } default

-- A method that calls a constructor without `new`, which marks the frame of the method, and gives
-- its own receiver.
def marking : Entry :=
  .execute ("function P(x) \x7b this.x = x; \x7d var p = new P(1); " ++
    "var o = \x7b m: function () \x7b P(2); return this; \x7d \x7d; o.m();")

-- The method gives the object in spite of the mark.
theorem Engine.Reported.explains_marking :
    Probe.host.SparesReceivers ∧ Probe.host.KeepsParsed ∧
    Engine.Reported Probe.host (marking.reports Probe.host 10 untried)
      (marking.perform Probe.host 10 untried).2 ∧
    ∃ past call since rest, marking.reports Probe.host 10 untried =
        past ++ .received (some ⟨6⟩) (.object ⟨5⟩) :: rest ∧
      Invoked past ⟨6⟩ call since ∧ call.receiver = .object ⟨5⟩ := by
  have hh := sparesReceivers_probe
  have hk := keepsParsed_probe
  have huntried : Engine.Reported Probe.host [] untried := .create { installStandard := false } default
  have hreported := huntried.perform 10 marking
  rw [List.nil_append] at hreported
  have hreports : (marking.reports Probe.host 10 untried).any (Report.gives ⟨6⟩ ⟨5⟩) = true ∧
      ∀ report ∈ marking.reports Probe.host 10 untried, report.touches ⟨6⟩ = false := by
    decide +kernel
  obtain ⟨hgiven, huntouched⟩ := hreports
  obtain ⟨report, hm, hgives⟩ := List.any_eq_true.mp hgiven
  obtain rfl := Report.eq_of_gives hgives
  obtain ⟨past, rest, hsplit⟩ := List.append_of_mem hm
  have hexplained := (explains hh hk hreported).2.2.2 past _ _ rest hsplit
  obtain ⟨call, since, hinvoked, -, hkept⟩ := hexplained
  refine ⟨hh, hk, hreported, past, call, since, rest, hsplit, hinvoked, (hkept ?_).symm⟩
  intro report hm
  refine huntouched report ?_
  rw [hsplit]
  exact List.mem_append_left _ (hinvoked.mem_since hm)

-- Stores under the name of the receiver, outside of all functions and in a function.
def storing : Entry :=
  .execute ("function g() \x7b this[\"this\"] = 1; \x7d " ++
    "function f() \x7b var before = this; g(); return before == this; \x7d this[\"this\"] = 5;")

def overwritten : Engine Probe.State :=
  (storing.perform Probe.host 10 untried).2

-- Outside of all functions `this` is 5 from then on, and not the global object. In a function whose
-- frame is the receiver of another one, `this` is not the same before and after the call.
theorem Engine.receiver_overwritten :
    (overwritten.evaluate Probe.host 10 "this").1 ≠ .done (.object overwritten.root) ∧
    (overwritten.evaluate Probe.host 10 "this").1.value?.map Heap.empty.toText = some "5" ∧
    (overwritten.evaluate Probe.host 10 "f()").1.value?.map Heap.empty.toText = some "false" := by
  have htexts : (overwritten.evaluate Probe.host 10 "this").1.value?.map Heap.empty.toText =
        some "5" ∧
      (overwritten.evaluate Probe.host 10 "f()").1.value?.map Heap.empty.toText =
        some "false" := by decide +kernel
  have hobject (ref : ObjectRef) : Heap.empty.toText (.object ref) ≠ "5" := by
    simp [Heap.toText, Heap.textWithin, Heap.unwrap, Heap.unwrapWithin, Heap.plainText,
      Heap.object, Heap.empty, Object.empty]
  refine ⟨fun hglobal => ?_, htexts⟩
  have htext := htexts.1
  rw [hglobal] at htext
  exact hobject _ (Option.some.inj htext)

end Sample

end ScriptEngine
