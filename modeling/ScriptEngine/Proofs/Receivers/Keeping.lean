import ScriptEngine.Proofs.Receivers.Binding

-- Every run keeps the heap in agreement with its reports. Parsed functions name no receiver, so of
-- all that a run does only subscript assignments and the entering of functions set one.

namespace ScriptEngine

open Pairing
open Scope (receiverName)

variable {σ ε α β : Type}

theorem IsName.ne_receiverName {name : String} (h : IsName name) : name ≠ receiverName :=
  fun he => h .thisWord he.symm

theorem Closure.Parsed.isName {closure : Closure} (h : closure.Parsed) {name : String}
    (hn : name ∈ closure.function.names) : IsName name := by
  obtain ⟨program, hr, hf⟩ | ⟨value, hr, hf⟩ := h
  · exact (Program.isName_of_read hr).2 _ hf hn
  · exact (Expr.isName_of_read hr).2 _ hf hn

theorem Properties.get?_setAll {name : String} {entries : List (String × Value)}
    (h : ∀ entry ∈ entries, entry.1 ≠ name) (properties : Properties) :
    (properties.setAll entries).get? name = properties.get? name := by
  induction entries generalizing properties with
  | nil => rfl
  | cons first rest ih =>
    have hrest := ih (fun entry hm => h entry (List.mem_cons_of_mem _ hm))
      (properties.set first.1 first.2)
    rw [Properties.setAll, List.foldl_cons, ← Properties.setAll, hrest, Properties.get?_set,
      if_neg (h first List.mem_cons_self).symm]

-- No parameter takes the place of the receiver.
theorem Closure.get?_frame {closure : Closure} (h : closure.Parsed) (receiver : Value)
    (arguments : List Value) :
    (closure.frame receiver arguments).properties.get? receiverName = some receiver := by
  unfold Closure.frame
  dsimp only
  rw [Properties.get?_setAll]
  · rw [Scope.callFrame, Object.set, Properties.get?_set, if_pos rfl]
  · rintro ⟨name, value⟩ hm rfl
    have hname : receiverName ∈ closure.function.names :=
      List.mem_append_left _ (List.mem_append_right _ (List.of_mem_zip hm).1)
    exact (h.isName hname).ne_receiverName rfl

theorem Host.Keeps.and {host : Host σ} {holds holds' : Machine σ → Prop} (h : host.Keeps holds)
    (h' : host.Keeps holds') : host.Keeps fun machine => holds machine ∧ holds' machine :=
  ⟨fun _ _ _ hm => ⟨h.call _ _ _ hm.1, h'.call _ _ _ hm.2⟩,
    fun _ _ _ hm => ⟨h.construct _ _ _ hm.1, h'.construct _ _ _ hm.2⟩,
    fun _ _ _ _ _ hm => ⟨h.invoke _ _ _ _ _ hm.1, h'.invoke _ _ _ _ _ hm.2⟩⟩

theorem Host.SparesReceivers.keeps {host : Host σ} (hh : host.SparesReceivers) {start : Heap}
    {global : ObjectRef} :
    host.Keeps fun machine => start.Spares machine.heap ∧ machine.root = global :=
  Host.keeps_of_step hh (fun _ => ⟨.refl _, rfl⟩)
    fun hm ha => ⟨hm.1.trans ha.1, ha.2.trans hm.2⟩

-- Machines whose objects have the receivers that they had at the start.
def Pairing.sparing (start : Heap) (global : ObjectRef) : Pairing σ σ :=
  holding (fun machine => (start.Spares machine.heap ∧ machine.root = global) ∧
    machine.heap.Parsed) Closure.Parsed (fun _ => True) True

theorem Pairing.mild_sparing {host : Host σ} {start : Heap} {global : ObjectRef}
    (hh : host.SparesReceivers) (hk : host.KeepsParsed) :
    (sparing start global).Mild host host where
  heap := by
    rintro machine _ ⟨rfl, -⟩
    rfl
  closure := by
    rintro machine _ ⟨rfl, -, hp⟩ ref closure hc
    exact hp ref closure hc
  native := fun _ _ _ _ => trivial
  growth := by
    rintro machine _ ⟨rfl, hs, hp⟩ heap hg
    exact ⟨rfl, ⟨hs.1.trans hg.spares, hs.2⟩, hp.change hg.change⟩
  write := by
    rintro machine _ ⟨rfl, hm⟩ change
    exact ⟨rfl, hm⟩
  call _ _ _ := matches_ofStep fun hm => (hh.keeps.and hk.keeps).call _ _ _ hm
  construct _ _ _ := matches_ofStep fun hm => (hh.keeps.and hk.keeps).construct _ _ _ hm
  builds := by
    rintro machine _ ⟨rfl, -, hp⟩ handler name arguments object closure hb hc
    exact hk.builds hp hb hc
  invoke _ _ _ _ _ := matches_ofStep fun hm => (hh.keeps.and hk.keeps).invoke _ _ _ _ _ hm
  sameValue := rfl
  hasMethod := rfl

-- A computation that gives no object another receiver and brings no functions but parsed ones.
def Run.Sparing (run : Run σ ε α) : Prop :=
  ∀ machine, machine.heap.Parsed →
    (machine.heap.Spares (run machine).2.heap ∧ (run machine).2.root = machine.root) ∧
      (run machine).2.heap.Parsed

namespace Run

variable {host : Host σ} {run : Run σ ε α}

theorem sparing_of_matches (h : ∀ start global, (Pairing.sparing start global).Matches run run) :
    run.Sparing := by
  intro machine hp
  exact (h machine.heap machine.root machine machine ⟨rfl, ⟨.refl _, rfl⟩, hp⟩).pairs.2

theorem sparing_idle (h : ∀ machine, (run machine).2 = machine) : run.Sparing := by
  intro machine hp
  rw [h]
  exact ⟨⟨.refl _, rfl⟩, hp⟩

theorem sparing_hold (container key : Value) : (hold container key : Run σ ε Unit).Sparing :=
  sparing_idle fun machine => by rw [hold_apply]

theorem sparing_checkpoint : (Run.checkpoint host).Sparing := by
  intro machine hp
  have hcore := Run.sameCore_checkpoint host machine
  rw [hcore.heap]
  exact ⟨⟨.refl _, hcore.root⟩, hp⟩

theorem sparing_ofExcept (result : Except ε α) : (Run.ofExcept result : Run σ ε α).Sparing := by
  refine sparing_idle fun machine => ?_
  cases result <;> rfl

theorem sparing_onHeap {operation : Heap → α × Heap}
    (h : ∀ heap : Heap, heap.Growth Closure.Parsed (operation heap).2) :
    (Run.onHeap operation : Run σ ε α).Sparing :=
  fun machine hp => ⟨⟨(h machine.heap).spares, rfl⟩, hp.change (h machine.heap).change⟩

theorem sparing_modifyHeap {change : Heap → Heap}
    (hs : ∀ heap : Heap, heap.Spares (change heap))
    (hc : ∀ heap : Heap, heap.Change Closure.Parsed (change heap)) :
    (Run.modifyHeap change : Run σ ε Unit).Sparing :=
  fun machine hp => ⟨⟨hs machine.heap, rfl⟩, hp.change (hc machine.heap)⟩

theorem Sparing.bind {next : α → Run σ ε β} (h : run.Sparing) (hn : ∀ value, (next value).Sparing) :
    (run >>= next).Sparing := by
  intro machine hp
  have hrun := h machine hp
  rw [bind_apply]
  rcases hr : run machine with ⟨ending, after⟩
  rw [hr] at hrun
  obtain ⟨⟨hspares, hroot⟩, hparsed⟩ := hrun
  cases ending with
  | done value =>
    obtain ⟨⟨hlater, hlast⟩, hend⟩ := hn value after hparsed
    exact ⟨⟨hspares.trans hlater, hlast.trans hroot⟩, hend⟩
  | failed _ | crashed | spent => exact ⟨⟨hspares, hroot⟩, hparsed⟩

theorem Sparing.locate {run : Run σ Fault α} (h : run.Sparing) (location : Location) :
    (Run.locate location run).Sparing := by
  intro machine hp
  have hrun := h machine hp
  unfold Run.locate
  rcases hr : run machine with ⟨ending, after⟩
  rw [hr] at hrun
  cases ending <;> exact hrun

-- No name of a tree is that of the receiver.
theorem sparing_assign {scope : Scope} {name : String} (hn : IsName name) (value : Value) :
    (Run.modifyHeap (scope.assign name value) : Run σ ε Unit).Sparing := by
  refine sparing_modifyHeap (fun heap => ?_) fun heap => ?_
  · unfold Scope.assign
    split <;> exact heap.spares_set _ value hn.ne_receiverName
  · unfold Scope.assign
    split <;> exact .set _ _ _

theorem sparing_declare {scope : Scope} {name : String} (hn : IsName name) (value : Value) :
    (Run.modifyHeap (scope.declare name value) : Run σ ε Unit).Sparing :=
  sparing_modifyHeap (fun heap => heap.spares_set _ value hn.ne_receiverName)
    fun _ => .set _ _ _

theorem sparing_setProperty {container value : Value} {name : String} (hn : IsName name) :
    (Run.changeHeap (·.setProperty container name value) : Run σ Fault Unit).Sparing := by
  intro machine hp
  unfold Run.changeHeap Heap.setProperty
  cases container with
  | object ref =>
    exact ⟨⟨machine.heap.spares_set ref value hn.ne_receiverName, rfl⟩, hp.set ref name value⟩
  | _ => exact ⟨⟨.refl _, rfl⟩, hp⟩

variable (hh : host.SparesReceivers) (hk : host.KeepsParsed)
include hh hk

-- A native function that runs no script leaves nothing to the level below.
theorem sparing_native (native : Native) (receiver : Value) (arguments : List Value) :
    (native.apply host (Below.ofFuel host 0) receiver arguments).Sparing := by
  refine sparing_of_matches fun start global => ?_
  have hbelow : (Pairing.sparing start global).Covers (Below.ofFuel host 0) (Below.ofFuel host 0)
      (.ofRoot global) :=
    ⟨fun _ _ _ _ _ => matches_spent trivial, fun _ _ _ => matches_spent trivial⟩
  exact native.matches_apply (mild_sparing hh hk) hbelow trivial receiver arguments

theorem sparing_invoke (content : Instance) (heap : Heap) (name : String)
    (arguments : List Value) : (content.invoke host heap name arguments).Sparing :=
  sparing_of_matches fun _ _ => content.matches_invoke (mild_sparing hh hk) heap name arguments

theorem sparing_construct (name : String) (class_ : ObjectRef) (arguments : List Value) :
    (construct host name class_ arguments).Sparing :=
  sparing_of_matches fun _ _ => matches_construct (mild_sparing hh hk) name class_ arguments

end Run

-- The frame at hand has been reported.
def Scope.Announced (scope : Scope) (history : List Report) : Prop :=
  ∀ frame ∈ scope.inner.head?, ∃ call, .entered frame call ∈ history

namespace Logged

-- The heap stays in agreement with the reports, if the computation starts in a scope.
def Keeps (global : ObjectRef) (scope : Scope) (logged : Logged Report σ ε α) : Prop :=
  ∀ (history : List Report) (machine : Machine σ), Sound global history machine →
    scope.Announced history →
      Sound global (history ++ (logged.run machine).1) (logged.run machine).2.2

variable {global : ObjectRef} {scope : Scope}

theorem keeps_lift {run : Run σ ε α} (h : run.Sparing) : (lift run).Keeps global scope := by
  intro history machine hs _
  obtain ⟨⟨hspares, hroot⟩, hparsed⟩ := h machine hs.parsed
  change Sound global (history ++ []) (run machine).2
  rw [List.append_nil]
  exact hs.spares hspares hroot hparsed

theorem keeps_pure (value : α) : (pure value : Logged Report σ ε α).Keeps global scope :=
  keeps_lift (Run.sparing_idle fun _ => rfl)

theorem keeps_fail (error : ε) :
    (lift (Run.fail error) : Logged Report σ ε α).Keeps global scope :=
  keeps_lift (Run.sparing_idle fun _ => rfl)

theorem Keeps.bind {logged : Logged Report σ ε α} {next : α → Logged Report σ ε β}
    (h : logged.Keeps global scope) (hn : ∀ value, (next value).Keeps global scope) :
    (logged >>= next).Keeps global scope := by
  intro history machine hs ha
  have hsound := h history machine hs ha
  rw [run_bind]
  rcases hl : logged.run machine with ⟨reports, ending, after⟩
  rw [hl] at hsound
  cases ending with
  | done value =>
    dsimp only
    rw [← List.append_assoc]
    refine hn value _ after hsound fun frame hf => ?_
    obtain ⟨call, hm⟩ := ha frame hf
    exact ⟨call, List.mem_append_left _ hm⟩
  | failed _ | crashed | spent => exact hsound

-- What is read off the heap is parsed.
theorem keeps_getHeap_bind {next : Heap → Logged Report σ ε β}
    (hn : ∀ heap : Heap, heap.Parsed → (next heap).Keeps global scope) :
    (lift Run.getHeap >>= next).Keeps global scope :=
  fun history machine hs ha => hn machine.heap hs.parsed history machine hs ha

theorem keeps_get_bind {next : Machine σ → Logged Report σ ε β}
    (hn : ∀ machine : Machine σ, machine.root = global → (next machine).Keeps global scope) :
    (lift Run.get >>= next).Keeps global scope :=
  fun history machine hs ha => hn machine hs.root history machine hs ha

theorem Keeps.mapError {ε' : Type} {logged : Logged Report σ ε α} (h : logged.Keeps global scope)
    (f : ε → ε') : (logged.mapError f).Keeps global scope := by
  intro history machine hs ha
  have hafter : ((logged.mapError f).run machine).2.2 = (logged.run machine).2.2 := by
    change (Run.mapError f (fun _ => (logged.run machine).2) machine).2 = _
    unfold Run.mapError
    rcases (logged.run machine).2 with ⟨ending, after⟩
    cases ending <;> rfl
  rw [hafter]
  exact h history machine hs ha

-- A script shows its reports as they are to the script around it.
theorem Keeps.embed {logged : Logged Report σ Error α} (h : logged.Keeps global scope) :
    (Hooks.reports.embed logged).Keeps global scope := by
  unfold Hooks.embed
  rw [show (Hooks.reports : Hooks σ Report).nested = id from rfl, mapActs_id]
  exact h.mapError _

-- The checkpoints are not reported.
theorem keeps_guarded (host : Host σ) (location : Location) {next : Nat → Logged Report σ Error α}
    (h : ∀ reading, (next reading).Keeps global scope) :
    (Hooks.reports.guarded host location next).Keeps global scope := by
  refine keeps_get_bind fun machine _ => ?_
  exact (keeps_lift (Run.sparing_checkpoint.locate location)).bind fun _ => h machine.readings

theorem Keeps.repeatUntil {step : Logged Report σ ε (Option α)} (h : step.Keeps global scope)
    (fuel : Nat) : (step.repeatUntil fuel).Keeps global scope := by
  induction fuel with
  | zero => exact keeps_lift (Run.sparing_idle fun _ => rfl)
  | succ fuel ih =>
    refine h.bind fun value => ?_
    cases value with
    | none => exact ih
    | some value => exact keeps_pure value

theorem Keeps.deeper {logged : Logged Report σ Error α} (h : logged.Keeps global scope)
    (location : Location) : (logged.deeper location).Keeps global scope := by
  intro history machine hs ha
  unfold Logged.deeper
  dsimp only
  split
  · rw [List.append_nil]
    exact hs
  · have hin : Sound global history { machine with depth := machine.depth + 1 } :=
      hs.spares (.refl _) rfl hs.parsed
    have hsound := h history _ hin ha
    exact hsound.spares (.refl _) rfl hsound.parsed

-- What comes after a function has been entered runs in the frame that has been reported.
theorem Keeps.enter {object : Object} {call : Call} {body : ObjectRef → Logged Report σ ε α}
    (scope : Scope) {place : Scope} (hk : ∀ closure, object.kind ≠ .function closure)
    (ho : object.properties.get? receiverName = some call.receiver)
    (h : ∀ frame, (body frame).Keeps global (scope.child frame)) :
    (lift (Run.onHeap (·.addObject object)) >>= fun frame =>
      noting (.entered frame call) (body frame)).Keeps global place := by
  intro history machine hs _
  have hframe := h (machine.heap.addObject object).1 _ _ (hs.enter call hk ho) (by
    rintro frame ⟨⟩
    exact ⟨call, List.mem_append_right _ List.mem_cons_self⟩)
  rw [List.append_assoc] at hframe
  exact hframe

-- Outside of all functions there is no frame to report.
theorem Keeps.anywhere {logged : Logged Report σ ε α} {root : ObjectRef}
    (h : logged.Keeps global (.ofRoot root)) : logged.Keeps global scope := by
  intro history machine hs _
  refine h history machine hs ?_
  rintro frame ⟨⟩

end Logged

end ScriptEngine
