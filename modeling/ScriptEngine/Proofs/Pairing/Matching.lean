import ScriptEngine.Proofs.Runs.Computation

-- Two runs side by side. A pairing says which machines go together; runs match if paired machines
-- come to the same ending and are paired again. With the same machine on both sides, a pairing is an
-- invariant.

namespace ScriptEngine

variable {σ τ ε α β : Type}

-- What the engine does to a heap: it sets properties, changes arrays and adds things. The functions
-- that it adds are accepted ones.
inductive Heap.Change (accepts : Closure → Prop) (heap : Heap) : Heap → Prop where
  | nothing : Change accepts heap heap
  | set (ref : ObjectRef) (name : String) (value : Value) :
    Change accepts heap (heap.set ref name value)
  | addObject (object : Object) (h : ∀ closure, object.kind = .function closure → accepts closure) :
    Change accepts heap (heap.addObject object).2
  | addArray (elements : Array Value) : Change accepts heap (heap.addArray elements).2
  | modifyArray (ref : ArrayRef) (change : Array Value → Array Value) :
    Change accepts heap (heap.modifyArray ref change)

-- What native functions do to a heap: they change arrays and add things, and set no property.
inductive Heap.Growth (accepts : Closure → Prop) (heap : Heap) : Heap → Prop where
  | nothing : Growth accepts heap heap
  | addObject (object : Object) (h : ∀ closure, object.kind = .function closure → accepts closure) :
    Growth accepts heap (heap.addObject object).2
  | addArray (elements : Array Value) : Growth accepts heap (heap.addArray elements).2
  | modifyArray (ref : ArrayRef) (change : Array Value → Array Value) :
    Growth accepts heap (heap.modifyArray ref change)

section Change

variable {heap after : Heap} {accepts : Closure → Prop}

theorem Heap.object_modifyObject (heap : Heap) (ref other : ObjectRef) (change : Object → Object) :
    (heap.modifyObject ref change).object other = heap.object other ∨
      (heap.modifyObject ref change).object other = change (heap.object other) := by
  unfold modifyObject object
  rw [Array.getElem?_modify]
  split
  · cases heap.objects[other.index]? with
    | none => exact .inl rfl
    | some object => exact .inr rfl
  · exact .inl rfl

theorem Heap.Change.closure (hc : heap.Change accepts after) {ref : ObjectRef} {closure : Closure}
    (h : (after.object ref).closure? = some closure) :
    (heap.object ref).closure? = some closure ∨ accepts closure := by
  cases hc with
  | nothing => exact .inl h
  | set other name value =>
    unfold Heap.set at h
    obtain he | he := heap.object_modifyObject other ref (·.set name value) <;> rw [he] at h
    · exact .inl h
    · exact .inl h
  | addObject object haccepts =>
    simp only [Heap.addObject, Heap.object, Array.getElem?_push] at h
    split at h
    · refine .inr (haccepts closure ?_)
      simp only [Object.closure?, Option.getD_some] at h
      split at h <;> simp_all
    · exact .inl h
  | addArray elements => exact .inl h
  | modifyArray other change => exact .inl h

theorem Heap.Growth.change (hg : heap.Growth accepts after) : heap.Change accepts after := by
  cases hg with
  | nothing => exact .nothing
  | addObject object h => exact .addObject object h
  | addArray elements => exact .addArray elements
  | modifyArray ref change => exact .modifyArray ref change

theorem Heap.Change.natives (hc : heap.Change accepts after) : after.natives = heap.natives := by
  cases hc <;> rfl

end Change

structure Pairing (σ τ : Type) where
  Pairs : Machine σ → Machine τ → Prop
  -- The user functions and the native functions that may be on the heaps.
  accepts : Closure → Prop
  admits : Native → Prop
  -- Whether the runs may spend their fuel.
  spends : Prop

namespace Pairing

-- The same ending, and machines that are paired.
structure Ends (pairing : Pairing σ τ) (result : Ending ε α × Machine σ)
    (other : Ending ε α × Machine τ) : Prop where
  same : other.1 = result.1
  pairs : pairing.Pairs result.2 other.2
  spent : result.1 = .spent → pairing.spends

def Matches (pairing : Pairing σ τ) (run : Run σ ε α) (other : Run τ ε α) : Prop :=
  ∀ machine machine', pairing.Pairs machine machine' →
    pairing.Ends (run machine) (other machine')

-- What paired machines have in common, and what leaves them paired.
structure Lawful (pairing : Pairing σ τ) (host : Host σ) (other : Host τ) : Prop where
  heap {machine machine'} : pairing.Pairs machine machine' → machine'.heap = machine.heap
  root {machine machine'} : pairing.Pairs machine machine' → machine'.root = machine.root
  closure {machine machine'} : pairing.Pairs machine machine' → ∀ {ref closure},
    (machine.heap.object ref).closure? = some closure → pairing.accepts closure
  native {machine machine'} : pairing.Pairs machine machine' → ∀ {ref native},
    machine.heap.native? ref = some native → pairing.admits native
  change {machine machine'} : pairing.Pairs machine machine' → ∀ {heap},
    machine.heap.Change pairing.accepts heap →
      pairing.Pairs { machine with heap } { machine' with heap }
  write {machine machine'} : pairing.Pairs machine machine' → ∀ change : Transcript → Transcript,
    pairing.Pairs { machine with transcript := change machine.transcript }
      { machine' with transcript := change machine'.transcript }
  checkpoint : pairing.Matches (Run.checkpoint host) (Run.checkpoint other)
  call (handler : Handler) (receiver : Value) (arguments : List Value) :
    pairing.Matches (Run.ofStep (host.call handler receiver arguments))
      (Run.ofStep (other.call handler receiver arguments))
  construct (handler : Handler) (name : String) (arguments : List Value) :
    pairing.Matches (Run.ofStep (host.construct handler name arguments))
      (Run.ofStep (other.construct handler name arguments))
  -- A class of the host builds no function but accepted ones.
  builds {machine machine'} : pairing.Pairs machine machine' →
    ∀ {handler name arguments object closure},
      (host.construct handler name arguments machine).1 = .ok object →
        object.kind = .function closure → pairing.accepts closure
  invoke (handler : Handler) (className : String) (primitive : Value) (name : String)
    (arguments : List Value) :
    pairing.Matches (Run.ofStep (host.invoke handler className primitive name arguments))
      (Run.ofStep (other.invoke handler className primitive name arguments))
  sameValue : other.sameValue = host.sameValue
  hasMethod : other.hasMethod = host.hasMethod

-- As much of this as native functions ask for.
structure Mild (pairing : Pairing σ τ) (host : Host σ) (other : Host τ) : Prop where
  heap {machine machine'} : pairing.Pairs machine machine' → machine'.heap = machine.heap
  closure {machine machine'} : pairing.Pairs machine machine' → ∀ {ref closure},
    (machine.heap.object ref).closure? = some closure → pairing.accepts closure
  native {machine machine'} : pairing.Pairs machine machine' → ∀ {ref native},
    machine.heap.native? ref = some native → pairing.admits native
  growth {machine machine'} : pairing.Pairs machine machine' → ∀ {heap},
    machine.heap.Growth pairing.accepts heap →
      pairing.Pairs { machine with heap } { machine' with heap }
  write {machine machine'} : pairing.Pairs machine machine' → ∀ change : Transcript → Transcript,
    pairing.Pairs { machine with transcript := change machine.transcript }
      { machine' with transcript := change machine'.transcript }
  call (handler : Handler) (receiver : Value) (arguments : List Value) :
    pairing.Matches (Run.ofStep (host.call handler receiver arguments))
      (Run.ofStep (other.call handler receiver arguments))
  construct (handler : Handler) (name : String) (arguments : List Value) :
    pairing.Matches (Run.ofStep (host.construct handler name arguments))
      (Run.ofStep (other.construct handler name arguments))
  builds {machine machine'} : pairing.Pairs machine machine' →
    ∀ {handler name arguments object closure},
      (host.construct handler name arguments machine).1 = .ok object →
        object.kind = .function closure → pairing.accepts closure
  invoke (handler : Handler) (className : String) (primitive : Value) (name : String)
    (arguments : List Value) :
    pairing.Matches (Run.ofStep (host.invoke handler className primitive name arguments))
      (Run.ofStep (other.invoke handler className primitive name arguments))
  sameValue : other.sameValue = host.sameValue
  hasMethod : other.hasMethod = host.hasMethod

theorem Lawful.mild {pairing : Pairing σ τ} {host : Host σ} {other : Host τ}
    (hp : pairing.Lawful host other) : pairing.Mild host other where
  heap := hp.heap
  closure := hp.closure
  native := hp.native
  growth hm _ hg := hp.change hm hg.change
  write := hp.write
  call := hp.call
  construct := hp.construct
  builds := hp.builds
  invoke := hp.invoke
  sameValue := hp.sameValue
  hasMethod := hp.hasMethod

section Ends

variable {pairing : Pairing σ τ} {machine : Machine σ} {machine' : Machine τ}

theorem ends_done {value : α} (h : pairing.Pairs machine machine') :
    pairing.Ends (.done value, machine) ((.done value, machine') : Ending ε α × Machine τ) :=
  ⟨rfl, h, nofun⟩

theorem ends_failed {error : ε} (h : pairing.Pairs machine machine') :
    pairing.Ends (.failed error, machine) ((.failed error, machine') : Ending ε α × Machine τ) :=
  ⟨rfl, h, nofun⟩

theorem ends_crashed (h : pairing.Pairs machine machine') :
    pairing.Ends (.crashed, machine) ((.crashed, machine') : Ending ε α × Machine τ) :=
  ⟨rfl, h, nofun⟩

theorem ends_spent (hs : pairing.spends) (h : pairing.Pairs machine machine') :
    pairing.Ends (.spent, machine) ((.spent, machine') : Ending ε α × Machine τ) :=
  ⟨rfl, h, fun _ => hs⟩

theorem Ends.exists_eq {result : Ending ε α × Machine σ} {other : Ending ε α × Machine τ}
    (h : pairing.Ends result other) :
    ∃ ending after after', result = (ending, after) ∧ other = (ending, after') ∧
      pairing.Pairs after after' ∧ (ending = .spent → pairing.spends) := by
  obtain ⟨ending, after⟩ := result
  obtain ⟨ending', after'⟩ := other
  obtain ⟨rfl, hpairs, hspent⟩ := h
  exact ⟨ending', after, after', rfl, rfl, hpairs, hspent⟩

end Ends

section Matches

variable {pairing : Pairing σ τ} {location : Location}

theorem matches_pure (value : α) : pairing.Matches (pure value : Run σ ε α) (pure value) :=
  fun _ _ h => ends_done h

theorem matches_fail (error : ε) : pairing.Matches (Run.fail error : Run σ ε α) (Run.fail error) :=
  fun _ _ h => ends_failed h

theorem matches_spent (hs : pairing.spends) :
    pairing.Matches (Run.spent : Run σ ε α) Run.spent :=
  fun _ _ h => ends_spent hs h

theorem matches_ofExcept (result : Except ε α) :
    pairing.Matches (Run.ofExcept result : Run σ ε α) (Run.ofExcept result) := by
  cases result with
  | ok value => exact matches_pure value
  | error error => exact matches_fail error

-- One computation after another. The second may rely on what is known of the value of the first.
theorem Matches.bind_of {run : Run σ ε α} {other : Run τ ε α} {next : α → Run σ ε β}
    {next' : α → Run τ ε β} {post : α → Prop} (h : pairing.Matches run other)
    (hpost : ∀ machine machine', pairing.Pairs machine machine' → ∀ value,
      (run machine).1 = .done value → post value)
    (hn : ∀ value, post value → pairing.Matches (next value) (next' value)) :
    pairing.Matches (run >>= next) (other >>= next') := by
  intro machine machine' hp
  obtain ⟨ending, after, after', hrun, hother, hpairs, hspent⟩ := (h machine machine' hp).exists_eq
  have hvalue := hpost machine machine' hp
  rw [Run.bind_apply, Run.bind_apply, hother]
  rw [hrun] at hvalue ⊢
  cases ending with
  | done value => exact hn value (hvalue value rfl) after after' hpairs
  | failed error => exact ends_failed hpairs
  | crashed => exact ends_crashed hpairs
  | spent => exact ends_spent (hspent rfl) hpairs

theorem Matches.bind {run : Run σ ε α} {other : Run τ ε α} {next : α → Run σ ε β}
    {next' : α → Run τ ε β} (h : pairing.Matches run other)
    (hn : ∀ value, pairing.Matches (next value) (next' value)) :
    pairing.Matches (run >>= next) (other >>= next') :=
  h.bind_of (fun _ _ _ _ _ => trivial) fun value _ => hn value

-- A failure may be passed on in another form.
theorem Matches.mapError {ε' : Type} {run : Run σ ε α} {other : Run τ ε α} (f : ε → ε')
    (h : pairing.Matches run other) :
    pairing.Matches (Run.mapError f run) (Run.mapError f other) := by
  intro machine machine' hp
  obtain ⟨ending, after, after', hrun, hother, hpairs, hspent⟩ := (h machine machine' hp).exists_eq
  unfold Run.mapError
  rw [hrun, hother]
  cases ending with
  | done value => exact ends_done hpairs
  | failed error => exact ends_failed hpairs
  | crashed => exact ends_crashed hpairs
  | spent => exact ends_spent (hspent rfl) hpairs

theorem Matches.locate {run : Run σ Fault α} {other : Run τ Fault α}
    (h : pairing.Matches run other) :
    pairing.Matches (Run.locate location run) (Run.locate location other) := by
  rw [Run.locate_eq_mapError, Run.locate_eq_mapError]
  exact h.mapError _

theorem Matches.embed {run : Run σ Error α} {other : Run τ Error α}
    (h : pairing.Matches run other) : pairing.Matches (Run.embed run) (Run.embed other) := by
  rw [Run.embed_eq_mapError, Run.embed_eq_mapError]
  exact h.mapError _

theorem Matches.repeatUntil (hs : pairing.spends) {step : Run σ ε (Option α)}
    {step' : Run τ ε (Option α)} (h : pairing.Matches step step') (fuel : Nat) :
    pairing.Matches (Run.repeatUntil step fuel) (Run.repeatUntil step' fuel) := by
  induction fuel with
  | zero => exact matches_spent hs
  | succ fuel ih =>
    rw [Run.repeatUntil_succ, Run.repeatUntil_succ]
    refine h.bind fun value => ?_
    cases value with
    | none => exact ih
    | some value => exact matches_pure value

-- One level deeper, other machines may be paired.
theorem Matches.deeper {inner : Pairing σ τ} {run : Run σ Error α} {other : Run τ Error α}
    (h : inner.Matches run other) (hs : inner.spends → pairing.spends)
    (hin : ∀ {machine machine'}, pairing.Pairs machine machine' →
      machine'.depth = machine.depth ∧ machine'.maxDepth = machine.maxDepth ∧
      (machine.depth < machine.maxDepth → inner.Pairs { machine with depth := machine.depth + 1 }
        { machine' with depth := machine'.depth + 1 }))
    (hout : ∀ {machine machine'}, inner.Pairs machine machine' →
      pairing.Pairs { machine with depth := machine.depth - 1 }
        { machine' with depth := machine'.depth - 1 }) :
    pairing.Matches (Run.deeper location run) (Run.deeper location other) := by
  intro machine machine' hp
  obtain ⟨hdepth, hmax, hinner⟩ := hin hp
  unfold Run.deeper
  rw [hdepth, hmax] at *
  by_cases hle : machine.maxDepth ≤ machine.depth
  · rw [if_pos hle, if_pos hle]
    exact ends_failed hp
  · rw [if_neg hle, if_neg hle]
    obtain ⟨hsame, hpairs, hspent⟩ := h _ _ (hinner (Nat.lt_of_not_le hle))
    exact ⟨hsame, hout hpairs, fun he => hs (hspent he)⟩

end Matches

section Mild

variable {pairing : Pairing σ τ} {host : Host σ} {other : Host τ}
  (hp : pairing.Mild host other)
include hp

-- What is read off a heap is the same on both sides.
theorem Mild.getHeap_bind {next : Heap → Run σ ε α} {next' : Heap → Run τ ε α}
    (h : ∀ heap, (∀ {ref closure}, (heap.object ref).closure? = some closure →
        pairing.accepts closure) →
      (∀ {ref native}, heap.native? ref = some native → pairing.admits native) →
      pairing.Matches (next heap) (next' heap)) :
    pairing.Matches (Run.getHeap >>= next) (Run.getHeap >>= next') := by
  intro machine machine' hm
  have hnext := h machine.heap (hp.closure hm) (hp.native hm) machine machine' hm
  rw [Run.bind_apply, Run.bind_apply]
  dsimp only [Run.getHeap]
  rw [hp.heap hm]
  exact hnext

theorem Mild.onHeap {operation : Heap → α × Heap}
    (h : ∀ heap : Heap, heap.Growth pairing.accepts (operation heap).2) :
    pairing.Matches (Run.onHeap operation : Run σ ε α) (Run.onHeap operation) := by
  intro machine machine' hm
  unfold Run.onHeap
  rw [hp.heap hm]
  exact ends_done (hp.growth hm (h machine.heap))

end Mild

section Lawful

variable {pairing : Pairing σ τ} {host : Host σ} {other : Host τ}
  (hp : pairing.Lawful host other)
include hp

theorem Lawful.getHeap_bind {next : Heap → Run σ ε α} {next' : Heap → Run τ ε α}
    (h : ∀ heap, (∀ {ref closure}, (heap.object ref).closure? = some closure →
        pairing.accepts closure) →
      (∀ {ref native}, heap.native? ref = some native → pairing.admits native) →
      pairing.Matches (next heap) (next' heap)) :
    pairing.Matches (Run.getHeap >>= next) (Run.getHeap >>= next') :=
  hp.mild.getHeap_bind h

theorem Lawful.get_bind {next : Machine σ → Run σ ε α} {next' : Machine τ → Run τ ε α}
    (h : ∀ machine machine', machine'.heap = machine.heap → machine'.root = machine.root →
      pairing.Matches (next machine) (next' machine')) :
    pairing.Matches (Run.get >>= next) (Run.get >>= next') :=
  fun machine machine' hm => h machine machine' (hp.heap hm) (hp.root hm) machine machine' hm

theorem Lawful.onHeap {operation : Heap → α × Heap}
    (h : ∀ heap : Heap, heap.Change pairing.accepts (operation heap).2) :
    pairing.Matches (Run.onHeap operation : Run σ ε α) (Run.onHeap operation) := by
  intro machine machine' hm
  unfold Run.onHeap
  rw [hp.heap hm]
  exact ends_done (hp.change hm (h machine.heap))

theorem Lawful.modifyHeap {change : Heap → Heap}
    (h : ∀ heap : Heap, heap.Change pairing.accepts (change heap)) :
    pairing.Matches (Run.modifyHeap change : Run σ ε Unit) (Run.modifyHeap change) := by
  intro machine machine' hm
  unfold Run.modifyHeap
  rw [hp.heap hm]
  exact ends_done (hp.change hm (h machine.heap))

theorem Lawful.changeHeap {change : Heap → Except Fault Heap}
    (h : ∀ heap heap', change heap = .ok heap' → heap.Change pairing.accepts heap') :
    pairing.Matches (Run.changeHeap change : Run σ Fault Unit) (Run.changeHeap change) := by
  intro machine machine' hm
  unfold Run.changeHeap
  rw [hp.heap hm]
  cases hc : change machine.heap with
  | ok heap => exact ends_done (hp.change hm (h _ _ hc))
  | error fault => exact ends_failed hm

theorem Lawful.hold (container key : Value) :
    pairing.Matches (Run.hold container key : Run σ ε Unit) (Run.hold container key) := by
  intro machine machine' hm
  rw [Run.hold_apply, Run.hold_apply, hp.heap hm]
  split
  · exact ends_crashed hm
  · exact ends_done hm

end Lawful

end Pairing

end ScriptEngine
