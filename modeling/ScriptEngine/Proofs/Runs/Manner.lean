import ScriptEngine.Proofs.Runs.Computation

-- What computations may do to the machine and how they may end. A manner is a relation between the
-- machine before and the machine after, with the endings that it bears. It is kept by computations
-- one after the other, and by every step of a walk that it leaves free.

namespace ScriptEngine

variable {σ ε α β : Type}

-- The changes of the machine that may be made, and whether a computation may crash or run out of
-- fuel.
structure Manner (σ : Type) where
  changes : Machine σ → Machine σ → Prop
  crashes : Prop
  spends : Prop

-- Nothing is a change that may be made, and so is one change after another.
class Manner.Lawful (manner : Manner σ) : Prop where
  refl (machine : Machine σ) : manner.changes machine machine
  trans {first middle last : Machine σ} :
    manner.changes first middle → manner.changes middle last → manner.changes first last

-- The heap may be changed at will, and anything be printed.
class Manner.Free (manner : Manner σ) : Prop extends manner.Lawful where
  update (machine : Machine σ) (heap : Heap) (transcript : Transcript) :
    manner.changes machine { machine with heap, transcript }

-- The functions of the host make no other changes.
structure Manner.Suits (manner : Manner σ) (host : Host σ) : Prop where
  call (handler : Handler) (receiver : Value) (arguments : List Value) (machine : Machine σ) :
    manner.changes machine (host.call handler receiver arguments machine).2
  construct (handler : Handler) (name : String) (arguments : List Value) (machine : Machine σ) :
    manner.changes machine (host.construct handler name arguments machine).2
  invoke (handler : Handler) (className : String) (primitive : Value) (name : String)
    (arguments : List Value) (machine : Machine σ) :
    manner.changes machine (host.invoke handler className primitive name arguments machine).2

def Manner.Bears (manner : Manner σ) : Ending ε α → Prop
  | .done _ | .failed _ => True
  | .crashed => manner.crashes
  | .spent => manner.spends

def Run.KeepsTo (manner : Manner σ) (run : Run σ ε α) : Prop :=
  ∀ machine, manner.changes machine (run machine).2 ∧ manner.Bears (run machine).1

namespace Run

variable {manner : Manner σ}

theorem KeepsTo.ne_crashed {run : Run σ ε α} (h : run.KeepsTo manner) (hc : ¬manner.crashes)
    (machine : Machine σ) : (run machine).1 ≠ .crashed := by
  intro he
  have hb := (h machine).2
  rw [he] at hb
  exact hc hb

theorem KeepsTo.ne_spent {run : Run σ ε α} (h : run.KeepsTo manner) (hs : ¬manner.spends)
    (machine : Machine σ) : (run machine).1 ≠ .spent := by
  intro he
  have hb := (h machine).2
  rw [he] at hb
  exact hs hb

theorem keepsTo_ofStep {step : Machine σ → Except ε α × Machine σ}
    (h : ∀ machine, manner.changes machine (step machine).2) : (ofStep step).KeepsTo manner := by
  intro machine
  have hm := h machine
  unfold ofStep
  generalize step machine = result at hm ⊢
  obtain ⟨result, after⟩ := result
  cases result <;> exact ⟨hm, trivial⟩

theorem KeepsTo.locate {run : Run σ Fault α} (h : run.KeepsTo manner) (location : Location) :
    (Run.locate location run).KeepsTo manner := by
  intro machine
  have hm := h machine
  unfold Run.locate
  generalize run machine = result at hm ⊢
  obtain ⟨ending, after⟩ := result
  cases ending <;> exact hm

section Lawful

variable [hl : manner.Lawful]

theorem keepsTo_pure (value : α) : (pure value : Run σ ε α).KeepsTo manner :=
  fun machine => ⟨hl.refl machine, trivial⟩

theorem keepsTo_get : (get : Run σ ε (Machine σ)).KeepsTo manner :=
  fun machine => ⟨hl.refl machine, trivial⟩

theorem keepsTo_getHeap : (getHeap : Run σ ε Heap).KeepsTo manner :=
  fun machine => ⟨hl.refl machine, trivial⟩

theorem keepsTo_fail (error : ε) : (fail error : Run σ ε α).KeepsTo manner :=
  fun machine => ⟨hl.refl machine, trivial⟩

theorem keepsTo_ofExcept (result : Except ε α) : (ofExcept result : Run σ ε α).KeepsTo manner := by
  cases result with
  | ok value => exact keepsTo_pure value
  | error error => exact keepsTo_fail error

theorem keepsTo_spent (h : manner.spends) : (spent : Run σ ε α).KeepsTo manner :=
  fun machine => ⟨hl.refl machine, h⟩

theorem keepsTo_hold (h : manner.crashes) (container key : Value) :
    (hold container key : Run σ ε Unit).KeepsTo manner := by
  intro machine
  rw [hold_apply]
  refine ⟨hl.refl machine, ?_⟩
  dsimp only
  split
  · exact h
  · trivial

theorem KeepsTo.bind {run : Run σ ε α} {next : α → Run σ ε β} (h : run.KeepsTo manner)
    (hn : ∀ value, (next value).KeepsTo manner) : (run >>= next).KeepsTo manner := by
  intro machine
  have hm := h machine
  rw [bind_apply]
  generalize run machine = result at hm ⊢
  obtain ⟨ending, after⟩ := result
  cases ending with
  | done value =>
    obtain ⟨hchanges, hbears⟩ := hn value after
    exact ⟨hl.trans hm.1 hchanges, hbears⟩
  | failed _ | crashed | spent => exact hm

end Lawful

section Free

variable [hf : manner.Free]

theorem keepsTo_onHeap (operation : Heap → α × Heap) :
    (onHeap operation : Run σ ε α).KeepsTo manner :=
  fun machine => ⟨hf.update machine _ machine.transcript, trivial⟩

theorem keepsTo_modifyHeap (change : Heap → Heap) :
    (modifyHeap change : Run σ ε Unit).KeepsTo manner :=
  fun machine => ⟨hf.update machine _ machine.transcript, trivial⟩

theorem keepsTo_changeHeap (change : Heap → Except Fault Heap) :
    (changeHeap change : Run σ Fault Unit).KeepsTo manner := by
  intro machine
  unfold changeHeap
  cases change machine.heap with
  | ok heap => exact ⟨hf.update machine heap machine.transcript, trivial⟩
  | error fault => exact ⟨hf.refl machine, trivial⟩

end Free

end Run

section Natives

variable {manner : Manner σ} [hf : manner.Free] {host : Host σ}

-- The native functions, but for those that run a script: without fuel they do not come to it.
theorem Native.keepsTo_apply (hs : manner.Suits host) (hspends : manner.spends) (native : Native)
    (receiver : Value) (arguments : List Value) :
    (native.apply host (Below.ofFuel host 0) receiver arguments).KeepsTo manner := by
  cases native with
  | global function =>
    refine Run.keepsTo_getHeap.bind fun heap => ?_
    cases function with
    | exec | eval => exact Run.keepsTo_spent hspends
    | parseInt =>
      dsimp only
      split <;> exact Run.keepsTo_pure _
    | _ => exact Run.keepsTo_pure _
  | object function => exact Run.keepsTo_onHeap _
  | array function =>
    change (function.apply host receiver arguments).KeepsTo manner
    unfold ArrayFunction.apply
    split
    · exact Run.keepsTo_pure _
    · exact Run.keepsTo_onHeap _
    · exact Run.keepsTo_fail _
  | string function => exact Run.keepsTo_onHeap _
  | number function => exact Run.keepsTo_pure _
  | math function => exact Run.keepsTo_getHeap.bind fun heap => Run.keepsTo_pure _
  | console function =>
    cases function <;> exact fun machine => ⟨hf.update machine machine.heap _, trivial⟩
  | host handler => exact Run.keepsTo_ofStep (hs.call handler receiver arguments)

theorem Instance.keepsTo_invoke (hs : manner.Suits host) (content : Instance) (heap : Heap)
    (name : String) (arguments : List Value) :
    (content.invoke host heap name arguments).KeepsTo manner := by
  unfold Instance.invoke
  split
  · exact Run.keepsTo_ofStep (hs.invoke _ _ _ _ _)
  · split
    · exact Run.keepsTo_pure _
    · split
      · exact Run.keepsTo_pure _
      · exact Run.keepsTo_fail _

theorem keepsTo_construct (hs : manner.Suits host) (name : String) (class_ : ObjectRef)
    (arguments : List Value) : (construct host name class_ arguments).KeepsTo manner := by
  refine Run.keepsTo_getHeap.bind fun heap => ?_
  have hadd (object : Object) : (Run.onHeap fun heap => heap.addObjectValue
      (object.set "prototype" (.object class_)) : Run σ Fault Value).KeepsTo manner :=
    Run.keepsTo_onHeap _
  dsimp only
  split
  · next nativeClass _ =>
    split
    · refine .bind ?_ hadd
      cases nativeClass.maker with
      | number => exact Run.keepsTo_getHeap.bind fun heap => Run.keepsTo_pure _
      | host handler => exact Run.keepsTo_ofStep (hs.construct handler _ arguments)
      | _ => exact Run.keepsTo_pure _
    · exact (Run.keepsTo_fail _).bind hadd
  · exact (Run.keepsTo_pure _).bind hadd

end Natives

end ScriptEngine
