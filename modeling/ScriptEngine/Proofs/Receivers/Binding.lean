import ScriptEngine.Proofs.Faults.ParsedHeap
import ScriptEngine.Proofs.Heap.Extension
import ScriptEngine.Proofs.Reading.Names
import ScriptEngine.Proofs.Receivers.Reports

-- What the reports of an engine say about the values of `this`: each is the receiver that the
-- function has been entered with, or the global object, as long as no subscript assignment has
-- overwritten it. The heap agrees with the reports at every moment.

namespace ScriptEngine

open Scope (receiverName)

variable {σ : Type}

namespace Heap

variable {before middle after heap : Heap}

-- A later heap in which no object has got another receiver.
structure Spares (before after : Heap) : Prop where
  size : before.objects.size ≤ after.objects.size
  receiver (ref : ObjectRef) : ref.index < before.objects.size →
    after.get? ref receiverName = before.get? ref receiverName

theorem Spares.refl (heap : Heap) : heap.Spares heap :=
  ⟨Nat.le_refl _, fun _ _ => rfl⟩

theorem Spares.trans (h : before.Spares middle) (h' : middle.Spares after) :
    before.Spares after where
  size := Nat.le_trans h.size h'.size
  receiver ref hr :=
    (h'.receiver ref (Nat.lt_of_lt_of_le hr h.size)).trans (h.receiver ref hr)

theorem Adds.spares (h : before.Adds after) : before.Spares after where
  size := h.size
  receiver ref hr := congrArg (·.properties.get? receiverName) (h.object ref hr)

theorem spares_set (heap : Heap) (ref : ObjectRef) {name : String} (value : Value)
    (hn : name ≠ receiverName) : heap.Spares (heap.set ref name value) := by
  have hsize : (heap.set ref name value).objects.size = heap.objects.size := by
    simp [set, modifyObject]
  refine ⟨Nat.le_of_eq hsize.symm, fun other hr => ?_⟩
  rw [get?_set heap ref name receiverName value hr, if_neg fun h => hn h.2]

theorem Growth.spares {accepts : Closure → Prop} (h : before.Growth accepts after) :
    before.Spares after := by
  cases h with
  | nothing => exact .refl before
  | addObject object _ => exact (before.adds_addObject object).spares
  | addArray elements => exact ⟨Nat.le_refl _, fun _ _ => rfl⟩
  | modifyArray ref change => exact ⟨Nat.le_refl _, fun _ _ => rfl⟩

end Heap

-- The functions of the embedding program give no object another receiver.
def Host.SparesReceivers (host : Host σ) : Prop :=
  ∀ machine : Machine σ, host.Keeps fun after =>
    machine.heap.Spares after.heap ∧ after.root = machine.root

-- The receiver of an object after a report.
def Report.rebind (ref : ObjectRef) (value : Value) : Report → Value
  | stored container name new => if container = ref ∧ name = receiverName then new else value
  | _ => value

-- The receiver of an object that starts with one: the last one that has been stored, if any.
def bound (ref : ObjectRef) (start : Value) (reports : List Report) : Value :=
  reports.foldl (Report.rebind ref) start

-- A function has been entered with a frame of its own, and this has been reported since.
def Invoked (history : List Report) (frame : ObjectRef) (call : Call) (since : List Report) : Prop :=
  ∃ before, history = before ++ .entered frame call :: since ∧
    ∀ other, .entered frame other ∉ before ++ since

-- Why `this` has given a value after a history of reports.
def Report.Explained (root : ObjectRef) (history : List Report) : Report → Prop
  | received none value => value = bound root (.object root) history
  | received (some frame) value => ∃ call since, Invoked history frame call since ∧
      value = bound frame call.receiver since
  | _ => True

section History

variable {history since : List Report} {report : Report} {frame ref : ObjectRef} {call : Call}

theorem bound_concat (start : Value) :
    bound ref start (history ++ [report]) = report.rebind ref (bound ref start history) := by
  rw [bound, List.foldl_append]
  rfl

theorem Invoked.mem_since (h : Invoked history frame call since) (hm : report ∈ since) :
    report ∈ history := by
  obtain ⟨before, rfl, -⟩ := h
  exact List.mem_append_right _ (List.mem_cons_of_mem _ hm)

theorem Invoked.concat (h : Invoked history frame call since)
    (hr : ∀ other, report ≠ .entered frame other) :
    Invoked (history ++ [report]) frame call (since ++ [report]) := by
  obtain ⟨before, rfl, honce⟩ := h
  refine ⟨before, by simp, fun other hm => ?_⟩
  rw [← List.append_assoc] at hm
  obtain hm | hm := List.mem_append.mp hm
  · exact honce other hm
  · exact hr other (List.mem_singleton.mp hm).symm

theorem invoked_concat (h : ∀ other, .entered frame other ∉ history) :
    Invoked (history ++ [.entered frame call]) frame call [] :=
  ⟨history, rfl, by simpa using h⟩

-- What stands before the last report of a history, or is the last one.
theorem concat_split {past rest : List Report} {other : Report}
    (h : history ++ [report] = past ++ other :: rest) :
    (past = history ∧ other = report) ∨ ∃ init, history = past ++ other :: init := by
  obtain rfl | ⟨init, last, rfl⟩ := rest.eq_nil_or_concat
  · obtain ⟨hpast, hlast⟩ := List.append_inj' h rfl
    exact .inl ⟨hpast.symm, (List.cons.inj hlast).1.symm⟩
  · rw [List.concat_eq_append, ← List.cons_append, ← List.append_assoc] at h
    exact .inr ⟨init, (List.append_inj' h rfl).1⟩

end History

-- The heap agrees with what has been reported, and the reports explain each other.
structure Sound (global : ObjectRef) (history : List Report) (machine : Machine σ) : Prop where
  parsed : machine.heap.Parsed
  root : machine.root = global
  inside : global.index < machine.heap.objects.size
  outside : (machine.heap.get? global receiverName).getD (.object global) =
    bound global (.object global) history
  frame {frame : ObjectRef} {call : Call} : .entered frame call ∈ history →
    frame.index < machine.heap.objects.size ∧ ∃ since, Invoked history frame call since ∧
      machine.heap.get? frame receiverName = some (bound frame call.receiver since)
  explained {past rest : List Report} {report : Report} :
    history = past ++ report :: rest → report.Explained global past

namespace Sound

variable {global : ObjectRef} {history : List Report} {machine after : Machine σ}

-- The last report of a longer history is explained by those before it.
theorem explained_concat (h : Sound global history machine) {past rest : List Report}
    {report other : Report} (he : report.Explained global history)
    (hs : history ++ [report] = past ++ other :: rest) : other.Explained global past := by
  obtain ⟨rfl, rfl⟩ | ⟨init, hs⟩ := concat_split hs
  · exact he
  · exact h.explained hs

-- A step that gives no object another receiver needs no report.
theorem spares (h : Sound global history machine) (hs : machine.heap.Spares after.heap)
    (hr : after.root = machine.root) (hp : after.heap.Parsed) : Sound global history after where
  parsed := hp
  root := hr.trans h.root
  inside := Nat.lt_of_lt_of_le h.inside hs.size
  outside := by
    rw [hs.receiver global h.inside]
    exact h.outside
  frame hm := by
    obtain ⟨hlt, since, hi, hget⟩ := h.frame hm
    exact ⟨Nat.lt_of_lt_of_le hlt hs.size, since, hi, (hs.receiver _ hlt).trans hget⟩
  explained := h.explained

-- A value of `this`.
theorem receive (h : Sound global history machine) {place : Option ObjectRef} {value : Value}
    (he : (Report.received place value).Explained global history) :
    Sound global (history ++ [.received place value]) machine where
  parsed := h.parsed
  root := h.root
  inside := h.inside
  outside := by
    rw [bound_concat]
    exact h.outside
  frame hm := by
    obtain hm | hm := List.mem_append.mp hm
    · obtain ⟨hlt, since, hi, hget⟩ := h.frame hm
      refine ⟨hlt, since ++ [.received place value], hi.concat ?_, ?_⟩
      · rintro other ⟨⟩
      · rw [bound_concat]
        exact hget
    · cases List.mem_singleton.mp hm
  explained hs := h.explained_concat he hs

-- A subscript assignment.
theorem store (h : Sound global history machine) (container : ObjectRef) (name : String)
    (value : Value) : Sound global (history ++ [.stored container name value])
      { machine with heap := machine.heap.set container name value } where
  parsed := h.parsed.set container name value
  root := h.root
  inside := by simpa [Heap.set, Heap.modifyObject] using h.inside
  outside := by
    rw [bound_concat, ← h.outside, Report.rebind, Heap.get?_set _ _ _ _ _ h.inside]
    split <;> rfl
  frame hm := by
    obtain hm | hm := List.mem_append.mp hm
    · obtain ⟨hlt, since, hi, hget⟩ := h.frame hm
      refine ⟨by simpa [Heap.set, Heap.modifyObject] using hlt,
        since ++ [.stored container name value], hi.concat ?_, ?_⟩
      · rintro other ⟨⟩
      · rw [bound_concat, Report.rebind, Heap.get?_set _ _ _ _ _ hlt, hget]
        split <;> rfl
    · cases List.mem_singleton.mp hm
  explained hs := by
    have he : (Report.stored container name value).Explained global history := trivial
    exact h.explained_concat he hs

-- A function is entered with a frame that keeps its receiver.
theorem enter (h : Sound global history machine) (call : Call) {object : Object}
    (hk : ∀ closure, object.kind ≠ .function closure)
    (ho : object.properties.get? receiverName = some call.receiver) :
    Sound global (history ++ [.entered (machine.heap.addObject object).1 call])
      { machine with heap := (machine.heap.addObject object).2 } := by
  have hgrowth : machine.heap.Growth Closure.Parsed (machine.heap.addObject object).2 :=
    .addObject object fun closure hc => absurd hc (hk closure)
  have hadded : Sound global history { machine with heap := (machine.heap.addObject object).2 } :=
    h.spares hgrowth.spares rfl (h.parsed.change hgrowth.change)
  have hnew (call : Call) : .entered (machine.heap.addObject object).1 call ∉ history :=
    fun hm => Nat.lt_irrefl _ (h.frame hm).1
  exact {
    parsed := hadded.parsed
    root := hadded.root
    inside := hadded.inside
    outside := by
      rw [bound_concat]
      exact hadded.outside
    frame := fun {frame other} hm => by
      obtain hm | hm := List.mem_append.mp hm
      · obtain ⟨hlt, since, hi, hget⟩ := hadded.frame hm
        refine ⟨hlt, since ++ [.entered (machine.heap.addObject object).1 call], hi.concat ?_, ?_⟩
        · rintro _ ⟨⟩
          exact hnew _ hm
        · rw [bound_concat]
          exact hget
      · cases List.mem_singleton.mp hm
        refine ⟨by simp [Heap.addObject], [], invoked_concat hnew, ?_⟩
        simpa [Heap.get?, Heap.object, Heap.addObject, bound] using ho
    explained := fun hs => by
      have he : (Report.entered (machine.heap.addObject object).1 call).Explained global history :=
        trivial
      exact hadded.explained_concat he hs }

end Sound

end ScriptEngine
