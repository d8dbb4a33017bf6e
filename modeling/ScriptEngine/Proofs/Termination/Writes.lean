import ScriptEngine.Proofs.Heap.Visits
import ScriptEngine.Proofs.Logging.Erasure

-- What a program crashes by. A subscript assignment holds the object that it writes while it takes the
-- text of the key, and does not survive a key whose text leads to that object. Nothing else in a run
-- crashes. So a run crashes exactly if such a write is in its log.

namespace ScriptEngine

variable {σ ε α β : Type}

-- A subscript assignment as it begins.
structure Write where
  heap : Heap
  container : Value
  key : Value

-- The text of the key leads to the object that is written.
def Write.Clashes (write : Write) : Prop :=
  ∃ ref, write.container = .object ref ∧ write.heap.Visits ref write.key

theorem Write.clashes_iff {heap : Heap} {container key : Value} :
    (Write.mk heap container key).Clashes ↔ heap.clashes container key := by
  unfold Write.Clashes Heap.clashes
  cases container with
  | object ref => simp [Heap.textVisits_iff]
  | _ => simp

def Hooks.writes : Hooks σ Write where
  stored heap container key _ := [⟨heap, container, key⟩]

-- The subscript assignments that an entry comes to, in their order.
def Entry.writes (host : Host σ) (fuel : Nat) (engine : Engine σ) (entry : Entry) : List Write :=
  ((entry.observed Hooks.writes host (.ofFuel Hooks.writes host fuel) fuel engine).run
    (engine.machine.restart host engine.timeout)).1

-- The log tells whether the computation crashes.
def Logged.Accounted (logged : Logged Write σ ε α) : Prop :=
  ∀ machine, (logged.run machine).2.1 = .crashed ↔
    ∃ write ∈ (logged.run machine).1, write.Clashes

namespace Logged

-- Without writes nothing crashes.
theorem accounted_of_safe {run : Run σ ε α} (h : run.Safe) {acts : Machine σ → List Write}
    (ha : ∀ machine, acts machine = []) : (watch acts run).Accounted := by
  intro machine
  rw [watch]
  dsimp only
  rw [ha]
  exact ⟨fun hc => absurd hc (h.ne_crashed not_false machine), fun ⟨_, hm, _⟩ => absurd hm List.not_mem_nil⟩

theorem Accounted.bind {logged : Logged Write σ ε α} {next : α → Logged Write σ ε β}
    (h : logged.Accounted) (hn : ∀ value, (next value).Accounted) :
    (logged >>= next).Accounted := by
  intro machine
  have hm := h machine
  rw [run_bind]
  rcases hr : logged.run machine with ⟨acts, ending, after⟩
  rw [hr] at hm
  cases ending with
  | done value =>
    -- The first computation does not crash, so none of its writes clashes.
    have hfirst : ¬∃ write ∈ acts, write.Clashes := fun hc => nomatch hm.mpr hc
    refine (hn value after).trans ?_
    simp only [List.mem_append, or_and_right, exists_or, hfirst, false_or]
  | crashed => exact iff_of_true rfl (hm.mp rfl)
  | failed _ | spent => exact iff_of_false nofun fun hc => nomatch hm.mpr hc

theorem Accounted.mapError {ε' : Type} {logged : Logged Write σ ε α} (h : logged.Accounted)
    (f : ε → ε') : (logged.mapError f).Accounted := by
  intro machine
  have hm := h machine
  unfold Logged.mapError Run.mapError
  dsimp only
  rcases hr : logged.run machine with ⟨acts, ending, after⟩
  rw [hr] at hm
  cases ending with
  | crashed => exact iff_of_true rfl (hm.mp rfl)
  | done _ | failed _ | spent => exact iff_of_false nofun fun hc => nomatch hm.mpr hc

theorem Accounted.deeper {logged : Logged Write σ Error α} (h : logged.Accounted)
    (location : Location) : (logged.deeper location).Accounted := by
  intro machine
  unfold Logged.deeper
  dsimp only
  split
  · exact iff_of_false nofun fun ⟨_, hm, _⟩ => List.not_mem_nil hm
  · exact h { machine with depth := machine.depth + 1 }

-- A subscript assignment crashes before it writes, and the write itself does not crash.
theorem accounted_store (location : Location) (container key value : Value) :
    (watch (fun machine : Machine σ => [Write.mk machine.heap container key]) do
      Run.hold container key
      Run.locate location (Run.changeHeap (·.setSubscript container key value))).Accounted := by
  intro machine
  change ((Run.hold container key >>= fun _ => Run.locate location
      (Run.changeHeap (·.setSubscript container key value))) machine).1 = .crashed ↔
    ∃ write ∈ [Write.mk machine.heap container key], write.Clashes
  simp only [Run.hold_bind_apply, List.mem_singleton, exists_eq_left, Write.clashes_iff]
  by_cases hc : machine.heap.clashes container key
  · rw [if_pos hc]
    exact iff_of_true rfl hc
  · rw [if_neg hc]
    have hsafe : (Run.locate location (Run.changeHeap (·.setSubscript container key value)) :
        Run σ Error Unit).Safe := (Run.keepsTo_changeHeap _).locate location
    exact iff_of_false (hsafe.ne_crashed not_false machine) hc

end Logged

theorem Hooks.respects_accounted (host : Host σ) :
    Hooks.writes.Respects host fun _ _ logged _ => logged.Accounted where
  lift h := Logged.accounted_of_safe h fun _ => rfl
  asking h := Logged.accounted_of_safe h fun _ => rfl
  checkpoint location :=
    Logged.accounted_of_safe ((Run.safe_checkpoint host).locate location) fun _ => rfl
  receiver scope :=
    Logged.accounted_of_safe (.bind Run.keepsTo_getHeap fun _ => Run.keepsTo_pure _) fun _ => rfl
  store location container key value := Logged.accounted_store location container key value
  bind h hn := h.bind hn
  began _ _ _ _ _ h := h
  entered _ _ _ _ _ h := h
  locate _ _ _ _ h := h.mapError _
  embed {_ logged _} h := by
    have hid : Hooks.writes.embed logged = logged.embed := congrArg Logged.embed logged.mapActs_id
    rw [hid]
    exact h.mapError _
  deeper location _ _ _ h := h.deeper location

-- An entry crashes exactly if one of its writes is to an object that the text of the key leads to.
theorem Entry.crashes_iff (host : Host σ) (fuel : Nat) (engine : Engine σ) (entry : Entry) :
    (entry.perform host fuel engine).1 = .crashed ↔
      ∃ write ∈ entry.writes host fuel engine, write.Clashes := by
  have hr := Hooks.respects_accounted host
  rw [Entry.perform_eq_observed Hooks.writes]
  exact entry.respects_observed hr (ObservedBelow.respects_ofFuel hr fuel)
    (engine.machine.restart host engine.timeout)

end ScriptEngine
