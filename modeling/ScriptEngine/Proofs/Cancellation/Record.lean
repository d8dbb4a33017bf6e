import Mathlib.Data.List.Induction
import ScriptEngine.Proofs.Cancellation.Trace

-- The law of a record: no checkpoint is passed once the run is stopped, rounds and calls begin right
-- behind their checkpoints, nothing happens twice, and nothing happens after a refusal.

namespace ScriptEngine

namespace Work

-- What a checkpoint lets begin at once.
def opens : Work → Bool
  | test | body | arguments => true
  | function | native | construction => false

-- Whether the work comes after the other of the same checkpoint. A round tests before or after its
-- body.
def follows : Work → Work → Bool
  | function, arguments | native, arguments | construction, arguments => true
  | body, test | test, body => true
  | _, _ => false

-- There is no third work in a row.
theorem eq_of_follows {work earlier first : Work} (h : work.follows earlier)
    (he : earlier.follows first) : work = first := by
  cases earlier <;> cases first <;> cases he <;> cases work <;> first | rfl | cases h

theorem not_follows_self (work : Work) : ¬ work.follows work := by
  cases work <;> exact Bool.false_ne_true

end Work

namespace Event

-- The work goes on that has begun behind a checkpoint.
def Proceeds (history : List Event) (work : Work) (reading : Nat) : Prop :=
  ∃ earlier, began earlier (some reading) ∈ history ∧ work.follows earlier

-- Whether the event may come next.
def Follows (history : List Event) : Event → Prop
  | passed reading => stopped ∉ history ∧ ∀ earlier, passed earlier ∈ history → earlier < reading
  | began work (some reading) => began work (some reading) ∉ history ∧
    (work.opens ∧ history.getLast? = some (passed reading) ∨ Proceeds history work reading)
  | began _ none => ∀ work, began work none ∉ history
  | refused _ => True
  | stopped => stopped ∉ history

-- No checkpoint has refused yet.
def Running (history : List Event) : Prop :=
  ∀ depth, refused depth ∉ history

def Lawful (record : List Event) : Prop :=
  ∀ before event after, record = before ++ event :: after → Running before ∧ event.Follows before

variable {history record before after : List Event} {event : Event} {work : Work} {reading : Nat}

theorem lawful_nil : Lawful [] :=
  fun _ _ _ he => absurd he (by simp)

theorem Lawful.left (h : Lawful (before ++ after)) : Lawful before := by
  rintro first event last rfl
  exact h first event (last ++ after) (by simp)

theorem lawful_concat :
    Lawful (history ++ [event]) ↔ Lawful history ∧ Running history ∧ event.Follows history := by
  constructor
  · exact fun h => ⟨h.left, h history event [] rfl⟩
  · rintro ⟨h, hnext⟩ before other after he
    obtain rfl | ⟨rest, last, rfl⟩ := after.eq_nil_or_concat
    · obtain ⟨rfl, hlast⟩ := List.append_inj' he rfl
      cases hlast
      exact hnext
    · rw [List.concat_eq_append, ← List.cons_append, ← List.append_assoc] at he
      obtain ⟨hhistory, -⟩ := List.append_inj' he rfl
      exact h before other rest hhistory

theorem Follows.not_mem (hr : Running history) (h : event.Follows history) : event ∉ history := by
  match event with
  | passed reading => exact fun hm => absurd (h.2 _ hm) (Nat.lt_irrefl _)
  | began _ (some _) => exact h.1
  | began work none => exact h work
  | refused depth => exact hr depth
  | stopped => exact h

theorem Lawful.nodup (h : Lawful record) : record.Nodup := by
  induction record using List.reverseRecOn with
  | nil => exact List.nodup_nil
  | append_singleton history event ih =>
    obtain ⟨hl, hr, hf⟩ := lawful_concat.mp h
    refine List.nodup_append.mpr ⟨ih hl, by simp, fun other ho last hm => ?_⟩
    rw [List.mem_singleton.mp hm]
    rintro rfl
    exact hf.not_mem hr ho

-- An entry calls at most one function itself.
theorem Lawful.countP_isDirect (h : Lawful record) : record.countP isDirect ≤ 1 := by
  induction record using List.reverseRecOn with
  | nil => exact Nat.zero_le 1
  | append_singleton history event ih =>
    obtain ⟨hl, -, hf⟩ := lawful_concat.mp h
    rw [List.countP_append]
    match event with
    | began _ none =>
      have hnone : history.countP isDirect = 0 := by
        refine List.countP_eq_zero.mpr fun other hm hd => ?_
        match other with
        | began work none => exact hf work hm
      rw [hnone]
      exact Nat.le_refl _
    | passed _ | began _ (some _) | refused _ | stopped => exact ih hl

-- Work has its checkpoint behind it.
theorem Lawful.passed_of_began (h : Lawful record) (hm : began work (some reading) ∈ record) :
    passed reading ∈ record := by
  induction record using List.reverseRecOn generalizing work with
  | nil => cases hm
  | append_singleton history event ih =>
    obtain ⟨hl, -, hf⟩ := lawful_concat.mp h
    refine List.mem_append_left _ ?_
    obtain hm | hm := List.mem_append.mp hm
    · exact ih hl hm
    · cases List.mem_singleton.mp hm
      obtain ⟨-, ⟨-, hlast⟩ | ⟨earlier, hearlier, -⟩⟩ := hf
      · exact List.mem_of_getLast? hlast
      · exact ih hl hearlier

-- Nothing has begun yet behind the checkpoint that has just been passed.
theorem Lawful.not_began_of_getLast? (h : Lawful history)
    (hlast : history.getLast? = some (passed reading)) (work : Work) :
    began work (some reading) ∉ history := by
  obtain ⟨rest, rfl⟩ := List.getLast?_eq_some_iff.mp hlast
  obtain ⟨hl, -, -, hlt⟩ := lawful_concat.mp h
  intro hm
  obtain hm | hm := List.mem_append.mp hm
  · exact absurd (hlt reading (hl.passed_of_began hm)) (Nat.lt_irrefl _)
  · cases List.mem_singleton.mp hm

-- Where no checkpoint is passed any more, the work that begins is left over from before.
theorem Lawful.of_began (h : Lawful (before ++ after)) (hp : ∀ later, passed later ∉ after)
    (hm : began work (some reading) ∈ after) :
    before.getLast? = some (passed reading) ∨ Proceeds before work reading := by
  induction after using List.reverseRecOn generalizing work with
  | nil => cases hm
  | append_singleton rest event ih =>
    have hrest (later : Nat) : passed later ∉ rest := fun hl => hp later (List.mem_append_left _ hl)
    rw [← List.append_assoc] at h
    obtain ⟨hl, -, hf⟩ := lawful_concat.mp h
    obtain hm | hm := List.mem_append.mp hm
    · exact ih hl hrest hm
    · cases List.mem_singleton.mp hm
      obtain ⟨hnew, ⟨-, hlast⟩ | ⟨earlier, hearlier, hfollows⟩⟩ := hf
      · obtain rfl | ⟨init, last, rfl⟩ := rest.eq_nil_or_concat
        · rw [List.append_nil] at hlast
          exact .inl hlast
        · rw [List.concat_eq_append, ← List.append_assoc, List.getLast?_concat] at hlast
          cases hlast
          exact absurd (by simp) (hrest reading)
      · obtain hearlier | hearlier := List.mem_append.mp hearlier
        · exact .inr ⟨earlier, hearlier, hfollows⟩
        · -- The earlier work is itself left over, and of two works each comes after the other.
          obtain hlast | ⟨first, hfirst, hearlier⟩ := ih hl hrest hearlier
          · exact .inl hlast
          · obtain rfl := Work.eq_of_follows hfollows hearlier
            exact absurd (List.mem_append_left _ hfirst) hnew

theorem mem_map_nested (hn : event.nested = event) :
    event ∈ record.map Event.nested ↔ event ∈ record := by
  rw [List.mem_map]
  constructor
  · rintro ⟨inner, hm, rfl⟩
    cases inner with
    | refused depth => exact absurd (refused.inj hn) (Nat.succ_ne_self _)
    | _ => exact hm
  · exact fun hm => ⟨event, hm, hn⟩

theorem refused_of_mem_map_nested {depth : Nat} (h : refused depth ∈ record.map Event.nested) :
    ∃ inner, refused inner ∈ record ∧ depth = inner + 1 := by
  obtain ⟨event, hm, he⟩ := List.mem_map.mp h
  cases event with
  | refused inner =>
    cases he
    exact ⟨inner, hm, rfl⟩
  | _ => cases he

theorem Running.map_nested (h : Running record) : record.map nested = record := by
  refine (List.map_congr_left fun event hm => ?_).trans (List.map_id record)
  cases event with
  | refused depth => exact absurd hm (h depth)
  | _ => rfl

-- A script shows its events to the script around it.
theorem Lawful.nested {events : List Event} (h : Lawful (history ++ events)) :
    Lawful (history ++ events.map Event.nested) := by
  obtain rfl | ⟨rest, last, rfl⟩ := events.eq_nil_or_concat
  · exact h
  · rw [List.concat_eq_append, ← List.append_assoc] at h
    obtain ⟨hl, hrunning, hf⟩ := lawful_concat.mp h
    have hrest : rest.map Event.nested = rest :=
      Running.map_nested fun depth hm => hrunning depth (List.mem_append_right _ hm)
    rw [List.concat_eq_append, List.map_append, hrest, List.map_singleton, ← List.append_assoc]
    refine lawful_concat.mpr ⟨hl, hrunning, ?_⟩
    cases last with
    | refused depth => trivial
    | _ => exact hf

end Event

end ScriptEngine
