import Logryph.Assert
import Logryph.Models

/-!
# The pool of events

`pool.GetEvent` hands out any event that was put back, or a new one. `pool.PutEvent` clears an
event before it goes back; only its timestamp and the allocated maps stay. An event whose maps
are too large trips an assertion.

* `putEvent_cases` — what putting an event back does
* `Clean` — the events that the pool holds have nothing in them
-/

namespace Logryph

open Infra

def maxEventFields : Nat := 256

/-- What the pool makes when it is empty. -/
def newEvent : Event := { params := some SortedMap.empty }

/-- `GetEvent`. The choice is the index of a pooled event, or a new one. -/
def getEvent (pick : Option Nat) (pool : List Event) : Event × List Event :=
  match pick with
  | none => (newEvent, pool)
  | some i =>
    match pool[i]? with
    | none => (newEvent, pool)
    | some e => (e, pool.eraseIdx i)

/-- The loop that empties a map, one key at a time and at most `n` of them. Which key a `range`
gives first is not specified; here it is the smallest. -/
def deleteKeys : Nat → SortedMap Bytes Value → SortedMap Bytes Value
  | 0, m => m
  | n + 1, m =>
    match m.entries with
    | [] => m
    | (k, _) :: _ => deleteKeys n (m.erase k)

/-- `len` of a map. -/
def mapLen (o : Object) : Nat :=
  match o with
  | none => 0
  | some m => m.size

/-- The event as it goes back. `Truncate(0)` drops the monotonic clock, not the time. -/
def clearEvent (e : Event) : Event :=
  { timestamp := e.timestamp
    params := e.params.map (deleteKeys maxEventFields)
    response := e.response.map (deleteKeys maxEventFields) }

/-- `PutEvent`. It returns nothing, so a failed check only shows in strict mode. -/
def putEvent (strict : Bool) (pool : List Event) (e : Event) : Except Fault Unit × List Event :=
  if mapLen e.params ≤ maxEventFields then
    if mapLen e.response ≤ maxEventFields then (.ok (), clearEvent e :: pool)
    else if strict then
      (.error (assertionFailed strict
        (lit "response map too large: " ++ natText (mapLen e.response))), pool)
    else (.ok (), pool)
  else if strict then
    (.error (assertionFailed strict
      (lit "params map too large: " ++ natText (mapLen e.params))), pool)
  else (.ok (), pool)

/-! ## Clearing -/

theorem deleteKeys_entries : ∀ (n : Nat) (m : SortedMap Bytes Value),
    (deleteKeys n m).entries = m.entries.drop n
  | 0, _ => rfl
  | n + 1, m => by
    rw [deleteKeys]
    split
    · next h => rw [h]; rfl
    · next k v rest h =>
      rw [deleteKeys_entries n, SortedMap.entries_erase_head h, h]
      rfl

/-- The loop empties every map that passes the check. -/
theorem deleteKeys_eq_empty {m : SortedMap Bytes Value} (h : m.size ≤ maxEventFields) :
    deleteKeys maxEventFields m = SortedMap.empty := by
  refine SortedMap.ext_entries ?_
  rw [deleteKeys_entries]
  exact List.drop_eq_nil_of_le h

/-- An event with nothing but a timestamp and empty maps. -/
def Clean (e : Event) : Prop :=
  e = { timestamp := e.timestamp, params := e.params, response := e.response } ∧
    mapLen e.params = 0 ∧ mapLen e.response = 0

theorem clean_newEvent : Clean newEvent := ⟨rfl, rfl, rfl⟩

theorem clean_clearEvent {e : Event} (hp : mapLen e.params ≤ maxEventFields)
    (hr : mapLen e.response ≤ maxEventFields) : Clean (clearEvent e) := by
  have hlen : ∀ o : Object, mapLen o ≤ maxEventFields →
      mapLen (o.map (deleteKeys maxEventFields)) = 0 := by
    rintro (_ | m) h
    · rfl
    · rw [Option.map_some, deleteKeys_eq_empty h]
      rfl
  exact ⟨rfl, hlen _ hp, hlen _ hr⟩

/-- What is put back is clean, and nothing else changes. -/
theorem putEvent_cases (strict : Bool) (pool : List Event) (e : Event) :
    (mapLen e.params ≤ maxEventFields ∧ mapLen e.response ≤ maxEventFields ∧
        putEvent strict pool e = (.ok (), clearEvent e :: pool)) ∨
      (maxEventFields < mapLen e.params ∨ maxEventFields < mapLen e.response) ∧
        ∃ r, putEvent strict pool e = (r, pool) ∧ (r = .ok () ↔ strict = false) := by
  unfold putEvent
  split
  · next hp =>
    split
    · next hr => exact Or.inl ⟨hp, hr, rfl⟩
    · next hr =>
      refine Or.inr ⟨Or.inr (not_le.mp hr), ?_⟩
      cases strict <;> exact ⟨_, rfl, by simp⟩
  · next hp =>
    refine Or.inr ⟨Or.inl (not_le.mp hp), ?_⟩
    cases strict <;> exact ⟨_, rfl, by simp⟩

/-- In strict mode an event that is too large ends the call. -/
theorem putEvent_panics (pool : List Event) {e : Event}
    (h : ¬ (mapLen e.params ≤ maxEventFields ∧ mapLen e.response ≤ maxEventFields)) :
    ∃ msg, putEvent true pool e = (.error (.panic msg), pool) := by
  unfold putEvent
  split
  · next hp => exact ⟨_, if_neg fun hr => h ⟨hp, hr⟩⟩
  · exact ⟨_, rfl⟩

theorem clean_getEvent {pool : List Event} (h : ∀ e ∈ pool, Clean e) (pick : Option Nat) :
    Clean (getEvent pick pool).1 ∧ ∀ e ∈ (getEvent pick pool).2, Clean e := by
  unfold getEvent
  split
  · exact ⟨clean_newEvent, h⟩
  · split
    · exact ⟨clean_newEvent, h⟩
    · next i e he =>
      exact ⟨h e (List.mem_of_getElem? he), fun e he => h e (List.mem_of_mem_eraseIdx he)⟩

theorem clean_putEvent {strict : Bool} {pool : List Event} (h : ∀ e ∈ pool, Clean e) (e : Event) :
    ∀ p ∈ (putEvent strict pool e).2, Clean p := by
  rcases putEvent_cases strict pool e with ⟨hp, hr, hput⟩ | ⟨-, r, hput, -⟩
  · rw [hput]
    exact List.forall_mem_cons.mpr ⟨clean_clearEvent hp hr, h⟩
  · rw [hput]
    exact h

end Logryph
