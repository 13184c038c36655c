import Logryph.Interceptor
import Logryph.Outcome

/-!
# What a pooled event remembers

An event that comes from the pool has empty fields, but it keeps whether its two maps were
allocated: one that was used for a request without parameters has a nil map, one that was used for
a response has an empty map where a new event has none. A nil map is written as `null` and an empty
one as the empty object, so the two give different columns and hashes; and the genesis event writes
into its map without looking.

* `clean_history` — whatever the history, nothing else is left in a pooled event
* `Agree.step` — two recorders with different pools go on in the same way, as long as each event
  that is handed out has the maps of a new one where they matter
* `record_history_irrelevant` — so what is recorded does not depend on the history then
-/

namespace Logryph

open Infra

/-! ## Histories -/

/-- A use of the pool. -/
inductive PoolUse where
  | get (pick : Option Nat)
  | put (e : Event)

/-- The pool after a use. -/
def PoolUse.apply (strict : Bool) (pool : List Event) : PoolUse → List Event
  | get pick => (getEvent pick pool).2
  | put e => (putEvent strict pool e).2

/-- The pool after a history, from an empty one on. -/
def poolAfter (strict : Bool) (history : List PoolUse) : List Event :=
  history.foldl (PoolUse.apply strict) []

theorem clean_apply {strict : Bool} {pool : List Event} (h : ∀ e ∈ pool, Clean e)
    (use : PoolUse) : ∀ e ∈ use.apply strict pool, Clean e := by
  cases use with
  | get pick => exact (clean_getEvent h pick).2
  | put e => exact clean_putEvent h e

/-- **A pooled event is empty**, whatever the history. -/
theorem clean_history (strict : Bool) (history : List PoolUse) :
    ∀ e ∈ poolAfter strict history, Clean e := by
  have hfold : ∀ pool : List Event, (∀ e ∈ pool, Clean e) →
      ∀ e ∈ history.foldl (PoolUse.apply strict) pool, Clean e := by
    induction history with
    | nil => exact fun _ h => h
    | cons use history ih => exact fun pool h => ih _ (clean_apply h use)
  exact hfold [] (List.forall_mem_nil _)

/-! ## Recording -/

/-- The actions that record something. The events of requests, responses and anchors wait in a
queue until they are handled; a completion event is made while that is done. Which event the pool
hands out is not part of an action. -/
inductive RecordAction where
  | genesis (env : GenesisEnv) (agentName : Bytes)
  | toolCall (env : MessageEnv) (taskID : Bytes) (req : MCPRequest) (rule : Option Rule)
      (parentID : Option Bytes)
  | toolResponse (env : MessageEnv) (resp : MCPResponse)
  | anchor (env : MessageEnv) (anchor : Anchor)
  | handle (faults : RepoFaults) (completion : CompletionEnv)

/-- An event has the maps of a new one, where the action does not replace them. -/
def RecordAction.likeNew : RecordAction → Event → Bool
  | genesis _ _, e => e.params.isSome && e.response.isNone
  | toolCall _ _ _ _ _, e => e.response.isNone
  | toolResponse _ _, e => e.params.isSome
  | anchor _ _, e => e.response.isNone
  | handle _ _, e => e.response.isNone

/-- A recorder: the ledger with its pool, the queue, and how the calls have ended so far. -/
structure Recording where
  state : State
  queue : List Event := []
  results : List (Except Fault Unit) := []

namespace Recording

variable (c : Crypto) (strict : Bool)

/-- An event is taken from the pool, filled in and put into the queue. -/
def enqueue (r : Recording) (pick : Option Nat) (fill : Event → Event) : Recording :=
  { r with
    state := { r.state with pool := (getEvent pick r.state.pool).2 }
    queue := r.queue ++ [fill (getEvent pick r.state.pool).1] }

/-- The end of `CreateGenesisBlock`: a run that has started gets a processor. -/
def started (r : Recording) : Except Fault Bytes × State → Recording
  | (.ok runID, state) =>
    { r with state := newEventProcessor state runID, results := r.results ++ [.ok ()] }
  | (.error f, state) => { r with state, results := r.results ++ [.error f] }

/-- An event that was processed goes back, unless processing it has panicked. -/
def putBack (r : Recording) (e : Event) : Except Fault Unit × State → Recording
  | (.error (.panic msg), state) =>
    { r with state, results := r.results ++ [.error (.panic msg)] }
  | (res, state) =>
    { r with
      state := (state.putEvent strict e).2
      results := r.results ++ [res, (state.putEvent strict e).1] }

/-- One action, with the choice of the pool that it meets with. -/
def step (r : Recording) : RecordAction × Option Nat → Recording
  | (.genesis env agentName, pick) =>
    r.started (createGenesisBlock c strict { env with pick } r.state agentName)
  | (.toolCall env taskID req rule parentID, pick) =>
    r.enqueue pick (toolCallEvent env taskID req rule parentID)
  | (.toolResponse env resp, pick) => r.enqueue pick (toolResponseEvent env resp)
  | (.anchor env a, pick) => r.enqueue pick (Worker.anchorEvent env.id env.now a)
  | (.handle faults completion, pick) =>
    match r.queue with
    | [] => r
    | e :: queue =>
      putBack strict { r with queue } e
        (processEvent c strict r.state ⟨some e, faults, { completion with pick }⟩)

def run (r : Recording) (steps : List (RecordAction × Option Nat)) : Recording :=
  steps.foldl (step c strict) r

/-- Each event that is handed out has the maps of a new one where they matter. -/
def Safe : Recording → List (RecordAction × Option Nat) → Prop
  | _, [] => True
  | r, (a, pick) :: steps =>
    a.likeNew (getEvent pick r.state.pool).1 = true ∧ Safe (r.step c strict (a, pick)) steps

end Recording

/-! ## The same but for the pool -/

/-- Two states that differ in their pools only. -/
def SameBut (s s' : State) : Prop := ∃ pool, s' = { s with pool }

/-- Two calls that end in the same way, in states that differ in their pools only. -/
def SameEnd {α : Type} (x x' : Except Fault α × State) : Prop := x'.1 = x.1 ∧ SameBut x.2 x'.2

theorem SameEnd.eq {α : Type} {x x' : Except Fault α × State} (h : SameEnd x x') :
    ∃ pool, x' = (x.1, { x.2 with pool }) := by
  obtain ⟨hr, pool, hs⟩ := h
  exact ⟨pool, Prod.ext hr hs⟩

/-- Whether an event can be put back is up to the event. -/
theorem putEvent_fst (strict : Bool) (pool pool' : List Event) (e : Event) :
    (putEvent strict pool' e).1 = (putEvent strict pool e).1 := by
  unfold putEvent
  split
  · split
    · rfl
    · split <;> rfl
  · split <;> rfl

theorem SameBut.putEvent {s s' : State} (h : SameBut s s') (strict : Bool) (e : Event) :
    SameEnd (s.putEvent strict e) (s'.putEvent strict e) := by
  obtain ⟨pool, rfl⟩ := h
  exact ⟨putEvent_fst strict s.pool pool e, _, rfl⟩

section

variable (c : Crypto) (strict : Bool)

/-- Persisting an event does not look at the pool. -/
theorem persistEvent_pool (faults : RepoFaults) (s : State) (pool : List Event) (e : Event) :
    persistEvent c strict faults { s with pool } e
      = ((persistEvent c strict faults s e).1,
        { (persistEvent c strict faults s e).2 with pool }) := by
  have hassign : assignSequenceAndPrevHash strict faults { s with pool } e
      = assignSequenceAndPrevHash strict faults s e := rfl
  unfold persistEvent
  rw [hassign]
  cases assignSequenceAndPrevHash strict faults s e with
  | error f => rfl
  | ok e₁ =>
    dsimp only
    cases hashAndSignEvent c strict s.signer e₁ with
    | error f => rfl
    | ok e₂ =>
      dsimp only
      rcases storeEvent strict faults.storeEvent s.db e₂ with ⟨f | u, db⟩ <;> rfl

/-- A completion looks at the pool for the event that it fills in. -/
theorem createTaskCompletionEvent_sameEnd {env : CompletionEnv} {pick pick' : Option Nat}
    {taskID state : Bytes} {s : State} {pool : List Event}
    (hfill : completionEvent env taskID state (getEvent pick' pool).1
      = completionEvent env taskID state (getEvent pick s.pool).1) :
    SameEnd (createTaskCompletionEvent c strict { env with pick } taskID state s)
      (createTaskCompletionEvent c strict { env with pick := pick' } taskID state
        { s with pool }) := by
  unfold createTaskCompletionEvent
  rcases quietCheck strict (taskID ≠ []) (lit "taskID must not be empty") with f | _ | _
  · exact ⟨rfl, pool, rfl⟩
  · exact ⟨rfl, pool, rfl⟩
  rcases quietCheck strict (state ≠ []) (lit "state must not be empty") with f | _ | _
  · exact ⟨rfl, pool, rfl⟩
  · exact ⟨rfl, pool, rfl⟩
  have hfill' : completionEvent { env with pick := pick' } taskID state (getEvent pick' pool).1
      = completionEvent { env with pick } taskID state (getEvent pick s.pool).1 := hfill
  dsimp only
  rw [hfill', persistEvent_pool c strict env.faults s (getEvent pick s.pool).2,
    persistEvent_pool c strict env.faults s (getEvent pick' pool).2]
  -- the two calls go on from here with the same result of the same call
  rcases persistEvent c strict env.faults s
    (completionEvent { env with pick } taskID state (getEvent pick s.pool).1)
    with ⟨(msg | msg) | e, s₁⟩
  · cases strict with
    | true => exact ⟨rfl, _, rfl⟩
    | false => exact SameBut.putEvent ⟨_, rfl⟩ false _
  · exact ⟨rfl, _, rfl⟩
  · exact SameBut.putEvent ⟨_, rfl⟩ strict e

theorem trackTaskState_sameEnd {env : CompletionEnv} {pick pick' : Option Nat} {s : State}
    {pool : List Event} {e : Event}
    (hfill : ∀ taskID state, completionEvent env taskID state (getEvent pick' pool).1
      = completionEvent env taskID state (getEvent pick s.pool).1) :
    SameEnd (trackTaskState c strict { env with pick } s e)
      (trackTaskState c strict { env with pick := pick' } { s with pool } e) := by
  unfold trackTaskState
  rcases quietCheck strict (e.taskID ≠ []) (lit "taskID must not be empty") with f | _ | _
  · exact ⟨rfl, pool, rfl⟩
  · exact ⟨rfl, pool, rfl⟩
  dsimp only
  rw [← State.endsTask]
  cases s.endsTask e with
  | true =>
    obtain ⟨pool', hend⟩ :=
      (createTaskCompletionEvent_sameEnd c strict (hfill e.taskID e.taskState)).eq
    rw [if_pos rfl, if_pos rfl, hend]
    rcases createTaskCompletionEvent c strict { env with pick } e.taskID e.taskState s
      with ⟨f | u, s₁⟩
    · exact ⟨rfl, pool', rfl⟩
    · cases isTerminalState e.taskState <;> exact ⟨rfl, pool', rfl⟩
  | false => cases isTerminalState e.taskState <;> exact ⟨rfl, pool, rfl⟩

theorem processEvent_sameEnd {event : Option Event} {faults : RepoFaults} {env : CompletionEnv}
    {pick pick' : Option Nat} {s : State} {pool : List Event}
    (hfill : ∀ taskID state, completionEvent env taskID state (getEvent pick' pool).1
      = completionEvent env taskID state (getEvent pick s.pool).1) :
    SameEnd (processEvent c strict s ⟨event, faults, { env with pick }⟩)
      (processEvent c strict { s with pool } ⟨event, faults, { env with pick := pick' }⟩) := by
  cases event with
  | none => exact ⟨rfl, pool, rfl⟩
  | some e =>
    unfold processEvent
    dsimp only
    have hpool : (persistEvent c strict faults s e).2.pool = s.pool :=
      congrArg (fun x => x.2.pool) (persistEvent_pool c strict faults s s.pool e)
    rw [persistEvent_pool c strict faults s pool e]
    revert hpool
    rcases persistEvent c strict faults s e with ⟨f | e₁, s₁⟩
    · exact fun _ => ⟨rfl, pool, rfl⟩
    · intro hpool
      dsimp only at hpool ⊢
      split
      · refine trackTaskState_sameEnd c strict ?_
        rw [hpool]
        exact hfill
      · exact ⟨rfl, pool, rfl⟩

theorem createGenesisBlock_sameEnd {env : GenesisEnv} {pick pick' : Option Nat}
    {agentName : Bytes} {s : State} {pool : List Event} {e e' : Event} {m : SortedMap Bytes Value}
    (hget : (getEvent pick s.pool).1 = e) (hget' : (getEvent pick' pool).1 = e')
    (hm : e.params = some m) (hm' : e'.params = some m)
    (hfill : genesisEvent env s.signer agentName e' m = genesisEvent env s.signer agentName e m) :
    SameEnd (createGenesisBlock c strict { env with pick } s agentName)
      (createGenesisBlock c strict { env with pick := pick' } { s with pool } agentName) := by
  have hfill' : genesisEvent { env with pick := pick' } s.signer agentName e' m
      = genesisEvent { env with pick } s.signer agentName e m := hfill
  unfold createGenesisBlock fillGenesis
  dsimp only
  rw [hget, hget', hm, hm']
  dsimp only
  rw [hfill', insertGenesis_pool c strict _ agentName s (getEvent pick s.pool).2,
    insertGenesis_pool c strict _ agentName s (getEvent pick' pool).2]
  have hins : insertGenesis c strict { env with pick := pick' } agentName s
      = insertGenesis c strict { env with pick } agentName s := rfl
  rw [hins]
  generalize genesisEvent { env with pick } s.signer agentName e m = e₁
  obtain ⟨pool₁, hput⟩ := SameEnd.eq <| SameBut.putEvent
    (s := { (insertGenesis c strict { env with pick } agentName s e₁).2 with
      pool := (getEvent pick s.pool).2 }) ⟨(getEvent pick' pool).2, rfl⟩ strict e₁
  dsimp only at hput ⊢
  rw [hput]
  rcases State.putEvent strict _ e₁ with ⟨f | u, s₁⟩
  · exact ⟨rfl, pool₁, rfl⟩
  · exact ⟨rfl, pool₁, rfl⟩

end

/-! ## Two histories -/

/-- A clean event whose maps are those of a new one is a new one but for its time. -/
theorem Clean.eq_mk {e : Event} (h : Clean e) : ∃ params response,
    (params = none ∨ params = some SortedMap.empty) ∧
    (response = none ∨ response = some SortedMap.empty) ∧
    e = { timestamp := e.timestamp, params, response } := by
  obtain ⟨he, hp, hr⟩ := h
  have hempty : ∀ o : Object, mapLen o = 0 → o = none ∨ o = some SortedMap.empty := by
    rintro (_ | m) hlen
    · exact Or.inl rfl
    · exact Or.inr (congrArg some (SortedMap.ext_entries (List.length_eq_zero_iff.mp hlen)))
  exact ⟨e.params, e.response, hempty _ hp, hempty _ hr, he⟩

/-- An action makes the same of an event as of a new one. -/
def RecordAction.Fills (a : RecordAction) (e : Event) : Prop :=
  match a with
  | genesis env agentName => e.params = some SortedMap.empty ∧ ∀ signer,
      genesisEvent env signer agentName e SortedMap.empty
        = genesisEvent env signer agentName newEvent SortedMap.empty
  | toolCall env taskID req rule parentID =>
      toolCallEvent env taskID req rule parentID e
        = toolCallEvent env taskID req rule parentID newEvent
  | toolResponse env resp => toolResponseEvent env resp e = toolResponseEvent env resp newEvent
  | anchor env a => Worker.anchorEvent env.id env.now a e
        = Worker.anchorEvent env.id env.now a newEvent
  | handle _ completion => ∀ taskID state,
      completionEvent completion taskID state e = completionEvent completion taskID state newEvent

/-- **An event is as good as a new one** for an action just if its maps are. -/
theorem RecordAction.fills_iff {a : RecordAction} {e : Event} (hclean : Clean e) :
    a.Fills e ↔ a.likeNew e = true := by
  obtain ⟨params, response, hp, hr, he⟩ := hclean.eq_mk
  rw [he]
  -- a map that the action keeps shows in the event that it makes
  cases a with
  | genesis env agentName =>
    rcases hp with rfl | rfl
    · exact ⟨fun h => absurd h.1 (by simp), fun h => (by cases h)⟩
    · rcases hr with rfl | rfl
      · exact ⟨fun _ => rfl, fun _ => ⟨rfl, fun _ => rfl⟩⟩
      · exact ⟨fun h => absurd (congrArg Event.response (h.2 ⟨[], []⟩))
          (by simp [genesisEvent, newEvent]), fun h => (by cases h)⟩
  | toolCall env taskID req rule parentID =>
    rcases hr with rfl | rfl
    · exact ⟨fun _ => rfl, fun _ => rfl⟩
    · exact ⟨fun h => absurd (congrArg Event.response h) (by simp [toolCallEvent, newEvent]),
        fun h => (by cases h)⟩
  | toolResponse env resp =>
    rcases hp with rfl | rfl
    · exact ⟨fun h => absurd (congrArg Event.params h) (by simp [toolResponseEvent, newEvent]),
        fun h => (by cases h)⟩
    · exact ⟨fun _ => rfl, fun _ => rfl⟩
  | anchor env a =>
    rcases hr with rfl | rfl
    · exact ⟨fun _ => rfl, fun _ => by rcases hp with rfl | rfl <;> rfl⟩
    · exact ⟨fun h => absurd (congrArg Event.response h) (by simp [Worker.anchorEvent, newEvent]),
        fun h => (by cases h)⟩
  | handle faults completion =>
    rcases hr with rfl | rfl
    · exact ⟨fun _ => rfl, fun _ _ _ => by rcases hp with rfl | rfl <;> rfl⟩
    · exact ⟨fun h => absurd (congrArg Event.response (h [] []))
        (by simp [completionEvent, newEvent]), fun h => (by cases h)⟩

/-- Two recorders that have recorded the same, with different pools of clean events. -/
structure Agree (r r' : Recording) : Prop where
  state : SameBut r.state r'.state
  queue : r'.queue = r.queue
  results : r'.results = r.results
  clean : ∀ e ∈ r.state.pool, Clean e
  clean' : ∀ e ∈ r'.state.pool, Clean e

namespace Agree

variable {c : Crypto} {strict : Bool} {r r' : Recording}

theorem enqueue (h : Agree r r') {pick pick' : Option Nat} {fill : Event → Event}
    (hfill : fill (getEvent pick' r'.state.pool).1 = fill (getEvent pick r.state.pool).1) :
    Agree (r.enqueue pick fill) (r'.enqueue pick' fill) where
  state := by
    obtain ⟨pool, hs⟩ := h.state
    exact ⟨(getEvent pick' r'.state.pool).2, by rw [Recording.enqueue, hs]; rfl⟩
  queue := by rw [Recording.enqueue, Recording.enqueue, hfill, h.queue]
  results := h.results
  clean := (clean_getEvent h.clean pick).2
  clean' := (clean_getEvent h.clean' pick').2

theorem putBack (h : Agree r r') (e : Event) {x x' : Except Fault Unit × State}
    (hend : SameEnd x x') (hclean : ∀ e ∈ x.2.pool, Clean e) (hclean' : ∀ e ∈ x'.2.pool, Clean e) :
    Agree (r.putBack strict e x) (r'.putBack strict e x') := by
  obtain ⟨pool, rfl⟩ := hend.eq
  obtain ⟨res, s⟩ := x
  obtain ⟨hres, hput⟩ := SameBut.putEvent (s := s) ⟨pool, rfl⟩ strict e
  have hbefore := h.results
  rcases res with (msg | msg) | u
  · refine ⟨hput, h.queue, ?_, clean_putEvent hclean e, clean_putEvent hclean' e⟩
    simp only [Recording.putBack, hres, hbefore]
  · refine ⟨⟨pool, rfl⟩, h.queue, ?_, hclean, hclean'⟩
    simp only [Recording.putBack, hbefore]
  · refine ⟨hput, h.queue, ?_, clean_putEvent hclean e, clean_putEvent hclean' e⟩
    simp only [Recording.putBack, hres, hbefore]

theorem started (h : Agree r r') {x x' : Except Fault Bytes × State}
    (hend : SameEnd x x') (hclean : ∀ e ∈ x.2.pool, Clean e) (hclean' : ∀ e ∈ x'.2.pool, Clean e) :
    Agree (r.started x) (r'.started x') := by
  obtain ⟨pool, rfl⟩ := hend.eq
  obtain ⟨f | runID, s⟩ := x
  · exact ⟨⟨pool, rfl⟩, h.queue, by simp only [Recording.started, h.results], hclean, hclean'⟩
  · exact ⟨⟨pool, rfl⟩, h.queue, by simp only [Recording.started, h.results], hclean, hclean'⟩

/-- **The step lemma**: the same action goes on in the same way. -/
theorem step (h : Agree r r') (a : RecordAction) {pick pick' : Option Nat}
    (hsafe : a.likeNew (getEvent pick r.state.pool).1 = true)
    (hsafe' : a.likeNew (getEvent pick' r'.state.pool).1 = true) :
    Agree (r.step c strict (a, pick)) (r'.step c strict (a, pick')) := by
  have hfill := (RecordAction.fills_iff (clean_getEvent h.clean pick).1).mpr hsafe
  have hfill' := (RecordAction.fills_iff (clean_getEvent h.clean' pick').1).mpr hsafe'
  cases a with
  | genesis env agentName =>
    obtain ⟨pool, hs⟩ := h.state
    refine h.started ?_ (clean_createGenesisBlock c strict h.clean _ agentName)
      (clean_createGenesisBlock c strict h.clean' _ agentName)
    rw [hs] at hfill' ⊢
    exact createGenesisBlock_sameEnd c strict rfl rfl hfill.1 hfill'.1
      ((hfill'.2 _).trans (hfill.2 _).symm)
  | toolCall env taskID req rule parentID => exact h.enqueue (hfill'.trans hfill.symm)
  | toolResponse env resp => exact h.enqueue (hfill'.trans hfill.symm)
  | anchor env a => exact h.enqueue (hfill'.trans hfill.symm)
  | handle faults completion =>
    have hqueue := h.queue
    rw [Recording.step, Recording.step, hqueue]
    cases hq : r.queue with
    | nil => exact h
    | cons e queue =>
      have hrest : Agree { r with queue } { r' with queue } :=
        ⟨h.state, rfl, h.results, h.clean, h.clean'⟩
      refine hrest.putBack e ?_ (clean_processEvent c strict h.clean _)
        (clean_processEvent c strict h.clean' _)
      obtain ⟨pool, hs⟩ := h.state
      rw [hs] at hfill' ⊢
      exact processEvent_sameEnd c strict fun taskID state =>
        (hfill' taskID state).trans (hfill taskID state).symm

/-- **The run lemma.** -/
theorem run {steps steps' : List (RecordAction × Option Nat)} (h : Agree r r')
    (heq : steps'.map Prod.fst = steps.map Prod.fst) (hsafe : r.Safe c strict steps)
    (hsafe' : r'.Safe c strict steps') :
    Agree (r.run c strict steps) (r'.run c strict steps') := by
  induction steps generalizing r r' steps' with
  | nil =>
    rw [List.map_nil, List.map_eq_nil_iff] at heq
    subst heq
    exact h
  | cons st steps ih =>
    obtain ⟨⟨a', pick'⟩, rest, rfl, ha, hrest⟩ := List.map_eq_cons_iff.mp heq
    obtain ⟨a, pick⟩ := st
    obtain rfl : a' = a := ha
    show Agree ((r.step c strict (a', pick)).run c strict steps)
      ((r'.step c strict (a', pick')).run c strict rest)
    exact ih (h.step a' hsafe.1 hsafe'.1) hrest hsafe.2 hsafe'.2

end Agree

/-- A recorder in a given state, with the pool that a history has left. -/
def Recording.after (strict : Bool) (s : State) (history : List PoolUse) : Recording :=
  { state := { s with pool := poolAfter strict history } }

/-- **What is recorded does not depend on the history of the pool**, as long as each event that it
hands out has the maps of a new one where the action does not replace them: the same actions leave
the same rows, and each of them ends in the same way. -/
theorem record_history_irrelevant (c : Crypto) (strict : Bool) (s : State)
    {history history' : List PoolUse} {steps steps' : List (RecordAction × Option Nat)}
    (heq : steps'.map Prod.fst = steps.map Prod.fst)
    (hsafe : (Recording.after strict s history).Safe c strict steps)
    (hsafe' : (Recording.after strict s history').Safe c strict steps') :
    ((Recording.after strict s history').run c strict steps').state.db
        = ((Recording.after strict s history).run c strict steps).state.db ∧
      ((Recording.after strict s history').run c strict steps').results
        = ((Recording.after strict s history).run c strict steps).results := by
  have hstart : Agree (Recording.after strict s history) (Recording.after strict s history') :=
    ⟨⟨poolAfter strict history', rfl⟩, rfl, rfl, clean_history strict history,
      clean_history strict history'⟩
  have hend := hstart.run heq hsafe hsafe'
  obtain ⟨pool, hstate⟩ := hend.state
  exact ⟨by rw [hstate], hend.results⟩

/-- A run is started. -/
def genesisSteps (pick : Option Nat) : List (RecordAction × Option Nat) :=
  [(.genesis recordedEnv (lit "agent"), pick)]

/-- An event that was used for a call serves a genesis event as well as a new one. -/
theorem record_history_irrelevant_reused :
    ((Recording.after true (initialState recordedSigner []) []).run recordedCrypto true
        (genesisSteps none)).state.db
      = ((Recording.after true (initialState recordedSigner []) [.put recordedCall]).run
        recordedCrypto true (genesisSteps (some 0))).state.db :=
  (@record_history_irrelevant recordedCrypto true (initialState recordedSigner [])
    [.put recordedCall] [] (genesisSteps (some 0)) (genesisSteps none) rfl
    ⟨by decide +kernel, trivial⟩ ⟨by decide +kernel, trivial⟩).1

/-- What SHA-256 gives for a response to the genesis event, with an empty map and without one. -/
def responseHashes : List (Bytes × Bytes) := [
  (lits [
    "a2b888155809cf5b89ce1f2a451e1274ddcc36001c398633e29fd9c1253c4fd3\x7b\"actor\":\"\",",
    "\"event_type\":\"tool_response\",\"id\":\"evt-1\",\"method\":\"\",\"params\":\x7b\x7d,",
    "\"parent_id\":\"\",\"policy_id\":\"\",\"response\":\x7b\"ok\":true\x7d,",
    "\"risk_level\":\"\",\"run_id\":\"run-1\",\"seq_index\":1,\"task_id\":\"\",",
    "\"task_state\":\"\",\"timestamp\":\"2026-01-15T09:30:01Z\"\x7d"],
    hexText "391578a82233c73a45fad8804132f20be64df56fd543fe3b3f935f7db8570bbe"),
  (lits [
    "a2b888155809cf5b89ce1f2a451e1274ddcc36001c398633e29fd9c1253c4fd3\x7b\"actor\":\"\",",
    "\"event_type\":\"tool_response\",\"id\":\"evt-1\",\"method\":\"\",\"params\":null,",
    "\"parent_id\":\"\",\"policy_id\":\"\",\"response\":\x7b\"ok\":true\x7d,",
    "\"risk_level\":\"\",\"run_id\":\"run-1\",\"seq_index\":1,\"task_id\":\"\",",
    "\"task_state\":\"\",\"timestamp\":\"2026-01-15T09:30:01Z\"\x7d"],
    hexText "513452641f8810a4f9b5e639d83f4f97f02d093807b62a2a68b8267f8c92e8e8")]

/-- What Ed25519 gives for those. -/
def responseSignatures : List ((Bytes × Bytes) × Bytes) := [
  ((recordedKey, lit "391578a82233c73a45fad8804132f20be64df56fd543fe3b3f935f7db8570bbe"),
    hexText "74b33e9a997cf2a4255e9ca1ebc1278000cba8e3d343c39466a4d104d31bccf0" ++
      hexText "933d8badbe2fe45b081314099bd421a85f4e6c419cda8312fe6755bcef13350a"),
  ((recordedKey, lit "513452641f8810a4f9b5e639d83f4f97f02d093807b62a2a68b8267f8c92e8e8"),
    hexText "fa5e7f2a1c9371673caa0c187ebac55c6bc9a6c04cea8ea59a3982616d913b75" ++
      hexText "1f84b86530aacfaeff916395b1b38a692747d4634dafc4666dea22622f84af09")]

/-- The primitives, as far as the runs below use them. -/
def responseCrypto : Crypto :=
  .ofTables (recordedHashes ++ responseHashes) (recordedSignatures ++ responseSignatures)
    [(recordedSigner.publicKey, recordedKey)]

/-- An event without parameters was put back. -/
def nilParams : List PoolUse := [.put { recordedCall with params := none }]

/-- A run is started, and a response is recorded in it. -/
def responseSteps (pick : Option Nat) : List (RecordAction × Option Nat) :=
  genesisSteps none ++
  [(.toolResponse { id := lit "evt-1", now := ⟨2026, 1, 15, 9, 30, 1, 0, 0, by decide⟩ }
      { jsonrpc := lit "2.0", result := some (SortedMap.ofList [(lit "ok", .bool true)]) }, pick),
    (.handle {} { id := lit "evt-2", now := recordedEnv.now }, none)]

/-- The parameters and hashes in the rows of a recorder. -/
def Recording.columns (r : Recording) : List (Bytes × Bytes) :=
  r.state.db.events.map fun row => (row.params, row.currentHash)

/-- **The history shows**: with an event whose map is nil, the same response has other columns, and
the same genesis ends in a panic. -/
theorem record_depends_on_history :
    (((Recording.after true (initialState recordedSigner []) []).run responseCrypto true
        (responseSteps none)).columns[1]? = some (lit "\x7b\x7d",
          lit "391578a82233c73a45fad8804132f20be64df56fd543fe3b3f935f7db8570bbe") ∧
      ((Recording.after true (initialState recordedSigner []) nilParams).run responseCrypto true
        (responseSteps (some 1))).columns[1]? = some (lit "null",
          lit "513452641f8810a4f9b5e639d83f4f97f02d093807b62a2a68b8267f8c92e8e8")) ∧
    ((Recording.after true (initialState recordedSigner []) []).run responseCrypto true
        (genesisSteps none)).results = [.ok ()] ∧
      ((Recording.after true (initialState recordedSigner []) nilParams).run responseCrypto true
        (genesisSteps (some 0))).results
          = [.error (.panic (lit "assignment to entry in nil map"))] := by
  decide +kernel

end Logryph
