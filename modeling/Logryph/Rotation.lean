import Logryph.AuditRun

/-!
# Key rotation

`HandleRekey` rotates the key of the worker's signer while events are being processed. Rows that
are stored keep the signature of the key of their time, and the verifier has only the signer as it
is at the end.

* `Action`, `runActions` — calls of the processor and rotations, in any order
* `rotation_valid_iff` — the run verifies at its end exactly if no rotation has succeeded
-/

namespace Logryph

open Infra Relation

variable (c : Crypto) (strict : Bool)

/-- What happens to a worker. -/
inductive Action where
  | process (call : Call)
  | rotate (env : Signer.RotateEnv)

/-- The signer after a rotation that succeeds. -/
def Signer.RotateEnv.newSigner (env : Signer.RotateEnv) : Option Signer :=
  match env.generated, env.saved with
  | .ok (pub, priv), .ok () => some ⟨priv, pub⟩
  | _, _ => none

/-- A rotation returns the two public keys and installs the new signer, or changes nothing. -/
theorem Signer.rotateKey_cases (s : Signer) (env : RotateEnv) :
    (∃ k, env.newSigner = some k ∧
      s.rotateKey env = (.ok (s.getPublicKey, k.getPublicKey), k)) ∨
    env.newSigner = none ∧ ∃ f, s.rotateKey env = (.error f, s) := by
  unfold rotateKey RotateEnv.newSigner
  cases env.generated with
  | error msg => exact Or.inr ⟨rfl, _, rfl⟩
  | ok keys =>
    cases env.saved with
    | error msg => exact Or.inr ⟨rfl, _, rfl⟩
    | ok u => exact Or.inl ⟨_, rfl, rfl⟩

/-- The signer that an action installs. -/
def Action.newSigner : Action → Option Signer
  | .process _ => none
  | .rotate env => env.newSigner

def runAction (s : State) : Action → State
  | .process call => (processEvent c strict s call).2
  | .rotate env => { s with signer := (s.signer.rotateKey env).2 }

def runActions (s : State) (actions : List Action) : State :=
  actions.foldl (runAction c strict) s

/-! ## What a step keeps -/

/-- Rows are only added, at the end. -/
theorem rows_of_steps {P : Event → Prop} {s s' : Core}
    (h : ReflTransGen (PersistStep c strict P) s s') (hlog : rowView.IsLog s.rows) :
    rowView.IsLog s'.rows ∧ (∃ t, s'.rows = s.rows ++ t) ∧ s'.signer = s.signer ∧
      s'.runID = s.runID := by
  induction h with
  | refl => exact ⟨hlog, ⟨[], (List.append_nil _).symm⟩, rfl, rfl⟩
  | tail _ hstep ih =>
    obtain ⟨hlog', ⟨t, ht⟩, hsigner, hrun⟩ := ih
    obtain ⟨e, -, hpersist⟩ := hstep
    obtain ⟨hnext, hsigner', hrun'⟩ := hpersist.logStep c strict hlog'
    refine ⟨?_, ?_, hsigner'.trans hsigner, hrun'.trans hrun⟩
    · rcases hnext with heq | ⟨x, hx, -, heq⟩
      · exact heq ▸ hlog'
      · exact heq ▸ hlog'.concat hx
    · rcases hnext with heq | ⟨x, -, -, heq⟩
      · exact ⟨t, heq.trans ht⟩
      · exact ⟨t ++ [x], by rw [heq, ht, List.append_assoc]⟩

/-- The step lemma: an action adds rows to the log, and changes the signer only by rotating. -/
theorem runAction_spec {s : State} (hlog : rowView.IsLog s.core.rows) (a : Action) :
    rowView.IsLog (runAction c strict s a).core.rows ∧
      (∃ t, (runAction c strict s a).core.rows = s.core.rows ++ t) ∧
      (runAction c strict s a).signer = a.newSigner.getD s.signer ∧
      (runAction c strict s a).runID = s.runID := by
  cases a with
  | process call => exact rows_of_steps c strict (processEvent_steps c strict s call) hlog
  | rotate env =>
    refine ⟨hlog, ⟨[], (List.append_nil _).symm⟩, ?_, rfl⟩
    rcases s.signer.rotateKey_cases env with ⟨k, hk, hrot⟩ | ⟨hnone, f, hrot⟩
    · rw [Action.newSigner, hk, runAction, hrot]
      rfl
    · rw [Action.newSigner, hnone, runAction, hrot]
      rfl

theorem runActions_cons (s : State) (a : Action) (actions : List Action) :
    runActions c strict s (a :: actions) = runActions c strict (runAction c strict s a) actions :=
  rfl

/-- The run lemma for the rows. -/
theorem runActions_rows (actions : List Action) {s : State} (hlog : rowView.IsLog s.core.rows) :
    rowView.IsLog (runActions c strict s actions).core.rows ∧
      (∃ t, (runActions c strict s actions).core.rows = s.core.rows ++ t) ∧
      (runActions c strict s actions).runID = s.runID := by
  induction actions generalizing s with
  | nil => exact ⟨hlog, ⟨[], (List.append_nil _).symm⟩, rfl⟩
  | cons a actions ih =>
    obtain ⟨hlog₁, ⟨t₁, ht₁⟩, -, hrun₁⟩ := runAction_spec c strict hlog a
    obtain ⟨hlog₂, ⟨t₂, ht₂⟩, hrun₂⟩ := ih hlog₁
    rw [runActions_cons]
    exact ⟨hlog₂, ⟨t₁ ++ t₂, by rw [ht₂, ht₁, List.append_assoc]⟩, hrun₂.trans hrun₁⟩

/-- The run lemma for the signer: at the end it is one that a rotation installed, if any did. -/
theorem runActions_signer (actions : List Action) {s : State} (hlog : rowView.IsLog s.core.rows) :
    (∀ a ∈ actions, a.newSigner = none) ∧ (runActions c strict s actions).signer = s.signer ∨
      ∃ a ∈ actions, a.newSigner = some (runActions c strict s actions).signer := by
  induction actions generalizing s with
  | nil => exact Or.inl ⟨List.forall_mem_nil _, rfl⟩
  | cons a actions ih =>
    obtain ⟨hlog₁, -, hsigner₁, -⟩ := runAction_spec c strict hlog a
    rw [runActions_cons]
    rcases ih hlog₁ with ⟨hnone, hlast⟩ | ⟨a', ha', hlast⟩
    · cases hnew : a.newSigner with
      | none =>
        rw [hnew, Option.getD_none] at hsigner₁
        refine Or.inl ⟨?_, hlast.trans hsigner₁⟩
        exact List.forall_mem_cons.mpr ⟨hnew, hnone⟩
      | some k =>
        rw [hnew, Option.getD_some] at hsigner₁
        exact Or.inr ⟨a, List.mem_cons_self, by rw [hnew, hlast, hsigner₁]⟩
    · exact Or.inr ⟨a', List.mem_cons_of_mem _ ha', hlast⟩

/-- The calls among the actions. -/
def Action.call? : Action → Option Call
  | .process call => some call
  | .rotate _ => none

/-- Rotations that fail do nothing. -/
theorem runActions_eq_processAll {actions : List Action} (h : ∀ a ∈ actions, a.newSigner = none)
    (s : State) :
    runActions c strict s actions = processAll c strict s (actions.filterMap Action.call?) := by
  induction actions generalizing s with
  | nil => rfl
  | cons a actions ih =>
    obtain ⟨ha, hrest⟩ := List.forall_mem_cons.mp h
    rw [runActions_cons, ih hrest]
    cases a with
    | process call => rfl
    | rotate env =>
      rcases s.signer.rotateKey_cases env with ⟨k, hk, -⟩ | ⟨-, f, hrot⟩
      · rw [Action.newSigner, hk] at ha
        cases ha
      · rw [runAction, hrot]
        rfl

/-! ## Verifying after rotations -/

/-- **Verification after key rotation.** A run that was written through any sequence of calls and
rotations is accepted under the signer at its end exactly if no rotation succeeded. The genesis
event is assumed not to verify under the new keys. -/
theorem rotation_valid_iff {env : GenesisEnv} {signer : Signer} {pool : List Event}
    {agentName runID : Bytes} {s : State}
    (hgen : createGenesisBlock c strict env (initialState signer pool) agentName = (.ok runID, s))
    (actions : List Action) (hnow : env.now.Representable)
    (htimes : ∀ call ∈ actions.filterMap Action.call?,
      (∀ e ∈ call.event, e.timestamp.Representable) ∧ call.completion.now.Representable)
    (hown : ∀ m, c.verify signer.publicKey m (c.sign signer.privateKey m) = true)
    (hfresh : ∀ a ∈ actions, ∀ k ∈ a.newSigner, ∀ row ∈ s.db.rowsOf runID,
      k.verifySignature c row.currentHash row.signature = false) :
    Accepts c strict
        (getAllEvents strict {} (runActions c strict (newEventProcessor s runID) actions).db) runID
        (runActions c strict (newEventProcessor s runID) actions).signer ↔
      ∀ a ∈ actions, a.newSigner = none := by
  have hinv := runInv_of_genesis c strict hgen
  obtain ⟨-, -, -, -, -, -, hrun⟩ := createGenesisBlock_eq_ok c strict hgen rfl
  obtain ⟨hlog, ⟨t, ht⟩, hrunID⟩ := runActions_rows c strict actions hinv.isLog
  constructor
  · intro hacc
    obtain ⟨-, hpass⟩ := (accepts_store c strict).mp hacc
    rcases runActions_signer c strict actions hinv.isLog with ⟨hnone, -⟩ | ⟨a, ha, hk⟩
    · exact hnone
    · exfalso
      -- the genesis row is still the first, with the signature of the old key
      obtain ⟨first, rest, hfirst⟩ := List.exists_cons_of_ne_nil hinv.nonempty
      have hrows : (runActions c strict (newEventProcessor s runID) actions).db.orderedRows runID
          = first :: (rest ++ t) := by
        have hrows' : (runActions c strict (newEventProcessor s runID) actions).core.rows
            = (runActions c strict (newEventProcessor s runID) actions).db.rowsOf runID :=
          congrArg (DB.rowsOf _) hrunID
        rw [hrows'] at hlog ht
        rw [DB.orderedRows_of_isLog hlog, ht, hfirst]
        rfl
      rw [hrows] at hpass
      obtain ⟨e, hscan, hver⟩ := hpass.passes first (by
        rw [maxEventRows, List.take_succ_cons]
        exact List.mem_cons_self)
      obtain ⟨-, -, -, -, hcur, hsig⟩ := scanEvent_eq_ok hscan
      obtain ⟨-, -, hv⟩ := (verifyEvent_eq_ok c strict).mp hver
      rw [hcur, hsig, hfresh a ha _ hk first (by
        have : first ∈ (newEventProcessor s runID).core.rows := hfirst ▸ List.mem_cons_self
        exact this)] at hv
      cases hv
  · intro hnone
    have hsigner : (runActions c strict (newEventProcessor s runID) actions).signer = signer := by
      rcases runActions_signer c strict actions hinv.isLog with ⟨-, h⟩ | ⟨a, ha, hk⟩
      · exact h.trans hinv.signer_eq
      · rw [hnone a ha] at hk
        cases hk
    rw [hsigner, runActions_eq_processAll c strict hnone, accepts_store]
    exact ⟨hrun, (rowsPass_processAll c strict hgen _ hnow htimes hown).take c strict (by decide)⟩

/-! ## A recorded rotation -/

/-- The key is rotated after the genesis event, and one more event is stored. -/
def recordedActions : List Action :=
  [.rotate ⟨.ok (rotatedSigner.publicKey, rotatedKey), .ok ()⟩] ++
    (recordedCalls.take 1).map .process

theorem recordedActions_fresh : ∀ row ∈ recordedGenesis.db.rowsOf (lit "run-1"),
    rotatedSigner.verifySignature recordedCrypto row.currentHash row.signature = false := by
  decide +kernel

theorem recordedActions_representable : ∀ call ∈ recordedActions.filterMap Action.call?,
    (∀ e ∈ call.event, e.timestamp.Representable) ∧ call.completion.now.Representable := by
  decide

theorem rotation_valid_recorded : ¬ Accepts recordedCrypto true
    (getAllEvents true {} (runActions recordedCrypto true
      (newEventProcessor recordedGenesis (lit "run-1")) recordedActions).db) (lit "run-1")
    (runActions recordedCrypto true (newEventProcessor recordedGenesis (lit "run-1"))
      recordedActions).signer := by
  intro hacc
  have hnone := (rotation_valid_iff recordedCrypto true createGenesisBlock_recorded recordedActions
    (by decide) recordedActions_representable recordedSigner_own (by
      intro a ha k hk row hrow
      rcases List.mem_cons.mp ha with rfl | ha
      · cases hk
        exact recordedActions_fresh row hrow
      · obtain ⟨call, -, rfl⟩ := List.mem_map.mp ha
        cases hk)).mp hacc
  cases hnone _ List.mem_cons_self

/-- Both rows were signed by the key of their time, and the first is rejected. -/
theorem rotation_breaks_verification :
    (runActions recordedCrypto true (newEventProcessor recordedGenesis (lit "run-1"))
      recordedActions).signer = rotatedSigner ∧
    verifyChain recordedCrypto true
      (getAllEvents true {} (runActions recordedCrypto true
        (newEventProcessor recordedGenesis (lit "run-1")) recordedActions).db) (lit "run-1")
      rotatedSigner
      = .ok { valid := false, totalEvents := 2,
              errorMessage := lit "Event 0 (seq 0) failed verification: " ++ errInvalidSignature,
              failedAtSeq := 0 } := by
  decide +kernel

end Logryph
