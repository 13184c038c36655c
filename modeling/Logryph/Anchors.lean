import Logryph.Infra.GoJsonFlat
import Logryph.Infra.GoScan
import Logryph.Snapshots
import Logryph.Start

/-!
# Anchors

The genesis event of a run, and an event every ten minutes, hold the hash of the last Bitcoin block
as a web service gave it. `VerifyAnchors` asks the service again for the block of each of these
events. The height went through JSON in between, and comes back as a `float64`.

* `fetched_anchor_confirmed_iff` — the two functions that ask for a block do not take the same
  answers
* `verifyAnchorsFrom_valid` — what `VerifyAnchors` accepts
* `anchorIn_row` — a row that was written for an anchor is read as this anchor
* `anchors_verified_iff` — in a ledger that the worker has written, what is checked are the anchors
  that were fetched, one by one, and nothing that an agent has sent
* `ledger_anchors_confirmed_iff` — with a service that goes on to answer as it did, these are
  confirmed exactly if its answers had the right status
-/

namespace Logryph

open Infra

deriving instance DecidableEq for Anchor

/-! ## The web service -/

/-- A response, with a body that is read and closed. -/
structure HttpResponse where
  statusCode : Nat
  body : Stream
  closeError : Option Bytes := none

/-- `Get`. -/
abbrev HttpGet := Bytes → Except Bytes HttpResponse

def tipHeightURL : Bytes := lit "https://blockstream.info/api/blocks/tip/height"

def blockURL (height : Nat) : Bytes :=
  lit "https://blockstream.info/api/block-height/" ++ natText height

/-- `closeBody`. -/
def HttpResponse.closeBody (resp : HttpResponse) (context : Bytes) : Except Bytes Unit :=
  match resp.closeError with
  | none => .ok ()
  | some msg => .error (lit "closing " ++ context ++ lit ": " ++ msg)

/-- The body is closed after an error. If that fails as well, both are reported, and the first one
after some words. -/
def HttpResponse.fail {α : Type} (resp : HttpResponse) (context words err : Bytes) :
    Except Bytes α :=
  match resp.closeBody context with
  | .error closeErr => .error (words ++ err ++ lit "; " ++ closeErr)
  | .ok () => .error err

/-- The hash in the response to a request for a block. -/
def HttpResponse.readHash (resp : HttpResponse) : Except Bytes Bytes :=
  match resp.body.scanWord with
  | .error err => resp.fail (lit "block hash response") (lit "reading block hash: ") err
  | .ok hash =>
    match resp.closeBody (lit "block hash response") with
    | .error err => .error err
    | .ok () => .ok hash

def apiError (resp : HttpResponse) : Bytes :=
  lit "blockstream api error: " ++ natText resp.statusCode

/-- `FetchBitcoinAnchor`. The status of the second response is not looked at. -/
def fetchBitcoinAnchor (get : HttpGet) (now : Time) : Except Bytes Anchor :=
  match get tipHeightURL with
  | .error msg => .error (lit "fetching tip height: " ++ msg)
  | .ok resp =>
    if resp.statusCode ≠ 200 then resp.fail (lit "tip height response") [] (apiError resp)
    else
      match resp.body.decodeUint64 with
      | .error msg => resp.fail (lit "tip height response") [] (lit "decoding height: " ++ msg)
      | .ok height =>
        match resp.closeBody (lit "tip height response") with
        | .error err => .error err
        | .ok () =>
          match get (blockURL height) with
          | .error msg => .error (lit "fetching block hash: " ++ msg)
          | .ok resp₂ =>
            match resp₂.readHash with
            | .error err => .error err
            | .ok hash => .ok ⟨lit "bitcoin-mainnet", height, hash, now⟩

/-- `FetchBitcoinAnchorAtHeight`. -/
def fetchBitcoinAnchorAtHeight (get : HttpGet) (now : Time) (height : Nat) : Except Bytes Anchor :=
  match get (blockURL height) with
  | .error msg => .error (lit "fetching block hash: " ++ msg)
  | .ok resp =>
    if resp.statusCode ≠ 200 then resp.fail (lit "block hash response") [] (apiError resp)
    else
      match resp.readHash with
      | .error err => .error err
      | .ok hash => .ok ⟨lit "bitcoin-mainnet", height, hash, now⟩

/-! ## VerifyAnchors -/

/-- `AnchorVerificationResult`. -/
structure AnchorVerificationResult where
  valid : Bool
  anchorsChecked : Nat
  errorMessage : Bytes := []

/-- What a verification takes from outside: the answers to the request for the `i`-th event, the
time, and how the machine converts a number that is no `uint64`. -/
structure LiveEnv where
  get : Nat → HttpGet
  now : Time
  outside : Float64 → Nat

/-- The hash and the height that an event says it has. -/
def anchorIn (e : Event) : Option (Bytes × Float64) :=
  if e.eventType ≠ lit "genesis" ∧ e.eventType ≠ lit "anchor" then none
  else
    match e.params.bind fun m => m.get? (lit "anchor_hash"),
        e.params.bind fun m => m.get? (lit "anchor_height") with
    | some (.string hash), some (.float64 height) => some (hash, height)
    | _, _ => none

/-- The loop from index `i` on, with a number of anchors checked before. -/
def verifyAnchorsFrom (env : LiveEnv) : Nat → Nat → List Event → AnchorVerificationResult
  | _, checked, [] => { valid := true, anchorsChecked := checked }
  | i, checked, e :: events =>
    match anchorIn e with
    | none => verifyAnchorsFrom env (i + 1) checked events
    | some (hash, height) =>
      match fetchBitcoinAnchorAtHeight (env.get i) env.now (height.toUint64 env.outside) with
      | .error msg => {
          valid := false
          anchorsChecked := checked + 1
          errorMessage := lit "failed to verify anchor at height " ++
            natText (height.toUint64 env.outside) ++ lit ": " ++ msg }
      | .ok live =>
        if live.blockHash ≠ hash then {
          valid := false
          anchorsChecked := checked + 1
          errorMessage := lit "anchor mismatch at height " ++
            natText (height.toUint64 env.outside) ++ lit ": ledger=" ++ hash ++ lit ", live=" ++
            live.blockHash }
        else verifyAnchorsFrom env (i + 1) (checked + 1) events

def maxAnchorEvents : Nat := 100000

/-- `VerifyAnchors`. -/
def verifyAnchors (strict : Bool) (env : LiveEnv) (reader : Bytes → Except Fault (List Event))
    (runID : Bytes) : Except Fault AnchorVerificationResult := do
  let events ← inContext (lit "failed to get events for anchor verification") (reader runID)
  check strict (events.length ≤ maxAnchorEvents)
    (lit "anchor events exceed max: " ++ natText events.length)
  .ok (verifyAnchorsFrom env 0 0 (events.take maxAnchorEvents))

/-- The service says that the block at this height has this hash. -/
def Confirms (get : HttpGet) (height : Nat) (hash : Bytes) : Prop :=
  ∃ resp, get (blockURL height) = .ok resp ∧ resp.statusCode = 200 ∧ resp.readHash = .ok hash

theorem fetchBitcoinAnchorAtHeight_eq_ok {get : HttpGet} {now : Time} {height : Nat} {a : Anchor} :
    fetchBitcoinAnchorAtHeight get now height = .ok a ↔
      ∃ hash, Confirms get height hash ∧ a = ⟨lit "bitcoin-mainnet", height, hash, now⟩ := by
  unfold fetchBitcoinAnchorAtHeight Confirms
  cases hget : get (blockURL height) with
  | error msg => simp
  | ok resp =>
    simp only [Except.ok.injEq, exists_eq_left']
    by_cases hstatus : resp.statusCode = 200
    · rw [if_neg (not_not.mpr hstatus)]
      cases hhash : resp.readHash with
      | error err => simp
      | ok hash => simp [hstatus, eq_comm]
    · rw [if_pos hstatus]
      unfold HttpResponse.fail
      split <;> simp [hstatus]

theorem confirms_unique {get : HttpGet} {height : Nat} {hash hash' : Bytes}
    (h : Confirms get height hash) (h' : Confirms get height hash') : hash = hash' := by
  obtain ⟨resp, hget, -, hhash⟩ := h
  obtain ⟨resp', hget', -, hhash'⟩ := h'
  cases hget.symm.trans hget'
  exact Except.ok.inj (hhash.symm.trans hhash')

/-- Where the fields of an anchor come from. -/
theorem fetchBitcoinAnchor_block {get : HttpGet} {now : Time} {a : Anchor}
    (h : fetchBitcoinAnchor get now = .ok a) :
    ∃ resp, get (blockURL a.blockHeight) = .ok resp ∧ resp.readHash = .ok a.blockHash := by
  have hfail : ∀ {resp : HttpResponse} {context words err : Bytes},
      resp.fail context words err ≠ Except.ok a := by
    intro resp context words err hfail
    unfold HttpResponse.fail at hfail
    split at hfail <;> cases hfail
  unfold fetchBitcoinAnchor at h
  cases htip : get tipHeightURL with
  | error msg => simp [htip] at h
  | ok resp =>
    simp only [htip] at h
    split at h
    · exact absurd h hfail
    · split at h
      · exact absurd h hfail
      · next height _ =>
        split at h
        · cases h
        · split at h
          · cases h
          · next resp₂ hblock =>
            split at h
            · cases h
            · next hash hhash =>
              cases h
              exact ⟨resp₂, hblock, hhash⟩

/-- A service that goes on to answer as it did confirms an anchor if the status of its answer was
200. -/
theorem confirms_fetched_iff {get get' : HttpGet} {now : Time} {a : Anchor}
    (h : fetchBitcoinAnchor get now = .ok a)
    (hsame : get' (blockURL a.blockHeight) = get (blockURL a.blockHeight)) :
    Confirms get' a.blockHeight a.blockHash ↔
      ∃ resp, get (blockURL a.blockHeight) = .ok resp ∧ resp.statusCode = 200 := by
  obtain ⟨resp, hget, hhash⟩ := fetchBitcoinAnchor_block h
  unfold Confirms
  rw [hsame, hget]
  simp only [Except.ok.injEq, exists_eq_left', hhash, and_true]

/-- **A recorded anchor and its verification.** `FetchBitcoinAnchor` takes the hash from the body of
a response whose status it does not look at. If the service goes on to answer as it did,
`FetchBitcoinAnchorAtHeight` gives this hash again exactly if that status was 200. -/
theorem fetched_anchor_confirmed_iff {get : HttpGet} {now : Time} {a : Anchor}
    (h : fetchBitcoinAnchor get now = .ok a) (later : Time) :
    (∃ live, fetchBitcoinAnchorAtHeight get later a.blockHeight = .ok live ∧
        live.blockHash = a.blockHash) ↔
      ∃ resp, get (blockURL a.blockHeight) = .ok resp ∧ resp.statusCode = 200 := by
  rw [← confirms_fetched_iff h rfl]
  simp only [fetchBitcoinAnchorAtHeight_eq_ok]
  constructor
  · rintro ⟨_, ⟨hash, hconfirms, rfl⟩, rfl⟩
    exact hconfirms
  · intro hconfirms
    exact ⟨_, ⟨_, hconfirms, rfl⟩, rfl⟩

/-- The service does not know the block that it has just announced. -/
def missingBlock : HttpGet := fun url =>
  if url = tipHeightURL then .ok ⟨200, ⟨lit "880000", none⟩, none⟩
  else .ok ⟨404, ⟨lit "Block not found", none⟩, none⟩

theorem fetched_anchor_confirmed_missing :
    fetchBitcoinAnchor missingBlock recordedEnv.now
      = .ok ⟨lit "bitcoin-mainnet", 880000, lit "Block", recordedEnv.now⟩ ∧
    ¬ ∃ live, fetchBitcoinAnchorAtHeight missingBlock recordedEnv.now 880000 = .ok live ∧
      live.blockHash = lit "Block" := by
  have hfetch : fetchBitcoinAnchor missingBlock recordedEnv.now
      = .ok ⟨lit "bitcoin-mainnet", 880000, lit "Block", recordedEnv.now⟩ := by decide +kernel
  refine ⟨hfetch, fun h => ?_⟩
  obtain ⟨resp, hget, hstatus⟩ := (fetched_anchor_confirmed_iff hfetch recordedEnv.now).mp h
  have hmissing : missingBlock (blockURL 880000) = .ok ⟨404, ⟨lit "Block not found", none⟩, none⟩ :=
    if_neg (by decide +kernel)
  cases hmissing.symm.trans hget
  cases hstatus

/-- The `i`-th event holds no anchor, or one that is confirmed. -/
def LiveEnv.Passes (env : LiveEnv) (i : Nat) (e : Event) : Prop :=
  ∀ x ∈ anchorIn e, Confirms (env.get i) (x.2.toUint64 env.outside) x.1

/-- What the loop does at an event. -/
theorem verifyAnchorsFrom_cons (env : LiveEnv) (i checked : Nat) (e : Event) (events : List Event) :
    (env.Passes i e ∧ verifyAnchorsFrom env i checked (e :: events)
        = verifyAnchorsFrom env (i + 1) (checked + (anchorIn e).toList.length) events) ∨
      ¬ env.Passes i e ∧ (verifyAnchorsFrom env i checked (e :: events)).valid = false := by
  rw [verifyAnchorsFrom]
  unfold LiveEnv.Passes
  cases hanchor : anchorIn e with
  | none => exact Or.inl ⟨fun x hx => (by cases hx), rfl⟩
  | some x =>
    obtain ⟨hash, height⟩ := x
    simp only [Option.mem_def, Option.some.injEq, forall_eq']
    cases hfetch : fetchBitcoinAnchorAtHeight (env.get i) env.now (height.toUint64 env.outside) with
    | error msg =>
      refine Or.inr ⟨fun h => ?_, rfl⟩
      rw [fetchBitcoinAnchorAtHeight_eq_ok.mpr ⟨hash, h, rfl⟩] at hfetch
      cases hfetch
    | ok live =>
      obtain ⟨found, hconfirms, rfl⟩ := fetchBitcoinAnchorAtHeight_eq_ok.mp hfetch
      dsimp only
      by_cases heq : found = hash
      · rw [if_neg (not_not.mpr heq)]
        exact Or.inl ⟨heq ▸ hconfirms, rfl⟩
      · rw [if_pos heq]
        exact Or.inr ⟨fun h => heq (confirms_unique hconfirms h), rfl⟩

/-- **What `VerifyAnchors` accepts**: every event that holds an anchor holds the right one. Their
number is then the one that is reported. -/
theorem verifyAnchorsFrom_valid (env : LiveEnv) : ∀ (events : List Event) (i checked : Nat),
    ((verifyAnchorsFrom env i checked events).valid = true ↔
      ∀ j e, events[j]? = some e → env.Passes (i + j) e) ∧
    ((verifyAnchorsFrom env i checked events).valid = true →
      (verifyAnchorsFrom env i checked events).anchorsChecked
        = checked + events.countP fun e => (anchorIn e).isSome)
  | [], i, checked => by simp [verifyAnchorsFrom]
  | e :: events, i, checked => by
    rcases verifyAnchorsFrom_cons env i checked e events with ⟨hpass, heq⟩ | ⟨hfail, hvalid⟩
    · obtain ⟨hiff, hcount⟩ := verifyAnchorsFrom_valid env events (i + 1)
        (checked + (anchorIn e).toList.length)
      rw [heq]
      refine ⟨hiff.trans ⟨fun h j x hx => ?_, fun h j x hx => ?_⟩, fun hvalid => ?_⟩
      · cases j with
        | zero =>
          cases hx
          exact hpass
        | succ j =>
          rw [show i + (j + 1) = i + 1 + j by omega]
          exact h j x hx
      · rw [show i + 1 + j = i + (j + 1) by omega]
        exact h (j + 1) x hx
      · rw [hcount hvalid, List.countP_cons]
        cases anchorIn e with
        | none => simp
        | some a =>
          simp only [Option.toList_some, List.length_singleton, Option.isSome_some, if_true]
          omega
    · rw [hvalid]
      refine ⟨⟨fun h => (by cases h), fun h => absurd (h 0 e rfl) hfail⟩, fun h => (by cases h)⟩

/-! ## What is recorded -/

/-- The height can be read back as a `float64`, and the hash as UTF-8. -/
structure Anchor.Exact (a : Anchor) : Prop where
  height : a.blockHeight < 2 ^ 53
  hash : ValidUtf8 a.blockHash

/-- What `FetchBitcoinAnchor` gives for a block of any height that there will be. -/
theorem Anchor.exact_of_fetch {get : HttpGet} {now : Time} {a : Anchor}
    (h : fetchBitcoinAnchor get now = .ok a) (hheight : a.blockHeight < 2 ^ 53) : a.Exact := by
  obtain ⟨resp, -, hhash⟩ := fetchBitcoinAnchor_block h
  refine ⟨hheight, ?_⟩
  unfold HttpResponse.readHash at hhash
  split at hhash
  · unfold HttpResponse.fail at hhash
    split at hhash <;> cases hhash
  · next word hword =>
    split at hhash
    · cases hhash
    · cases hhash
      exact Stream.validUtf8_of_scanWord hword

/-- The parameters hold this anchor, or none. -/
structure HoldsAnchor (o : Option Anchor) (m : SortedMap Bytes Value) : Prop where
  flat : ∀ p ∈ m.entries, ValidUtf8 p.1 ∧ p.2.Flat
  hash : m.get? (lit "anchor_hash") = o.map fun a => .string a.blockHash
  height : m.get? (lit "anchor_height") = o.map fun a => .uint64 a.blockHeight

theorem flat_insert {m : SortedMap Bytes Value} (h : ∀ p ∈ m.entries, ValidUtf8 p.1 ∧ p.2.Flat)
    {k : Bytes} {v : Value} (hk : ValidUtf8 k) (hv : v.Flat) :
    ∀ p ∈ (m.insert k v).entries, ValidUtf8 p.1 ∧ p.2.Flat := by
  intro p hp
  rcases mem_mapInsert hp with rfl | hp
  · exact ⟨hk, hv⟩
  · exact h p hp

/-- A further parameter. -/
theorem HoldsAnchor.insert {o : Option Anchor} {m : SortedMap Bytes Value} (h : HoldsAnchor o m)
    {k : Bytes} {v : Value} (hk : ValidUtf8 k) (hv : v.Flat) (hhash : lit "anchor_hash" ≠ k)
    (hheight : lit "anchor_height" ≠ k) : HoldsAnchor o (m.insert k v) where
  flat := flat_insert h.flat hk hv
  hash := by rw [SortedMap.get?_insert, if_neg hhash, h.hash]
  height := by rw [SortedMap.get?_insert, if_neg hheight, h.height]

/-- The four parameters of an anchor. -/
theorem holdsAnchor_some {m : SortedMap Bytes Value} (h : HoldsAnchor none m) {a : Anchor}
    (ha : a.Exact) :
    HoldsAnchor (some a) ((((m.insert (lit "anchor_source") (.string a.source)).insert
      (lit "anchor_height") (.uint64 a.blockHeight)).insert
      (lit "anchor_hash") (.string a.blockHash)).insert
      (lit "anchor_time") (.time a.timestamp)) := by
  have hlt : (Value.uint64 a.blockHeight).Flat := ha.height.trans (by decide)
  have hsource := h.insert (k := lit "anchor_source") (v := .string a.source) (by decide +kernel)
    trivial (by decide) (by decide)
  refine HoldsAnchor.insert ⟨?_, ?_, ?_⟩ (by decide +kernel) trivial (by decide) (by decide)
  · exact flat_insert (flat_insert hsource.flat (by decide +kernel) hlt) (by decide +kernel) trivial
  · rw [SortedMap.get?_insert, if_pos rfl]
    rfl
  · have hne : lit "anchor_height" ≠ lit "anchor_hash" := by decide
    rw [SortedMap.get?_insert, if_neg hne, SortedMap.get?_insert, if_pos rfl]
    rfl

theorem holdsAnchor_empty : HoldsAnchor none SortedMap.empty :=
  ⟨List.forall_mem_nil _, rfl, rfl⟩

theorem holdsAnchor_genesisParams (env : GenesisEnv) (signer : Signer) (agentName : Bytes)
    (hexact : ∀ a ∈ env.anchor, a.Exact) :
    HoldsAnchor env.anchor (genesisParams env signer agentName SortedMap.empty) := by
  have hbase := ((holdsAnchor_empty.insert (k := lit "public_key")
    (v := .string signer.getPublicKey) (by decide +kernel) trivial (by decide) (by decide)).insert
    (k := lit "agent_name") (v := .string agentName) (by decide +kernel) trivial (by decide)
    (by decide)).insert (k := lit "version") (v := .string (lit "1.0.0")) (by decide +kernel)
    trivial (by decide) (by decide)
  unfold genesisParams
  cases ha : env.anchor with
  | none => exact hbase
  | some a => exact holdsAnchor_some hbase (hexact a ha)

/-- **A row that was written for an anchor is read as this anchor**, and one that was written
without is read as none. -/
theorem anchorIn_row {e e' : Event} {row : EventRow} {m : SortedMap Bytes Value}
    {o : Option Anchor} (outside : Float64 → Nat)
    (htype : e.eventType = lit "genesis" ∨ e.eventType = lit "anchor") (hparams : e.params = some m)
    (hholds : HoldsAnchor o m) (hexact : ∀ a ∈ o, a.Exact) (henc : encodeEvent e = .ok row)
    (hscan : scanEvent row = .ok e') :
    (anchorIn e').map (fun x => (x.1, x.2.toUint64 outside))
      = o.map fun a => (a.blockHash, a.blockHeight) := by
  obtain ⟨params, response, hmarshal, -, rfl⟩ := encodeEvent_eq_ok henc
  rw [hparams] at hmarshal
  have hcols : e'.eventType = e.eventType ∧ e'.params = decodeColumn params := by
    unfold scanEvent at hscan
    split at hscan
    · cases hscan
    · cases hscan
      exact ⟨rfl, rfl⟩
  -- the parameters, as they come back
  obtain ⟨w, hw⟩ := exists_readsAs_flat hmarshal fun p hp => (hholds.flat p hp).2
  have hvalue := decodeColumn_marshal hmarshal hw
  rw [← hvalue] at hw
  cases hdec : decodeColumn params with
  | none =>
    obtain ⟨ws, hws⟩ := exists_map_of_readsAs hw
    rw [hdec] at hws
    cases hws
  | some m' =>
    rw [hdec] at hw
    have hget := get?_of_readsAs (fun p hp => (hholds.flat p hp).1) hw
    have htype' : ¬ (e'.eventType ≠ lit "genesis" ∧ e'.eventType ≠ lit "anchor") := by
      rw [hcols.1]
      exact fun h => htype.elim h.1 h.2
    rw [anchorIn, if_neg htype', hcols.2, hdec, Option.bind_some, Option.bind_some]
    have hhash := hget (lit "anchor_hash")
    have hheight := hget (lit "anchor_height")
    rw [hholds.hash] at hhash
    rw [hholds.height] at hheight
    cases o with
    | none =>
      obtain ⟨-, hnone⟩ := hhash.resolve_right (by rintro ⟨v, w, hv, -⟩; cases hv)
      rw [hnone]
      rfl
    | some a =>
      obtain ⟨v, w, hv, hw, hreads⟩ := hhash.resolve_left (by rintro ⟨h, -⟩; cases h)
      obtain ⟨v', w', hv', hw', hreads'⟩ := hheight.resolve_left (by rintro ⟨h, -⟩; cases h)
      cases hv
      cases hv'
      have hvalid : sanitize a.blockHash = a.blockHash := (hexact a rfl).hash
      obtain ⟨x, hx, rfl⟩ := readsAs_uint64.mp hreads'
      rw [hw, hw', readsAs_string.mp hreads, hvalid]
      show some (a.blockHash, x.toUint64 outside) = _
      rw [Float64.toUint64_of_natCast (hexact a rfl).height hx]
      rfl

/-- The genesis row of a new store. -/
theorem createGenesisBlock_row {c : Crypto} {strict : Bool} {env : GenesisEnv} {s s' : State}
    {agentName runID : Bytes}
    (h : createGenesisBlock c strict env s agentName = (.ok runID, s')) :
    ∃ m e row, (getEvent env.pick s.pool).1.params = some m ∧ e.eventType = lit "genesis" ∧
      e.params = some (genesisParams env s.signer agentName m) ∧ encodeEvent e = .ok row ∧
      s'.db.events = s.db.events ++ [row] := by
  obtain ⟨e, r, s₁, hfill, hdb, hres⟩ := createGenesisBlock_deferred c strict env s agentName
  rw [h] at hdb hres
  obtain rfl : r = .ok runID := by
    rcases hres with hres | ⟨msg, hres⟩
    · exact hres.symm
    · cases hres
  have hdb : s'.db = s₁.db := hdb
  unfold fillGenesis at hfill
  cases hm : (getEvent env.pick s.pool).1.params with
  | none =>
    rw [hm] at hfill
    cases hfill
  | some m =>
    rw [hm] at hfill
    obtain ⟨rfl, hinsert⟩ := Prod.mk.inj hfill
    unfold insertGenesis at hinsert
    split at hinsert
    · cases hinsert
    · next hash _ =>
      dsimp only at hinsert
      rcases insertRun_cases strict env.insertRun s.db env.runID agentName hash
        s.signer.getPublicKey with ⟨f, hrun⟩ | ⟨db, hadd, hrun⟩
      · rw [hrun] at hinsert
        cases hinsert
      · rw [hrun] at hinsert
        dsimp only at hinsert
        obtain ⟨-, hevents⟩ := DB.addRun_eq_some hadd
        rcases storeEvent_cases strict env.storeEvent db
          ((genesisEvent env s.signer agentName (getEvent env.pick s.pool).1 m).signedWith c
            s.signer hash) with ⟨f, hstore⟩ | ⟨row, db', henc, -, -, -, hadd', hstore⟩
        · rw [hstore] at hinsert
          cases hinsert
        · rw [hstore] at hinsert
          cases hinsert
          refine ⟨m, _, row, rfl, rfl, rfl, henc, ?_⟩
          rw [hdb, (DB.addEvent_eq_some hadd').2.1, hevents]

/-- The event is no anchor, or `anchorLoop` has made it for one of these. -/
def FromAnchors (anchors : List Anchor) (e : Event) : Prop :=
  e.eventType ≠ lit "genesis" ∧ (e.eventType = lit "anchor" → ∃ a ∈ anchors, ∃ id now e₀,
    Clean e₀ ∧ Numbered (Worker.anchorEvent id now a e₀) e)

theorem unnumbered_fromAnchors (anchors : List Anchor) : Unnumbered (FromAnchors anchors) := by
  intro e e' hsame h
  have htype : e'.eventType = e.eventType := by
    obtain ⟨_, _, _, _, _, rfl⟩ := hsame
    rfl
  refine ⟨htype ▸ h.1, fun hanchor => ?_⟩
  obtain ⟨a, ha, id, now, e₀, hclean, hmade⟩ := h.2 (htype ▸ hanchor)
  exact ⟨a, ha, id, now, e₀, hclean, hmade.trans hsame⟩

/-- The anchor of a row: that of the genesis event, if the row was written for it, the one that was
fetched for the event of `anchorLoop` that the row was written for, or none. -/
inductive RowAnchor (env : GenesisEnv) (signer : Signer) (agentName : Bytes)
    (anchors : List Anchor) (row : EventRow) : Option Anchor → Prop
  | genesis {e : Event} (type : e.eventType = lit "genesis")
      (params : e.params = some (genesisParams env signer agentName SortedMap.empty))
      (encodes : encodeEvent e = .ok row) : RowAnchor env signer agentName anchors row env.anchor
  | anchor {a : Anchor} {id : Bytes} {now : Time} {e₀ e : Event} (fetched : a ∈ anchors)
      (clean : Clean e₀) (made : Numbered (Worker.anchorEvent id now a e₀) e)
      (encodes : encodeEvent e = .ok row) : RowAnchor env signer agentName anchors row (some a)
  | other (notGenesis : row.eventType ≠ lit "genesis") (notAnchor : row.eventType ≠ lit "anchor") :
      RowAnchor env signer agentName anchors row none

/-- It is one of those that were fetched. -/
theorem RowAnchor.mem {env : GenesisEnv} {signer : Signer} {agentName : Bytes}
    {anchors : List Anchor} {row : EventRow} {a : Anchor}
    (h : RowAnchor env signer agentName anchors row (some a)) :
    a ∈ env.anchor.toList ++ anchors := by
  generalize ho : some a = o at h
  cases h with
  | genesis => exact List.mem_append_left _ (Option.mem_toList.mpr ho.symm)
  | anchor fetched =>
    cases ho
    exact List.mem_append_right _ fetched
  | other => cases ho

/-- A row is read as the anchor that it has to do with. -/
def ReadAsAnchor (outside : Float64 → Nat) (e : Event) (o : Option Anchor) : Prop :=
  (anchorIn e).map (fun x => (x.1, x.2.toUint64 outside))
    = o.map fun a => (a.blockHash, a.blockHeight)

theorem passes_iff_of_readAsAnchor {env : LiveEnv} {i : Nat} {e : Event} {o : Option Anchor}
    (h : ReadAsAnchor env.outside e o) :
    env.Passes i e ↔ ∀ a ∈ o, Confirms (env.get i) a.blockHeight a.blockHash := by
  unfold ReadAsAnchor at h
  unfold LiveEnv.Passes
  cases hin : anchorIn e with
  | none =>
    rw [hin, Option.map_none, eq_comm, Option.map_eq_none_iff] at h
    simp [h]
  | some x =>
    rw [hin, Option.map_some, eq_comm, Option.map_eq_some_iff] at h
    obtain ⟨a, rfl, ha⟩ := h
    simp only [Prod.mk.injEq] at ha
    simp [ha.1, ha.2]

theorem isSome_of_readAsAnchor {outside : Float64 → Nat} {e : Event} {o : Option Anchor}
    (h : ReadAsAnchor outside e o) : (anchorIn e).isSome = o.isSome := by
  rw [← Option.isSome_map (f := fun x => (x.1, x.2.toUint64 outside)), h, Option.isSome_map]

/-- A row of an event that the pipeline was given. -/
theorem exists_rowAnchor {env : GenesisEnv} {signer : Signer} {agentName : Bytes}
    {anchors : List Anchor} (hexact : ∀ a ∈ anchors, a.Exact) {e : Event} {row : EventRow}
    (he : FromAnchors anchors e) (henc : encodeEvent e = .ok row) :
    ∃ o, RowAnchor env signer agentName anchors row o ∧
      ∀ outside e', scanEvent row = .ok e' → ReadAsAnchor outside e' o := by
  have htype : row.eventType = e.eventType := by
    obtain ⟨_, _, -, -, rfl⟩ := encodeEvent_eq_ok henc
    rfl
  by_cases hanchor : e.eventType = lit "anchor"
  · obtain ⟨a, ha, id, now, e₀, hclean, hmade⟩ := he.2 hanchor
    refine ⟨some a, .anchor ha hclean hmade henc, fun outside e' hscan => ?_⟩
    have hempty : e₀.params.getD SortedMap.empty = SortedMap.empty := by
      cases hp : e₀.params with
      | none => rfl
      | some m =>
        have hlen := hclean.2.1
        rw [hp] at hlen
        exact SortedMap.ext_entries (List.length_eq_zero_iff.mp hlen)
    have hparams : ∃ m, e.params = some m ∧ HoldsAnchor (some a) m := by
      obtain ⟨_, _, _, _, _, rfl⟩ := hmade
      refine ⟨_, rfl, ?_⟩
      rw [hempty]
      exact holdsAnchor_some holdsAnchor_empty (hexact a ha)
    obtain ⟨m, hm, hholds⟩ := hparams
    refine anchorIn_row outside (Or.inr hanchor) hm hholds (fun x hx => ?_) henc hscan
    cases hx
    exact hexact a ha
  · refine ⟨none, .other (htype ▸ he.1) (htype ▸ hanchor), fun outside e' hscan => ?_⟩
    have htype' : e'.eventType = row.eventType := by
      unfold scanEvent at hscan
      split at hscan
      · cases hscan
      · cases hscan
        rfl
    rw [ReadAsAnchor, anchorIn, if_pos]
    · rfl
    · rw [htype', htype]
      exact ⟨he.1, hanchor⟩

/-- The genesis row. -/
theorem genesis_rowAnchor {c : Crypto} {strict : Bool} {env : GenesisEnv} {signer : Signer}
    {pool : List Event} {agentName runID : Bytes} {s : State}
    (hgen : createGenesisBlock c strict env (initialState signer pool) agentName = (.ok runID, s))
    (hpool : ∀ e ∈ pool, Clean e) (hexact : ∀ a ∈ env.anchor, a.Exact) {anchors : List Anchor}
    {row : EventRow} (hrow : row ∈ s.db.rowsOf runID) :
    RowAnchor env signer agentName anchors row env.anchor ∧
      ∀ outside e', scanEvent row = .ok e' → ReadAsAnchor outside e' env.anchor := by
  obtain ⟨m, e, row₀, hm, htype, hparams, henc, hevents⟩ := createGenesisBlock_row hgen
  obtain rfl : row = row₀ := by
    have hmem := (List.mem_filter.mp hrow).1
    rw [hevents] at hmem
    exact List.mem_singleton.mp hmem
  obtain rfl : m = SortedMap.empty := by
    have hclean := (@clean_getEvent (initialState signer pool).pool hpool env.pick).1
    have hlen := hclean.2.1
    rw [hm] at hlen
    exact SortedMap.ext_entries (List.length_eq_zero_iff.mp hlen)
  refine ⟨.genesis htype hparams henc, fun outside e' hscan => ?_⟩
  exact anchorIn_row outside (Or.inl htype) hparams
    (holdsAnchor_genesisParams env signer agentName hexact) hexact henc hscan

/-- Not more events are read than the check allows. -/
theorem verifyAnchors_of_read {strict : Bool} (live : LiveEnv)
    {reader : Bytes → Except Fault (List Event)} {runID : Bytes} {es : List Event}
    (hread : reader runID = .ok es) (hlen : es.length ≤ maxAnchorEvents) :
    verifyAnchors strict live reader runID = .ok (verifyAnchorsFrom live 0 0 es) := by
  rw [verifyAnchors, hread]
  show (check strict (decide _) _ >>= fun _ => _) = _
  rw [decide_eq_true hlen, List.take_of_length_le hlen]
  rfl

/-- `VerifyAnchors` on events that are read as anchors, or as none. -/
theorem verifyAnchors_of_reads {strict : Bool} {live : LiveEnv}
    {reader : Bytes → Except Fault (List Event)} {runID : Bytes} {ys : List (Event × Option Anchor)}
    (hread : reader runID = .ok (ys.map Prod.fst)) (hlen : ys.length ≤ maxAnchorEvents)
    (hys : ∀ y ∈ ys, ReadAsAnchor live.outside y.1 y.2) :
    ∃ r, verifyAnchors strict live reader runID = .ok r ∧
      (r.valid = true ↔ ∀ i a, (ys.map Prod.snd)[i]? = some (some a) →
        Confirms (live.get i) a.blockHeight a.blockHash) ∧
      (r.valid = true → r.anchorsChecked = (ys.map Prod.snd).countP Option.isSome) := by
  obtain ⟨hvalid, hcount⟩ := verifyAnchorsFrom_valid live (ys.map Prod.fst) 0 0
  refine ⟨verifyAnchorsFrom live 0 0 (ys.map Prod.fst), verifyAnchors_of_read live hread ?_, ?_,
    fun h => ?_⟩
  · rwa [List.length_map]
  · rw [hvalid]
    simp only [List.getElem?_map, Option.map_eq_some_iff, Nat.zero_add]
    constructor
    · rintro h i a ⟨y, hy, ha⟩
      have hpass := h i y.1 ⟨y, hy, rfl⟩
      rw [passes_iff_of_readAsAnchor (hys y (List.mem_of_getElem? hy))] at hpass
      exact hpass a ha
    · rintro h i e ⟨y, hy, rfl⟩
      rw [passes_iff_of_readAsAnchor (hys y (List.mem_of_getElem? hy))]
      exact fun a ha => h i a ⟨y, hy, ha⟩
  · rw [hcount h, Nat.zero_add, List.countP_map, List.countP_map]
    refine List.countP_congr fun y hy => ?_
    simp only [Function.comp_apply, isSome_of_readAsAnchor (hys y hy)]

namespace Pipeline

variable {c : Crypto} {strict : Bool} {signer : Signer} {runID : Bytes}

/-- What an agent sends is no anchor, and what `anchorLoop` sends is one that it has fetched. -/
structure Action.Anchored (anchors : List Anchor) (a : Action) : Prop where
  submits : ∀ e, a = .submit e → e.eventType ≠ lit "genesis" ∧ e.eventType ≠ lit "anchor"
  ticks : ∀ e, a = .tick (some e) → ∃ anchor ∈ anchors, ∃ id now e₀, Clean e₀ ∧
    e = Worker.anchorEvent id now anchor e₀

theorem Action.Anchored.supplied {anchors : List Anchor} {a : Action} (h : a.Anchored anchors) :
    a.Supplied (FromAnchors anchors) := by
  have hcompletion : ∀ env : Worker.HandleEnv, env.Supplied (FromAnchors anchors) := by
    intro env taskID state e
    have hterminal : (completionEvent env.completion taskID state e).eventType
        = lit "task_terminal" := rfl
    rw [FromAnchors, hterminal]
    exact ⟨by decide, fun h => absurd h (by decide)⟩
  cases a with
  | submit e => exact ⟨(h.submits e rfl).1, fun hanchor => absurd hanchor (h.submits e rfl).2⟩
  | tick event =>
    rintro e rfl
    obtain ⟨anchor, hmem, id, now, e₀, hclean, rfl⟩ := h.ticks e rfl
    have htype : (Worker.anchorEvent id now anchor e₀).eventType = lit "anchor" := rfl
    refine ⟨?_, fun _ => ⟨anchor, hmem, id, now, e₀, hclean, .refl _⟩⟩
    rw [htype]
    decide
  | consume env => exact hcompletion env
  | shutdown env timedOut => exact hcompletion env
  | next i => trivial
  | quit => trivial

section

variable {env : GenesisEnv} {pool : List Event} {agentName : Bytes} {s : State}
  (hgen : createGenesisBlock c strict env (initialState signer pool) agentName = (.ok runID, s))
  (hpool : ∀ e ∈ pool, Clean e) {zero : Event} {capacity : Int} {ringBuffer : Buffer Event}
  (hnew : Buffer.new strict zero capacity = .ok ringBuffer) {mode : BackpressureMode}
  {actions : List Action} {p : Pipeline} {anchors : List Anchor}
  (hexact : ∀ a ∈ env.anchor.toList ++ anchors, a.Exact)
  (hactions : ∀ a ∈ actions, a.Anchored anchors)
  (hok : along (step c strict) (storesAlone strict)
    (initial ringBuffer (newEventProcessor s runID) mode) actions = true)
  (hrun : runSteps (step c strict) (initial ringBuffer (newEventProcessor s runID) mode) actions
    = some p)

include hgen hpool hnew hexact hactions hok hrun

/-- Row by row, what is read after the run, and the anchor that it was written for. -/
theorem exists_readings : ∃ ys : List (Event × Option Anchor),
    getAllEvents strict {} p.memory.worker.state.db runID = .ok (ys.map Prod.fst) ∧
      ys.length ≤ maxAnchorEvents ∧
      List.Forall₂ (RowAnchor env signer agentName anchors)
        ((p.rows runID).take maxEventRows) (ys.map Prod.snd) ∧
      ∀ y ∈ ys, ∀ outside, ReadAsAnchor outside y.1 y.2 := by
  obtain ⟨-, -, -, -, -, -, hrunID⟩ := createGenesisBlock_eq_ok c strict hgen rfl
  rw [List.forall_mem_append] at hexact
  obtain ⟨q, hrec⟩ := (recording_initial hgen hnew mode).run (unnumbered_fromAnchors anchors) hok
    (fun a ha => (hactions a ha).supplied) hrun
  have hlog := hrec.linked.chain.isLog
  rw [hrec.linked.chain.rows_eq] at hlog
  have hrow : ∀ row ∈ p.memory.worker.state.db.rowsOf runID, ∃ y : Event × Option Anchor,
      scanEvent row = .ok y.1 ∧ RowAnchor env signer agentName anchors row y.2 ∧
        ∀ outside, ReadAsAnchor outside y.1 y.2 := by
    intro row hrow
    have hscan : ∃ e', scanEvent row = .ok e' := by
      have hseq : ¬ row.seqIndex < 0 := not_lt.mpr (hlog.num_lt row hrow).1
      rw [scanEvent, if_neg hseq]
      exact ⟨_, rfl⟩
    obtain ⟨e', hscan⟩ := hscan
    rcases hrec.carries.grew.mem_cases hrow with hrow | ⟨e, he, henc⟩
    · obtain ⟨hrecord, hread⟩ := genesis_rowAnchor hgen hpool
        (fun a ha => hexact.1 a (Option.mem_toList.mpr ha)) hrow
      exact ⟨(e', env.anchor), hscan, hrecord, fun outside => hread outside e' hscan⟩
    · obtain ⟨o, hrecord, hread⟩ := exists_rowAnchor hexact.2 he henc
      exact ⟨(e', o), hscan, hrecord, fun outside => hread outside e' hscan⟩
  rw [rows, DB.orderedRows_of_isLog hlog]
  obtain ⟨ys, hys⟩ := exists_forall₂ fun row hmem => hrow row (List.mem_of_mem_take hmem)
  refine ⟨ys, ?_, hys.length_eq ▸ List.length_take_le _ _, ?_, fun y hy => ?_⟩
  · refine (getAllEvents_eq_ok strict).mpr ⟨hrunID, rfl, rfl, rfl, ?_⟩
    rw [DB.orderedRows_of_isLog hlog, List.forall₂_map_right_iff]
    exact hys.imp fun _ _ h => h.1
  · rw [List.forall₂_map_right_iff]
    exact hys.imp fun _ _ h => h.2.1
  · obtain ⟨row, -, hrow⟩ := mem_of_forall₂_right hys hy
    exact hrow.2.2

/-- **What `VerifyAnchors` checks in a ledger that the worker has written.** Take any run of the
worker in which no loop stores an event while the other is about to, in any interleaving and with
any failures. Every row that is read has an anchor or none, as it was written: the genesis row the
one that was fetched for it, a row of `anchorLoop` the one that its event was made for. Whatever the
service answers later, the ledger is accepted exactly if it confirms each of these, at the height
that was recorded. Nothing else that was submitted has a part in it. Heights are assumed to be below
`2 ^ 53`. -/
theorem anchors_verified_iff :
    ∃ recorded, List.Forall₂ (RowAnchor env signer agentName anchors)
        ((p.rows runID).take maxEventRows) recorded ∧
      ∀ live : LiveEnv, ∃ r,
        verifyAnchors strict live (getAllEvents strict {} p.memory.worker.state.db) runID = .ok r ∧
        (r.valid = true ↔ ∀ i a, recorded[i]? = some (some a) →
          Confirms (live.get i) a.blockHeight a.blockHash) ∧
        (r.valid = true → r.anchorsChecked = recorded.countP Option.isSome) := by
  obtain ⟨ys, hread, hlen, hrows, hreads⟩ :=
    exists_readings hgen hpool hnew hexact hactions hok hrun
  exact ⟨ys.map Prod.snd, hrows, fun live =>
    verifyAnchors_of_reads hread hlen fun y hy => hreads y hy live.outside⟩

/-- **Recording and verifying with one service.** If every anchor of such a run was fetched by
`FetchBitcoinAnchor`, and the service goes on to give the same answer for the block of each of them,
`VerifyAnchors` accepts the ledger exactly if each of the answers that a row was written for had the
status 200. -/
theorem ledger_anchors_confirmed_iff (asked : Anchor → HttpGet)
    (hfetched : ∀ a ∈ env.anchor.toList ++ anchors, ∃ now, fetchBitcoinAnchor (asked a) now = .ok a)
    (live : LiveEnv) (hsame : ∀ a ∈ env.anchor.toList ++ anchors, ∀ i,
      live.get i (blockURL a.blockHeight) = asked a (blockURL a.blockHeight)) :
    ∃ recorded r, List.Forall₂ (RowAnchor env signer agentName anchors)
        ((p.rows runID).take maxEventRows) recorded ∧
      verifyAnchors strict live (getAllEvents strict {} p.memory.worker.state.db) runID = .ok r ∧
      (r.valid = true ↔ ∀ a, some a ∈ recorded →
        ∃ resp, asked a (blockURL a.blockHeight) = .ok resp ∧ resp.statusCode = 200) := by
  obtain ⟨ys, hread, hlen, hrows, hreads⟩ :=
    exists_readings hgen hpool hnew hexact hactions hok hrun
  obtain ⟨r, hr, hvalid, -⟩ := verifyAnchors_of_reads hread hlen
    fun y hy => hreads y hy live.outside
  -- an anchor of a row is one of those that were fetched
  have hfrom : ∀ a, some a ∈ ys.map Prod.snd → a ∈ env.anchor.toList ++ anchors := by
    intro a ha
    obtain ⟨row, -, hrow⟩ := mem_of_forall₂_right hrows ha
    exact hrow.mem
  have hconfirms : ∀ i a, some a ∈ ys.map Prod.snd →
      (Confirms (live.get i) a.blockHeight a.blockHash ↔
        ∃ resp, asked a (blockURL a.blockHeight) = .ok resp ∧ resp.statusCode = 200) := by
    intro i a ha
    obtain ⟨now, hfetch⟩ := hfetched a (hfrom a ha)
    exact confirms_fetched_iff hfetch (hsame a (hfrom a ha) i)
  refine ⟨ys.map Prod.snd, r, hrows, hr, hvalid.trans ⟨fun h a ha => ?_, fun h i a ha => ?_⟩⟩
  · obtain ⟨i, hi⟩ := List.mem_iff_getElem?.mp ha
    exact (hconfirms i a ha).mp (h i a hi)
  · have hmem := List.mem_of_getElem? ha
    exact (hconfirms i a hmem).mpr (h a hmem)

end

/-- The service knows a block, and `anchorLoop` asks for it. -/
def knownBlock : HttpGet := fun url =>
  if url = tipHeightURL then .ok ⟨200, ⟨lit "880000", none⟩, none⟩
  else if url = blockURL 880000 then .ok ⟨200, ⟨lit "0000000000000000000178af", none⟩, none⟩
  else .error (lit "no route to host")

def sampleAnchor : Anchor :=
  ⟨lit "bitcoin-mainnet", 880000, lit "0000000000000000000178af", recordedEnv.now⟩

theorem fetch_sampleAnchor : fetchBitcoinAnchor knownBlock recordedEnv.now = .ok sampleAnchor := by
  decide +kernel

/-- An anchor is recorded. -/
def anchoredRun : List Action :=
  .tick (some (Worker.anchorEvent (lit "evt-1") recordedEnv.now sampleAnchor newEvent)) ::
    List.replicate 4 (.next 0) ++ List.replicate 7 (.consume quietEnv)

theorem anchored_anchoredRun : ∀ a ∈ anchoredRun, a.Anchored [sampleAnchor] := by
  intro a ha
  simp only [anchoredRun, List.mem_append, List.mem_cons, List.mem_replicate] at ha
  rcases ha with (rfl | ⟨-, rfl⟩) | ⟨-, rfl⟩
  · refine ⟨fun e he => (by cases he), fun e he => ?_⟩
    cases he
    exact ⟨sampleAnchor, List.mem_singleton_self _, _, _, newEvent, clean_newEvent, rfl⟩
  · exact ⟨fun e he => (by cases he), fun e he => (by cases he)⟩
  · exact ⟨fun e he => (by cases he), fun e he => (by cases he)⟩

/-- The rows of the run. -/
theorem anchoredRun_rows : (runAlong (step recordedCrypto true) (storesAlone true)
    (recordedPipeline pairBuffer recordedGenesis) anchoredRun).any (fun p =>
      (p.rows (lit "run-1")).map EventRow.eventType = [lit "genesis", lit "anchor"]) = true := by
  decide +kernel

theorem exact_sampleAnchor : ∀ a ∈ recordedEnv.anchor.toList ++ [sampleAnchor], a.Exact := by
  intro a ha
  cases List.mem_singleton.mp ha
  exact Anchor.exact_of_fetch fetch_sampleAnchor (by decide)

theorem anchors_verified_anchoredRun : ∃ p,
    runSteps (step recordedCrypto true) (recordedPipeline pairBuffer recordedGenesis) anchoredRun
      = some p ∧
    (p.rows (lit "run-1")).map EventRow.eventType = [lit "genesis", lit "anchor"] ∧
    ∃ recorded, List.Forall₂ (RowAnchor recordedEnv recordedSigner (lit "agent") [sampleAnchor])
        ((p.rows (lit "run-1")).take maxEventRows) recorded ∧
      ∀ live : LiveEnv, ∃ r,
        verifyAnchors true live (getAllEvents true {} p.memory.worker.state.db) (lit "run-1")
          = .ok r ∧
        (r.valid = true ↔ ∀ i a, recorded[i]? = some (some a) →
          Confirms (live.get i) a.blockHeight a.blockHash) ∧
        (r.valid = true → r.anchorsChecked = recorded.countP Option.isSome) := by
  obtain ⟨p, hok, hp, hrows⟩ := exists_of_runAlong anchoredRun_rows
  have hnew : Buffer.new true {} 2 = .ok pairBuffer := rfl
  exact ⟨p, hp, of_decide_eq_true hrows, anchors_verified_iff createGenesisBlock_recorded
    (List.forall_mem_nil _) hnew exact_sampleAnchor anchored_anchoredRun hok hp⟩

theorem ledger_anchors_confirmed_anchoredRun : ∃ p r,
    runSteps (step recordedCrypto true) (recordedPipeline pairBuffer recordedGenesis) anchoredRun
      = some p ∧
    verifyAnchors true ⟨fun _ => knownBlock, recordedEnv.now, fun _ => 0⟩
      (getAllEvents true {} p.memory.worker.state.db) (lit "run-1") = .ok r ∧ r.valid = true := by
  obtain ⟨p, hok, hp, -⟩ := exists_of_runAlong anchoredRun_rows
  have hnew : Buffer.new true {} 2 = .ok pairBuffer := rfl
  obtain ⟨recorded, r, hrows, hr, hvalid⟩ := ledger_anchors_confirmed_iff
    createGenesisBlock_recorded (List.forall_mem_nil _) hnew exact_sampleAnchor
    anchored_anchoredRun hok hp (fun _ => knownBlock)
    (fun a ha => ⟨recordedEnv.now, List.mem_singleton.mp ha ▸ fetch_sampleAnchor⟩)
    ⟨fun _ => knownBlock, recordedEnv.now, fun _ => 0⟩ (fun _ _ _ => rfl)
  refine ⟨p, r, hp, hr, hvalid.mpr fun a ha => ?_⟩
  obtain ⟨row, -, hrow⟩ := mem_of_forall₂_right hrows ha
  cases List.mem_singleton.mp hrow.mem
  exact ⟨_, if_neg (by decide +kernel), rfl⟩

end Pipeline

end Logryph
