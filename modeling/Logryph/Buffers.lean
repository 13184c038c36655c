import Logryph.Infra.GoBuffer
import Logryph.Interceptor

/-!
# The pool of buffers

`InterceptRequest` and `InterceptResponse` read a body into a buffer from the pool, and leave a
slice of that buffer as the body that the proxy is to send. The deferred `PutBuffer` runs when the
call returns; the proxy reads the slice after that. Between the two, another message can be given
the same buffer.

* `run_forwarded` — if no message is given a buffer that a waiting body still points into, every
  message is forwarded as it arrived, or redacted by its own rule
* `forwarded_other_message` — otherwise one message can be sent in the place of another
-/

namespace Logryph

open Infra

def maxBufferSize : Nat := 1024 * 1024

/-- The body that the proxy will read: a slice of a buffer, or bytes of its own. -/
inductive Body where
  | view (addr len : Nat)
  | own (bytes : Bytes)

/-- The array that a body points into. -/
def Body.addr? : Body → Option Nat
  | .view addr _ => some addr
  | .own _ => none

/-- A message as it arrives: an HTTP request, which is looked at if it is a POST, or a response. -/
inductive Incoming where
  | request (post : Bool) (bytes : Bytes)
  | response (bytes : Bytes)
  deriving DecidableEq

/-- A message that was intercepted and not forwarded yet, beside what it arrived as. -/
structure Waiting where
  arrived : Incoming
  body : Body

/-- The proxy: the memory, the pool of buffers, the messages under way, and for each message that
was forwarded what arrived and what was sent. -/
structure Proxy where
  heap : Heap := ⟨[]⟩
  buffers : List GoBuffer := []
  engine : Engine
  waiting : List Waiting := []
  forwarded : List (Incoming × Bytes) := []

/-- The arrival of a message: its bytes, the pooled buffer that it is given, how its reader hands
the bytes over, and whether it fails after them. -/
structure Arrival where
  data : Bytes
  pick : Option Nat := none
  sizes : List Nat := []
  eofAlone : Bool := true
  fails : Bool := false
  env : MessageEnv

/-- What can happen. Any sequence of these is an interleaving of requests, responses and the reads
of the proxy. -/
inductive Traffic where
  | request (post : Bool) (a : Arrival)
  | response (a : Arrival)
  | forward (i : Nat)

namespace Proxy

variable (strict : Bool) (slack : Nat → Nat)

/-- What the pool makes when it is empty. -/
def newBuffer (p : Proxy) : GoBuffer × Proxy :=
  (⟨p.heap.arrays.length, 4096, 0⟩, { p with heap := p.heap.alloc (List.replicate 4096 0) })

/-- `GetBuffer`. The choice is the index of a pooled buffer, or a new one. -/
def getBuffer (pick : Option Nat) (p : Proxy) : GoBuffer × Proxy :=
  match pick with
  | none => p.newBuffer
  | some i =>
    match p.buffers[i]? with
    | none => p.newBuffer
    | some b => (b, { p with buffers := p.buffers.eraseIdx i })

/-- `PutBuffer`. Once a large buffer was dropped, the assertion on its size always holds. -/
def putBuffer (p : Proxy) (b : GoBuffer) : Proxy :=
  if maxBufferSize < b.cap then p else { p with buffers := { b with len := 0 } :: p.buffers }

/-- A message is read into a buffer. -/
def receive (a : Arrival) (p : Proxy) : GoBuffer × Proxy :=
  let (b, p) := p.getBuffer a.pick
  let (heap, b) := b.readFrom slack a.eofAlone a.sizes a.data p.heap
  (b, { p with heap })

/-- The body that an interception leaves: what it replaced it by, or what is in the buffer. -/
def leftBody (b : GoBuffer) (eff : Effect) : Body :=
  match eff.body with
  | none => .view b.addr b.len
  | some bytes => .own bytes

/-- The end of an interception: the message waits for the proxy, unless a panic aborts its
connection, and the buffer goes back. -/
def settle (m : Incoming) (b : GoBuffer) (p : Proxy) : Except Fault Unit × Effect → Proxy
  | (.ok (), eff) =>
    putBuffer { p with
      engine := eff.engine
      waiting := p.waiting ++ [⟨m, leftBody b eff⟩] } b
  | (.error _, eff) => putBuffer { p with engine := eff.engine } b

/-- The bytes that the proxy reads from a body now. -/
def bytesOf (p : Proxy) : Body → Bytes
  | .view addr len => p.heap.read addr len
  | .own bytes => bytes

/-- One step. A reader that fails leaves nothing to forward. -/
def step (p : Proxy) : Traffic → Proxy
  | .request true a =>
    let (b, p) := p.receive slack a
    if a.fails then p.putBuffer b
    else p.settle (.request true a.data) b (interceptRequest strict a.env p.engine
      ⟨true, some (.ok (b.contents p.heap))⟩)
  | .request false a =>
    { p with waiting := p.waiting ++ [⟨.request false a.data, .own a.data⟩] }
  | .response a =>
    let (b, p) := p.receive slack a
    if a.fails then p.putBuffer b
    else p.settle (.response a.data) b
      (interceptResponse strict a.env p.engine (b.contents p.heap))
  | .forward i =>
    match p.waiting[i]? with
    | none => p
    | some m =>
      { p with
        waiting := p.waiting.eraseIdx i
        forwarded := p.forwarded ++ [(m.arrived, p.bytesOf m.body)] }

def run (p : Proxy) (actions : List Traffic) : Proxy := actions.foldl (step strict slack) p

/-! ## The condition -/

/-- No waiting body points into the array of the buffer that the message is given. -/
def unshared (p : Proxy) (a : Arrival) : Bool :=
  match a.pick with
  | none => true
  | some i =>
    match p.buffers[i]? with
    | none => true
    | some b => p.waiting.all fun m => m.body.addr? ≠ some b.addr

def safe (p : Proxy) : Traffic → Bool
  | .request true a => p.unshared a
  | .request false _ => true
  | .response a => p.unshared a
  | .forward _ => true

/-- Every step of the run is given a buffer that nobody points into. -/
def safeRun (p : Proxy) : List Traffic → Bool
  | [] => true
  | action :: actions => p.safe action && safeRun (p.step strict slack action) actions

/-! ## Receiving -/

/-- What is to be sent for a message: the redaction of a request by the rule that is selected for
it, if that redacts, and otherwise what arrived. -/
def Faithful (policies : List Rule) : Incoming → Bytes → Prop
  | .request true bytes, sent => sent = (ownRedaction strict policies bytes).getD bytes
  | .request false bytes, sent => sent = bytes
  | .response bytes, sent => sent = bytes

/-- A pooled buffer is empty, and has an array. -/
def PoolOk (p : Proxy) : Prop := ∀ b ∈ p.buffers, b.Wf p.heap ∧ b.len = 0

/-- What a step that fills a buffer leaves alone. A view of a waiting body is not touched, if the
message shares no buffer with it. -/
structure Kept (a : Arrival) (p p' : Proxy) : Prop where
  pool : p'.PoolOk
  length_le : p.heap.arrays.length ≤ p'.heap.arrays.length
  views : p.unshared a = true → ∀ m ∈ p.waiting, ∀ addr len, m.body = .view addr len →
    addr < p.heap.arrays.length → p'.heap.read addr len = p.heap.read addr len
  engine : p'.engine = p.engine
  waiting : p'.waiting = p.waiting
  forwarded : p'.forwarded = p.forwarded

/-- The buffer is an array of its own for every view that it is not shared with. -/
def Apart (a : Arrival) (p : Proxy) (b : GoBuffer) : Prop :=
  p.unshared a = true → ∀ m ∈ p.waiting, ∀ addr len, m.body = .view addr len →
    addr < p.heap.arrays.length → addr ≠ b.addr

theorem newBuffer_spec {p : Proxy} (h : p.PoolOk) (a : Arrival) :
    p.newBuffer.1.Wf p.newBuffer.2.heap ∧ p.newBuffer.1.len = 0 ∧ Kept a p p.newBuffer.2 ∧
      p.Apart a p.newBuffer.1 := by
  have hsame : ∀ addr < p.heap.arrays.length,
      (p.heap.alloc (List.replicate 4096 0)).arrays[addr]? = p.heap.arrays[addr]? :=
    fun addr haddr => List.getElem?_append_left haddr
  refine ⟨⟨⟨_, List.getElem?_concat_length, List.length_replicate⟩, Nat.zero_le _⟩, rfl,
    ⟨?_, ?_, ?_, rfl, rfl, rfl⟩, ?_⟩
  · intro b hb
    obtain ⟨hwf, hzero⟩ := h b hb
    obtain ⟨array, harray, hcap⟩ := hwf.array
    exact ⟨⟨⟨array, (hsame _ hwf.addr_lt).trans harray, hcap⟩, hwf.len_le⟩, hzero⟩
  · show _ ≤ (p.heap.arrays ++ [_]).length
    rw [List.length_append]
    exact Nat.le_add_right _ _
  · intro _ m _ addr len _ haddr
    show (p.heap.alloc _).read addr len = _
    rw [Heap.read, hsame addr haddr, Heap.read]
  · intro _ m _ addr len _ haddr heq
    rw [heq] at haddr
    exact absurd haddr (Nat.lt_irrefl _)

theorem getBuffer_spec {p : Proxy} (h : p.PoolOk) (a : Arrival) :
    (p.getBuffer a.pick).1.Wf (p.getBuffer a.pick).2.heap ∧ (p.getBuffer a.pick).1.len = 0 ∧
      Kept a p (p.getBuffer a.pick).2 ∧ p.Apart a (p.getBuffer a.pick).1 := by
  unfold getBuffer
  split
  · exact newBuffer_spec h a
  · next i hi =>
    split
    · exact newBuffer_spec h a
    · next b hb =>
      obtain ⟨hwf, hzero⟩ := h b (List.mem_of_getElem? hb)
      refine ⟨hwf, hzero, ⟨fun b' hb' => h b' (List.mem_of_mem_eraseIdx hb'), Nat.le_refl _,
        fun _ _ _ _ _ _ _ => rfl, rfl, rfl, rfl⟩, ?_⟩
      intro hun m hm addr len hbody _ heq
      rw [unshared, hi] at hun
      dsimp only at hun
      rw [hb] at hun
      have hne := List.all_eq_true.mp hun m hm
      rw [decide_eq_true_eq, hbody, heq] at hne
      exact hne rfl

/-- **The buffer holds the message**, and every view that is not shared is as it was. -/
theorem receive_spec {p : Proxy} (h : p.PoolOk) (a : Arrival) :
    (p.receive slack a).1.contents (p.receive slack a).2.heap = a.data ∧
      (p.receive slack a).1.Wf (p.receive slack a).2.heap ∧ Kept a p (p.receive slack a).2 := by
  obtain ⟨hwf, hzero, hkept, hapart⟩ := getBuffer_spec h a
  unfold receive
  generalize p.getBuffer a.pick = picked at hwf hzero hkept hapart
  obtain ⟨b, p₁⟩ := picked
  dsimp only at hwf hzero hkept hapart ⊢
  obtain ⟨hmoves, hcont⟩ := GoBuffer.readFrom_contents slack a.eofAlone a.sizes a.data hwf
  have hempty : b.contents p₁.heap = [] := by
    rw [GoBuffer.contents, Heap.read, hzero, List.take_zero]
  rw [hempty, List.nil_append] at hcont
  refine ⟨hcont, hmoves.wf, ?_, hkept.length_le.trans hmoves.length_le, ?_, hkept.engine,
    hkept.waiting, hkept.forwarded⟩
  · intro b' hb'
    obtain ⟨hwf', hzero'⟩ := hkept.pool b' hb'
    exact ⟨hmoves.wf_of_wf hwf', hzero'⟩
  · intro hun m hm addr len hbody haddr
    have hlt : addr < p₁.heap.arrays.length := haddr.trans_le hkept.length_le
    have hne : addr ≠ b.addr := hapart hun m hm addr len hbody haddr
    exact (hmoves.read_eq hlt hne len).trans (hkept.views hun m hm addr len hbody haddr)

/-! ## The invariant -/

/-- A body that waits is what is to be sent. -/
def WaitingOk (policies : List Rule) (heap : Heap) (m : Waiting) : Prop :=
  match m.body with
  | .view addr len =>
    addr < heap.arrays.length ∧ Faithful strict policies m.arrived (heap.read addr len)
  | .own bytes => Faithful strict policies m.arrived bytes

structure Inv (policies : List Rule) (p : Proxy) : Prop where
  policies_eq : p.engine.policies = policies
  pool : p.PoolOk
  waiting : ∀ m ∈ p.waiting, WaitingOk strict policies p.heap m
  forwarded : ∀ q ∈ p.forwarded, Faithful strict policies q.1 q.2

/-- Receiving a message keeps the invariant, if its buffer is not shared. -/
theorem Inv.of_kept {policies : List Rule} {a : Arrival} {p p' : Proxy}
    (h : Inv strict policies p) (hkept : Kept a p p') (hun : p.unshared a = true) :
    Inv strict policies p' where
  policies_eq := by rw [hkept.engine, h.policies_eq]
  pool := hkept.pool
  waiting := by
    intro m hm
    rw [hkept.waiting] at hm
    have hok := h.waiting m hm
    unfold WaitingOk at hok ⊢
    split
    · next addr len hbody =>
      rw [hbody] at hok
      rw [hkept.views hun m hm addr len hbody hok.1]
      exact ⟨hok.1.trans_le hkept.length_le, hok.2⟩
    · next bytes hbody =>
      rw [hbody] at hok
      exact hok
  forwarded := by
    rw [hkept.forwarded]
    exact h.forwarded

theorem Inv.putBuffer {policies : List Rule} {p : Proxy} {b : GoBuffer}
    (h : Inv strict policies p) (hb : b.Wf p.heap) : Inv strict policies (p.putBuffer b) := by
  unfold Proxy.putBuffer
  split
  · exact h
  · refine ⟨h.policies_eq, ?_, h.waiting, h.forwarded⟩
    intro b' hb'
    rcases List.mem_cons.mp hb' with rfl | hb'
    · exact ⟨⟨hb.array, Nat.zero_le _⟩, rfl⟩
    · exact h.pool b' hb'

/-- The end of an interception that keeps the rules and leaves what is to be sent. -/
theorem Inv.settle {policies : List Rule} {m : Incoming} {p : Proxy} {b : GoBuffer}
    {outcome : Except Fault Unit × Effect} (h : Inv strict policies p) (hb : b.Wf p.heap)
    (hpol : outcome.2.engine.policies = p.engine.policies)
    (hbody : Faithful strict policies m (outcome.2.body.getD (b.contents p.heap))) :
    Inv strict policies (p.settle m b outcome) := by
  obtain ⟨r, eff⟩ := outcome
  cases r with
  | error f =>
    refine Inv.putBuffer strict ?_ hb
    exact ⟨hpol.trans h.policies_eq, h.pool, h.waiting, h.forwarded⟩
  | ok u =>
    refine Inv.putBuffer strict ⟨hpol.trans h.policies_eq, h.pool, ?_, h.forwarded⟩ hb
    intro m hm
    rcases List.mem_append.mp hm with hm | hm
    · exact h.waiting m hm
    · rw [List.mem_singleton] at hm
      subst hm
      unfold WaitingOk leftBody
      dsimp only at hbody ⊢
      cases heff : eff.body with
      | none =>
        rw [heff] at hbody
        exact ⟨hb.addr_lt, hbody⟩
      | some bytes =>
        rw [heff] at hbody
        exact hbody

/-- **The step lemma.** -/
theorem Inv.step {policies : List Rule} {p : Proxy} (h : Inv strict policies p) (action : Traffic)
    (hsafe : p.safe action = true) : Inv strict policies (p.step strict slack action) := by
  cases action with
  | request post a =>
    cases post with
    | false =>
      refine ⟨h.policies_eq, h.pool, ?_, h.forwarded⟩
      intro m hm
      rcases List.mem_append.mp hm with hm | hm
      · exact h.waiting m hm
      · rw [List.mem_singleton] at hm
        subst hm
        exact rfl
    | true =>
      obtain ⟨hcont, hwf, hkept⟩ := receive_spec slack h.pool a
      have hinv := h.of_kept strict hkept hsafe
      unfold Proxy.step
      dsimp only
      split
      · exact hinv.putBuffer strict hwf
      · refine hinv.settle strict hwf (interceptBody_policies strict _ _ _) ?_
        show _ = _
        rw [hcont]
        show (interceptBody strict _ _ _).2.body.getD a.data = _
        rw [interceptBody_body, hinv.policies_eq]
  | response a =>
    obtain ⟨hcont, hwf, hkept⟩ := receive_spec slack h.pool a
    have hinv := h.of_kept strict hkept hsafe
    unfold Proxy.step
    dsimp only
    split
    · exact hinv.putBuffer strict hwf
    · refine hinv.settle strict hwf (interceptResponse_policies strict _ _ _) ?_
      rw [interceptResponse_body, hcont]
      rfl
  | forward i =>
    unfold Proxy.step
    dsimp only
    split
    · exact h
    · next m hm =>
      have hok := h.waiting m (List.mem_of_getElem? hm)
      refine ⟨h.policies_eq, h.pool, fun m' hm' => h.waiting m' (List.mem_of_mem_eraseIdx hm'), ?_⟩
      intro q hq
      rcases List.mem_append.mp hq with hq | hq
      · exact h.forwarded q hq
      · rw [List.mem_singleton] at hq
        subst hq
        unfold WaitingOk at hok
        unfold bytesOf
        dsimp only
        split
        · next addr len hbody =>
          rw [hbody] at hok
          exact hok.2
        · next bytes hbody =>
          rw [hbody] at hok
          exact hok

/-- **The run lemma.** -/
theorem Inv.run {policies : List Rule} : ∀ (actions : List Traffic) {p : Proxy},
    Inv strict policies p → p.safeRun strict slack actions = true →
    Inv strict policies (p.run strict slack actions)
  | [], _, h, _ => h
  | action :: actions, p, h, hsafe => by
    rw [safeRun, Bool.and_eq_true] at hsafe
    exact Inv.run actions (h.step strict slack action hsafe.1) hsafe.2

end Proxy

open Proxy

/-- **No message is forwarded in the place of another**, in any interleaving in which every message
is given a new buffer, or one that no waiting body points into: what the proxy sends for a message
is what the message arrived with, or for a request its redaction by the rule that is selected for
it. -/
theorem run_forwarded (strict : Bool) (slack : Nat → Nat) (engine : Engine)
    (actions : List Traffic) (hsafe : safeRun strict slack { engine } actions = true) :
    ∀ q ∈ (run strict slack { engine } actions).forwarded,
      Faithful strict engine.policies q.1 q.2 := by
  have hinit : Inv strict engine.policies { engine } :=
    ⟨rfl, List.forall_mem_nil _, List.forall_mem_nil _, List.forall_mem_nil _⟩
  exact (hinit.run strict slack actions hsafe).forwarded

/-! ## Messages that overlap -/

/-- A request for a file. -/
def readFile (name : Bytes) : Bytes :=
  lits ["\x7b\"jsonrpc\":\"2.0\",\"id\":1,\"method\":\"read\",\"params\":", "\x7b\"name\":\""] ++
    name ++ lit "\"\x7d\x7d"

/-- The request arrives, and is given a buffer. -/
def arrive (name id : Bytes) (pick : Option Nat) : Traffic :=
  .request true {
    data := readFile name
    pick
    env := { id, now := recordedEnv.now } }

/-- A rule that redacts the name of a file, but not when it is read. -/
def nameRule : Rule where
  id := lit "names"
  matchMethods := [lit "open"]
  riskLevel := lit "high"
  redact := [lit "name"]

def nameEngine : Engine := { plainEngine with policies := [nameRule] }

/-- A file is opened under the given name. -/
def openFile (name : Bytes) : Bytes :=
  lits ["\x7b\"jsonrpc\":\"2.0\",\"id\":2,\"method\":\"open\",\"params\":", "\x7b\"name\":\""] ++
    name ++ lit "\"\x7d\x7d"

/-- The response to it, which names the method and the file, too. -/
def openedFile : Bytes :=
  lits ["\x7b\"jsonrpc\":\"2.0\",\"method\":\"open\",\"params\":\x7b\"name\":\"a\"\x7d,",
    "\"result\":\x7b\"name\":\"a\"\x7d\x7d"]

/-- Two requests and a response, each with a buffer of its own, and a last request that reuses the
buffer of the first after that was forwarded. -/
def apart : List Traffic :=
  [arrive (lit "a") (lit "evt-1") none,
    .request true
      { data := openFile (lit "a"), env := { id := lit "evt-2", now := recordedEnv.now } },
    .response { data := openedFile, env := { id := lit "evt-3", now := recordedEnv.now } },
    .forward 0, arrive (lit "c") (lit "evt-4") (some 2), .forward 2, .forward 1, .forward 0]

/-- What was sent: the opening request with its placeholder, the others as they came. -/
def apartSent : List (Incoming × Bytes) :=
  [(.request true (readFile (lit "a")), readFile (lit "a")),
    (.request true (readFile (lit "c")), readFile (lit "c")),
    (.response openedFile, openedFile),
    (.request true (openFile (lit "a")), openFile (lit "[REDACTED]"))]

theorem apart_evaluated : safeRun true (fun _ => 0) { engine := nameEngine } apart = true ∧
    (run true (fun _ => 0) { engine := nameEngine } apart).forwarded = apartSent := by
  decide +kernel

theorem run_forwarded_apart :
    (run true (fun _ => 0) { engine := nameEngine } apart).forwarded = apartSent ∧
      ∀ q ∈ apartSent, Faithful true [nameRule] q.1 q.2 := by
  have h := run_forwarded true (fun _ => 0) nameEngine apart apart_evaluated.1
  rw [apart_evaluated.2] at h
  exact ⟨apart_evaluated.2, h⟩

/-- Two requests. The second is given the buffer of the first, and is sent twice. -/
theorem forwarded_other_message : ∃ actions,
    (run true (fun _ => 0) { engine := plainEngine } actions).forwarded
      = [(.request true (readFile (lit "a")), readFile (lit "b")),
        (.request true (readFile (lit "b")), readFile (lit "b"))] ∧
    ¬ Faithful true plainEngine.policies (.request true (readFile (lit "a")))
      (readFile (lit "b")) := by
  refine ⟨[arrive (lit "a") (lit "evt-1") none, arrive (lit "b") (lit "evt-2") (some 0),
    .forward 0, .forward 0], by decide +kernel, ?_⟩
  have hother : ¬ readFile (lit "b")
      = (ownRedaction true plainEngine.policies (readFile (lit "a"))).getD (readFile (lit "a")) :=
    by decide +kernel
  exact hother

end Logryph
