import Mathlib.Data.List.Induction
import Logryph.Infra.GoConv
import Logryph.Infra.Histogram
import Logryph.Worker

/-!
# The latency histogram

The worker counts how long the handling of each event takes, and `HandlePrometheus` prints the
counters as a histogram. A Prometheus histogram is cumulative: the value of a bucket is the number
of observations that are not above its bound. The worker counts an observation in one bucket only,
and the counters are printed as they are.

* `Worker.recordAll_latency` — the counters after any durations
* `latency_histogram_iff` — when what is printed is the histogram of the durations
-/

namespace Logryph

open Infra

/-! ## Printing -/

/-- `ledger.LatencySnapshot`. -/
structure LatencySnapshot where
  boundsNs : List UInt64
  counts : List UInt64
  sumNs : UInt64
  count : UInt64

/-- `LatencyMetrics`. -/
def Worker.latencyMetrics (w : Worker) : LatencySnapshot where
  boundsNs := latencyBucketUpperNs
  counts := w.latency.buckets
  sumNs := w.latency.sumNs
  count := w.latency.count

/-- `float64(ns) / float64(time.Second)` with the format `%.6f`. -/
def secondsText (ns : Nat) : Bytes := utf8 (formatF 6 (round64 (round64 ns / 10 ^ 9)))

/-- The label of a bucket. -/
def bucketLabel (upper : UInt64) : Bytes :=
  if upper = 0xFFFFFFFFFFFFFFFF then lit "+Inf" else secondsText upper.toNat

example : bucketLabel 5000000 = lit "0.005000" := by decide +kernel

def latencyHeader : List Bytes :=
  [lit "# HELP logryph_ledger_event_latency_seconds Event processing latency\n",
    lit "# TYPE logryph_ledger_event_latency_seconds histogram\n"]

def bucketLine (upper : UInt64) (n : Nat) : Bytes :=
  lit "logryph_ledger_event_latency_seconds_bucket\x7ble=\"" ++ bucketLabel upper ++
    lit "\"\x7d " ++ natText n ++ lit "\n"

def sumLine (ns : Nat) : Bytes :=
  lit "logryph_ledger_event_latency_seconds_sum " ++ secondsText ns ++ lit "\n"

def countLine (n : Nat) : Bytes :=
  lit "logryph_ledger_event_latency_seconds_count " ++ natText n ++ lit "\n"

def maxBuckets : Nat := 20

/-- `formatLatencyHistogram`: the texts that it writes one after the other, while that succeeds. -/
def formatLatencyHistogram (latency : LatencySnapshot) : List Bytes :=
  latencyHeader ++ (((latency.boundsNs.zip latency.counts).take maxBuckets).map fun (upper, n) =>
    bucketLine upper n.toNat) ++ [sumLine latency.sumNs.toNat, countLine latency.count.toNat]

/-- What a Prometheus histogram of the durations is: the value of a bucket is the number of
durations that are not above its bound. The sum and the number are counters of 64 bits. -/
def histogramOf (ds : List Nat) : List Bytes :=
  latencyHeader ++ (latencyBucketUpperNs.map fun upper =>
    bucketLine upper (ds.countP (· ≤ upper.toNat))) ++
    [sumLine (ds.sum % 2 ^ 64), countLine (ds.length % 2 ^ 64)]

/-! ## Recording -/

namespace Worker

variable (strict : Bool)

/-- Calls of `recordLatency` one after the other. -/
def recordAll (w : Worker) (ds : List Int) : Worker :=
  ds.foldl (fun w d => (recordLatency strict w d).2) w

/-- The bounds as numbers. -/
def latencyBounds : List Nat := latencyBucketUpperNs.map UInt64.toNat

/-- The counters for some durations. -/
def latencyOf (ds : List Nat) : Latency where
  sumNs := .ofNat ds.sum
  count := .ofNat ds.length
  buckets := (inBuckets latencyBounds ds).map UInt64.ofNat

theorem countBucket_eq_bump {d : Nat} (hd : d < 2 ^ 64) :
    ∀ (bounds : List UInt64) (counts : List Nat),
    countBucket (.ofNat d) bounds (counts.map UInt64.ofNat) =
      (bump d (bounds.map UInt64.toNat) counts).map UInt64.ofNat
  | [], counts => by cases counts <;> rfl
  | b :: bounds, [] => rfl
  | b :: bounds, n :: counts => by
    have hle : UInt64.ofNat d ≤ b ↔ d ≤ b.toNat := by
      rw [UInt64.le_iff_toNat_le, UInt64.toNat_ofNat_of_lt' hd]
    rw [List.map_cons, countBucket, List.map_cons, bump]
    by_cases h : d ≤ b.toNat
    · rw [if_pos (hle.mpr h), if_pos h, List.map_cons, UInt64.ofNat_add]
      rfl
    · rw [if_neg (mt hle.mp h), if_neg h, List.map_cons, countBucket_eq_bump hd]

/-- One more duration. -/
theorem latency_recordLatency {w : Worker} {ds : List Nat} (hw : w.latency = latencyOf ds) {d : Int}
    (hd : 0 ≤ d) (hd' : d < 2 ^ 63) :
    (recordLatency strict w d).2.latency = latencyOf (ds ++ [d.toNat]) := by
  have hlt : d.toNat < 2 ^ 64 := by omega
  unfold recordLatency quietCheck
  rw [if_pos (by simpa using hd)]
  dsimp only
  rw [hw]
  unfold latencyOf
  dsimp only
  rw [inBuckets_concat, latencyBounds, countBucket_eq_bump hlt, List.sum_append, List.length_append,
    UInt64.ofNat_add, UInt64.ofNat_add]
  simp

/-- **The counters after any durations**: their sum and number modulo 2⁶⁴, and for each bucket the
number of those for which it is the first. -/
theorem recordAll_latency {w : Worker} (hw : w.latency = {}) {ds : List Int}
    (hds : ∀ d ∈ ds, 0 ≤ d ∧ d < 2 ^ 63) :
    (recordAll strict w ds).latency = latencyOf (ds.map Int.toNat) := by
  induction ds using List.reverseRecOn with
  | nil => exact hw
  | append_singleton ds d ih =>
    obtain ⟨hd, hd'⟩ := hds d (by simp)
    have hprev := ih fun x hx => hds x (by simp [hx])
    rw [recordAll, List.foldl_append, List.map_append]
    exact latency_recordLatency strict hprev hd hd'

end Worker

/-! ## The printed histogram -/

theorem bucketLine_inj {upper : UInt64} {m n : Nat} :
    bucketLine upper m = bucketLine upper n ↔ m = n := by
  refine ⟨fun h => ?_, fun h => by rw [h]⟩
  unfold bucketLine at h
  exact natText_injective (List.append_cancel_left (List.append_cancel_right h))

/-- The lines of the buckets are those of other numbers only if the counters have these values. -/
theorem bucketLines_eq_iff {value : UInt64 → Nat} : ∀ {bounds : List UInt64} {counts : List Nat},
    counts.length = bounds.length →
    (((bounds.zip (counts.map UInt64.ofNat)).map fun (upper, n) => bucketLine upper n.toNat) =
        (bounds.map fun upper => bucketLine upper (value upper)) ↔
      counts.map (· % 2 ^ 64) = bounds.map value)
  | [], counts, h => by simp [List.length_eq_zero_iff.mp h]
  | b :: bounds, [], h => by simp at h
  | b :: bounds, n :: counts, h => by
    have ih := @bucketLines_eq_iff value bounds counts (Nat.succ.inj h)
    simp only [List.map_cons, List.zip_cons_cons, List.cons.injEq, bucketLine_inj, ih,
      UInt64.toNat_ofNat']

/-- What is printed for the counters of some durations. -/
theorem formatLatencyHistogram_eq_iff {w : Worker} {ds : List Nat}
    (hw : w.latency = Worker.latencyOf ds) :
    formatLatencyHistogram w.latencyMetrics = histogramOf ds ↔
      (inBuckets Worker.latencyBounds ds).map (· % 2 ^ 64)
        = cumulative Worker.latencyBounds ds := by
  have hlen : (inBuckets Worker.latencyBounds ds).length = latencyBucketUpperNs.length := by
    rw [length_inBuckets, Worker.latencyBounds, List.length_map]
  have htake : ((latencyBucketUpperNs.zip ((inBuckets Worker.latencyBounds ds).map
      UInt64.ofNat)).take maxBuckets) = latencyBucketUpperNs.zip
        ((inBuckets Worker.latencyBounds ds).map UInt64.ofNat) := by
    refine List.take_of_length_le ?_
    rw [List.length_zip]
    exact (Nat.min_le_left _ _).trans (by decide)
  unfold formatLatencyHistogram histogramOf Worker.latencyMetrics
  rw [hw]
  dsimp only [Worker.latencyOf]
  rw [htake, UInt64.toNat_ofNat', UInt64.toNat_ofNat', List.append_left_inj, List.append_right_inj,
    bucketLines_eq_iff hlen, cumulative]
  conv_rhs => rw [Worker.latencyBounds, List.map_map]
  rfl

/-- **When the printed histogram is the one of the durations.** Let `recordLatency` be called with
any durations that are not negative. The number and the sum are right. Every bucket has the number
of the durations up to its bound if and only if all durations are above 100 ms, the last bound, and
they are fewer than 2⁶⁴. -/
theorem latency_histogram_iff (strict : Bool) {w : Worker} (hw : w.latency = {}) {ds : List Int}
    (hds : ∀ d ∈ ds, 0 ≤ d ∧ d < 2 ^ 63) :
    formatLatencyHistogram (w.recordAll strict ds).latencyMetrics = histogramOf (ds.map Int.toNat) ↔
      (∀ d ∈ ds, 100000000 < d) ∧ ds.length < 2 ^ 64 := by
  have hbounds : Worker.latencyBounds =
      [1000000, 5000000, 10000000, 25000000, 50000000, 100000000] ++ [2 ^ 64 - 1] := rfl
  have hall : (ds.map Int.toNat).countP (· ≤ 2 ^ 64 - 1) = ds.length := by
    rw [List.countP_eq_length.mpr, List.length_map]
    intro x hx
    obtain ⟨d, hd, rfl⟩ := List.mem_map.mp hx
    obtain ⟨h0, h1⟩ := hds d hd
    simp
    omega
  rw [formatLatencyHistogram_eq_iff (Worker.recordAll_latency strict hw hds), hbounds,
    inBuckets_eq_cumulative_iff (by decide) _ _ (by decide), hall]
  refine and_congr_left fun _ => ?_
  simp only [List.mem_map, forall_exists_index, and_imp, forall_apply_eq_imp_iff₂]
  constructor
  · intro h d hd
    have := h 100000000 (by simp) d hd
    omega
  · intro h b hb d hd
    have hb' : b ≤ 100000000 := by
      revert b
      decide
    have := h d hd
    omega

/-- A worker before its first event. -/
def idleWorker : Worker where
  ringBuffer := ⟨[newEvent], 1, 0, 0, 0⟩
  state := initialState recordedSigner []

/-- The histogram of two durations above the last bound. -/
theorem latency_histogram_slow :
    formatLatencyHistogram (idleWorker.recordAll true [200000000, 300000000]).latencyMetrics =
      histogramOf [200000000, 300000000] := by
  refine (latency_histogram_iff true rfl (by decide)).mpr ⟨by decide, by decide⟩

/-- **One duration of 2 ms counts in one bucket only.** The buckets with larger bounds and the one
without a bound are printed as empty. -/
theorem latency_histogram_not_cumulative :
    formatLatencyHistogram (idleWorker.recordAll true [2000000]).latencyMetrics =
      latencyHeader ++ [bucketLine 1000000 0, bucketLine 5000000 1, bucketLine 10000000 0,
        bucketLine 25000000 0, bucketLine 50000000 0, bucketLine 100000000 0,
        bucketLine 0xFFFFFFFFFFFFFFFF 0] ++ [sumLine 2000000, countLine 1] ∧
    histogramOf [2000000] =
      latencyHeader ++ [bucketLine 1000000 0, bucketLine 5000000 1, bucketLine 10000000 1,
        bucketLine 25000000 1, bucketLine 50000000 1, bucketLine 100000000 1,
        bucketLine 0xFFFFFFFFFFFFFFFF 1] ++ [sumLine 2000000, countLine 1] ∧
    formatLatencyHistogram (idleWorker.recordAll true [2000000]).latencyMetrics ≠
      histogramOf [2000000] := by
  refine ⟨rfl, rfl, fun h => ?_⟩
  have hlines : bucketLine 10000000 0 = bucketLine 10000000 1 :=
    congrArg (fun lines => lines.getD 4 []) h
  cases bucketLine_inj.mp hlines

end Logryph
