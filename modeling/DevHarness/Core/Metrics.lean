import DevHarness.Broker.Daemon
import DevHarness.Lib.OrderStatistic
import Mathlib.Algebra.Order.Floor.Ring
import Mathlib.Data.Rat.Floor
import Mathlib.Tactic.FieldSimp
import Mathlib.Tactic.Linarith
/-!
# Metrics — the two latency percentiles of METRICS_UPDATE (`core/metrics.py`, `broker/daemon.py`)

`InterruptMetrics.percentile` takes the member of rank `⌈p/100·n⌉`, counted from one; the daemon indexes the sorted
samples with `⌊p/100·n⌋`, counted from zero.  The two stand one place apart when `p/100·n` is whole.
-/
namespace DevHarness

open Lib (Tied)

namespace Core

/-- The collector of the interrupt engine: the histogram and the counter that goes with it. -/
structure InterruptMetrics where
  interruptsIssued : ℕ := 0
  latenciesMs : List ℚ := []
  deriving DecidableEq

namespace InterruptMetrics

def recordInterrupt (m : InterruptMetrics) (latencyMs : ℚ) : InterruptMetrics :=
  { m with interruptsIssued := m.interruptsIssued + 1, latenciesMs := m.latenciesMs ++ [latencyMs] }

/-- Nearest-rank percentile of the histogram; 0 if it is empty. -/
def percentile (m : InterruptMetrics) (p : ℚ) : ℚ :=
  if m.latenciesMs = [] then 0
  else
    let ordered := m.latenciesMs.insertionSort (· ≤ ·)
    let rank := ⌈p / 100 * (ordered.length : ℚ)⌉
    let index := min (max (rank - 1) 0) ((ordered.length : ℤ) - 1)
    ordered.getD index.toNat 0

def p50 (m : InterruptMetrics) : ℚ := m.percentile 50

def p95 (m : InterruptMetrics) : ℚ := m.percentile 95

/-- The collector that recorded these latencies, in this order. -/
def recorded (latencies : List ℚ) : InterruptMetrics := latencies.foldl recordInterrupt {}

theorem foldl_recordInterrupt : ∀ (latencies : List ℚ) (m : InterruptMetrics),
    latencies.foldl recordInterrupt m = ⟨m.interruptsIssued + latencies.length, m.latenciesMs ++ latencies⟩
  | [], m => by simp
  | x :: latencies, m => by
    rw [List.foldl_cons, foldl_recordInterrupt latencies (m.recordInterrupt x)]
    simp only [recordInterrupt, List.length_cons, List.append_assoc, List.singleton_append]
    rw [Nat.add_assoc, Nat.add_comm 1]

@[simp] theorem latenciesMs_recorded (latencies : List ℚ) : (recorded latencies).latenciesMs = latencies := by
  rw [recorded, foldl_recordInterrupt]
  rfl

/-! ## The ranks -/

theorem ceil_rank (n num : ℕ) : ⌈(num : ℚ) / 100 * (n : ℚ)⌉ = ((n * num + 99) / 100 : ℕ) := by
  have hlo : ((n * num + 99) / 100) * 100 ≤ n * num + 99 := Nat.div_mul_le_self _ _
  have hhi : n * num ≤ ((n * num + 99) / 100) * 100 := by omega
  have hloq : ((((n * num + 99) / 100 : ℕ) : ℚ)) * 100 ≤ (n : ℚ) * num + 99 := by exact_mod_cast hlo
  have hhiq : (n : ℚ) * num ≤ ((((n * num + 99) / 100 : ℕ) : ℚ)) * 100 := by exact_mod_cast hhi
  have hcomm : (num : ℚ) / 100 * (n : ℚ) = (n : ℚ) * num / 100 := by ring
  rw [Int.ceil_eq_iff, hcomm, Int.cast_natCast]
  constructor
  · rw [lt_div_iff₀ (by norm_num)]
    linarith
  · rw [div_le_iff₀ (by norm_num)]
    exact hhiq

/-- **The nearest rank, counted from zero**, for a percentage between 0 and 100, both left out. -/
theorem percentile_eq {latencies : List ℚ} (hne : latencies ≠ []) {num : ℕ} (hpos : 0 < num) (hlt : num < 100) :
    (recorded latencies).percentile (num : ℚ) =
      (latencies.insertionSort (· ≤ ·)).getD ((latencies.length * num + 99) / 100 - 1) 0 := by
  have hlen : 0 < latencies.length := List.length_pos_of_ne_nil hne
  have hprod : 0 < latencies.length * num := Nat.mul_pos hlen hpos
  have hle : latencies.length * num ≤ latencies.length * 99 := Nat.mul_le_mul_left _ (Nat.le_of_lt_succ hlt)
  unfold percentile
  rw [latenciesMs_recorded, if_neg hne]
  dsimp only
  rw [List.length_insertionSort, ceil_rank]
  congr 1
  omega

end InterruptMetrics
end Core

namespace Broker
namespace BrokerDaemon

open DevHarness.Core (InterruptMetrics)
open DevHarness.Core.InterruptMetrics (recorded)

/-- **The daemon's index against the nearest rank**: they name the same latency unless `num/100·n` is whole and the
two latencies it lies between differ. -/
theorem nearest_eq_percentile_iff {latencies : List ℚ} (hne : latencies ≠ []) (num : ℕ) (hpos : 0 < num)
    (hlt : num < 100) : nearest latencies num 100 = (recorded latencies).percentile (num : ℚ) ↔
      (100 ∣ latencies.length * num → Tied latencies (latencies.length * num / 100)) := by
  have hlen : 0 < latencies.length := List.length_pos_of_ne_nil hne
  have hprod : 0 < latencies.length * num := Nat.mul_pos hlen hpos
  have hle : latencies.length * num ≤ latencies.length * 99 := Nat.mul_le_mul_left _ (Nat.le_of_lt_succ hlt)
  have hsorted : (latencies.insertionSort (· ≤ ·)).length = latencies.length := List.length_insertionSort (· ≤ ·) latencies
  have hmin : min (latencies.length - 1) (latencies.length * num / 100) = latencies.length * num / 100 := by omega
  rw [nearest, InterruptMetrics.percentile_eq hne hpos hlt, hmin]
  by_cases hdvd : 100 ∣ latencies.length * num
  · -- a whole rank: the daemon reads the place after it
    obtain ⟨k, hk⟩ := hdvd
    obtain ⟨i, rfl⟩ : ∃ i, k = i + 1 := ⟨k - 1, by omega⟩
    have hdaemon : latencies.length * num / 100 = i + 1 := by omega
    have hrank : (latencies.length * num + 99) / 100 - 1 = i := by omega
    have hi : i + 1 < (latencies.insertionSort (· ≤ ·)).length := by omega
    rw [hdaemon, hrank, ← List.getElem_eq_getD (h := hi) 0, ← List.getElem_eq_getD (h := Nat.lt_of_succ_lt hi) 0,
      Lib.getElem_insertionSort_eq_getElem_iff hi]
    exact ⟨fun h _ => h, fun h => h ⟨i + 1, hk⟩⟩
  · have hrank : (latencies.length * num + 99) / 100 - 1 = latencies.length * num / 100 := by omega
    rw [hrank]
    exact iff_of_true rfl (fun h => absurd h hdvd)

/-- **No percentile falls between two different samples**: where half of the samples, or 19 of every 20, is a whole
number, the samples on the two sides of that place are equal. -/
def Undoubted (latencies : List ℚ) : Prop :=
  (2 ∣ latencies.length → Tied latencies (latencies.length / 2)) ∧
    (20 ∣ latencies.length → Tied latencies (latencies.length * 19 / 20))

instance (latencies : List ℚ) : Decidable (Undoubted latencies) := inferInstanceAs (Decidable (_ ∧ _))

theorem nearest_eq_p50_iff {latencies : List ℚ} (hne : latencies ≠ []) :
    nearest latencies 50 100 = (recorded latencies).percentile 50 ↔
      (2 ∣ latencies.length → Tied latencies (latencies.length / 2)) := by
  have hwhole : 100 ∣ latencies.length * 50 ↔ 2 ∣ latencies.length := by omega
  have hplace : latencies.length * 50 / 100 = latencies.length / 2 := by omega
  have h := nearest_eq_percentile_iff hne 50 (by decide) (by decide)
  rw [hwhole, hplace] at h
  exact_mod_cast h

theorem nearest_eq_p95_iff {latencies : List ℚ} (hne : latencies ≠ []) :
    nearest latencies 95 100 = (recorded latencies).percentile 95 ↔
      (20 ∣ latencies.length → Tied latencies (latencies.length * 19 / 20)) := by
  have hwhole : 100 ∣ latencies.length * 95 ↔ 20 ∣ latencies.length := by omega
  have hplace : latencies.length * 95 / 100 = latencies.length * 19 / 20 := by omega
  have h := nearest_eq_percentile_iff hne 95 (by decide) (by decide)
  rw [hwhole, hplace] at h
  exact_mod_cast h

/-- **When the two producers report the same.**  After any sample, the daemon's p50 and p95 are the nearest-rank ones
of the same samples exactly when neither rank falls between two samples that differ. -/
theorem recordLatency_eq_percentiles_iff (d : BrokerDaemon) (latencyMs : ℚ) :
    ((d.recordLatency latencyMs).p50LatencyMs = (recorded (d.recordLatency latencyMs).latencies).p50 ∧
      (d.recordLatency latencyMs).p95LatencyMs = (recorded (d.recordLatency latencyMs).latencies).p95) ↔
      Undoubted (d.latencies ++ [latencyMs]) := by
  have hne : d.latencies ++ [latencyMs] ≠ [] := by simp
  show (nearest (d.latencies ++ [latencyMs]) 50 100 = (recorded (d.latencies ++ [latencyMs])).percentile 50 ∧
    nearest (d.latencies ++ [latencyMs]) 95 100 = (recorded (d.latencies ++ [latencyMs])).percentile 95) ↔ _
  generalize d.latencies ++ [latencyMs] = latencies at hne ⊢
  exact and_congr (nearest_eq_p50_iff hne) (nearest_eq_p95_iff hne)

/-- The latencies 1, 2, …, 20, as a fresh daemon and a fresh collector record them. -/
def oneToTwenty : List ℚ := (List.range 20).map (fun i => (i : ℚ) + 1)

/-- **Twenty samples**: both indices of the daemon are one too far. -/
theorem recordLatency_oneToTwenty : ∃ d, init {} 0 = some d ∧
    (oneToTwenty.foldl recordLatency d).latencies = oneToTwenty ∧
    (oneToTwenty.foldl recordLatency d).p50LatencyMs = 11 ∧ (recorded oneToTwenty).p50 = 10 ∧
    (oneToTwenty.foldl recordLatency d).p95LatencyMs = 20 ∧ (recorded oneToTwenty).p95 = 19 :=
  ⟨_, rfl, by decide +kernel, by decide +kernel, by decide +kernel, by decide +kernel, by decide +kernel⟩

end BrokerDaemon
end Broker
end DevHarness
