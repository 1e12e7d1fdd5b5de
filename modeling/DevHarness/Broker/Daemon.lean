import DevHarness.Broker.Capacity
import DevHarness.Broker.Reservation
import DevHarness.Broker.Cost
import Mathlib.Logic.Function.Basic
import Mathlib.Data.List.Sort
/-!
# Daemon — the broker's message handlers (`broker/daemon.py`, `broker/protocol.py`)

A handler is a function of the daemon and the message to a reply or a raised exception, and the daemon it leaves
behind: an exception keeps whatever was mutated before it.  The clock is read once a message.  Each handler converts
the message's fields first (`reserveArgs`, `commitArgs`, `releaseArgs`) and then works on typed values.
-/
namespace DevHarness
namespace Broker

open Lib

structure BrokerMessage where
  op : String
  ok : Bool := true
  data : Dict String Json := Dict.empty
  deriving DecidableEq

structure BrokerDaemon where
  buckets : ProviderId → Option TokenBucket
  limiters : ProviderId → Option LocalLimiter
  reservations : ReservationStore
  registry : ModelRegistry
  governor : CostGovernor
  kill : KillSwitch
  tpmBurn : ℤ
  latencies : List ℚ
  p50LatencyMs : ℚ
  p95LatencyMs : ℚ
  cumulativeUsd : ℚ

abbrev Handled := Except Raised BrokerMessage × BrokerDaemon

namespace BrokerDaemon

/-! ## Construction -/

/-- The bucket of a policy with an rpm; `none` is the `ValueError` of a rate that is not positive. -/
def addBucket (now : ℚ) (p : ProviderPolicy) (d : BrokerDaemon) : Option BrokerDaemon :=
  match p.rpm with
  | none => some d
  | some rpm => (TokenBucket.init rpm (rpm / 60) now).map
      (fun b => { d with buckets := Function.update d.buckets p.provider (some b) })

def addLimiter (p : ProviderPolicy) (d : BrokerDaemon) : Option BrokerDaemon :=
  match p.maxConcurrency with
  | none => some d
  | some n => (LocalLimiter.init n).map
      (fun l => { d with limiters := Function.update d.limiters p.provider (some l) })

def buildBuckets (now : ℚ) : List ProviderPolicy → BrokerDaemon → Option BrokerDaemon
  | [], d => some d
  | p :: ps, d => ((addBucket now p d).bind (addLimiter p)).bind (buildBuckets now ps)

def bare (cfg : HarnessConfig) (now : ℚ) : BrokerDaemon where
  buckets _ := none
  limiters _ := none
  reservations := Dict.empty
  registry := loadModels cfg
  governor := CostGovernor.init cfg now
  kill := {}
  tpmBurn := 0
  latencies := []
  p50LatencyMs := 0
  p95LatencyMs := 0
  cumulativeUsd := 0

def init (cfg : HarnessConfig) (now : ℚ) : Option BrokerDaemon :=
  buildBuckets now (loadPolicies cfg).values (bare cfg now)

/-! ## Pieces of the handlers -/

def setBucket (d : BrokerDaemon) (p : ProviderId) (b : TokenBucket) : BrokerDaemon :=
  { d with buckets := Function.update d.buckets p (some b) }

def setLimiter (d : BrokerDaemon) (p : ProviderId) (l : LocalLimiter) : BrokerDaemon :=
  { d with limiters := Function.update d.limiters p (some l) }

def item (data : Dict String Json) (key : String) : Except PyExc Json :=
  match data.get? key with
  | none => .error .keyError
  | some j => .ok j

def providerId : Json → Except PyExc ProviderId
  | .str s => match ProviderId.members.find? (fun p => p.value = s) with
    | some p => .ok p
    | none => .error .valueError
  | _ => .error .valueError

def refuse (op reason : String) : BrokerMessage := ⟨op, false, Dict.empty.set "reason" (.str reason)⟩

/-- `if bucket is not None and amount > 0: bucket.release(amount)`, as `_commit` and `_release` write it. -/
def creditBucket (d : BrokerDaemon) (p : ProviderId) (amount : PyFloat) : Option BrokerDaemon :=
  match d.buckets p with
  | none => some d
  | some b => if amount.isPos then (b.release amount).map (d.setBucket p) else some d

/-! ## RESERVE -/

structure ReserveArgs where
  provider : ProviderId
  tokens : PyFloat
  callback : String

def reserveArgs (py : Builtins) (data : Dict String Json) : Except PyExc ReserveArgs := do
  let provider ← providerId (← item data "provider")
  let tokens ← py.float (data.getD "tokens" (.float (.fin 1)))
  return ⟨provider, tokens, py.str (data.getD "callback_endpoint" (.str ""))⟩

def grantedReply (r : Reservation) : BrokerMessage where
  op := "RESERVE"
  data := (((Dict.empty.set "granted" (.bool true)).set "reservation_id" (.str r.reservationId)).set
    "provider" (.str r.provider.value)).set "tokens" (.float r.tokens)

def grant (d : BrokerDaemon) (a : ReserveArgs) (uuid : String) (now : ℚ) : Handled :=
  let r := ReservationStore.fresh uuid a.provider a.tokens a.callback now
  (.ok (grantedReply r), { d with reservations := d.reservations.create r })

/-- The refusal of a full limiter, the tokens given back. -/
def giveBack (d : BrokerDaemon) (a : ReserveArgs) : Handled :=
  match d.buckets a.provider with
  | none => (.ok (refuse "RESERVE" "saturated"), d)
  | some b => match b.release a.tokens with
    | none => (.error (.py .valueError), d)
    | some b' => (.ok (refuse "RESERVE" "saturated"), d.setBucket a.provider b')

/-- The limiter's turn, the bucket already charged. -/
def takeSlot (d : BrokerDaemon) (a : ReserveArgs) (uuid : String) (now : ℚ) : Handled :=
  match d.limiters a.provider with
  | none => d.grant a uuid now
  | some l => match l.acquire with
    | (true, l') => (d.setLimiter a.provider l').grant a uuid now
    | (false, l') => (d.setLimiter a.provider l').giveBack a

def takeTokens (d : BrokerDaemon) (a : ReserveArgs) (uuid : String) (now : ℚ) : Handled :=
  match d.buckets a.provider with
  | none => d.takeSlot a uuid now
  | some b => match b.tryAcquire a.tokens now with
    | none => (.error (.py .valueError), d)
    | some (false, b') => (.ok (refuse "RESERVE" "rate_limited"), d.setBucket a.provider b')
    | some (true, b') => (d.setBucket a.provider b').takeSlot a uuid now

/-- The `except` clauses of `_reserve`. -/
def exceptReserve : Handled → Handled
  | (.error .budgetExceeded, d) => (.ok (refuse "RESERVE" "budget"), d)
  | (.error (.py .keyError), d) => (.ok (refuse "RESERVE" "error"), d)
  | (.error (.py .valueError), d) => (.ok (refuse "RESERVE" "error"), d)
  | (.error (.py .typeError), d) => (.ok (refuse "RESERVE" "error"), d)
  | h => h

def reserve (py : Builtins) (d : BrokerDaemon) (data : Dict String Json) (uuid : String) (now : ℚ) : Handled :=
  exceptReserve (if d.kill.tripped then (.error .budgetExceeded, d)
    else match reserveArgs py data with
      | .error e => (.error (.py e), d)
      | .ok a => d.takeTokens a uuid now)

/-! ## COMMIT -/

structure CommitArgs where
  reservationId : String
  actual : PyFloat
  model : String
  usage : Usage
  provider : ProviderId
  callback : String

def commitArgs (py : Builtins) (data : Dict String Json) : Except PyExc CommitArgs := do
  let actual ← py.float (data.getD "actual" (.float (.fin 0)))
  let usageIn ← py.int (data.getD "usage_in" (.int 0))
  let usageOut ← py.int (data.getD "usage_out" (.int 0))
  let provider ← providerId (← item data "provider")
  return ⟨py.str (data.getD "reservation_id" (.str "")), actual, py.str (data.getD "model" (.str "")),
    ⟨usageIn, usageOut⟩, provider, py.str (data.getD "callback_endpoint" (.str ""))⟩

/-- `samples[min(n - 1, int(n * q))]` of the sorted samples, for `q = num / den`. -/
def nearest (samples : List ℚ) (num den : ℕ) : ℚ :=
  (samples.insertionSort (· ≤ ·)).getD (min (samples.length - 1) (samples.length * num / den)) 0

def recordLatency (d : BrokerDaemon) (latencyMs : ℚ) : BrokerDaemon :=
  let samples := d.latencies ++ [latencyMs]
  { d with latencies := samples, p50LatencyMs := nearest samples 50 100, p95LatencyMs := nearest samples 95 100 }

/-- The `if model:` block of `_commit`: charge the usage, or trip the switch on a breach. -/
def charge (py : Builtins) (d : BrokerDaemon) (a : CommitArgs) (now : ℚ) : Except Raised Unit × BrokerDaemon :=
  match d.governor.commit py d.registry a.model a.usage now with
  | (.ok _, g) => (.ok (), { ({ d with
      governor := g
      tpmBurn := d.tpmBurn + (a.usage.inputTokens + a.usage.outputTokens) } : BrokerDaemon).recordLatency 0 with
      cumulativeUsd := g.runUsd })
  | (.error .budgetExceeded, g) => (.ok (), { d with governor := g, kill := d.kill.trip a.callback })
  | (.error e, g) => (.error e, { d with governor := g })

def committedReply (delta : PyFloat) : BrokerMessage := ⟨"COMMIT", true, Dict.empty.set "delta" (.float delta)⟩

def settleCommit (py : Builtins) (d : BrokerDaemon) (a : CommitArgs) (now : ℚ) : Handled :=
  let delta := d.reservations.commitDelta a.reservationId a.actual
  match ({ d with reservations := d.reservations.commit a.reservationId } : BrokerDaemon).creditBucket a.provider delta with
  | none => (.error (.py .valueError), { d with reservations := d.reservations.commit a.reservationId })
  | some d₁ => if a.model = "" then (.ok (committedReply delta), d₁)
    else match d₁.charge py a now with
      | (.ok _, d₂) => (.ok (committedReply delta), d₂)
      | (.error e, d₂) => (.error e, d₂)

def commit (py : Builtins) (d : BrokerDaemon) (data : Dict String Json) (now : ℚ) : Handled :=
  match commitArgs py data with
  | .error e => (.error (.py e), d)
  | .ok a => d.settleCommit py a now

/-! ## RELEASE, METRICS and the dispatch -/

structure ReleaseArgs where
  reservationId : String
  provider : ProviderId

def releaseArgs (py : Builtins) (data : Dict String Json) : Except PyExc ReleaseArgs := do
  let provider ← providerId (← item data "provider")
  return ⟨py.str (data.getD "reservation_id" (.str "")), provider⟩

def releasedReply (tokens : PyFloat) : BrokerMessage := ⟨"RELEASE", true, Dict.empty.set "tokens" (.float tokens)⟩

def freeSlot (d : BrokerDaemon) (p : ProviderId) : Except PyExc Unit × BrokerDaemon :=
  match d.limiters p with
  | none => (.ok (), d)
  | some l => (l.release.1, d.setLimiter p l.release.2)

def settleRelease (d : BrokerDaemon) (a : ReleaseArgs) : Handled :=
  let tokens := d.reservations.releaseTokens a.reservationId
  match ({ d with reservations := d.reservations.release a.reservationId } : BrokerDaemon).creditBucket a.provider tokens with
  | none => (.error (.py .valueError), { d with reservations := d.reservations.release a.reservationId })
  | some d₁ => match d₁.freeSlot a.provider with
    | (.ok _, d₂) => (.ok (releasedReply tokens), d₂)
    | (.error e, d₂) => (.error (.py e), d₂)

def release (py : Builtins) (d : BrokerDaemon) (data : Dict String Json) : Handled :=
  match releaseArgs py data with
  | .error e => (.error (.py e), d)
  | .ok a => d.settleRelease a

def metricsReply (d : BrokerDaemon) : BrokerMessage where
  op := "METRICS"
  data := (((Dict.empty.set "p50_latency_ms" (.float (.fin d.p50LatencyMs))).set
    "p95_latency_ms" (.float (.fin d.p95LatencyMs))).set "tpm_burn" (.int d.tpmBurn)).set
    "cumulative_usd" (.float (.fin d.cumulativeUsd))

/-- `_handle_message`, the fresh id and the clock reading passed in. -/
def handleMessage (py : Builtins) (d : BrokerDaemon) (msg : BrokerMessage) (uuid : String) (now : ℚ) : Handled :=
  if msg.op = "HEALTH" then (.ok ⟨"HEALTH", true, Dict.empty.set "status" (.str "ok")⟩, d)
  else if msg.op = "RESERVE" then d.reserve py msg.data uuid now
  else if msg.op = "COMMIT" then d.commit py msg.data now
  else if msg.op = "RELEASE" then d.release py msg.data
  else if msg.op = "METRICS" then (.ok d.metricsReply, d)
  else (.ok (refuse msg.op "unknown_op"), d)

/-- The reaper `drain` runs: the expired entries go, and nothing is done with them. -/
def reap (d : BrokerDaemon) (now : ℚ) : BrokerDaemon := { d with reservations := d.reservations.reapExpired now }

end BrokerDaemon
end Broker
end DevHarness
