import DevHarness.Contracts
import DevHarness.Lib.Dict
import DevHarness.Lib.Python
/-!
# Reservation — reserve, then commit(actual) or release (`broker/reservation.py`)

The store keeps a committed entry, marked, until a release or the reaper removes it.
-/
namespace DevHarness
namespace Broker

open Lib

def ttlSeconds : ℚ := 120

structure Reservation where
  reservationId : String
  provider : ProviderId
  tokens : PyFloat
  callbackEndpoint : String
  createdAt : ℚ
  expiresAt : ℚ
  committed : Bool := false
  released : Bool := false
  deriving DecidableEq

def Reservation.expiredAt (r : Reservation) (now : ℚ) : Bool := decide (r.expiresAt < now)

abbrev ReservationStore := Dict String Reservation

namespace ReservationStore

def fresh (uuid : String) (provider : ProviderId) (tokens : PyFloat) (callbackEndpoint : String) (now : ℚ) :
    Reservation :=
  { reservationId := uuid, provider, tokens, callbackEndpoint, createdAt := now, expiresAt := now + ttlSeconds }

def create (s : ReservationStore) (r : Reservation) : ReservationStore := s.set r.reservationId r

/-- The delta `commit` returns: `max(0.0, res.tokens - actual)`, and `0.0` for an unknown id. -/
def commitDelta (s : ReservationStore) (rid : String) (actual : PyFloat) : PyFloat :=
  match s.get? rid with
  | none => .fin 0
  | some r => (PyFloat.fin 0).max (r.tokens.sub actual)

/-- `commit`: the entry stays, marked committed. -/
def commit (s : ReservationStore) (rid : String) : ReservationStore :=
  match s.get? rid with
  | none => s
  | some r => s.set rid { r with committed := true }

def releaseTokens (s : ReservationStore) (rid : String) : PyFloat :=
  match s.get? rid with
  | none => .fin 0
  | some r => r.tokens

/-- `release`: the entry goes, committed or not. -/
def release (s : ReservationStore) (rid : String) : ReservationStore := s.pop rid

def expired (s : ReservationStore) (now : ℚ) : List Reservation := s.values.filter (·.expiredAt now)

def reapExpired (s : ReservationStore) (now : ℚ) : ReservationStore := s.keep (fun p => !p.2.expiredAt now)

theorem get?_commit (s : ReservationStore) (rid a : String) :
    (s.commit rid).get? a = if a = rid then (s.get? a).map (fun r => { r with committed := true }) else s.get? a := by
  unfold commit
  by_cases ha : a = rid
  · subst ha
    cases h : s.get? a with
    | none => simp [h]
    | some r => simp
  · cases h : s.get? rid with
    | none => simp [ha]
    | some r => simp [ha, Dict.get?_set_ne]

theorem get?_release (s : ReservationStore) (rid a : String) :
    (s.release rid).get? a = if a = rid then none else s.get? a := Dict.get?_pop s rid a

theorem get?_reapExpired (s : ReservationStore) (now : ℚ) (a : String) :
    (s.reapExpired now).get? a = (s.get? a).filter (fun r => !r.expiredAt now) := Dict.get?_keep s _ a

theorem mem_expired_iff (s : ReservationStore) (now : ℚ) (r : Reservation) :
    r ∈ expired s now ↔ (∃ rid, s.get? rid = some r) ∧ r.expiredAt now = true := by
  simp only [expired, Dict.values, List.mem_filter, List.mem_map, Prod.exists, exists_eq_right, Dict.get?_eq_some_iff]

end ReservationStore
end Broker
end DevHarness
