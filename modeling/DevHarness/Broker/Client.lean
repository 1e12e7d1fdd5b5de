import DevHarness.Broker.History
/-!
# Client — the messages of the client SDK and of a routed call (`broker/client.py`, `providers/broker_routed.py`)
-/
namespace DevHarness
namespace Broker

open Lib

namespace BrokerClient

def reserve (provider : ProviderId) (tokens : PyFloat) (callbackEndpoint : String) : BrokerMessage where
  op := "RESERVE"
  data := ((Dict.empty.set "provider" (.str provider.value)).set "tokens" (.float tokens)).set
    "callback_endpoint" (.str callbackEndpoint)

def commit (provider : ProviderId) (reservationId : String) (actual : PyFloat) (model : String) (usage : Usage)
    (callbackEndpoint : String) : BrokerMessage where
  op := "COMMIT"
  data := ((((((Dict.empty.set "provider" (.str provider.value)).set "reservation_id" (.str reservationId)).set
    "actual" (.float actual)).set "model" (.str model)).set "usage_in" (.int usage.inputTokens)).set
    "usage_out" (.int usage.outputTokens)).set "callback_endpoint" (.str callbackEndpoint)

def release (provider : ProviderId) (reservationId : String) : BrokerMessage where
  op := "RELEASE"
  data := (Dict.empty.set "provider" (.str provider.value)).set "reservation_id" (.str reservationId)

end BrokerClient

inductive Call where
  | returns (usage : Usage)
  | raises

/-- The messages of `BrokerRoutedClient.complete`, its reservation granted under `uuid`: a reservation of one token,
and the COMMIT of a call that returns or the RELEASE of one that raises. -/
def completeEvents (provider : ProviderId) (model uuid : String) (call : Call) (now done : ℚ) : List Event :=
  [.message (BrokerClient.reserve provider (.fin 1) "") uuid now,
    match call with
    | .returns usage => .message (BrokerClient.commit provider uuid (.fin 1) model usage "") "" done
    | .raises => .message (BrokerClient.release provider uuid) "" done]

end Broker
end DevHarness
