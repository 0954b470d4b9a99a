import Rollcall.AccessKey
import Rollcall.Delivery.Recorder
import Rollcall.Http.Exchange
import Rollcall.Registry.Error

/-!
# Patches over HTTP

A patch is posted to its target as JSON, with the shared key attached. It has arrived when the
recipient answers 200.
-/

namespace Rollcall.Delivery

open Http (Exchange Outgoing)

def request (key : AccessKey) (d : Delivery) : Except DeliveryFault Outgoing :=
  (Http.prepare "POST" d.target (some "application/json") (some key.secret) d.patch.bytes).mapError
    fun _ => .unsendable

/-- Why a patch did not arrive, given what came back for it and how long one waits. -/
def fault? (timeout : Duration) : Exchange → Option DeliveryFault
  | .answered status _ => if status = .ok then none else some (.answered status)
  | .silent => some (.timedOut timeout)
  | .broken | .unreachable => some .unreachable

/-- Posts a patch, given what comes back for it. -/
def post (key : AccessKey) (timeout : Duration) (d : Delivery) (x : Exchange) :
    Option DeliveryFault :=
  match d.request key with
  | .error fault => some fault
  | .ok _ => fault? timeout x

def postDebug : String := "HttpDelivery \x7b .. \x7d"

end Rollcall.Delivery
