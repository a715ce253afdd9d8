import LiveResource.CacheError
import LiveResource.Message
import LiveResource.Replica

set_option autoImplicit false

/-!
# What an application is told

A resource event is a change of a cached resource, pushed by the server or found out while bringing
a stale replica up to date. The channel carries these events together with the connection's state
and all errors.
-/

namespace LiveResource

inductive ResourceEvent
  | change (rid : String) (change : Change)
  | add (rid : String) (index : Nat) (value : Value)
  | remove (rid : String) (index : Nat) (value : Value)
  | unsubscribe (rid : String) (reason : Fault)
  | custom (rid name : String) (data : Option Json)

namespace ResourceEvent

def rid : ResourceEvent → String
  | change rid _ => rid
  | add rid _ _ => rid
  | remove rid _ _ => rid
  | unsubscribe rid _ => rid
  | custom rid _ _ => rid

def name : ResourceEvent → String
  | change _ _ => "change"
  | add _ _ _ => "add"
  | remove _ _ _ => "remove"
  | unsubscribe _ _ => "unsubscribe"
  | custom _ name _ => name

end ResourceEvent

inductive Notice
  | connected
  | disconnected
  | resource (event : ResourceEvent)
  | cacheError (error : CacheError)
  | protocolError (error : ProtocolError)

end LiveResource
