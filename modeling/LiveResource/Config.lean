set_option autoImplicit false

/-!
# Configuration of a client
-/

namespace LiveResource

structure Config where
  url : String := "ws://127.0.0.1:8080"
  /-- Announced in the version handshake. -/
  protocolVersion : String := "1.2.1"
  autoReconnect : Bool := true
  /-- The delay between two attempts to reconnect, in milliseconds. -/
  reconnectDelay : Nat := 3000
deriving DecidableEq, Repr

namespace Config

def default : Config := {}

instance : Inhabited Config := ⟨default⟩

def forUrl (url : String) : Config := { default with url := url }

def delayParts (c : Config) : Nat × Nat :=
  (c.reconnectDelay / 1000, c.reconnectDelay % 1000 * 1000000)

end Config

end LiveResource
