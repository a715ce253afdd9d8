set_option autoImplicit false

/-!
# Channels

A pipe carries whole texts in one direction, in order and without bound. A channel is a pair of
connected ends: what one end sends the other receives.
-/

namespace LiveResource

structure Pipe where
  items : List String
  senderOpen : Bool
  receiverOpen : Bool
deriving DecidableEq, Repr

inductive Received
  | text (text : String)
  | empty
  | disconnected
deriving DecidableEq, Repr

namespace Pipe

def fresh : Pipe := ⟨[], true, true⟩

instance : Inhabited Pipe := ⟨fresh⟩

def send (p : Pipe) (text : String) : Bool × Pipe :=
  if p.senderOpen && p.receiverOpen then (true, { p with items := p.items ++ [text] })
  else (false, p)

/-- What was sent is received even after the sender has gone. -/
def receive (p : Pipe) : Received × Pipe :=
  match p.items with
  | text :: items => (.text text, { p with items := items })
  | [] => (if p.senderOpen then .empty else .disconnected, p)

def closeSender (p : Pipe) : Pipe := { p with senderOpen := false }

def closeReceiver (p : Pipe) : Pipe := { p with items := [], receiverOpen := false }

def drain (p : Pipe) : List String × Pipe := (p.items, { p with items := [] })

def take (p : Pipe) (n : Nat) : List String × Pipe :=
  (p.items.take n, { p with items := p.items.drop n })

end Pipe

inductive End
  | near
  | far
deriving DecidableEq, Repr

structure Channel where
  /-- From the near end to the far end. -/
  forth : Pipe
  back : Pipe
deriving DecidableEq, Repr

namespace Channel

def fresh : Channel := ⟨.fresh, .fresh⟩

def isOpen (c : Channel) : End → Bool
  | .near => c.forth.senderOpen
  | .far => c.back.senderOpen

def send (c : Channel) (e : End) (text : String) : Bool × Channel :=
  match e with
  | .near =>
    let (sent, forth) := c.forth.send text
    (sent, { c with forth := forth })
  | .far =>
    let (sent, back) := c.back.send text
    (sent, { c with back := back })

def receive (c : Channel) (e : End) : Received × Channel :=
  match e with
  | .near =>
    let (received, back) := c.back.receive
    (received, { c with back := back })
  | .far =>
    let (received, forth) := c.forth.receive
    (received, { c with forth := forth })

def drop (c : Channel) : End → Channel
  | .near => ⟨c.forth.closeSender, c.back.closeReceiver⟩
  | .far => ⟨c.forth.closeReceiver, c.back.closeSender⟩

end Channel

end LiveResource
