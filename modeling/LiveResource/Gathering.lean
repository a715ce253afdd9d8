import LiveResource.Fault
import LiveResource.Ledger
import LiveResource.Schedule

set_option autoImplicit false

/-!
# Gatherings

A gathering asks the server for several resources at a time and takes in the replies. A few parts
are looked after together: whenever one has its reply, all of them are looked at in turn. Of many
parts each is looked at when its own reply arrives.
-/

namespace LiveResource

structure Part where
  rid : String
  /-- The ticket for the reply, once the server has been asked. -/
  reply : Option Ticket
deriving DecidableEq, Repr

structure Gathering where
  /-- Whether all parts are looked at whenever one has its reply. -/
  together : Bool
  due : List Part
  asleep : List (String × Ticket)
  deferred : List Part
deriving DecidableEq, Repr

/-- How a gathering deals with the server and its replies. -/
structure Gathering.Host (σ : Type) where
  /-- Ask for a resource. The reply may be there at once. -/
  ask : σ → String → (Outcome Json ⊕ Ticket) × σ
  replies : σ → Ledger (Outcome Json)
  takeIn : σ → String → Outcome Json → σ

structure GatheringTurn (σ : Type) where
  gathering : Gathering
  session : σ
  /-- How many more replies may be waited for. -/
  allowance : Nat
  /-- How many parts have been looked at in vain since the last reply was taken in. -/
  vain : Nat
  /-- What the job asks for at the end of the turn. -/
  pause : Pause

namespace Gathering

/-- So many parts are looked after together. -/
def togetherAtMost : Nat := 30

def ofList (rids : List String) : Gathering :=
  ⟨rids.length ≤ togetherAtMost, rids.map (⟨·, none⟩), [], []⟩

def size (g : Gathering) : Nat := g.due.length + g.asleep.length + g.deferred.length

def awaits (g : Gathering) (ticket : Ticket) : Bool := g.asleep.any (·.2 == ticket)

/-- The parts whose replies have arrived are due, in the order of arrival. -/
def stir (g : Gathering) (replies : Ledger (Outcome Json)) : Gathering :=
  if g.together then g
  else { g with
    due := g.due ++ (replies.arrived g.asleep).map fun w => ⟨w.1, some w.2⟩
    asleep := g.asleep.filter fun w => !replies.isSettled w.2 }

/-- In a new round the deferred parts are due, the last one first. -/
def renew (g : Gathering) (replies : Ledger (Outcome Json)) : Gathering :=
  let g := g.stir replies
  { g with due := g.due ++ g.deferred.reverse, deferred := [] }

def rouse (g : Gathering) (replies : Ledger (Outcome Json)) : Gathering :=
  if g.together then
    { g with due := g.due ++ g.asleep.map fun w => ⟨w.1, some w.2⟩, asleep := [] }
  else g.stir replies

end Gathering

namespace GatheringTurn

variable {σ : Type}

def takeIn (t : GatheringTurn σ) (host : Gathering.Host σ) (rid : String)
    (outcome : Outcome Json) : GatheringTurn σ :=
  { t with session := host.takeIn t.session rid outcome, vain := 0 }

def look (t : GatheringTurn σ) (host : Gathering.Host σ) (rid : String) (ticket : Ticket) :
    GatheringTurn σ :=
  match t.allowance with
  | 0 => { t with
      gathering := { t.gathering with deferred := t.gathering.deferred ++ [⟨rid, some ticket⟩] }
      vain := t.vain + 1
      pause := { t.pause with later := true } }
  | left + 1 =>
    match (host.replies t.session).outcome? ticket with
    | some outcome => { t with allowance := left }.takeIn host rid outcome
    | none => { t with
        gathering := { t.gathering with asleep := t.gathering.asleep ++ [(rid, ticket)] }
        vain := t.vain + 1 }

/-- To ask for one part may give others their replies. The job hears of that. -/
def hear (t : GatheringTurn σ) (host : Gathering.Host σ) : GatheringTurn σ :=
  let replies := host.replies t.session
  if t.gathering.asleep.any fun w => replies.isSettled w.2 then
    { t with gathering := t.gathering.stir replies, pause := { t.pause with again := true } }
  else t

/-- Look at a part. The server is asked for it if it has not been. -/
def lookAt (t : GatheringTurn σ) (host : Gathering.Host σ) (part : Part) : GatheringTurn σ :=
  match part.reply with
  | some ticket => t.look host part.rid ticket
  | none =>
    match host.ask t.session part.rid with
    | (.inl outcome, session) =>
      ({ t with session := session }.hear host).takeIn host part.rid outcome
    | (.inr ticket, session) => ({ t with session := session }.hear host).look host part.rid ticket

/-- Whether every part there is has been looked at in vain. -/
def isVain (t : GatheringTurn σ) : Bool :=
  !t.gathering.together && 0 < t.vain && t.vain = t.gathering.size

/-- Look at the parts that are due, at most so many times. A job whose parts have all been looked at
    in vain has another turn. -/
def run (t : GatheringTurn σ) (host : Gathering.Host σ) : Nat → GatheringTurn σ
  | 0 => t
  | fuel + 1 =>
    match t.gathering.due with
    | [] => t
    | part :: due =>
      let t := { t with gathering := { t.gathering with due := due } }.lookAt host part
      if t.isVain then { t with pause := { t.pause with again := true } } else t.run host fuel

end GatheringTurn

/-- Go on with a gathering for one turn. A part is looked at once, and once more if its reply comes
    in the meantime. -/
def Gathering.run {σ : Type} (g : Gathering) (host : Gathering.Host σ) (session : σ)
    (allowance : Nat) : GatheringTurn σ :=
  let g := g.rouse (host.replies session)
  (GatheringTurn.mk g session allowance 0 .untilWoken).run host (2 * g.size)

end LiveResource
