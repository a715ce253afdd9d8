import LiveResource.Fault
import LiveResource.Ledger

set_option autoImplicit false

/-!
# Sessions on one completion

Any number of callers wait for one ticket. A caller who comes after it is settled does not wait.
-/

namespace LiveResource

inductive CompletionTurn
  | begin (label : String)
  | finish (label : String)

structure CompletionSession where
  ledger : Ledger (Outcome Unit)
  ticket : Ticket
  waiting : List String
  ready : List CompletionTurn
  done : List (String × Outcome Unit)

namespace CompletionSession

def fresh : CompletionSession :=
  let (ticket, ledger) := (Ledger.empty : Ledger (Outcome Unit)).issue
  ⟨ledger, ticket, [], [], []⟩

def outcome? (s : CompletionSession) : Option (Outcome Unit) := s.ledger.outcome? s.ticket

def settle (s : CompletionSession) (outcome : Outcome Unit) : Bool × CompletionSession :=
  if s.ledger.isSettled s.ticket then (false, s)
  else (true, { s with
    ledger := s.ledger.settle s.ticket outcome
    waiting := []
    ready := s.ready ++ s.waiting.map .finish })

def wait (s : CompletionSession) (label : String) : CompletionSession :=
  { s with ready := s.ready ++ [CompletionTurn.begin label] }

def turn (s : CompletionSession) (label : String) : CompletionSession :=
  match s.outcome? with
  | some outcome => { s with done := s.done ++ [(label, outcome)] }
  | none => { s with waiting := s.waiting ++ [label] }

def runAll (s : CompletionSession) : List CompletionTurn → CompletionSession
  | [] => s
  | .begin label :: rest => (s.turn label).runAll rest
  | .finish label :: rest => (s.turn label).runAll rest

def run (s : CompletionSession) : CompletionSession := ({ s with ready := [] }).runAll s.ready

def clear (s : CompletionSession) : CompletionSession := { s with done := [] }

end CompletionSession

end LiveResource
