set_option autoImplicit false

/-!
# Completions

A ledger gives out tickets for things that will complete. Each ticket is settled at most once, and
everyone who holds it sees the same outcome.
-/

namespace LiveResource

abbrev Ticket := Nat

structure Ledger (α : Type) where
  next : Ticket
  /-- The settled tickets with their outcomes, the last one first. -/
  settled : List (Ticket × α)

namespace Ledger

variable {α : Type}

def empty : Ledger α := ⟨0, []⟩

instance : Inhabited (Ledger α) := ⟨empty⟩

def issue (l : Ledger α) : Ticket × Ledger α := (l.next, { l with next := l.next + 1 })

def outcome? (l : Ledger α) (t : Ticket) : Option α := l.settled.lookup t

def isSettled (l : Ledger α) (t : Ticket) : Bool := (l.outcome? t).isSome

/-- The first outcome counts. -/
def settle (l : Ledger α) (t : Ticket) (outcome : α) : Ledger α :=
  if l.isSettled t then l else { l with settled := (t, outcome) :: l.settled }

/-- Those whose tickets are settled, in the order in which these were settled. -/
def arrived {β : Type} (l : Ledger α) (waiting : List (β × Ticket)) : List (β × Ticket) :=
  l.settled.reverse.flatMap fun s => waiting.filter (·.2 == s.1)

def settledSince (l : Ledger α) (n : Nat) : List Ticket :=
  (l.settled.take (l.settled.length - n)).reverse.map (·.1)

end Ledger

end LiveResource
