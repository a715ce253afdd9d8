set_option autoImplicit false

/-!
# Schedules

Jobs take turns: a job runs until it has to wait, and jobs that can go on are served first come
first served. During one turn a job may take in only so much of what it waited for; then it yields,
and queues up again when the round is over.
-/

namespace LiveResource

/-- Who has a turn next. Jobs are known by number. -/
structure Schedule where
  /-- The jobs that can go on, first come first served. -/
  ready : List Nat
  /-- The jobs that have yielded in this round, the last one first. -/
  yielded : List Nat
  /-- How many turns of this round have been taken. -/
  turns : Nat
deriving DecidableEq, Repr

/-- What a job asks for when it has to wait. -/
structure Pause where
  /-- Another turn, behind those who are queued. -/
  again : Bool
  /-- Another turn in the next round. -/
  later : Bool
deriving DecidableEq, Repr

def Pause.untilWoken : Pause := ⟨false, false⟩

def Pause.untilNextRound : Pause := ⟨false, true⟩

inductive Next
  | rest
  | round
  | turn (job : Nat) (after : Schedule)

namespace Schedule

/-- So much of what it waited for a job may take in during one turn. -/
def allowance : Nat := 128

/-- So many turns make a round. It is over earlier when nobody else is queued. -/
def round : Nat := 61

def idle : Schedule := ⟨[], [], 0⟩

instance : Inhabited Schedule := ⟨idle⟩

/-- Queue a job up, unless it is queued. -/
def add (s : Schedule) (job : Nat) : Schedule :=
  if s.ready.contains job then s else { s with ready := s.ready ++ [job] }

def addAll (s : Schedule) (jobs : List Nat) : Schedule := jobs.foldl add s

def pause (s : Schedule) (job : Nat) (p : Pause) : Schedule :=
  let s := if p.again then s.add job else s
  if p.later then { s with yielded := job :: s.yielded } else s

/-- A job that has ended takes no more turns. -/
def drop (s : Schedule) (job : Nat) : Schedule :=
  { s with ready := s.ready.filter (· != job), yielded := s.yielded.filter (· != job) }

/-- Begin a new round. Those who have yielded queue up, the last one first. -/
def renew (s : Schedule) : Schedule := (⟨s.ready, [], 0⟩ : Schedule).addAll s.yielded

def next (s : Schedule) : Next :=
  match s.ready with
  | [] => if s.yielded.isEmpty then .rest else .round
  | job :: ready =>
    if s.turns < round then .turn job { s with ready := ready, turns := s.turns + 1 } else .round

end Schedule

end LiveResource
