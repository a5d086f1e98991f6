import RiscvPipeline.Machine.Step

/-! Runs of the machine over many cycles. A failure ends a run where it happens, and the machine is
left as it was before the cycle that failed. -/

namespace RiscvPipeline

/-- Why a run ended. -/
inductive StopReason
  /-- The program has been left and nothing is in flight. -/
  | finished
  | cycleLimit
  deriving DecidableEq

def StopReason.name : StopReason → String
  | finished => "Finished"
  | cycleLimit => "CycleLimit"

namespace Machine

/-- So many cycles, whatever happens. -/
def ticks : Nat → Machine → Machine × Except SimError Unit
  | 0, m => (m, .ok ())
  | n + 1, m =>
    match m.tick with
    | .ok next => ticks n next
    | .error e => (m, .error e)

/-- Runs until the program is finished, for at most `limit` cycles. -/
def run : Nat → Machine → Machine × Except SimError StopReason
  | 0, m => (m, .ok (if m.isFinished then .finished else .cycleLimit))
  | limit + 1, m =>
    if m.isFinished then (m, .ok .finished)
    else
      match m.tick with
      | .ok next => run limit next
      | .error e => (m, .error e)

/-- The cycles a debug access may take. -/
def debugTimeout : Nat := 1000

/-- Waits at most `fuel` cycles for the answer to a debug access. -/
def awaitDebug (q : DebugRequest) : Nat → Machine → Machine × Except SimError Word
  | 0, m => ({ m with request := none }, .error (.timeout "debug access" debugTimeout))
  | fuel + 1, m =>
    match m.tick with
    | .error e => (m, .error e)
    | .ok next =>
      match next.response with
      | none => awaitDebug q fuel next
      | some r =>
        ({ next with response := none },
          if r.error then .error (.debugRejected q) else .ok r.data)

/-- Carries out a debug access, with the machine running, and returns what was read. An access that
is not answered in time is withdrawn. -/
def debugAccess (q : DebugRequest) (m : Machine) : Machine × Except SimError Word :=
  awaitDebug q debugTimeout { m with request := some q, response := none }

end Machine

end RiscvPipeline
