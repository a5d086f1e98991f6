import RiscvPipeline.Csr.Arbiter
import RiscvPipeline.Csr.File
import RiscvPipeline.Debug.Port
import RiscvPipeline.Execute.Stage
import RiscvPipeline.Memory.Access
import RiscvPipeline.Memory.Data
import RiscvPipeline.Proofs.Runs
import RiscvPipeline.Trap
import RiscvPipeline.Units.Latency

/-!
# Evaluations in place

A circuit is evaluated many times in a cycle, until its signals settle. Hardware models do this in
place: the next state is assigned field by field in a copy that the evaluation before has left
behind, and what is to happen at the clock edge is noted beside it. An evaluation leaves no trace if
it takes back all of that in every case, whichever of its assignments are reached.

Here the components are evaluated in that way, on a bench that any evaluation may change as it
likes. Each evaluation drives what the component drives and leaves what it proposes, whatever was
there before (`Execute.comb_run` and so on), so none of them leaves a trace
(`evaluations_traceless`).
-/

namespace RiscvPipeline

namespace Clocked

variable {σ ι ο π : Type}

/-! ## Components that are evaluated in place -/

namespace Bench

/-- Starts an evaluation: the next state is made a copy of the state. -/
def begin (copy : σ → π) : StateM (Bench σ π) σ := do
  modify fun b => { b with pending := copy b.state }
  return (← get).state

/-- Changes what is proposed so far. -/
def revise (f : π → π) : StateM (Bench σ π) PUnit :=
  modify fun b => { b with pending := f b.pending }

/-! How the steps of an evaluation act on a component. -/

section

variable {α β : Type} (b : Bench σ π)

theorem run_pure (a : α) : (pure a : StateM (Bench σ π) α).run b = (a, b) := rfl

theorem run_get (f : Bench σ π → StateM (Bench σ π) α) : (get >>= f).run b = (f b).run b := rfl

theorem run_begin (copy : σ → π) (f : σ → StateM (Bench σ π) α) :
    (begin copy >>= f).run b = (f b.state).run ⟨b.state, copy b.state⟩ := rfl

theorem run_revise (f : π → π) (g : PUnit → StateM (Bench σ π) α) :
    (revise f >>= g).run b = (g ⟨⟩).run ⟨b.state, f b.pending⟩ := rfl

theorem run_bind (x : StateM (Bench σ π) α) (f : α → StateM (Bench σ π) β) :
    (x >>= f).run b = (f (x.run b).1).run (x.run b).2 := rfl

theorem run_ite (c : Prop) [Decidable c] (x y : StateM (Bench σ π) α) :
    (if c then x else y).run b = if c then x.run b else y.run b := by
  split <;> rfl

end

end Bench

variable (m : Clocked σ ι ο π) (comb : ι → StateM (Bench σ π) ο)

/-- The component after some evaluations. -/
def evaluated (b : Bench σ π) (is : List ι) : Bench σ π :=
  is.foldl (fun b i => ((comb i).run b).2) b

/-- The outputs that are seen while this and that is done to the component. -/
def observed (b : Bench σ π) : List (Event ι) → List ο
  | [] => []
  | .evaluate i :: es => ((comb i).run b).1 :: observed ((comb i).run b).2 es
  | .clock reset :: es => observed (m.clock reset b) es
  | .reset :: es => observed (m.resetNow b) es

/-- Whatever state the component is in and whatever earlier evaluations have left, an evaluation
drives what the component drives and leaves what it proposes. Evaluations that come before another
one make no difference: not to its outputs, not to the component after the next clock edge, and not
to anything that is seen of the component later. -/
structure Traceless : Prop where
  comb_run : ∀ b i, (comb i).run b = (m.output b.state i, m.evaluate b i)
  output : ∀ b is i, ((comb i).run (evaluated comb b is)).1 = ((comb i).run b).1
  clock : ∀ b is i reset,
    m.clock reset (evaluated comb b (is ++ [i])) = m.clock reset (evaluated comb b [i])
  later : ∀ b is i reset es,
    m.observed comb (m.clock reset (evaluated comb b (is ++ [i]))) es =
      m.observed comb (m.clock reset (evaluated comb b [i])) es

section

variable {m comb} (h : ∀ b i, (comb i).run b = (m.output b.state i, m.evaluate b i))
include h

theorem state_evaluated (b : Bench σ π) (is : List ι) : (evaluated comb b is).state = b.state := by
  induction is generalizing b with
  | nil => rfl
  | cons i is ih =>
    refine (ih _).trans ?_
    show ((comb i).run b).2.state = b.state
    rw [h]
    rfl

/-- The clock edge takes over what the last evaluation proposes. -/
theorem clock_evaluated (b : Bench σ π) (is : List ι) (i : ι) (reset : Bool) :
    m.clock reset (evaluated comb b (is ++ [i])) = m.start (m.next reset b.state i) := by
  rw [evaluated, List.foldl_append]
  show m.clock reset ((comb i).run (evaluated comb b is)).2 = _
  rw [h, m.clock_evaluate, state_evaluated h]

theorem Traceless.of_comb_run : m.Traceless comb := by
  have hclock (b : Bench σ π) (is : List ι) (i : ι) (reset : Bool) :
      m.clock reset (evaluated comb b (is ++ [i])) = m.clock reset (evaluated comb b [i]) :=
    (clock_evaluated h b is i reset).trans (clock_evaluated h b [] i reset).symm
  constructor
  case comb_run => exact h
  case output =>
    intro b is i
    rw [h, h, state_evaluated h]
  case clock => exact hclock
  case later =>
    intro b is i reset es
    rw [hclock]

end

end Clocked

open Clocked Clocked.Bench

/-! ## The execute stage -/

namespace Execute

/-- The stage works on copies of its own and stores the next state at the end. -/
def comb (i : Input) : StateM (Bench Execute State) Output := do
  let s := (← get).state
  let c := s.step i
  revise fun _ => s.state
  revise fun _ => c.next
  return c.out

theorem comb_run (b : Bench Execute State) (i : Input) :
    (comb i).run b = (clocked.output b.state i, clocked.evaluate b i) := rfl

end Execute

/-! ## The memory-access stage -/

namespace MemoryAccess

/-- Moves the head of the queue onto the bus. -/
def issueNext (r : MemoryAccess) (i : Input) (o : Output) :
    StateM (Bench MemoryAccess MemoryAccess) Output := do
  if r.queue.isEmpty then
    revise fun v => { v with phase := .idle }
    return o
  match (← get).pending.queue.pop? with
  | none => return o
  | some (head, rest) =>
    revise fun v => { v with queue := rest }
    revise fun v => { v with current := head }
    revise fun v => { v with phase := if i.bus.ready then .waiting else .requesting }
    return { o with bus := request head o.bus.ready }

/-- What happens on the bus and at the register file. -/
def proceed (r : MemoryAccess) (i : Input) (o : Output) :
    StateM (Bench MemoryAccess MemoryAccess) Output := do
  match r.phase with
  | .idle => issueNext r i o
  | .requesting =>
    if i.bus.ready then revise fun v => { v with phase := .waiting }
    return { o with bus := request r.current false }
  | .waiting =>
    let o := { o with bus.ready := true }
    if i.bus.valid then
      let o := r.report i o
      if r.loads i then
        let data := r.current.loaded i.bus.data
        let o := { o with write := writeBack r.current data }
        if i.writeReady then issueNext r i o
        else
          revise fun v => { v with held := data }
          revise fun v => { v with phase := .holding }
          return o
      else issueNext r i o
    else return o
  | .holding =>
    if i.flush then issueNext r i o
    else
      let o := { o with write := writeBack r.current r.held }
      if i.writeReady then issueNext r i o else return o

def comb (i : Input) : StateM (Bench MemoryAccess MemoryAccess) Output := do
  let r ← begin id
  let o ← proceed r i { ready := !r.queue.isFull }
  if let some m := i.op then
    if !r.queue.isFull then
      revise fun v => { v with queue := (v.queue.push? (.ofMemoryOp m)).getD v.queue }
  if i.flush then
    revise fun v => { v with queue := v.queue.flush }
    revise fun v => { v with current.flushed := true }
  return o

variable (b : Bench MemoryAccess MemoryAccess) (i : Input) (o : Output)

theorem issueNext_run (hb : b.pending = b.state) : (issueNext b.state i o).run b =
    ((b.state.issue i o).2, { b with pending := (b.state.issue i o).1 }) := by
  obtain ⟨r, v⟩ := b
  obtain rfl : v = r := hb
  cases hq : v.queue.isEmpty <;>
    simp only [issueNext, issue, MemoryQueue.pop?, hq, if_true, if_false, Bool.false_eq_true,
      run_get, run_revise, run_pure]

theorem proceed_run (hb : b.pending = b.state) : (proceed b.state i o).run b =
    ((b.state.advance i o).2, { b with pending := (b.state.advance i o).1 }) := by
  have hissue (o : Output) := issueNext_run b i o hb
  obtain ⟨r, v⟩ := b
  obtain rfl : v = r := hb
  unfold proceed advance answered
  cases hp : v.phase with
  | idle => exact hissue o
  | requesting =>
    cases i.bus.ready with
    | false =>
      simp only [if_false, Bool.false_eq_true, run_pure]
      rw [← hp]
    | true => simp only [if_true, run_revise, run_pure]
  | waiting =>
    cases i.bus.valid with
    | false => simp only [if_false, Bool.false_eq_true, run_pure]
    | true =>
      cases v.loads i with
      | false => simp only [if_true, if_false, Bool.false_eq_true, hissue]
      | true =>
        cases i.writeReady <;>
          simp only [if_true, if_false, Bool.false_eq_true, hissue, run_revise, run_pure]
  | holding =>
    cases i.flush <;> cases i.writeReady <;>
      simp only [if_true, if_false, Bool.false_eq_true, hissue, run_pure]

theorem comb_run : (comb i).run b = (clocked.output b.state i, clocked.evaluate b i) := by
  have hproceed := proceed_run ⟨b.state, b.state⟩ i { ready := !b.state.queue.isFull } rfl
  simp only [comb, run_begin]
  rw [id_eq, run_bind, hproceed]
  simp only [clocked, evaluate, step]
  cases i.op <;> cases b.state.queue.isFull <;> cases i.flush <;> rfl

end MemoryAccess

/-! ## Functional units -/

namespace LatencyUnit

def comb (q : UnitRequest) : StateM (Bench LatencyUnit State) UnitResponse := do
  let u ← begin (·.state)
  revise fun v => { v with valid := false }
  if u.state.busy then
    if u.state.remaining ≤ 1 then
      revise fun v => { v with busy := false }
      revise fun v => { v with valid := true }
    else revise fun v => { v with remaining := u.state.remaining - 1 }
  else if q.enable then
    if let some o := q.opcode then
      let (result, flags) := u.slot.evaluate o q.a q.b
      revise fun v => { v with result }
      revise fun v => { v with flags }
      if u.latency = 1 then revise fun v => { v with valid := true }
      else
        revise fun v => { v with busy := true }
        revise fun v => { v with remaining := u.latency - 1 }
  return u.response

theorem comb_run (b : Bench LatencyUnit State) (q : UnitRequest) :
    (comb q).run b = (clocked.output b.state q, clocked.evaluate b q) := by
  simp only [comb, clocked, evaluate, propose, run_begin, run_revise, run_pure, run_ite]
  cases hb : b.state.state.busy with
  | true =>
    by_cases hr : b.state.state.remaining ≤ 1 <;> simp only [hr, if_true, if_false]
  | false =>
    cases q.enable with
    | false => rfl
    | true =>
      cases q.opcode with
      | none => rfl
      | some o =>
        by_cases hl : b.state.latency = 1 <;>
          simp only [start, hb, hl, Bool.false_eq_true, if_true, if_false, run_revise, run_pure]

end LatencyUnit

/-! ## The bus to the control and status registers -/

namespace CsrArbiter

def comb (i : Input) : StateM (Bench CsrArbiter Registers) Output := do
  let s ← begin (·.registers)
  let owner := s.owner i
  if !s.registers.acquired && (i.request owner).valid then
    revise fun v => { v with acquired := true }
    revise fun v => { v with owner }
  if i.slave.valid && (i.request owner).ready then
    revise fun v => { v with acquired := false }
  return s.output i

theorem comb_run (b : Bench CsrArbiter Registers) (i : Input) :
    (comb i).run b = (clocked.output b.state i, clocked.evaluate b i) := by
  obtain ⟨⟨⟨acquired, last⟩, executeGrants, debugGrants⟩, v⟩ := b
  simp only [comb, clocked, evaluate, propose, run_begin, run_revise, run_pure, run_ite]
  generalize CsrArbiter.owner _ i = owner
  cases acquired <;> cases (i.request owner).valid <;>
    cases i.slave.valid && (i.request owner).ready <;> rfl

end CsrArbiter

namespace CsrFile

open CsrRegister

/-- Notes a write for the clock edge. -/
def note (a : CsrAddress) (v : Word) : StateM (Bench CsrFile Proposal) PUnit :=
  revise fun p => { p with writes := p.writes ++ [⟨a, v⟩] }

/-- Carries a command out: answers whether it is rejected and with what, and whether the core is
halted from then on. The writes are noted. -/
def carryOut (q : CsrRequest) : StateM (Bench CsrFile Proposal) (Word × Bool × Bool) := do
  let f := (← get).state
  let has := q.command.contains
  if has .read || has .write then
    match f.read? q.addr with
    | none => return (0, true, f.halted)
    | some old =>
      if has .write then
        if q.addr.isReadOnly then return (0, true, f.halted)
        note q.addr q.data
      return (old, false, f.halted)
  else if has .trapReturn then
    match f.read? q.addr with
    | none => return (0, true, f.halted)
    | some epc => return (epc, false, f.halted)
  else if has .exception || has .interrupt then
    let cause := q.addr.setWidth 64 ||| (if has .interrupt then interruptBit else 0)
    note mepc.addr q.data
    note mcause.addr cause
    return (f.trapVector, false, f.halted)
  else if has .breakpoint then
    note dpc.addr q.data
    return (0, false, true)
  else if has .halt then return (0, false, true)
  else if has .resume then return (0, false, false)
  else return (0, !has .wfi, f.halted)

def comb (q : CsrRequest) : StateM (Bench CsrFile Proposal) CsrResponse := do
  let f := (← get).state
  revise fun p => { p with writes := [] }
  let v ← match f.control.phase with
    | .idle =>
      if q.valid then
        let (data, exception, halted) ← carryOut q
        pure { phase := if f.latency ≤ 1 then .responding else .busy (f.latency - 1)
               data, exception, halted }
      else pure f.control
    | .busy n => pure { f.control with phase := if n ≤ 1 then .responding else .busy (n - 1) }
    | .responding =>
      if q.ready then pure { f.control with phase := .idle } else pure f.control
  revise fun p => { p with control := f.control }
  revise fun p => { p with control := v }
  return f.output q

theorem carryOut_run (b : Bench CsrFile Proposal) (q : CsrRequest) (hb : b.pending.writes = []) :
    let e := b.state.execute q
    (carryOut q).run b = ((e.data, e.exception, e.halted),
      { b with pending := { b.pending with writes := e.writes } }) := by
  obtain ⟨f, control, writes⟩ := b
  obtain rfl : writes = [] := hb
  simp only [carryOut, execute, run_get]
  generalize q.command.contains = has
  cases has .read || has .write with
  | true =>
    cases f.read? q.addr with
    | none => rfl
    | some old =>
      cases has .write with
      | false => rfl
      | true => cases q.addr.isReadOnly <;> rfl
  | false =>
    cases has .trapReturn with
    | true => cases f.read? q.addr <;> rfl
    | false =>
      cases has .exception || has .interrupt with
      | true => rfl
      | false => cases has .breakpoint <;> cases has .halt <;> cases has .resume <;> rfl

theorem comb_run (b : Bench CsrFile Proposal) (q : CsrRequest) :
    (comb q).run b = (clocked.output b.state q, clocked.evaluate b q) := by
  simp only [comb, clocked, evaluate, propose, run_get, run_revise]
  cases b.state.control.phase with
  | idle =>
    cases q.valid with
    | false => rfl
    | true =>
      simp only [if_true]
      rw [run_bind, run_bind, carryOut_run ⟨b.state, _, []⟩ q rfl]
      rfl
  | busy n => rfl
  | responding => cases q.ready <;> rfl

end CsrFile

/-! ## The data memory -/

namespace DataMemory

def comb (q : MemoryRequest) : StateM (Bench DataMemory Proposal) MemoryResponse := do
  let m := (← get).state
  revise fun p => { p with accepted := none }
  let next := { m.registers with tick := m.registers.tick + 1 }
  let v ← match m.registers.phase with
    | .idle =>
      if q.valid && m.ready then
        revise fun p => { p with accepted := some q }
        pure { next with response := m.respond q }
      else pure next
    | .busy n => pure { next with phase := if n ≤ 1 then .responding else .busy (n - 1) }
    | .responding => if q.ready then pure { next with phase := .idle } else pure next
  revise fun p => { p with registers := m.registers }
  revise fun p => { p with registers := v }
  return m.output q

theorem comb_run (b : Bench DataMemory Proposal) (q : MemoryRequest) :
    (comb q).run b = (clocked.output b.state q, clocked.evaluate b q) := by
  simp only [comb, clocked, evaluate, propose, run_get, run_revise]
  cases b.state.registers.phase with
  | idle => cases q.valid && b.state.ready <;> rfl
  | busy n => rfl
  | responding => cases q.ready <;> rfl

end DataMemory

/-! ## The trap controller -/

namespace TrapController

def comb (i : Input) : StateM (Bench TrapController (Option Trap)) Output := do
  let s ← begin (·.pending)
  match s.pending with
  | some t =>
    if i.ready then
      revise fun _ => none
      return { redirect := some i.vector
               taken := some (if t.isInterrupt then { t with epc := i.npc } else t) }
    return { redirect := some i.vector }
  | none =>
    revise fun _ => prioritize i
    return {}

theorem comb_run (b : Bench TrapController (Option Trap)) (i : Input) :
    (comb i).run b = (clocked.output b.state i, clocked.evaluate b i) := by
  simp only [comb, clocked, evaluate, propose, output, run_begin]
  cases b.state.pending with
  | none => rfl
  | some t => cases i.ready <;> rfl

end TrapController

/-! ## The debug port -/

namespace DebugPort

def comb (i : Input) : StateM (Bench DebugPort DebugPort) Output := do
  let r ← begin id
  match r.phase with
  | .idle =>
    if let some q := i.request then
      revise fun v => { v with request := q }
      revise fun v => { v with data := 0 }
      revise fun v => { v with error := false }
      match route? q with
      | some p => revise fun v => { v with phase := p }
      | none =>
        revise fun v => { v with error := true }
        revise fun v => { v with phase := .responding }
    return { ready := true }
  | .csrRequest =>
    if i.csr.ready then revise fun v => { v with phase := .csrResponse }
    return { csr := busRequest r.request }
  | .csrResponse =>
    if i.csr.valid then
      revise fun v => { v with data := i.csr.data }
      revise fun v => { v with error := i.csr.exception }
      revise fun v => { v with phase := .responding }
    return { csr.ready := true }
  | .access =>
    match r.request.region with
    | .registers =>
      if !r.request.write then
        revise fun v => { v with data := i.readData }
        revise fun v => { v with phase := .responding }
        return { readIndex := register r.request }
      else if i.writeReady then
        revise fun v => { v with phase := .responding }
        return { readIndex := register r.request
                 registerWrite := some ⟨register r.request, r.request.wdata⟩ }
      else return { readIndex := register r.request }
    | .control =>
      if r.request.addr = nextPc then
        if !r.request.write then revise fun v => { v with data := i.npc }
        revise fun v => { v with phase := .responding }
        return { npcWrite := if r.request.write then some r.request.wdata else none }
      else
        revise fun v => { v with data := .ofBool i.halted }
        revise fun v => { v with phase := .responding }
        return {}
    | .csr =>
      revise fun v => { v with data := .ofBool i.halted }
      revise fun v => { v with phase := .responding }
      return {}
  | .responding =>
    if i.ready then revise fun v => { v with phase := .idle }
    return { valid := true, data := r.data, error := r.error }

theorem comb_run (b : Bench DebugPort DebugPort) (i : Input) :
    (comb i).run b = (clocked.output b.state i, clocked.evaluate b i) := by
  simp only [comb, clocked, evaluate, propose, output, run_begin, id_eq]
  cases hp : b.state.phase with
  | idle =>
    cases i.request with
    | none => rfl
    | some q => cases hq : route? q <;> simp only [accept, hq, run_revise, run_pure]
  | csrRequest => cases i.csr.ready <;> rfl
  | csrResponse => cases i.csr.valid <;> rfl
  | access =>
    simp only [access]
    cases b.state.request.region with
    | registers => cases b.state.request.write <;> cases i.writeReady <;> rfl
    | control =>
      by_cases ha : b.state.request.addr = nextPc
      · simp only [ha, if_true, true_and]
        cases b.state.request.write <;> rfl
      · simp only [ha, if_false, false_and, and_false]
        rfl
    | csr => rfl
  | responding => cases i.ready <;> rfl

end DebugPort

/-! ## All components -/

/-- The components are evaluated as often as it takes for the signals to settle. Only the last
evaluation before a clock edge counts. -/
theorem evaluations_traceless :
    Execute.clocked.Traceless Execute.comb ∧ MemoryAccess.clocked.Traceless MemoryAccess.comb ∧
      LatencyUnit.clocked.Traceless LatencyUnit.comb ∧
      CsrArbiter.clocked.Traceless CsrArbiter.comb ∧ CsrFile.clocked.Traceless CsrFile.comb ∧
      DataMemory.clocked.Traceless DataMemory.comb ∧
      TrapController.clocked.Traceless TrapController.comb ∧
      DebugPort.clocked.Traceless DebugPort.comb :=
  ⟨.of_comb_run Execute.comb_run, .of_comb_run MemoryAccess.comb_run,
    .of_comb_run LatencyUnit.comb_run, .of_comb_run CsrArbiter.comb_run,
    .of_comb_run CsrFile.comb_run, .of_comb_run DataMemory.comb_run,
    .of_comb_run TrapController.comb_run, .of_comb_run DebugPort.comb_run⟩

end RiscvPipeline
