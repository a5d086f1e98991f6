import RiscvPipeline.Proofs.Execute.Transaction
import RiscvPipeline.Registers

/-! Instructions that read, modify and write a control and status register: the commands that they
are to send, and the way in which the execute stage goes through them while no trap comes. -/

namespace RiscvPipeline

namespace DecodedInstruction

variable (d : DecodedInstruction)

/-- The register that is accessed. -/
def csrAddress : CsrAddress := (Fields.csr d.word).setWidth 16

/-- A swap into register 0 does not read. -/
def readsCsr : Bool := !((d.opcode == .csrrw || d.opcode == .csrrwi) && Fields.rd d.word == 0)

/-- Setting or clearing does not write if the operand field is 0. -/
def writesCsr : Bool := d.opcode == .csrrw || d.opcode == .csrrwi || Fields.rs1 d.word != 0

/-- A register or the operand field itself. -/
def csrOperand (r : Registers) : Word :=
  if d.opcode.traits.readsRs1 then r.read d.source1 else (Fields.rs1 d.word).setWidth 64

/-- What the register is to become. -/
def csrResult (old operand : Word) : Word :=
  match d.opcode with
  | .csrrs | .csrrsi => old ||| operand
  | .csrrc | .csrrci => old &&& ~~~ operand
  | _ => operand

def readRequest : CsrRequest := { valid := true, command := .read, addr := d.csrAddress }

def writeRequest (v : Word) : CsrRequest :=
  { valid := true, command := .write, addr := d.csrAddress, data := v }

/-- The commands of the instruction, if the register holds `old`. -/
def csrCommands (operand old : Word) : List CsrRequest :=
  (if d.readsCsr then [d.readRequest] else []) ++
    if d.writesCsr then [d.writeRequest (d.csrResult old operand)] else []

/-- The first of them does not depend on what the register holds. -/
def firstRequest (operand : Word) : CsrRequest :=
  if d.readsCsr then d.readRequest else d.writeRequest operand

variable {d}

/-- An instruction that does not read swaps, and has no use for the old value. -/
theorem of_not_reads (h : d.readsCsr = false) (operand old : Word) :
    d.csrResult old operand = operand ∧ d.csrCommands operand old = [d.writeRequest operand] := by
  have hs : d.opcode = .csrrw ∨ d.opcode = .csrrwi := by
    simp only [readsCsr, Bool.not_eq_false', Bool.and_eq_true, Bool.or_eq_true, beq_iff_eq] at h
    exact h.1
  have hw : d.writesCsr = true := by rcases hs with hs | hs <;> simp [writesCsr, hs]
  have hr : d.csrResult old operand = operand := by
    unfold csrResult
    rcases hs with hs | hs <;> rw [hs]
  exact ⟨hr, by simp [csrCommands, h, hw, hr]⟩

theorem firstRequest_of_reads (h : d.readsCsr = true) (operand : Word) :
    d.firstRequest operand = d.readRequest := by
  rw [firstRequest, h, if_pos rfl]

theorem firstRequest_of_not_reads (h : d.readsCsr = false) (operand old : Word) :
    d.firstRequest operand = d.writeRequest (d.csrResult old operand) := by
  rw [firstRequest, h, (of_not_reads h operand old).1]
  rfl

theorem traits_of_csr (h : d.opcode.cls = .csr) :
    d.opcode.traits.fpRs1 = false ∧ d.opcode.traits.fpRd = false := by
  revert h
  cases d.opcode <;> decide

theorem target_of_not_reads (h : d.readsCsr = false) (hd : d.opcode.cls = .csr) :
    d.target = 0 := by
  have hrd : Fields.rd d.word = 0 := by
    simp only [readsCsr, Bool.not_eq_false', Bool.and_eq_true, beq_iff_eq] at h
    exact h.2
  unfold target
  rw [hrd, (traits_of_csr hd).2]
  split <;> rfl

end DecodedInstruction

namespace Execute

/-- The cycle accepts nothing, writes nothing and raises no floating-point flags. -/
structure Cycle.Silent (c : Cycle) : Prop where
  valid : c.out.valid = false
  write : c.out.write.enable = false
  fpu : c.out.exceptions.fpu.isEmpty = true

/-- The stage is at work on an access, and has come to a request. -/
structure State.Accessing (d : DecodedInstruction) (operand : Word) (pending : Bool) (p : CsrPhase)
    (q : CsrRequest) (s : State) : Prop where
  phase : s.phase = .single
  opcode : s.current.opcode = some d.opcode
  target : s.current.target = d.target
  operand : s.current.operand = operand
  pending : s.current.writePending = pending
  transaction : s.csr = { phase := p, command := q.command, addr := q.addr, data := q.data }

/-- What is left to do when the value `v` for register `t` is there. -/
structure Cycle.Delivers (c : Cycle) (t : RegIndex) (v : Word) (ready : Bool) : Prop where
  valid : c.out.valid = false
  fpu : c.out.exceptions.fpu.isEmpty = true
  csr : c.next.csr.phase = .idle
  phase : c.next.phase = if t = 0 ∨ ready = true then .waiting else .single
  write : c.out.write =
    if t = 0 ∨ ready = false then {} else { enable := true, target := t, data := v }
  parked : t ≠ 0 → ready = false → c.next.current.target = t ∧ c.next.current.result = v

variable {s : Execute} {i : Input} {d : DecodedInstruction} {operand v : Word} {pending : Bool}
  {p : CsrPhase} {q : CsrRequest}

theorem step_single (ht : i.trap = none) (hp : s.state.phase = .single) :
    s.step i =
      if s.state.csr.phase = .idle then
        (s.opening i).occupied.complete i.writeReady s.state.current.target s.state.current.result
      else
        match Cycle.csrResponse? s.state i with
        | some q => (s.opening i).occupied.csrDone s.state i q
        | none => (s.opening i).occupied := by
  rw [step_eq, ht]
  by_cases hc : s.state.csr.phase = .idle
  · simp [Cycle.advance, hp, hc]
  · cases hq : Cycle.csrResponse? s.state i <;> simp [Cycle.advance, hp, hc, hq]

attribute [local simp] opening_eq Cycle.occupied Cycle.ready Cycle.raise Cycle.complete_eq
  Cycle.writeCsr

theorem none_isEmpty : FpFlags.none.isEmpty = true := by decide

attribute [local simp] none_isEmpty

namespace State.Accessing

/-- While the request is not taken or the answer does not come nothing else happens. -/
theorem waits (h : s.state.Accessing d operand pending p q) (ht : i.trap = none)
    (hp : p = .request ∨ p = .response ∧ i.csr.valid = false) :
    (s.step i).next.Accessing d operand pending
        (if p = .request ∧ i.csr.ready = false then .request else .response) q ∧
      (s.step i).next.current.result = s.state.current.result ∧ (s.step i).Silent := by
  have hc := h.transaction
  have hne : s.state.csr.phase ≠ .idle := by
    rw [hc]
    rcases hp with rfl | ⟨rfl, -⟩ <;> simp
  have hq : Cycle.csrResponse? s.state i = none := by
    unfold Cycle.csrResponse?
    rw [hc]
    rcases hp with rfl | ⟨rfl, hv⟩
    · simp
    · simp [hv]
  have hleft : s.transactionLeft i =
      { phase := if p = .request ∧ i.csr.ready = false then .request else .response
        command := q.command
        addr := q.addr
        data := q.data } := by
    unfold transactionLeft
    rw [hc]
    rcases hp with rfl | ⟨rfl, hv⟩
    · cases i.csr.ready <;> simp
    · simp [hv]
  rw [step_single ht h.phase, if_neg hne, hq]
  refine ⟨⟨?_, ?_, ?_, ?_, ?_, ?_⟩, ?_, ⟨?_, ?_, ?_⟩⟩ <;>
    simp [h.phase, h.opcode, h.target, h.operand, h.pending, hleft]

theorem answered (h : s.state.Accessing d operand pending .response q) (ht : i.trap = none)
    (hv : i.csr.valid = true) :
    s.step i = (s.opening i).occupied.csrDone s.state i i.csr ∧
      (s.transactionLeft i).phase = .idle := by
  have hq : Cycle.csrResponse? s.state i = some i.csr := by
    unfold Cycle.csrResponse?
    rw [h.transaction]
    simp [hv]
  constructor
  · rw [step_single ht h.phase, if_neg (by rw [h.transaction]; simp), hq]
  · unfold transactionLeft
    rw [h.transaction]
    simp [hv]

theorem rejected (h : s.state.Accessing d operand pending .response q) (ht : i.trap = none)
    (hv : i.csr.valid = true) (hq : i.csr.exception = true) :
    (s.step i).next.phase = .waiting ∧ (s.step i).next.csr.phase = .idle ∧
      (s.step i).Silent := by
  obtain ⟨hs, hleft⟩ := h.answered ht hv
  rw [hs, Cycle.csrDone, h.opcode]
  simp only [hq, if_true]
  refine ⟨?_, ?_, ⟨?_, ?_, ?_⟩⟩ <;> simp [hleft]

theorem rewrites (h : s.state.Accessing d operand true .response d.readRequest)
    (hd : d.opcode.cls = .csr) (ht : i.trap = none) (hv : i.csr.valid = true)
    (hq : i.csr.exception = false) :
    (s.step i).next.Accessing d operand false .request
        (d.writeRequest (d.csrResult i.csr.data operand)) ∧
      (s.step i).next.current.result = i.csr.data ∧ (s.step i).Silent := by
  obtain ⟨hs, -⟩ := h.answered ht hv
  have hc : s.state.csr.command = .read := by rw [h.transaction]; rfl
  have ha : s.state.csr.addr = d.csrAddress := by rw [h.transaction]; rfl
  have hresult : Cycle.replacement d.opcode i.csr.data operand =
      d.csrResult i.csr.data operand := by
    unfold Cycle.replacement DecodedInstruction.csrResult
    cases d.opcode <;> rfl
  rw [hs, Cycle.csrDone, h.opcode]
  simp only [hq, hd, hc, h.pending, Bool.false_eq_true, if_false, if_true]
  refine ⟨⟨?_, ?_, ?_, ?_, ?_, ?_⟩, ?_, ⟨?_, ?_, ?_⟩⟩ <;>
    simp [h.phase, h.opcode, h.target, h.operand, ha, hresult, DecodedInstruction.writeRequest]

theorem delivers_complete {c : Cycle} {t : RegIndex} {ready : Bool} (hv : c.out.valid = false)
    (hf : c.out.exceptions.fpu.isEmpty = true) (hc : c.next.csr.phase = .idle)
    (hw : c.out.write = {}) : (c.complete ready t v).Delivers t v ready := by
  constructor
  · simpa using hv
  · simpa using hf
  · simpa using hc
  · simp
  · simp [hw]
  · intro ht hr
    have hne : ¬ (t = 0 ∨ ready = true) := by simpa [hr] using ht
    rw [Cycle.complete_current, if_neg hne]
    exact ⟨rfl, rfl⟩

theorem delivers (h : s.state.Accessing d operand pending .response q)
    (hd : d.opcode.cls = .csr) (ht : i.trap = none) (hv : i.csr.valid = true)
    (hq : i.csr.exception = false)
    (hres : q.command = .read ∧ pending = false ∧ v = i.csr.data ∨
      q.command ≠ .read ∧ v = s.state.current.result) :
    (s.step i).Delivers d.target v i.writeReady := by
  obtain ⟨hs, hleft⟩ := h.answered ht hv
  have hc : s.state.csr.command = q.command := by rw [h.transaction]
  have hdone : (s.opening i).occupied.csrDone s.state i i.csr =
      (s.opening i).occupied.complete i.writeReady d.target v := by
    rw [Cycle.csrDone, h.opcode]
    simp only [hq, hd, hc, h.pending, h.target, Bool.false_eq_true, if_false]
    -- The answer to a read is the result; after a write it is what was read before.
    obtain ⟨hq, hp, rfl⟩ | ⟨hq, rfl⟩ := hres
    · simp only [hq, hp, if_true, Bool.false_eq_true, if_false]
    · simp only [hq, if_false]
  rw [hs, hdone]
  exact delivers_complete (by simp) (by simp) (by simpa using hleft) (by simp)

end State.Accessing

/-- A result that waits for the register file. -/
structure State.Parked (d : DecodedInstruction) (v : Word) (s : State) : Prop where
  phase : s.phase = .single
  csr : s.csr.phase = .idle
  target : s.current.target = d.target
  result : s.current.result = v

theorem State.Parked.delivers (h : s.state.Parked d v) (ht : i.trap = none) :
    (s.step i).Delivers d.target v i.writeReady := by
  rw [step_single ht h.phase, if_pos h.csr, h.target, h.result]
  refine Accessing.delivers_complete (by simp) (by simp) ?_ (by simp)
  simpa [transactionLeft_idle h.csr] using h.csr

theorem step_open (hp : s.state.phase.IsOpen) (hv : (s.step i).out.valid = false) :
    (s.step i).next.phase.IsOpen ∧ (s.step i).Silent := by
  have h := step_outcome (s := s) (i := i)
  generalize s.step i = c at h hv
  have hne : s.state.phase ≠ .single ∧ s.state.phase ≠ .multi := by
    rcases hp with hp | hp | hp <;> simp [hp]
  cases h with
  | trapped => exact ⟨.inl rfl, by simp [Cycle.trap], by simp [Cycle.trap], by simp [Cycle.trap]⟩
  | running _ hs | finished _ _ _ hs => exact absurd hs hne.2
  | parked _ hs | pending _ hs | answered _ _ _ hs => exact absurd hs hne.1
  | passed p b _ _ hn => exact ⟨hn, by simp, by simp, by simp⟩
  | accepted d c _ _ _ ha =>
    have hvalid : c.out.valid = true := by cases ha <;> simp [Cycle.accept, Cycle.accessCsr,
      Cycle.keep, Cycle.command]
    rw [hvalid] at hv
    cases hv

/-- An access begins when its instruction is accepted, unless that is illegal. -/
theorem accessing_of_accepted (hv : (s.step i).out.valid = true) (hi : i.instruction = some d)
    (hd : d.opcode.cls = .csr) (hl : (s.step i).out.exceptions.illegal = false) {r : Registers}
    (ha : i.a = r.read d.source1) :
    (s.step i).next.Accessing d (d.csrOperand r) (d.readsCsr && d.writesCsr) .request
      (d.firstRequest (d.csrOperand r)) := by
  have h := step_outcome (s := s) (i := i)
  generalize s.step i = c at h hv hl
  cases h with
  | trapped => simp [Cycle.trap] at hv
  | running | parked | pending | passed => simp at hv
  | finished => simp [Cycle.unitDone_eq] at hv
  | answered _ _ _ _ _ _ ha => cases ha <;> simp at hv
  | accepted d' c _ _ ho hacc =>
    obtain rfl : d = d' := Option.some.inj (hi.symm.trans ho.instruction)
    cases hacc with
    | csr =>
      have hop : (if d.opcode.traits.readsRs1 then operandA d i
          else (Fields.rs1 d.word).setWidth 64) = d.csrOperand r := by
        unfold operandA DecodedInstruction.csrOperand
        rw [(DecodedInstruction.traits_of_csr hd).1, ha]
        rfl
      have hreads : (!(swaps d.opcode && Fields.rd d.word == 0)) = d.readsCsr := rfl
      have hwrites : (swaps d.opcode || Fields.rs1 d.word != 0) = d.writesCsr := rfl
      unfold Cycle.accessCsr
      dsimp only
      rw [hop, hreads, hwrites]
      refine ⟨rfl, rfl, rfl, rfl, rfl, ?_⟩
      unfold DecodedInstruction.firstRequest
      cases d.readsCsr <;> rfl
    | illegal => simp [Cycle.accept] at hl
    | alu _ hc | misaligned _ hc | memory _ hc =>
      rw [hd] at hc
      rcases hc with hc | hc <;> cases hc
    | branch _ hc | jump _ hc | dispatch _ _ hc | trapReturn _ hc | wfi _ hc | ecall _ hc
    | ebreak _ hc | fence _ hc =>
      rw [hd] at hc
      cases hc

theorem step_illegal (hv : (s.step i).out.valid = true)
    (hl : (s.step i).out.exceptions.illegal = true) :
    (s.step i).next.phase.IsOpen ∧ (s.step i).next.csr.phase = .idle := by
  have h := step_outcome (s := s) (i := i)
  generalize s.step i = c at h hv hl
  cases h with
  | trapped => simp [Cycle.trap] at hv
  | running | parked | pending | passed => simp at hv
  | finished => simp [Cycle.unitDone_eq] at hv
  | answered _ _ _ _ _ _ ha => cases ha <;> simp at hv
  | accepted d c _ _ ho ha =>
    cases ha with
    | illegal =>
      refine ⟨.inl (by simp [Cycle.accept]), ?_⟩
      simpa [Cycle.accept, transactionLeft_idle ho.csr] using ho.csr
    | _ => simp [Cycle.accept, Cycle.keep, Cycle.accessCsr, Cycle.command] at hl

theorem step_trapped {target : Word} (ht : i.trap = some target) :
    (s.step i).next.phase.IsOpen ∧ (s.step i).out.valid = false ∧
      (s.step i).out.write.enable = false := by
  rw [step_trap ht]
  exact ⟨.inl rfl, by simp [Cycle.trap], by simp [Cycle.trap]⟩

end Execute

end RiscvPipeline
