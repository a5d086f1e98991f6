import RiscvPipeline.Proofs.Csr.Bus

/-! The contents of the control and status registers: what writes do to reads, and what a cycle does
to the bank. -/

namespace RiscvPipeline

theorem CsrRegister.addr_of_ofAddr? {a : CsrAddress} {r : CsrRegister} (h : ofAddr? a = some r) :
    r.addr = a := by
  simpa using List.find?_some h

theorem CsrRegister.addr_ne (r : CsrRegister) :
    r.addr ≠ CsrAddress.fcsr ∧ r.addr ≠ CsrAddress.cycle ∧ r.addr ≠ CsrAddress.instret := by
  cases r <;> decide

namespace CsrBank

open CsrRegister

variable (b : CsrBank) {r s : CsrRegister} {a : CsrAddress}

@[simp] theorem get_set_same (r : CsrRegister) (v : Word) : (b.set r v).get r = v := by
  unfold get set
  exact Vector.getElem_set_self r.ctorIdx_lt

theorem get_set_other (h : r ≠ s) (v : Word) : (b.set r v).get s = b.get s := by
  have hne : r.ctorIdx ≠ s.ctorIdx := fun hc => h (by cases r <;> cases s <;> first | rfl | cases hc)
  unfold get set
  exact Vector.getElem_set_ne r.ctorIdx_lt s.ctorIdx_lt hne

theorem read?_addr (r : CsrRegister) : b.read? r.addr = some (b.get r) := by
  obtain ⟨h1, h2, h3⟩ := r.addr_ne
  simp [read?, h1, h2, h3, ofAddr?_addr]

theorem write_addr (r : CsrRegister) (v : Word) : b.write r.addr v = b.set r (r.legal v) := by
  simp [write, r.addr_ne.1, ofAddr?_addr]

/-- A write reaches a register under its own address and, if it is one of the two floating-point
registers, under their common one. -/
theorem get_write_other (ha : a ≠ r.addr) (hf : a = CsrAddress.fcsr → r ≠ frm ∧ r ≠ fflags)
    (v : Word) : (b.write a v).get r = b.get r := by
  unfold write
  split
  next h =>
    obtain ⟨h1, h2⟩ := hf h
    rw [get_set_other _ h2.symm, get_set_other _ h1.symm]
  · split
    next s hs =>
      refine get_set_other _ (fun h => ha ?_) _
      rw [← h, addr_of_ofAddr? hs]
    · rfl

/-- The bank after a cycle in which nothing else happens: the cycle counter advances. -/
def count : CsrBank := b.write mcycle.addr (b.get mcycle + 1)

theorem count_eq : b.count = b.set mcycle (b.get mcycle + 1) := b.write_addr ..

theorem get_count (h : r ≠ mcycle) : b.count.get r = b.get r := by
  rw [count_eq, get_set_other _ h.symm]

/-- The counter is seen under two addresses. -/
theorem read?_count (ha : a ≠ mcycle.addr) (hc : a ≠ CsrAddress.cycle) :
    b.count.read? a = b.read? a := by
  unfold read?
  rw [get_count _ (by simp : frm ≠ mcycle), get_count _ (by simp : fflags ≠ mcycle),
    get_count _ (by simp : minstret ≠ mcycle), if_neg hc, if_neg hc]
  cases hr : ofAddr? a with
  | none => rfl
  | some r =>
    have hne : r ≠ mcycle := fun h => ha (by rw [← h, addr_of_ofAddr? hr])
    simp [get_count _ hne]

end CsrBank

/-- The commands that the two masters send. -/
def CsrRequest.Sendable (q : CsrRequest) : Prop :=
  q.command = .none ∨ q.command = .read ∨ q.command = .write ∨ q.command = .trapReturn ∨
    q.command = .wfi ∨ q.command = .halt ∨ q.command = .resume

namespace CsrFile

variable (f : CsrFile) {q : CsrRequest}

/-- A bank after a list of writes. -/
def written (b : CsrBank) (l : List Write) : CsrBank := l.foldl (fun b x => b.write x.addr x.value) b

theorem edge_eq (p : Proposal) : f.edge p =
    { f with bank := (written f.bank p.writes).count, control := p.control } := by
  have fold (l : List Write) (g : CsrFile) :
      l.foldl (fun g x => g.poke x.addr x.value) g = { g with bank := written g.bank l } := by
    induction l generalizing g with
    | nil => rfl
    | cons x l ih => exact ih _
  unfold edge
  rw [fold]
  rfl

theorem edge_bank (p : Proposal) : (f.edge p).bank = (written f.bank p.writes).count := by
  rw [edge_eq]

theorem execute_read (h : q.command = .read) : f.execute q =
    match f.read? q.addr with
    | none => { exception := true, halted := f.halted }
    | some old => { data := old, halted := f.halted } := by
  cases hr : f.read? q.addr <;>
    simp [execute, h, hr, show CsrCommand.contains .read .read = true from rfl,
      show CsrCommand.contains .read .write = false from rfl]

/-- Of the bits of a command the one to write goes first. -/
theorem execute_writing (hw : q.command.contains .write = true) : f.execute q =
    match f.read? q.addr with
    | none => { exception := true, halted := f.halted }
    | some old =>
      if q.addr.isReadOnly then { exception := true, halted := f.halted }
      else { data := old, writes := [⟨q.addr, q.data⟩], halted := f.halted } := by
  cases hr : f.read? q.addr <;> simp [execute, hw, hr]

theorem execute_write (h : q.command = .write) : f.execute q =
    match f.read? q.addr with
    | none => { exception := true, halted := f.halted }
    | some old =>
      if q.addr.isReadOnly then { exception := true, halted := f.halted }
      else { data := old, writes := [⟨q.addr, q.data⟩], halted := f.halted } :=
  f.execute_writing (by rw [h]; rfl)

/-- What is not rejected finds a register, and a write one that can be written. -/
theorem read?_of_accepted (hq : q.command = .read ∨ q.command = .write)
    (h : (f.execute q).exception = false) :
    f.read? q.addr = some (f.execute q).data ∧
      (q.command = .write → q.addr.isReadOnly = false) := by
  rcases hq with hq | hq
  · rw [f.execute_read hq] at h ⊢
    refine ⟨?_, fun hw => absurd (hq.symm.trans hw) (by decide)⟩
    cases hr : f.read? q.addr with
    | none => simp [hr] at h
    | some v => rfl
  · rw [f.execute_write hq] at h ⊢
    cases hr : f.read? q.addr with
    | none => simp [hr] at h
    | some v =>
      cases ho : q.addr.isReadOnly with
      | true => simp [hr, ho] at h
      | false => exact ⟨rfl, fun _ => rfl⟩

/-- Of the commands that are sent only one writes, unless it is rejected. -/
theorem execute_writes (h : q.Sendable) : (f.execute q).writes =
    if q.command = .write ∧ (f.execute q).exception = false then [⟨q.addr, q.data⟩] else [] := by
  by_cases hw : q.command = .write
  · rw [f.execute_write hw]
    cases f.read? q.addr with
    | none => simp
    | some old => cases q.addr.isReadOnly <;> simp [hw]
  · rw [if_neg (fun hc => hw hc.1)]
    rcases h with h | h | h | h | h | h | h
    · rw [execute, h]
      rfl
    · rw [f.execute_read h]
      cases f.read? q.addr <;> rfl
    · exact absurd h hw
    · rw [execute, h]
      cases f.read? q.addr <;> rfl
    · rw [execute, h]
      rfl
    · rw [execute, h]
      rfl
    · rw [execute, h]
      rfl

end CsrFile

namespace Machine

variable {m : Machine} {w : Signals}

/-- What masters drive comes from instructions and debug accesses. -/
theorem drives_sendable (h : m.execute.state.csr.Sendable) (x : CsrArbiter.Master) :
    (m.drives x).Sendable := by
  cases x with
  | execute =>
    simp only [drives, Execute.busDrive]
    cases m.execute.state.csr.phase with
    | idle => exact .inl rfl
    | request =>
      rcases h with h | h | h | h | h
      · exact .inl h
      · exact .inr (.inl h)
      · exact .inr (.inr (.inl h))
      · exact .inr (.inr (.inr (.inl h)))
      · exact .inr (.inr (.inr (.inr (.inl h))))
    | response => exact .inl rfl
  | debug =>
    simp only [drives, DebugPort.busDrive]
    cases m.debug.phase with
    | csrRequest =>
      unfold DebugPort.busRequest DebugPort.command CsrRequest.Sendable
      cases m.debug.request.region <;> cases m.debug.request.write <;>
        cases m.debug.request.wdata.getLsbD 0 <;> simp
    | idle | csrResponse | access | responding => exact .inl rfl

theorem sendable_after {c : Config} {p : Program} (h : List Stimulus) :
    ((ofConfig c p).after h).execute.state.csr.Sendable := by
  refine holds_after (P := fun m => m.execute.state.csr.Sendable) ?_ ?_ ?_ h (.inl rfl)
  · intro m n hn _
    rw [hn.execute]
    exact .inl rfl
  · intro m n hn h
    rwa [hn.execute]
  · intro m w hr _ h
    rw [advance_execute hr]
    exact Execute.step_transacts.sendable h

/-- The writes of a cycle are those of the command that is accepted. -/
theorem Settled.propose_writes (hw : m.Settled w) : (m.csr.propose w.bus.slave).writes =
    if Instant.accepts ⟨m, w⟩ then (Instant.effect ⟨m, w⟩).writes else [] := by
  have hready : w.csr.ready = (m.csr.output w.bus.slave).ready := congrArg (·.ready) hw.csr
  unfold Instant.accepts Instant.effect Instant.command
  rw [hready]
  unfold CsrFile.propose CsrFile.output
  cases m.csr.control.phase with
  | idle => cases w.bus.slave.valid <;> rfl
  | busy n => rfl
  | responding => cases w.bus.slave.ready <;> rfl

end Machine

namespace Instant

variable (t : Instant)

/-- The command that is accepted is rejected. -/
def rejected : Bool := t.effect.exception

/-- A write is carried out. -/
def performs : Bool := t.accepts && t.command.command == .write && !t.rejected

theorem performs_iff :
    t.performs = true ↔ t.accepts = true ∧ t.command.command = .write ∧ t.rejected = false := by
  simp [performs, and_assoc]

theorem performs_eq_false
    (h : t.accepts = false ∨ t.command.command ≠ .write ∨ t.rejected = true) :
    t.performs = false := by
  rw [Bool.eq_false_iff, Ne, t.performs_iff]
  rintro ⟨ha, hc, hr⟩
  simp [ha, hc, hr] at h

/-- What a cycle does to the bank: first what does not come over the bus, then the command, then
the cycle counter. -/
theorem next_bank (h : t.machine.execute.state.csr.Sendable) (hr : t.machine.reset = false)
    (hw : t.machine.Settled t.signals) :
    t.next.csr.bank =
      let side := (t.machine.sideEffects t.signals).bank
      (if t.performs then side.write t.command.addr t.command.data else side).count := by
  have hs : t.command.Sendable := by
    have : t.command = t.machine.drives _ := (hw.connects rfl).1
    rw [this]
    exact Machine.drives_sendable h _
  have hwrites : t.effect.writes =
      if t.command.command = .write ∧ t.rejected = false then [⟨t.command.addr, t.command.data⟩]
      else [] := t.machine.csr.execute_writes hs
  show (t.machine.advance t.signals).csr.bank = _
  rw [Machine.advance_csr hr, CsrFile.edge_bank, hw.propose_writes]
  show (CsrFile.written _ (if t.accepts = true then t.effect.writes else [])).count = _
  dsimp only
  by_cases hp : t.performs = true
  · obtain ⟨ha, hc⟩ := t.performs_iff.1 hp
    rw [if_pos ha, if_pos hp, hwrites, if_pos hc]
    rfl
  · have hnone : (if t.accepts = true then t.effect.writes else []) = [] := by
      split
      next ha =>
        rw [hwrites, if_neg fun hc => hp (t.performs_iff.2 ⟨ha, hc⟩)]
      · rfl
    rw [if_neg hp, hnone]
    rfl

/-- Nothing but the command that is accepted and the cycle counter changes the bank. -/
def Undisturbed : Prop :=
  t.next.csr.bank = (if t.performs then
    t.machine.csr.bank.write t.command.addr t.command.data else t.machine.csr.bank).count

end Instant

/-- Both files hold the same under an address, unless the cycle counter is there. -/
def CsrFile.SameAt (a : CsrAddress) (f g : CsrFile) : Prop :=
  a ≠ CsrRegister.mcycle.addr → a ≠ CsrAddress.cycle → g.read? a = f.read? a

namespace CsrFile.SameAt

variable {a : CsrAddress} {f g k : CsrFile}

theorem trans (h : SameAt a f g) (h' : SameAt a g k) : SameAt a f k :=
  fun hm hc => (h' hm hc).trans (h hm hc)

theorem of_undisturbed {t : Instant} (h : t.Undisturbed) (hp : t.performs = false) :
    SameAt a t.machine.csr t.next.csr := by
  intro hm hc
  show t.next.csr.bank.read? a = _
  rw [h, hp]
  exact CsrBank.read?_count _ hm hc

end CsrFile.SameAt

end RiscvPipeline
