import RiscvPipeline.Proofs.Execute.Outcome

/-! The bus transaction of the execute stage: what a cycle makes of it. -/

namespace RiscvPipeline.Execute

variable {s : Execute} {i : Input}

/-- The commands that instructions send. -/
def CsrTransaction.Sendable (t : CsrTransaction) : Prop :=
  t.command = .none ∨ t.command = .read ∨ t.command = .write ∨ t.command = .trapReturn ∨
    t.command = .wfi

theorem csrResponse?_eq_some {q : CsrResponse} (h : Cycle.csrResponse? s.state i = some q) :
    s.state.csr.phase = .response ∧ i.csr.valid = true ∧ s.state.csr.discard = false ∧
      q = i.csr := by
  unfold Cycle.csrResponse? at h
  split at h
  next hc =>
    obtain ⟨hp, hv, hd⟩ := hc
    exact ⟨hp, hv, by simpa using hd, (Option.some.inj h).symm⟩
  · cases h

attribute [local simp] opening_eq Cycle.trap Cycle.occupied Cycle.ready Cycle.raise Cycle.accept
  Cycle.keep Cycle.complete_eq Cycle.unitDone_eq Cycle.accessCsr Cycle.command Cycle.writeCsr

variable (s i) in
/-- The transaction goes on as far as the bus takes it. -/
structure Keeps (c : Cycle) : Prop where
  phase : c.next.csr.phase = (s.transactionLeft i).phase
  command : c.next.csr.command = s.state.csr.command
  addr : c.next.csr.addr = s.state.csr.addr
  data : c.next.csr.data = s.state.csr.data

theorem Keeps.of_left {c : Cycle} (h : c.next.csr = s.transactionLeft i) : s.Keeps i c := by
  constructor <;> rw [h] <;> unfold transactionLeft <;> cases s.state.csr.phase <;> dsimp only <;>
    split <;> rfl

/-- A trap does not stop it. -/
theorem Keeps.of_trap (target : Word) : s.Keeps i ((s.opening i).trap target) := by
  have h : ((s.opening i).trap target).next.csr =
      if (s.transactionLeft i).phase = .idle then s.transactionLeft i
      else { s.transactionLeft i with discard := true } := by
    simp
  obtain ⟨hp, hc, ha, hd⟩ :=
    of_left (s := s) (i := i) (c := ⟨{ s.state with csr := s.transactionLeft i }, {}⟩) rfl
  constructor <;> rw [h] <;> split <;> assumption

theorem Keeps.phase_eq_request {c : Cycle} (h : s.Keeps i c) :
    c.next.csr.phase = .request ↔ s.state.csr.phase = .request ∧ i.csr.ready = false := by
  rw [h.phase]
  unfold transactionLeft
  cases hs : s.state.csr.phase with
  | idle => simp [hs]
  | request => cases i.csr.ready <;> simp [hs]
  | response => cases i.csr.valid <;> simp [hs]

variable (s i) in
/-- The ways in which a cycle treats the transaction. An accepted instruction begins one, and the
answer to a read may be followed by a write. -/
inductive Transacts (c : Cycle) : Prop
  | kept (h : s.Keeps i c)
  | begun (hv : c.out.valid = true) (hs : s.state.csr.phase = .idle)
      (hp : c.next.csr.phase = .request) (hc : c.next.csr.Sendable)
  | rewritten (hs : s.state.phase = .single) (hr : s.state.csr.phase = .response)
      (hv : i.csr.valid = true) (hp : c.next.csr.phase = .request) (hc : c.next.csr.Sendable)
      (hread : s.state.csr.command = .read) (hwrite : c.next.csr.command = .write)

theorem step_transacts : s.Transacts i (s.step i) := by
  have h := step_outcome (s := s) (i := i)
  generalize s.step i = c at h
  cases h with
  | trapped target => exact .kept (.of_trap target)
  | running | parked | pending | finished | passed => exact .kept (.of_left (by simp))
  | answered q c _ hs _ hq ha =>
    cases ha with
    | rewrite _ _ _ _ hread =>
      obtain ⟨hr, hv, -, -⟩ := csrResponse?_eq_some hq
      exact .rewritten hs hr hv (by simp) (by simp [CsrTransaction.Sendable]) hread (by simp)
    | _ => exact .kept (.of_left (by simp))
  | accepted d c _ _ ho ha =>
    have hs := ho.csr
    cases ha with
    | csr =>
      refine .begun (by simp) hs (by simp) ?_
      simp only [CsrTransaction.Sendable, Cycle.accessCsr, Cycle.keep, Cycle.accept]
      split <;> simp
    | trapReturn => exact .begun (by simp) hs (by simp) (by simp [CsrTransaction.Sendable])
    | wfi => exact .begun (by simp) hs (by simp) (by simp [CsrTransaction.Sendable])
    | _ => exact .kept (.of_left (by simp))

/-- The stage waits for an answer if a request was taken, or if the answer has not come yet. -/
theorem Transacts.phase_eq_response {c : Cycle} (h : s.Transacts i c) :
    c.next.csr.phase = .response ↔
      s.state.csr.phase = .request ∧ i.csr.ready = true ∨
        s.state.csr.phase = .response ∧ i.csr.valid = false := by
  cases h with
  | kept hk =>
    rw [hk.phase]
    unfold transactionLeft
    cases hs : s.state.csr.phase with
    | idle => simp [hs]
    | request => cases i.csr.ready <;> simp [hs]
    | response => cases i.csr.valid <;> simp [hs]
  | begun _ hs hp => simp [hs, hp]
  | rewritten _ hr hv hp => simp [hr, hv, hp]

theorem Transacts.sendable {c : Cycle} (h : s.Transacts i c) (hs : s.state.csr.Sendable) :
    c.next.csr.Sendable := by
  cases h with
  | kept hk => rwa [CsrTransaction.Sendable, hk.command]
  | begun _ _ _ hc => exact hc
  | rewritten _ _ _ _ hc => exact hc

end RiscvPipeline.Execute
