import RiscvPipeline.Proofs.Csr.Bus

/-!
# Waiting for the bus

Of two requests the one of the execute stage goes first, so the debug port may have to wait. But a
transaction of the execute stage makes two requests at most, and between two transactions there is a
cycle in which the stage asks for nothing. So each grant to the execute stage uses up one of the
requests that its transaction had left (`Execute.step_requestsLeft`), and with none left the debug
port is next (`Machine.Held.phase_ne_idle`).
-/

namespace RiscvPipeline

open CsrArbiter

/-! ## The requests of a transaction -/

namespace Execute

/-- The requests that a transaction may still make. A read may be followed by a write. -/
def CsrTransaction.requestsLeft (t : CsrTransaction) : Nat :=
  match t.phase with
  | .idle => 0
  | .request => if t.command = .read then 2 else 1
  | .response => if t.command = .read then 1 else 0

theorem CsrTransaction.requestsLeft_le (t : CsrTransaction) : t.requestsLeft ≤ 2 := by
  unfold requestsLeft
  repeat' split
  all_goals omega

variable {s : Execute} {i : Input}

variable (s i) in
/-- The bus takes the request of the stage. -/
def sends : Bool := s.state.csr.phase = .request ∧ i.csr.ready = true

theorem sends_le : (if s.sends i then 1 else 0) ≤ s.state.csr.requestsLeft := by
  unfold sends CsrTransaction.requestsLeft
  cases s.state.csr.phase with
  | idle | response => simp
  | request =>
    dsimp only
    split <;> split <;> omega

theorem Keeps.requestsLeft {c : Cycle} (h : s.Keeps i c) :
    c.next.csr.requestsLeft + (if s.sends i then 1 else 0) ≤ s.state.csr.requestsLeft := by
  unfold CsrTransaction.requestsLeft sends
  rw [h.phase, h.command]
  unfold transactionLeft
  cases hp : s.state.csr.phase with
  | idle => simp [hp]
  | request =>
    cases i.csr.ready with
    | false => simp [hp]
    | true =>
      simp only [if_true, and_self, decide_true]
      split <;> omega
  | response => cases i.csr.valid <;> simp [hp]

/-- A transaction makes no more requests than it had left. -/
theorem step_requestsLeft (h : s.state.csr.phase ≠ .idle) :
    (s.step i).next.csr.requestsLeft + (if s.sends i then 1 else 0) ≤
      s.state.csr.requestsLeft := by
  rcases step_transacts (s := s) (i := i) with hk | ⟨-, hs, -⟩ | ⟨-, hr, -, hp, -, hread, hwrite⟩
  · exact hk.requestsLeft
  · exact absurd hs h
  · have hne : CsrCommand.write ≠ .read := by decide
    simp [CsrTransaction.requestsLeft, sends, hp, hr, hread, hwrite, hne]

end Execute

/-! ## Grants -/

/-- How often a master was given the bus. -/
def CsrArbiter.grants (s : CsrArbiter) : Master → Nat
  | .execute => s.executeGrants
  | .debug => s.debugGrants

theorem CsrArbiter.edge_grants (s : CsrArbiter) (p : Registers) (x : Master) :
    (s.edge p).grants x = s.grants x +
      if p.acquired && !s.registers.acquired && p.owner = x then 1 else 0 := by
  cases x <;> rfl

namespace Instant

/-- The arbiter gives the bus to a master. -/
def grants (t : Instant) (x : Master) : Bool :=
  t.machine.arbiter.grants x < t.next.arbiter.grants x

variable {t : Instant} {x? y? : Option Master}

/-- The bus is given to the master that gets rid of its request. -/
theorem grants_eq_issues (hr : t.machine.reset = false) (hx : t.machine.Held x?)
    (hy : t.next.Held y?) (he : t.Exchange x? y?) (x : Master) : t.grants x = t.issues x := by
  have hnext : t.next.arbiter = t.machine.arbiter.edge t.next.arbiter.registers := by
    rw [next, Machine.advance_arbiter hr]
    simp [Machine.advance, Machine.clock, Clocked.next, hr, CsrArbiter.clocked]
  rw [Bool.eq_iff_iff, he.issues_iff, grants, hnext, edge_grants, hx.acquired, hy.acquired]
  have howner := hy.owner
  cases x? with
  | some _ => simp
  | none =>
    cases y? with
    | none => simp
    | some y =>
      rw [howner y rfl]
      by_cases hxy : y = x <;> simp [hxy]

end Instant

namespace Machine

variable {m : Machine} {w : Signals} {x? : Option Master}

/-- While the execute stage asks for nothing, the request of the debug port is taken at once. -/
theorem Held.phase_ne_idle (hx : m.Held x?) (hr : m.reset = false) (hw : m.Settled w)
    (hd : m.debug.phase = .csrRequest) (hd' : (m.advance w).debug.phase = .csrRequest) :
    m.execute.state.csr.phase ≠ .idle := by
  intro hidle
  have hexecute : (m.drives .execute).valid = false := by
    rw [drives, Execute.busDrive, hidle]
  have hdebug : (m.drives .debug).valid = true := by
    rw [drives, DebugPort.busDrive, hd]
    rfl
  have hfree : x? = none := by
    rcases x? with - | - | -
    · rfl
    · have : m.execute.state.csr.phase = .response := (hx.expects .execute).2 rfl
      simp [hidle] at this
    · have : m.debug.phase = .csrResponse := (hx.expects .debug).2 rfl
      simp [hd] at this
  subst hfree
  obtain ⟨y?, he, hy⟩ := hx.step hr hw
  have hne : y? ≠ some .debug := by
    rw [Ne, ← hy.expects .debug]
    show (m.advance w).debug.phase ≠ .csrResponse
    simp [hd']
  have hrequest (x : Master) : Instant.request ⟨m, w⟩ x = m.drives x := hw.request x
  cases he with
  | quiet _ hq =>
    have := hq .debug
    rw [hrequest, hdebug] at this
    cases this
  | accepted x _ hv =>
    cases x with
    | execute =>
      rw [hrequest, hexecute] at hv
      cases hv
    | debug => exact hne rfl

theorem grants_eq_sends (hx : m.Held x?) (hr : m.reset = false) (hw : m.Settled w) :
    Instant.grants ⟨m, w⟩ .execute = m.execute.sends (m.executeInput w) := by
  obtain ⟨y?, he, hy⟩ := hx.step hr hw
  rw [Instant.grants_eq_issues (t := ⟨m, w⟩) hr hx hy he, Instant.issues, hw.request]
  have hvalid : (m.drives .execute).valid = decide (m.execute.state.csr.phase = .request) := by
    unfold drives Execute.busDrive
    cases m.execute.state.csr.phase <;> rfl
  rw [hvalid, Execute.sends, Bool.decide_and, Bool.decide_eq_true]
  rfl

theorem Held.of_reachable (hm : m.Reachable) : ∃ x?, m.Held x? :=
  Reachable.holds (P := fun m => ∃ x?, m.Held x?) (fun _ _ hn => ⟨none, .of_restarted hn⟩)
    (fun _ _ hn ⟨x?, hx⟩ => ⟨x?, hx.of_untouched hn⟩)
    (fun _ _ hr hw ⟨_, hx⟩ => (hx.step hr hw).imp fun _ hy => hy.2) hm

/-- While the debug port waits, the bus is given to the execute stage no more often than its
transaction makes requests. -/
theorem countP_grants_le {m₀ : Machine} (hm : m₀.Reachable) {h : List Stimulus}
    {before stretch rest : List Instant} {t : Instant}
    (hh : m₀.cycles h = before ++ t :: (stretch ++ rest))
    (hs : ∀ u ∈ t :: stretch, u.machine.debug.phase = .csrRequest) :
    (t :: stretch).countP (·.grants .execute) ≤ t.machine.execute.state.csr.requestsLeft := by
  induction stretch generalizing before t with
  | nil =>
    obtain ⟨hr, hw, h', hafter, -⟩ := of_cycles_eq hh
    obtain ⟨x?, hx⟩ := Held.of_reachable (hafter ▸ hm.after h')
    rw [List.countP_singleton, grants_eq_sends hx hr hw]
    exact Execute.sends_le
  | cons u us ih =>
    obtain ⟨hr, hw, h', hafter, -⟩ := of_cycles_eq hh
    obtain ⟨x?, hx⟩ := Held.of_reachable (hafter ▸ hm.after h')
    have hnext := untouched_of_consecutive hh
    have hu : m₀.cycles h = (before ++ [t]) ++ u :: (us ++ rest) := by simpa using hh
    have hlater := ih hu fun v hv => hs v (List.mem_cons_of_mem _ hv)
    have hne := hx.phase_ne_idle hr hw (hs t (by simp)) (hnext.debug ▸ hs u (by simp))
    have hstep := Execute.step_requestsLeft (i := t.machine.executeInput t.signals) hne
    rw [List.countP_cons, grants_eq_sends hx hr hw]
    rw [hnext.execute, Instant.next, advance_execute hr] at hlater
    exact Nat.le_trans (Nat.add_le_add_right hlater _) hstep

/-- While the debug port asks for the bus, it is given to the execute stage at most twice. -/
theorem overtaken_at_most_twice {writable : String → Bool} {c : Config} {p : Program} {m₀ : Machine}
    (hnew : Machine.new writable c p = .ok m₀) {h : List Stimulus}
    {before stretch rest : List Instant} (hh : m₀.cycles h = before ++ stretch ++ rest)
    (hs : ∀ t ∈ stretch, t.machine.debug.phase = .csrRequest) :
    stretch.countP (·.grants .execute) ≤ 2 := by
  have hm : m₀.Reachable := ⟨writable, c, p, m₀, [], hnew, rfl⟩
  cases stretch with
  | nil => exact Nat.zero_le _
  | cons t ts =>
    rw [List.append_assoc] at hh
    exact Nat.le_trans (countP_grants_le hm hh hs) (Execute.CsrTransaction.requestsLeft_le _)

/-- A swap reads its register and writes it before the request of the debug port is taken. -/
theorem overtaken_twice_swapping :
    let swap : DecodedInstruction :=
      { pc := resetVector, word := Opcode.csrrw.encode 6 5 0 0x340, opcode := .csrrw }
    let m₀ := ofConfig {} { instructions := #[swap] }
    let asked : List Stimulus := [.request { addr := 0x340, write := true, wdata := 0x77 }]
    let ts := (m₀.after asked).instants 8
    let stretch := ts.tail.take 5
    (∀ t ∈ stretch, t.machine.debug.phase = .csrRequest) ∧
      stretch.countP (·.grants .execute) = 2 ∧ stretch.countP (·.grants .execute) ≤ 2 := by
  intro swap m₀ asked ts stretch
  have hnew : Machine.new (fun _ => true) {} { instructions := #[swap] } = .ok m₀ := rfl
  have hh : m₀.cycles (asked ++ .replicate 8 .tick) = ts.take 1 ++ stretch ++ ts.drop 6 :=
    cycles_append_replicate_tick (by decide +kernel) rfl 8
  have hs : ∀ t ∈ stretch, t.machine.debug.phase = .csrRequest := by decide +kernel
  have htwice : stretch.countP (·.grants .execute) = 2 := by decide +kernel
  exact ⟨hs, htwice, overtaken_at_most_twice hnew hh hs⟩

end Machine

end RiscvPipeline
