import RiscvPipeline.Proofs.Execute.Transaction
import RiscvPipeline.Proofs.Instants

/-!
# The bus to the control and status registers

Four machines take part in a transaction: the master that asks, the other master, the arbiter and
the register file. `Machine.Held` says who holds the bus, and in that all four agree. A cycle with
reset low is an exchange between them (`Instant.Exchange`), and an exchange hands the bus on in such
a way that they agree again.
-/

namespace RiscvPipeline

open CsrArbiter

/-! ## The parties -/

def CsrArbiter.Master.other : Master → Master
  | .execute => .debug
  | .debug => .execute

theorem CsrArbiter.Master.eq_or_eq_other (x y : Master) : y = x ∨ y = x.other := by
  cases x <;> cases y <;> simp [other]

theorem CsrArbiter.Master.other_ne (x : Master) : x.other ≠ x := by cases x <;> simp [other]

namespace DebugPort

/-- What the port drives on the bus. -/
def busDrive (s : DebugPort) : CsrRequest :=
  match s.phase with
  | .csrRequest => busRequest s.request
  | .csrResponse => { ready := true }
  | _ => {}

variable {s : DebugPort} {i : Input}

theorem output_csr : (s.output i).csr = s.busDrive := by
  unfold output busDrive
  cases s.phase <;> try rfl
  dsimp only
  split <;> rfl

theorem route?_ne (q : DebugRequest) : route? q ≠ some .csrResponse := by
  unfold route?
  split
  · simp
  · split <;> simp
  · split
    · split <;> simp
    · split <;> simp

theorem propose_phase_eq_csrResponse : (s.propose i).phase = .csrResponse ↔
    s.phase = .csrRequest ∧ i.csr.ready = true ∨
      s.phase = .csrResponse ∧ i.csr.valid = false := by
  unfold propose
  cases hs : s.phase with
  | idle =>
    cases i.request with
    | none => simp [hs]
    | some q =>
      have := route?_ne q
      simp only [accept]
      cases hq : route? q with
      | none => simp
      | some p => simpa [hq] using this
  | csrRequest => cases i.csr.ready <;> simp [hs]
  | csrResponse => cases i.csr.valid <;> simp [hs]
  | access =>
    have : (s.access i).phase = .access ∨ (s.access i).phase = .responding := by
      unfold access respond
      repeat' split
      all_goals simp [hs]
    rcases this with h | h <;> simp [h]
  | responding => cases i.ready <;> simp [hs]

end DebugPort

namespace CsrFile

/-- The cycles until the file is idle again, if its answer is taken at once. -/
def due (f : CsrFile) : Nat :=
  match f.control.phase with
  | .idle => 0
  | .busy n => max n 1 + 1
  | .responding => 1

/-- The answer that the file is about to give. -/
def prepared (f : CsrFile) : CsrResponse :=
  { valid := true, data := f.control.data, exception := f.control.exception }

theorem due_eq_zero {f : CsrFile} : f.due = 0 ↔ f.control.phase = .idle := by
  unfold due
  cases f.control.phase <;> simp

end CsrFile

namespace Machine

variable (m : Machine)

def drives : Master → CsrRequest
  | .execute => m.execute.busDrive
  | .debug => m.debug.busDrive

/-- A master waits for an answer. -/
def Expects : Master → Prop
  | .execute => m.execute.state.csr.phase = .response
  | .debug => m.debug.phase = .csrResponse

/-- The bus is held by a master, or by nobody. -/
structure Held (x? : Option Master) : Prop where
  acquired : m.arbiter.registers.acquired = x?.isSome
  owner : ∀ x, x? = some x → m.arbiter.registers.owner = x
  file : m.csr.control.phase = .idle ↔ x? = none
  expects : ∀ x, m.Expects x ↔ x? = some x

end Machine

/-! ## Exchanges -/

namespace Instant

variable (t : Instant)

/-- What a master drives. -/
def request : Master → CsrRequest
  | .execute => t.signals.execute.csr
  | .debug => t.signals.debug.csr

/-- What a master is told. -/
def response : Master → CsrResponse
  | .execute => t.signals.bus.execute
  | .debug => t.signals.bus.debug

/-- What reaches the register file. -/
def command : CsrRequest := t.signals.bus.slave

/-- The register file accepts a command. -/
def accepts : Bool := t.signals.csr.ready && t.command.valid

/-- A master gets rid of its request. -/
def issues (x : Master) : Bool := (t.request x).valid && (t.response x).ready

/-- What the command does that is accepted. -/
def effect : CsrFile.Effect := t.machine.csr.execute t.command

/-- The answer to the command that is accepted. -/
def answer : CsrResponse :=
  { valid := true, data := t.effect.data, exception := t.effect.exception }

/-- What happens on the bus, by who holds it before and after. -/
inductive Exchange : Option Master → Option Master → Prop
  | quiet (hf : t.machine.csr.control.phase = .idle) (hx : ∀ x, (t.request x).valid = false)
      (hv : t.command.valid = false) (hr : ∀ x, (t.response x).valid = false) :
    Exchange none none
  | accepted (x : Master) (hf : t.machine.csr.control.phase = .idle)
      (hx : (t.request x).valid = true)
      (hp : x = .debug → (t.request .execute).valid = false) (hc : t.command = t.request x)
      (hr : t.response x = { ready := true }) (ho : t.response x.other = {}) :
    Exchange none (some x)
  | busy (x : Master) (n : Nat) (hf : t.machine.csr.control.phase = .busy n)
      (hx : t.request x = { ready := true }) (hc : t.command = { ready := true })
      (hr : ∀ y, t.response y = {}) :
    Exchange (some x) (some x)
  | answered (x : Master) (hf : t.machine.csr.control.phase = .responding)
      (hx : t.request x = { ready := true }) (hc : t.command = { ready := true })
      (hr : t.response x = t.machine.csr.prepared) (ho : t.response x.other = {}) :
    Exchange (some x) none

end Instant

namespace Machine

variable {m : Machine} {w : Signals}

theorem Settled.request (hw : m.Settled w) (x : Master) :
    Instant.request ⟨m, w⟩ x = m.drives x := by
  cases x with
  | execute =>
    show w.execute.csr = _
    rw [hw.execute]
    exact Execute.step_wired.bus
  | debug =>
    show w.debug.csr = _
    rw [hw.debug]
    exact DebugPort.output_csr

/-- The arbiter connects the owner to the register file, and nobody else. -/
theorem Settled.connects (hw : m.Settled w) {x : Master}
    (hx : m.arbiter.owner (arbiterInput w) = x) :
    Instant.command ⟨m, w⟩ = m.drives x ∧ Instant.response ⟨m, w⟩ x = w.csr ∧
      Instant.response ⟨m, w⟩ x.other = {} := by
  have hreq := hw.request x
  have hb := hw.bus
  unfold CsrArbiter.output at hb
  rw [hx] at hb
  refine ⟨?_, ?_, ?_⟩
  · show w.bus.slave = _
    rw [hb, ← hreq]
    cases x <;> rfl
  · cases x
    · show w.bus.execute = _
      rw [hb]
      rfl
    · show w.bus.debug = _
      rw [hb]
      rfl
  · cases x
    · show w.bus.debug = _
      rw [hb]
      rfl
    · show w.bus.execute = _
      rw [hb]
      rfl

/-- Whoever is answered, it is the register file that answers. -/
theorem Settled.response_valid (hw : m.Settled w) {x : Master}
    (hx : (Instant.response ⟨m, w⟩ x).valid = true) : m.csr.control.phase = .responding := by
  obtain ⟨-, hr, ho⟩ := hw.connects rfl
  rcases Master.eq_or_eq_other (m.arbiter.owner (arbiterInput w)) x with rfl | rfl
  · rw [hr, hw.csr] at hx
    unfold CsrFile.output at hx
    split at hx
    · cases hx
    · cases hx
    · assumption
  · rw [ho] at hx
    cases hx

theorem Expects.drives {x : Master} (h : m.Expects x) : m.drives x = { ready := true } := by
  cases x with
  | execute =>
    have h : m.execute.state.csr.phase = .response := h
    simp only [Machine.drives, Execute.busDrive, h]
  | debug =>
    have h : m.debug.phase = .csrResponse := h
    simp only [Machine.drives, DebugPort.busDrive, h]

/-- A master waits after a cycle if its request was taken or if its answer did not come. -/
theorem expects_advance (hr : m.reset = false) (hw : m.Settled w) (x : Master) :
    (m.advance w).Expects x ↔ Instant.issues ⟨m, w⟩ x = true ∨
      m.Expects x ∧ (Instant.response ⟨m, w⟩ x).valid = false := by
  have hreq := hw.request x
  unfold Instant.issues
  rw [hreq, Bool.and_eq_true]
  cases x with
  | execute =>
    have hvalid : (m.drives .execute).valid = true ↔ m.execute.state.csr.phase = .request := by
      unfold drives Execute.busDrive
      cases m.execute.state.csr.phase <;> simp
    have hs := Execute.step_transacts (s := m.execute) (i := m.executeInput w)
    rw [hvalid]
    show (m.advance w).execute.state.csr.phase = .response ↔ _
    rw [advance_execute hr]
    exact hs.phase_eq_response
  | debug =>
    have hvalid : (m.drives .debug).valid = true ↔ m.debug.phase = .csrRequest := by
      unfold drives DebugPort.busDrive DebugPort.busRequest
      cases m.debug.phase <;> simp
    rw [hvalid]
    show (m.advance w).debug.phase = .csrResponse ↔ _
    rw [advance_debug hr]
    exact DebugPort.propose_phase_eq_csrResponse

theorem advance_control (hr : m.reset = false) :
    (m.advance w).csr.control = (m.csr.propose w.bus.slave).control := by
  rw [advance_csr hr]
  rfl

theorem advance_latency (hr : m.reset = false) : (m.advance w).csr.latency = m.csr.latency := by
  have fold_latency (f : CsrFile) (l : List CsrFile.Write) :
      (l.foldl (fun g x => g.poke x.addr x.value) f).latency = f.latency := by
    induction l generalizing f with
    | nil => rfl
    | cons x l ih => exact ih _
  have hside : (m.sideEffects w).latency = m.csr.latency := by
    unfold sideEffects CsrFile.recordTrap CsrFile.accrue CsrFile.retire CsrFile.poke
    cases w.trap.taken <;> dsimp only <;> repeat' split
    all_goals rfl
  rw [advance_csr hr, ← hside]
  exact fold_latency ..

namespace Held

variable {x? : Option Master}

theorem of_restarted {k : Machine} (h : Restarted k m) : m.Held none :=
  { acquired := by rw [h.arbiter]; rfl
    owner := by simp
    file := by rw [h.csr]; exact iff_of_true rfl rfl
    expects := by
      intro x
      cases x with
      | execute => simp [Expects, h.execute]
      | debug => simp [Expects, h.debug] }

theorem of_untouched {n : Machine} (hn : Untouched m n) (h : m.Held x?) : n.Held x? := by
  obtain ⟨h1, h2, h3, h4⟩ := h
  refine ⟨hn.arbiter ▸ h1, hn.arbiter ▸ h2, hn.csr ▸ h3, fun x => ?_⟩
  cases x with
  | execute =>
    have := h4 .execute
    unfold Expects at this ⊢
    rwa [hn.execute]
  | debug =>
    have := h4 .debug
    unfold Expects at this ⊢
    rwa [hn.debug]

/-- While nobody holds the bus, the request of the execute stage goes first. -/
theorem owner_of_free (h : m.Held none) (hw : m.Settled w) :
    m.arbiter.owner (arbiterInput w) =
      if (m.drives .execute).valid then .execute
      else if (m.drives .debug).valid then .debug
      else m.arbiter.registers.owner := by
  have hexec : (arbiterInput w).execute.valid = (m.drives .execute).valid := by
    rw [← hw.request]
    rfl
  have hdebug : (arbiterInput w).debug.valid = (m.drives .debug).valid := by
    rw [← hw.request]
    rfl
  have ha : m.arbiter.registers.acquired = false := h.acquired
  unfold CsrArbiter.owner
  rw [ha, hexec, hdebug]
  rfl

theorem owner_of_held {x : Master} (h : m.Held (some x)) :
    m.arbiter.owner (arbiterInput w) = x := by
  have ha : m.arbiter.registers.acquired = true := h.acquired
  unfold CsrArbiter.owner
  rw [ha]
  exact h.owner x rfl

theorem exchange_of_free (h : m.Held none) (hw : m.Settled w) :
    ∃ y?, Instant.Exchange ⟨m, w⟩ none y? ∧
      ∀ y, y? = some y → m.arbiter.owner (arbiterInput w) = y := by
  have hf : m.csr.control.phase = .idle := h.file.2 rfl
  have hcsr : w.csr = { ready := true } := by rw [hw.csr, CsrFile.output, hf]
  have howner := h.owner_of_free hw
  have accepted (x : Master) (hx : (m.drives x).valid = true)
      (hp : x = .debug → (m.drives .execute).valid = false)
      (ho : m.arbiter.owner (arbiterInput w) = x) :
      ∃ y?, Instant.Exchange ⟨m, w⟩ none y? ∧
        ∀ y, y? = some y → m.arbiter.owner (arbiterInput w) = y := by
    obtain ⟨hc, hr, hother⟩ := hw.connects ho
    refine ⟨some x, .accepted x hf ?_ ?_ ?_ (hr.trans hcsr) hother, fun y hy => ?_⟩
    · rwa [hw.request]
    · rwa [hw.request]
    · rw [hc, hw.request]
    · rw [ho, Option.some.inj hy]
  cases he : (m.drives .execute).valid with
  | true => exact accepted .execute he (by simp) (by rw [howner, he]; rfl)
  | false =>
    cases hd : (m.drives .debug).valid with
    | true => exact accepted .debug hd (fun _ => he) (by rw [howner, he, hd]; rfl)
    | false =>
      have hnone : ∀ x, (m.drives x).valid = false := by
        intro x
        cases x
        · exact he
        · exact hd
      obtain ⟨hc, hr, ho⟩ := hw.connects rfl
      refine ⟨none, .quiet hf (fun x => ?_) ?_ (fun x => ?_), by simp⟩
      · rw [hw.request, hnone]
      · rw [hc, hnone]
      · rcases Master.eq_or_eq_other (m.arbiter.owner (arbiterInput w)) x with rfl | rfl
        · rw [hr, hcsr]
        · rw [ho]

theorem exchange_of_held {x : Master} (h : m.Held (some x)) (hw : m.Settled w) :
    ∃ y?, Instant.Exchange ⟨m, w⟩ (some x) y? := by
  have hdrive := Expects.drives ((h.expects x).2 rfl)
  obtain ⟨hc, hr, ho⟩ := hw.connects h.owner_of_held
  rw [hdrive] at hc
  have hx : Instant.request ⟨m, w⟩ x = { ready := true } := (hw.request x).trans hdrive
  have hcsr := hw.csr
  unfold CsrFile.output at hcsr
  cases hf : m.csr.control.phase with
  | idle => cases h.file.1 hf
  | busy n =>
    rw [hf] at hcsr
    refine ⟨some x, .busy x n hf hx hc fun y => ?_⟩
    rcases Master.eq_or_eq_other x y with rfl | rfl
    · rw [hr, hcsr]
    · exact ho
  | responding =>
    rw [hf] at hcsr
    exact ⟨none, .answered x hf hx hc (by rw [hr, hcsr]; rfl) ho⟩

theorem exchange (h : m.Held x?) (hw : m.Settled w) :
    ∃ y?, Instant.Exchange ⟨m, w⟩ x? y? ∧
      ∀ y, x?.or y? = some y → m.arbiter.owner (arbiterInput w) = y := by
  cases x? with
  | none => exact h.exchange_of_free hw
  | some x =>
    obtain ⟨y?, he⟩ := h.exchange_of_held hw
    refine ⟨y?, he, fun y hy => ?_⟩
    rw [h.owner_of_held]
    exact Option.some.inj hy

/-- After an exchange its new owner waits, and nobody else. -/
theorem expects_of_exchange {y? : Option Master} (h : m.Held x?) (hr : m.reset = false)
    (hw : m.Settled w) (he : Instant.Exchange ⟨m, w⟩ x? y?) (y : Master) :
    (m.advance w).Expects y ↔ y? = some y := by
  rw [expects_advance hr hw, h.expects]
  unfold Instant.issues
  cases he with
  | quiet _ hx => simp [hx]
  | accepted x _ hx _ _ hresp ho =>
    rcases Master.eq_or_eq_other x y with rfl | rfl
    · simp [hx, hresp]
    · simp [ho, x.other_ne.symm]
  | busy x n _ hx _ hresp =>
    rcases Master.eq_or_eq_other x y with rfl | rfl
    · simp [hx, hresp]
    · simp [hresp, x.other_ne.symm]
  | answered x _ hx _ hresp ho =>
    rcases Master.eq_or_eq_other x y with rfl | rfl
    · simp [hx, hresp, CsrFile.prepared]
    · simp [ho, x.other_ne.symm]

theorem arbiter_of_exchange {y? : Option Master} (h : m.Held x?) (hr : m.reset = false)
    (hw : m.Settled w) (he : Instant.Exchange ⟨m, w⟩ x? y?)
    (ho : ∀ y, x?.or y? = some y → m.arbiter.owner (arbiterInput w) = y) :
    (m.advance w).arbiter.registers.acquired = y?.isSome ∧
      ∀ y, y? = some y → (m.advance w).arbiter.registers.owner = y := by
  have hreq (x : Master) : (arbiterInput w).request x = Instant.request ⟨m, w⟩ x := by
    cases x <;> rfl
  have hvalid : (arbiterInput w).slave.valid = (m.csr.output w.bus.slave).valid :=
    congrArg (·.valid) hw.csr
  have ha := h.acquired
  rw [advance_arbiter hr]
  unfold CsrArbiter.propose
  unfold CsrFile.output at hvalid
  cases he with
  | quiet hf hx => simp [hreq, hx, show m.arbiter.registers.acquired = false from ha]
  | accepted x hf hx =>
    rw [hf] at hvalid
    simp [ho x rfl, hreq, hx, hvalid, show m.arbiter.registers.acquired = false from ha]
  | busy x n hf hx =>
    rw [hf] at hvalid
    simp [hvalid, show m.arbiter.registers.acquired = true from ha, h.owner x rfl]
  | answered x hf hx =>
    rw [hf] at hvalid
    simp [ho x rfl, hreq, hx, hvalid]

theorem advance {y? : Option Master} (h : m.Held x?) (hr : m.reset = false) (hw : m.Settled w)
    (he : Instant.Exchange ⟨m, w⟩ x? y?)
    (ho : ∀ y, x?.or y? = some y → m.arbiter.owner (arbiterInput w) = y) :
    (m.advance w).Held y? := by
  obtain ⟨ha, hown⟩ := h.arbiter_of_exchange hr hw he ho
  refine ⟨ha, hown, ?_, h.expects_of_exchange hr hw he⟩
  rw [advance_control hr]
  unfold CsrFile.propose
  cases he with
  | quiet hf hx hv =>
    have hv : w.bus.slave.valid = false := hv
    simp [show m.csr.control.phase = .idle from hf, hv]
  | accepted x hf hx _ hc =>
    have hv : w.bus.slave.valid = true := (congrArg (·.valid) hc).trans hx
    simp only [show m.csr.control.phase = .idle from hf, hv, if_true]
    split <;> simp
  | busy x n hf =>
    simp only [show m.csr.control.phase = .busy n from hf]
    split <;> simp
  | answered x hf _ hc =>
    have hv : w.bus.slave.ready = true := congrArg (·.ready) hc
    simp [show m.csr.control.phase = .responding from hf, hv]

/-- Every cycle with reset low is an exchange after which all agree again. -/
theorem step (h : m.Held x?) (hr : m.reset = false) (hw : m.Settled w) :
    ∃ y?, Instant.Exchange ⟨m, w⟩ x? y? ∧ (m.advance w).Held y? := by
  obtain ⟨y?, he, ho⟩ := h.exchange hw
  exact ⟨y?, he, h.advance hr hw he ho⟩

/-! ## The register file in an exchange -/

/-- A command is carried out when it is accepted, and answered a latency later. -/
theorem file_of_accepted {x : Master} (hr : m.reset = false)
    (he : Instant.Exchange ⟨m, w⟩ none (some x)) (hl : 1 ≤ m.csr.latency) :
    (m.advance w).csr.prepared = Instant.answer ⟨m, w⟩ ∧
      (m.advance w).csr.due = m.csr.latency := by
  have hcontrol := advance_control (w := w) hr
  cases he with
  | accepted x hf hx _ hc =>
    have hf : m.csr.control.phase = .idle := hf
    have hv : w.bus.slave.valid = true := (congrArg (·.valid) hc).trans hx
    simp only [CsrFile.propose, hf, hv, if_true] at hcontrol
    refine ⟨by rw [CsrFile.prepared, hcontrol]; rfl, ?_⟩
    rw [CsrFile.due, hcontrol]
    by_cases h : m.csr.latency ≤ 1
    · simp only [h, if_true]
      omega
    · simp only [h, if_false]
      omega

theorem file_of_busy {x : Master} (hr : m.reset = false)
    (he : Instant.Exchange ⟨m, w⟩ (some x) (some x)) :
    (m.advance w).csr.prepared = m.csr.prepared ∧ (m.advance w).csr.due + 1 = m.csr.due := by
  have hcontrol := advance_control (w := w) hr
  cases he with
  | busy x n hf =>
    have hf : m.csr.control.phase = .busy n := hf
    simp only [CsrFile.propose, hf] at hcontrol
    refine ⟨by rw [CsrFile.prepared, hcontrol]; rfl, ?_⟩
    rw [CsrFile.due, hcontrol, CsrFile.due, hf]
    by_cases h : n ≤ 1
    · simp only [h, if_true]
      omega
    · simp only [h, if_false]
      omega

theorem due_of_answered {x : Master} (he : Instant.Exchange ⟨m, w⟩ (some x) none) :
    m.csr.due = 1 := by
  cases he with
  | answered _ hf =>
    have hf : m.csr.control.phase = .responding := hf
    rw [CsrFile.due, hf]

end Held

end Machine

/-! ## Who issues, and who is answered -/

namespace Instant.Exchange

variable {t : Instant} {x? y? : Option Master}

theorem issues_iff (h : t.Exchange x? y?) (x : Master) :
    t.issues x = true ↔ x? = none ∧ y? = some x := by
  unfold issues
  cases h with
  | quiet _ hx => simp [hx]
  | accepted y _ hy _ _ hr ho =>
    rcases Master.eq_or_eq_other y x with rfl | rfl
    · simp [hy, hr]
    · simp [ho, y.other_ne.symm]
  | busy y _ _ _ _ hr => simp [hr]
  | answered y _ hy _ _ ho =>
    rcases Master.eq_or_eq_other y x with rfl | rfl
    · simp [hy]
    · simp [ho]

theorem valid_iff (h : t.Exchange x? y?) (x : Master) :
    (t.response x).valid = true ↔ x? = some x ∧ y? = none := by
  cases h with
  | quiet _ _ _ hr => simp [hr]
  | accepted y _ _ _ _ hr ho =>
    rcases Master.eq_or_eq_other y x with rfl | rfl
    · simp [hr]
    · simp [ho]
  | busy y _ _ _ _ hr => simp [hr]
  | answered y _ _ _ hr ho =>
    rcases Master.eq_or_eq_other y x with rfl | rfl
    · simp [hr, CsrFile.prepared]
    · simp [ho, y.other_ne.symm]

theorem command_of_issues (h : t.Exchange x? y?) {x : Master} (hx : t.issues x = true) :
    t.command = t.request x := by
  obtain ⟨rfl, rfl⟩ := (h.issues_iff x).1 hx
  cases h with
  | accepted _ _ _ _ hc => exact hc

/-- A command is accepted when a master gets rid of its request. -/
theorem accepts_iff (h : t.Exchange x? y?) (hw : t.machine.Settled t.signals) :
    t.accepts = true ↔ ∃ x, t.issues x = true := by
  have hready : t.signals.csr.ready = (t.machine.csr.output t.command).ready :=
    congrArg (·.ready) hw.csr
  simp only [h.issues_iff]
  unfold accepts
  rw [hready]
  unfold CsrFile.output
  cases h with
  | quiet hf _ hv => simp [hf, hv]
  | accepted x hf hx _ hc => simp [hf, hc, hx]
  | busy x n hf => simp [hf]
  | answered x hf => simp [hf]

theorem not_issues (h : t.Exchange x? y?) (hx : x? ≠ none) (x : Master) : t.issues x = false := by
  rw [Bool.eq_false_iff, Ne, h.issues_iff]
  exact fun hc => hx hc.1

theorem not_accepts (h : t.Exchange x? y?) (hw : t.machine.Settled t.signals) (hx : x? ≠ none) :
    t.accepts = false := by
  rw [Bool.eq_false_iff, Ne, h.accepts_iff hw]
  rintro ⟨x, hi⟩
  rw [h.not_issues hx] at hi
  cases hi

end Instant.Exchange

/-- A configuration within its limits gives the file time to answer. -/
theorem Config.Valid.csrLatency {c : Config} (h : c.Valid) : 1 ≤ c.csr.latency := by
  unfold Valid fault? at h
  split at h
  · cases h
  · split at h
    · cases h
    · split at h
      · cases h
      · omega

namespace Machine

/-- The parties agree, and the file keeps to its latency. -/
structure BusInvariant (latency : Nat) (m : Machine) : Prop where
  positive : 1 ≤ latency
  held : ∃ x?, m.Held x?
  due : m.csr.due ≤ latency
  latency : m.csr.latency = latency

namespace BusInvariant

variable {latency : Nat} {m : Machine} {w : Signals}

theorem of_restarted {n : Machine} (hn : Restarted m n) (hp : 1 ≤ latency)
    (hl : m.csr.latency = latency) : n.BusInvariant latency :=
  { positive := hp
    held := ⟨none, .of_restarted hn⟩
    due := by rw [hn.csr]; exact Nat.zero_le _
    latency := by rw [hn.csr]; exact hl }

theorem of_untouched {n : Machine} (hn : Untouched m n) (h : m.BusInvariant latency) :
    n.BusInvariant latency := by
  obtain ⟨hp, ⟨x?, hx⟩, hd, hl⟩ := h
  exact ⟨hp, ⟨x?, hx.of_untouched hn⟩, hn.csr ▸ hd, hn.csr ▸ hl⟩

theorem advance (h : m.BusInvariant latency) (hr : m.reset = false) (hw : m.Settled w) :
    (m.advance w).BusInvariant latency := by
  obtain ⟨hp, ⟨x?, hx⟩, hd, hl⟩ := h
  obtain ⟨y?, he, hy⟩ := hx.step hr hw
  refine ⟨hp, ⟨y?, hy⟩, ?_, (advance_latency hr).trans hl⟩
  cases y? with
  | none =>
    rw [CsrFile.due_eq_zero.2 (hy.file.2 rfl)]
    exact Nat.zero_le _
  | some y =>
    cases x? with
    | none =>
      rw [← hl] at hp ⊢
      exact Nat.le_of_eq (Held.file_of_accepted hr he hp).2
    | some x =>
      have hxy : y = x := by cases he; rfl
      subst hxy
      have := (Held.file_of_busy hr he).2
      omega

theorem ofConfig {c : Config} (hc : c.Valid) (p : Program) :
    (Machine.ofConfig c p).BusInvariant c.csr.latency :=
  .of_restarted (restarted_ofConfig c p) hc.csrLatency (Nat.max_eq_left hc.csrLatency)

end BusInvariant

end Machine

/-! ## The bus as the execute stage sees it -/

namespace Instant

/-- What the bus does for the transaction of the execute stage, by how far that has come. -/
inductive Turn (latency : Nat) (t : Instant) : Execute.CsrPhase → Prop
  | absent (hi : t.issues .execute = false) : Turn latency t .idle
  | taken (hi : t.issues .execute = true) (ha : t.accepts = true)
      (hr : (t.response .execute).ready = true) (hc : t.command = t.machine.execute.busDrive)
      (hd : t.next.csr.due = latency) (hp : t.next.csr.prepared = t.answer) :
    Turn latency t .request
  | refused (hi : t.issues .execute = false) (hr : (t.response .execute).ready = false)
      (hd : t.next.csr.due + 1 = t.machine.csr.due) : Turn latency t .request
  | waiting (hi : t.issues .execute = false) (ha : t.accepts = false)
      (hv : (t.response .execute).valid = false) (hd : t.next.csr.due + 1 = t.machine.csr.due)
      (hp : t.next.csr.prepared = t.machine.csr.prepared) : Turn latency t .response
  | answered (hi : t.issues .execute = false) (ha : t.accepts = false)
      (hr : t.response .execute = t.machine.csr.prepared) (hd : t.machine.csr.due = 1)
      (hn : t.next.csr.due = 0) : Turn latency t .response

end Instant

namespace Machine.BusInvariant

variable {latency : Nat} {m : Machine} {w : Signals}

variable {x? y? : Option Master}

/-- A request is taken if nobody holds the bus, as the execute stage goes first. -/
theorem turn_of_request (h : m.BusInvariant latency) (hr : m.reset = false) (hw : m.Settled w)
    (hx : m.Held x?) (hy : (m.advance w).Held y?) (he : Instant.Exchange ⟨m, w⟩ x? y?)
    (hp : m.execute.state.csr.phase = .request) : Instant.Turn latency ⟨m, w⟩ .request := by
  have hreq : Instant.request ⟨m, w⟩ .execute = m.execute.busDrive := hw.request .execute
  have hvalid : (Instant.request ⟨m, w⟩ .execute).valid = true := by
    rw [hreq, Execute.busDrive, hp]
  have hne : x? ≠ some .execute := by
    rw [Ne, ← hx.expects .execute]
    show m.execute.state.csr.phase ≠ .response
    simp [hp]
  have he' := he
  cases he with
  | quiet _ hq =>
    rw [hq] at hvalid
    cases hvalid
  | accepted x _ hv hprio hc hresp =>
    cases x with
    | debug =>
      rw [hprio rfl] at hvalid
      cases hvalid
    | execute =>
      have hi := (he'.issues_iff .execute).2 ⟨rfl, rfl⟩
      obtain ⟨hprep, hdue⟩ := Held.file_of_accepted hr he' (h.latency.symm ▸ h.positive)
      exact .taken hi ((he'.accepts_iff hw).2 ⟨_, hi⟩) (by rw [hresp]) (hc.trans hreq)
        (hdue.trans h.latency) hprep
  | busy x n _ _ _ hresp =>
    exact .refused (he'.not_issues (by simp) _) (by rw [hresp]) (Held.file_of_busy hr he').2
  | answered x _ _ _ _ ho =>
    cases x with
    | execute => exact absurd rfl hne
    | debug =>
      have hdue : (m.advance w).csr.due + 1 = m.csr.due := by
        rw [CsrFile.due_eq_zero.2 (hy.file.2 rfl), Held.due_of_answered he']
      have ho : Instant.response ⟨m, w⟩ .execute = {} := ho
      exact .refused (he'.not_issues (by simp) _) (by rw [ho]) hdue

theorem turn_of_response (hr : m.reset = false) (hw : m.Settled w) (hy : (m.advance w).Held y?)
    (he : Instant.Exchange ⟨m, w⟩ (some .execute) y?) : Instant.Turn latency ⟨m, w⟩ .response := by
  have hi := he.not_issues (by simp) .execute
  have ha := he.not_accepts hw (by simp)
  have he' := he
  cases he with
  | busy _ n _ _ _ hresp =>
    obtain ⟨hprep, hdue⟩ := Held.file_of_busy hr he'
    exact .waiting hi ha (by rw [hresp]) hdue hprep
  | answered _ _ _ _ hresp =>
    exact .answered hi ha hresp (Held.due_of_answered he') (CsrFile.due_eq_zero.2 (hy.file.2 rfl))

theorem turn (h : m.BusInvariant latency) (hr : m.reset = false) (hw : m.Settled w) :
    Instant.Turn latency ⟨m, w⟩ m.execute.state.csr.phase := by
  obtain ⟨x?, hx⟩ := h.held
  obtain ⟨y?, he, hy⟩ := hx.step hr hw
  cases hp : m.execute.state.csr.phase with
  | idle =>
    refine .absent ?_
    unfold Instant.issues
    rw [hw.request, drives, Execute.busDrive, hp]
    rfl
  | request => exact h.turn_of_request hr hw hx hy he hp
  | response =>
    obtain rfl := (hx.expects .execute).1 hp
    exact turn_of_response hr hw hy he

end Machine.BusInvariant

end RiscvPipeline
