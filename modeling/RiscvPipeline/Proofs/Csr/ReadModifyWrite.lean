import RiscvPipeline.Proofs.Csr.Access

/-!
# Reads, modifications and writes are isolated

An instruction that reads, modifies and writes a control and status register sends its commands one
right after the other among all that the file accepts, and delivers what it has read. The debug port
may come with a request in any cycle.
-/

namespace RiscvPipeline

open Execute

namespace Instant

variable {t : Instant}

/-- The result of the execute stage is what goes into the register file. -/
theorem next_registers {r : RegIndex} {v : Word} (hr : t.machine.reset = false)
    (hw : t.machine.Settled t.signals) (h : t.result? = some (r, v)) :
    t.next.registers = t.machine.registers.write r v := by
  unfold result? at h
  dsimp only at h
  split at h
  next henable =>
    obtain ⟨rfl, rfl⟩ := Prod.mk.inj (Option.some.inj h)
    have hready : (t.machine.executeInput t.signals).writeReady = true :=
      step_writeReady (by rwa [hw.execute] at henable)
    have haccess : t.signals.access.write.enable = false := by
      simpa [Machine.executeInput] using hready
    show (t.machine.advance t.signals).registers = _
    rw [Machine.advance_registers hr, Machine.writtenRegisters, haccess, henable]
    rfl
  · cases h

end Instant

namespace Stage

variable {latency : Nat} {d : DecodedInstruction} {operand old : Word} {ts own : List Instant}
  {m n : Machine}

theorem of_untouched (hn : Machine.Untouched m n) (h : Stage latency d operand m ts own old) :
    Stage latency d operand n ts own old := by
  have he := hn.execute.symm
  have hc := hn.csr.symm
  cases h with
  | requesting ho hr hs hb => exact .requesting ho hr (he ▸ hs) (hc ▸ hb)
  | reading t ho hd hq hr hs hv hp hk hl hb =>
    exact .reading t ho hd hq hr (he ▸ hs) hv (hc ▸ hp) (hc ▸ hk) hl (hc ▸ hb)
  | rewriting t ho hd hw hq hr hs hv hj hk hl hi hb =>
    exact .rewriting t ho hd hw hq hr (he ▸ hs) (he ▸ hv) hj (hc ▸ hk) hl (hc ▸ hi) hb
  | writing t ht ho hr hs hv hp hu hb =>
    exact .writing t ht ho hr (he ▸ hs) (he ▸ hv) (hc ▸ hp) hu (hc ▸ hb)
  | parked ho ht hr hs hf hb => exact .parked ho ht hr (he ▸ hs) (hn.access.symm ▸ hf) hb
  | completed ho hr hs hi => exact .completed ho hr (he ▸ hs) (he ▸ hi)
  | rejected t ht hq hu hr hs hi => exact .rejected t ht hq hu hr (he ▸ hs) (he ▸ hi)

end Stage

namespace Underway

variable {latency : Nat} {d : DecodedInstruction} {t : Instant}

/-- An accepted instruction asks for the bus. -/
theorem of_accepted (hn : t.machine.Steady latency) (hr : t.machine.reset = false)
    (hw : t.machine.Settled t.signals) (ha : t.accepted? = some d) (hd : d.opcode.cls = .csr)
    (hl : t.signals.execute.exceptions.illegal = false) :
    Underway latency d (d.csrOperand t.machine.registers) t.next [] := by
  have he := hw.execute
  obtain ⟨hvalid, hi⟩ := t.accepted?_eq_some.1 ha
  have hread : (t.machine.executeInput t.signals).a = t.machine.registers.read d.source1 := by
    have hindex : t.signals.execute.readIndex1 = d.source1 := by
      have hi : (t.machine.executeInput t.signals).instruction = some d := hi
      rw [he, step_wired.readIndex1, hi]
      rfl
    show t.machine.registers.read t.signals.execute.readIndex1 = _
    rw [hindex]
  have hs := accessing_of_accepted (s := t.machine.execute) (i := t.machine.executeInput t.signals)
    (he ▸ hvalid) hi hd (he ▸ hl) hread
  refine ⟨[], 0, .nil rfl, .requesting rfl rfl ?_ ?_⟩
  · rw [t.next_execute hr]
    exact hs
  · rw [List.length_nil, Nat.zero_add]
    exact (hn.toBusInvariant.advance hr hw).due

/-- An access goes from stage to stage while no instruction is accepted and no trap hits it. -/
theorem along {c : Config} (hc : c.Valid) {p : Program} {h : List Stimulus}
    {before later : List Instant}
    (hh : (Machine.ofConfig c p).cycles h = before ++ t :: later) (ha : t.accepted? = some d)
    (hd : d.opcode.cls = .csr) (hl : t.signals.execute.exceptions.illegal = false)
    (hq : ∀ s ∈ later, s.signals.execute.valid = false ∧ s.hits = false) :
    Underway c.csr.latency d (d.csrOperand t.machine.registers) ((Machine.ofConfig c p).after h)
      later := by
  refine Machine.since_induction (I := Machine.Steady c.csr.latency)
    (S := fun s => s.accepted? = some d ∧ s.signals.execute.exceptions.illegal = false)
    (Q := fun s => s.signals.execute.valid = false ∧ s.hits = false)
    (P := fun s ts n => Underway c.csr.latency d (d.csrOperand s.machine.registers) n ts)
    (fun h => .after hc p h) ?_ ?_ ?_ hh ⟨ha, hl⟩ hq
  · rintro s ts m n hn ⟨own, old, hcarried, hstage⟩
    exact ⟨own, old, hcarried, hstage.of_untouched hn⟩
  · rintro m w hm hr hw ⟨ha, hl⟩
    exact of_accepted (t := ⟨m, w⟩) hm hr hw ha hd hl
  · rintro s ts m w hm hr hw ⟨hv, ht⟩ hu
    exact Stage.step (t := ⟨m, w⟩) hm hr hw ht hd hv hu

end Underway

/-! ## The whole -/

/-- What has come of an access of `d` in the cycles `ts` since its acceptance. -/
structure Accessed (latency : Nat) (d : DecodedInstruction) (operand : Word) (n : Machine)
    (ts own : List Instant) (old : Word) : Prop extends Carried d operand ts own old where
  results : Instant.results ts <+: if d.target = 0 then [] else [(d.target, old)]
  /-- Unless a command is rejected the instruction is finished in time, -/
  finished : (∀ t ∈ own, t.rejected = false) → 3 * latency + 3 ≤ ts.length →
    n.execute.state.phase.IsOpen
  /-- and then everything has been done. -/
  complete : (∀ t ∈ own, t.rejected = false) → n.execute.state.phase.IsOpen →
    own.map (·.command) = d.csrCommands operand old ∧
      Instant.results ts = if d.target = 0 then [] else [(d.target, old)]

theorem Stage.accessed {latency : Nat} {d : DecodedInstruction} {operand old : Word} {n : Machine}
    {ts own : List Instant} (hc : Carried d operand ts own old)
    (h : Stage latency d operand n ts own old) : Accessed latency d operand n ts own old := by
  have early (hr : Instant.results ts = []) (hp : n.execute.state.phase = .single)
      (hb : ts.length ≤ 3 * latency + 2) : Accessed latency d operand n ts own old :=
    { hc with
      results := hr ▸ List.nil_prefix
      finished := fun _ hl => by omega
      complete := fun _ ho => by
        rw [hp] at ho
        rcases ho with ho | ho | ho <;> cases ho }
  cases h with
  | requesting _ hr hs hb => exact early hr hs.phase (by omega)
  | reading _ _ _ _ hr hs _ _ _ _ hb => exact early hr hs.phase (by omega)
  | rewriting _ _ _ _ _ hr hs _ _ _ _ _ hb => exact early hr hs.phase (by omega)
  | writing _ _ _ hr hs _ _ _ hb => exact early hr hs.phase (by omega)
  | parked _ _ hr hs _ hb => exact early hr hs.phase hb
  | completed ho hr hs =>
    exact
      { hc with
        results := hr ▸ List.prefix_refl _
        finished := fun _ _ => hs
        complete := fun _ _ => ⟨ho, hr⟩ }
  | rejected t ht hq _ hr hs =>
    have hne (hu : ∀ t ∈ own, t.rejected = false) : False := by
      rw [hu t ht] at hq
      cases hq
    exact
      { hc with
        results := hr ▸ List.nil_prefix
        finished := fun hu => (hne hu).elim
        complete := fun hu => (hne hu).elim }

namespace Machine

/-- An instruction that is accepted, and that no trap or reset comes in the way of, accesses its
register as it should, and what it delivers is written. -/
theorem csr_access {writable : String → Bool} {c : Config} {p : Program} {m₀ : Machine}
    (hnew : Machine.new writable c p = .ok m₀) {h : List Stimulus} {before later : List Instant}
    {first : Instant} (hh : m₀.cycles h = before ++ first :: later) {d : DecodedInstruction}
    (ha : first.accepted? = some d) (hd : d.opcode.cls = .csr)
    (hl : first.signals.execute.exceptions.illegal = false)
    (hv : ∀ t ∈ later, t.signals.execute.valid = false) (ht : ∀ t ∈ later, t.hits = false) :
    (∃ own old, Accessed c.csr.latency d (d.csrOperand first.machine.registers) (m₀.after h)
        later own old) ∧
      ∀ t ∈ later, ∀ r v, t.result? = some (r, v) →
        t.next.registers = t.machine.registers.write r v := by
  obtain ⟨hc, rfl⟩ := eq_ofConfig_of_new hnew
  constructor
  · obtain ⟨own, old, hcarried, hstage⟩ :=
      Underway.along hc hh ha hd hl fun t hmem => ⟨hv t hmem, ht t hmem⟩
    exact ⟨own, old, hstage.accessed hcarried⟩
  · intro t hmem r v hresult
    obtain ⟨xs, ys, rfl⟩ := List.append_of_mem hmem
    obtain ⟨hr, hw, -⟩ := of_cycles_eq
      (hh.trans (List.append_assoc before (first :: xs) (t :: ys)).symm)
    exact t.next_registers hr hw hresult

/-- A swap of a general register and a control and status register. -/
def swap : DecodedInstruction := { pc := resetVector, word := 0x34029373, opcode := .csrrw }

/-- The debug port wants to write the register too. -/
theorem csr_access_swap :
    let m₀ := ofConfig {} { instructions := #[swap] }
    let asked : List Stimulus :=
      [.register 5 0x30, .request { addr := 0x340, write := true, wdata := 0x77 }]
    let later := (m₀.after asked).instants 8 |>.tail
    Machine.new (fun _ => true) {} { instructions := #[swap] } = .ok m₀ ∧
      ∃ own old, Accessed 1 swap 0x30 (m₀.after (asked ++ .replicate 8 .tick)) later own old ∧
        Instant.results later = [(6, old)] := by
  intro m₀ asked later
  have hnew : Machine.new (fun _ => true) {} { instructions := #[swap] } = .ok m₀ := rfl
  have hh : m₀.cycles (asked ++ .replicate 8 .tick) = [] ++ ((m₀.after asked).instants 8).head
      (List.cons_ne_nil _ _) :: later :=
    cycles_append_replicate_tick (by decide +kernel) rfl 8
  have hv : ∀ t ∈ later, t.signals.execute.valid = false := by decide +kernel
  have ht : ∀ t ∈ later, t.hits = false := by decide +kernel
  obtain ⟨⟨own, old, h⟩, -⟩ := csr_access hnew hh (d := swap) (by decide +kernel) rfl
    (by decide +kernel) hv ht
  have hrejected : ∀ t ∈ later.filter (·.issues .execute), t.rejected = false := by decide +kernel
  have hopen : (m₀.after (asked ++ .replicate 8 .tick)).execute.state.phase = .waiting := by
    decide +kernel
  exact ⟨hnew, own, old, h, (h.complete (h.sent ▸ hrejected) (.inl hopen)).2⟩

end Machine

end RiscvPipeline
