import RiscvPipeline.Proofs.Built
import RiscvPipeline.Proofs.Execute.CsrAccess
import RiscvPipeline.Proofs.Resumption

/-!
# To whom a transaction belongs

A transaction of the execute stage on the bus to the control and status registers belongs to the
instruction that the stage accepted last: the stage accepts none while it has a transaction. So a
program whose instructions have no use for the bus leaves it alone
(`Machine.transaction_idle`).
-/

namespace RiscvPipeline

theorem Program.mem_of_at? {p : Program} {pc : Word} {d : DecodedInstruction}
    (h : p.at? pc = some d) : d ∈ p.instructions := by
  unfold Program.at? at h
  split at h
  · exact Array.mem_of_getElem? h
  · cases h

namespace DecodedInstruction

/-- The instruction sends the command to the address. -/
def Sends (d : DecodedInstruction) (c : CsrCommand) (a : CsrAddress) : Prop :=
  match d.opcode.cls with
  | .csr => (c = .read ∨ c = .write) ∧ a = d.csrAddress
  | .trapReturn => c = .trapReturn ∧ a = (Execute.returnRegister d.opcode).addr
  | .wfi => c = .wfi ∧ a = 0
  | _ => False

/-- The instruction cannot do without the bus to the control and status registers. -/
def NeedsBus (d : DecodedInstruction) : Prop :=
  d.opcode.cls = .csr ∨ d.opcode.cls = .trapReturn ∨ d.opcode.cls = .wfi

instance (d : DecodedInstruction) : Decidable d.NeedsBus := inferInstanceAs (Decidable (_ ∨ _ ∨ _))

theorem Sends.needsBus {d : DecodedInstruction} {c : CsrCommand} {a : CsrAddress}
    (h : d.Sends c a) : d.NeedsBus := by
  unfold Sends at h
  split at h
  next hd => exact .inl hd
  next hd => exact .inr (.inl hd)
  next hd => exact .inr (.inr hd)
  next => exact h.elim

end DecodedInstruction

namespace Execute

attribute [local simp] opening_eq Cycle.trap Cycle.occupied Cycle.ready Cycle.raise Cycle.accept
  Cycle.keep Cycle.complete_eq Cycle.unitDone_eq Cycle.accessCsr Cycle.command Cycle.writeCsr

variable {s : Execute} {i : Input} {d : DecodedInstruction} {d? : Option DecodedInstruction}

/-- The transaction of the stage is one of `d`, and so is the answer that it waits for. -/
structure State.Serves (d : DecodedInstruction) (s : State) : Prop where
  sends : d.Sends s.csr.command s.csr.addr
  opcode : s.phase = .single → s.current.opcode = some d.opcode

/-- If there is a transaction it belongs to the instruction accepted last. -/
def State.Owned (d? : Option DecodedInstruction) (s : State) : Prop :=
  s.csr.phase ≠ .idle → ∃ d, d? = some d ∧ s.Serves d

namespace State.Owned

theorem of_keeps {c : Cycle} (h : s.state.Owned d?) (hc : s.Keeps i c)
    (ho : c.next.phase = .single →
      s.state.phase = .single ∧ c.next.current.opcode = s.state.current.opcode) :
    c.next.Owned d? := by
  intro hp
  rw [hc.phase] at hp
  obtain ⟨d, hd, hsends, hop⟩ := h (BusFits.left hp).1
  refine ⟨d, hd, by rwa [hc.command, hc.addr], fun hn => ?_⟩
  obtain ⟨hs, hcur⟩ := ho hn
  rw [hcur, hop hs]

/-- An accepted instruction that needs the bus begins a transaction. -/
theorem of_accepted (hi : s.state.csr.phase = .idle) {c : Cycle}
    (ha : Cycle.Accepted s.fpuEnabled (s.opening i).ready s.state i d c) :
    c.next.Owned (some d) := by
  have hl := transactionLeft_idle (i := i) hi
  cases ha with
  | csr _ hd =>
    refine fun _ => ⟨d, rfl, ?_, by simp⟩
    simp only [DecodedInstruction.Sends, hd]
    refine ⟨?_, rfl⟩
    simp only [Cycle.accessCsr, Cycle.keep, Cycle.accept]
    split <;> simp
  | trapReturn _ hd =>
    exact fun _ => ⟨d, rfl, by simp [DecodedInstruction.Sends, hd], by simp⟩
  | wfi _ hd =>
    exact fun _ => ⟨d, rfl, by simp [DecodedInstruction.Sends, hd], by simp⟩
  | _ => exact fun hp => absurd (by simpa [hl] using hi) hp

/-- The answer to a read is followed by a write of the same instruction, or it ends the
transaction. -/
theorem of_answered (h : s.state.Owned d?) (hs : s.state.phase = .single) {q : CsrResponse}
    (hq : Cycle.csrResponse? s.state i = some q) {c : Cycle}
    (ha : Cycle.Answered (s.opening i).occupied s.state i q c) : c.next.Owned d? := by
  obtain ⟨hr, hv, -, -⟩ := csrResponse?_eq_some hq
  have hl : (s.transactionLeft i).phase = .idle := by simp [transactionLeft, hr, hv]
  cases ha with
  | rewrite o ho _ hd =>
    intro _
    obtain ⟨d, rfl, hsends, hop⟩ := h (by simp [hr])
    obtain rfl : o = d.opcode := Option.some.inj (ho.symm.trans (hop hs))
    refine ⟨d, rfl, ?_, fun _ => by simpa using ho⟩
    simp only [DecodedInstruction.Sends, hd] at hsends ⊢
    exact ⟨.inr rfl, hsends.2⟩
  | _ => exact fun hp => absurd (by simpa using hl) hp

theorem step (h : s.state.Owned d?) (hb : s.state.BusFits) :
    (s.step i).next.Owned ((s.accepted? i).or d?) := by
  have hs := step_outcome (s := s) (i := i)
  have hnone (hv : (s.step i).out.valid = false) : (s.accepted? i).or d? = d? := by
    rw [accepted?_eq_none.2 hv, Option.none_or]
  have hsome (d : DecodedInstruction) (hv : (s.step i).out.valid = true)
      (hi : i.instruction = some d) : (s.accepted? i).or d? = some d := by
    rw [accepted?_eq_some.2 ⟨hv, hi⟩, Option.some_or]
  generalize (s.accepted? i).or d? = e? at hnone hsome ⊢
  generalize s.step i = c at hs hnone hsome
  cases hs with
  | trapped target =>
    rw [hnone (by simp)]
    exact h.of_keeps (i := i) (.of_trap target) (by simp)
  | running _ hm =>
    rw [hnone (by simp)]
    exact h.of_keeps (i := i) (.of_left (by simp)) (by simp [hm])
  | finished _ _ _ hm =>
    have hi := hb.idle_of_multi hm
    exact fun hp => absurd (by simpa [transactionLeft_idle hi] using hi) hp
  | parked _ _ hi => exact fun hp => absurd (by simpa [transactionLeft_idle hi] using hi) hp
  | pending _ hp =>
    rw [hnone (by simp)]
    exact h.of_keeps (i := i) (.of_left (by simp)) (by simp [hp])
  | answered q c _ hp _ hq ha =>
    rw [hnone (by cases ha <;> simp)]
    exact h.of_answered hp hq ha
  | passed p b _ _ hn =>
    rw [hnone (by simp)]
    exact h.of_keeps (i := i) (.of_left (by simp)) fun hp => absurd hp hn.ne_single
  | accepted d c _ _ ho ha =>
    rw [hsome d (by cases ha <;> simp) ho.instruction]
    exact of_accepted ho.csr ha

end State.Owned

end Execute

namespace Instant

/-- The instruction that was accepted last. -/
def youngest? (ts : List Instant) : Option DecodedInstruction := (ts.filterMap accepted?).getLast?

theorem youngest?_concat (ts : List Instant) (t : Instant) :
    youngest? (ts ++ [t]) = t.accepted?.or (youngest? ts) := by
  unfold youngest?
  rw [List.filterMap_append, List.getLast?_append]
  cases h : t.accepted? <;> simp [h]

end Instant

namespace Machine

variable {m : Machine}

/-- The transaction of the execute stage belongs to the instruction that was accepted last. -/
theorem owned_after (c : Config) (p : Program) (h : List Stimulus) :
    ((ofConfig c p).after h).execute.state.Owned
      (Instant.youngest? ((ofConfig c p).cycles h)) := by
  have hinit : (ofConfig c p).execute.state.Controlled ∧
      (ofConfig c p).execute.state.Owned (Instant.youngest? []) :=
    ⟨.initial, fun hp => absurd rfl hp⟩
  refine (Tracker.holds_along (t := Instant.tracker)
    (P := fun k ts => k.execute.state.Controlled ∧ k.execute.state.Owned (Instant.youngest? ts))
    ?_ ?_ ?_ h hinit).2
  · intro k n _ hn _
    rw [hn.execute]
    exact ⟨.initial, fun hp => absurd rfl hp⟩
  · intro k n _ hn hk
    rwa [hn.execute]
  · intro k w ts hr hw ⟨hc, ho⟩
    rw [advance_execute hr]
    refine ⟨hc.step, ?_⟩
    have hnext := ho.step (i := k.executeInput w) hc.toBusFits
    rw [← accepted?_eq hw] at hnext
    show (k.execute.step (k.executeInput w)).next.Owned (Instant.youngest? (ts ++ [⟨k, w⟩]))
    rwa [Instant.youngest?_concat]

/-- The instruction accepted last is one of the program. -/
theorem mem_of_youngest? {h : List Stimulus} {d : DecodedInstruction}
    (hd : Instant.youngest? (m.cycles h) = some d) : d ∈ m.program.instructions := by
  obtain ⟨t, ht, hd⟩ := List.mem_filterMap.1 (List.mem_of_getLast? hd)
  obtain ⟨-, -, h', htm⟩ := of_mem_cycles ht
  rw [← (kin_after m h').program, htm]
  exact Program.mem_of_at? (t.accepted?_eq_some.1 hd).2

/-- A program none of whose instructions needs the bus has no transaction. -/
theorem transaction_idle (hm : m.Reachable) (hp : ∀ d ∈ m.program.instructions, ¬ d.NeedsBus) :
    m.execute.state.csr.phase = .idle := by
  obtain ⟨writable, c, p, m₀, h, hnew, rfl⟩ := hm
  obtain ⟨-, rfl⟩ := eq_ofConfig_of_new hnew
  by_contra hbusy
  obtain ⟨d, hd, hserves⟩ := owned_after c p h hbusy
  rw [(kin_after _ h).program] at hp
  exact hp d (mem_of_youngest? hd) hserves.sends.needsBus

end Machine

end RiscvPipeline
