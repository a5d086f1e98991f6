import RiscvPipeline.Proofs.Csr.Bank

/-!
# The record of a trap

The cycle that takes a trap records its address, cause and value. The record is made before the
clock edge and a command that the register file accepts in the same cycle takes effect at the edge,
so a write to one of the three registers, from either master, replaces the record there.
-/

namespace RiscvPipeline

open CsrRegister

namespace Trap

variable {c : Trap} {r : CsrRegister} {v : Word}

/-- The registers in which a trap is recorded, with what is recorded in them. -/
def record (c : Trap) : List (CsrRegister × Word) :=
  [(mepc, c.epc), (mcause, c.cause), (mtval, c.tval)]

theorem mem_record : (r, v) ∈ c.record ↔
    r = mepc ∧ v = c.epc ∨ r = mcause ∧ v = c.cause ∨ r = mtval ∧ v = c.tval := by
  simp [record]

/-- They keep every value, can be written, and have nothing to do with flags and counters. -/
theorem plain_of_mem_record (h : (r, v) ∈ c.record) :
    (∀ u, r.legal u = u) ∧ r.addr.isReadOnly = false ∧ r ∉ [fflags, frm, minstret, mcycle] := by
  obtain ⟨rfl, -⟩ | ⟨rfl, -⟩ | ⟨rfl, -⟩ := mem_record.1 h <;>
    exact ⟨fun _ => rfl, by decide, by decide⟩

end Trap

namespace Machine

variable {m : Machine} {w : Signals} {c : Trap} {r : CsrRegister} {v : Word}

/-- What else happens beside the bus does not touch the record. -/
theorem sideEffects_get (ht : w.trap.taken = some c) (h : (r, v) ∈ c.record) :
    (m.sideEffects w).bank.get r = v := by
  obtain ⟨-, -, hne⟩ := Trap.plain_of_mem_record h
  have hrecord : (m.csr.recordTrap c.cause c.epc c.tval).bank.get r = v := by
    simp only [CsrFile.recordTrap, CsrFile.poke, CsrBank.write_addr]
    obtain ⟨rfl, rfl⟩ | ⟨rfl, rfl⟩ | ⟨rfl, rfl⟩ := Trap.mem_record.1 h <;>
      simp [CsrBank.get_set_other, legal]
  have haccrue (f : CsrFile) (flags : FpFlags) : (f.accrue flags).bank.get r = f.bank.get r := by
    simp only [CsrFile.accrue, CsrFile.poke, CsrBank.write_addr]
    exact CsrBank.get_set_other _ (fun hr => hne (by simp [← hr])) _
  have hretire (f : CsrFile) : f.retire.bank.get r = f.bank.get r := by
    simp only [CsrFile.retire, CsrFile.poke, CsrBank.write_addr]
    exact CsrBank.get_set_other _ (fun hr => hne (by simp [← hr])) _
  unfold sideEffects
  rw [ht]
  dsimp only
  split <;> split <;> simp only [haccrue, hretire, hrecord]

/-- A trap that is taken is recorded, but a write to one of the three registers that is accepted in
the same cycle goes over the record. -/
theorem trap_recorded (hm : m.Reachable) (hr : m.reset = false) (hw : m.settle = .ok w)
    (ht : w.trap.taken = some c) (h : (r, v) ∈ c.record) :
    let t : Instant := ⟨m, w⟩
    t.next.csr.read? r.addr =
      some (if t.accepts = true ∧ t.command.command = .write ∧ t.command.addr = r.addr then
        t.command.data else v) := by
  intro t
  obtain ⟨writable, cfg, p, m₀, l, hnew, rfl⟩ := hm
  obtain ⟨-, rfl⟩ := eq_ofConfig_of_new hnew
  obtain ⟨hlegal, hwritable, hne⟩ := Trap.plain_of_mem_record h
  have hbank := t.next_bank (sendable_after l) hr (settled_of_settle hw)
  have hmcycle : r ≠ mcycle := fun hr => hne (by simp [← hr])
  show t.next.csr.bank.read? r.addr = _
  rw [CsrBank.read?_addr, hbank, CsrBank.get_count _ hmcycle]
  refine congrArg some ?_
  by_cases hc : t.accepts = true ∧ t.command.command = .write ∧ t.command.addr = r.addr
  · -- The three registers exist and can be written, so the write is not rejected.
    obtain ⟨ha, hcmd, haddr⟩ := hc
    have hrejected : t.rejected = false := by
      show (CsrFile.execute _ t.command).exception = false
      rw [CsrFile.execute_write _ hcmd, haddr, CsrFile.read?, CsrBank.read?_addr, hwritable]
      rfl
    rw [if_pos (t.performs_iff.2 ⟨ha, hcmd, hrejected⟩), if_pos ⟨ha, hcmd, haddr⟩, haddr,
      CsrBank.write_addr, CsrBank.get_set_same, hlegal]
  · rw [if_neg hc]
    split
    next hp =>
      obtain ⟨ha, hcmd, -⟩ := t.performs_iff.1 hp
      have hfcsr : r ≠ frm ∧ r ≠ fflags :=
        ⟨fun hr => hne (by simp [← hr]), fun hr => hne (by simp [← hr])⟩
      rw [CsrBank.get_write_other _ (fun haddr => hc ⟨ha, hcmd, haddr⟩) fun _ => hfcsr]
      exact sideEffects_get ht h
    · exact sideEffects_get ht h

/-- A write to the register of the return address, with an interrupt pending from the start. In its
second cycle the machine takes the trap while the write is on the bus. -/
def interrupted : Machine :=
  (ofConfig {} { instructions := #[{ pc := resetVector, word := 0x34129073, opcode := .csrrw }] }).after
    [.register 5 0x30, .interrupt 7, .tick]

theorem reachable_interrupted : interrupted.Reachable :=
  ⟨fun _ => true, {}, _, _, _, rfl, rfl⟩

theorem trap_recorded_interrupted :
    let t : Instant := ⟨interrupted, interrupted.settled⟩
    let c : Trap := { cause := 0x8000000000000007, epc := 0x10004 }
    interrupted.reset = false ∧ interrupted.settle = .ok interrupted.settled ∧
      t.signals.trap.taken = some c ∧ (mcause, c.cause) ∈ c.record ∧
      t.next.csr.read? mcause.addr = some c.cause := by
  intro t c
  have hr : interrupted.reset = false := by decide +kernel
  have hw : interrupted.settle = .ok interrupted.settled := settle_eq (by decide +kernel)
  have ht : t.signals.trap.taken = some c := by decide +kernel
  have hmem : (mcause, c.cause) ∈ c.record := by simp [Trap.record]
  have hother : ¬ (t.accepts = true ∧ t.command.command = .write ∧
      t.command.addr = mcause.addr) := by
    decide +kernel
  have hrec := trap_recorded reachable_interrupted hr hw ht hmem
  exact ⟨hr, hw, ht, hmem, hrec.trans (congrArg some (if_neg hother))⟩

/-- The return address is lost. -/
theorem epc_lost_interrupted :
    let t : Instant := ⟨interrupted, interrupted.settled⟩
    let c : Trap := { cause := 0x8000000000000007, epc := 0x10004 }
    interrupted.Reachable ∧ interrupted.reset = false ∧
      interrupted.settle = .ok interrupted.settled ∧ t.signals.trap.taken = some c ∧
      t.next.csr.read? mepc.addr = some 0x30 ∧ c.epc ≠ 0x30 := by
  intro t c
  exact ⟨reachable_interrupted, by decide +kernel, settle_eq (by decide +kernel),
    by decide +kernel, by decide +kernel, by decide +kernel⟩

end Machine

end RiscvPipeline
