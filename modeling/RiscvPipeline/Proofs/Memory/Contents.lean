import RiscvPipeline.Proofs.Memory.Lanes
import RiscvPipeline.Proofs.Memory.LockStep

/-!
# Memories with the same contents

Memories that hold the same bytes may differ in how they represent them. Reads do not tell them
apart, and writes keep them the same.
-/

namespace RiscvPipeline

namespace Ram

/-- Both memories hold the same bytes. -/
structure Same (r s : Ram) : Prop where
  size : s.size = r.size
  byte : ∀ n < r.size, s.byte n = r.byte n

namespace Same

variable {r s : Ram}

theorem refl (r : Ram) : r.Same r := ⟨rfl, fun _ _ => rfl⟩

theorem symm (h : r.Same s) : s.Same r := ⟨h.size.symm, fun n hn => (h.byte n (h.size ▸ hn)).symm⟩

theorem trans {t : Ram} (h : r.Same s) (h' : s.Same t) : r.Same t :=
  ⟨h'.size.trans h.size, fun n hn => (h'.byte n (h.size ▸ hn)).trans (h.byte n hn)⟩

theorem setByte (h : r.Same s) (n : Nat) (b : BitVec 8) : (r.setByte n b).Same (s.setByte n b) where
  size := h.size
  byte k hk := by rw [byte_setByte, byte_setByte, h.byte k hk]

theorem covers (h : r.Same s) (n k : Nat) : s.covers n k = r.covers n k := by
  rw [Ram.covers, h.size]
  rfl

theorem number (h : r.Same s) {n k : Nat} (hk : n + k ≤ r.size) : s.number n k = r.number n k :=
  Ram.number_congr fun i hi => h.byte (n + i) (by omega)

theorem read? (h : r.Same s) (n : Nat) : s.read? n = r.read? n := by
  unfold Ram.read?
  rw [h.covers]
  split
  next hc => rw [h.number (by simpa [Ram.covers] using hc)]
  · rfl

theorem write? (h : r.Same s) (n : Nat) (v : Word) (b : BitVec 8) :
    ((r.write? n v b).getD r).Same ((s.write? n v b).getD s) := by
  unfold Ram.write?
  rw [h.covers]
  split
  · have hfold (l : List Nat) {x y : Ram} (hxy : x.Same y) :
        (l.foldl (fun r i => if b.getLsbD i then r.setByte (n + i) (lane v i) else r) x).Same
          (l.foldl (fun r i => if b.getLsbD i then r.setByte (n + i) (lane v i) else r) y) := by
      induction l generalizing x y with
      | nil => exact hxy
      | cons i l ih =>
        refine ih ?_
        dsimp only
        split
        · exact hxy.setByte ..
        · exact hxy
    exact hfold _ h
  · exact h

theorem setBytes (h : r.Same s) (n : Nat) (l : List (BitVec 8)) :
    (Ram.setBytes n l r).Same (Ram.setBytes n l s) := by
  induction l generalizing n r s with
  | nil => exact h
  | cons b l ih => exact ih (h.setByte n b) (n + 1)

theorem load? (h : r.Same s) (n : Nat) (l : List (BitVec 8)) :
    ((r.load? n l).getD r).Same ((s.load? n l).getD s) := by
  unfold Ram.load?
  rw [h.covers]
  split
  · exact h.setBytes n l
  · exact h

end Same

end Ram

namespace DataMemory

/-- Both memories have the same contents and are in the same state. -/
structure Same (d e : DataMemory) : Prop where
  registers : e.registers = d.registers
  ram : d.ram.Same e.ram
  base : e.base = d.base
  readyPeriod : e.readyPeriod = d.readyPeriod
  timing : e.timing = d.timing

namespace Same

variable {d e : DataMemory}

theorem symm (h : d.Same e) : e.Same d :=
  ⟨h.registers.symm, h.ram.symm, h.base.symm, h.readyPeriod.symm, h.timing.symm⟩

theorem trans {f : DataMemory} (h : d.Same e) (h' : e.Same f) : d.Same f :=
  ⟨h'.registers.trans h.registers, h.ram.trans h'.ram, h'.base.trans h.base,
    h'.readyPeriod.trans h.readyPeriod, h'.timing.trans h.timing⟩

theorem offset? (h : d.Same e) (a : Word) : e.offset? a = d.offset? a := by
  rw [DataMemory.offset?, h.base, h.ram.size]
  rfl

theorem peek? (h : d.Same e) (a : Word) : e.peek? a = d.peek? a := by
  unfold DataMemory.peek?
  rw [h.offset?]
  exact congrArg _ (funext h.ram.read?)

theorem respond (h : d.Same e) (q : MemoryRequest) : e.respond q = d.respond q := by
  unfold DataMemory.respond
  rw [h.peek?]

theorem output (h : d.Same e) (q : MemoryRequest) : e.output q = d.output q := by
  unfold DataMemory.output DataMemory.ready
  rw [h.registers, h.readyPeriod]

theorem propose (h : d.Same e) (q : MemoryRequest) : e.propose q = d.propose q := by
  unfold DataMemory.propose DataMemory.ready
  rw [h.registers, h.readyPeriod, h.respond]

theorem stored (h : d.Same e) (a v : Word) (b : BitVec 8) :
    (d.stored a v b).Same (e.stored a v b) := by
  unfold DataMemory.stored
  rw [h.offset?]
  cases d.offset? a.alignDown with
  | none => exact h.ram
  | some n => exact h.ram.write? n v b

theorem with_registers (h : d.Same e) (r : Registers) :
    Same { d with registers := r } { e with registers := r } :=
  ⟨rfl, h.ram, h.base, h.readyPeriod, h.timing⟩

theorem accept (h : d.Same e) (q : MemoryRequest) : (d.accept q).Same (e.accept q) := by
  have hr := h.registers
  have ht := h.timing
  unfold DataMemory.accept
  rw [store?_getD, store?_getD, ht]
  cases q.write with
  | false => exact ⟨by simp [hr], h.ram, h.base, h.readyPeriod, rfl⟩
  | true => exact ⟨by simp [hr], h.stored .., h.base, h.readyPeriod, rfl⟩

theorem next (h : d.Same e) (b : Bool) (q : MemoryRequest) :
    (DataMemory.clocked.next b d q).Same (DataMemory.clocked.next b e q) := by
  unfold Clocked.next DataMemory.clocked
  cases b with
  | true => exact ⟨rfl, h.ram, h.base, h.readyPeriod, congrArg MemoryTiming.reset h.timing⟩
  | false =>
    simp only [Bool.false_eq_true, if_false]
    rw [h.propose]
    unfold DataMemory.edge
    cases (d.propose q).accepted with
    | none => exact h.with_registers _
    | some q => exact (h.with_registers _).accept q

theorem poke? (h : d.Same e) (a v : Word) :
    ((d.poke? a v).getD d).Same ((e.poke? a v).getD e) := by
  unfold DataMemory.poke?
  rw [store?_getD, store?_getD]
  exact ⟨h.registers, h.stored .., h.base, h.readyPeriod, h.timing⟩

theorem load? (h : d.Same e) (a : Word) (l : List (BitVec 8)) :
    ((d.load? a l).getD d).Same ((e.load? a l).getD e) := by
  rw [load?_getD, load?_getD]
  refine ⟨h.registers, ?_, h.base, h.readyPeriod, h.timing⟩
  rw [h.offset?]
  cases d.offset? a with
  | none => exact h.ram
  | some n => exact h.ram.load? n l

end Same

end DataMemory

end RiscvPipeline
