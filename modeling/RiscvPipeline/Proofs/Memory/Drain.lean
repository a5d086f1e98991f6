import RiscvPipeline.Proofs.Memory.Bytes
import RiscvPipeline.Proofs.Memory.LockStep
import RiscvPipeline.Proofs.Registers

/-!
# Registers and memory once the operations under way are done

The memory-access stage and the data memory take several cycles for an operation, and other
instructions are executed meanwhile. `drain` carries out at once what is under way. A cycle does not
change where this leads, except for the operation that is handed over (`Serving.drained`).
-/

namespace RiscvPipeline

namespace Ram

variable (m : Ram) (base addr : Word)

/-- The offset of an address in memory that starts at `base`. -/
def offset? : Option Nat :=
  if base.toNat ≤ addr.toNat ∧ addr.toNat - base.toNat < m.size then
    some (addr.toNat - base.toNat)
  else none

/-- The aligned doubleword around an address. -/
def peekAt : Option Word := (m.offset? base addr.alignDown).bind m.read?

/-- The contents after a write of some lanes of the aligned doubleword around an address. -/
def storeAt (value : Word) (strobes : BitVec 8) : Ram :=
  ((m.offset? base addr.alignDown).bind fun n => m.write? n value strobes).getD m

variable {m base addr}

/-- Whether an address lies in memory does not depend on the contents. -/
theorem isSome_peekAt_congr {m' : Ram} (h : m'.size = m.size) :
    (m'.peekAt base addr).isSome = (m.peekAt base addr).isSome := by
  unfold peekAt offset?
  rw [h]
  split
  · simp only [Option.bind_some, read?, covers, h]
    by_cases hc : addr.alignDown.toNat - base.toNat + 8 ≤ m.size <;> simp [hc]
  · rfl

@[simp] theorem size_storeAt (value : Word) (strobes : BitVec 8) :
    (m.storeAt base addr value strobes).size = m.size := size_written _ strobes

end Ram

theorem DataMemory.peek?_eq (d : DataMemory) (addr : Word) :
    d.peek? addr = d.ram.peekAt d.base addr := rfl

theorem DataMemory.stored_eq (d : DataMemory) (addr value : Word) (strobes : BitVec 8) :
    d.stored addr value strobes = d.ram.storeAt d.base addr value strobes := rfl

/-- Carries out an operation on registers and memory. -/
def QueueEntry.apply (base : Word) (e : QueueEntry) (x : Registers × Ram) : Registers × Ram :=
  if e.store then (x.1, x.2.storeAt base e.addr e.data e.strobes)
  else (x.1.write e.target (e.loaded ((x.2.peekAt base e.addr).getD 0)), x.2)

/-- Carries out operations one after the other. -/
def drain (base : Word) (l : List QueueEntry) (x : Registers × Ram) : Registers × Ram :=
  l.foldl (fun x e => e.apply base x) x

/-- The operations that are still to be carried out. A store is done as soon as the memory has
accepted it. -/
def MemoryAccess.undone (s : MemoryAccess) : List QueueEntry :=
  if s.phase = .waiting ∧ s.current.store = true then s.queue.toList else s.inFlight

theorem MemoryAccess.mem_inFlight_of_mem_undone {s : MemoryAccess} {e : QueueEntry}
    (h : e ∈ s.undone) : e ∈ s.inFlight := by
  unfold undone at h
  split at h
  · exact List.mem_append_right _ h
  · exact h

/-- The memory serves the operations as they come: none of them is squashed, all of them lie in
memory, and the value on the way to a register is the one in memory. -/
structure Serving (s : MemoryAccess) (d : DataMemory) : Prop extends LockStep s d where
  unsquashed : ∀ e ∈ s.inFlight, e.flushed = false
  inside : ∀ e ∈ s.inFlight, (d.ram.peekAt d.base e.addr).isSome = true
  quiet : d.registers.phase ≠ .idle →
    d.registers.response.loadFault = false ∧ d.registers.response.storeFault = false
  data : d.registers.phase ≠ .idle → s.current.store = false →
    d.registers.response.data = (d.ram.peekAt d.base s.current.addr).getD 0

@[simp] theorem drain_nil (base : Word) (x : Registers × Ram) : drain base [] x = x := rfl

@[simp] theorem drain_cons (base : Word) (e : QueueEntry) (l : List QueueEntry)
    (x : Registers × Ram) : drain base (e :: l) x = drain base l (e.apply base x) := rfl

theorem drain_append (base : Word) (l l' : List QueueEntry) (x : Registers × Ram) :
    drain base (l ++ l') x = drain base l' (drain base l x) := List.foldl_append

/-- No load among the operations writes the register. -/
def Spares (l : List QueueEntry) (r : RegIndex) : Prop :=
  ∀ e ∈ l, e.store = false → e.target = 0 ∨ e.target.toNat % 64 ≠ r.toNat % 64

section

variable {base : Word} {e : QueueEntry} {l : List QueueEntry} {x : Registers × Ram} {r : RegIndex}

theorem Spares.tail (h : Spares (e :: l) r) : Spares l r :=
  fun e' he => h e' (List.mem_cons_of_mem _ he)

theorem QueueEntry.read_apply (h : e.store = false → e.target = 0 ∨
    e.target.toNat % 64 ≠ r.toNat % 64) : (e.apply base x).1.read r = x.1.read r := by
  unfold apply
  cases hst : e.store with
  | true => rfl
  | false =>
    rcases h hst with h0 | hne
    · rw [h0]
      rfl
    · exact Registers.read_write_other _ hne.symm _

theorem QueueEntry.apply_write (h : e.store = false → e.target = 0 ∨
    e.target.toNat % 64 ≠ r.toNat % 64) (v : Word) :
    e.apply base (x.1.write r v, x.2) = ((e.apply base x).1.write r v, (e.apply base x).2) := by
  unfold apply
  cases hst : e.store with
  | true => rfl
  | false =>
    rcases h hst with h0 | hne
    · rw [h0]
      rfl
    · simp only [Bool.false_eq_true, if_false]
      rw [Registers.write_comm _ hne]

/-- A register that no load writes can be read at any time. -/
theorem read_drain (h : Spares l r) : (drain base l x).1.read r = x.1.read r := by
  induction l generalizing x with
  | nil => rfl
  | cons e l ih =>
    rw [drain_cons, ih h.tail, QueueEntry.read_apply (h e List.mem_cons_self)]

/-- A register that no load writes can be written at any time. -/
theorem drain_write (h : Spares l r) (v : Word) :
    drain base l (x.1.write r v, x.2) = ((drain base l x).1.write r v, (drain base l x).2) := by
  induction l generalizing x with
  | nil => rfl
  | cons e l ih =>
    rw [drain_cons, drain_cons, QueueEntry.apply_write (h e List.mem_cons_self) v]
    exact ih h.tail

@[simp] theorem size_drain : (drain base l x).2.size = x.2.size := by
  induction l generalizing x with
  | nil => rfl
  | cons e l ih =>
    rw [drain_cons, ih]
    unfold QueueEntry.apply
    split
    · exact Ram.size_storeAt _ _
    · rfl

end

namespace Serving

open MemoryAccess

variable {s : MemoryAccess} {d : DataMemory} {i : Input} {q : MemoryRequest} {n : MemoryAccess}
  {o : Output}

/-- The memory has the same size after a cycle. -/
theorem size_next (q : MemoryRequest) : (d.next q).ram.size = d.ram.size := by
  cases h : d.accepts q with
  | false => rw [DataMemory.next_ram h]
  | true =>
    rw [DataMemory.next_of_accepts h, DataMemory.accept_ram]
    split
    · rw [DataMemory.stored_eq, Ram.size_storeAt]
    · rfl

/-- No operation of the stage faults. -/
theorem faultless (h : Serving s d) (hb : i.bus = d.output q) (ht : s.Turn i n o) :
    o.loadFault = false ∧ o.storeFault = false := by
  have hf : s.leaves i = true → s.faulted i = false := by
    intro hl
    have hd := (h.leaves_iff hb).1 hl
    obtain ⟨h1, h2⟩ := h.quiet (by rw [hd]; simp)
    unfold faulted
    rw [h.bus_of_leaves hb hl, h1, h2]
    split <;> rfl
  rw [ht.loadFault, ht.storeFault]
  cases hl : s.leaves i with
  | false => simp
  | true => simp [hf hl]

/-- A cycle in which nothing is squashed, and in which an operation that is handed over lies in
memory. -/
theorem step (h : Serving s d) (hb : i.bus = d.output q) (ht : s.Turn i n o)
    (hf : i.flush = false) (hi : ∀ e ∈ s.admitted i, e.flushed = false ∧
      (d.ram.peekAt d.base e.addr).isSome = true) : Serving n (d.next o.bus) := by
  have hin : n.inFlight = s.remaining i ++ s.admitted i := by
    rw [ht.inFlight, hf]
    simp
  have hmem : ∀ e ∈ n.inFlight, e ∈ s.inFlight ∨ e ∈ s.admitted i := by
    intro e he
    rw [hin, List.mem_append] at he
    refine he.imp_left fun he => ?_
    rw [s.inFlight_eq i]
    exact List.mem_append_right _ he
  have hsize := size_next (d := d) o.bus
  refine { h.toLockStep.step hb ht with unsquashed := ?_, inside := ?_, quiet := ?_, data := ?_ }
  · exact fun e he => (hmem e he).elim (h.unsquashed e) fun he => (hi e he).1
  · intro e he
    rw [DataMemory.next_base, Ram.isSome_peekAt_congr hsize]
    exact (hmem e he).elim (h.inside e) fun he => (hi e he).2
  · cases h.toLockStep.joint hb ht with
    | accepted e l hd _ hil ha ho _ _ _ =>
      intro _
      have hs := h.inside e (by rw [hil]; exact List.mem_cons_self)
      rw [DataMemory.next_of_accepts ha, DataMemory.accept_response, ho]
      have hnone : (d.peek? e.addr).isNone = false := by
        rw [DataMemory.peek?_eq, Option.isNone_eq_false_iff]
        exact hs
      simp [DataMemory.respond, request, hnone]
    | refused hd _ ha _ =>
      rw [DataMemory.next_idle hd ha]
      exact fun hc => absurd hd hc
    | busy k hd =>
      rw [DataMemory.next_busy hd]
      exact fun _ => h.quiet (by rw [hd]; simp)
    | answered hd _ hr _ =>
      rw [DataMemory.next_responding hd hr]
      exact fun hc => absurd rfl hc
  · cases h.toLockStep.joint hb ht with
    | accepted e l hd _ _ ha ho _ hc _ =>
      intro _ hst
      rw [hf, QueueEntry.squash_false] at hc
      rw [hc] at hst ⊢
      rw [DataMemory.next_of_accepts ha, DataMemory.accept_response, DataMemory.accept_ram,
        DataMemory.accept_base, ho]
      simp [DataMemory.respond, request, hst, DataMemory.peek?_eq]
    | refused hd _ ha _ =>
      rw [DataMemory.next_idle hd ha]
      exact fun hc => absurd hd hc
    | busy k hd _ _ _ hc =>
      rw [hf, QueueEntry.squash_false] at hc
      rw [DataMemory.next_busy hd, hc]
      exact fun _ => h.data (by rw [hd]; simp)
    | answered hd _ hr _ =>
      rw [DataMemory.next_responding hd hr]
      exact fun hc => absurd rfl hc

/-- What is under way leads to the same registers and memory after a cycle, but for an operation
that is handed over. -/
theorem drained (h : Serving s d) (hb : i.bus = d.output q) (ht : s.Turn i n o)
    (hf : i.flush = false) (r : Registers) :
    drain d.base n.undone
        (if o.write.enable then r.write o.write.target o.write.data else r, (d.next o.bus).ram) =
      drain d.base (s.admitted i) (drain d.base s.undone (r, d.ram)) := by
  have hin : n.inFlight = s.remaining i ++ s.admitted i := by
    rw [ht.inFlight, hf]
    simp
  have hw (hl : s.leaves i = false) : o.write.enable = false := by rw [ht.write, hl]; rfl
  have hrem (hl : s.leaves i = false) : s.remaining i = s.inFlight := by simp [remaining, hl]
  rw [← drain_append]
  cases h.toLockStep.joint hb ht with
  | accepted e l hd hs hil ha ho hn hc hq =>
    have hl : s.leaves i = false := by simp [leaves, hs]
    have hu : s.undone = e :: l := by simp [undone, hs, hil]
    rw [hf, QueueEntry.squash_false] at hc
    rw [hw hl, hu, DataMemory.next_of_accepts ha, DataMemory.accept_ram, ho]
    cases hst : e.store with
    | true =>
      have hn : n.undone = l ++ s.admitted i := by simp [undone, hn, hc, hst, hq, hf]
      simp [hn, request, hst, DataMemory.stored_eq, QueueEntry.apply]
    | false =>
      have hn : n.undone = e :: (l ++ s.admitted i) := by
        simp [undone, hc, hst, hin, hrem hl, hil]
      simp [hn, request, hst]
  | refused hd hs ha hn =>
    have hl : s.leaves i = false := by simp [leaves, hs]
    have hu : n.undone = s.undone ++ s.admitted i := by simp [undone, hn, hs, hin, hrem hl]
    rw [hw hl, hu, DataMemory.next_ram ha]
    rfl
  | busy k hd hs hl hn hc hq =>
    have hu : n.undone = s.undone ++ s.admitted i := by
      rw [hf, QueueEntry.squash_false] at hc
      simp only [undone, hn, hs, hc, true_and, hin, hrem hl]
      split
      · simp [hq, hf]
      · rfl
    rw [hw hl, hu, DataMemory.next_busy hd]
    rfl
  | answered hd hl hr hn =>
    have hu : n.undone = s.queue.toList ++ s.admitted i := by simp [undone, hn, hin, remaining, hl]
    rw [hu, DataMemory.next_responding hd hr, ht.write, hl, Bool.true_and]
    have hne : d.registers.phase ≠ .idle := by rw [hd]; simp
    have hbus := h.bus_of_leaves hb hl
    have hsq : s.squashed i = false := by
      rw [h.squashed_eq hb hl, hf, h.unsquashed s.current
        (by rw [inFlight_of_leaves hl]; exact List.mem_cons_self)]
      rfl
    have hfa : s.faulted i = false := by
      obtain ⟨h1, h2⟩ := h.quiet hne
      unfold faulted
      rw [hbus, h1, h2]
      split <;> rfl
    cases hst : s.current.store with
    | true =>
      have hs : s.undone = s.queue.toList := by simp [undone, phase_of_leaves hl, hst]
      simp [hs, loads, hst]
    | false =>
      have hs : s.undone = s.current :: s.queue.toList := by
        simp [undone, hst, inFlight_of_leaves hl, remaining, hl]
      have hload : s.loads i = (s.current.target != 0) := by simp [loads, hst, hsq, hfa]
      have hdata := h.data hne hst
      rw [hs, hload, hbus, hdata, List.cons_append, drain_cons]
      congr 1
      rw [QueueEntry.apply, hst]
      by_cases h0 : s.current.target = 0
      · rw [h0, Registers.write_zero]
        rfl
      · rw [bne_iff_ne.mpr h0]
        rfl

end Serving

end RiscvPipeline
