import Mathlib.Data.List.Nodup
import RiscvPipeline.Proofs.Execute.Hazard
import RiscvPipeline.Proofs.Tracking

/-!
# The tracker of pending writes agrees with the memory-access stage

The tracker lists the loads under way that will write a register. A load leaves it when its value is
written back. A load that faults is never written back: it stays in the list, although it has left
the memory-access stage, until the trap it raised is taken in the next cycle.
-/

namespace RiscvPipeline

namespace QueueEntry

variable (e : QueueEntry)

/-- A load that will write a register. -/
def isLive : Bool := !e.flushed && !e.store && e.target != 0

/-- The write of a load. -/
def pendingWrite : PendingWrite := ⟨e.target, e.tag⟩

theorem isLive_squash_true : (e.squash true).isLive = false := by simp [isLive]

end QueueEntry

/-- The writes of the loads that will write a register. -/
def liveLoads (l : List QueueEntry) : List PendingWrite :=
  (l.filter (·.isLive)).map (·.pendingWrite)

@[simp] theorem liveLoads_nil : liveLoads [] = [] := rfl

@[simp] theorem liveLoads_append (l l' : List QueueEntry) :
    liveLoads (l ++ l') = liveLoads l ++ liveLoads l' := by simp [liveLoads]

theorem liveLoads_cons (e : QueueEntry) (l : List QueueEntry) :
    liveLoads (e :: l) = (if e.isLive then [e.pendingWrite] else []) ++ liveLoads l := by
  unfold liveLoads
  rw [List.filter_cons]
  split <;> rfl

/-- Nothing is left after a trap. -/
theorem liveLoads_squash (l : List QueueEntry) : liveLoads (l.map (·.squash true)) = [] := by
  have : ∀ e ∈ l.map (·.squash true), ¬ e.isLive = true := by
    intro e he
    obtain ⟨e', _, rfl⟩ := List.mem_map.mp he
    rw [e'.isLive_squash_true]
    exact Bool.false_ne_true
  unfold liveLoads
  rw [List.filter_eq_nil_iff.mpr this]
  rfl

/-! ## Tags -/

/-- The tag of the operation with a number: the numbers are counted modulo eight. -/
def tagOf (n : Nat) : Tag := BitVec.ofNat 8 (n % 8)

theorem tagOf_and_mask (n : Nat) : tagOf n &&& HazardTracker.tagMask = tagOf n := by
  have h : ∀ k < 8, BitVec.ofNat 8 k &&& HazardTracker.tagMask = BitVec.ofNat 8 k := by decide
  exact h _ (Nat.mod_lt _ (by decide))

theorem nextTag_tagOf (n : Nat) : Execute.nextTag (tagOf n) = tagOf (n + 1) := by
  have h : ∀ k < 8, Execute.nextTag (BitVec.ofNat 8 k) = BitVec.ofNat 8 ((k + 1) % 8) := by decide
  rw [tagOf, h _ (Nat.mod_lt _ (by decide)), tagOf, Nat.mod_add_mod]

theorem tagOf_inj {n k : Nat} (hn : n < k + 8) (hk : k < n + 8) (h : tagOf n = tagOf k) :
    n = k := by
  have h' : ∀ a < 8, ∀ b < 8, BitVec.ofNat 8 a = BitVec.ofNat 8 b → a = b := by decide
  have := h' _ (Nat.mod_lt n (by decide)) _ (Nat.mod_lt k (by decide)) h
  omega

/-- The operations carry the tags of the numbers from `n` on, and `t` is the tag of the next one. -/
structure Numbered (n : Nat) (l : List QueueEntry) (t : Tag) : Prop where
  tags : l.map (·.tag) = (List.range' n l.length).map tagOf
  next : t = tagOf (n + l.length)

namespace Numbered

variable {n : Nat} {e : QueueEntry} {l : List QueueEntry} {t : Tag}

theorem empty : Numbered 0 [] 0 := ⟨rfl, rfl⟩

/-- The oldest operation leaves. -/
theorem tail (h : Numbered n (e :: l) t) : Numbered (n + 1) l t := by
  obtain ⟨h1, h2⟩ := h
  simp only [List.map_cons, List.length_cons, List.range'_succ, List.cons.injEq] at h1
  exact ⟨h1.2, by rw [h2, List.length_cons]; congr 1; omega⟩

theorem drop {l' : List QueueEntry} (h : Numbered n (l' ++ l) t) : ∃ k, Numbered k l t := by
  induction l' generalizing n with
  | nil => exact ⟨n, h⟩
  | cons e l' ih => exact ih h.tail

/-- Another operation is handed over. -/
theorem concat (h : Numbered n l t) (he : e.tag = t) :
    Numbered n (l ++ [e]) (Execute.nextTag t) := by
  obtain ⟨h1, h2⟩ := h
  refine ⟨?_, ?_⟩
  · simp [List.range'_1_concat, h1, he, h2]
  · rw [h2, nextTag_tagOf, List.length_append, List.length_singleton, Nat.add_assoc]

theorem map_squash (h : Numbered n l t) (b : Bool) : Numbered n (l.map (·.squash b)) t := by
  obtain ⟨h1, h2⟩ := h
  refine ⟨?_, by rwa [List.length_map]⟩
  rw [List.map_map, List.length_map, ← h1]
  rfl

/-- There are more tags than operations under way. -/
theorem nodup (h : Numbered n l t) (hl : l.length ≤ 8) : (l.map (·.tag)).Nodup := by
  rw [h.tags]
  refine List.Nodup.map_on (fun a ha b hb hab => tagOf_inj ?_ ?_ hab) List.nodup_range'
  all_goals
    rw [List.mem_range'_1] at ha hb
    omega

end Numbered

/-! ## Traps -/

namespace TrapController

variable {s : TrapController} {i : Input}

/-- A pending trap that is taken is pending no longer. -/
theorem pending_taken {t : Trap} (hp : s.pending = some t) (hr : i.ready = true) :
    (s.edge (s.propose i)).pending = none := by
  simp [propose, edge, hp, hr]

theorem pending_loadFault (hp : s.pending = none) (hl : i.loadFault = true) :
    (s.edge (s.propose i)).pending = some (.exception .loadFault i.faultPc i.faultAddr) := by
  simp [propose, prioritize, edge, hp, hl]

/-- Nothing else looks like the fault of a load. -/
theorem cause_ne_loadFault (hp : s.pending = none) (hl : i.loadFault = false) {t : Trap}
    (ht : (s.edge (s.propose i)).pending = some t) : t.cause ≠ Cause.loadFault.word := by
  have hx : ∀ c : Cause, c ≠ .loadFault → c.word ≠ Cause.loadFault.word := by
    intro c
    cases c <;> decide
  have hi : ∀ code, (Trap.interrupt code).cause ≠ Cause.loadFault.word := by
    intro code h
    have := congrArg (·.getLsbD 63) h
    simp [Trap.interrupt, Trap.interruptBit, Cause.word, Cause.code] at this
  unfold propose edge prioritize at ht
  rw [hp, hl] at ht
  simp only [Bool.false_eq_true, if_false] at ht
  split at ht
  next h _ => cases h
  next =>
    obtain ⟨code, -, rfl⟩ := Option.map_eq_some_iff.mp ht
    exact hi code
  next v hv =>
    obtain rfl : v = t := Option.some.inj ht
    repeat' split at hv
    all_goals
      cases hv
      try exact hx _ (by decide)

end TrapController

namespace Machine

/-- The trap controller holds the fault of a load. -/
def LoadFaultPending (m : Machine) : Prop :=
  ∃ t, m.trap.pending = some t ∧ t.cause = Cause.loadFault.word

/-- The load whose fault was reported in the last cycle. -/
def faultTracker : Tracker (Option QueueEntry) where
  cycle m w _ := if w.access.loadFault then some m.access.current else none
  initial := none

/-- The pending writes of the execute stage, the operations of the memory-access stage and the
pending trap agree. -/
structure LoadsTracked (m : Machine) (f : Option QueueEntry) : Prop where
  lockStep : LockStep m.access m.memory
  hazards : m.execute.state.hazards.WF
  pending : m.execute.state.hazards.pending = liveLoads (f.toList ++ m.access.inFlight)
  numbered : ∃ n, Numbered n (f.toList ++ m.access.inFlight) m.execute.state.tag
  targets : (m.execute.state.hazards.pending.map (·.target)).Nodup
  quiet : f = none → ¬ m.LoadFaultPending
  fault : ∀ e, f = some e → m.trap.pending = some (.exception .loadFault e.pc e.addr) ∧
    e.flushed = false ∧ e.store = false

/-- The pending writes that a retired load leaves are those of the operations `left`. -/
structure Leaves (m : Machine) (w : Signals) (left : List QueueEntry) : Prop where
  hazards : (m.execute.hazardsLeft (m.executeInput w)).WF
  pending : (m.execute.hazardsLeft (m.executeInput w)).pending = liveLoads left
  sublist : (m.execute.hazardsLeft (m.executeInput w)).pending.Sublist
    m.execute.state.hazards.pending
  numbered : ∃ n, Numbered n left m.execute.state.tag

namespace LoadsTracked

variable {m : Machine} {f : Option QueueEntry} {w : Signals}

theorem of_cleared (h : m.Cleared) : m.LoadsTracked none := by
  obtain ⟨he, ha, hm, ht⟩ := h
  have hi : m.access.inFlight = [] := by rw [ha]; rfl
  have hp : m.execute.state.hazards.pending = [] := by rw [he]; rfl
  exact
    { lockStep := ha ▸ LockStep.reset.of_registers (d := m.memory.reset) hm
      hazards := by rw [he]; exact .empty
      pending := by rw [hp, hi]; rfl
      numbered := ⟨0, by rw [hi, he]; exact .empty⟩
      targets := by rw [hp]; exact List.nodup_nil
      quiet := by
        rintro - ⟨t, h, -⟩
        rw [ht] at h
        cases h
      fault := by rintro e ⟨⟩ }

theorem of_alike {n : Machine} (ha : Alike m n) (h : m.LoadsTracked f) : n.LoadsTracked f := by
  obtain ⟨h1, h2, h3, h4, h5, h6, h7⟩ := h
  obtain ⟨he, hx, hm, ht, -⟩ := ha
  rw [← he] at h2 h3 h4 h5
  rw [← hx] at h1 h3 h4
  exact ⟨h1.of_registers hm, h2, h3, h4, h5, by rwa [LoadFaultPending, ht], by rwa [ht]⟩

/-- Everything is squashed in the cycle in which a trap is taken. -/
theorem trapped (h : m.LoadsTracked f) (hr : m.reset = false) (hw : m.Settled w) {t : Trap}
    (hp : m.trap.pending = some t) : (m.advance w).LoadsTracked (faultTracker.cycle m w f) := by
  have hturn := hw.turn h.lockStep.wf
  have hflush : (accessInput w).flush = true := by rw [accessInput, hw.flush, hp]; rfl
  have hredirect : (m.executeInput w).trap.isSome = true := by
    rw [executeInput, hw.isSome_redirect, hp]
    rfl
  have hready : (m.trapInput w).ready = true := by rw [trapInput, hw.trapReady, hp]; rfl
  obtain ⟨-, hm, hh, hg⟩ | ⟨ht, _⟩ | ⟨_, ht, _⟩ := Execute.step_handed (s := m.execute)
    (i := m.executeInput w)
  rotate_left
  · simp [ht] at hredirect
  · simp [ht] at hredirect
  have hop : (accessInput w).op = none := by rw [accessInput, hw.execute, hm]
  have hin : (m.advance w).access.inFlight =
      (m.access.remaining (accessInput w)).map (·.squash true) := by
    rw [advance_access hr, hturn.inFlight, hflush]
    simp [MemoryAccess.admitted, hop]
  have hfault : w.access.loadFault = false := by
    rw [hturn.loadFault]
    simp [MemoryAccess.squashed, hflush]
  have hf : faultTracker.cycle m w f = none := by simp [faultTracker, hfault]
  have hpending : (m.advance w).execute.state.hazards.pending = [] := by
    rw [advance_execute hr]
    exact congrArg HazardTracker.pending hh
  have htrap : (m.advance w).trap.pending = none := by
    rw [advance_trap hr, TrapController.pending_taken hp hready]
  obtain ⟨n, hn⟩ := h.numbered
  rw [m.access.inFlight_eq (accessInput w), ← List.append_assoc] at hn
  obtain ⟨k, hk⟩ := hn.drop
  rw [hf]
  exact
    { lockStep := by
        rw [advance_access hr, advance_memory hr]
        exact h.lockStep.step hw.memory hturn
      hazards := by
        rw [advance_execute hr]
        exact hh ▸ .empty
      pending := by
        rw [hpending, hin]
        exact (liveLoads_squash _).symm
      numbered := by
        refine ⟨k, ?_⟩
        rw [hin, advance_execute hr]
        exact hg ▸ hk.map_squash true
      targets := by rw [hpending]; exact List.nodup_nil
      quiet := by
        rintro - ⟨v, hv, -⟩
        rw [htrap] at hv
        cases hv
      fault := by rintro e ⟨⟩ }

/-- Without a write the tracker stays as it is. -/
theorem leaves_kept (h : m.LoadsTracked none) (hwrite : w.access.write = {})
    {left : List QueueEntry} (hl : m.execute.state.hazards.pending = liveLoads left)
    (hn : ∃ n, Numbered n left m.execute.state.tag) : m.Leaves w left := by
  have hretired : (m.executeInput w).retired = none := by
    rw [executeInput, MemoryAccess.retired, hwrite]
    rfl
  have hkept : m.execute.hazardsLeft (m.executeInput w) = m.execute.state.hazards := by
    rw [Execute.hazardsLeft, hretired]
  exact
    { hazards := by rw [hkept]; exact h.hazards
      pending := by rw [hkept]; exact hl
      sublist := by rw [hkept]
      numbered := hn }

/-- A load that is written back leaves the tracker. -/
theorem leaves_loaded (h : m.LoadsTracked none) (hw : m.Settled w)
    (hl : m.access.leaves (accessInput w) = true) (hload : m.access.loads (accessInput w) = true)
    (hs : m.access.squashed (accessInput w) = m.access.current.flushed) :
    m.Leaves w (m.access.remaining (accessInput w)) := by
  have hin : m.access.inFlight = m.access.current :: m.access.remaining (accessInput w) :=
    MemoryAccess.inFlight_of_leaves hl
  have hlive : m.access.current.isLive = true := by
    simp only [MemoryAccess.loads, hs, Bool.and_eq_true, Bool.not_eq_true'] at hload
    obtain ⟨⟨⟨h1, h2⟩, -⟩, h4⟩ := hload
    rw [QueueEntry.isLive, h1, h2, h4]
    rfl
  have hpending : m.execute.state.hazards.pending = m.access.current.pendingWrite ::
      liveLoads (m.access.remaining (accessInput w)) := by
    rw [h.pending, Option.toList_none, List.nil_append, hin, liveLoads_cons, hlive, if_pos rfl,
      List.singleton_append]
  have hretired : (m.executeInput w).retired = some m.access.current.pendingWrite := by
    rw [executeInput, MemoryAccess.retired, (hw.turn h.lockStep.wf).write, hl, hload]
    rfl
  obtain ⟨hwf, hcommit⟩ := h.hazards.commit_cons hpending
  obtain ⟨n, hn⟩ := h.numbered
  rw [Option.toList_none, List.nil_append, hin] at hn
  exact
    { hazards := by rw [Execute.hazardsLeft, hretired]; exact hwf
      pending := by rw [Execute.hazardsLeft, hretired]; exact hcommit
      sublist := by
        rw [Execute.hazardsLeft, hretired, hcommit, hpending]
        exact List.sublist_cons_self ..
      numbered := ⟨n + 1, hn.tail⟩ }

/-- What a load that is answered, if any, leaves of the pending writes. -/
theorem retire (h : m.LoadsTracked f) (hw : m.Settled w) (hp : m.trap.pending = none) :
    m.Leaves w ((faultTracker.cycle m w f).toList ++ m.access.remaining (accessInput w)) := by
  have hturn := hw.turn h.lockStep.wf
  have hflush : (accessInput w).flush = false := by rw [accessInput, hw.flush, hp]; rfl
  obtain rfl : f = none := by
    cases f with
    | none => rfl
    | some e =>
      have := (h.fault e rfl).1
      rw [hp] at this
      cases this
  obtain ⟨n, hn⟩ := h.numbered
  have hpending := h.pending
  rw [Option.toList_none, List.nil_append] at hn hpending
  cases hl : m.access.leaves (accessInput w) with
  | false =>
    have hleft : (faultTracker.cycle m w none).toList ++ m.access.remaining (accessInput w) =
        m.access.inFlight := by
      simp [faultTracker, hturn.loadFault, hl, MemoryAccess.remaining]
    rw [hleft]
    exact h.leaves_kept (by simp [hturn.write, hl]) hpending ⟨n, hn⟩
  | true =>
    have hs := h.lockStep.squashed_eq (i := accessInput w) hw.memory hl
    rw [hflush, Bool.or_false] at hs
    have hin := MemoryAccess.inFlight_of_leaves hl
    rw [hin] at hn hpending
    cases hload : m.access.loads (accessInput w) with
    | true =>
      have hnf : m.access.faulted (accessInput w) = false := by
        simp only [MemoryAccess.loads, Bool.and_eq_true, Bool.not_eq_true'] at hload
        exact hload.1.2
      have hnone : faultTracker.cycle m w none = none := by
        simp [faultTracker, hturn.loadFault, hnf]
      rw [hnone]
      exact h.leaves_loaded hw hl hload hs
    | false =>
      have hwrite : w.access.write = {} := by simp [hturn.write, hload]
      cases hlf : w.access.loadFault with
      | true =>
        -- The load stays in the tracker.
        have hsome : faultTracker.cycle m w none = some m.access.current := by
          simp [faultTracker, hlf]
        rw [hsome]
        exact h.leaves_kept hwrite hpending ⟨n, hn⟩
      | false =>
        -- The operation was not in the tracker.
        have hnone : faultTracker.cycle m w none = none := by simp [faultTracker, hlf]
        have hlive : m.access.current.isLive = false := by
          rw [hturn.loadFault, hl, hs] at hlf
          rw [MemoryAccess.loads, hs] at hload
          unfold QueueEntry.isLive
          revert hlf hload
          cases m.access.current.flushed <;> cases m.access.current.store <;>
            cases m.access.faulted (accessInput w) <;> simp
        rw [liveLoads_cons, hlive] at hpending
        rw [hnone]
        exact h.leaves_kept hwrite hpending ⟨n + 1, hn.tail⟩

/-- What an operation that is handed over adds to the pending writes. -/
theorem issue_pending {t : HazardTracker} (ht : t.WF) {d : DecodedInstruction}
    {i : Execute.Input} {n : Nat} (hf : d.target = 0 ∨ t.isFull = false) :
    let t' := if d.opcode.cls = .store then t else t.issue d.target (tagOf n)
    t'.WF ∧ t'.pending =
      t.pending ++ liveLoads [.ofMemoryOp (Execute.memoryOp d i (tagOf n))] := by
  intro t'
  by_cases hd : d.opcode.cls = .store
  · have hc : (QueueEntry.ofMemoryOp (Execute.memoryOp d i (tagOf n))).isLive = false := by
      simp [QueueEntry.ofMemoryOp, Execute.memoryOp, QueueEntry.isLive, hd]
    rw [show t' = t from if_pos hd, liveLoads_cons, hc]
    exact ⟨ht, (List.append_nil _).symm⟩
  · rw [show t' = t.issue d.target (tagOf n) from if_neg hd]
    have he : QueueEntry.ofMemoryOp (Execute.memoryOp d i (tagOf n)) =
        { QueueEntry.ofMemoryOp (Execute.memoryOp d i (tagOf n)) with
          store := false
          target := d.target } := by
      simp [QueueEntry.ofMemoryOp, Execute.memoryOp, hd]
    rw [he, liveLoads_cons]
    by_cases h0 : d.target = 0
    · rw [h0, HazardTracker.issue_zero]
      exact ⟨ht, (List.append_nil _).symm⟩
    · obtain ⟨hwf, hp⟩ := ht.issue (g := tagOf n) h0 (hf.resolve_left h0)
      have hb : (d.target != 0) = true := bne_iff_ne.mpr h0
      refine ⟨hwf, ?_⟩
      rw [hp, tagOf_and_mask]
      simp only [QueueEntry.isLive, hb]
      rfl

/-- A load is not handed over while another one is to write the same register. -/
theorem nodup_targets {t t' : HazardTracker} (ht : (t.pending.map (·.target)).Nodup)
    (hs : t'.pending.Sublist t.pending) {d : DecodedInstruction} {i : Execute.Input} {g : Tag}
    (hc : t.conflicts d.hazards = false) :
    ((t'.pending ++ liveLoads [.ofMemoryOp (Execute.memoryOp d i g)]).map (·.target)).Nodup := by
  have hs' : (t'.pending.map (·.target)).Nodup := ht.sublist (hs.map _)
  rw [liveLoads_cons]
  split
  next hl =>
    have hst : ¬ (d.opcode.cls == .store) = true := by
      intro h
      simp [QueueEntry.ofMemoryOp, Execute.memoryOp, QueueEntry.isLive, h] at hl
    have htarget : (QueueEntry.ofMemoryOp (Execute.memoryOp d i g)).target = d.target := if_neg hst
    have h0 : (d.target != 0) = true := by
      simp only [QueueEntry.isLive, Bool.and_eq_true, htarget] at hl
      exact hl.2
    have h0 : d.target ≠ 0 := bne_iff_ne.mp h0
    rw [liveLoads_nil, List.append_nil, List.map_append]
    refine List.Nodup.append hs' (List.nodup_singleton _) ?_
    intro r hr hr'
    obtain ⟨p, hp, rfl⟩ := List.mem_map.mp hr
    have : p.target = d.target := by simpa [QueueEntry.pendingWrite, htarget] using hr'
    exact HazardTracker.ne_of_conflicts hc (d.target_mem_hazards h0) h0 (hs.subset hp) this
  next => simpa using hs'

/-- An operation that is handed over goes behind the others in both places. -/
theorem handed (h : m.LoadsTracked f) (hw : m.Settled w) (hp : m.trap.pending = none) :
    let next := (m.execute.step (m.executeInput w)).next
    let all := (faultTracker.cycle m w f).toList ++
      (m.access.remaining (accessInput w) ++ m.access.admitted (accessInput w))
    next.hazards.WF ∧ next.hazards.pending = liveLoads all ∧
      (next.hazards.pending.map (·.target)).Nodup ∧ ∃ n, Numbered n all next.tag := by
  have hredirect : (m.executeInput w).trap.isSome = false := by
    rw [executeInput, hw.isSome_redirect, hp]
    rfl
  obtain ⟨hwf, hpending, hsub, n, hn⟩ := h.retire hw hp
  intro next all
  rw [show all = _ from (List.append_assoc ..).symm, liveLoads_append, ← hpending]
  obtain ⟨ht, -⟩ | ⟨-, hm, hh, hg⟩ | ⟨d, -, ho, hd, -, hf, hm, hh, hg⟩ :=
    Execute.step_handed (s := m.execute) (i := m.executeInput w)
  · rw [hredirect] at ht
    cases ht
  · have had : m.access.admitted (accessInput w) = [] := by
      rw [hw.admitted, hw.execute, hm]
      rfl
    rw [had, hh, hg, List.append_nil, liveLoads_nil, List.append_nil]
    exact ⟨hwf, rfl, h.targets.sublist (hsub.map _), n, hn⟩
  · have htag := hn.next
    have had : m.access.admitted (accessInput w) =
        [.ofMemoryOp (Execute.memoryOp d (m.executeInput w) m.execute.state.tag)] := by
      rw [hw.admitted, hw.execute, hm]
      rfl
    have hnext := hn.concat (e := .ofMemoryOp
      (Execute.memoryOp d (m.executeInput w) m.execute.state.tag)) rfl
    rw [had, hh, hg]
    rw [htag] at hnext ⊢
    obtain ⟨h1, h2⟩ := issue_pending hwf (i := m.executeInput w) hf
    refine ⟨h1, h2, ?_, n, hnext⟩
    rw [h2]
    exact nodup_targets h.targets hsub ho.hazards

/-- A load that faults in a cycle without a trap is the one that the trap controller takes. -/
theorem faulted (h : m.LoadsTracked f) (hr : m.reset = false) (hw : m.Settled w)
    (hp : m.trap.pending = none) {e : QueueEntry} (he : faultTracker.cycle m w f = some e) :
    (m.advance w).trap.pending = some (.exception .loadFault e.pc e.addr) ∧
      e.flushed = false ∧ e.store = false := by
  have hturn := hw.turn h.lockStep.wf
  simp only [faultTracker] at he
  split at he
  next hl =>
    obtain rfl : m.access.current = e := Option.some.inj he
    obtain ⟨hpc, haddr⟩ := hturn.fault (.inl hl)
    have hc := hl
    rw [hturn.loadFault] at hc
    simp only [Bool.and_eq_true, Bool.not_eq_true'] at hc
    obtain ⟨⟨⟨-, -⟩, hsq⟩, hst⟩ := hc
    refine ⟨?_, ?_, hst⟩
    · rw [advance_trap hr, TrapController.pending_loadFault hp hl, ← hpc, ← haddr]
      rfl
    · simp only [MemoryAccess.squashed, Bool.or_eq_false_iff] at hsq
      exact hsq.1.1
  · cases he

/-- A cycle without a trap. -/
theorem proceeds (h : m.LoadsTracked f) (hr : m.reset = false) (hw : m.Settled w)
    (hp : m.trap.pending = none) : (m.advance w).LoadsTracked (faultTracker.cycle m w f) := by
  have hturn := hw.turn h.lockStep.wf
  have hflush : (accessInput w).flush = false := by rw [accessInput, hw.flush, hp]; rfl
  have hin : (m.advance w).access.inFlight =
      m.access.remaining (accessInput w) ++ m.access.admitted (accessInput w) := by
    rw [advance_access hr, hturn.inFlight, hflush]
    simp
  obtain ⟨h1, h2, h3, h4⟩ := h.handed hw hp
  rw [← hin] at h2 h4
  exact
    { lockStep := by
        rw [advance_access hr, advance_memory hr]
        exact h.lockStep.step hw.memory hturn
      hazards := by rw [advance_execute hr]; exact h1
      pending := by rw [advance_execute hr]; exact h2
      numbered := by rw [advance_execute hr]; exact h4
      targets := by rw [advance_execute hr]; exact h3
      quiet := by
        rintro hnone ⟨t, ht, hcause⟩
        have hl : (m.trapInput w).loadFault = false := by
          simp only [faultTracker] at hnone
          split at hnone
          · cases hnone
          next hl => simpa [trapInput] using hl
        rw [advance_trap hr] at ht
        exact TrapController.cause_ne_loadFault hp hl ht hcause
      fault := fun e he => h.faulted hr hw hp he }

theorem cycle (h : m.LoadsTracked f) (hr : m.reset = false) (hw : m.Settled w) :
    (m.advance w).LoadsTracked (faultTracker.cycle m w f) := by
  cases hp : m.trap.pending with
  | none => exact h.proceeds hr hw hp
  | some t => exact h.trapped hr hw hp

end LoadsTracked

/-- In every state that a new machine can come to, the pending writes of the execute stage are
those of the loads in the memory-access stage, oldest first, behind the load whose fault is about to
be taken. Their tags are distinct, and so are their registers. -/
theorem pending_loads {writable : String → Bool} {c : Config} {p : Program} {m₀ : Machine}
    (hnew : Machine.new writable c p = .ok m₀) (h : List Stimulus) :
    let m := m₀.after h
    let pending := m.execute.state.hazards.pending
    (¬ m.LoadFaultPending → pending = liveLoads m.access.inFlight) ∧
    (m.LoadFaultPending → ∃ e, faultTracker.after m₀ none h = some e ∧
      m.trap.pending = some (.exception .loadFault e.pc e.addr) ∧
      pending = (if e.target = 0 then [] else [⟨e.target, e.tag⟩]) ++
        liveLoads m.access.inFlight) ∧
    (pending.map (·.tag)).Nodup ∧ (pending.map (·.target)).Nodup := by
  obtain ⟨-, rfl⟩ := eq_ofConfig_of_new hnew
  have ht : ((ofConfig c p).after h).LoadsTracked (faultTracker.after (ofConfig c p) none h) :=
    Tracker.holds (P := LoadsTracked) (fun _ _ _ hn _ _ => .of_cleared hn)
      (fun _ _ _ ha hm => hm.of_alike ha) (fun _ _ _ hr hw hm => hm.cycle hr hw) h
      (.of_cleared (cleared_ofConfig c p))
  generalize faultTracker.after (ofConfig c p) none h = f at ht
  intro m pending
  have hpending : pending = liveLoads (f.toList ++ m.access.inFlight) := ht.pending
  refine ⟨fun hq => ?_, fun hq => ?_, ?_, ht.targets⟩
  · cases f with
    | none => exact hpending
    | some e => exact absurd ⟨_, (ht.fault e rfl).1, rfl⟩ hq
  · cases f with
    | none => exact absurd hq (ht.quiet rfl)
    | some e =>
      obtain ⟨htrap, hfl, hst⟩ := ht.fault e rfl
      refine ⟨e, rfl, htrap, ?_⟩
      rw [hpending, Option.toList_some, List.singleton_append, liveLoads_cons]
      congr 1
      unfold QueueEntry.isLive
      rw [hfl, hst]
      by_cases h0 : e.target = 0
      · rw [if_pos h0, h0]
        rfl
      · rw [if_neg h0, bne_iff_ne.mpr h0]
        rfl
  · obtain ⟨n, hn⟩ := ht.numbered
    have hlen := MemoryAccess.length_inFlight ht.lockStep.wf
    have hf : f.toList.length ≤ 1 := by cases f <;> simp
    have hnd := hn.nodup (by
      rw [List.length_append]
      simp only [MemoryQueue.capacity] at hlen
      omega)
    rw [hpending]
    unfold liveLoads
    rw [List.map_map]
    exact hnd.sublist (List.filter_sublist.map _)

/-- Two loads, the first of which faults while the second one is queued. -/
def twoLoads : Program :=
  { instructions := #[{ pc := resetVector, word := 0x00002283, opcode := .lw },
      { pc := resetVector + 4, word := 0x00002303, opcode := .lw }] }

theorem pending_loads_twoLoads :
    Machine.new (fun _ => true) {} twoLoads = .ok (ofConfig {} twoLoads) ∧
      let m := (ofConfig {} twoLoads).after (.replicate 4 .tick)
      m.LoadFaultPending ∧ liveLoads m.access.inFlight = [⟨6, 1⟩] ∧
        m.execute.state.hazards.pending = [⟨5, 0⟩, ⟨6, 1⟩] ∧
        (m.execute.state.hazards.pending.map (·.tag)).Nodup := by
  have hnew : Machine.new (fun _ => true) {} twoLoads = .ok (ofConfig {} twoLoads) := rfl
  obtain ⟨-, hfault, htags, -⟩ := pending_loads hnew (.replicate 4 .tick)
  have hp : ((ofConfig {} twoLoads).after (.replicate 4 .tick)).LoadFaultPending :=
    ⟨.exception .loadFault resetVector 0, by decide +kernel, rfl⟩
  obtain ⟨e, he, -, hpending⟩ := hfault hp
  have hlive : liveLoads ((ofConfig {} twoLoads).after (.replicate 4 .tick)).access.inFlight =
      [⟨6, 1⟩] := by decide +kernel
  have hload : (faultTracker.after (ofConfig {} twoLoads) none (.replicate 4 .tick)).map
      (fun e => (e.target, e.tag)) = some (5, 0) := by decide +kernel
  rw [he] at hload
  simp only [Option.map_some, Option.some.injEq, Prod.mk.injEq] at hload
  rw [hlive, hload.1, hload.2] at hpending
  exact ⟨hnew, hp, hlive, hpending, htags⟩

end Machine

end RiscvPipeline
