import RiscvPipeline.Proofs.Memory.Requests

/-!
# The memory-access stage is a queue

Whatever bus, register file and traps do, operations leave the stage in the order in which they
were handed over, each once: as a request, as a write-back if they are loads that complete, and as a
fault if the bus reports one. `Standing` says what has become of the operations that are answered.
The write-back of one of them may still be waiting for the register file; what becomes of the others
does not depend on what comes.
-/

namespace RiscvPipeline.MemoryAccess

/-! ## Write-backs and faults in a run -/

section

variable (t : Moment MemoryAccess Input)

/-- The write-back that the register file takes. -/
def written? : Option WriteBack :=
  if (output t).write.enable && t.input.writeReady then some (output t).write else none

/-- The pulses of a fault. -/
structure Fault where
  load : Bool
  store : Bool
  pc : Word
  addr : Word
  deriving DecidableEq

def fault? : Option Fault :=
  let o := output t
  if o.loadFault || o.storeFault then
    some { load := o.loadFault, store := o.storeFault, pc := o.faultPc, addr := o.faultAddr }
  else none

end

/-- The first cycle from `n` on in which the register file is free. If there is none yet it is the
next one. -/
def freeFrom (ts : List (Moment MemoryAccess Input)) (n : Nat) : Nat :=
  n + (ts.drop n).findIdx (·.input.writeReady)

namespace Operation

variable (ts : List (Moment MemoryAccess Input)) (p : Operation)

/-- The operation is a load into a register, and the bus reports no fault of a load. -/
def loads : Bool := !p.entry.store && !p.response.loadFault && p.entry.target != 0

/-- The bus reports a fault of the operation's own kind. -/
def faults : Bool := if p.entry.store then p.response.storeFault else p.response.loadFault

/-- The write-back of the operation, unless a trap comes by the time of it. -/
def write? : Option WriteBack :=
  if p.loads && !flushed ts p.pushed (freeFrom ts p.answered) then
    some (writeBack p.entry (p.entry.loaded p.response.data))
  else none

/-- The fault of the operation, unless a trap comes by the time of its answer. -/
def fault? : Option Fault :=
  if p.faults && !flushed ts p.pushed p.answered then
    some { load := !p.entry.store, store := p.entry.store, pc := p.entry.pc, addr := p.entry.addr }
  else none

end Operation

/-- The write-back of a load that waits for the register file. -/
def parked (s : MemoryAccess) : List WriteBack :=
  if s.phase = .holding then [writeBack s.current s.held] else []

/-- The bus answers for the doubleword of the operation on the bus. -/
def Addressed (t : Moment MemoryAccess Input) : Prop :=
  t.state.phase = .waiting → t.input.bus.valid = true →
    t.input.bus.addr.alignDown = t.state.current.addr.alignDown

variable {s : MemoryAccess} {i : Input} {t : Moment MemoryAccess Input}
  {ts : List (Moment MemoryAccess Input)} {n : Nat}

/-! ## Windows of a run -/

theorem freeFrom_concat (h : ∃ u ∈ ts.drop n, u.input.writeReady = true) :
    freeFrom (ts ++ [t]) n = freeFrom ts n ∧ freeFrom ts n < ts.length := by
  have hlt := List.findIdx_lt_length_of_exists h
  have hn : freeFrom ts n < ts.length := by
    unfold freeFrom
    rw [List.length_drop] at hlt
    omega
  refine ⟨?_, hn⟩
  unfold freeFrom at hn ⊢
  rw [List.drop_append_of_le_length (by omega), List.findIdx_append, if_pos hlt]

theorem length_le_freeFrom (hn : n ≤ ts.length)
    (h : ∀ u ∈ ts.drop n, u.input.writeReady = false) : ts.length ≤ freeFrom ts n := by
  unfold freeFrom
  rw [List.findIdx_eq_length_of_false fun u hu => by simp [h u hu], List.length_drop]
  omega

theorem length_le_freeFrom_concat (hn : n ≤ ts.length)
    (h : ∀ u ∈ ts.drop n, u.input.writeReady = false) : ts.length ≤ freeFrom (ts ++ [t]) n := by
  have hf : (ts.drop n).findIdx (·.input.writeReady) = (ts.drop n).length :=
    List.findIdx_eq_length_of_false fun u hu => by simp [h u hu]
  unfold freeFrom
  rw [List.drop_append_of_le_length hn, List.findIdx_append, hf, if_neg (Nat.lt_irrefl _),
    List.length_drop]
  omega

namespace Operation

variable {p : Operation}

/-- The write-back of the operation does not depend on what comes. -/
def Closed (ts : List (Moment MemoryAccess Input)) (p : Operation) : Prop :=
  p.loads = true → (∃ u ∈ ts.drop p.answered, u.input.writeReady = true) ∨
    flushed ts p.pushed ts.length = true

/-- An operation whose write-back the register file has not taken up to now. -/
theorem write?_concat (hp : p.pushed ≤ ts.length) (ha : p.answered ≤ ts.length)
    (h : ∀ u ∈ ts.drop p.answered, u.input.writeReady = false) : p.write? (ts ++ [t]) =
      if p.loads && !(flushed ts p.pushed ts.length || t.input.flush) then
        some (writeBack p.entry (p.entry.loaded p.response.data))
      else none := by
  unfold write?
  rw [flushed_length_concat hp (length_le_freeFrom_concat ha h)]

theorem write?_eq (ha : p.answered ≤ ts.length)
    (h : ∀ u ∈ ts.drop p.answered, u.input.writeReady = false) : p.write? ts =
      if p.loads && !flushed ts p.pushed ts.length then
        some (writeBack p.entry (p.entry.loaded p.response.data))
      else none := by
  unfold write?
  rw [flushed_of_length_le (Nat.le_succ_of_le (length_le_freeFrom ha h))]

theorem fault?_concat (ha : p.answered < ts.length) : p.fault? (ts ++ [t]) = p.fault? ts := by
  unfold fault?
  rw [flushed_concat ha]

theorem Closed.concat (h : p.Closed ts) (hp : p.pushed ≤ ts.length) (ha : p.answered ≤ ts.length) :
    p.write? (ts ++ [t]) = p.write? ts ∧ p.Closed (ts ++ [t]) := by
  by_cases hf : ∃ u ∈ ts.drop p.answered, u.input.writeReady = true
  · obtain ⟨hfree, hlt⟩ := freeFrom_concat (t := t) hf
    refine ⟨?_, fun _ => .inl ?_⟩
    · unfold write?
      rw [hfree, flushed_concat hlt]
    · obtain ⟨u, hu, hw⟩ := hf
      rw [List.drop_append_of_le_length ha]
      exact ⟨u, List.mem_append_left _ hu, hw⟩
  · have hn : ∀ u ∈ ts.drop p.answered, u.input.writeReady = false := fun u hu => by
      simpa using fun hw => hf ⟨u, hu, hw⟩
    cases hl : p.loads with
    | false => exact ⟨by simp [write?, hl], fun h => by rw [hl] at h; cases h⟩
    | true =>
      have hx : flushed ts p.pushed ts.length = true := (h hl).resolve_left hf
      refine ⟨?_, fun _ => .inr ?_⟩
      · rw [write?_concat hp ha hn, write?_eq ha hn, hx]
        simp
      · rw [flushed_length_concat hp (by simp), hx]
        rfl

end Operation

/-! ## Write-backs and faults -/

theorem written?_eq (hs : s.queue.WF) : written? ⟨s, i⟩ =
    if i.writeReady then
      if s.leaves i && s.loads i then some (writeBack s.current (s.current.loaded i.bus.data))
      else if s.phase = .holding ∧ i.flush = false then some (writeBack s.current s.held) else none
    else none := by
  have hw : (output ⟨s, i⟩).write = _ := (step_course (i := i) hs).write
  unfold written?
  rw [hw]
  cases i.writeReady with
  | true =>
    by_cases hl : (s.leaves i && s.loads i) = true
    · rw [if_pos hl, if_pos hl]
      rfl
    · rw [if_neg hl, if_neg hl]
      split <;> rfl
  | false => simp

theorem Course.parked {m : MemoryAccess} {o : Output} (h : s.Course i m o) : m.parked =
    if s.yields i then []
    else if s.leaves i then [writeBack s.current (s.current.loaded i.bus.data)] else s.parked := by
  have hphase := h.phase
  unfold MemoryAccess.parked
  rw [h.current, h.held]
  cases hy : s.yields i with
  | true =>
    have hn : m.phase ≠ .holding := by
      rw [hphase, hy]
      cases (s.presents i).isSome <;> cases i.bus.ready <;> simp
    rw [if_neg hn]
    rfl
  | false =>
    unfold presents at hphase ⊢
    rw [hy] at hphase ⊢
    cases hl : s.leaves i with
    | true =>
      have hp := phase_of_leaves hl
      have hload : s.loads i = true ∧ i.writeReady = false := by
        have hv : i.bus.valid = true := by simpa [leaves, hp] using hl
        simpa [yields, hp, hv] using hy
      simp [hphase, hp, hl, hload]
      rfl
    | false =>
      cases hp : s.phase with
      | idle => simp [yields, hp] at hy
      | requesting =>
        have hn : m.phase ≠ .holding := by
          rw [hphase, hp]
          cases i.bus.ready <;> simp
        simp [hn]
      | waiting => simp [hphase, hp, hl]
      | holding =>
        simp [hphase, hp, hl]
        rfl

theorem fault?_eq (hs : s.queue.WF) : fault? ⟨s, i⟩ =
    if s.leaves i && s.faulted i && !s.squashed i then
      some { load := !s.current.store, store := s.current.store, pc := s.current.pc
             addr := s.current.addr }
    else none := by
  have hc := step_course (i := i) hs
  have hl : (output ⟨s, i⟩).loadFault = _ := hc.loadFault
  have ht : (output ⟨s, i⟩).storeFault = _ := hc.storeFault
  have hx : (output ⟨s, i⟩).loadFault = true ∨ (output ⟨s, i⟩).storeFault = true →
    (output ⟨s, i⟩).faultPc = s.current.pc ∧ (output ⟨s, i⟩).faultAddr = s.current.addr := hc.fault
  rw [hl, ht] at hx
  unfold fault?
  dsimp only
  rw [hl, ht]
  cases hb : s.leaves i && s.faulted i && !s.squashed i with
  | false => simp
  | true =>
    rw [hb] at hx
    obtain ⟨hpc, haddr⟩ := hx (by cases s.current.store <;> simp)
    rw [hpc, haddr]
    cases s.current.store <;> simp

/-- The answer of the bus is for the operation that the stage has put there. -/
theorem loads_of {p : Nat × QueueEntry} {b : Bool} (hc : s.current = p.2.squash b)
    (hp : p.2.flushed = false) (hm : s.mismatched i = false) :
    s.loads i = ((Operation.of p (n, i.bus)).loads && !(b || i.flush)) ∧
      (s.faulted i && !s.squashed i) =
        ((Operation.of p (n, i.bus)).faults && !(b || i.flush)) := by
  unfold loads squashed faulted Operation.loads Operation.faults
  rw [hm, hc]
  simp only [QueueEntry.squash, Operation.of, hp, Bool.false_or, Bool.or_false]
  refine ⟨?_, rfl⟩
  cases p.2.store with
  | true => simp
  | false => cases i.bus.loadFault <;> cases b || i.flush <;> simp

/-- The write-back of the operation waits for the register file. -/
structure Operation.Parked (ts : List (Moment MemoryAccess Input)) (s : MemoryAccess)
    (p : Operation) : Prop where
  loads : p.loads = true
  kept : flushed ts p.pushed ts.length = false
  refused : ∀ u ∈ ts.drop p.answered, u.input.writeReady = false
  back : writeBack s.current s.held = writeBack p.entry (p.entry.loaded p.response.data)

/-- What has become of the operations that are answered. -/
inductive Standing (ts : List (Moment MemoryAccess Input)) (s : MemoryAccess) : Prop
  | free (hp : s.phase ≠ .holding) (hc : ∀ p ∈ operations ts, p.Closed ts)
      (hw : ts.filterMap written? = (operations ts).filterMap (·.write? ts))
  | parked (older : List Operation) (p : Operation) (hp : s.phase = .holding)
      (ho : operations ts = older ++ [p]) (hc : ∀ q ∈ older, q.Closed ts) (hk : p.Parked ts s)
      (hw : ts.filterMap written? = older.filterMap (·.write? ts))

theorem bounds_of_mem_operations {p : Operation} (h : p ∈ operations ts) :
    p.pushed < ts.length ∧ p.answered < ts.length := by
  obtain ⟨⟨a, b⟩, hab, rfl⟩ := List.mem_map.1 h
  obtain ⟨ha, hb⟩ := List.of_mem_zip hab
  exact ⟨lt_of_mem_numbered ha, lt_of_mem_numbered hb⟩

theorem Operation.Parked.write?_eq {p : Operation} (h : p.Parked ts s)
    (ha : p.answered ≤ ts.length) :
    p.write? ts = some (writeBack s.current s.held) := by
  rw [Operation.write?_eq ha h.refused, h.loads, h.kept, h.back]
  rfl

theorem Standing.written (h : Standing ts s) :
    ts.filterMap written? ++ s.parked = (operations ts).filterMap (·.write? ts) := by
  unfold MemoryAccess.parked
  cases h with
  | free hp _ hw => rw [if_neg hp, hw, List.append_nil]
  | parked older p hp ho _ hk hw =>
    have hb :=
      bounds_of_mem_operations (ho ▸ List.mem_append_right older (List.mem_singleton_self p))
    rw [if_pos hp, hw, ho, List.filterMap_append, List.filterMap_cons,
      hk.write?_eq (Nat.le_of_lt hb.2)]
    rfl

theorem filterMap_write?_concat {older : List Operation} (ho : older ⊆ operations ts)
    (hc : ∀ p ∈ older, p.Closed ts) :
    older.filterMap (·.write? (ts ++ [t])) = older.filterMap (·.write? ts) ∧
      ∀ p ∈ older, p.Closed (ts ++ [t]) := by
  have hconcat (p : Operation) (hp : p ∈ older) :
      p.write? (ts ++ [t]) = p.write? ts ∧ p.Closed (ts ++ [t]) := by
    obtain ⟨hl, ha⟩ := bounds_of_mem_operations (ho hp)
    exact (hc p hp).concat (Nat.le_of_lt hl) (Nat.le_of_lt ha)
  exact ⟨List.filterMap_congr fun p hp => (hconcat p hp).1, fun p hp => (hconcat p hp).2⟩

theorem parked_eq_nil : s.parked = [] ↔ s.phase ≠ .holding := by
  unfold parked
  split <;> simp [*]

theorem of_parked_eq {w : WriteBack} (h : s.parked = [w]) :
    s.phase = .holding ∧ writeBack s.current s.held = w := by
  unfold parked at h
  split at h
  next hp => exact ⟨hp, List.singleton_inj.1 h⟩
  next => cases h

/-- What becomes in the cycle `t` of the operation that was answered last. The stage comes to the
state `m`. -/
inductive Operation.Retires (ts : List (Moment MemoryAccess Input))
    (t : Moment MemoryAccess Input) (m : MemoryAccess) (p : Operation) : Prop
  | closed (hm : m.parked = []) (hc : p.Closed (ts ++ [t]))
      (hw : MemoryAccess.written? t = p.write? (ts ++ [t]))
  | parked (hm : m.phase = .holding) (hk : p.Parked (ts ++ [t]) m)
      (hw : MemoryAccess.written? t = none)

theorem Standing.of_retires {m : MemoryAccess} {older : List Operation} {p : Operation}
    (h : p.Retires ts t m) (ho : operations (ts ++ [t]) = older ++ [p])
    (hmem : older ⊆ operations ts) (hc : ∀ q ∈ older, q.Closed ts)
    (hws : ts.filterMap written? = older.filterMap (·.write? ts)) : Standing (ts ++ [t]) m := by
  obtain ⟨heq, hc⟩ := filterMap_write?_concat (t := t) hmem hc
  cases h with
  | closed hm hp hw =>
    refine .free (parked_eq_nil.1 hm) ?_ ?_
    · rw [ho]
      exact List.forall_mem_append.2 ⟨hc, List.forall_mem_singleton.2 hp⟩
    · rw [filterMap_concat, hws, hw, ho, filterMap_concat, heq]
  | parked hm hk hw =>
    refine .parked older p hm ho hc hk ?_
    rw [filterMap_concat, hws, hw, heq]
    exact List.append_nil _

/-- A write-back waits until the register file is free or a trap comes. -/
theorem Operation.Parked.retires {p : Operation} (hk : p.Parked ts s) (hs : s.queue.WF)
    (hp : s.phase = .holding) (hpush : p.pushed ≤ ts.length) (hans : p.answered ≤ ts.length) :
    p.Retires ts ⟨s, i⟩ (s.step i).1 := by
  have hl : s.leaves i = false := by simp [leaves, hp]
  have hparked := (step_course (i := i) hs).parked
  have hw := written?_eq (i := i) hs
  have hwrite := p.write?_concat (t := ⟨s, i⟩) hpush hans hk.refused
  have hdrop : (ts ++ [Moment.mk s i]).drop p.answered = ts.drop p.answered ++ [⟨s, i⟩] :=
    List.drop_append_of_le_length hans
  have hflush : flushed (ts ++ [Moment.mk s i]) p.pushed (ts ++ [Moment.mk s i]).length =
      i.flush := by
    rw [flushed_length_concat hpush (by simp), hk.kept, Bool.false_or]
  simp only [hl, Bool.false_and, Bool.false_eq_true, if_false] at hw hparked
  rw [hk.loads, hk.kept, Bool.false_or, Bool.true_and] at hwrite
  cases hf : i.flush with
  | true =>
    rw [hf] at hflush hwrite
    refine .closed (hparked.trans (if_pos ?_)) (fun _ => .inr hflush) ?_
    · simp [yields, hp, hf]
    · rw [hw, hwrite]
      simp [hf]
  | false =>
    cases hwr : i.writeReady with
    | true =>
      refine .closed (hparked.trans (if_pos ?_)) (fun _ => .inl ⟨⟨s, i⟩, ?_, hwr⟩) ?_
      · simp [yields, hp, hwr]
      · rw [hdrop]
        exact List.mem_append_right _ (List.mem_singleton_self _)
      · rw [hw, hwrite]
        simp [hwr, hf, hp, hk.back]
    | false =>
      have hsp : s.parked = [writeBack s.current s.held] := if_pos hp
      rw [if_neg (by simp [yields, hp, hf, hwr]), hsp] at hparked
      obtain ⟨hnp, hback⟩ := of_parked_eq hparked
      refine .parked hnp ⟨hk.loads, hflush.trans hf, ?_, hback.trans hk.back⟩ ?_
      · rw [hdrop]
        exact List.forall_mem_append.2 ⟨hk.refused, List.forall_mem_singleton.2 hwr⟩
      · rw [hw, hwr]
        rfl

/-- The operation on the bus is answered. -/
theorem Operation.retires_of_leaves (hs : s.queue.WF) (hl : s.leaves i = true)
    {p : Nat × QueueEntry} (hp : p.2.flushed = false) (hn : p.1 < ts.length)
    (hcur : s.current = p.2.squash (flushed ts p.1 ts.length)) (hm : s.mismatched i = false) :
    (Operation.of p (ts.length, i.bus)).Retires ts ⟨s, i⟩ (s.step i).1 := by
  have hphase := phase_of_leaves hl
  have hparked := (step_course (i := i) hs).parked
  have hw := written?_eq (i := i) hs
  simp only [hl, hphase, Bool.true_and, reduceCtorEq, false_and, if_false, if_true] at hw hparked
  have hy : s.yields i = (!s.loads i || i.writeReady) := by
    have hv : i.bus.valid = true := by simpa [leaves, hphase] using hl
    simp [yields, hphase, hv]
  have hdrop : (ts ++ [Moment.mk s i]).drop ts.length = [⟨s, i⟩] := List.drop_left
  have hflush : flushed (ts ++ [Moment.mk s i]) p.1 (ts ++ [Moment.mk s i]).length =
      (flushed ts p.1 ts.length || i.flush) :=
    flushed_length_concat (Nat.le_of_lt hn) (by simp)
  obtain ⟨hload, -⟩ := loads_of (n := ts.length) hcur hp hm
  have hwrite := (Operation.of p (ts.length, i.bus)).write?_concat (t := ⟨s, i⟩) (Nat.le_of_lt hn)
    (Nat.le_refl _) (by simp [Operation.of])
  rw [show (Operation.of p (ts.length, i.bus)).pushed = p.1 from rfl, ← hload] at hwrite
  have hback : writeBack s.current (s.current.loaded i.bus.data) =
      writeBack p.2 (p.2.loaded i.bus.data) := by
    rw [hcur]
    rfl
  cases hld : s.loads i with
  | false =>
    refine .closed (hparked.trans (if_pos ?_)) (fun hq => .inr ?_) ?_
    · simp [hy, hld]
    · rw [hld, hq, Bool.true_and] at hload
      exact hflush.trans ((Bool.not_eq_false' _).mp hload.symm)
    · rw [hw, hwrite]
      simp [hld]
  | true =>
    cases hwr : i.writeReady with
    | true =>
      refine .closed (hparked.trans (if_pos ?_)) (fun _ => .inl ⟨⟨s, i⟩, ?_, hwr⟩) ?_
      · simp [hy, hwr]
      · show Moment.mk s i ∈ (ts ++ [Moment.mk s i]).drop ts.length
        rw [hdrop]
        exact List.mem_singleton_self _
      · rw [hw, hwrite]
        simp [hld, hwr, hback, Operation.of]
    | false =>
      rw [if_neg (by simp [hy, hld, hwr])] at hparked
      obtain ⟨hnp, hnb⟩ := of_parked_eq hparked
      obtain ⟨hq, hx⟩ := Bool.and_eq_true_iff.1 (hload.symm.trans hld)
      refine .parked hnp ⟨hq, hflush.trans ((Bool.not_eq_true' _).mp hx), ?_, hnb.trans hback⟩ ?_
      · show ∀ u ∈ (ts ++ [Moment.mk s i]).drop ts.length, _
        rw [hdrop]
        exact List.forall_mem_singleton.2 hwr
      · rw [hw, hwr]
        rfl

/-- A cycle in which no operation is answered. -/
theorem Standing.idle (h : Standing ts s) (hs : s.queue.WF) (hl : s.leaves i = false)
    (ho : operations (ts ++ [⟨s, i⟩]) = operations ts) :
    Standing (ts ++ [⟨s, i⟩]) (s.step i).1 := by
  cases h with
  | free hp hc hws =>
    obtain ⟨heq, hc⟩ := filterMap_write?_concat (t := ⟨s, i⟩) (List.Subset.refl _) hc
    have hparked := (step_course (i := i) hs).parked
    rw [hl, parked_eq_nil.2 hp, if_neg Bool.false_ne_true, ite_self] at hparked
    refine .free (parked_eq_nil.1 hparked) (ho ▸ hc) ?_
    have hw : written? ⟨s, i⟩ = none := by
      rw [written?_eq hs, hl]
      simp [hp]
    rw [filterMap_concat, hw, hws, ho, heq]
    exact List.append_nil _
  | parked older p hp hop hc hk hws =>
    obtain ⟨hpush, hans⟩ :=
      bounds_of_mem_operations (hop ▸ List.mem_append_right older (List.mem_singleton_self p))
    exact .of_retires (hk.retires hs hp (Nat.le_of_lt hpush) (Nat.le_of_lt hans)) (ho.trans hop)
      (hop ▸ List.subset_append_left _ _) hc hws

/-- A cycle in which the operation on the bus is answered. -/
theorem Standing.answered (h : Standing ts s) {p : Operation} (hl : s.leaves i = true)
    (hp : p.Retires ts ⟨s, i⟩ (s.step i).1)
    (ho : operations (ts ++ [⟨s, i⟩]) = operations ts ++ [p]) :
    Standing (ts ++ [⟨s, i⟩]) (s.step i).1 := by
  cases h with
  | parked _ _ hx => simp [phase_of_leaves hl] at hx
  | free _ hc hws => exact .of_retires hp ho (List.Subset.refl _) hc hws

theorem faults_concat (h : ts.filterMap fault? = (operations ts).filterMap (·.fault? ts))
    {later : List Operation} (ho : operations (ts ++ [t]) = operations ts ++ later)
    (hl : (fault? t).toList = later.filterMap (·.fault? (ts ++ [t]))) :
    (ts ++ [t]).filterMap fault? = (operations (ts ++ [t])).filterMap (·.fault? (ts ++ [t])) := by
  have heq : (operations ts).filterMap (·.fault? (ts ++ [t])) =
      (operations ts).filterMap (·.fault? ts) :=
    List.filterMap_congr fun p hp => p.fault?_concat (bounds_of_mem_operations hp).2
  rw [filterMap_concat, h, ho, List.filterMap_append, heq, hl]

theorem Standing.empty : Standing [] {} :=
  .free (by decide) (fun _ hp => (List.not_mem_nil hp).elim) rfl

/-- The requests, the write-backs and the faults of a run. -/
theorem flow_of_run (is : List Input) (h : ∀ t ∈ clocked.moments {} is, Addressed t) :
    let ts := clocked.moments {} is
    (∃ done rest, Flow done rest ts (clocked.after {} is)) ∧ Standing ts (clocked.after {} is) ∧
      ts.filterMap fault? = (operations ts).filterMap (·.fault? ts) := by
  induction is using List.reverseRecOn with
  | nil => exact ⟨⟨[], [], .empty⟩, .empty, rfl⟩
  | append_singleton is i ih =>
    rw [Clocked.moments_concat] at h ⊢
    rw [Clocked.after_concat]
    obtain ⟨⟨done, rest, hflow⟩, hst, hfaults⟩ := ih fun t ht => h t (List.mem_append_left _ ht)
    have haddr := h _ (List.mem_append_right _ (List.mem_singleton_self _))
    generalize clocked.moments {} is = ts at *
    generalize clocked.after {} is = s at *
    show (∃ done rest, Flow done rest _ (s.step i).1) ∧ Standing _ (s.step i).1 ∧ _
    obtain ⟨hl, ho, hn⟩ | ⟨p, left, hl, rfl, hcur, ho, hn⟩ := hflow.step (i := i)
    · refine ⟨⟨_, _, hn⟩, hst.idle hflow.queue hl ho,
        faults_concat hfaults (ho.trans (List.append_nil _).symm) ?_⟩
      rw [fault?_eq hflow.queue, hl]
      rfl
    · have hmem : p ∈ pushes ts := by
        rw [hflow.pushes]
        exact List.mem_append_right _ (List.mem_cons_self ..)
      have hp := flushed_of_mem_pushes hmem
      have hlt := lt_of_mem_numbered hmem
      have hm : s.mismatched i = false := by
        have hv : i.bus.valid = true := by simpa [leaves, phase_of_leaves hl] using hl
        simpa [mismatched] using haddr (phase_of_leaves hl) hv
      have hret := Operation.retires_of_leaves hflow.queue hl hp hlt hcur hm
      refine ⟨⟨_, _, hn⟩, hst.answered hl hret ho, faults_concat hfaults ho ?_⟩
      have hfl := flushed_length_concat (t := ⟨s, i⟩) (Nat.le_of_lt hlt) (Nat.le_refl ts.length)
      rw [fault?_eq hflow.queue, hl, Bool.true_and, (loads_of (n := ts.length) hcur hp hm).2, ← hfl,
        hcur]
      rfl

/-- What has passed through the stage in the cycles `ts`, after which it is in the state `s`. -/
structure Fifo (ts : List (Moment MemoryAccess Input)) (s : MemoryAccess) : Prop where
  sent : ts.filterMap sent? <+: (pushes ts).map fun p => request p.2 false
  answered : (answers ts).length ≤ (ts.filterMap sent?).length ∧
    (ts.filterMap sent?).length ≤ (answers ts).length + 1
  drained : s.isDrained = true → ts.filterMap sent? = (pushes ts).map (fun p => request p.2 false) ∧
    (answers ts).length = (pushes ts).length
  repeated : ∀ before t u rest, ts = before ++ t :: u :: rest → (output t).bus.valid = true →
    t.input.bus.ready = false → (output u).bus.content = (output t).bus.content
  written : ts.filterMap written? ++ s.parked = (operations ts).filterMap (·.write? ts)
  faults : ts.filterMap fault? = (operations ts).filterMap (·.fault? ts)

/-- In every run in which the bus answers what it was asked, operations pass through the stage in
order. -/
theorem passes_in_order (is : List Input) (h : ∀ t ∈ clocked.moments {} is, Addressed t) :
    Fifo (clocked.moments {} is) (clocked.after {} is) := by
  obtain ⟨⟨done, rest, hflow⟩, hst, hfaults⟩ := flow_of_run is h
  obtain ⟨hsent, hanswered, hdrained⟩ := hflow.fifo
  refine ⟨hsent, hanswered, hdrained, ?_, hst.written, hfaults⟩
  intro before t u rest hts hv hr
  have hu := Clocked.state_of_consecutive hts
  have hwf : t.state.queue.WF :=
    (Clocked.moments_induction (m := clocked) (I := fun s => s.queue.WF)
      (fun _ _ hs => (step_course hs).wf) .empty is).2 t (by rw [hts]; simp)
  obtain ⟨s, i⟩ := t
  obtain ⟨s', j⟩ := u
  obtain rfl : s' = (s.step i).1 := hu
  exact request_again hwf hv hr j

/-- A load that the register file refuses at first, and a store that goes wrong. -/
def refused : List Input :=
  let load : MemoryOp := { pc := 0x10000, target := 5, tag := 1, addr := 0x2000 }
  let store : MemoryOp := { pc := 0x10004, store := true, data := 7, addr := 0x2008 }
  [{ op := some load }, { op := some store, bus := { ready := true } },
    { bus := { valid := true, addr := 0x2000, data := 42 } }, { writeReady := true },
    { bus := { ready := true } }, { bus := { valid := true, addr := 0x2008, storeFault := true } }]

theorem passes_in_order_refused :
    let ts := clocked.moments {} refused
    (∀ t ∈ ts, Addressed t) ∧ (ts.filterMap sent?).map (·.addr) = [0x2000, 0x2008] ∧
      ts.filterMap written? = [{ enable := true, target := 5, data := 42, tag := 1 }] ∧
      ts.filterMap fault? = [{ load := false, store := true, pc := 0x10004, addr := 0x2008 }] := by
  intro ts
  have ha : ∀ t ∈ ts, Addressed t := by
    unfold Addressed
    decide +kernel
  have h := passes_in_order refused ha
  have hw := h.written
  rw [parked_eq_nil.2 (by decide +kernel), List.append_nil] at hw
  refine ⟨ha, ?_, hw.trans (by decide +kernel), h.faults.trans (by decide +kernel)⟩
  rw [(h.drained (by decide +kernel)).1]
  decide +kernel

end RiscvPipeline.MemoryAccess
