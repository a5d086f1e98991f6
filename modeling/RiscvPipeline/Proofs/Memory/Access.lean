import RiscvPipeline.Memory.Access
import RiscvPipeline.Proofs.Memory.Queue

/-! The operations of the memory-access stage as one list, from the bus to the end of the queue. -/

namespace RiscvPipeline

/-- The entry after a cycle in which everything was squashed or not. -/
def QueueEntry.squash (b : Bool) (e : QueueEntry) : QueueEntry :=
  { e with flushed := e.flushed || b }

@[simp] theorem QueueEntry.squash_false (e : QueueEntry) : e.squash false = e := by
  simp [squash]

@[simp] theorem QueueEntry.squash_true (e : QueueEntry) :
    e.squash true = { e with flushed := true } := by
  simp [squash]

theorem QueueEntry.squash_or (a b : Bool) (e : QueueEntry) :
    e.squash (a || b) = (e.squash a).squash b := by
  simp [squash, Bool.or_assoc]

namespace MemoryAccess

variable (s : MemoryAccess) (i : Input)

/-- The operations that are not finished, oldest first. -/
def inFlight : List QueueEntry := (if s.phase = .idle then [] else [s.current]) ++ s.queue.toList

/-- The operation on the bus is answered in this cycle. -/
def leaves : Bool := s.phase == .waiting && i.bus.valid

/-- The bus is free for the next operation. -/
def frees : Bool := s.phase == .idle || s.leaves i

/-- The operation that is put on the bus, or stays there because it was not accepted. -/
def asks : Option QueueEntry :=
  if s.frees i then s.queue.toList.head?
  else if s.phase = .requesting then some s.current
  else none

/-- The operation that the queue takes. -/
def admitted : List QueueEntry :=
  match i.op with
  | some op => if s.queue.isFull then [] else [.ofMemoryOp op]
  | none => []

/-- The states of the stage, in which a loaded value never waits for the register file. -/
structure WF : Prop where
  queue : s.queue.WF
  phase : s.phase ≠ .holding

/-- What a cycle in which the register file is free comes to. -/
structure Turn (n : MemoryAccess) (o : Output) : Prop where
  wf : n.WF
  phase : n.phase =
    if (s.asks i).isSome then (if i.bus.ready then .waiting else .requesting)
    else if s.frees i then .idle else .waiting
  current : n.current = ((s.asks i).getD s.current).squash i.flush
  queue : n.queue.toList =
    ((if s.frees i then s.queue.toList.tail else s.queue.toList) ++ s.admitted i).map
      (·.squash i.flush)
  write : o.write = if s.leaves i && s.loads i then
    writeBack s.current (s.current.loaded i.bus.data) else {}
  bus : o.bus =
    match s.asks i with
    | some e => request e (s.phase == .waiting)
    | none => { ready := s.phase == .waiting }
  loadFault : o.loadFault = (s.leaves i && s.faulted i && !s.squashed i && !s.current.store)
  storeFault : o.storeFault = (s.leaves i && s.faulted i && !s.squashed i && s.current.store)
  fault : o.loadFault = true ∨ o.storeFault = true →
    o.faultPc = s.current.pc ∧ o.faultAddr = s.current.addr

theorem WF.empty : WF {} := ⟨.empty, by simp⟩

/-! ## A cycle, whether the register file is free or not -/

theorem issue_ready (s : MemoryAccess) (i : Input) (o : Output) :
    (s.issue i o).2.ready = o.ready := by
  unfold issue
  cases s.queue.pop? <;> rfl

theorem step_ready (s : MemoryAccess) (i : Input) : (s.step i).2.ready = !s.queue.isFull := by
  have report_ready (o : Output) : (s.report i o).ready = o.ready := by
    unfold report; split <;> rfl
  unfold step advance answered
  dsimp only
  cases s.phase with
  | idle => rw [issue_ready]
  | requesting => rfl
  | waiting =>
    dsimp only
    split
    · split
      · split
        · rw [issue_ready]; exact report_ready _
        · exact report_ready _
      · rw [issue_ready, report_ready]
    · rfl
  | holding =>
    dsimp only
    split
    · rw [issue_ready]
    · split
      · rw [issue_ready]
      · rfl

/-- The bus goes to the next operation. -/
def yields : Bool :=
  match s.phase with
  | .idle => true
  | .requesting => false
  | .waiting => i.bus.valid && (!s.loads i || i.writeReady)
  | .holding => i.flush || i.writeReady

/-- The operation whose request is on the bus. -/
def presents : Option QueueEntry :=
  if s.yields i then s.queue.toList.head?
  else if s.phase = .requesting then some s.current
  else none

/-- What a cycle comes to. -/
structure Course (n : MemoryAccess) (o : Output) : Prop where
  wf : n.queue.WF
  phase : n.phase =
    if (s.presents i).isSome then (if i.bus.ready then .waiting else .requesting)
    else if s.yields i then .idle else if s.leaves i then .holding else s.phase
  current : n.current = ((s.presents i).getD s.current).squash i.flush
  queue : n.queue.toList =
    ((if s.yields i then s.queue.toList.tail else s.queue.toList) ++ s.admitted i).map
      (·.squash i.flush)
  held : n.held =
    if s.leaves i && s.loads i && !i.writeReady then s.current.loaded i.bus.data else s.held
  write : o.write =
    if s.leaves i && s.loads i then writeBack s.current (s.current.loaded i.bus.data)
    else if s.phase = .holding ∧ i.flush = false then writeBack s.current s.held else {}
  bus : o.bus =
    match s.presents i with
    | some e => request e (s.phase == .waiting)
    | none => { ready := s.phase == .waiting }
  loadFault : o.loadFault = (s.leaves i && s.faulted i && !s.squashed i && !s.current.store)
  storeFault : o.storeFault = (s.leaves i && s.faulted i && !s.squashed i && s.current.store)
  fault : o.loadFault = true ∨ o.storeFault = true →
    o.faultPc = s.current.pc ∧ o.faultAddr = s.current.addr

variable {s i}

/-- The state at the end of a cycle that has come to `n`: an operation is handed over, and a trap
squashes everything. -/
def handover (s : MemoryAccess) (i : Input) (n : MemoryAccess) : MemoryAccess :=
  let next :=
    match i.op with
    | some m => if !s.queue.isFull then n.push m else n
    | none => n
  if i.flush then next.flush else next

theorem step_eq : s.step i =
    (s.handover i (s.advance i { ready := !s.queue.isFull }).1,
      (s.advance i { ready := !s.queue.isFull }).2) := rfl

theorem handover_eq {n : MemoryAccess} (hq : n.queue.WF)
    (hf : s.queue.isFull = false → n.queue.isFull = false) :
    ∃ q : MemoryQueue, s.handover i n = { n with queue := q, current := n.current.squash i.flush } ∧
      q.WF ∧ q.toList = (n.queue.toList ++ s.admitted i).map (·.squash i.flush) := by
  obtain ⟨q, hx, hqw, hql⟩ : ∃ q : MemoryQueue, s.handover i n =
      (if i.flush then flush { n with queue := q } else { n with queue := q }) ∧ q.WF ∧
        q.toList = n.queue.toList ++ s.admitted i := by
    unfold MemoryAccess.handover admitted
    cases i.op with
    | none => exact ⟨n.queue, rfl, hq, (List.append_nil _).symm⟩
    | some m =>
      cases hs : s.queue.isFull with
      | true => exact ⟨n.queue, rfl, hq, (List.append_nil _).symm⟩
      | false =>
        obtain ⟨r, hr, hrw, hrl⟩ := hq.push (hf hs) (.ofMemoryOp m)
        refine ⟨r, ?_, hrw, hrl⟩
        simp only [push, hr]
        rfl
  rw [hx]
  cases i.flush with
  | false => exact ⟨q, by simp, hqw, by simp [hql]⟩
  | true =>
    obtain ⟨hfw, hfl⟩ := hqw.flush
    exact ⟨q.flush, by simp [flush], hfw, by simpa [hql] using hfl⟩

section

variable {o : Output}

/-- The bus goes to the head of the queue. -/
theorem course_issue (hs : s.queue.WF) (hy : s.yields i = true)
    (hb : o.bus = { ready := s.phase == .waiting })
    (hw : o.write =
      if s.leaves i && s.loads i then writeBack s.current (s.current.loaded i.bus.data)
      else if s.phase = .holding ∧ i.flush = false then writeBack s.current s.held else {})
    (hl : o.loadFault = (s.leaves i && s.faulted i && !s.squashed i && !s.current.store))
    (ht : o.storeFault = (s.leaves i && s.faulted i && !s.squashed i && s.current.store))
    (hx : o.loadFault = true ∨ o.storeFault = true →
      o.faultPc = s.current.pc ∧ o.faultAddr = s.current.addr) :
    s.Course i (s.handover i (s.issue i o).1) (s.issue i o).2 := by
  have hheld : (s.leaves i && s.loads i && !i.writeReady) = false := by
    unfold yields at hy
    unfold leaves
    cases hp : s.phase with
    | waiting =>
      simp only [hp, Bool.and_eq_true, Bool.or_eq_true, Bool.not_eq_true'] at hy
      rcases hy.2 with h | h <;> simp [h]
    | _ => simp
  unfold issue
  cases hq : s.queue.toList with
  | nil =>
    have ha : s.presents i = none := by simp [presents, hy, hq]
    rw [MemoryQueue.pop_nil hq]
    obtain ⟨q, hn, hqw, hql⟩ := handover_eq (s := s) (i := i) (n := { s with phase := .idle })
      hs id
    dsimp only
    rw [hn]
    exact
      { wf := hqw
        phase := by simp [ha, hy]
        current := by simp [ha]
        queue := by simp [hql, hy, hq]
        held := by simp [hheld]
        write := hw
        bus := by rw [ha]; exact hb
        loadFault := hl
        storeFault := ht
        fault := hx }
  | cons e l =>
    have ha : s.presents i = some e := by simp [presents, hy, hq]
    obtain ⟨r, hr, hrw, hrl⟩ := hs.pop_cons hq
    rw [hr]
    have hfull : s.queue.isFull = false → r.isFull = false := by
      intro h
      have hc := hs.count
      have hlen : r.count + 1 = s.queue.count := by
        rw [← MemoryQueue.length_toList, ← MemoryQueue.length_toList, hrl, hq, List.length_cons]
      simp only [MemoryQueue.isFull, MemoryQueue.capacity, beq_eq_false_iff_ne] at h hc ⊢
      omega
    obtain ⟨q, hn, hqw, hql⟩ := handover_eq (s := s) (i := i)
      (n := { s with
        phase := if i.bus.ready then .waiting else .requesting
        queue := r
        current := e }) hrw hfull
    dsimp only
    rw [hn]
    exact
      { wf := hqw
        phase := by simp [ha]
        current := by simp [ha]
        queue := by simp [hql, hy, hq, hrl]
        held := by simp [hheld]
        write := hw
        bus := by rw [ha, hb]
        loadFault := hl
        storeFault := ht
        fault := hx }

/-- The operation keeps the bus, in another phase perhaps. -/
theorem course_keep (hs : s.queue.WF) (hy : s.yields i = false) {p : Phase} {v : Word}
    (hp : p = if s.phase = .requesting then (if i.bus.ready then .waiting else .requesting)
      else if s.leaves i then .holding else s.phase)
    (hv : v = if s.leaves i && s.loads i && !i.writeReady then s.current.loaded i.bus.data
      else s.held)
    (hb : o.bus = if s.phase = .requesting then request s.current false
      else { ready := s.phase == .waiting })
    (hw : o.write =
      if s.leaves i && s.loads i then writeBack s.current (s.current.loaded i.bus.data)
      else if s.phase = .holding ∧ i.flush = false then writeBack s.current s.held else {})
    (hl : (s.leaves i && s.faulted i) = false) (ho : o.loadFault = false ∧ o.storeFault = false) :
    s.Course i (s.handover i { s with phase := p, held := v }) o := by
  obtain ⟨q, hn, hqw, hql⟩ := handover_eq (s := s) (i := i) (n := { s with phase := p, held := v })
    hs id
  rw [hn]
  have ha : s.presents i = if s.phase = .requesting then some s.current else none := by
    simp [presents, hy]
  constructor
  case wf => exact hqw
  case phase =>
    rw [ha]
    dsimp only
    rw [hp, hy]
    by_cases hr : s.phase = .requesting <;> simp [hr]
  case current =>
    rw [ha]
    by_cases hr : s.phase = .requesting <;> simp [hr]
  case queue => simp [hql, hy]
  case held => exact hv
  case write => exact hw
  case bus =>
    rw [ha, hb]
    by_cases hr : s.phase = .requesting
    · rw [if_pos hr, if_pos hr, hr]
      rfl
    · rw [if_neg hr, if_neg hr]
  case loadFault => simp [ho.1, hl]
  case storeFault => simp [ho.2, hl]
  case fault => simp [ho.1, ho.2]

end

theorem step_course (hs : s.queue.WF) : s.Course i (s.step i).1 (s.step i).2 := by
  rw [step_eq]
  unfold advance
  cases hp : s.phase with
  | idle =>
    have hl : s.leaves i = false := by simp [leaves, hp]
    exact course_issue hs (by simp [yields, hp]) (by simp [hp]) (by simp [hl, hp]) (by simp [hl])
      (by simp [hl]) (by simp)
  | requesting =>
    have hl : s.leaves i = false := by simp [leaves, hp]
    exact course_keep hs (by simp [yields, hp]) (by simp [hp]) (by simp [hl]) (by simp [hp])
      (by simp [hl, hp]) (by simp [hl]) (by simp)
  | waiting =>
    cases hv : i.bus.valid with
    | false =>
      have hl : s.leaves i = false := by simp [leaves, hv]
      exact course_keep (p := s.phase) (v := s.held) hs (by simp [yields, hp, hv])
        (by simp [hp, hl]) (by simp [hl]) (by simp [hp]) (by simp [hl, hp]) (by simp [hl]) (by simp)
    | true =>
      have hl : s.leaves i = true := by simp [leaves, hp, hv]
      simp only [if_true]
      unfold answered
      cases hload : s.loads i with
      | true =>
        have hns : s.faulted i = false := by
          simp only [loads, Bool.and_eq_true, Bool.not_eq_true'] at hload
          exact hload.1.2
        simp only [if_true]
        cases hw : i.writeReady with
        | true =>
          exact course_issue hs (by simp [yields, hp, hv, hw]) (by simp [report, hns, hp])
            (by simp [hl, hload]) (by simp [report, hns]) (by simp [report, hns])
            (by simp [report, hns])
        | false =>
          exact course_keep hs (by simp [yields, hp, hload, hw]) (by simp [hp, hl])
            (by simp [hl, hload, hw]) (by simp [report, hns, hp]) (by simp [hl, hload])
            (by simp [hns]) (by simp [report, hns])
      | false =>
        refine course_issue hs (by simp [yields, hp, hv, hload]) ?_ ?_ ?_ ?_ ?_
        · unfold report; split <;> simp [hp]
        · unfold report; split <;> simp [hload, hp]
        · unfold report; split <;> simp_all
        · unfold report; split <;> simp_all
        · unfold report; split <;> simp
  | holding =>
    have hl : s.leaves i = false := by simp [leaves, hp]
    cases hf : i.flush with
    | true =>
      exact course_issue hs (by simp [yields, hp, hf]) (by simp [hp]) (by simp [hl, hf])
        (by simp [hl]) (by simp [hl]) (by simp)
    | false =>
      cases hw : i.writeReady with
      | true =>
        exact course_issue hs (by simp [yields, hp, hw]) (by simp [hp]) (by simp [hl, hp, hf])
          (by simp [hl]) (by simp [hl]) (by simp)
      | false =>
        exact course_keep (p := s.phase) (v := s.held) hs (by simp [yields, hp, hf, hw])
          (by simp [hp, hl]) (by simp [hl]) (by simp [hp]) (by simp [hl, hp, hf]) (by simp [hl])
          (by simp)

theorem step_turn (hs : s.WF) (hw : i.writeReady = true) :
    s.Turn i (s.step i).1 (s.step i).2 := by
  have hy : s.yields i = s.frees i := by
    unfold yields frees leaves
    cases hp : s.phase with
    | holding => exact absurd hp hs.phase
    | _ => simp [hw]
  have ha : s.presents i = s.asks i := by
    unfold presents asks
    rw [hy]
  have hc := step_course hs.queue (i := i)
  obtain ⟨hqw, hphase, hcurrent, hqueue, -, hwrite, hbus, hl, ht, hx⟩ := hc
  rw [ha, hy] at hphase
  have hphase : (s.step i).1.phase =
      if (s.asks i).isSome then (if i.bus.ready then .waiting else .requesting)
      else if s.frees i then .idle else .waiting := by
    rw [hphase]
    unfold asks frees
    cases hp : s.phase with
    | holding => exact absurd hp hs.phase
    | waiting => cases s.leaves i <;> simp
    | requesting => simp [leaves, hp]
    | idle => simp
  exact
    { wf := ⟨hqw, by rw [hphase]; split <;> split <;> simp⟩
      phase := hphase
      current := by rw [hcurrent, ha]
      queue := by rw [hqueue, hy]
      write := by simp [hwrite, hs.phase]
      bus := by rw [hbus, ha]
      loadFault := hl
      storeFault := ht
      fault := hx }

/-- What is left of the operations when the one that is answered has gone. -/
def remaining (s : MemoryAccess) (i : Input) : List QueueEntry :=
  if s.leaves i then s.queue.toList else s.inFlight

theorem phase_of_leaves (h : s.leaves i = true) : s.phase = .waiting := by
  simp only [leaves, Bool.and_eq_true, beq_iff_eq] at h
  exact h.1

theorem inFlight_of_leaves (h : s.leaves i = true) :
    s.inFlight = s.current :: s.remaining i := by
  simp [inFlight, remaining, h, phase_of_leaves h]

theorem inFlight_eq (s : MemoryAccess) (i : Input) :
    s.inFlight = (if s.leaves i then [s.current] else []) ++ s.remaining i := by
  cases h : s.leaves i with
  | true => exact inFlight_of_leaves h
  | false => simp [remaining, h]

theorem length_inFlight (hs : s.WF) : s.inFlight.length ≤ MemoryQueue.capacity + 1 := by
  have := hs.queue.count
  unfold inFlight
  rw [List.length_append, MemoryQueue.length_toList]
  split <;> simp <;> omega

/-- The operations move up, take the one that is handed over, and are squashed together. -/
theorem Turn.inFlight {n : MemoryAccess} {o : Output} (h : s.Turn i n o) :
    n.inFlight = (s.remaining i ++ s.admitted i).map (·.squash i.flush) := by
  have hn := h.phase
  have hc := h.current
  have hq := h.queue
  unfold MemoryAccess.inFlight
  cases hf : s.frees i with
  | true =>
    have hrem : s.remaining i = s.queue.toList := by
      cases hl : s.leaves i with
      | true => simp [remaining, hl]
      | false =>
        have : s.phase = .idle := by simpa [frees, hl] using hf
        simp [remaining, hl, MemoryAccess.inFlight, this]
    rw [hrem, hq]
    cases hl : s.queue.toList with
    | nil =>
      have ha : s.asks i = none := by simp [asks, hf, hl]
      rw [if_pos (by simpa [ha, hf] using hn)]
      simp [hf]
    | cons e l =>
      have ha : s.asks i = some e := by simp [asks, hf, hl]
      have hne : n.phase ≠ .idle := by
        rw [hn, ha]
        cases i.bus.ready <;> simp
      rw [if_neg hne, hc, ha]
      simp [hf]
  | false =>
    have hl : s.leaves i = false := by
      simp only [frees, Bool.or_eq_false_iff] at hf
      exact hf.2
    have hi : s.phase ≠ .idle := by
      simp only [frees, Bool.or_eq_false_iff, beq_eq_false_iff_ne] at hf
      exact hf.1
    have ha : (s.asks i).getD s.current = s.current := by
      unfold asks
      rw [hf]
      cases hp : s.phase <;> simp
    have hne : n.phase ≠ .idle := by
      rw [hn, hf]
      cases (s.asks i).isSome <;> cases i.bus.ready <;> simp
    rw [if_neg hne, hc, ha, hq]
    simp [hf, remaining, hl, MemoryAccess.inFlight, hi]

end MemoryAccess

end RiscvPipeline
