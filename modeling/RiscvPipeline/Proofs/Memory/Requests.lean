import Mathlib.Data.List.Basic
import RiscvPipeline.Proofs.Memory.Access
import RiscvPipeline.Proofs.Runs

/-!
# The requests of the memory-access stage

In a run the bus takes the requests of the operations in the order in which they were handed over,
each once. `Flow` splits the operations into those that have been answered and those that have not.
The cycles of a run are numbered from 0, and an operation goes together with the answer that has its
place in the order of answers.
-/

namespace RiscvPipeline

/-- What a request asks for, apart from whether a response is welcome. -/
def MemoryRequest.content (q : MemoryRequest) : MemoryRequest := { q with ready := false }

namespace MemoryAccess

/-! ## What passes in a run -/

section

variable (t : Moment MemoryAccess Input)

def output : Output := (t.state.step t.input).2

/-- The operation that the stage takes. -/
def pushed? : Option QueueEntry :=
  if (output t).ready then t.input.op.map .ofMemoryOp else none

/-- The request that the bus takes. -/
def sent? : Option MemoryRequest :=
  if (output t).bus.valid && t.input.bus.ready then some (output t).bus.content else none

/-- The response that the stage takes. -/
def answered? : Option MemoryResponse :=
  if (output t).bus.ready && t.input.bus.valid then some t.input.bus else none

end

/-- An operation with the response that answers it, and the cycles of both. -/
structure Operation where
  entry : QueueEntry
  pushed : Nat
  response : MemoryResponse
  answered : Nat

/-- The operation of a place in the orders of pushes and answers. -/
def Operation.of (p : Nat × QueueEntry) (a : Nat × MemoryResponse) : Operation :=
  { entry := p.2, pushed := p.1, response := a.2, answered := a.1 }

section

variable (ts : List (Moment MemoryAccess Input))

def pushes : List (Nat × QueueEntry) := numbered pushed? ts

def answers : List (Nat × MemoryResponse) := numbered answered? ts

def operations : List Operation :=
  ((pushes ts).zip (answers ts)).map fun p => .of p.1 p.2

/-- A trap comes in one of the cycles from `first` to `last`. -/
def flushed (first last : Nat) : Bool := ((ts.take (last + 1)).drop first).any (·.input.flush)

end

variable {s : MemoryAccess} {i : Input} {t : Moment MemoryAccess Input}
  {ts : List (Moment MemoryAccess Input)} {first last : Nat}

theorem flushed_concat (h : last < ts.length) :
    flushed (ts ++ [t]) first last = flushed ts first last := by
  unfold flushed
  rw [List.take_append_of_le_length h]

theorem flushed_of_length_le (h : ts.length ≤ last + 1) :
    flushed ts first last = flushed ts first ts.length := by
  unfold flushed
  rw [List.take_of_length_le h, List.take_of_length_le (Nat.le_succ _)]

theorem flushed_length_concat (hf : first ≤ ts.length) (hl : ts.length ≤ last) :
    flushed (ts ++ [t]) first last = (flushed ts first ts.length || t.input.flush) := by
  unfold flushed
  rw [List.take_of_length_le (by simpa using hl), List.take_of_length_le (Nat.le_succ _),
    List.drop_append_of_le_length hf]
  simp

/-! ## What a cycle shows -/

theorem pushed?_eq : (pushed? ⟨s, i⟩).toList = s.admitted i := by
  unfold pushed? output admitted
  rw [step_ready]
  cases i.op <;> cases s.queue.isFull <;> rfl

theorem flushed_of_mem_pushes {p : Nat × QueueEntry} (h : p ∈ pushes ts) :
    p.2.flushed = false := by
  obtain ⟨⟨t, n⟩, -, hp⟩ := List.mem_filterMap.1 h
  obtain ⟨e, he, rfl⟩ := Option.map_eq_some_iff.1 hp
  unfold pushed? at he
  split at he
  · obtain ⟨m, -, rfl⟩ := Option.map_eq_some_iff.1 he
    rfl
  · cases he

/-- The operations that are not answered, oldest first. -/
def unanswered (s : MemoryAccess) : List QueueEntry :=
  (if s.phase = .requesting ∨ s.phase = .waiting then [s.current] else []) ++ s.queue.toList

/-- What is left of them when the one that is answered has gone. -/
def left (s : MemoryAccess) (i : Input) : List QueueEntry :=
  if s.leaves i then s.queue.toList else s.unanswered

theorem unanswered_of_leaves (h : s.leaves i = true) :
    s.unanswered = s.current :: s.left i := by
  simp [unanswered, left, h, phase_of_leaves h]

theorem left_of_yields (h : s.yields i = true) : s.left i = s.queue.toList := by
  unfold yields at h
  unfold left unanswered leaves
  cases hp : s.phase with
  | requesting => simp [hp] at h
  | waiting =>
    rw [hp] at h
    simp [(Bool.and_eq_true_iff.1 h).1]
  | _ => simp

theorem yields_of_waits (h : s.phase = .waiting ∧ s.leaves i = false) : s.yields i = false := by
  simpa [yields, leaves, h.1] using fun hv => absurd h.2 (by simp [leaves, h.1, hv])

/-- The request that is on the bus is that of the oldest operation. -/
theorem left_of_presents {e : QueueEntry} (h : s.presents i = some e) :
    (∃ l, s.left i = e :: l) ∧ ¬ (s.phase = .waiting ∧ s.leaves i = false) := by
  unfold presents at h
  cases hy : s.yields i with
  | true =>
    rw [hy, if_pos rfl] at h
    refine ⟨?_, fun hw => by rw [yields_of_waits hw] at hy; cases hy⟩
    rw [left_of_yields hy]
    exact List.head?_eq_some_iff.1 h
  | false =>
    rw [hy, if_neg (by simp)] at h
    split at h
    next hp =>
      cases h
      refine ⟨⟨s.queue.toList, ?_⟩, by simp [hp]⟩
      simp [left, unanswered, leaves, hp]
    next => cases h

namespace Course

variable {m : MemoryAccess} {o : Output}

theorem unanswered (h : s.Course i m o) :
    m.unanswered = (s.left i ++ s.admitted i).map (·.squash i.flush) := by
  have hphase := h.phase
  unfold MemoryAccess.unanswered
  rw [h.queue, h.current]
  cases hy : s.yields i with
  | true =>
    rw [left_of_yields hy]
    unfold presents at hphase ⊢
    rw [hy] at hphase ⊢
    cases hq : s.queue.toList with
    | nil => simp [hphase, hq]
    | cons e l =>
      have hx : m.phase = .requesting ∨ m.phase = .waiting := by
        rw [hphase, hq]
        cases i.bus.ready <;> simp
      simp [hx]
  | false =>
    unfold presents at hphase ⊢
    rw [hy] at hphase ⊢
    unfold left MemoryAccess.unanswered
    cases hp : s.phase with
    | idle => simp [yields, hp] at hy
    | requesting =>
      have hx : m.phase = .requesting ∨ m.phase = .waiting := by
        rw [hphase, hp]
        cases i.bus.ready <;> simp
      simp [hx, leaves, hp]
    | waiting => cases hl : s.leaves i <;> simp [hphase, hp, hl]
    | holding => simp [hphase, hp, leaves]

end Course

theorem sent?_eq (hs : s.queue.WF) : sent? ⟨s, i⟩ =
    if i.bus.ready then (s.presents i).map (request · false) else none := by
  have hb : (output ⟨s, i⟩).bus = _ := (step_course (i := i) hs).bus
  unfold sent?
  rw [hb]
  cases s.presents i <;> cases i.bus.ready <;> rfl

theorem answered?_eq (hs : s.queue.WF) : answered? ⟨s, i⟩ =
    if s.leaves i then some i.bus else none := by
  have hb : (output ⟨s, i⟩).bus = _ := (step_course (i := i) hs).bus
  unfold answered? leaves
  rw [hb]
  cases s.presents i <;> rfl

/-! ## Requests -/

/-- The operations `done` have been answered after the cycles `ts`, and `rest` have not. -/
structure Flow (done rest : List (Nat × QueueEntry)) (ts : List (Moment MemoryAccess Input))
    (s : MemoryAccess) : Prop where
  queue : s.queue.WF
  pushes : pushes ts = done ++ rest
  answers : (answers ts).length = done.length
  unanswered : s.unanswered = rest.map fun p => p.2.squash (flushed ts p.1 ts.length)
  sent : ts.filterMap sent? =
    (done ++ rest.take (if s.phase = .waiting then 1 else 0)).map fun p => request p.2 false

/-- The operations that are taken in a cycle, with its number. -/
def taken (n : Nat) (s : MemoryAccess) (i : Input) : List (Nat × QueueEntry) :=
  (s.admitted i).map (n, ·)

variable {done rest : List (Nat × QueueEntry)}

theorem flushed_taken : flushed (ts ++ [t]) ts.length (ts.length + 1) = t.input.flush := by
  have hn : flushed ts ts.length ts.length = false := by
    unfold flushed
    rw [List.take_of_length_le (Nat.le_succ _), List.drop_length]
    rfl
  rw [flushed_length_concat (Nat.le_refl _) (Nat.le_succ _), hn, Bool.false_or]

/-- The request of the first operation that is left is sent when the stage begins to wait for its
answer. -/
theorem sent_of_left (hs : s.queue.WF) {new : List (Nat × QueueEntry)}
    {b : Nat × QueueEntry → Bool} (hl : s.left i = rest.map fun p => p.2.squash (b p)) :
    (rest.take (if s.phase = .waiting ∧ s.leaves i = false then 1 else 0)).map
        (fun p => request p.2 false) ++ (sent? ⟨s, i⟩).toList =
      ((rest ++ new).take (if (s.step i).1.phase = .waiting then 1 else 0)).map
        fun p => request p.2 false := by
  have hphase := (step_course (i := i) hs).phase
  rw [sent?_eq hs]
  cases he : s.presents i with
  | none =>
    rw [Option.map_none, ite_self, Option.toList_none, List.append_nil]
    rw [he] at hphase
    by_cases hw : s.phase = .waiting ∧ s.leaves i = false
    · have hn : (s.step i).1.phase = .waiting := by
        simp [hphase, yields_of_waits hw, hw.1, hw.2]
      have hl' : s.left i = s.current :: s.queue.toList := by
        simp [left, MemoryAccess.unanswered, hw.1, hw.2]
      obtain ⟨p, r, rfl, -⟩ := List.map_eq_cons_iff.1 (hl.symm.trans hl')
      rw [if_pos hw, if_pos hn]
      rfl
    · have hn : (s.step i).1.phase ≠ .waiting := by
        rw [hphase]
        cases s.yields i with
        | true => simp
        | false =>
          cases hlv : s.leaves i with
          | true => simp
          | false => simpa using fun hp => hw ⟨hp, hlv⟩
      rw [if_neg hw, if_neg hn]
      rfl
  | some e =>
    obtain ⟨⟨l, hle⟩, hw⟩ := left_of_presents he
    obtain ⟨p, r, rfl, hpe, -⟩ := List.map_eq_cons_iff.1 (hl.symm.trans hle)
    rw [he] at hphase
    rw [if_neg hw, hphase, ← hpe]
    cases i.bus.ready with
    | true =>
      simp
      rfl
    | false => simp

theorem Flow.of_left (hs : s.queue.WF) (hp : MemoryAccess.pushes ts = done ++ rest)
    (ha : (MemoryAccess.answers (ts ++ [⟨s, i⟩])).length = done.length)
    (hl : s.left i = rest.map fun p => p.2.squash (flushed ts p.1 ts.length))
    (hsent : ts.filterMap sent? =
      (done ++ rest.take (if s.phase = .waiting ∧ s.leaves i = false then 1 else 0)).map
        fun p => request p.2 false) :
    Flow done (rest ++ taken ts.length s i) (ts ++ [⟨s, i⟩]) (s.step i).1 := by
  have hc := step_course (i := i) hs
  constructor
  case queue => exact hc.wf
  case pushes =>
    unfold MemoryAccess.pushes at hp ⊢
    rw [numbered_concat, hp, List.append_assoc, taken, ← pushed?_eq, Option.toList_map]
  case answers => exact ha
  case unanswered =>
    have hlen : (ts ++ [Moment.mk s i]).length = ts.length + 1 := by simp
    rw [hc.unanswered, hl, hlen, List.map_append, List.map_append, List.map_map]
    congr 1
    · refine List.map_congr_left fun p hm => ?_
      have hlt := lt_of_mem_numbered (hp ▸ List.mem_append_right done hm)
      rw [flushed_length_concat (Nat.le_of_lt hlt) (Nat.le_succ _), QueueEntry.squash_or]
      rfl
    · rw [taken, List.map_map]
      exact List.map_congr_left fun e _ => congrArg e.squash (flushed_taken (t := ⟨s, i⟩)).symm
  case sent =>
    rw [filterMap_concat, hsent, List.map_append, List.append_assoc, sent_of_left hs hl,
      List.map_append]

theorem Flow.empty : Flow [] [] [] {} where
  queue := .empty
  pushes := rfl
  answers := rfl
  unanswered := rfl
  sent := rfl

theorem Flow.operations (h : Flow done rest ts s) : operations ts =
    (done.zip (MemoryAccess.answers ts)).map fun p => .of p.1 p.2 := by
  unfold MemoryAccess.operations
  rw [h.pushes, ← List.append_nil (MemoryAccess.answers ts), List.zip_append h.answers.symm,
    List.append_nil, List.zip_nil_right, List.append_nil]

/-- Either nothing is answered in a cycle, or the oldest operation is, which is on the bus. -/
theorem Flow.step (h : Flow done rest ts s) :
    s.leaves i = false ∧ MemoryAccess.operations (ts ++ [⟨s, i⟩]) = MemoryAccess.operations ts ∧
        Flow done (rest ++ taken ts.length s i) (ts ++ [⟨s, i⟩]) (s.step i).1 ∨
      ∃ p left, s.leaves i = true ∧ rest = p :: left ∧
        s.current = p.2.squash (flushed ts p.1 ts.length) ∧
        MemoryAccess.operations (ts ++ [⟨s, i⟩]) =
          MemoryAccess.operations ts ++ [.of p (ts.length, i.bus)] ∧
        Flow (done ++ [p]) (left ++ taken ts.length s i) (ts ++ [⟨s, i⟩]) (s.step i).1 := by
  have ha : MemoryAccess.answers (ts ++ [⟨s, i⟩]) = MemoryAccess.answers ts ++
      if s.leaves i then [(ts.length, i.bus)] else [] := by
    unfold MemoryAccess.answers
    rw [numbered_concat, answered?_eq h.queue]
    cases s.leaves i <;> rfl
  cases hl : s.leaves i with
  | false =>
    rw [hl, if_neg (by simp), List.append_nil] at ha
    have hn : Flow done (rest ++ taken ts.length s i) (ts ++ [⟨s, i⟩]) (s.step i).1 := by
      refine .of_left h.queue h.pushes (by rw [ha, h.answers]) ?_ (by simp [h.sent, hl])
      rw [MemoryAccess.left, hl, ← h.unanswered]
      rfl
    exact .inl ⟨rfl, by rw [hn.operations, h.operations, ha], hn⟩
  | true =>
    rw [hl, if_pos rfl] at ha
    have hu := unanswered_of_leaves hl
    obtain ⟨p, left, rfl, hp, hleft⟩ := List.map_eq_cons_iff.1 (h.unanswered.symm.trans hu)
    have hn : Flow (done ++ [p]) (left ++ taken ts.length s i) (ts ++ [⟨s, i⟩]) (s.step i).1 := by
      refine .of_left h.queue (by simp [h.pushes]) (by simp [ha, h.answers]) hleft.symm ?_
      rw [h.sent, if_pos (phase_of_leaves hl), if_neg (by simp [hl])]
      simp
    refine .inr ⟨p, left, rfl, rfl, hp.symm, ?_, hn⟩
    rw [hn.operations, h.operations, ha, List.zip_append h.answers.symm, List.map_append]
    rfl

/-- A request that the bus does not take is made again. -/
theorem request_again (hs : s.queue.WF) (hv : (output ⟨s, i⟩).bus.valid = true)
    (hr : i.bus.ready = false) (j : Input) :
    (output ⟨(s.step i).1, j⟩).bus.content = (output ⟨s, i⟩).bus.content := by
  have hc := step_course (i := i) hs
  have hb : (output ⟨s, i⟩).bus = _ := hc.bus
  have hphase := hc.phase
  cases hp : s.presents i with
  | none =>
    rw [hb, hp] at hv
    cases hv
  | some e =>
    have hn : (s.step i).1.phase = .requesting := by simp [hphase, hp, hr]
    have hb' : (output ⟨(s.step i).1, j⟩).bus = _ := (step_course (i := j) hc.wf).bus
    have hcur : (s.step i).1.current = e.squash i.flush := by rw [hc.current, hp]; rfl
    have hp' : (s.step i).1.presents j = some (e.squash i.flush) := by
      simp [presents, yields, hn, hcur]
    rw [hb', hp', hb, hp]
    rfl

theorem Flow.fifo (h : Flow done rest ts s) :
    ts.filterMap sent? <+: (MemoryAccess.pushes ts).map (fun p => request p.2 false) ∧
      ((MemoryAccess.answers ts).length ≤ (ts.filterMap sent?).length ∧
        (ts.filterMap sent?).length ≤ (MemoryAccess.answers ts).length + 1) ∧
      (s.isDrained = true →
        ts.filterMap sent? = (MemoryAccess.pushes ts).map (fun p => request p.2 false) ∧
        (MemoryAccess.answers ts).length = (MemoryAccess.pushes ts).length) := by
  rw [h.sent, h.pushes]
  refine ⟨?_, ⟨?_, ?_⟩, fun hd => ?_⟩
  · exact (List.prefix_append_right_inj done).2 (List.take_prefix _ _) |>.map _
  · rw [h.answers]
    simp
  · rw [h.answers, List.length_map, List.length_append, List.length_take]
    split <;> omega
  · simp only [isDrained, Bool.and_eq_true, beq_iff_eq, MemoryQueue.isEmpty_eq,
      List.isEmpty_iff] at hd
    have hu := h.unanswered
    simp only [MemoryAccess.unanswered, hd, reduceCtorEq, or_self, if_false, List.append_nil] at hu
    obtain rfl := List.map_eq_nil_iff.1 hu.symm
    simp [h.answers]

end MemoryAccess

end RiscvPipeline
