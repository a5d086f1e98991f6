import RiscvPipeline.Proofs.Memory.Bytes
import RiscvPipeline.Proofs.Memory.LockStep
import RiscvPipeline.Proofs.Runs

/-!
# One request at a time

The data memory on its own, with requests that come from anywhere. From the cycle in which it
accepts a request to the one in which the answer is taken the request is `Outstanding`, and the
memory takes no other one. `DataMemory.reply` is the answer, from the requests accepted before, and
`DataMemory.Course` how far the memory has come with it. `DataMemory.serves_in_turn` puts them
together.
-/

namespace RiscvPipeline

/-- Eight bytes, lowest first. -/
def Word.ofBytes (f : Nat → BitVec 8) : Word :=
  f 7 ++ f 6 ++ f 5 ++ f 4 ++ f 3 ++ f 2 ++ f 1 ++ f 0

theorem Ram.lane_ofBytes (f : Nat → BitVec 8) {i : Nat} (hi : i < 8) :
    lane (Word.ofBytes f) i = f i := by
  unfold lane
  apply BitVec.eq_of_getLsbD_eq
  intro j hj
  have pick {k m : Nat} (hk : k = i) (hm : m = j) : (f k).getLsbD m = (f i).getLsbD j := by
    rw [hk, hm]
  rw [BitVec.getLsbD_extractLsb', Word.ofBytes]
  simp only [BitVec.getLsbD_append, hj, decide_true, Bool.true_and]
  repeat' split
  all_goals exact pick (by omega) (by omega)

theorem Ram.number_eq_ofBytes (m : Ram) (n : Nat) :
    BitVec.ofNat 64 (m.number n 8) = Word.ofBytes fun i => m.byte (n + i) := by
  have hnum := number_eq_of_lanes (m := m) (n := n) (v := Word.ofBytes fun i => m.byte (n + i))
    fun i hi => (lane_ofBytes (fun i => m.byte (n + i)) hi).symm
  apply BitVec.eq_of_toNat_eq
  rw [hnum, BitVec.toNat_ofNat]
  exact Nat.mod_eq_of_lt (Nat.mod_lt _ (by decide)) |>.trans (Nat.mod_eq_of_lt (BitVec.isLt _))

namespace DataMemory

/-! ## Requests and answers -/

/-- A request is accepted. -/
def accepted (t : Moment DataMemory MemoryRequest) : Bool :=
  t.input.valid && (t.state.output t.input).ready

/-- An answer is taken. -/
def taken (t : Moment DataMemory MemoryRequest) : Bool :=
  (t.state.output t.input).valid && t.input.ready

/-- The requests that are accepted, in order. -/
def log (ts : List (Moment DataMemory MemoryRequest)) : List MemoryRequest :=
  (ts.filter accepted).map (·.input)

/-- The request of `first` is accepted, and its answer is not taken in the cycles since then. -/
structure Outstanding (ts before : List (Moment DataMemory MemoryRequest))
    (first : Moment DataMemory MemoryRequest) (later : List (Moment DataMemory MemoryRequest)) :
    Prop where
  split : ts = before ++ first :: later
  accepted : DataMemory.accepted first = true
  untaken : ∀ t ∈ later, taken t = false

variable (d : DataMemory) (qs : List MemoryRequest) (q : MemoryRequest) (n : Nat)

/-- The request writes the byte at an offset: it is a write in the region, to the doubleword of the
byte, with its strobe. -/
def Sets : Prop :=
  q.write = true ∧ d.Contains q.addr ∧ (q.addr.toNat - d.base.toNat) / 8 = n / 8 ∧
    q.strobes.getLsbD (n % 8) = true

instance : Decidable (d.Sets q n) := inferInstanceAs (Decidable (_ ∧ _))

/-- The byte at an offset, after some requests. -/
def byteAfter : BitVec 8 :=
  qs.foldl (fun b q => if d.Sets q n then Ram.lane q.data (n % 8) else b) (d.ram.byte n)

/-- The timing model after some requests. -/
def timingAfter : MemoryTiming := qs.foldl (fun x q => (x.access q.addr).2) d.timing

/-- The cycles from the one that accepts a request to its answer, after some requests. -/
def latency : Nat := max 1 ((d.timingAfter qs).access q.addr).1

/-- The answer to a request, after some requests. -/
def reply : MemoryResponse :=
  { valid := true
    addr := q.addr
    data :=
      if q.write = false ∧ d.Contains q.addr then
        .ofBytes fun i => d.byteAfter qs ((q.addr.toNat - d.base.toNat) / 8 * 8 + i)
      else 0
    loadFault := !q.write && !decide (d.Contains q.addr)
    storeFault := q.write && !decide (d.Contains q.addr) }

/-- The memory `m` has come from `d` by the cycles `ts`. -/
structure Serves (ts : List (Moment DataMemory MemoryRequest)) (m : DataMemory) : Prop where
  size : m.ram.size = d.ram.size
  bytes : ∀ n, m.ram.byte n = d.byteAfter (log ts) n
  outstanding : ∀ before first later, Outstanding ts before first later → ∀ q,
    accepted ⟨m, q⟩ = false ∧
      m.output q =
        if later.length + 1 < d.latency (log before) first.input then {}
        else d.reply (log before) first.input
  idle : (∀ before first later, ¬ Outstanding ts before first later) → ∀ q,
    m.output q = { ready := BitVec.ofNat 32 ts.length % d.readyPeriod == 0 }

variable {d m : DataMemory} {qs : List MemoryRequest} {q : MemoryRequest} {n : Nat}
  {t : Moment DataMemory MemoryRequest} {ts : List (Moment DataMemory MemoryRequest)}

theorem byteAfter_concat : d.byteAfter (qs ++ [q]) n =
    if d.Sets q n then Ram.lane q.data (n % 8) else d.byteAfter qs n := by
  rw [byteAfter, List.foldl_append]
  rfl

theorem timingAfter_concat :
    d.timingAfter (qs ++ [q]) = ((d.timingAfter qs).access q.addr).2 := by
  rw [timingAfter, List.foldl_append]
  rfl

theorem log_concat : log (ts ++ [t]) = log ts ++ if accepted t then [t.input] else [] := by
  rw [log, List.filter_append, List.map_append, log]
  cases h : accepted t <;> simp [h]

theorem Aligned.accept_of_write (h : m.Aligned) (hw : q.write = true) (hi : m.Contains q.addr) :
    m.ram.write? (q.addr.alignDown.toNat - m.base.toNat) q.data q.strobes =
      some (m.accept q).ram := by
  obtain ⟨r, hr⟩ := Ram.write?_isSome_of_covers (h.covers hi) q.data q.strobes
  rw [accept_ram, if_pos hw, stored, h.offset?_alignDown, if_pos hi, Option.bind_some, hr]
  rfl

theorem Aligned.accept_of_not (h : m.Aligned) (hn : ¬ (q.write = true ∧ m.Contains q.addr)) :
    (m.accept q).ram = m.ram := by
  rw [accept_ram]
  split
  next hw => rw [stored, h.offset?_alignDown, if_neg fun hi => hn ⟨hw, hi⟩]; rfl
  · rfl

/-- A request that is accepted changes the bytes that it sets. -/
theorem Aligned.byte_accept (h : m.Aligned) (n : Nat) : (m.accept q).ram.byte n =
    if m.Sets q n then Ram.lane q.data (n % 8) else m.ram.byte n := by
  by_cases hn : q.write = true ∧ m.Contains q.addr
  · obtain ⟨hw, hi⟩ := hn
    have hb := h.base
    have hdown := q.addr.toNat_alignDown
    have hin := hi
    unfold Contains at hin
    rw [Ram.byte_write? (h.accept_of_write hw hi)]
    by_cases hd : (q.addr.toNat - m.base.toNat) / 8 = n / 8
    · have hlane : n - (q.addr.alignDown.toNat - m.base.toNat) = n % 8 := by omega
      rw [hlane]
      refine if_congr ?_ rfl rfl
      exact ⟨fun hc => ⟨hw, hi, hd, hc.2.2⟩, fun hs => ⟨by omega, by omega, hs.2.2.2⟩⟩
    · rw [if_neg (by omega), if_neg fun hs => hd hs.2.2.1]
  · rw [h.accept_of_not hn, if_neg fun hs => hn ⟨hs.1, hs.2.1⟩]

theorem size_accept : (m.accept q).ram.size = m.ram.size := by
  rw [accept_ram]
  split
  · exact Ram.size_written _ q.strobes
  · rfl

/-- What the memory `m` has kept of `d` after the cycles `ts`. -/
structure Kept (d : DataMemory) (ts : List (Moment DataMemory MemoryRequest)) (m : DataMemory) :
    Prop where
  base : m.base = d.base
  size : m.ram.size = d.ram.size
  bytes : ∀ n, m.ram.byte n = d.byteAfter (log ts) n
  timing : m.timing = d.timingAfter (log ts)
  period : m.readyPeriod = d.readyPeriod
  tick : m.registers.tick = BitVec.ofNat 32 ts.length
  ready : m.registers.response.ready = false

namespace Kept

variable (h : Kept d ts m)
include h

theorem contains (addr : Word) : m.Contains addr ↔ d.Contains addr := by
  rw [Contains, h.base, h.size]
  rfl

theorem aligned (hd : d.Aligned) : m.Aligned := ⟨h.base ▸ hd.base, h.size ▸ hd.size⟩

theorem accepted_eq (q : MemoryRequest) : accepted ⟨m, q⟩ = m.accepts q := by
  unfold DataMemory.accepted accepts output
  cases m.registers.phase with
  | idle => cases q.valid <;> rfl
  | busy k => cases q.valid <;> rfl
  | responding =>
    dsimp only
    rw [h.ready]
    cases q.valid <;> rfl

theorem sets (q : MemoryRequest) (n : Nat) : m.Sets q n ↔ d.Sets q n := by
  unfold Sets
  rw [h.contains, h.base]

/-- The answer that the memory prepares when it accepts a request. -/
theorem respond_eq (hd : d.Aligned) (q : MemoryRequest) : m.respond q = d.reply (log ts) q := by
  have hm := h.aligned hd
  unfold respond reply
  by_cases hi : m.Contains q.addr
  · have hb := hd.base
    have hdown := q.addr.toNat_alignDown
    have hin := (h.contains _).1 hi
    have hplace : q.addr.alignDown.toNat - m.base.toNat =
        (q.addr.toNat - d.base.toNat) / 8 * 8 := by
      rw [h.base]
      unfold Contains at hin
      omega
    have hdata : BitVec.ofNat 64 (m.ram.number (q.addr.alignDown.toNat - m.base.toNat) 8) =
        Word.ofBytes fun i =>
          d.byteAfter (log ts) ((q.addr.toNat - d.base.toNat) / 8 * 8 + i) := by
      rw [Ram.number_eq_ofBytes, hplace]
      simp only [h.bytes]
    rw [hm.peek?_eq hi, hdata]
    cases q.write <;> simp [hin]
  · have hin : ¬ d.Contains q.addr := fun hc => hi ((h.contains _).2 hc)
    rw [hm.peek?_eq_none hi]
    cases q.write <;> simp [hin]

theorem next (hd : d.Aligned) (q : MemoryRequest) : Kept d (ts ++ [⟨m, q⟩]) (m.next q) := by
  have htick : m.registers.tick + 1 =
      BitVec.ofNat 32 (ts ++ [(⟨m, q⟩ : Moment DataMemory MemoryRequest)]).length := by
    rw [h.tick, List.length_append, List.length_singleton, BitVec.ofNat_add]
    rfl
  have hlog : log (ts ++ [⟨m, q⟩]) = log ts ++ if m.accepts q then [q] else [] := by
    rw [log_concat, h.accepted_eq]
  cases ha : m.accepts q with
  | true =>
    rw [ha, if_pos rfl] at hlog
    rw [next_of_accepts ha]
    have hm := h.aligned hd
    have hx : Aligned { m with registers := { m.registers with
        tick := m.registers.tick + 1, response := m.respond q } } := ⟨hm.base, hm.size⟩
    constructor
    case base => exact accept_base.trans h.base
    case size => exact size_accept.trans h.size
    case bytes =>
      intro n
      rw [hx.byte_accept, hlog, byteAfter_concat]
      exact if_congr (h.sets q n) rfl (h.bytes n)
    case timing =>
      rw [accept_eq, hlog, timingAfter_concat]
      exact congrArg (fun x => (MemoryTiming.access q.addr x).2) h.timing
    case period =>
      rw [accept_eq]
      exact h.period
    case tick =>
      rw [accept_eq]
      exact htick
    case ready =>
      rw [accept_response]
      rfl
  | false =>
    rw [ha, if_neg Bool.false_ne_true, List.append_nil] at hlog
    obtain ⟨p, hn⟩ := next_of_not_accepts ha
    rw [hn]
    exact
      { base := h.base
        size := h.size
        bytes := by rw [hlog]; exact h.bytes
        timing := by rw [hlog]; exact h.timing
        period := h.period
        tick := htick
        ready := h.ready }

end Kept

/-! ## The course of a request -/

/-- A request is outstanding after a cycle if the cycle accepts it, or if it was outstanding and its
answer is not taken. -/
theorem outstanding_concat {before later : List (Moment DataMemory MemoryRequest)}
    {first : Moment DataMemory MemoryRequest} : Outstanding (ts ++ [t]) before first later ↔
      (before = ts ∧ first = t ∧ later = [] ∧ accepted t = true) ∨
        ∃ us, later = us ++ [t] ∧ taken t = false ∧ Outstanding ts before first us := by
  constructor
  · intro ⟨hs, ha, hu⟩
    rcases List.eq_nil_or_concat later with rfl | ⟨us, u, rfl⟩
    · obtain ⟨rfl, ht⟩ := List.append_inj' hs rfl
      obtain rfl := List.singleton_inj.1 ht
      exact .inl ⟨rfl, rfl, rfl, ha⟩
    · rw [List.concat_eq_append] at hs hu ⊢
      rw [← List.cons_append, ← List.append_assoc] at hs
      obtain ⟨hus, ht⟩ := List.append_inj' hs rfl
      obtain rfl := List.singleton_inj.1 ht
      exact .inr ⟨us, rfl, hu t (by simp), hus, ha, fun v hv => hu v (List.mem_append_left _ hv)⟩
  · rintro (⟨rfl, rfl, rfl, ha⟩ | ⟨us, rfl, ht, hs, ha, hu⟩)
    · exact ⟨rfl, ha, fun _ hu => nomatch hu⟩
    · refine ⟨by rw [hs, List.append_assoc, List.cons_append], ha, fun v hv => ?_⟩
      rcases List.mem_append.1 hv with hv | hv
      · exact hu v hv
      · rwa [List.mem_singleton.1 hv]

/-- How far the memory `m` has come with the requests of the cycles `ts`: it is idle and nothing is
outstanding, or it has the answer to the one request that is. -/
inductive Course (d : DataMemory) (ts : List (Moment DataMemory MemoryRequest)) (m : DataMemory) :
    Prop
  | idle (hp : m.registers.phase = .idle)
      (hn : ∀ before first later, ¬ Outstanding ts before first later)
  | serving (before : List (Moment DataMemory MemoryRequest))
      (first : Moment DataMemory MemoryRequest) (later : List (Moment DataMemory MemoryRequest))
      (ho : Outstanding ts before first later)
      (hu : ∀ b f l, Outstanding ts b f l → b = before ∧ f = first ∧ l = later)
      (hp : m.registers.phase =
        if later.length + 1 < d.latency (log before) first.input then
          .busy (d.latency (log before) first.input - (later.length + 1))
        else .responding)
      (hr : m.registers.response = d.reply (log before) first.input)

theorem accept_phase_eq {k : Nat} (hk : (m.timing.access q.addr).1 = k) :
    (m.accept q).registers.phase = if 1 < max 1 k then .busy (max 1 k - 1) else .responding := by
  rw [accept_eq, hk]
  dsimp only
  split
  next h => rw [Nat.max_eq_left h, if_neg (Nat.lt_irrefl 1)]
  next h => rw [Nat.max_eq_right (by omega), if_pos (by omega)]

theorem Course.next (hc : Course d ts m) (h : Kept d ts m) (hd : d.Aligned) (q : MemoryRequest) :
    Course d (ts ++ [⟨m, q⟩]) (m.next q) := by
  have hacc := h.accepted_eq q
  cases hc with
  | idle hp hn =>
    have only {b f l} (ho : Outstanding (ts ++ [⟨m, q⟩]) b f l) :
        b = ts ∧ f = ⟨m, q⟩ ∧ l = [] ∧ m.accepts q = true := by
      obtain ho | ⟨us, -, -, ho⟩ := outstanding_concat.1 ho
      · rwa [hacc] at ho
      · exact absurd ho (hn _ _ _)
    cases ha : m.accepts q with
    | true =>
      have hk : (m.timing.access q.addr).1 = ((d.timingAfter (log ts)).access q.addr).1 := by
        rw [h.timing]
      refine .serving ts ⟨m, q⟩ [] (outstanding_concat.2 (.inl ⟨rfl, rfl, rfl, hacc.trans ha⟩))
        (fun b f l ho => ⟨(only ho).1, (only ho).2.1, (only ho).2.2.1⟩) ?_ ?_
      · rw [next_of_accepts ha]
        exact accept_phase_eq hk
      · rw [next_of_accepts ha, accept_response]
        exact h.respond_eq hd q
    | false =>
      refine .idle (by rw [next_idle hp ha, hp]) fun b f l ho => ?_
      rw [(only ho).2.2.2] at ha
      cases ha
  | serving before first later ho hu hp hr =>
    -- Nothing is accepted, so that what is outstanding afterwards was so before, one cycle less far.
    have hidle : m.registers.phase ≠ .idle := by
      rw [hp]
      split <;> simp
    have ha : m.accepts q = false := by simp [accepts, hidle]
    have only {b f l} (ho : Outstanding (ts ++ [⟨m, q⟩]) b f l) : taken ⟨m, q⟩ = false ∧
        b = before ∧ f = first ∧ l = later ++ [⟨m, q⟩] := by
      obtain ⟨-, -, -, hx⟩ | ⟨us, hl, ht, ho⟩ := outstanding_concat.1 ho
      · rw [hacc, ha] at hx
        cases hx
      · obtain ⟨hb, hf, rfl⟩ := hu _ _ _ ho
        exact ⟨ht, hb, hf, hl⟩
    have goes (ht : taken ⟨m, q⟩ = false) :
        Outstanding (ts ++ [⟨m, q⟩]) before first (later ++ [⟨m, q⟩]) :=
      outstanding_concat.2 (.inr ⟨later, rfl, ht, ho⟩)
    have hlen : (later ++ [(⟨m, q⟩ : Moment DataMemory MemoryRequest)]).length =
        later.length + 1 := by simp
    split at hp
    next hlt =>
      have ht : taken ⟨m, q⟩ = false := by simp [taken, output, hp]
      refine .serving before first _ (goes ht) (fun b f l ho => (only ho).2) ?_ ?_
      · rw [next_busy hp, hlen]
        dsimp only
        split
        · rw [if_neg (by omega)]
        · rw [if_pos (by omega), Nat.sub_sub]
      · rw [next_busy hp]
        exact hr
    next hlt =>
      have ht : taken ⟨m, q⟩ = q.ready := by simp [taken, output, hp, hr, reply]
      cases hq : q.ready with
      | true =>
        refine .idle (by rw [next_responding hp hq]) fun b f l ho => ?_
        rw [ht.trans hq] at only
        cases (only ho).1
      | false =>
        have hn : m.next q = { m with
            registers := { m.registers with tick := m.registers.tick + 1 } } := by
          simp [DataMemory.next, edge, propose, hp, hq]
        refine .serving before first _ (goes (ht.trans hq)) (fun b f l ho => (only ho).2) ?_ ?_
        · rw [hn, hlen, if_neg (by omega)]
          exact hp
        · rw [hn]
          exact hr

theorem Course.complete (hc : Course d ts m) (h : Kept d ts m) : Serves d ts m where
  size := h.size
  bytes := h.bytes
  outstanding before first later ho q := by
    cases hc with
    | idle _ hn => exact absurd ho (hn _ _ _)
    | serving b f l _ hu hp hr =>
      obtain ⟨rfl, rfl, rfl⟩ := hu _ _ _ ho
      rw [h.accepted_eq, accepts, output, hp]
      split
      · exact ⟨by simp, rfl⟩
      · exact ⟨by simp, hr⟩
  idle hn q := by
    cases hc with
    | idle hp =>
      unfold output ready
      rw [hp, h.tick, h.period]
      rfl
    | serving before first later ho => exact absurd ho (hn _ _ _)

/-- What a memory has kept, and how far it has come, after any run from reset. -/
theorem kept_course (hd : d.Aligned) (h0 : d.registers = {}) (is : List MemoryRequest) :
    Kept d (clocked.moments d is) (clocked.after d is) ∧
      Course d (clocked.moments d is) (clocked.after d is) := by
  induction is using List.reverseRecOn with
  | nil =>
    have hnone (before first later) : ¬ Outstanding (clocked.moments d []) before first later := by
      intro ho
      have := ho.split
      cases before <;> cases this
    exact ⟨⟨rfl, rfl, fun _ => rfl, rfl, rfl, congrArg (·.tick) h0, congrArg (·.response.ready) h0⟩,
      .idle (congrArg (·.phase) h0) hnone⟩
  | append_singleton is q ih =>
    rw [Clocked.moments_concat, Clocked.after_concat]
    exact ⟨ih.1.next hd q, ih.2.next ih.1 hd q⟩

/-- A memory of a valid configuration, with any contents, serves one request at a time. -/
theorem serves_in_turn {c : Config} (hc : c.Valid) {r : Ram} (hr : r.size = c.memory.size)
    (is : List MemoryRequest) :
    let d := { ofConfig c.memory with ram := r }
    Serves d (clocked.moments d is) (clocked.after d is) := by
  intro d
  have hd : d.Aligned := Maps.aligned hc ⟨rfl, hr⟩
  obtain ⟨hk, hcourse⟩ := kept_course hd rfl is
  exact hcourse.complete hk

/-- A write of half a doubleword, the taking of its answer, and a read of the doubleword. -/
theorem serves_in_turn_reading :
    let c : Config := {}
    let d := { ofConfig c.memory with ram := { size := c.memory.size } }
    let addr : Word := c.memory.base + 8
    let write : MemoryRequest :=
      { valid := true, write := true, addr := addr, data := 0x1122334455667788, strobes := 0x0f }
    let read : MemoryRequest := { valid := true, addr := addr + 3, ready := true }
    let is := [write, read, read, read, read]
    c.Valid ∧ d.ram.size = c.memory.size ∧
      (∃ before first later, Outstanding (clocked.moments d is) before first later ∧
        first.input = read ∧ before.length = 3 ∧ later.length + 1 = d.latency (log before) read) ∧
      (clocked.after d is).output read = { valid := true, addr := addr + 3, data := 0x55667788 } ∧
      (clocked.after d is).ram.byte 11 = 0x55 ∧ (clocked.after d is).ram.byte 12 = 0 := by
  intro c d addr write read is
  have hc : c.Valid := by decide
  have hs := serves_in_turn hc (r := { size := c.memory.size }) rfl is
  let ts := clocked.moments d is
  have ho : Outstanding ts (ts.take 3) ⟨clocked.after d (is.take 3), read⟩ (ts.drop 4) :=
    ⟨rfl, by decide +kernel, by decide +kernel⟩
  have hl : (ts.drop 4).length + 1 = d.latency (log (ts.take 3)) read := by decide +kernel
  refine ⟨hc, rfl, ⟨_, _, _, ho, rfl, rfl, hl⟩, ?_, ?_, ?_⟩
  · rw [(hs.outstanding _ _ _ ho read).2, if_neg (Nat.not_lt.2 hl.ge)]
    decide +kernel
  · rw [hs.bytes]
    decide +kernel
  · rw [hs.bytes]
    decide +kernel

end DataMemory

end RiscvPipeline
