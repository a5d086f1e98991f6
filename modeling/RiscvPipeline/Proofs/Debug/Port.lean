import RiscvPipeline.Debug.Port

/-!
# The accesses of the debug port

From the cycle in which it takes a request to the one in which it answers, the port holds on to the
request. `DebugPort.Answers` says what the answer is, by the cycle in which it becomes known.
-/

namespace RiscvPipeline.DebugPort

/-! ## What the port drives -/

section

variable {s : DebugPort} {i : Input}

theorem output_ready : (s.output i).ready = s.isIdle := by
  unfold output isIdle
  cases s.phase with
  | access => cases s.request.region <;> rfl
  | _ => rfl

theorem output_valid : (s.output i).valid = (s.phase == .responding) := by
  unfold output
  cases s.phase with
  | access => cases s.request.region <;> rfl
  | _ => rfl

theorem output_of_responding (h : s.phase = .responding) :
    s.output i = { valid := true, data := s.data, error := s.error } := by
  unfold output
  rw [h]

end

/-! ## The course of an access -/

/-- A cycle with inputs `i` gives the data and the error of the answer to `q`. -/
inductive Answers (q : DebugRequest) (i : Input) : Word → Bool → Prop
  | refused (h : route? q = none) : Answers q i 0 true
  | registerRead (hr : q.region = .registers) (hw : q.write = false) : Answers q i i.readData false
  | registerWrite (hr : q.region = .registers) (hw : q.write = true) (hi : i.writeReady = true) :
    Answers q i 0 false
  | nextPcRead (hr : q.region = .control) (ha : q.addr = nextPc) (hw : q.write = false) :
    Answers q i i.npc false
  | nextPcWrite (hr : q.region = .control) (ha : q.addr = nextPc) (hw : q.write = true) :
    Answers q i 0 false
  | runControlRead (hr : q.region = .control) (ha : q.addr = runControl) (hw : q.write = false) :
    Answers q i (.ofBool i.halted) false
  | bus (h : route? q = some .csrRequest) (hv : i.csr.valid = true) :
    Answers q i i.csr.data i.csr.exception

/-- The port carries out its request, and does not know the answer yet. -/
structure Underway (s : DebugPort) : Prop where
  route : route? s.request = some .access ∧ s.phase = .access ∨
    route? s.request = some .csrRequest ∧ (s.phase = .csrRequest ∨ s.phase = .csrResponse)
  data : s.data = 0
  error : s.error = false

/-- The port carries out `q` or knows what to answer. -/
def Serves (q : DebugRequest) (i : Input) (s : DebugPort) : Prop :=
  s.request = q ∧ (s.Underway ∨ s.phase = .responding ∧ Answers q i s.data s.error)

variable {q : DebugRequest} {s : DebugPort} {i : Input}

theorem route?_cases (q : DebugRequest) :
    route? q = none ∨ route? q = some .csrRequest ∨ route? q = some .access ∧
      (q.region = .registers ∨ q.region = .control ∧
        (q.addr = nextPc ∨ q.addr = runControl ∧ q.write = false)) := by
  unfold route?
  cases q.region with
  | csr => exact .inr (.inl rfl)
  | registers =>
    dsimp only
    split
    · exact .inr (.inr ⟨rfl, .inl rfl⟩)
    · exact .inl rfl
  | control =>
    dsimp only
    split
    next ha =>
      cases hw : q.write with
      | true => exact .inr (.inl rfl)
      | false => exact .inr (.inr ⟨rfl, .inr ⟨rfl, .inr ⟨ha, rfl⟩⟩⟩)
    next =>
      split
      next ha => exact .inr (.inr ⟨rfl, .inr ⟨rfl, .inl ha⟩⟩)
      next => exact .inl rfl

/-- A request with a bad address is answered at once. -/
theorem serves_accept (q : DebugRequest) (i : Input) : Serves q i (accept q) := by
  unfold Serves accept
  obtain h | h | ⟨h, -⟩ := route?_cases q
  · rw [h]
    exact ⟨rfl, .inr ⟨rfl, .refused h⟩⟩
  · rw [h]
    exact ⟨rfl, .inl ⟨.inr ⟨h, .inl rfl⟩, rfl, rfl⟩⟩
  · rw [h]
    exact ⟨rfl, .inl ⟨.inl ⟨h, rfl⟩, rfl, rfl⟩⟩

namespace Underway

theorem isIdle (h : s.Underway) : s.isIdle = false := by
  obtain ⟨-, hp⟩ | ⟨-, hp | hp⟩ := h.route <;> rw [DebugPort.isIdle, hp] <;> rfl

theorem not_responding (h : s.Underway) : (s.phase == .responding) = false := by
  obtain ⟨-, hp⟩ | ⟨-, hp | hp⟩ := h.route <;> rw [hp] <;> rfl

theorem serves_access (h : s.Underway) (hr : route? s.request = some .access) :
    Serves s.request i (s.access i) := by
  have hd := h.data
  have he := h.error
  obtain hn | hn | ⟨-, hr⟩ := route?_cases s.request
  · rw [hr] at hn
    cases hn
  · rw [hr] at hn
    cases hn
  unfold access respond
  obtain hr | ⟨hr, ha | ⟨ha, hw⟩⟩ := hr
  · simp only [hr]
    cases hw : s.request.write with
    | false => exact ⟨rfl, .inr ⟨rfl, by rw [he]; exact .registerRead hr hw⟩⟩
    | true =>
      cases hi : i.writeReady with
      | false => exact ⟨rfl, .inl h⟩
      | true => exact ⟨rfl, .inr ⟨rfl, by rw [hd, he]; exact .registerWrite hr hw hi⟩⟩
  · simp only [hr, ha, if_true]
    cases hw : s.request.write with
    | false => exact ⟨rfl, .inr ⟨rfl, by rw [he]; exact .nextPcRead hr ha hw⟩⟩
    | true => exact ⟨rfl, .inr ⟨rfl, by rw [hd, he]; exact .nextPcWrite hr ha hw⟩⟩
  · have hne : s.request.addr ≠ nextPc := by rw [ha]; decide
    simp only [hr, hne, if_false]
    exact ⟨rfl, .inr ⟨rfl, by rw [he]; exact .runControlRead hr ha hw⟩⟩

/-- An access goes on or comes to its answer. -/
theorem serves_propose (h : s.Underway) : Serves s.request i (s.propose i) := by
  unfold propose
  obtain ⟨hr, hp⟩ | ⟨hr, hp | hp⟩ := h.route
  · rw [hp]
    exact h.serves_access hr
  · rw [hp]
    dsimp only
    split
    · exact ⟨rfl, .inl ⟨.inr ⟨hr, .inr rfl⟩, h.data, h.error⟩⟩
    · exact ⟨rfl, .inl h⟩
  · rw [hp]
    dsimp only
    split
    next hv => exact ⟨rfl, .inr ⟨rfl, .bus hr hv⟩⟩
    next => exact ⟨rfl, .inl h⟩

end Underway

/-- The port is idle, or carries out a request, or answers. -/
def Sound (s : DebugPort) : Prop := s.phase = .idle ∨ s.phase = .responding ∨ s.Underway

theorem Serves.sound (h : Serves q i s) : s.Sound := by
  obtain ⟨-, h | ⟨h, -⟩⟩ := h
  · exact .inr (.inr h)
  · exact .inr (.inl h)

theorem Sound.propose (h : s.Sound) : (s.propose i).Sound := by
  obtain hp | hp | h := h
  · unfold DebugPort.propose
    rw [hp]
    dsimp only
    cases i.request with
    | none => exact .inl hp
    | some q => exact (serves_accept q i).sound
  · unfold DebugPort.propose
    rw [hp]
    dsimp only
    split
    · exact .inl rfl
    · exact .inr (.inl hp)
  · exact h.serves_propose.sound

theorem Sound.route (h : s.Sound) (hp : s.phase = .csrRequest ∨ s.phase = .access) :
    route? s.request = some s.phase := by
  obtain hi | hr | hu := h
  · simp [hi] at hp
  · simp [hr] at hp
  · obtain ⟨hr, ha⟩ | ⟨hr, hc | hc⟩ := hu.route
    · rw [hr, ha]
    · rw [hr, hc]
    · simp [hc] at hp

/-- Of the accesses to run control those that write go over the bus. -/
theorem of_route?_control (hr : q.region = .control) (h : route? q = some .csrRequest) :
    q.addr = runControl ∧ q.write = true := by
  simp only [route?, hr] at h
  split at h
  next ha =>
    cases hw : q.write with
    | true => exact ⟨ha, rfl⟩
    | false => simp [hw] at h
  next => split at h <;> cases h

theorem command_eq_resume : command q = .resume ↔
    q.region = .control ∧ q.wdata.getLsbD 0 = false := by
  unfold command
  cases q.region <;> cases q.write <;> cases q.wdata.getLsbD 0 <;> decide

theorem accept_request (q : DebugRequest) : (accept q).request = q := by
  unfold accept
  cases route? q <;> rfl

variable (s i) in
/-- The port holds on to its request until it is idle, and takes another one then. -/
theorem propose_request : s.isIdle = false ∧ (s.propose i).request = s.request ∨
    s.isIdle = true ∧ (s.propose i = s ∨ i.request = some (s.propose i).request) := by
  unfold propose isIdle
  cases hp : s.phase with
  | idle =>
    refine .inr ⟨rfl, ?_⟩
    cases i.request with
    | none => exact .inl rfl
    | some q => exact .inr (congrArg some (accept_request q).symm)
  | csrRequest | csrResponse | responding =>
    refine .inl ⟨rfl, ?_⟩
    dsimp only
    split <;> rfl
  | access =>
    refine .inl ⟨rfl, ?_⟩
    dsimp only
    unfold access respond
    repeat' split
    all_goals rfl

/-- The cycle that writes the next program counter is the last one of its access. -/
theorem Sound.of_npcWrite (h : s.Sound) {x : Word} (hx : (s.output i).npcWrite = some x) :
    (s.propose i).phase = .responding ∧ (s.propose i).error = false := by
  unfold output at hx
  cases hp : s.phase with
  | idle | csrRequest | csrResponse | responding => simp [hp] at hx
  | access =>
    obtain h | h | h := h
    · rw [hp] at h
      cases h
    · rw [hp] at h
      cases h
    unfold DebugPort.propose access
    cases hr : s.request.region with
    | csr | registers => simp [hp, hr] at hx
    | control => cases ha : decide (s.request.addr = nextPc) <;> simp_all [respond, h.error]

end RiscvPipeline.DebugPort
