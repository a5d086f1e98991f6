import RiscvPipeline.Proofs.Debug.Port
import RiscvPipeline.Proofs.Runs

/-!
# The effects of a debug access

The port on its own, with inputs that come from anywhere. What a request should do outside and what
should be read for it are functions of the request (`DebugRequest.effects`, `DebugRequest.sampled`).
`DebugPort.Service` tells the cycles from the one in which the port takes a request: it does
exactly this, shows one answer until it is taken, and takes no other request meanwhile.
-/

namespace RiscvPipeline

namespace DebugPort

/-- What the port does outside. -/
inductive Effect
  /-- The bus takes a request. -/
  | request (q : CsrRequest)
  /-- A response is taken from the bus. -/
  | response (r : CsrResponse)
  /-- A register write is driven, and the register file takes it or not. -/
  | register (w : RegisterWrite) (taken : Bool)
  | nextPc (x : Word)
  deriving DecidableEq

/-- What the port does outside in a cycle. -/
def effects (u : Moment DebugPort Input) : List Effect :=
  let o := u.state.output u.input
  (if o.csr.valid && u.input.csr.ready then [.request o.csr] else []) ++
    (if o.csr.ready && u.input.csr.valid then [.response u.input.csr] else []) ++
    o.registerWrite.toList.map (.register · u.input.writeReady) ++ o.npcWrite.toList.map .nextPc

end DebugPort

/-! ## What a request is about -/

namespace DebugRequest

open DebugPort

variable (q : DebugRequest)

/-- There is nothing at the address. -/
def Bad : Prop :=
  q.region = .registers ∧ 64 ≤ q.addr.toNat ∨
    q.region = .control ∧ q.addr ≠ runControl ∧ q.addr ≠ DebugPort.nextPc

/-- Control and status registers and writes to run control are reached over the bus. -/
def NeedsBus : Prop :=
  q.region = .csr ∨ q.region = .control ∧ q.addr = runControl ∧ q.write = true

/-- What a request does outside, if the bus responds with `r`. -/
def effects (r : CsrResponse) : List Effect :=
  match q.region with
  | .csr =>
    [.request
      { valid := true
        command := if q.write then .write else .read
        addr := q.addr
        data := q.wdata }, .response r]
  | .registers =>
    if q.write ∧ q.addr.toNat < 64 then [.register ⟨q.addr.setWidth 8, q.wdata⟩ true] else []
  | .control =>
    if q.write = false then []
    else if q.addr = runControl then
      [.request
        { valid := true
          command := if q.wdata.getLsbD 0 then .halt else .resume
          data := q.wdata }, .response r]
    else if q.addr = DebugPort.nextPc then [.nextPc q.wdata]
    else []

/-- What a request reads. -/
def sampled (i : Input) : Word :=
  match q.region with
  | .csr => i.csr.data
  | .registers => i.readData
  | .control => if q.addr = DebugPort.nextPc then i.npc else .ofBool i.halted

variable {q}

theorem route?_eq_none : route? q = none ↔ q.Bad := by
  unfold route? Bad
  cases q.region with
  | csr => simp
  | registers =>
    simp only [true_and, reduceCtorEq, false_and, or_false]
    split <;> simp <;> omega
  | control =>
    simp only [reduceCtorEq, false_and, false_or, true_and]
    split
    next h => simp [h]
    next h => split <;> simp [*]

theorem route?_eq_csrRequest : route? q = some .csrRequest ↔ q.NeedsBus := by
  unfold route? NeedsBus
  cases q.region with
  | csr => simp
  | registers =>
    simp only [reduceCtorEq, false_and, or_false, iff_false]
    split <;> simp
  | control =>
    simp only [reduceCtorEq, true_and, false_or]
    split
    next h => cases q.write <;> simp [h]
    next h => split <;> simp [h]

theorem NeedsBus.region_ne (h : q.NeedsBus) : q.region ≠ .registers := by
  rcases h with h | ⟨h, -⟩ <;> simp [h]

theorem NeedsBus.effects (h : q.NeedsBus) (r : CsrResponse) :
    q.effects r = [.request (busRequest q), .response r] := by
  unfold DebugRequest.effects busRequest command
  rcases h with hr | ⟨hr, ha, hw⟩
  · cases hw : q.write <;> simp [hr]
  · simp [hr, ha, hw]

theorem NeedsBus.sampled (h : q.NeedsBus) (hw : q.write = false) (i : Input) :
    q.sampled i = i.csr.data := by
  rcases h with hr | ⟨-, -, hw'⟩
  · rw [DebugRequest.sampled, hr]
  · simp [hw] at hw'

theorem register_eq (h : q.addr.toNat < 64) : register q = q.addr.setWidth 8 := by
  apply BitVec.eq_of_toNat_eq
  have hand : (q.addr &&& 0x3f).toNat = q.addr.toNat % 64 :=
    (BitVec.toNat_and ..).trans (Nat.and_two_pow_sub_one_eq_mod _ 6)
  rw [register, BitVec.toNat_setWidth, BitVec.toNat_setWidth, hand, Nat.mod_eq_of_lt h]

end DebugRequest

namespace DebugPort

variable {s : DebugPort} {i : Input} {q : DebugRequest}

/-! ## One cycle -/

theorem effects_of_idle (h : s.phase = .idle) : effects ⟨s, i⟩ = [] := by
  simp [effects, output, h]

theorem effects_of_csrRequest (h : s.phase = .csrRequest) :
    effects ⟨s, i⟩ = if i.csr.ready then [.request (busRequest s.request)] else [] := by
  simp [effects, output, h, busRequest]

theorem effects_of_csrResponse (h : s.phase = .csrResponse) :
    effects ⟨s, i⟩ = if i.csr.valid then [.response i.csr] else [] := by
  simp [effects, output, h]

theorem effects_of_registers (h : s.phase = .access) (hr : s.request.region = .registers) :
    effects ⟨s, i⟩ = if s.request.write && i.writeReady then
      [.register ⟨register s.request, s.request.wdata⟩ true] else [] := by
  cases hw : s.request.write <;> cases hi : i.writeReady <;> simp [effects, output, h, hr, hw, hi]

theorem effects_of_control (h : s.phase = .access) (hr : s.request.region = .control) :
    effects ⟨s, i⟩ = if s.request.addr = nextPc ∧ s.request.write then
      [.nextPc s.request.wdata] else [] := by
  by_cases hc : s.request.addr = nextPc ∧ s.request.write = true <;>
    simp [effects, output, h, hr, hc]

/-- What the port has done so far for the request that it carries out. -/
def sent (s : DebugPort) : List Effect :=
  if s.phase = .csrResponse then [.request (busRequest s.request)] else []

/-- The port neither takes a request nor answers. -/
structure Quiet (u : Moment DebugPort Input) : Prop where
  ready : (u.state.output u.input).ready = false
  valid : (u.state.output u.input).valid = false

theorem Underway.quiet (h : s.Underway) : Quiet ⟨s, i⟩ :=
  ⟨output_ready.trans h.isIdle, output_valid.trans h.not_responding⟩

/-- A cycle in which `q` waits: it asks for the bus, or its response has not come, or the register
file does not take its write. -/
inductive Waits (q : DebugRequest) (u : Moment DebugPort Input) : Prop
  | asks (h : q.NeedsBus) (ho : (u.state.output u.input).csr = busRequest q)
  | expects (h : q.NeedsBus) (ho : (u.state.output u.input).csr = { ready := true })
      (hv : u.input.csr.valid = false)
  | write (hr : q.region = .registers) (hw : q.write = true) (hi : u.input.writeReady = false)

/-- An answer to `q` with data `d` and error `e` is right if `u` is its last cycle. -/
structure Replies (q : DebugRequest) (u : Moment DebugPort Input) (d : Word) (e : Bool) : Prop where
  error : e = true ↔ q.NeedsBus ∧ u.input.csr.exception = true
  data : q.write = false → d = q.sampled u.input
  index : q.region = .registers → (u.state.output u.input).readIndex = q.addr.setWidth 8

variable (s i) in
/-- An access waits, and perhaps hands its request to the bus, or is finished. -/
inductive Advances : DebugPort → Prop
  | waits {n : DebugPort} (hn : n.Underway) (hq : n.request = s.request)
      (hw : Waits s.request ⟨s, i⟩) (he : s.sent ++ effects ⟨s, i⟩ = n.sent) : Advances n
  | finishes (d : Word) (e : Bool) (he : s.sent ++ effects ⟨s, i⟩ = s.request.effects i.csr)
      (hr : Replies s.request ⟨s, i⟩ d e) :
    Advances { phase := .responding, request := s.request, data := d, error := e }

theorem Underway.not_bad (h : s.Underway) : ¬ s.request.Bad := by
  rw [← DebugRequest.route?_eq_none]
  rcases h.route with ⟨hr, -⟩ | ⟨hr, -⟩ <;> simp [hr]

theorem Underway.needsBus_iff (h : s.Underway) : s.request.NeedsBus ↔ s.phase ≠ .access := by
  rw [← DebugRequest.route?_eq_csrRequest]
  rcases h.route with ⟨hr, hp⟩ | ⟨hr, hp | hp⟩ <;> simp [hr, hp]

theorem Underway.advances_bus (h : s.Underway) (hp : s.phase ≠ .access) :
    s.Advances i (s.propose i) := by
  have hbus := h.needsBus_iff.2 hp
  have hroute := DebugRequest.route?_eq_csrRequest.2 hbus
  rcases h.route with ⟨-, ha⟩ | ⟨-, hp | hp⟩
  · exact absurd ha hp
  · have hsent : s.sent = [] := by simp [sent, hp]
    have hwaits : Waits s.request ⟨s, i⟩ := .asks hbus (by simp [output, hp])
    cases hi : i.csr.ready with
    | false =>
      have hn : s.propose i = s := by simp [propose, hp, hi]
      rw [hn]
      exact .waits h rfl hwaits (by simp [effects_of_csrRequest hp, hi])
    | true =>
      have hn : s.propose i = { s with phase := .csrResponse } := by simp [propose, hp, hi]
      rw [hn]
      exact .waits ⟨.inr ⟨hroute, .inr rfl⟩, h.data, h.error⟩ rfl hwaits
        (by rw [hsent, effects_of_csrRequest hp, hi]; rfl)
  · have hsent : s.sent = [.request (busRequest s.request)] := by simp [sent, hp]
    cases hi : i.csr.valid with
    | false =>
      have hn : s.propose i = s := by simp [propose, hp, hi]
      rw [hn]
      exact .waits h rfl (.expects hbus (by simp [output, hp]) hi)
        (by simp [effects_of_csrResponse hp, hi])
    | true =>
      have hn : s.propose i = ⟨.responding, s.request, i.csr.data, i.csr.exception⟩ := by
        simp [propose, hp, hi]
      rw [hn]
      refine .finishes _ _ ?_ ⟨?_, fun hw => (hbus.sampled hw i).symm, fun hr => ?_⟩
      · rw [hsent, effects_of_csrResponse hp, hi, hbus.effects]
        rfl
      · simp [hbus]
      · exact absurd hr hbus.region_ne

/-- An access that does not need the bus never fails. -/
theorem Underway.finishes_access (h : s.Underway) (hp : s.phase = .access) {d : Word}
    (hn : s.propose i = s.respond d) (he : effects ⟨s, i⟩ = s.request.effects i.csr)
    (hd : s.request.write = false → d = s.request.sampled i)
    (hx : s.request.region = .registers → (s.output i).readIndex = s.request.addr.setWidth 8) :
    s.Advances i (s.propose i) := by
  have hbus : ¬ s.request.NeedsBus := fun hb => h.needsBus_iff.1 hb hp
  rw [hn, respond, h.error]
  refine .finishes d false ?_ ⟨?_, hd, hx⟩
  · rw [sent, if_neg (by simp [hp]), he]
    rfl
  · simp [hbus]

theorem Underway.advances_registers (h : s.Underway) (hp : s.phase = .access)
    (hr : s.request.region = .registers) : s.Advances i (s.propose i) := by
  have haddr : s.request.addr.toNat < 64 := by
    have := h.not_bad
    unfold DebugRequest.Bad at this
    simp only [hr, true_and] at this
    omega
  have hindex : (s.output i).readIndex = s.request.addr.setWidth 8 := by
    rw [← DebugRequest.register_eq haddr]
    simp [output, hp, hr]
  have hpropose : s.propose i = s.access i := by rw [propose, hp]
  have heffects := effects_of_registers (i := i) hp hr
  cases hw : s.request.write with
  | false =>
    refine h.finishes_access hp (d := i.readData) ?_ ?_ (fun _ => ?_) fun _ => hindex
    · simp [hpropose, access, hr, hw]
    · simp [heffects, DebugRequest.effects, hr, hw]
    · simp [DebugRequest.sampled, hr]
  | true =>
    cases hi : i.writeReady with
    | false =>
      have hn : s.propose i = s := by simp [hpropose, access, hr, hw, hi]
      rw [hn]
      exact .waits h rfl (.write hr hw hi) (by simp [heffects, hi])
    | true =>
      refine h.finishes_access hp (d := s.data) ?_ ?_ (by simp [hw]) fun _ => hindex
      · simp [hpropose, access, hr, hw, hi]
      · simp [heffects, DebugRequest.effects, hr, hw, hi, haddr, DebugRequest.register_eq haddr]

theorem Underway.advances_control (h : s.Underway) (hp : s.phase = .access)
    (hr : s.request.region = .control) : s.Advances i (s.propose i) := by
  have hpropose : s.propose i = s.access i := by rw [propose, hp]
  have heffects := effects_of_control (i := i) hp hr
  have hbus : ¬ s.request.NeedsBus := fun hb => h.needsBus_iff.1 hb hp
  have hbad := h.not_bad
  by_cases ha : s.request.addr = nextPc
  · refine h.finishes_access hp (d := if s.request.write then s.data else i.npc) ?_ ?_ ?_ ?_
    · simp [hpropose, access, hr, ha]
    · have hne : nextPc ≠ runControl := by decide
      cases hw : s.request.write <;> simp [heffects, DebugRequest.effects, hr, ha, hw, hne]
    · intro hw
      simp [DebugRequest.sampled, hr, ha, hw]
    · simp [hr]
  · have hcontrol : s.request.addr = runControl := by
      by_contra hne
      exact hbad (.inr ⟨hr, hne, ha⟩)
    have hw : s.request.write = false := by
      rw [Bool.eq_false_iff]
      exact fun hw => hbus (.inr ⟨hr, hcontrol, hw⟩)
    refine h.finishes_access hp (d := .ofBool i.halted) ?_ ?_ (fun _ => ?_) ?_
    · simp [hpropose, access, hr, ha]
    · simp [heffects, DebugRequest.effects, hr, hw]
    · simp [DebugRequest.sampled, hr, ha]
    · simp [hr]

theorem Underway.advances (h : s.Underway) : s.Advances i (s.propose i) := by
  by_cases hp : s.phase = .access
  · cases hr : s.request.region with
    | csr => exact absurd hp (h.needsBus_iff.1 (.inl hr))
    | registers => exact h.advances_registers hp hr
    | control => exact h.advances_control hp hr
  · exact h.advances_bus hp

/-! ## A request from its acceptance on -/

/-- The cycles that carry out `q`, up to the one that settles its answer. A request with a bad
address is answered at once. -/
inductive Works (q : DebugRequest) : List (Moment DebugPort Input) → Word → Bool → Prop
  | refused (h : q.Bad) : Works q [] 0 true
  | finished (waiting : List (Moment DebugPort Input)) (u : Moment DebugPort Input) (d : Word)
      (e : Bool) (hb : ¬ q.Bad) (hw : ∀ v ∈ waiting, Quiet v ∧ Waits q v) (hu : Quiet u)
      (he : (waiting ++ [u]).flatMap effects = q.effects u.input.csr) (hr : Replies q u d e) :
    Works q (waiting ++ [u]) d e

/-- The port answers, and does nothing else. -/
def Shows (d : Word) (e : Bool) (u : Moment DebugPort Input) : Prop :=
  u.state.output u.input = { valid := true, data := d, error := e }

/-- What has become of `q` some cycles after it was taken, with the port in a state: it is carried
out, and only a part of its effects is there; or it is answered; or its answer has been taken, and
the port was ready again. -/
inductive Service (q : DebugRequest) : List (Moment DebugPort Input) → DebugPort → Prop
  | working (waiting : List (Moment DebugPort Input)) (s : DebugPort) (hs : s.Underway)
      (hq : s.request = q) (hw : ∀ v ∈ waiting, Quiet v ∧ Waits q v)
      (he : waiting.flatMap effects = s.sent) (hp : ∀ r, s.sent <+: q.effects r) :
    Service q waiting s
  | answering (work shown : List (Moment DebugPort Input)) (d : Word) (e : Bool)
      (hw : Works q work d e) (ha : ∀ v ∈ shown, Shows d e v ∧ v.input.ready = false) :
    Service q (work ++ shown) { phase := .responding, request := q, data := d, error := e }
  | answered (work shown rest : List (Moment DebugPort Input)) (u : Moment DebugPort Input)
      (d : Word) (e : Bool) (s : DebugPort) (hw : Works q work d e)
      (ha : ∀ v ∈ shown, Shows d e v ∧ v.input.ready = false) (hu : Shows d e u)
      (hr : u.input.ready = true) (hi : ((rest.head?.map (·.state)).getD s).isIdle = true) :
    Service q (work ++ shown ++ u :: rest) s

theorem Underway.sent_prefix (h : s.Underway) (r : CsrResponse) :
    s.sent <+: s.request.effects r := by
  unfold sent
  split
  next hp =>
    rw [(h.needsBus_iff.2 (by simp [hp])).effects]
    exact ⟨_, rfl⟩
  · exact List.nil_prefix

theorem underway_accept (h : ¬ q.Bad) : (accept q).Underway := by
  rw [← DebugRequest.route?_eq_none] at h
  rcases route?_cases q with hr | hr | ⟨hr, -⟩
  · exact absurd hr h
  · rw [accept, hr]
    exact ⟨.inr ⟨hr, .inl rfl⟩, rfl, rfl⟩
  · rw [accept, hr]
    exact ⟨.inl ⟨hr, rfl⟩, rfl, rfl⟩

theorem sent_accept (q : DebugRequest) : (accept q).sent = [] := by
  refine if_neg fun hp => ?_
  rcases route?_cases q with hr | hr | ⟨hr, -⟩ <;> simp [accept, hr] at hp

namespace Service

variable {later : List (Moment DebugPort Input)}

theorem accept (q : DebugRequest) : Service q [] (accept q) := by
  by_cases hb : q.Bad
  · have hn : DebugPort.accept q = ⟨.responding, q, 0, true⟩ := by
      rw [DebugPort.accept, DebugRequest.route?_eq_none.2 hb]
    rw [hn]
    exact .answering [] [] 0 true (.refused hb) (by simp)
  · have hu := underway_accept hb
    have hsent := sent_accept q
    have hp (r : CsrResponse) : (DebugPort.accept q).sent <+: q.effects r :=
      hsent ▸ List.nil_prefix
    exact .working [] _ hu (accept_request q) (by simp) hsent.symm hp

/-- A port that answers goes on or becomes ready. -/
theorem step_answering {work shown : List (Moment DebugPort Input)} {d : Word} {e : Bool}
    (hs : s = { phase := .responding, request := q, data := d, error := e })
    (hw : Works q work d e) (ha : ∀ v ∈ shown, Shows d e v ∧ v.input.ready = false) :
    Service q (work ++ shown ++ [⟨s, i⟩]) (s.propose i) := by
  have hshows : Shows d e ⟨s, i⟩ := by
    subst hs
    rfl
  cases hi : i.ready with
  | false =>
    have hn : s.propose i = s := by
      subst hs
      simp [propose, hi]
    rw [hn, List.append_assoc, hs]
    refine .answering work (shown ++ [_]) d e hw fun v hv => ?_
    rcases List.mem_append.1 hv with hv | hv
    · exact ha v hv
    · obtain rfl := List.mem_singleton.1 hv
      exact ⟨hs ▸ hshows, hi⟩
  | true =>
    have hn : (s.propose i).isIdle = true := by
      subst hs
      simp [propose, hi, isIdle]
    exact .answered work shown [] ⟨s, i⟩ d e _ hw ha hshows hi hn

theorem step (h : Service q later s) : Service q (later ++ [⟨s, i⟩]) (s.propose i) := by
  cases h with
  | working _ _ hs hq hw he hp =>
    have hadv := hs.advances (i := i)
    have hquiet := hs.quiet (i := i)
    generalize s.propose i = n at hadv
    subst hq
    cases hadv with
    | waits hn hq hwait he' =>
      refine .working _ n hn hq (fun v hv => ?_) ?_ ?_
      · rcases List.mem_append.1 hv with hv | hv
        · exact hw v hv
        · obtain rfl := List.mem_singleton.1 hv
          exact ⟨hquiet, hwait⟩
      · rw [List.flatMap_append, he, List.flatMap_singleton, he']
      · exact fun r => hq ▸ hn.sent_prefix r
    | finishes d e he' hr =>
      have hwork : Works s.request (later ++ [⟨s, i⟩]) d e := by
        refine .finished later ⟨s, i⟩ d e hs.not_bad hw hquiet ?_ hr
        rw [List.flatMap_append, he, List.flatMap_singleton, he']
      simpa using Service.answering _ [] d e hwork (by simp)
  | answering work shown d e hw ha => exact step_answering rfl hw ha
  | answered work shown rest u d e _ hw ha hu hr hi =>
    rw [List.append_assoc, List.cons_append]
    refine .answered work shown (rest ++ [⟨s, i⟩]) u d e _ hw ha hu hr ?_
    cases rest with
    | nil => exact hi
    | cons v rest => exact hi

end Service

/-- From the cycle on in which a request is taken the port does what the request asks for, once,
and answers it, once, before it takes another one. -/
theorem performs_once {is : List Input} {before later : List (Moment DebugPort Input)}
    {t : Moment DebugPort Input} (h : clocked.moments {} is = before ++ t :: later)
    (hi : (t.state.output t.input).ready = true) {q : DebugRequest}
    (hq : t.input.request = some q) :
    effects t = [] ∧ Service q later (clocked.after {} is) := by
  have hidle {u : Moment DebugPort Input} (hu : (u.state.output u.input).ready = true) :
      u.state.phase = .idle := by
    rw [output_ready, isIdle, beq_iff_eq] at hu
    exact hu
  refine ⟨effects_of_idle (hidle hi), ?_⟩
  refine Clocked.since_induction (I := fun _ => True)
    (S := fun u => (u.state.output u.input).ready = true ∧ u.input.request = some q)
    (Q := fun _ => True) (P := fun _ => Service q) (fun _ _ _ => trivial) ?_ ?_ trivial h ⟨hi, hq⟩
    (fun _ _ => trivial)
  · rintro x i - ⟨hx, hr⟩
    have hn : clocked.next false x i = DebugPort.accept q := by
      show x.propose i = _
      have hr : i.request = some q := hr
      simp only [propose, show x.phase = .idle from hidle hx, hr]
    rw [hn]
    exact .accept q
  · intro _ us x i _ _ hs
    exact hs.step

/-- A write that the register file of the bus rejects, with a cycle of waiting at each step. -/
theorem performs_once_rejected :
    let q : DebugRequest := { addr := 0x340, write := true, wdata := 9 }
    let r : CsrResponse := { valid := true, exception := true }
    let is : List Input :=
      [{}, { request := some q }, {}, { csr := { ready := true } }, {}, { csr := r }, {},
        { ready := true }]
    let later := (clocked.moments {} is).drop 2
    later.flatMap effects =
        [.request { valid := true, command := .write, addr := 0x340, data := 9 }, .response r] ∧
      (∀ u ∈ later.drop 4, Shows 0 true u) ∧ Service q later (clocked.after {} is) := by
  intro q r is later
  have h : clocked.moments {} is = [⟨{}, {}⟩] ++ ⟨{}, { request := some q }⟩ :: later := rfl
  have heffects : later.flatMap effects =
      [.request { valid := true, command := .write, addr := 0x340, data := 9 }, .response r] := by
    decide
  have hshows : ∀ u ∈ later.drop 4, u.state.output u.input = { valid := true, error := true } := by
    decide
  exact ⟨heffects, hshows, (performs_once h rfl rfl).2⟩

end DebugPort

end RiscvPipeline
