import RiscvPipeline.Proofs.Csr.Bank
import RiscvPipeline.Proofs.Runs

/-!
# The file of control and status registers on its own

Whatever happens to the file, its bank is legal and its views agree with what is stored
(`CsrFile.Coherent`). A command that is accepted takes effect at the clock edge of that cycle, or is
rejected and changes nothing (`CsrFile.Carried`); its answer comes a latency later and stays until
it is taken (`CsrFile.Answers`).
-/

namespace RiscvPipeline

open CsrRegister

/-! ## The registers behind an address -/

namespace CsrAddress

/-- What there is at an address: a view of stored registers, one of them, or nothing. -/
inductive View : CsrAddress → Prop
  | fcsr : View fcsr
  | cycle : View cycle
  | instret : View instret
  | stored (r : CsrRegister) : View r.addr
  | absent (a : CsrAddress) (h1 : a ≠ CsrAddress.fcsr) (h2 : a ≠ CsrAddress.cycle)
      (h3 : a ≠ CsrAddress.instret) (h : ofAddr? a = none) : View a

theorem view (a : CsrAddress) : View a := by
  by_cases h1 : a = fcsr
  · exact h1 ▸ .fcsr
  by_cases h2 : a = cycle
  · exact h2 ▸ .cycle
  by_cases h3 : a = instret
  · exact h3 ▸ .instret
  cases h : ofAddr? a with
  | none => exact .absent a h1 h2 h3 h
  | some r => exact addr_of_ofAddr? h ▸ .stored r

/-- The registers that are seen at an address. -/
def registers (a : CsrAddress) : List CsrRegister :=
  if a = fcsr then [frm, fflags]
  else if a = cycle then [mcycle]
  else if a = instret then [minstret]
  else (ofAddr? a).toList

/-- Some register is seen at both addresses. -/
def Aliases (a b : CsrAddress) : Prop := ∃ r ∈ a.registers, r ∈ b.registers

/-- The part of a value that can be read where it was written. -/
def legal (a : CsrAddress) (v : Word) : Word :=
  if a = fcsr then v &&& 0xff else (ofAddr? a).elim v (·.legal v)

/-- By how much a clock edge raises what is read at an address. -/
def ticks (a : CsrAddress) : Word := if a = mcycle.addr ∨ a = cycle then 1 else 0

theorem registers_addr (r : CsrRegister) : registers r.addr = [r] := by
  obtain ⟨h1, h2, h3⟩ := r.addr_ne
  simp [registers, h1, h2, h3, ofAddr?_addr]

theorem legal_addr (r : CsrRegister) (v : Word) : legal r.addr v = r.legal v := by
  simp [legal, r.addr_ne.1, ofAddr?_addr]

theorem ticks_addr (r : CsrRegister) : ticks r.addr = if r = mcycle then 1 else 0 := by
  cases r <;> rfl

theorem mem_readable (r : CsrRegister) : r.addr ∈ readable :=
  List.mem_append_left _ (List.mem_map_of_mem r.mem_all)

end CsrAddress

theorem CsrRegister.legal_fflags (v : Word) : (fflags.legal v).toNat = v.toNat % 32 :=
  (BitVec.toNat_and ..).trans (Nat.and_two_pow_sub_one_eq_mod _ 5)

theorem CsrRegister.legal_frm (v : Word) : (frm.legal v).toNat = v.toNat % 8 :=
  (BitVec.toNat_and ..).trans (Nat.and_two_pow_sub_one_eq_mod _ 3)

namespace CsrBank

variable {b b' : CsrBank} {a a' : CsrAddress}

theorem read?_fcsr : b.read? CsrAddress.fcsr = some ((b.get frm <<< 5) ||| b.get fflags) := rfl

theorem read?_cycle : b.read? CsrAddress.cycle = some (b.get mcycle) := rfl

theorem read?_instret : b.read? CsrAddress.instret = some (b.get minstret) := rfl

theorem read?_absent (h1 : a ≠ CsrAddress.fcsr) (h2 : a ≠ CsrAddress.cycle)
    (h3 : a ≠ CsrAddress.instret) (h : ofAddr? a = none) : b.read? a = none := by
  simp [read?, h1, h2, h3, h]

theorem isSome_read? : (b.read? a).isSome = true ↔ a ∈ CsrAddress.readable := by
  cases a.view with
  | fcsr | cycle | instret => exact iff_of_true rfl (by decide)
  | stored r => exact iff_of_true (by rw [read?_addr]; rfl) (CsrAddress.mem_readable r)
  | absent _ h1 h2 h3 h =>
    rw [read?_absent h1 h2 h3 h]
    refine iff_of_false Bool.false_ne_true fun hm => ?_
    rcases List.mem_append.1 hm with hm | hm
    · obtain ⟨r, -, rfl⟩ := List.mem_map.1 hm
      rw [ofAddr?_addr] at h
      cases h
    · simp [h1, h2, h3] at hm

/-- What is read depends on the registers that are seen. -/
theorem read?_congr (h : ∀ r ∈ a.registers, b.get r = b'.get r) : b.read? a = b'.read? a := by
  cases a.view with
  | fcsr => rw [read?_fcsr, read?_fcsr, h frm (by decide), h fflags (by decide)]
  | cycle => rw [read?_cycle, read?_cycle, h mcycle (by decide)]
  | instret => rw [read?_instret, read?_instret, h minstret (by decide)]
  | stored r => rw [read?_addr, read?_addr, h r (by simp [CsrAddress.registers_addr])]
  | absent _ h1 h2 h3 h => rw [read?_absent h1 h2 h3 h, read?_absent h1 h2 h3 h]

/-- A write reaches the registers that are seen at its address. -/
theorem get_write_of_not_mem {r : CsrRegister} (h : r ∉ a.registers) (v : Word) :
    (b.write a v).get r = b.get r := by
  refine b.get_write_other ?_ ?_ v
  · rintro rfl
    simp [CsrAddress.registers_addr] at h
  · rintro rfl
    simpa [CsrAddress.registers] using h

theorem read?_write_other (h : ¬ a.Aliases a') (v : Word) :
    (b.write a v).read? a' = b.read? a' :=
  read?_congr fun r hr => get_write_of_not_mem (fun hm => h ⟨r, hm, hr⟩) v

/-- The mode stands above the flags. -/
theorem toNat_mode_flags {m f : Word} (hm : m.toNat < 8) (hf : f.toNat < 32) :
    ((m <<< 5) ||| f).toNat = m.toNat * 32 + f.toNat := by
  have hshift : (m <<< 5).toNat = m.toNat <<< 5 := by
    rw [BitVec.toNat_shiftLeft, Nat.mod_eq_of_lt (by rw [Nat.shiftLeft_eq]; omega)]
  rw [BitVec.toNat_or, hshift, ← Nat.shiftLeft_add_eq_or_of_lt hf, Nat.shiftLeft_eq]

theorem mode_flags (v : Word) :
    (frm.legal (v >>> 5) <<< 5) ||| fflags.legal v = v &&& 0xff := by
  have hm := legal_frm (v >>> 5)
  have hf := legal_fflags v
  have hv : (v >>> 5).toNat = v.toNat / 32 := by
    rw [BitVec.toNat_ushiftRight, Nat.shiftRight_eq_div_pow]
  have hand : (v &&& 0xff).toNat = v.toNat % 256 :=
    (BitVec.toNat_and ..).trans (Nat.and_two_pow_sub_one_eq_mod _ 8)
  apply BitVec.eq_of_toNat_eq
  rw [toNat_mode_flags (by omega) (by omega), hm, hf, hv, hand]
  omega

/-- What is legal of a value can be read where it was written. -/
theorem read?_write (hr : (b.read? a).isSome = true) (ha : a.isReadOnly = false) (v : Word) :
    (b.write a v).read? a = some (a.legal v) := by
  cases a.view with
  | fcsr =>
    have hne : fflags ≠ frm := by simp
    rw [read?_fcsr, write, if_pos rfl, get_set_same, get_set_other _ hne, get_set_same, mode_flags]
    rfl
  | cycle | instret => cases ha
  | stored r => rw [read?_addr, write_addr, get_set_same, CsrAddress.legal_addr]
  | absent _ h1 h2 h3 h =>
    rw [read?_absent h1 h2 h3 h] at hr
    cases hr

theorem read?_count_eq : b.count.read? a = (b.read? a).map (· + a.ticks) := by
  have hne (r : CsrRegister) (h : r ≠ mcycle) : b.count.get r = b.get r := b.get_count h
  have hcycle : b.count.get mcycle = b.get mcycle + 1 := by rw [count_eq, get_set_same]
  cases a.view with
  | fcsr => simp [read?_fcsr, hne, show CsrAddress.ticks CsrAddress.fcsr = 0 from rfl]
  | cycle => rw [read?_cycle, read?_cycle, hcycle]; rfl
  | instret => simp [read?_instret, hne, show CsrAddress.ticks CsrAddress.instret = 0 from rfl]
  | stored r =>
    rw [read?_addr, read?_addr, CsrAddress.ticks_addr]
    by_cases h : r = mcycle
    · simp [h, hcycle]
    · simp [h, hne]
  | absent _ h1 h2 h3 h => rw [read?_absent h1 h2 h3 h, read?_absent h1 h2 h3 h]; rfl

/-! ## Legal banks -/

/-- Flags and mode fit into their fields. -/
structure Legal (b : CsrBank) : Prop where
  fflags : (b.get fflags).toNat < 32
  frm : (b.get frm).toNat < 8

namespace Legal

theorem set (h : b.Legal) (r : CsrRegister) (v : Word) : (b.set r (r.legal v)).Legal where
  fflags := by
    by_cases hr : r = CsrRegister.fflags
    · subst hr
      rw [get_set_same, legal_fflags]
      omega
    · rw [get_set_other _ hr]
      exact h.fflags
  frm := by
    by_cases hr : r = CsrRegister.frm
    · subst hr
      rw [get_set_same, legal_frm]
      omega
    · rw [get_set_other _ hr]
      exact h.frm

theorem write (h : b.Legal) (a : CsrAddress) (v : Word) : (b.write a v).Legal := by
  unfold CsrBank.write
  split
  · exact (h.set _ _).set _ _
  · split
    · exact h.set _ _
    · exact h

theorem written (h : b.Legal) (l : List CsrFile.Write) : (CsrFile.written b l).Legal := by
  induction l generalizing b with
  | nil => exact h
  | cons x l ih => exact ih (h.write _ _)

theorem initial (trapVector hartId : Word) : (CsrBank.initial trapVector hartId).Legal := by
  constructor <;> simp [CsrBank.initial, get_set_other] <;> decide

end Legal

end CsrBank

namespace CsrFile

/-! ## What may happen to the file -/

/-- What does not come over the bus. -/
inductive Update
  | poke (a : CsrAddress) (v : Word)
  | trap (cause epc tval : Word)
  | flags (x : FpFlags)
  | retire

def update (f : CsrFile) : Update → CsrFile
  | .poke a v => f.poke a v
  | .trap cause epc tval => f.recordTrap cause epc tval
  | .flags x => f.accrue x
  | .retire => f.retire

inductive Event
  | bus (e : Clocked.Event CsrRequest)
  | update (u : Update)

/-- The file on a bench after an event. -/
def applyEvent (b : Clocked.Bench CsrFile Proposal) : Event → Clocked.Bench CsrFile Proposal
  | .bus e => clocked.apply b e
  | .update u => { b with state := b.state.update u }

/-- A new file on a bench, after some events. -/
def bench (latency : Nat) (trapVector hartId : Word) (es : List Event) :
    Clocked.Bench CsrFile Proposal :=
  es.foldl applyEvent (clocked.start (.new latency trapVector hartId))

/-- A cycle with reset low: what comes in before the command is looked at, the command, and what
comes in before the clock edge. -/
structure Cycle where
  before : List Update := []
  request : CsrRequest := {}
  after : List Update := []

def Cycle.events (c : Cycle) : List Event :=
  c.before.map .update ++ .bus (.evaluate c.request) :: c.after.map .update ++ [.bus (.clock false)]

/-- The file after a cycle. -/
def cycle (f : CsrFile) (c : Cycle) : CsrFile :=
  let g := c.before.foldl update f
  (c.after.foldl update g).edge (g.propose c.request)

def run (f : CsrFile) (cs : List Cycle) : CsrFile := cs.foldl cycle f

variable {f g : CsrFile} {q : CsrRequest} {latency : Nat} {trapVector hartId : Word}

theorem foldl_update (us : List Update) (b : Clocked.Bench CsrFile Proposal) :
    (us.map .update).foldl applyEvent b = { b with state := us.foldl update b.state } := by
  induction us generalizing b with
  | nil => rfl
  | cons u us ih => exact ih _

theorem bench_cycle (es : List Event) (c : Cycle) :
    bench latency trapVector hartId (es ++ c.events) =
      clocked.start ((bench latency trapVector hartId es).state.cycle c) := by
  simp only [bench, Cycle.events, List.foldl_append, List.foldl_cons, List.foldl_nil, foldl_update]
  rfl

/-- The events of cycles take a file on a bench through these cycles. -/
theorem bench_run (es : List Event) (cs : List Cycle) :
    (bench latency trapVector hartId (es ++ cs.flatMap Cycle.events)).state =
      (bench latency trapVector hartId es).state.run cs := by
  induction cs generalizing es with
  | nil => rw [List.flatMap_nil, List.append_nil, run, List.foldl_nil]
  | cons c cs ih =>
    rw [List.flatMap_cons, ← List.append_assoc, ih, bench_cycle]
    rfl

/-! ## What every file keeps -/

theorem update_eq (u : Update) : f.update u = { f with bank := (f.update u).bank } := by
  cases u <;> rfl

/-- A file of a latency, with legal contents. -/
structure Sound (latency : Nat) (f : CsrFile) : Prop where
  bank : f.bank.Legal
  initial : f.initial.Legal
  latency : f.latency = latency

namespace Sound

theorem new (latency : Nat) (trapVector hartId : Word) :
    (CsrFile.new latency trapVector hartId).Sound (max latency 1) :=
  ⟨.initial _ _, .initial _ _, rfl⟩

theorem update (h : f.Sound latency) (u : Update) : (f.update u).Sound latency := by
  have hbank : (f.update u).bank.Legal := by
    cases u with
    | poke a v => exact h.bank.write a v
    | flags x => exact h.bank.write fflags.addr _
    | retire => exact h.bank.write minstret.addr _
    | trap cause epc tval =>
      exact ((h.bank.write mepc.addr epc).write mcause.addr cause).write mtval.addr tval
  rw [update_eq] at hbank ⊢
  exact ⟨hbank, h.initial, h.latency⟩

theorem edge (h : f.Sound latency) (p : Proposal) : (f.edge p).Sound latency := by
  rw [edge_eq]
  exact ⟨(h.bank.written p.writes).write mcycle.addr _, h.initial, h.latency⟩

theorem applyEvent {b : Clocked.Bench CsrFile Proposal} (h : b.state.Sound latency) (e : Event) :
    (applyEvent b e).state.Sound latency := by
  cases e with
  | update u => exact h.update u
  | bus e =>
    cases e with
    | evaluate => exact h
    | reset => exact ⟨h.initial, h.initial, h.latency⟩
    | clock reset =>
      cases reset with
      | false => exact h.edge _
      | true => exact ⟨h.initial, h.initial, h.latency⟩

theorem bench (es : List Event) :
    (bench latency trapVector hartId es).state.Sound (max latency 1) := by
  unfold CsrFile.bench
  generalize hb : clocked.start (CsrFile.new latency trapVector hartId) = b
  have h : b.state.Sound (max latency 1) := hb ▸ .new latency trapVector hartId
  clear hb
  induction es generalizing b with
  | nil => exact h
  | cons e es ih => exact ih _ (h.applyEvent e)

end Sound

/-- What is read at the addresses of a file fits together. -/
structure Coherent (f : CsrFile) : Prop where
  readable : ∀ a, (f.read? a).isSome = true ↔ a ∈ CsrAddress.readable
  floating : ∃ flags mode : Word, flags.toNat < 32 ∧ mode.toNat < 8 ∧
    f.read? fflags.addr = some flags ∧ f.read? frm.addr = some mode ∧
      ∃ both, f.read? CsrAddress.fcsr = some both ∧ both.toNat = mode.toNat * 32 + flags.toNat
  cycle : f.read? CsrAddress.cycle = f.read? mcycle.addr
  instret : f.read? CsrAddress.instret = f.read? minstret.addr

theorem Sound.coherent (h : f.Sound latency) : f.Coherent where
  readable _ := CsrBank.isSome_read?
  floating := ⟨f.bank.get fflags, f.bank.get frm, h.bank.fflags, h.bank.frm, f.bank.read?_addr _,
    f.bank.read?_addr _, _, CsrBank.read?_fcsr, CsrBank.toNat_mode_flags h.bank.frm h.bank.fflags⟩
  cycle := CsrBank.read?_cycle.trans (f.bank.read?_addr mcycle).symm
  instret := CsrBank.read?_instret.trans (f.bank.read?_addr minstret).symm

/-! ## The effect of a command -/

theorem execute_rejected (h : (f.execute q).exception = true) :
    (f.execute q).writes = [] ∧ (f.execute q).halted = f.halted := by
  generalize he : f.execute q = e at h ⊢
  unfold execute at he
  dsimp only at he
  repeat' split at he
  all_goals
    subst he
    first | exact ⟨rfl, rfl⟩ | cases h

/-- The answer to a command. -/
def answer (f : CsrFile) (q : CsrRequest) : CsrResponse :=
  { valid := true, data := (f.execute q).data, exception := (f.execute q).exception }

theorem ready_iff : (f.output q).ready = true ↔ f.control.phase = .idle := by
  unfold output
  cases f.control.phase <;> simp

section

variable (hf : f.control.phase = .idle) (hv : q.valid = true)
include hf hv

theorem accept_control : (f.cycle { request := q }).control =
    { phase := if f.latency ≤ 1 then .responding else .busy (f.latency - 1)
      data := (f.execute q).data
      exception := (f.execute q).exception
      halted := (f.execute q).halted } := by
  show (f.propose q).control = _
  simp only [propose, hf, hv, if_true]

theorem read?_accept (a : CsrAddress) : (f.cycle { request := q }).read? a =
    ((written f.bank (f.execute q).writes).read? a).map (· + a.ticks) := by
  have hw : (f.propose q).writes = (f.execute q).writes := by
    simp only [propose, hf, hv, if_true]
  show (f.edge (f.propose q)).bank.read? a = _
  rw [edge_bank, hw, CsrBank.read?_count_eq]

end

/-- What a command does to the file that accepts it: a command that is rejected does nothing, and a
write that is not returns the old value and leaves the new one. The cycle counter advances in any
case. -/
structure Carried (f : CsrFile) (q : CsrRequest) (r : CsrResponse) (g : CsrFile) : Prop where
  rejected : r.exception = true →
    g.halted = f.halted ∧ ∀ a, g.read? a = (f.read? a).map (· + a.ticks)
  written : q.command.contains .write = true → r.exception = false →
    f.read? q.addr = some r.data ∧
    g.read? q.addr = some (q.addr.legal q.data + q.addr.ticks) ∧
    ∀ a, ¬ q.addr.Aliases a → g.read? a = (f.read? a).map (· + a.ticks)
  readOnly : q.command.contains .write = true → q.addr.isReadOnly = true → r.exception = true

theorem carried (hf : f.control.phase = .idle) (hv : q.valid = true) :
    f.Carried q (f.answer q) (f.cycle { request := q }) where
  rejected he := by
    obtain ⟨hw, hh⟩ := execute_rejected he
    refine ⟨?_, fun a => ?_⟩
    · rw [halted, accept_control hf hv]
      exact hh
    · rw [read?_accept hf hv, hw]
      rfl
  written hc he := by
    have hx := f.execute_writing hc
    have he : (f.execute q).exception = false := he
    cases hr : f.read? q.addr with
    | none => simp [hx, hr] at he
    | some old =>
      cases ho : q.addr.isReadOnly with
      | true => simp [hx, hr, ho] at he
      | false =>
        simp only [hr, ho, Bool.false_eq_true, if_false] at hx
        refine ⟨by rw [answer, hx], ?_, fun a ha => ?_⟩
        · rw [read?_accept hf hv, hx]
          show ((f.bank.write q.addr q.data).read? q.addr).map _ = _
          rw [CsrBank.read?_write (Option.isSome_iff_exists.2 ⟨old, hr⟩) ho]
          rfl
        · rw [read?_accept hf hv, hx]
          show ((f.bank.write q.addr q.data).read? a).map _ = _
          rw [CsrBank.read?_write_other ha]
          rfl
  readOnly hc ho := by
    show (f.execute q).exception = true
    rw [f.execute_writing hc, ho]
    cases f.read? q.addr <;> rfl

/-! ## The answer -/

theorem foldl_update_eq (us : List Update) (f : CsrFile) :
    us.foldl update f = { f with bank := (us.foldl update f).bank } := by
  induction us generalizing f with
  | nil => rfl
  | cons u us ih =>
    rw [List.foldl_cons, ih, update_eq]

variable {c : Cycle} {cs : List Cycle}

/-- What does not come over the bus leaves a command alone that is under way. -/
theorem cycle_control (h : f.control.phase ≠ .idle) :
    (f.cycle c).control = (f.propose c.request).control := by
  show ((c.before.foldl update f).propose c.request).control = _
  rw [foldl_update_eq]
  unfold propose
  cases hp : f.control.phase with
  | idle => exact absurd hp h
  | busy | responding => rfl

theorem cycle_busy (h : 2 ≤ f.due) :
    (f.cycle c).due + 1 = f.due ∧ (f.cycle c).prepared = f.prepared := by
  have hc := cycle_control (f := f) (c := c)
  cases hp : f.control.phase with
  | idle | responding => simp [due, hp] at h
  | busy n =>
    have hc := hc (by simp [hp])
    simp only [propose, hp] at hc
    have hdue : f.due = max n 1 + 1 := by rw [due, hp]
    refine ⟨?_, by rw [prepared, hc]; rfl⟩
    rw [due, hc, hdue]
    by_cases hn : n ≤ 1
    · simp only [hn, if_true]
      omega
    · simp only [hn, if_false]
      omega

theorem responding_of_due (h : f.due = 1) : f.control.phase = .responding := by
  unfold due at h
  split at h <;> first | assumption | omega

theorem cycle_responding (h : f.due = 1) (hq : c.request.ready = false) :
    (f.cycle c).due = 1 ∧ (f.cycle c).prepared = f.prepared := by
  have hp := responding_of_due h
  have hc : (f.cycle c).control = f.control := by
    rw [cycle_control (by simp [hp])]
    simp only [propose, hp, hq]
    rfl
  unfold due prepared at *
  rw [hc]
  exact ⟨h, rfl⟩

theorem cycle_taken (h : f.due = 1) (hq : c.request.ready = true) : (f.cycle c).due = 0 := by
  have hp := responding_of_due h
  rw [due_eq_zero, cycle_control (by simp [hp])]
  simp only [propose, hp, hq, if_true]

/-- Until the answer is taken the file counts down to it and keeps it. -/
theorem run_due (hf : 1 ≤ f.due) (hq : ∀ c ∈ cs.drop (f.due - 1), c.request.ready = false) :
    (f.run cs).due = max 1 (f.due - cs.length) ∧ (f.run cs).prepared = f.prepared := by
  induction cs generalizing f with
  | nil => exact ⟨(Nat.max_eq_right hf).symm, rfl⟩
  | cons c cs ih =>
    rcases Nat.eq_or_lt_of_le hf with h1 | h2
    · -- The answer is there.
      rw [← h1] at hq
      obtain ⟨hdue, hprep⟩ := cycle_responding h1.symm (hq c (by simp))
      have hlater := ih (f := f.cycle c) (Nat.le_of_eq hdue.symm) fun x hx =>
        hq x (by simpa [hdue] using Or.inr hx)
      rw [hdue, hprep] at hlater
      rw [← h1]
      refine ⟨hlater.1.trans ?_, hlater.2⟩
      rw [Nat.max_eq_left (by omega), Nat.max_eq_left (by omega)]
    · obtain ⟨hdue, hprep⟩ := cycle_busy (c := c) h2
      obtain ⟨k, hk⟩ : ∃ k, f.due = k + 2 := ⟨f.due - 2, by omega⟩
      have hdue : (f.cycle c).due = k + 1 := by omega
      rw [hk] at hq
      have hlater := ih (f := f.cycle c) (by omega) (by simpa [hdue] using hq)
      rw [hdue, hprep] at hlater
      refine ⟨hlater.1.trans ?_, hlater.2⟩
      rw [hk, List.length_cons]
      omega

theorem output_of_due (h : f.due = 1) : f.output q = f.prepared := by
  rw [output, responding_of_due h]
  rfl

theorem output_of_busy (h : 2 ≤ f.due) : f.output q = {} := by
  cases hp : f.control.phase with
  | idle | responding => simp [due, hp] at h
  | busy n => rw [output, hp]

theorem due_accept (hf : f.control.phase = .idle) (hv : q.valid = true) (hl : 1 ≤ f.latency) :
    (f.cycle { request := q }).due = f.latency := by
  rw [due, accept_control hf hv]
  by_cases h : f.latency ≤ 1
  · simp only [h, if_true]
    omega
  · simp only [h, if_false]
    omega

/-- The answer comes a latency after the cycle that leads to `g`, stays until it is taken, and then
the file is ready again. -/
structure Answers (latency : Nat) (g : CsrFile) (r : CsrResponse) : Prop where
  pending : ∀ cs : List Cycle, cs.length + 1 < latency → ∀ q, (g.run cs).output q = {}
  shown : ∀ cs : List Cycle, latency ≤ cs.length + 1 →
    (∀ c ∈ cs.drop (latency - 1), c.request.ready = false) → ∀ q, (g.run cs).output q = r
  taken : ∀ (cs : List Cycle) (c : Cycle), latency ≤ cs.length + 1 →
    (∀ c ∈ cs.drop (latency - 1), c.request.ready = false) → c.request.ready = true →
    ∀ q, (g.run (cs ++ [c])).output q = { ready := true }

theorem answers (hd : 1 ≤ g.due) : g.Answers g.due g.prepared where
  pending cs hcs q := by
    have hnone : cs.drop (g.due - 1) = [] := List.drop_of_length_le (by omega)
    have hdue : (g.run cs).due = max 1 (g.due - cs.length) := (run_due hd (by simp [hnone])).1
    exact output_of_busy (by omega)
  shown cs hcs hq q := by
    obtain ⟨hdue, hprep⟩ := run_due hd hq
    rw [output_of_due (by omega), hprep]
  taken cs c hcs hq hc q := by
    obtain ⟨hdue, -⟩ := run_due hd hq
    have hidle : (g.run (cs ++ [c])).due = 0 := by
      rw [run, List.foldl_append]
      exact cycle_taken (f := g.run cs) (by omega) hc
    rw [output, due_eq_zero.1 hidle]

/-- After whatever may happen to a file, what is read there fits together, and a command that is
accepted in a cycle without updates is carried out as a whole or not at all and answered a latency
later. The cycles that follow are events like those before. -/
theorem commands_atomic (latency : Nat) (trapVector hartId : Word) (es : List Event) :
    let f := (bench latency trapVector hartId es).state
    (∀ cs : List Cycle,
      (bench latency trapVector hartId (es ++ cs.flatMap Cycle.events)).state = f.run cs) ∧
    f.Coherent ∧ ∀ q : CsrRequest, q.valid = true → (f.output q).ready = true →
      let g := f.cycle { request := q }
      ∃ r : CsrResponse, f.Carried q r g ∧ g.Answers (max latency 1) r ∧ r.valid = true := by
  intro f
  have hs : f.Sound (max latency 1) := .bench es
  refine ⟨bench_run es, hs.coherent, fun q hv hr => ?_⟩
  have hf := ready_iff.1 hr
  have hprep : (f.cycle { request := q }).prepared = f.answer q := by
    rw [prepared, accept_control hf hv]
    rfl
  have hl : f.latency = max latency 1 := hs.latency
  have hdue : (f.cycle { request := q }).due = max latency 1 :=
    (due_accept hf hv (by omega)).trans hl
  have ha := answers (g := f.cycle { request := q }) (by omega)
  rw [hprep, hdue] at ha
  exact ⟨f.answer q, carried hf hv, ha, rfl⟩

/-- A write to the rounding mode and the flags together, after a flag has been raised. Of the value
nine bits are set and eight are kept. -/
theorem commands_atomic_fcsr :
    let f := (bench 3 0x100 0 [.update (.flags .dz), .bus (.evaluate {}), .bus (.clock false)]).state
    let q : CsrRequest :=
      { valid := true, command := .write, addr := CsrAddress.fcsr, data := 0x1ff }
    let g := f.cycle { request := q }
    let answer : CsrResponse := { valid := true, data := 8 }
    (f.output q).ready = true ∧ g.read? CsrAddress.fcsr = some 0xff ∧
      g.read? CsrAddress.cycle = some 2 ∧ g.read? mscratch.addr = some 0 ∧
      (∀ q, (g.run [{}]).output q = {}) ∧ (∀ q, (g.run [{}, {}, {}]).output q = answer) ∧
      ∀ q, (g.run [{}, {}, { request := { ready := true } }]).output q = { ready := true } := by
  intro f q g answer
  have hr : (f.output q).ready = true := rfl
  obtain ⟨-, -, h⟩ := commands_atomic 3 0x100 0
    [.update (.flags .dz), .bus (.evaluate {}), .bus (.clock false)]
  obtain ⟨r, hc, ha, -⟩ := h q rfl hr
  obtain rfl : r = answer := (ha.shown [{}, {}] (by decide) nofun {}).symm.trans (by decide +kernel)
  obtain ⟨-, hread, hother⟩ := hc.written (by decide) rfl
  have hcycle := hother CsrAddress.cycle (by rintro ⟨r, hr, hr'⟩; revert r; decide)
  have hscratch := hother mscratch.addr (by rintro ⟨r, hr, hr'⟩; revert r; decide)
  refine ⟨hr, hread.trans (by decide), hcycle.trans (by decide +kernel),
    hscratch.trans (by decide +kernel), ha.pending [{}] (by decide), ?_, ?_⟩
  · exact ha.shown [{}, {}, {}] (by decide) (by simp)
  · exact ha.taken [{}, {}] { request := { ready := true } } (by decide) nofun rfl

end CsrFile

end RiscvPipeline
