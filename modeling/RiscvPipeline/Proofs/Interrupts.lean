import Mathlib.Data.List.Perm.Basic
import RiscvPipeline.Proofs.Exceptions

/-!
# Interrupts from request to trap

A requested interrupt waits in a latch until no other trap is in the way, becomes pending, and is
taken. On this way nothing is lost and nothing is taken twice: what a cycle takes is what is
outstanding before it and no longer after it (`TrapController.outstanding_edge`). But the latch
holds one request, and another one that comes before the latch is empty takes its place. So the
requests of a history are those that have been taken, those outstanding and those replaced
(`Machine.interrupts_accounted`).
-/

namespace RiscvPipeline

namespace Trap

/-- The cause of an interrupt. -/
def interruptCause? (t : Trap) : Option Word := if t.isInterrupt then some t.cause else none

theorem interruptCause?_interrupt (code : Word) :
    (interrupt code).interruptCause? = some (interruptBit ||| code) := by
  have hbit : (interruptBit ||| code) &&& interruptBit = interruptBit := by
    ext i
    simp only [BitVec.getElem_and, BitVec.getElem_or]
    cases interruptBit[i] <;> simp
  have hi : (interrupt code).isInterrupt = true := by
    show ((interruptBit ||| code) &&& interruptBit != 0) = true
    rw [hbit]
    decide
  rw [interruptCause?, if_pos hi]
  rfl

/-- The latch only keeps what the bit of interrupts leaves of a code. -/
theorem interruptBit_or_masked (code : Word) :
    interruptBit ||| (code &&& ~~~ interruptBit) = interruptBit ||| code := by
  ext i
  simp only [BitVec.getElem_or, BitVec.getElem_and, BitVec.getElem_not]
  cases interruptBit[i] <;> simp

end Trap

namespace TrapController

variable {s : TrapController} {i : Input}

/-- The cause that a latched interrupt is taken with. -/
def latchedCause? (s : TrapController) : Option Word := s.latched.map (Trap.interruptBit ||| ·)

def pendingCause? (s : TrapController) : Option Word := s.pending.bind Trap.interruptCause?

/-- The interrupts that have been requested but not taken, the older one first. -/
def outstanding (s : TrapController) : List Word :=
  s.pendingCause?.toList ++ s.latchedCause?.toList

/-- A request goes into the latch, whatever is there. -/
theorem outstanding_raiseInterrupt (code : Word) : (s.raiseInterrupt code).outstanding =
    s.pendingCause?.toList ++ [Trap.interruptBit ||| code] :=
  congrArg (fun c => s.pendingCause?.toList ++ [c]) (Trap.interruptBit_or_masked code)

/-- An exception is no interrupt. -/
theorem interruptCause?_of_prioritize {t : Trap} (h : prioritize i = some t) :
    t.interruptCause? = none := by
  have hx (x : Cause) (epc tval : Word) : (Trap.exception x epc tval).interruptCause? = none := by
    rw [Trap.interruptCause?, isInterrupt_exception]
    rfl
  unfold prioritize at h
  dsimp only at h
  repeat' split at h
  all_goals cases h
  all_goals exact hx ..

/-- What a cycle takes is outstanding before it, and the rest is outstanding after it. -/
theorem outstanding_edge (s : TrapController) (i : Input) : s.outstanding =
    ((s.output i).taken.bind Trap.interruptCause?).toList ++
      (s.edge (s.propose i)).outstanding := by
  obtain ⟨pending, latched, taken⟩ := s
  cases pending with
  | none =>
    cases hp : prioritize i with
    | none =>
      cases latched <;>
        simp [outstanding, pendingCause?, latchedCause?, output, propose, edge, hp,
          Trap.interruptCause?_interrupt]
    | some t =>
      simp [outstanding, pendingCause?, latchedCause?, output, propose, edge, hp,
        interruptCause?_of_prioritize hp]
  | some t =>
    have hepc (epc : Word) : ({ t with epc } : Trap).interruptCause? = t.interruptCause? := rfl
    cases hr : i.ready <;> cases ht : t.isInterrupt <;>
      simp [outstanding, pendingCause?, latchedCause?, output, propose, edge, hr, ht, hepc]

end TrapController

/-- The cause of the interrupt that is requested. -/
def Stimulus.cause? : Stimulus → Option Word
  | .interrupt code => some (Trap.interruptBit ||| code)
  | _ => none

/-- The cause of the interrupt that is taken in a cycle. -/
def Instant.interrupt? (t : Instant) : Option Word :=
  t.signals.trap.taken.bind Trap.interruptCause?

namespace Machine

variable {m : Machine} {h : List Stimulus} {e : Stimulus}

/-- The interrupts that have been requested. -/
def requested (h : List Stimulus) : List Word := h.filterMap Stimulus.cause?

/-- The interrupts that have been taken. -/
def interrupts (m : Machine) (h : List Stimulus) : List Word :=
  (m.cycles h).filterMap Instant.interrupt?

/-- The requests whose place in the latch another request has taken. -/
def replaced (m : Machine) : List Stimulus → List Word
  | [] => []
  | e :: h =>
    (if e.cause?.isSome then m.trap.latchedCause?.toList else []) ++ (m.apply e).replaced h

theorem replaced_concat (m : Machine) (h : List Stimulus) (e : Stimulus) :
    m.replaced (h ++ [e]) =
      m.replaced h ++ if e.cause?.isSome then (m.after h).trap.latchedCause?.toList else [] := by
  induction h generalizing m with
  | nil => simp [replaced, after]
  | cons x h ih => simp [replaced, ih]

theorem requested_concat (h : List Stimulus) (e : Stimulus) :
    requested (h ++ [e]) = requested h ++ e.cause?.toList := filterMap_concat

/-- Nothing is replaced if the latch is empty at every request. -/
theorem replaced_eq_nil (hfree : ∀ before code rest, h = before ++ .interrupt code :: rest →
    (m.after before).trap.latched = none) : m.replaced h = [] := by
  induction h using List.reverseRecOn with
  | nil => rfl
  | append_singleton h e ih =>
    rw [replaced_concat, ih fun before code rest hh => hfree before code (rest ++ [e]) (by
      rw [hh, List.append_assoc, List.cons_append])]
    cases e with
    | interrupt code =>
      rw [TrapController.latchedCause?, hfree h code [] rfl]
      rfl
    | tick | reset | request | withdraw | collect | register | poke | bytes | unit => rfl

/-- Without a cycle, a request or a reset the trap controller stays as it is. -/
theorem apply_trap (ht : e ≠ .tick) (hc : e.cause? = none)
    (hl : ∀ level, e = .reset level → level = false) : (m.apply e).trap = m.trap := by
  cases e with
  | tick => exact absurd rfl ht
  | interrupt code => cases hc
  | reset level =>
    obtain rfl := hl level rfl
    rfl
  | request | withdraw | collect | register | poke | bytes | unit => rfl

/-- A cycle takes from what is outstanding. -/
theorem interrupts_tick (hr : (m.after h).reset = false) :
    m.interrupts (h ++ [.tick]) ++ (m.after (h ++ [.tick])).trap.outstanding =
      m.interrupts h ++ (m.after h).trap.outstanding := by
  cases hw : (m.after h).settle with
  | error x =>
    have happly : m.after (h ++ [.tick]) = m.after h := by
      rw [after_append]
      show (m.after h).apply .tick = _
      rw [apply, tick, hw]
    rw [happly, interrupts, interrupts, cycles_concat, Tracker.follow, hw]
  | ok w =>
    obtain ⟨hafter, hcycles⟩ := cycles_tick hr hw
    have hs := settled_of_settle hw
    have hcons := TrapController.outstanding_edge (m.after h).trap ((m.after h).trapInput w)
    rw [← hs.trap, ← advance_trap hr, ← hafter] at hcons
    rw [hcons, interrupts, hcycles, filterMap_concat, List.append_assoc]
    rfl

/-! ## The account -/

/-- Where the requests of a history from `m` on have gone. -/
structure Accounted (m : Machine) (h : List Stimulus) : Prop where
  /-- Every interrupt that is taken or outstanding is that of a request of its own, with its code,
  and they go in the order of the requests. -/
  order : (m.interrupts h ++ (m.after h).trap.outstanding).Sublist (requested h)
  /-- Every request is taken, outstanding or replaced. -/
  all : (requested h).Perm (m.interrupts h ++ (m.after h).trap.outstanding ++ m.replaced h)

namespace Accounted

/-- What neither requests nor takes anything. -/
theorem silent (ha : m.Accounted h) (hc : e.cause? = none)
    (he : m.interrupts (h ++ [e]) ++ (m.after (h ++ [e])).trap.outstanding =
      m.interrupts h ++ (m.after h).trap.outstanding) : m.Accounted (h ++ [e]) := by
  have hq : requested (h ++ [e]) = requested h := by simp [requested_concat, hc]
  have hd : m.replaced (h ++ [e]) = m.replaced h := by simp [replaced_concat, hc]
  constructor
  · rw [he, hq]
    exact ha.order
  · rw [he, hq, hd]
    exact ha.all

/-- A request takes the place of the one in the latch. -/
theorem interrupt (ha : m.Accounted h) (code : Word) : m.Accounted (h ++ [.interrupt code]) := by
  have hi : m.interrupts (h ++ [.interrupt code]) = m.interrupts h :=
    congrArg (List.filterMap _) <|
      cycles_concat_of_ne_tick (e := .interrupt code) (fun hx => nomatch hx)
        fun _ hx => nomatch hx
  have ho : (m.after (h ++ [.interrupt code])).trap.outstanding =
      (m.after h).trap.pendingCause?.toList ++ [Trap.interruptBit ||| code] := by
    rw [after_append]
    exact TrapController.outstanding_raiseInterrupt code
  have hq : requested (h ++ [.interrupt code]) =
      requested h ++ [Trap.interruptBit ||| code] := requested_concat ..
  have hd : m.replaced (h ++ [.interrupt code]) =
      m.replaced h ++ (m.after h).trap.latchedCause?.toList := replaced_concat ..
  obtain ⟨hsub, hperm⟩ := ha
  unfold TrapController.outstanding at hsub hperm
  constructor
  · rw [hi, ho, hq, ← List.append_assoc]
    rw [← List.append_assoc] at hsub
    exact ((List.sublist_append_left ..).trans hsub).append_right _
  · rw [hi, ho, hq, hd, List.perm_iff_count]
    intro c
    have hcount := hperm.count_eq c
    simp only [List.count_append] at hcount ⊢
    omega

variable (ha : m.Accounted h)
include ha

theorem length_eq : (requested h).length = (m.interrupts h).length +
    (m.after h).trap.outstanding.length + (m.replaced h).length := by
  rw [ha.all.length_eq, List.length_append, List.length_append]

/-- If no request has been replaced every one is taken in its turn. -/
theorem requested_eq (hd : m.replaced h = []) :
    requested h = m.interrupts h ++ (m.after h).trap.outstanding := by
  have hlen := ha.length_eq
  rw [hd, List.length_nil, Nat.add_zero, ← List.length_append] at hlen
  exact (ha.order.eq_of_length hlen.symm).symm

end Accounted

theorem reset_after (hr : m.reset = false) (hl : ∀ level, .reset level ∈ h → level = false) :
    (m.after h).reset = false :=
  (low_induction (h := []) (P := fun _ _ => True) hr hl trivial (fun _ _ _ _ _ _ => trivial)
    fun _ _ _ _ _ _ => trivial).1

theorem accounted_after (hr : m.reset = false) (hm : m.trap.outstanding = [])
    (hl : ∀ level, .reset level ∈ h → level = false) : m.Accounted h := by
  induction h using List.reverseRecOn with
  | nil =>
    have hcycles : m.interrupts [] = [] := rfl
    have hafter : (m.after []).trap.outstanding = [] := hm
    constructor <;> simp [hcycles, hafter, requested, replaced]
  | append_singleton h e ih =>
    have hlh : ∀ level, .reset level ∈ h → level = false :=
      fun level hmem => hl level (List.mem_append_left _ hmem)
    have hle : ∀ level, e = .reset level → level = false :=
      fun level he => hl level (by rw [he]; simp)
    have ha := ih hlh
    by_cases ht : e = .tick
    · subst ht
      exact ha.silent rfl (interrupts_tick (reset_after hr hlh))
    · cases hc : e.cause? with
      | none =>
        refine ha.silent hc ?_
        have htrap : (m.after (h ++ [e])).trap = (m.after h).trap := by
          rw [after_append]
          exact apply_trap ht hc hle
        rw [htrap, interrupts, interrupts, cycles_concat_of_ne_tick ht hle]
      | some c =>
        cases e with
        | interrupt code => exact ha.interrupt code
        | tick | reset | request | withdraw | collect | register | poke | bytes | unit => cases hc

/-- As long as reset is low every interrupt that is taken or outstanding is that of a request of its
own, in the order of the requests. The other requests are those that were in the latch when the next
one came. If the latch has been empty at every request, there are none. -/
theorem interrupts_accounted {writable : String → Bool} {c : Config} {p : Program} {m₀ : Machine}
    (hnew : Machine.new writable c p = .ok m₀) {h : List Stimulus}
    (hl : ∀ level, .reset level ∈ h → level = false) :
    m₀.Accounted h ∧
      (requested h).length = (m₀.interrupts h).length + (m₀.after h).trap.outstanding.length +
        (m₀.replaced h).length ∧
      ((∀ before code rest, h = before ++ .interrupt code :: rest →
          (m₀.after before).trap.latched = none) →
        requested h = m₀.interrupts h ++ (m₀.after h).trap.outstanding) := by
  obtain ⟨-, rfl⟩ := eq_ofConfig_of_new hnew
  have ha := accounted_after (m := ofConfig c p) rfl rfl hl
  exact ⟨ha, ha.length_eq, fun hfree => ha.requested_eq (replaced_eq_nil hfree)⟩

/-- An interrupt is requested while a call of the environment is under way, and another one in the
cycle in which the first is taken. -/
theorem interrupts_accounted_calling :
    let h : List Stimulus := [.interrupt 7, .tick, .tick, .tick, .interrupt 9, .tick, .tick]
    Machine.new (fun _ => true) {} calling.program = .ok calling ∧
      (∀ level, .reset level ∈ h → level = false) ∧
      requested h = calling.interrupts h ++ (calling.after h).trap.outstanding ∧
      calling.interrupts h = [Trap.interruptBit ||| 7] ∧
      (calling.after h).trap.outstanding = [Trap.interruptBit ||| 9] := by
  intro h
  have hnew : Machine.new (fun _ => true) {} calling.program = .ok calling := rfl
  have hl : ∀ level, .reset level ∈ h → level = false := by
    intro level hl
    simp [h] at hl
  obtain ⟨ha, -, -⟩ := interrupts_accounted hnew hl
  exact ⟨hnew, hl, ha.requested_eq (by decide +kernel), by decide +kernel, by decide +kernel⟩

/-- A request that comes before the latch is empty replaces the one in it: of two requests one is
taken, and none is outstanding. -/
theorem interrupt_lost_repeated :
    let m₀ := ofConfig {} {}
    let h : List Stimulus := [.interrupt 7, .interrupt 8, .tick, .tick]
    Machine.new (fun _ => true) {} {} = .ok m₀ ∧ (∀ level, .reset level ∈ h → level = false) ∧
      requested h = [Trap.interruptBit ||| 7, Trap.interruptBit ||| 8] ∧
      m₀.interrupts h = [Trap.interruptBit ||| 8] ∧ (m₀.after h).trap.outstanding = [] ∧
      (requested h).length ≠
        (m₀.interrupts h).length + (m₀.after h).trap.outstanding.length := by
  intro m₀ h
  refine ⟨rfl, fun level hl => ?_, by decide +kernel⟩
  simp [h] at hl

end Machine

end RiscvPipeline
