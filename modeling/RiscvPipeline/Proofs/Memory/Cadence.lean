import RiscvPipeline.Proofs.Memory.Service

/-!
# The cadence of requests

A memory that is ready in every so many-th cycle counts the cycles since reset in 32 bits.
`DataMemory.ReadyWhen` says in which cycles of a run it is ready: those in which nothing is
outstanding and that are due. The cycles due are those whose number modulo 2^32 is a multiple of the
period (`DataMemory.ready_cadence`), so that the period is kept for as long as the count has not
wrapped, and for ever exactly if it divides 2^32.
-/

namespace RiscvPipeline.DataMemory

variable {d m : DataMemory} {ts : List (Moment DataMemory MemoryRequest)} {p : Nat}

/-- The memory is ready in the cycles that are due and in which no request is outstanding, and in no
others. -/
def ReadyWhen (due : Nat → Prop) (ts : List (Moment DataMemory MemoryRequest)) : Prop :=
  ∀ before t rest, ts = before ++ t :: rest →
    ((t.state.output t.input).ready = true ↔
      (∀ b f l, ¬ Outstanding before b f l) ∧ due before.length)

/-- Any two requests are accepted a multiple of the period apart. -/
def Spaced (p : Nat) (ts : List (Moment DataMemory MemoryRequest)) : Prop :=
  ∀ before t between u rest, ts = before ++ t :: between ++ u :: rest →
    accepted t = true → accepted u = true → p ∣ between.length + 1

theorem ReadyWhen.due {due : Nat → Prop} (h : ReadyWhen due ts)
    {before rest : List (Moment DataMemory MemoryRequest)} {t : Moment DataMemory MemoryRequest}
    (hs : ts = before ++ t :: rest) (ha : accepted t = true) : due before.length := by
  have hr : (t.state.output t.input).ready = true := (Bool.and_eq_true_iff.1 ha).2
  exact ((h before t rest hs).1 hr).2

theorem ReadyWhen.spaced (h : ReadyWhen (p ∣ ·) ts) : Spaced p ts := by
  intro before t between u rest hs ht hu
  have hs' : ts = before ++ t :: (between ++ u :: rest) := by simp [hs]
  have hfirst : p ∣ before.length := h.due hs' ht
  have hsecond : p ∣ (before ++ t :: between).length := h.due hs hu
  rw [List.length_append, List.length_cons] at hsecond
  exact (Nat.dvd_add_right hfirst).1 hsecond

/-- Within the range of the count, or for ever if the period divides it, the remainder is as good as
the number. -/
theorem ReadyWhen.of_mod {N : Nat} (h : ReadyWhen (p ∣ · % N) ts) (hN : ts.length ≤ N ∨ p ∣ N) :
    ReadyWhen (p ∣ ·) ts := by
  intro before t rest hs
  rw [h before t rest hs]
  refine and_congr_right fun _ => ?_
  rcases hN with hN | hN
  · have hlt : before.length < N := by
      rw [hs, List.length_append, List.length_cons] at hN
      omega
    show p ∣ before.length % N ↔ _
    rw [Nat.mod_eq_of_lt hlt]
  · exact Nat.dvd_mod_iff hN

theorem Course.ready_iff (hc : Course d ts m) (hk : Kept d ts m) (q : MemoryRequest) :
    (m.output q).ready = true ↔ (∀ b f l, ¬ Outstanding ts b f l) ∧
      d.readyPeriod.toNat ∣ ts.length % 2 ^ 32 := by
  have hs := hc.complete hk
  by_cases hn : ∀ b f l, ¬ Outstanding ts b f l
  · rw [hs.idle hn q, beq_iff_eq, BitVec.toNat_eq, BitVec.toNat_umod, BitVec.toNat_ofNat]
    exact ⟨fun h => ⟨hn, Nat.dvd_of_mod_eq_zero h⟩, fun h => Nat.mod_eq_zero_of_dvd h.2⟩
  · refine ⟨fun h => absurd (fun b f l ho => ?_) hn, fun h => absurd h.1 hn⟩
    rw [(hs.outstanding b f l ho q).2] at h
    split at h <;> cases h

/-- A memory is ready by the count of its cycles, whatever is in it. -/
theorem readyWhen_of_run (hd : d.Aligned) (h0 : d.registers = {}) (is : List MemoryRequest) :
    ReadyWhen (d.readyPeriod.toNat ∣ · % 2 ^ 32) (clocked.moments d is) := by
  intro before t rest hs
  obtain ⟨js, hjs, ht⟩ := Clocked.of_moments_append hs
  obtain ⟨hk, hc⟩ := kept_course hd h0 js
  rw [ht t rfl, ← hjs]
  exact hc.ready_iff hk t.input

/-! ## Past the range of the count -/

theorem not_outstanding_of_silent (h : ∀ t ∈ ts, t.input.valid = false)
    (b : List (Moment DataMemory MemoryRequest)) (f : Moment DataMemory MemoryRequest)
    (l : List (Moment DataMemory MemoryRequest)) : ¬ Outstanding ts b f l := by
  intro ho
  have hf : f ∈ ts := by simp [ho.split]
  have hv : f.input.valid = true := (Bool.and_eq_true_iff.1 ho.accepted).1
  rw [h f hf] at hv
  cases hv

/-- After cycles without a request nothing is outstanding, and the memory is ready by their number
alone. -/
theorem ready_silent (hd : d.Aligned) (h0 : d.registers = {}) {due : Nat → Prop} (n : Nat) :
    let idle : MemoryRequest := {}
    let is := List.replicate n idle
    (∀ b f l, ¬ Outstanding (clocked.moments d is) b f l) ∧
      (((clocked.after d is).output idle).ready = true ↔ d.readyPeriod.toNat ∣ n % 2 ^ 32) ∧
      (ReadyWhen due (clocked.moments d (is ++ [idle])) →
        ((clocked.after d is).output idle).ready = true → due n) := by
  intro idle is
  have hlen : (clocked.moments d is).length = n :=
    (Clocked.length_moments is).trans List.length_replicate
  have hsilent : ∀ t ∈ clocked.moments d is, t.input.valid = false := by
    intro t ht
    rw [List.eq_of_mem_replicate (Clocked.input_of_mem_moments ht)]
  have hn := not_outstanding_of_silent hsilent
  obtain ⟨hk, hc⟩ := kept_course hd h0 is
  have hready := hc.ready_iff hk idle
  rw [hlen] at hready
  refine ⟨hn, hready.trans (and_iff_right hn), fun h hr => ?_⟩
  have hcycle := h _ ⟨clocked.after d is, idle⟩ [] (Clocked.moments_concat is idle)
  rw [← hlen]
  exact (hcycle.1 hr).2

/-! ## The period of a configuration -/

theorem readyPeriod_ofConfig {c : MemoryConfig} (hc : c.fault? = none) :
    (ofConfig c).readyPeriod = c.readyPeriod := by
  have hne : c.readyPeriod ≠ 0 := by
    intro h
    unfold MemoryConfig.fault? at hc
    rw [if_pos h] at hc
    repeat' split at hc
    all_goals cases hc
  exact if_neg hne

/-- A memory of a valid configuration, with any contents, is ready in the cycles in which nothing is
outstanding and whose number since reset, counted in 32 bits, is a multiple of the period. For as
long as the count does not wrap these are the multiples of the period, and any two requests are
accepted such a multiple apart. That goes on for ever if the period divides 2^32, and only then. -/
theorem ready_cadence {c : MemoryConfig} (hc : c.fault? = none) {r : Ram} (hr : r.size = c.size) :
    let d := { ofConfig c with ram := r }
    let p := c.readyPeriod.toNat
    (∀ is, ReadyWhen (p ∣ · % 2 ^ 32) (clocked.moments d is)) ∧
      (∀ is : List MemoryRequest, is.length ≤ 2 ^ 32 ∨ p ∣ 2 ^ 32 →
        ReadyWhen (p ∣ ·) (clocked.moments d is) ∧ Spaced p (clocked.moments d is)) ∧
      ((∀ is, ReadyWhen (p ∣ ·) (clocked.moments d is)) ↔ p ∣ 2 ^ 32) := by
  intro d p
  obtain ⟨hsize, hbase⟩ := MemoryConfig.aligned_of_fault? hc
  have hd : d.Aligned := ⟨hbase, hr ▸ hsize⟩
  have hp : d.readyPeriod.toNat = p := congrArg BitVec.toNat (readyPeriod_ofConfig hc)
  have hmod (is : List MemoryRequest) : ReadyWhen (p ∣ · % 2 ^ 32) (clocked.moments d is) :=
    hp ▸ readyWhen_of_run hd rfl is
  refine ⟨hmod, fun is h => ?_, fun h => ?_, fun h is => ?_⟩
  · have hready := (hmod is).of_mod (by rwa [Clocked.length_moments])
    exact ⟨hready, hready.spaced⟩
  · -- In a run without requests the memory is ready when the count comes back to zero.
    obtain ⟨-, hready, hdue⟩ := ready_silent hd rfl (2 ^ 32)
    exact hdue (h _) (hready.2 (by rw [Nat.mod_self]; exact Nat.dvd_zero _))
  · exact (hmod is).of_mod (.inr h)

/-- Requests are accepted in every fifth cycle; the second one is presented too early, and waits. -/
theorem ready_cadence_waiting :
    let c : MemoryConfig := { readyPeriod := 5 }
    let d := { ofConfig c with ram := { size := c.size } }
    let q : MemoryRequest := { valid := true, addr := c.base, ready := true }
    let is := List.replicate 11 q
    c.fault? = none ∧ d.ram.size = c.size ∧ is.length ≤ 2 ^ 32 ∧
      ((clocked.moments d is).map accepted).findIdxs (· == true) = [0, 5, 10] ∧
      ReadyWhen (5 ∣ ·) (clocked.moments d is) ∧ Spaced 5 (clocked.moments d is) := by
  intro c d q is
  have hc : c.fault? = none := by decide
  obtain ⟨-, hwithin, -⟩ := ready_cadence hc (r := { size := c.size }) rfl
  exact ⟨hc, rfl, by decide, by decide +kernel, hwithin is (.inl (by decide))⟩

/-- The count of a memory that accepts requests in every third cycle wraps: 2^32 is no multiple of
three, and still the memory is ready in that cycle. -/
theorem ready_wrapped_three :
    let c : MemoryConfig := { readyPeriod := 3 }
    let d := ofConfig c
    let idle : MemoryRequest := {}
    let is := List.replicate (2 ^ 32) idle
    c.fault? = none ∧ (clocked.moments d is).length = 2 ^ 32 ∧
      (∀ b f l, ¬ Outstanding (clocked.moments d is) b f l) ∧
      ((clocked.after d is).output idle).ready = true ∧ ¬ c.readyPeriod.toNat ∣ 2 ^ 32 ∧
      ¬ ReadyWhen (c.readyPeriod.toNat ∣ ·) (clocked.moments d (is ++ [idle])) := by
  intro c d idle is
  have hd : d.Aligned := ⟨by decide, by decide⟩
  have hndvd : ¬ c.readyPeriod.toNat ∣ 2 ^ 32 := by decide
  obtain ⟨hn, hready, hdue⟩ := ready_silent hd rfl (2 ^ 32)
  have hr := hready.2 (by rw [Nat.mod_self]; exact Nat.dvd_zero _)
  have hlen : (clocked.moments d is).length = 2 ^ 32 :=
    (Clocked.length_moments is).trans List.length_replicate
  exact ⟨by decide, hlen, hn, hr, hndvd, fun h => hndvd (hdue h hr)⟩

end RiscvPipeline.DataMemory
