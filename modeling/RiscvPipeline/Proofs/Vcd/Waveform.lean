import RiscvPipeline.CommandLine.Directory
import RiscvPipeline.Proofs.History
import RiscvPipeline.Proofs.Vcd.Replay

/-!
# The waveform of a machine

The clock records what the probes show without asking whether there is a value for every port. The
probes always have one (`Probe.fits_values`), so that the waveform is the dump of a sample for each
cycle, those under reset among them (`Machine.waveform_after`). A command that leaves a waveform has
run a machine, and the file reads as the lines of its dump (`CommandLine.Directory.lines?_execute`).
What these lines tell is said in `Vcd.Replayable`.
-/

namespace RiscvPipeline

namespace Probe

/-- The ports of the waveform. -/
def ports : List Vcd.Port := all.map fun p => ⟨p.name, p.width⟩

theorem ports_waveform : waveform.ports = ports := (Vcd.Follows.new "rvpipe").same

/-- The probes have a value for every port, so that no sample of them is refused. -/
theorem fits_values (time : Nat) (o : Observation) : Vcd.Sample.Fits ports ⟨time, values o⟩ := by
  rw [← ports_waveform, Vcd.fits_ports_iff]
  exact length_values o

theorem newline_notMem_name : ∀ p ∈ ports, '\n' ∉ p.name.toList := by decide

end Probe

namespace Machine

/-! ## Samples -/

variable (m : Machine)

/-- What the probes show in a cycle. -/
def sample (w : Signals) : Vcd.Sample := ⟨m.cycle, Probe.values (m.observation w)⟩

/-- The sample that a stimulus makes. It is the clock that takes them, with reset low or high. -/
def sampled : Stimulus → List Vcd.Sample
  | .tick =>
    match m.settle with
    | .ok w => [m.sample w]
    | .error _ => []
  | _ => []

/-- The samples of a history. -/
def samples (m : Machine) : List Stimulus → List Vcd.Sample
  | [] => []
  | e :: h => m.sampled e ++ (m.apply e).samples h

/-- The dump of the samples of a history. -/
def dump (h : List Stimulus) : Vcd := Vcd.dump "rvpipe" Probe.ports (m.samples h)

variable {m}

theorem samples_concat (h : List Stimulus) (e : Stimulus) :
    m.samples (h ++ [e]) = m.samples h ++ (m.after h).sampled e := by
  induction h generalizing m with
  | nil => exact List.append_nil _
  | cons x h ih => rw [List.cons_append, samples, ih, samples, List.append_assoc, after_cons]

theorem waveform_advance (hm : ∀ v ∈ m.waveform, v.ports = Probe.ports) (w : Signals) :
    (m.advance w).waveform = m.waveform.map fun v => v.offer (m.sample w) := by
  refine Option.map_congr fun v hv => ?_
  exact (Vcd.offer_of_fits (hm v hv ▸ Probe.fits_values m.cycle _)).symm

theorem waveform_setReset (level : Bool) : (m.setReset level).waveform = m.waveform := by
  unfold setReset
  dsimp only
  split <;> rfl

/-- What a stimulus does to the waveform. -/
theorem waveform_apply (hm : ∀ v ∈ m.waveform, v.ports = Probe.ports) (e : Stimulus) :
    (m.apply e).waveform = m.waveform.map fun v => (m.sampled e).foldl Vcd.offer v := by
  cases e with
  | tick =>
    unfold apply sampled tick
    cases m.settle with
    | ok w => exact waveform_advance hm w
    | error e => exact Option.map_id'.symm
  | reset level => exact (waveform_setReset level).trans Option.map_id'.symm
  | interrupt | request | withdraw | collect | register | poke | bytes | unit =>
    exact Option.map_id'.symm

theorem lines_dump (h : List Stimulus) : Text.lines (m.dump h).text = (m.dump h).lines :=
  Vcd.lines_text_dump _ (by decide) Probe.newline_notMem_name

/-- The waveform of a machine, if it has one, is the dump of its samples. -/
theorem waveform_after (c : Config) (p : Program) (h : List Stimulus) :
    ((ofConfig c p).after h).waveform =
      c.general.traceFile.map fun _ => (ofConfig c p).dump h := by
  induction h using List.reverseRecOn with
  | nil => rfl
  | append_singleton h e ih =>
    have hports : ∀ v ∈ ((ofConfig c p).after h).waveform, v.ports = Probe.ports := by
      intro v hv
      rw [ih, Option.mem_map] at hv
      obtain ⟨_, -, rfl⟩ := hv
      exact (Vcd.follows_dump ..).same
    rw [after_append]
    show (((ofConfig c p).after h).apply e).waveform = _
    rw [waveform_apply hports, ih, Option.map_map]
    simp only [dump, samples_concat, Vcd.dump_append]
    rfl

end Machine

namespace CommandLine

/-! ## Files -/

theorem waveformFile_after {c : Config} {p : Program} {h : List Stimulus} {name text : String}
    (hf : waveformFile c ((Machine.ofConfig c p).after h) = some (name, text)) :
    c.general.traceFile = some name ∧ Text.lines text = ((Machine.ofConfig c p).dump h).lines := by
  unfold waveformFile at hf
  rw [Machine.waveform_after] at hf
  cases hn : c.general.traceFile with
  | none => simp [hn] at hf
  | some n =>
    simp only [hn] at hf
    obtain ⟨rfl, rfl⟩ := Prod.mk.inj (Option.some.inj hf)
    exact ⟨rfl, Machine.lines_dump h⟩

theorem prepare_eq_ok {f : Files} {c : Config} {o : RunOptions} {i : ProgramImage} {m : Machine}
    (hm : prepare f c o = .ok (i, m)) : ∃ p, m = .ofConfig c p := by
  unfold prepare at hm
  simp only [bind, Except.bind] at hm
  split at hm
  · cases hm
  split at hm
  · cases hm
  split at hm
  · cases hm
  split at hm
  · cases hm
  next hnew =>
    cases hm
    exact ⟨_, (Machine.eq_ofConfig_of_new hnew).2⟩

theorem waveform_simulate (c : Config) (o : RunOptions) (i : ProgramImage) (m : Machine) :
    ∃ h, .tick ∉ h ∧ ∃ k ≤ o.cycles.getD c.general.maxCycles,
      (simulate c o i m).waveform = waveformFile c (m.after (h ++ .replicate k .tick)) := by
  unfold simulate
  cases hl : m.load i with
  | error e => exact ⟨[], List.not_mem_nil, 0, Nat.zero_le _, rfl⟩
  | ok n =>
    obtain ⟨h, ht, rfl⟩ := Machine.load_after hl
    obtain ⟨k, hk, hr⟩ := Machine.run_after (o.cycles.getD c.general.maxCycles) (m.after h)
    refine ⟨h, ht, k, hk, ?_⟩
    rw [Machine.after_append, ← hr]
    dsimp only
    split
    next hrun => rw [hrun]; rfl
    next hrun => rw [hrun]

/-- The waveform that a run leaves, also if it fails, is that of a machine of its configuration.
Loading takes no cycle, so that the samples are those of the run. -/
theorem waveform_perform {f : Files} {o : RunOptions} {name text : String}
    (hf : (perform f o).waveform = some (name, text)) :
    ∃ c i p h k, configuration f o = .ok c ∧ prepare f c o = .ok (i, .ofConfig c p) ∧
      c.general.traceFile = some name ∧ .tick ∉ h ∧ k ≤ o.cycles.getD c.general.maxCycles ∧
      Text.lines text = ((Machine.ofConfig c p).dump (h ++ .replicate k .tick)).lines := by
  unfold perform at hf
  cases hc : configuration f o with
  | error e => simp [hc, fail] at hf
  | ok c =>
    cases hp : prepare f c o with
    | error e => simp [hc, hp, fail] at hf
    | ok x =>
      obtain ⟨i, m⟩ := x
      simp only [hc, hp] at hf
      obtain ⟨p, rfl⟩ := prepare_eq_ok hp
      obtain ⟨h, ht, k, hk, hw⟩ := waveform_simulate c o i (.ofConfig c p)
      obtain ⟨hname, hlines⟩ := waveformFile_after (hw ▸ hf)
      exact ⟨c, i, p, h, k, rfl, hp, hname, ht, hk, hlines⟩

theorem waveform_execute {f : Files} {arguments : List String} {name text : String}
    (hf : (execute f arguments).waveform = some (name, text)) :
    ∃ c p h, c.general.traceFile = some name ∧
      Text.lines text = ((Machine.ofConfig c p).dump h).lines := by
  unfold execute at hf
  split at hf
  next o _ =>
    obtain ⟨c, -, p, h, k, -, -, hn, -, -, ht⟩ := waveform_perform hf
    exact ⟨c, p, _, hn, ht⟩
  all_goals cases hf

namespace Directory

variable (d : Directory)

theorem lines?_write {path name : String} (hnull : path ≠ nullDevice)
    (hp : resolve? path = some name) (text : String) :
    (d.write path text).lines? path = some (Text.lines text) := by
  simp [lines?, read, write, hp, hnull]

/-- Who reads the waveform file after a command reads the dump of a machine. -/
theorem lines?_execute {arguments : List String} {path name text : String}
    (ho : (d.execute arguments).1.waveform = some (path, text)) (hnull : path ≠ nullDevice)
    (hp : resolve? path = some name) :
    ∃ c p h, c.general.traceFile = some path ∧
      (d.execute arguments).2.lines? path = some ((Machine.ofConfig c p).dump h).lines := by
  unfold execute at ho ⊢
  dsimp only at ho ⊢
  split at ho
  next hw =>
    cases hw.symm.trans ho
    obtain ⟨c, p, h, hn, ht⟩ := waveform_execute hw
    exact ⟨c, p, h, hn, (d.lines?_write hnull hp text).trans (congrArg some ht)⟩
  next hw => cases hw.symm.trans ho

end Directory

end CommandLine

end RiscvPipeline
