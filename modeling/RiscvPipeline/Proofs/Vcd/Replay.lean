import Mathlib.Data.List.Induction
import Mathlib.Data.List.Nodup
import RiscvPipeline.Proofs.Vcd.Reader

/-!
# The replay of a value change dump

A dump leaves out of every sample what the ones before have shown. Nothing is lost by that: who
reads the lines of a dump knows, after each sample, what every port shows (`replayable`), and the
times in the dump are those of the samples that change it. The lines are those of the text, so that
this holds for the file as well. `Follows` is what a sample keeps of that.
-/

namespace RiscvPipeline.Vcd

/-! ## Samples -/

/-- The values of the ports at a time. -/
structure Sample where
  time : Nat
  values : List Word
  deriving DecidableEq

/-- There is a value for every port. -/
def Sample.Fits (ports : List Port) (s : Sample) : Prop := s.values.length = ports.length

instance (ports : List Port) (s : Sample) : Decidable (s.Fits ports) :=
  inferInstanceAs (Decidable (_ = _))

/-- The dump after a sample, which leaves no trace if it is refused. -/
def offer (d : Vcd) (s : Sample) : Vcd :=
  match d.sample s.time s.values with
  | .ok d => d
  | .error _ => d

/-- The dump of ports after samples. -/
def dump (scope : String) (ports : List Port) (ss : List Sample) : Vcd :=
  ss.foldl offer (new scope ports)

section

variable (ports : List Port)

/-- What the port at position `n` shows of a sample. -/
def reading? (s : Sample) (n : Nat) : Option Nat :=
  match ports[n]?, s.values[n]? with
  | some p, some w => some (p.reading w)
  | _, _ => none

/-- What the port at position `n` shows of the last sample that is not refused. -/
def held? (ss : List Sample) (n : Nat) : Option Nat :=
  ((ss.filter (Sample.Fits ports)).getLast?).bind fun s => reading? ports s n

/-- After samples, one more changes what some port shows. -/
def Changes (ss : List Sample) (s : Sample) : Prop :=
  ∃ n, n < ports.length ∧ held? ports (ss ++ [s]) n ≠ held? ports ss n

instance (ss : List Sample) (s : Sample) : Decidable (Changes ports ss s) :=
  inferInstanceAs (Decidable (∃ n, n < ports.length ∧ _))

/-- The times of the samples that change what some port shows. -/
def changeTimes (ss : List Sample) : List Nat :=
  ss.zipIdx.filterMap fun x => if Changes ports (ss.take x.2) x.1 then some x.1.time else none

variable {ports} {ss : List Sample} {s : Sample}

theorem held?_concat_of_fits (hs : s.Fits ports) (n : Nat) :
    held? ports (ss ++ [s]) n = reading? ports s n := by
  simp [held?, hs]

theorem held?_concat_of_not_fits (hs : ¬ s.Fits ports) (n : Nat) :
    held? ports (ss ++ [s]) n = held? ports ss n := by
  simp [held?, hs]

theorem not_changes_of_not_fits (hs : ¬ s.Fits ports) : ¬ Changes ports ss s := by
  rintro ⟨n, -, hn⟩
  exact hn (held?_concat_of_not_fits hs n)

theorem changeTimes_concat :
    changeTimes ports (ss ++ [s]) =
      changeTimes ports ss ++ if Changes ports ss s then [s.time] else [] := by
  unfold changeTimes
  rw [List.zipIdx_append, List.filterMap_append]
  congr 1
  · refine List.filterMap_congr ?_
    rintro ⟨r, k⟩ hk
    have : k ≤ ss.length := by
      have := (List.mem_zipIdx hk).2.1
      omega
    simp only [List.take_append_of_le_length this]
  · have h : (ss ++ [s]).take ss.length = ss := by simp
    by_cases hc : Changes ports ss s <;> simp [h, hc]

/-- The first sample that is not refused tells what no one has known before. -/
theorem head?_changeTimes (hp : ports ≠ []) :
    (changeTimes ports ss).head? = ((ss.filter (Sample.Fits ports)).head?).map (·.time) := by
  induction ss using List.reverseRecOn with
  | nil => rfl
  | append_singleton ss s ih =>
    rw [changeTimes_concat, List.filter_append, List.head?_append, List.head?_append, ih]
    cases hf : ss.filter (Sample.Fits ports) with
    | cons r rs => simp
    | nil =>
      by_cases hs : s.Fits ports
      · have hc : Changes ports ss s := by
          have hlen : 0 < ports.length := List.length_pos_of_ne_nil hp
          have hlen' : 0 < s.values.length := hs ▸ hlen
          refine ⟨0, hlen, ?_⟩
          rw [held?_concat_of_fits hs]
          simp [held?, hf, reading?, hlen, hlen']
        simp [hc, hs]
      · simp [not_changes_of_not_fits hs, hs]

end

/-! ## The changes of a sample -/

/-- The lines that channels make of values. -/
def changes (cs : List Channel) (ws : List Word) : List Line :=
  (cs.zip ws).filterMap fun x => (x.1.present x.2).2

section

variable {cs : List Channel} {ws : List Word}

theorem changes_eq_zipWith :
    changes cs ws = (List.zipWith Channel.present cs ws).filterMap (·.2) := by
  rw [← List.map_uncurry_zip_eq_zipWith, List.filterMap_map]
  rfl

theorem present_fst (c : Channel) (w : Word) :
    (c.present w).1 = { c with last := some (c.port.shown w) } := by
  unfold Channel.present
  dsimp only
  split
  next h => rw [← h]
  next => rfl

theorem present_snd (c : Channel) (w : Word) :
    (c.present w).2 =
      if c.last = some (c.port.shown w) then none else some (c.change (c.port.shown w)) := by
  unfold Channel.present
  dsimp only
  split <;> rfl

/-- What a channel remembers is what its port shows of a value if it is the same number. -/
theorem last_eq_iff (c : Channel) (w : Word) :
    c.last = some (c.port.shown w) ↔ c.last.map (·.toNat) = some (c.port.reading w) := by
  rw [← c.port.toNat_shown, ← Option.map_some]
  exact (Option.map_injective fun _ _ => BitVec.eq_of_toNat_eq).eq_iff.symm

theorem changes_eq_nil_iff :
    changes cs ws = [] ↔
      ∀ x ∈ cs.zip ws, x.1.last.map (·.toNat) = some (x.1.port.reading x.2) := by
  unfold changes
  rw [List.filterMap_eq_nil_iff]
  refine forall₂_congr fun x _ => ?_
  rw [present_snd, ← last_eq_iff]
  split <;> simp_all

theorem isStamp_changes : ∀ l ∈ (changes cs ws).map Line.render, isStamp l = false := by
  intro l hl
  obtain ⟨line, hline, rfl⟩ := List.mem_map.1 hl
  obtain ⟨⟨c, w⟩, -, hcw⟩ := List.mem_filterMap.1 hline
  have : ¬ ∃ t, line = .time t := by
    rw [present_snd] at hcw
    split at hcw
    next => cases hcw
    next =>
      obtain rfl := Option.some.inj hcw
      unfold Channel.change
      split <;> simp
  rw [← isStamp_render] at this
  simpa using this

/-- Who knows what the channels remember knows after the lines what the ports show. The codes that
belong to none of the channels keep their values. -/
theorem readAll_changes {v : Values} (next : Nat → Option Nat)
    (hlast : ∀ c ∈ cs, v (identifier c.position) = c.last.map (·.toNat))
    (hnodup : (cs.map (·.position)).Nodup) (hlen : ws.length = cs.length)
    (hin : ∀ x ∈ cs.zip ws, next x.1.position = some (x.1.port.reading x.2))
    (hout : ∀ n, n ∉ cs.map (·.position) → next n = v (identifier n)) (n : Nat) :
    v.readAll ((changes cs ws).map Line.render) (identifier n) = next n := by
  induction cs generalizing ws v with
  | nil => exact (hout n List.not_mem_nil).symm
  | cons c cs ih =>
    obtain _ | ⟨w, ws⟩ := ws
    · cases hlen
    rw [List.map_cons, List.nodup_cons] at hnodup
    rw [List.forall_mem_cons] at hlast
    rw [List.zip_cons_cons, List.forall_mem_cons] at hin
    have hlen : ws.length = cs.length := Nat.succ.inj hlen
    by_cases hc : c.last = some (c.port.shown w)
    · have : changes (c :: cs) (w :: ws) = changes cs ws := by
        simp [changes, present_snd, hc]
      rw [this]
      refine ih hlast.2 hnodup.2 hlen hin.2 fun m hm => ?_
      by_cases hmc : m = c.position
      · rw [hmc, hin.1, hlast.1, (last_eq_iff c w).1 hc]
      · exact hout m (by simp [hmc, hm])
    · have : changes (c :: cs) (w :: ws) = c.change (c.port.shown w) :: changes cs ws := by
        simp [changes, present_snd, hc]
      rw [this]
      have hread : v.read (c.change (c.port.shown w)).render =
          fun code => if code = identifier c.position then some (c.port.reading w) else v code := by
        unfold Values.read
        rw [change?_change]
      show (v.read (c.change (c.port.shown w)).render).readAll _ _ = _
      rw [hread]
      refine ih (fun x hx => ?_) hnodup.2 hlen hin.2 fun m hm => ?_
      · have hne : x.position ≠ c.position := fun he =>
          hnodup.1 (he ▸ List.mem_map_of_mem hx)
        rw [if_neg fun he => hne (identifier_injective he), hlast.2 x hx]
      · by_cases hmc : m = c.position
        · rw [if_pos (by rw [hmc]), hmc, hin.1]
        · rw [if_neg fun he => hmc (identifier_injective he)]
          exact hout m (by simp [hmc, hm])

end

/-! ## What a sample keeps -/

/-- The lines that a sample adds. -/
def chunk (d : Vcd) (s : Sample) : List String :=
  (if changes d.channels s.values = [] then []
    else .time s.time :: changes d.channels s.values).map Line.render

section

variable {d : Vcd} {s : Sample}

theorem fits_ports_iff : s.Fits d.ports ↔ s.values.length = d.channels.length := by
  rw [Sample.Fits, ports, List.length_map]

theorem sample_of_fits (hs : s.Fits d.ports) :
    d.sample s.time s.values = .ok (d.record s.time s.values) := if_pos (fits_ports_iff.1 hs)

theorem sample_of_not_fits (hs : ¬ s.Fits d.ports) :
    d.sample s.time s.values = .error (.config (.sampleSize s.values.length d.ports.length)) := by
  rw [sample, if_neg (mt fits_ports_iff.2 hs), ports, List.length_map]

theorem offer_of_fits (hs : s.Fits d.ports) : d.offer s = d.record s.time s.values := by
  rw [offer, sample_of_fits hs]

theorem offer_of_not_fits (hs : ¬ s.Fits d.ports) : d.offer s = d := by
  rw [offer, sample_of_not_fits hs]

theorem lines_record (hs : s.Fits d.ports) :
    (d.record s.time s.values).lines = d.lines ++ d.chunk s := by
  unfold lines chunk
  rw [d.record_ports _ _ (fits_ports_iff.1 hs), body_record, changes_eq_zipWith, List.map_append,
    List.append_assoc]
  simp only [List.isEmpty_iff]
  rfl

end

/-- What was written stays. -/
theorem lines_offer (d : Vcd) (s : Sample) : d.lines <+: (d.offer s).lines := by
  by_cases hs : s.Fits d.ports
  · rw [offer_of_fits hs, lines_record hs]
    exact List.prefix_append _ _
  · exact (offer_of_not_fits hs).symm ▸ List.prefix_rfl

theorem lines_foldl_offer (d : Vcd) (ss : List Sample) :
    d.lines <+: (ss.foldl offer d).lines := by
  induction ss generalizing d with
  | nil => exact List.prefix_rfl
  | cons s ss ih => exact (lines_offer d s).trans (ih _)

theorem scope_offer (d : Vcd) (s : Sample) : (d.offer s).scope = d.scope := by
  by_cases hs : s.Fits d.ports
  · rw [offer_of_fits hs]
    rfl
  · rw [offer_of_not_fits hs]

theorem lines_new (scope : String) (ports : List Port) :
    (new scope ports).lines = header scope (new scope ports).ports := by
  simp [lines, body, new]

/-- A dump that has come to the end of the samples. -/
structure Follows (ports : List Port) (ss : List Sample) (d : Vcd) : Prop where
  same : d.ports = ports
  position : ∀ (n : Nat) (c : Channel), d.channels[n]? = some c → c.position = n
  last : ∀ (n : Nat) (c : Channel), d.channels[n]? = some c →
    c.last.map (·.toNat) = held? ports ss n
  replay : ∀ n, Vcd.replay d.lines (identifier n) = held? ports ss n
  stamps : d.lines.filter isStamp = (changeTimes ports ss).map fun t => (Line.time t).render

namespace Follows

variable {ports : List Port} {ss : List Sample} {s : Sample} {d : Vcd}

theorem new (scope : String) : Follows ports [] (new scope ports) where
  same := by
    simp [Vcd.new, Vcd.ports, Function.comp_def, List.zipIdx_map_fst]
  position := by
    intro n c hc
    simp only [Vcd.new, List.getElem?_map, List.getElem?_zipIdx, Option.map_eq_some_iff] at hc
    obtain ⟨x, ⟨p, -, rfl⟩, rfl⟩ := hc
    exact Nat.zero_add n
  last := by
    intro n c hc
    simp only [Vcd.new, List.getElem?_map, List.getElem?_zipIdx, Option.map_eq_some_iff] at hc
    obtain ⟨x, -, rfl⟩ := hc
    rfl
  replay := by
    intro n
    rw [lines_new, Vcd.replay, Values.readAll_of_none _ change?_header]
    rfl
  stamps := by
    rw [lines_new, List.filter_eq_nil_iff.2 (by simpa using isStamp_header)]
    rfl

theorem port (h : Follows ports ss d) {n : Nat} {c : Channel} (hc : d.channels[n]? = some c) :
    ports[n]? = some c.port := by
  rw [← h.same, Vcd.ports, List.getElem?_map, hc]
  rfl

theorem positions (h : Follows ports ss d) :
    d.channels.map (·.position) = List.range d.channels.length := by
  refine List.ext_getElem (by simp) fun n hn _ => ?_
  rw [List.length_map] at hn
  rw [List.getElem_map, List.getElem_range]
  exact h.position n _ (List.getElem?_eq_getElem hn)

theorem size (h : Follows ports ss d) : d.channels.length = ports.length := by
  rw [← h.same, Vcd.ports, List.length_map]

/-- The channel and the value at a place of a sample that is not refused. -/
theorem reading (h : Follows ports ss d) (hs : s.Fits ports) {n : Nat} {c : Channel} {w : Word}
    (hc : d.channels[n]? = some c) (hw : s.values[n]? = some w) :
    held? ports (ss ++ [s]) n = some (c.port.reading w) := by
  rw [held?_concat_of_fits hs, reading?, h.port hc, hw]

theorem exists_channel (h : Follows ports ss d) (hs : s.Fits ports) {n : Nat}
    (hn : n < ports.length) : ∃ c w, d.channels[n]? = some c ∧ s.values[n]? = some w := by
  have hc : n < d.channels.length := h.size ▸ hn
  have hw : n < s.values.length := hs ▸ hn
  exact ⟨_, _, List.getElem?_eq_getElem hc, List.getElem?_eq_getElem hw⟩

theorem changes_ne_nil_iff (h : Follows ports ss d) (hs : s.Fits ports) :
    changes d.channels s.values ≠ [] ↔ Changes ports ss s := by
  rw [Ne, changes_eq_nil_iff]
  constructor
  · intro hne
    by_contra hno
    refine hne fun x hx => ?_
    obtain ⟨n, hn⟩ := List.getElem?_of_mem hx
    obtain ⟨hc, hw⟩ := List.getElem?_zip_eq_some.1 hn
    rw [h.last n x.1 hc, ← h.reading hs hc hw]
    by_contra hdiff
    have hlt : n < ports.length := (List.getElem?_eq_some_iff.1 (h.port hc)).1
    exact hno ⟨n, hlt, fun he => hdiff he.symm⟩
  · rintro ⟨n, hn, hne⟩ hall
    obtain ⟨c, w, hc, hw⟩ := h.exists_channel hs hn
    have hx : (c, w) ∈ d.channels.zip s.values :=
      List.mem_of_getElem? (List.getElem?_zip_eq_some.2 ⟨hc, hw⟩)
    rw [h.reading hs hc hw, ← h.last n c hc] at hne
    exact hne (hall _ hx).symm

theorem replay_record (h : Follows ports ss d) (hs : s.Fits ports) (n : Nat) :
    Vcd.replay (d.record s.time s.values).lines (identifier n) = held? ports (ss ++ [s]) n := by
  have hsize : s.values.length = d.channels.length := hs.trans h.size.symm
  rw [lines_record (h.same ▸ hs), Vcd.replay, Values.readAll_append]
  have hchunk (v : Values) :
      v.readAll (d.chunk s) = v.readAll ((changes d.channels s.values).map Line.render) := by
    unfold chunk
    split
    next hnil => rw [hnil]
    next =>
      rw [List.map_cons]
      exact congrArg (Values.readAll · _) (v.read_of_none (change?_time _))
  rw [hchunk]
  refine readAll_changes (held? ports (ss ++ [s])) ?_ ?_ hsize ?_ ?_ n
  · intro c hc
    obtain ⟨k, hk⟩ := List.getElem?_of_mem hc
    rw [h.position k c hk, h.last k c hk]
    exact h.replay k
  · rw [h.positions]
    exact List.nodup_range
  · intro x hx
    obtain ⟨k, hk⟩ := List.getElem?_of_mem hx
    obtain ⟨hc, hw⟩ := List.getElem?_zip_eq_some.1 hk
    rw [h.position k x.1 hc, h.reading hs hc hw]
  · intro k hk
    rw [h.positions, List.mem_range, Nat.not_lt, ← hsize, hs] at hk
    rw [held?_concat_of_fits hs, reading?, List.getElem?_eq_none hk]
    refine .trans ?_ (h.replay k).symm
    simp [held?, reading?, List.getElem?_eq_none hk]

theorem stamps_record (h : Follows ports ss d) (hs : s.Fits ports) :
    (d.record s.time s.values).lines.filter isStamp =
      (changeTimes ports (ss ++ [s])).map fun t => (Line.time t).render := by
  rw [lines_record (h.same ▸ hs), List.filter_append, h.stamps, changeTimes_concat,
    List.map_append]
  congr 1
  have hno : ((changes d.channels s.values).map Line.render).filter isStamp = [] :=
    List.filter_eq_nil_iff.2 (by simpa using isStamp_changes)
  have htime : isStamp (Line.time s.time).render = true := (isStamp_render _).2 ⟨_, rfl⟩
  unfold chunk
  by_cases hc : Changes ports ss s
  · rw [if_neg ((h.changes_ne_nil_iff hs).2 hc), if_pos hc, List.map_cons,
      List.filter_cons_of_pos htime, hno]
    rfl
  · rw [if_pos (not_not.1 (mt (h.changes_ne_nil_iff hs).1 hc)), if_neg hc]
    rfl

theorem record (h : Follows ports ss d) (hs : s.Fits ports) :
    Follows ports (ss ++ [s]) (d.record s.time s.values) := by
  have channel (n : Nat) (c : Channel) (hc : (d.record s.time s.values).channels[n]? = some c) :
      ∃ c' w, d.channels[n]? = some c' ∧ s.values[n]? = some w ∧
        c = { c' with last := some (c'.port.shown w) } := by
    simp only [Vcd.record, List.getElem?_map, Option.map_eq_some_iff] at hc
    obtain ⟨x, hx, rfl⟩ := hc
    obtain ⟨c', w, hc', hw, rfl⟩ := List.getElem?_zipWith_eq_some.1 hx
    exact ⟨c', w, hc', hw, present_fst c' w⟩
  constructor
  case same =>
    rw [← h.same]
    exact d.record_ports _ _ (hs.trans h.size.symm)
  case position =>
    intro n c hc
    obtain ⟨c', w, hc', -, rfl⟩ := channel n c hc
    exact h.position n c' hc'
  case last =>
    intro n c hc
    obtain ⟨c', w, hc', hw, rfl⟩ := channel n c hc
    rw [h.reading hs hc' hw, ← c'.port.toNat_shown]
    rfl
  case replay => exact h.replay_record hs
  case stamps => exact h.stamps_record hs

theorem offer (h : Follows ports ss d) (s : Sample) : Follows ports (ss ++ [s]) (d.offer s) := by
  by_cases hs : s.Fits ports
  · rw [offer_of_fits (h.same ▸ hs)]
    exact h.record hs
  · rw [offer_of_not_fits (h.same ▸ hs)]
    exact {
      same := h.same
      position := h.position
      last := fun n c hc => (h.last n c hc).trans (held?_concat_of_not_fits hs n).symm
      replay := fun n => (h.replay n).trans (held?_concat_of_not_fits hs n).symm
      stamps := by
        rw [changeTimes_concat, if_neg (not_changes_of_not_fits hs), List.append_nil]
        exact h.stamps }

end Follows

/-! ## Any samples -/

theorem follows_dump (scope : String) (ports : List Port) (ss : List Sample) :
    Follows ports ss (dump scope ports ss) := by
  induction ss using List.reverseRecOn with
  | nil => exact .new scope
  | append_singleton ss s ih =>
    unfold dump at ih ⊢
    rw [List.foldl_append]
    exact ih.offer s

theorem scope_dump (scope : String) (ports : List Port) (ss : List Sample) :
    (dump scope ports ss).scope = scope := by
  induction ss using List.reverseRecOn with
  | nil => rfl
  | append_singleton ss s ih =>
    unfold dump at ih ⊢
    rw [List.foldl_append]
    exact (scope_offer _ s).trans ih

theorem lines_text_dump {scope : String} {ports : List Port} (ss : List Sample)
    (hs : '\n' ∉ scope.toList) (hp : ∀ p ∈ ports, '\n' ∉ p.name.toList) :
    Text.lines (dump scope ports ss).text = (dump scope ports ss).lines := by
  refine lines_text _ ?_ ?_
  · rwa [scope_dump]
  · rwa [(follows_dump scope ports ss).same]

theorem declaredCodes_lines (d : Vcd) :
    declaredCodes d.lines = (List.range d.ports.length).map identifier := by
  have hbody : declaredCodes (d.body.map Line.render) = [] := by
    unfold declaredCodes
    rw [List.filterMap_eq_nil_iff]
    intro l hl
    obtain ⟨line, -, rfl⟩ := List.mem_map.1 hl
    exact declaredCode?_render line
  rw [← declaredCodes_header d.scope, ← List.append_nil (declaredCodes (header _ _)), ← hbody]
  exact List.filterMap_append

/-- What the dump of samples of ports tells. -/
structure Replayable (scope : String) (ports : List Port) (ss : List Sample) : Prop where
  /-- The header declares a code for every port. -/
  codes : (declaredCodes (dump scope ports ss).lines).length = ports.length
  nodup : (declaredCodes (dump scope ports ss).lines).Nodup
  printable : ∀ code ∈ declaredCodes (dump scope ports ss).lines,
    code ≠ [] ∧ ∀ c ∈ code, '!' ≤ c ∧ c ≤ '~'
  /-- A reader knows what every port shows of the last sample that is not refused. -/
  values : ∀ n code, (declaredCodes (dump scope ports ss).lines)[n]? = some code →
    replay (dump scope ports ss).lines code = held? ports ss n
  stamps : (dump scope ports ss).lines.filter isStamp =
    (changeTimes ports ss).map fun t => "#" ++ toString t
  first : ports ≠ [] →
    (changeTimes ports ss).head? = ((ss.filter (Sample.Fits ports)).head?).map (·.time)
  /-- More samples add lines after these. -/
  grows : ∀ more, (dump scope ports ss).lines <+: (dump scope ports (ss ++ more)).lines
  accepts : ∀ s, s.Fits ports →
    (dump scope ports ss).sample s.time s.values = .ok (dump scope ports (ss ++ [s]))
  /-- A sample of another size is refused, and the dump goes on as if it had not come. -/
  refuses : ∀ s, ¬ s.Fits ports →
    (dump scope ports ss).sample s.time s.values =
        .error (.config (.sampleSize s.values.length ports.length)) ∧
      ∀ more, dump scope ports (ss ++ s :: more) = dump scope ports (ss ++ more)
  /-- The text has these lines, so that all of this is there for who reads the file. -/
  text : '\n' ∉ scope.toList → (∀ p ∈ ports, '\n' ∉ p.name.toList) →
    Text.lines (dump scope ports ss).text = (dump scope ports ss).lines

theorem dump_append (scope : String) (ports : List Port) (ss more : List Sample) :
    dump scope ports (ss ++ more) = more.foldl offer (dump scope ports ss) := List.foldl_append

theorem replayable (scope : String) (ports : List Port) (ss : List Sample) :
    Replayable scope ports ss := by
  have h := follows_dump scope ports ss
  have hcodes := declaredCodes_lines (dump scope ports ss)
  rw [h.same] at hcodes
  constructor
  case codes => simp [hcodes]
  case nodup =>
    rw [hcodes]
    exact (List.nodup_map_iff identifier_injective).2 List.nodup_range
  case printable =>
    intro code hc
    rw [hcodes] at hc
    obtain ⟨n, -, rfl⟩ := List.mem_map.1 hc
    exact ⟨identifier_ne_nil n, identifier_printable n⟩
  case values =>
    intro n code hc
    rw [hcodes, List.getElem?_map, Option.map_eq_some_iff] at hc
    obtain ⟨k, hk, rfl⟩ := hc
    obtain ⟨hn, rfl⟩ := List.getElem?_eq_some_iff.1 hk
    rw [List.getElem_range]
    exact h.replay n
  case stamps => exact h.stamps
  case first => exact head?_changeTimes
  case grows =>
    intro more
    rw [dump_append]
    exact lines_foldl_offer _ _
  case accepts =>
    intro s hs
    have hs : s.Fits (dump scope ports ss).ports := h.same.symm ▸ hs
    rw [sample_of_fits hs, dump_append]
    exact congrArg _ (offer_of_fits hs).symm
  case refuses =>
    intro s hs
    have hs : ¬ s.Fits (dump scope ports ss).ports := h.same.symm ▸ hs
    refine ⟨?_, fun more => ?_⟩
    · rw [sample_of_not_fits hs, h.same]
    · rw [dump_append, dump_append, List.foldl_cons, offer_of_not_fits hs]
  case text => exact lines_text_dump ss

example :
    (dump "top" [⟨"clk_en", 1⟩, ⟨"npc", 64⟩] [⟨0, [1, 16]⟩, ⟨1, [1, 16]⟩, ⟨2, [0, 16]⟩]).body =
      [.time 0, .scalar 0 1, .vector 1 16, .time 2, .scalar 0 0] := by
  decide

end RiscvPipeline.Vcd
