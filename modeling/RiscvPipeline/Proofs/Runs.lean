import Mathlib.Data.List.Induction
import RiscvPipeline.Clocked

/-!
# Runs of a component

A clocked component on its own, with inputs that come from anywhere. With reset low a run is told by
its moments, each with the state at its start and the inputs; `Clocked.since_induction` is the
induction for what follows a certain moment. On a bench the component is evaluated, clocked and
reset in any order, and `Clocked.bench_induction` is the induction for its states.
-/

namespace RiscvPipeline

/-- A cycle with reset low: the state before it, and the inputs. -/
structure Moment (σ ι : Type) where
  state : σ
  input : ι

section

variable {σ ι β : Type} {f : Moment σ ι → Option β} {ts : List (Moment σ ι)}

theorem filterMap_concat {α : Type} {f : α → Option β} {l : List α} {a : α} :
    (l ++ [a]).filterMap f = l.filterMap f ++ (f a).toList := by
  rw [List.filterMap_append]
  cases h : f a <;> simp [h]

/-- What some cycles of a run show, with the numbers of these cycles. -/
def numbered (f : Moment σ ι → Option β) (ts : List (Moment σ ι)) : List (Nat × β) :=
  ts.zipIdx.filterMap fun t => (f t.1).map (t.2, ·)

theorem numbered_concat (t : Moment σ ι) :
    numbered f (ts ++ [t]) = numbered f ts ++ ((f t).map (ts.length, ·)).toList := by
  unfold numbered
  rw [List.zipIdx_append, List.filterMap_append]
  cases h : f t <;> simp [h]

theorem lt_of_mem_numbered {p : Nat × β} (h : p ∈ numbered f ts) : p.1 < ts.length := by
  obtain ⟨⟨t, n⟩, ht, hp⟩ := List.mem_filterMap.1 h
  obtain ⟨b, -, rfl⟩ := Option.map_eq_some_iff.1 hp
  simpa using List.snd_lt_of_mem_zipIdx ht

end

namespace Clocked

variable {σ ι ο π : Type} (m : Clocked σ ι ο π)

/-! ## With reset low -/

/-- The state after a run. -/
def after (s : σ) (is : List ι) : σ := is.foldl (m.next false) s

/-- The cycles of a run. -/
def moments (s : σ) : List ι → List (Moment σ ι)
  | [] => []
  | i :: is => ⟨s, i⟩ :: moments (m.next false s i) is

variable {m} {s : σ}

theorem after_concat (is : List ι) (i : ι) :
    m.after s (is ++ [i]) = m.next false (m.after s is) i := by
  simp [after]

theorem moments_concat (is : List ι) (i : ι) :
    m.moments s (is ++ [i]) = m.moments s is ++ [⟨m.after s is, i⟩] := by
  induction is generalizing s with
  | nil => rfl
  | cons j is ih => exact congrArg (⟨s, j⟩ :: ·) ih

theorem length_moments (is : List ι) : (m.moments s is).length = is.length := by
  induction is generalizing s with
  | nil => rfl
  | cons i is ih => exact congrArg (· + 1) ih

theorem input_of_mem_moments {is : List ι} {t : Moment σ ι} (h : t ∈ m.moments s is) :
    t.input ∈ is := by
  induction is generalizing s with
  | nil => cases h
  | cons i is ih =>
    rcases List.mem_cons.1 h with rfl | h
    · exact List.mem_cons_self
    · exact List.mem_cons_of_mem _ (ih h)

/-- The first cycles of a run are a run, and the next one starts where it ends. -/
theorem of_moments_append {is : List ι} {before rest : List (Moment σ ι)}
    (h : m.moments s is = before ++ rest) :
    ∃ js, m.moments s js = before ∧ ∀ t ∈ rest.head?, t.state = m.after s js := by
  induction before generalizing s is with
  | nil =>
    refine ⟨[], rfl, ?_⟩
    cases is with
    | nil =>
      obtain rfl : [] = rest := h
      simp
    | cons i is =>
      obtain rfl : _ = rest := h
      rintro t ⟨⟩
      rfl
  | cons u before ih =>
    cases is with
    | nil => cases h
    | cons i is =>
      obtain ⟨rfl, hrest⟩ := List.cons.inj h
      obtain ⟨js, hjs, hs⟩ := ih hrest
      exact ⟨i :: js, by rw [moments, hjs], hs⟩

theorem state_of_consecutive {is : List ι} {before rest : List (Moment σ ι)} {t u : Moment σ ι}
    (h : m.moments s is = before ++ t :: u :: rest) : u.state = m.next false t.state t.input := by
  rw [← List.singleton_append, ← List.append_assoc] at h
  obtain ⟨js, hjs, hu⟩ := of_moments_append h
  rw [hu u rfl]
  rcases List.eq_nil_or_concat js with rfl | ⟨ks, k, rfl⟩
  · cases before <;> cases hjs
  · rw [List.concat_eq_append] at hjs ⊢
    rw [moments_concat] at hjs
    obtain ⟨-, ht⟩ := List.append_inj' hjs rfl
    rw [after_concat, ← List.singleton_inj.1 ht]

/-- What every cycle keeps holds at all moments and at the end. -/
theorem moments_induction {I : σ → Prop} (hstep : ∀ x i, I x → I (m.next false x i)) (hs : I s)
    (is : List ι) : I (m.after s is) ∧ ∀ t ∈ m.moments s is, I t.state := by
  induction is generalizing s with
  | nil => exact ⟨hs, by simp [moments]⟩
  | cons i is ih =>
    obtain ⟨hend, hall⟩ := ih (hstep s i hs)
    refine ⟨hend, fun t ht => ?_⟩
    rcases List.mem_cons.1 ht with rfl | ht
    · exact hs
    · exact hall t ht

/-- What a moment that starts something establishes, and later ones keep, holds for as long as all
moments since then are of that kind. -/
theorem since_induction {I : σ → Prop} {S Q : Moment σ ι → Prop}
    {P : Moment σ ι → List (Moment σ ι) → σ → Prop}
    (hI : ∀ x i, I x → I (m.next false x i))
    (hstart : ∀ x i, I x → S ⟨x, i⟩ → P ⟨x, i⟩ [] (m.next false x i))
    (hcycle : ∀ t ts x i, I x → Q ⟨x, i⟩ → P t ts x → P t (ts ++ [⟨x, i⟩]) (m.next false x i))
    (hs : I s) {is : List ι} {before later : List (Moment σ ι)} {t : Moment σ ι}
    (h : m.moments s is = before ++ t :: later) (ht : S t) (hq : ∀ u ∈ later, Q u) :
    P t later (m.after s is) := by
  induction is using List.reverseRecOn generalizing later with
  | nil => cases before <;> cases h
  | append_singleton is i ih =>
    have hx := (moments_induction hI hs is).1
    rw [moments_concat] at h
    rw [after_concat]
    rcases List.eq_nil_or_concat later with rfl | ⟨us, u, rfl⟩
    · obtain ⟨-, rfl⟩ := List.append_inj' h rfl |>.imp_right List.singleton_inj.mp
      exact hstart _ _ hx ht
    · rw [List.concat_eq_append] at h hq ⊢
      rw [← List.cons_append, ← List.append_assoc] at h
      obtain ⟨hus, rfl⟩ := List.append_inj' h rfl |>.imp_right List.singleton_inj.mp
      exact hcycle _ _ _ _ hx (hq _ (by simp))
        (ih hus fun v hv => hq v (List.mem_append_left _ hv))

/-! ## On a bench -/

/-- What may be done to a component on a bench. -/
inductive Event (ι : Type)
  | evaluate (i : ι)
  /-- A clock edge, with the reset line at a level. -/
  | clock (reset : Bool)
  /-- An immediate reset. -/
  | reset

variable (m) in
/-- The component after an event. -/
def apply (b : Bench σ π) : Event ι → Bench σ π
  | .evaluate i => m.evaluate b i
  | .clock reset => m.clock reset b
  | .reset => m.resetNow b

variable (m s) in
/-- A component on which nothing has been evaluated, after some events. -/
def bench (es : List (Event ι)) : Bench σ π := es.foldl m.apply (m.start s)

/-- What clock edges and resets keep holds on a bench. A proposal is that of some evaluation, or to
stay as it is. -/
theorem bench_induction {I : σ → Prop} (hhold : ∀ x, m.edge x (m.hold x) = x)
    (hstep : ∀ x i, I x → I (m.next false x i)) (hreset : ∀ x, I x → I (m.reset x)) (hs : I s)
    (es : List (Event ι)) : I (m.bench s es).state := by
  have hstart (x : σ) (hx : I x) : I (m.start x).state ∧
      I (m.edge (m.start x).state (m.start x).pending) := by
    refine ⟨hx, ?_⟩
    show I (m.edge x (m.hold x))
    rwa [hhold]
  suffices h : I (m.bench s es).state ∧ I (m.edge (m.bench s es).state (m.bench s es).pending) from
    h.1
  induction es using List.reverseRecOn with
  | nil => exact hstart s hs
  | append_singleton es e ih =>
    obtain ⟨hb, hp⟩ := ih
    unfold bench
    rw [List.foldl_append]
    show I (m.apply (m.bench s es) e).state ∧ _
    cases e with
    | evaluate i => exact ⟨hb, hstep _ i hb⟩
    | clock reset =>
      cases reset with
      | false => exact hstart _ hp
      | true => exact hstart _ (hreset _ hb)
    | reset => exact hstart _ (hreset _ hb)

end Clocked

end RiscvPipeline
