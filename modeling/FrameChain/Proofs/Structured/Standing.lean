import FrameChain.Proofs.Structured.Halting
import FrameChain.Proofs.Structured.Refinement

set_option autoImplicit false

namespace FrameChain

variable {κ ω α : Type}

/-- The spot is one of this program, and its counts are justified. -/
structure Spot.Stands (p : Program κ ω α) (s : Spot κ ω α) : Prop where
  whole : s.whole.outline = p.outline
  focus : s.focus.Justified
  levels : ∀ f ∈ s.levels, f.block.Justified

def Pace.spot? : Pace κ ω α → Option (Spot κ ω α)
  | on s | waiting s | failed _ s => some s
  | ended => none

def Pace.Stands (p : Program κ ω α) (pace : Pace κ ω α) : Prop := ∀ s ∈ pace.spot?, s.Stands p

theorem Spot.Stands.on {p : Program κ ω α} {s : Spot κ ω α} (h : s.Stands p) : (Pace.on s).Stands p := by
  rintro _ ⟨⟩
  exact h

theorem Spot.Stands.waiting {p : Program κ ω α} {s : Spot κ ω α} (h : s.Stands p) :
    (Pace.waiting s).Stands p := by
  rintro _ ⟨⟩
  exact h

namespace Spot

theorem stands_start (p : Program κ ω α) : Spot.Stands p { focus := .entering p } :=
  ⟨rfl, trivial, nofun⟩

theorem Stands.ceases [Named κ] {act : α → Caller → Script κ ω (Except Failure Unit)} {self : Caller}
    {absolute : Seconds} {name : String} {p : Program κ ω α} {s : Spot κ ω α} (h : s.Stands p)
    (ht : p.Tame) : s.Ceases act self absolute name :=
  Spot.ceases ((Program.tame_congr h.whole).mpr ht) h.focus h.levels

section Steps

variable {p before body rest : Program κ ω α} {levels : List (Level κ ω α)}

theorem stands_enter {block : Block κ ω α}
    (h : (wrap levels (before.append ((block.whole body).append rest))).outline = p.outline)
    (hb : block.Justified) (hl : ∀ f ∈ levels, f.block.Justified) :
    (enter before levels block body rest).Stands p :=
  Stands.on ⟨h, trivial, List.forall_mem_cons.mpr ⟨hb, hl⟩⟩

theorem stands_exit {f : Level κ ω α} (h : (wrap (f :: levels) body).outline = p.outline)
    (hl : ∀ f ∈ levels, f.block.Justified) : (exit levels body f).Stands p := by
  refine Stands.on ⟨?_, trivial, hl⟩
  rw [← h, whole, Focus.whole, Program.append_assoc]
  rfl

theorem stands_pause {absolute : Seconds} {seconds : Param ω Seconds} {limit since : Seconds}
    (h : (wrap levels (before.append (.interval seconds body rest))).outline = p.outline)
    (hl : ∀ f ∈ levels, f.block.Justified) :
    (pause absolute before levels seconds limit since body rest).Stands p := by
  rw [pause]
  split
  · exact stands_enter h trivial hl
  · exact Stands.waiting ⟨h, trivial, hl⟩

variable [Named κ] {act : α → Caller → Script κ ω (Except Failure Unit)} {self : Caller}
  {absolute : Seconds} {name : String} {pace : Pace κ ω α}

theorem stands_visit {e : Errand κ ω α}
    (h : (wrap levels (before.append (.simple e rest))).outline = p.outline)
    (hl : ∀ f ∈ levels, f.block.Justified)
    (hr : (visit act self absolute name before levels e rest).Answers self pace) : pace.Stands p := by
  obtain ⟨v, hv, rfl⟩ := answers_visit hr
  have hkind : v.errand.outline = e.outline := Errand.outline_eq_iff.mpr (Errand.suspends_visit hv)
  have hwhole : (wrap levels (before.append (.simple v.errand rest))).outline = p.outline := by
    rw [← h]
    refine outline_wrap ?_
    simp only [Program.outline_append, Program.outline, hkind]
  cases v with
  | finished e' =>
    refine Stands.on ⟨?_, trivial, hl⟩
    rw [whole, Focus.whole, Program.append_assoc]
    exact hwhole
  | waiting e' => exact Stands.waiting ⟨hwhole, trivial, hl⟩
  | failed f e' =>
    rintro _ ⟨⟩
    exact ⟨hwhole, trivial, hl⟩

theorem stands_close {f : Level κ ω α} (h : (wrap (f :: levels) body).outline = p.outline)
    (hf : f.block.Justified) (hl : ∀ f ∈ levels, f.block.Justified)
    (hr : (close levels body f).Answers self pace) : pace.Stands p := by
  obtain ⟨before, block, after⟩ := f
  have hexit := stands_exit h hl
  cases block with
  | repeatTimes times count =>
    cases hn : count.next with
    | none =>
      simp only [close, hn] at hr
      exact hr.eq_of_done ▸ hexit
    | some count' =>
      simp only [close, hn] at hr
      exact hr.eq_of_done ▸ Stands.on ⟨h, Count.Justified.next hf hn, hl⟩
  | doWhile holds =>
    obtain ⟨met, -, hr⟩ := Script.Answers.exists_of_bind hr
    cases met with
    | true => exact hr.eq_of_done ▸ Stands.on ⟨h, trivial, hl⟩
    | false => exact hr.eq_of_done ▸ hexit
  | interval seconds => exact hr.eq_of_done ▸ Stands.on ⟨h, trivial, hl⟩
  | ifThen holds | ifYes holds no | ifNo holds yes => exact hr.eq_of_done ▸ hexit

theorem stands_begin {q : Program κ ω α} (h : (wrap levels (before.append q)).outline = p.outline)
    (hl : ∀ f ∈ levels, f.block.Justified)
    (hr : (begin act self absolute name before levels q).Answers self pace) : pace.Stands p := by
  cases q with
  | done =>
    cases levels with
    | nil =>
      rw [hr.eq_of_done]
      rintro _ ⟨⟩
    | cons f outer =>
      rw [Program.append_done] at h
      obtain ⟨hf, houter⟩ := List.forall_mem_cons.mp hl
      exact stands_close h hf houter hr
  | simple e rest =>
    refine stands_visit ?_ hl hr
    rw [← h]
    refine outline_wrap ?_
    simp only [Program.outline_append, Program.outline,
      Errand.outline_eq_iff.mpr (Errand.suspends_fresh e)]
  | repeatTimes times body rest =>
    obtain ⟨n, hn, hr⟩ := Script.Answers.exists_of_bind hr
    exact hr.eq_of_done ▸ stands_enter h (Count.justified_of (Param.mayBe_of_answers hn)) hl
  | doWhile holds body rest => exact hr.eq_of_done ▸ stands_enter h trivial hl
  | interval seconds body rest =>
    obtain ⟨limit, -, hr⟩ := Script.Answers.exists_of_bind hr
    exact hr.eq_of_done ▸ stands_pause h hl
  | ifThen holds yes rest =>
    obtain ⟨met, -, hr⟩ := Script.Answers.exists_of_bind hr
    cases met with
    | true => exact hr.eq_of_done ▸ stands_enter h trivial hl
    | false =>
      refine hr.eq_of_done ▸ Stands.on ⟨?_, trivial, hl⟩
      rw [whole, Focus.whole, Program.append_assoc]
      exact h
  | ifElse holds yes no rest =>
    obtain ⟨met, -, hr⟩ := Script.Answers.exists_of_bind hr
    cases met with
    | true => exact hr.eq_of_done ▸ stands_enter h trivial hl
    | false => exact hr.eq_of_done ▸ stands_enter h trivial hl

/-- The step: the interpreter stays in its program. -/
theorem Stands.step {s : Spot κ ω α} (h : s.Stands p)
    (hr : (s.step act self absolute name).Answers self pace) : pace.Stands p := by
  obtain ⟨before, focus, levels⟩ := s
  obtain ⟨hwhole, hfocus, hl⟩ := h
  cases focus with
  | entering q => exact stands_begin hwhole hl hr
  | within e rest => exact stands_visit hwhole hl hr
  | returning times count body rest => exact hr.eq_of_done ▸ stands_enter hwhole hfocus hl
  | pausing seconds limit since body rest => exact hr.eq_of_done ▸ stands_pause hwhole hl

omit [Named κ] in
theorem Stands.notice {s : Spot κ ω α} (h : s.Stands p) (m : Message) :
    Stands p { s with focus := s.focus.notice m } := by
  obtain ⟨before, focus, levels⟩ := s
  cases hkey : focus.key? with
  | none =>
    rw [Focus.notice_of_silent m hkey]
    exact h
  | some key =>
    obtain ⟨condition, arrived, rest, rfl⟩ := Focus.eq_of_key hkey
    refine ⟨?_, trivial, h.levels⟩
    rw [← h.whole]
    refine outline_wrap ?_
    rw [Program.outline_append, Program.outline_append]
    rfl

end Steps

end Spot

end FrameChain
