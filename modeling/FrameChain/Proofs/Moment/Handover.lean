import FrameChain.Proofs.Delivery
import FrameChain.Proofs.Moment.Periods
import FrameChain.Proofs.Retirement

set_option autoImplicit false

namespace FrameChain

variable {κ ω : Type}

/-! ## Newcomers -/

theorem Move.batch_subset {s : Scene κ} {p p' : Phase κ} (h : Move s p p') : p'.batch ⊆ p.batch := by
  cases h with
  | passOver => exact List.subset_cons_self _ _
  | _ => exact List.Subset.refl _

theorem Act.batch_subset {s s' : Scene κ} {p p' : Phase κ} {marks : Journal κ} (h : Act s p p' s' marks)
    (hp : p ≠ .idle) : p'.batch ⊆ p.batch := by
  cases h with
  | begin => exact absurd rfl hp
  | start => exact List.subset_cons_self _ _
  | _ => exact List.Subset.refl _

theorem Act.not_mem_called {s s' : Scene κ} {p p' : Phase κ} {marks : Journal κ}
    (h : Act s p p' s' marks) (callback : Callback) (self : Caller) (u : Scene κ) :
    Mark.called callback self u ∉ marks := by
  intro hmem
  cases h with
  | take | serve | pass => cases List.mem_singleton.mp hmem
  | _ => cases hmem

/-- Since the scene and the journal were these, nobody was called or marked as initialized who was not issued
by then, and nobody else is to be. -/
structure Moment.Bars (s₀ : Scene κ) (j₀ : Journal κ) (m : Moment κ) : Prop where
  seen : ∀ id t, m.scene.slot? id = some t → t.initialized = true → id.val ≤ s₀.componentsIssued
  batch : ∀ id ∈ m.phase.batch, id.val ≤ s₀.componentsIssued
  called : ∃ marks, m.journal = j₀ ++ marks ∧ ∀ callback self s, .called callback self s ∈ marks →
    s₀.wasIssued self.component = true

namespace Moment.Bars

variable {s₀ s s' : Scene κ} {j₀ j marks : Journal κ} {p p' : Phase κ} {m m' : Moment κ}

theorem seen_of_unmarked (h : m.Bars s₀ j₀) (hu : m.scene.Unmarked s') {id : ComponentId} {t : Slot κ}
    (ht : s'.slot? id = some t) (hi : t.initialized = true) : id.val ≤ s₀.componentsIssued := by
  obtain ⟨u, hslot, hseen, -⟩ := hu id t ht hi
  exact h.seen id u hslot hseen

theorem called_quiet (h : m.Bars s₀ j₀) (hm : ∀ callback self s, .called callback self s ∉ marks) :
    ∃ more, m.journal ++ marks = j₀ ++ more ∧ ∀ callback self s, .called callback self s ∈ more →
      s₀.wasIssued self.component = true := by
  obtain ⟨more, hj, hcalled⟩ := h.called
  refine ⟨more ++ marks, by rw [hj, List.append_assoc], fun callback self s hmem => ?_⟩
  exact (List.mem_append.mp hmem).elim (hcalled callback self s) fun hnew =>
    absurd hnew (hm callback self s)

theorem act (h : (⟨p, none, s, j⟩ : Moment κ).Bars s₀ j₀) (hp : p ≠ .idle) (ha : Act s p p' s' marks) :
    (⟨p', none, s', j ++ marks⟩ : Moment κ).Bars s₀ j₀ := by
  refine ⟨fun id t ht hi => ?_, fun id hid => h.batch id (ha.batch_subset hp hid),
    h.called_quiet ha.not_mem_called⟩
  rcases ha.unmarked with hunmarked | ⟨x, batch, rfl, rfl, rfl⟩
  · exact h.seen_of_unmarked hunmarked ht hi
  · rcases Scene.slot?_of_marked ht with rfl | hsame
    · exact h.batch id List.mem_cons_self
    · exact h.seen id t hsame hi

end Moment.Bars

variable [Named κ]

theorem steady_bars (s₀ : Scene κ) (j₀ : Journal κ) : Steady (· ≠ .idle) (Moment.Bars s₀ j₀) := by
  intro past m m' hcourse hp _ h ho
  have hsound := hcourse.sound
  cases ho with
  | hosted => exact absurd rfl hp
  | move hmove => exact ⟨h.seen, fun id hid => h.batch id (hmove.batch_subset hid), h.called⟩
  | act ha => exact h.act hp ha
  | @call p callback id s j slot hdue hslot =>
    obtain ⟨t, ht, hi⟩ := hcourse.marked.callee hcourse.timed rfl hdue
    obtain ⟨marks, hj, hcalled⟩ := h.called
    change j = j₀ ++ marks at hj
    refine ⟨fun x u hu => h.seen_of_unmarked (Scene.Continues.takeOut id).unmarked hu, h.batch,
      marks ++ [.called callback ⟨slot.owner, id⟩ (s.takeOut id)], by rw [hj, List.append_assoc],
      fun callback' self s' hmem => ?_⟩
    rcases List.mem_append.mp hmem with hmem | hmem
    · exact hcalled callback' self s' hmem
    · cases List.mem_singleton.mp hmem
      have hissued := Scene.wasIssued_of_slot hsound.scene.registered ht
      exact Scene.wasIssued_iff.mpr ⟨(Scene.wasIssued_iff.mp hissued).1, h.seen id t ht hi⟩
  | @ask p self s j r =>
    have hchange := Scene.change_answer s self r
    refine ⟨fun x u hu => h.seen_of_unmarked (Scene.Continues.change hchange).unmarked hu, h.batch,
      h.called_quiet fun _ _ _ hmem => ?_⟩
    cases List.mem_singleton.mp hmem
  | @back p self s j component =>
    refine ⟨fun x u hu => h.seen_of_unmarked (Scene.Continues.putBack self.component component).unmarked hu,
      fun id hid => h.batch id ?_, h.called⟩
    exact Phase.batch_next p ▸ hid

namespace Period

variable {b : Behaviour κ ω} {fuel : Nat} {delta absolute : Seconds} {σ : Setting κ (ω × Journal κ)}

theorem issued_of_called (hσ : Path ⟨.idle, none, {}, []⟩ ⟨.idle, none, σ.scene, σ.world.2⟩)
    {period : Period} {callback : Callback} {self : Caller} {s : Scene κ}
    (hmem : .called callback self s ∈ noted b fuel delta absolute σ period) :
    σ.scene.wasIssued self.component = true := by
  obtain ⟨past, hcourse⟩ := Course.of_path hσ
  have hfirst : Moment.Bars σ.scene σ.world.2 (attaching.first delta absolute σ) := by
    refine ⟨fun id t ht _ => ?_, fun id hid => hcourse.inLine.issued id (List.mem_append_right _ hid),
      [], (List.append_nil _).symm, fun _ _ _ h => absurd h List.not_mem_nil⟩
    have hslot : σ.scene.slot? id = some t := ht
    exact (Scene.wasIssued_iff.mp (Scene.wasIssued_of_slot hcourse.sound.scene.registered hslot)).2
  have hmarks (marks : Journal κ)
      (hj : (closing b fuel delta absolute σ retiring).2.world.2 = σ.world.2 ++ marks) :
      .called callback self s ∈ marks := by
    rw [journal_closing hσ] at hj
    rw [← List.append_cancel_left hj]
    exact List.mem_flatMap.mpr ⟨period, by cases period <;> decide, hmem⟩
  have hends : Turn.Ends _ _ (closing b fuel delta absolute σ retiring) :=
    ends_through (steady_bars σ.scene σ.world.2) hσ hfirst retiring
  cases hc : closing b fuel delta absolute σ retiring with
  | mk answer σ' =>
    rw [hc] at hends hmarks
    cases answer with
    | ok u =>
      obtain ⟨marks, hj, hcalled⟩ := hends.1.holds.called
      exact hcalled callback self s (hmarks marks hj)
    | error halt =>
      cases hends with
      | @failed _ p caller u j w component h =>
        obtain ⟨marks, hj, hcalled⟩ := h.holds.called
        change j = σ.world.2 ++ marks at hj
        have hnew := hmarks (marks ++ p.losses) (by rw [hj, List.append_assoc])
        refine hcalled callback self s ((List.mem_append.mp hnew).resolve_right fun hloss => ?_)
        cases p with
        | ending | removing => cases List.mem_singleton.mp hloss
        | _ => cases hloss
      | crashed h =>
        obtain ⟨marks, hj, hcalled⟩ := h.holds.called
        exact hcalled callback self s (hmarks marks hj)

end Period

/-! ## Mail -/

/-- Nothing waits to be delivered but what was sent since the journal was this. -/
def Moment.Posts (j₀ : Journal κ) (m : Moment κ) : Prop :=
  ∃ marks, m.journal = j₀ ++ marks ∧ m.scene.mail = (none, marks.sent)

theorem steady_posts {period : Period} (hearly : period ≠ .delivering) (hlate : period ≠ .redelivering)
    (j₀ : Journal κ) : Steady (fun p => p.period? = some period) (Moment.Posts j₀) := by
  intro past m m' _ hp _ ⟨marks, hj, hmail⟩ ho
  have hkeeps (s : Scene κ) (more : Journal κ) (hnone : more.sent = []) (hsame : s.mail = m.scene.mail) :
      ∃ marks, m.journal ++ more = j₀ ++ marks ∧ s.mail = (none, marks.sent) := by
    refine ⟨marks ++ more, by rw [hj, List.append_assoc], ?_⟩
    rw [Journal.sent_append, hnone, List.append_nil, hsame]
    exact hmail
  cases ho with
  | hosted => cases hp
  | move => exact ⟨marks, hj, hmail⟩
  | @act p p' s s' j more ha =>
    cases ha with
    | @resume late | @take late | @serve late | @pass late =>
      cases late
      · exact absurd (Option.some.inj hp).symm hearly
      · exact absurd (Option.some.inj hp).symm hlate
    | round => exact hkeeps _ [] rfl s.mail_detachDoomed
    | @clear doomed => exact hkeeps _ [] rfl (s.mail_clear doomed)
    | _ => exact hkeeps _ [] rfl rfl
  | call => exact hkeeps _ _ rfl rfl
  | @ask p self s j r =>
    refine ⟨marks ++ [.asked self s r (r.answer self s).1], by rw [← List.append_assoc, ← hj], ?_⟩
    obtain ⟨hinterrupted, hqueue⟩ := Prod.mk.inj hmail
    have hsent : Journal.sent [Mark.asked self s r (r.answer self s).1] =
        (Mark.asked self s r (r.answer self s).1).sent?.toList := by
      rw [Journal.sent, List.filterMap_cons]
      cases (Mark.asked self s r (r.answer self s).1).sent? <;> rfl
    rw [s.mail_answer self r, Journal.sent_append, hsent]
    exact Prod.ext hinterrupted (congrArg (· ++ _) hqueue)
  | back => exact ⟨marks, hj, hmail⟩

omit [Named κ] in
theorem Phase.delivery?_of_period {p : Phase κ} {period : Period} (hp : p.period? = some period)
    (hearly : period ≠ .delivering) (hlate : period ≠ .redelivering) : p.delivery? = none := by
  cases p with
  | serving late | reaching late =>
    cases late
    · exact absurd (Option.some.inj hp).symm hearly
    · exact absurd (Option.some.inj hp).symm hlate
  | _ => rfl

namespace Journal

section Numbers

omit [Named κ]

variable {τ : Type} {f : Nat → Mark κ → List (Nat × τ)}

theorem collect_add
    (hf : ∀ n k mark, f (n + k) mark = (f k mark).map fun x => (n + x.1, x.2)) (n k : Nat)
    (j : Journal κ) : collect f (n + k) j = (collect f k j).map fun x => (n + x.1, x.2) := by
  induction j generalizing k with
  | nil => rfl
  | cons mark rest ih => simp only [collect, hf, Nat.add_assoc, ih, List.map_append]

theorem turns_add (n k : Nat) (d : Delivery) :
    d.turns (n + k) = (d.turns k).map fun x => (n + x.1, x.2) := by
  simp only [Delivery.turns, List.map_map, Function.comp_def]

theorem owed_add (n k : Nat) (mark : Mark κ) :
    mark.owed (n + k) = (mark.owed k).map fun x => (n + x.1, x.2) := by
  cases mark with
  | taken s d => exact turns_add n (k + 1) d
  | _ => rfl

theorem turn_add (n k : Nat) (mark : Mark κ) :
    mark.turn (n + k) = (mark.turn k).map fun x => (n + x.1, x.2) := by
  cases mark <;> rfl

theorem serve_add (n k : Nat) (mark : Mark κ) :
    mark.serve (n + k) = (mark.serve k).map fun x => (n + x.1, x.2) := by
  cases mark <;> rfl

theorem delivery_add (n k : Nat) (mark : Mark κ) :
    mark.delivery (n + k) = (mark.delivery k).map fun x => (n + x.1, x.2) := by
  cases mark with
  | called callback self s => cases callback <;> rfl
  | _ => rfl

theorem map_add_inj {n : Nat} {xs ys : List (Nat × τ)}
    (h : (xs.map fun x => (n + x.1, x.2)) = ys.map fun x => (n + x.1, x.2)) : xs = ys := by
  refine List.map_injective_iff.mpr (fun x y hxy => ?_) h
  obtain ⟨hnumber, hrest⟩ := Prod.mk.inj hxy
  exact Prod.ext (Nat.add_left_cancel hnumber) hrest

end Numbers

end Journal

namespace Moment.Faithful

variable {m m' : Moment κ} {marks : Journal κ}

omit [Named κ]

/-- Of messages taken off in between, everybody has had their turn but for those of the one that is left. -/
theorem turns_since (h : m.Faithful) (h' : m'.Faithful) (hleft : m.left = none)
    (hj : m'.journal = m.journal ++ marks) :
    marks.owed = marks.turns ++ m'.left.toList.flatMap (Delivery.turns marks.taken.length) := by
  have hbefore : m.journal.owed = m.journal.turns := by
    rw [h.turns, hleft, Option.toList_none, List.flatMap_nil, List.append_nil]
  have hafter := h'.turns
  let n := m.journal.taken.length
  have howed : m'.journal.owed = m.journal.owed ++ marks.owed.map fun x => (n + x.1, x.2) := by
    rw [hj, Journal.owed, Journal.collect_append, Nat.zero_add]
    exact congrArg (_ ++ ·) (Journal.collect_add Journal.owed_add n 0 marks)
  have hturns : m'.journal.turns = m.journal.turns ++ marks.turns.map fun x => (n + x.1, x.2) := by
    rw [hj, Journal.turns, Journal.collect_append, Nat.zero_add]
    exact congrArg (_ ++ ·) (Journal.collect_add Journal.turn_add n 0 marks)
  have hrest : m'.left.toList.flatMap (Delivery.turns m'.journal.taken.length) =
      (m'.left.toList.flatMap (Delivery.turns marks.taken.length)).map fun x => (n + x.1, x.2) := by
    rw [hj, Journal.taken_append, List.length_append, List.map_flatMap]
    exact congrArg (List.flatMap · _) (funext (Journal.turns_add n _))
  rw [howed, hturns, hrest, hbefore, List.append_assoc, ← List.map_append] at hafter
  exact Journal.map_add_inj (List.append_cancel_left hafter)

theorem deliveries_since (h : m.Faithful) (h' : m'.Faithful) (hm : m.pending = none)
    (hm' : m'.pending = none) (hj : m'.journal = m.journal ++ marks) :
    marks.deliveries = marks.serves.map fun turn => (turn.1, turn.2.1, turn.2.2.component) := by
  have hbefore := h.deliveries
  have hafter := h'.deliveries
  rw [hm, Option.toList_none, List.map_nil, List.append_nil] at hbefore
  rw [hm', Option.toList_none, List.map_nil, List.append_nil] at hafter
  let n := m.journal.taken.length
  have hserves : m'.journal.serves = m.journal.serves ++ marks.serves.map fun x => (n + x.1, x.2) := by
    rw [hj, Journal.serves, Journal.collect_append, Nat.zero_add]
    exact congrArg (_ ++ ·) (Journal.collect_add Journal.serve_add n 0 marks)
  have hdeliveries : m'.journal.deliveries =
      m.journal.deliveries ++ marks.deliveries.map fun x => (n + x.1, x.2) := by
    rw [hj, Journal.deliveries, Journal.collect_append, Nat.zero_add]
    exact congrArg (_ ++ ·) (Journal.collect_add Journal.delivery_add n 0 marks)
  rw [hserves, hdeliveries, List.map_append, hbefore, List.map_map] at hafter
  have hsame := List.append_cancel_left hafter
  refine Journal.map_add_inj (n := n) ?_
  rw [← hsame, List.map_map]
  rfl

/-- What waits now was sent since then or waited before, and is not taken yet. -/
theorem fifo_since (h : m.Faithful) (h' : m'.Faithful) (hj : m'.journal = m.journal ++ marks) :
    m.scene.bus.queue ++ marks.sent = marks.taken.map (·.message) ++ m'.scene.bus.queue := by
  have hafter := h'.fifo
  rw [hj, Journal.sent_append, Journal.taken_append, h.fifo, List.map_append, List.append_assoc,
    List.append_assoc] at hafter
  exact List.append_cancel_left hafter

end Moment.Faithful

namespace Period

variable {b : Behaviour κ ω} {fuel : Nat} {delta absolute : Seconds} {σ σ₁ : Setting κ (ω × Journal κ)}
  {period : Period}

theorem mail_closing (hσ : Path ⟨.idle, none, {}, []⟩ ⟨.idle, none, σ.scene, σ.world.2⟩)
    (hearly : period ≠ .delivering) (hlate : period ≠ .redelivering)
    (ho : opening b fuel delta absolute σ period = (.ok (), σ₁)) (hmail : σ₁.scene.mail = (none, [])) :
    (closing b fuel delta absolute σ period).2.scene.mail =
      (none, (noted b fuel delta absolute σ period).sent) := by
  have hopened : (period.opened absolute σ₁.scene).mail = (none, []) := by
    cases period <;> exact hmail
  have hends := ends_closing ho (opens hσ ho) (steady_posts hearly hlate σ₁.world.2)
    ⟨[], (List.append_nil _).symm, hopened⟩
  have hnoted (marks : Journal κ)
      (hj : (closing b fuel delta absolute σ period).2.world.2 = σ₁.world.2 ++ marks) :
      noted b fuel delta absolute σ period = marks := by
    refine noted_of_append ?_
    rw [ho]
    exact hj
  cases hc : closing b fuel delta absolute σ period with
  | mk answer σ₂ =>
    rw [hc] at hends hnoted
    cases answer with
    | ok u =>
      obtain ⟨marks, hj, hmail⟩ := hends.1.holds
      rw [hnoted marks hj]
      exact hmail
    | error halt =>
      cases hends with
      | @failed _ p self s j w component h =>
        obtain ⟨marks, hj, hmail⟩ := h.holds
        change j = σ₁.world.2 ++ marks at hj
        have hlosses : Journal.sent (p.losses : Journal κ) = [] := by cases p <;> rfl
        rw [hnoted (marks ++ p.losses) (by rw [hj, List.append_assoc]), Journal.sent_append, hlosses,
          List.append_nil]
        obtain ⟨callback, hdue⟩ := (Moment.Sound.empty.along h.path).due self rfl
        obtain ⟨hqueue, hinterrupted⟩ :=
          Moment.Faithful.recover hdue (s.putBack self.component component)
        rw [Phase.delivery?_of_period h.kind hearly hlate] at hinterrupted
        exact (Prod.ext hinterrupted hqueue).trans hmail
      | crashed h =>
        obtain ⟨marks, hj, hmail⟩ := h.holds
        rw [hnoted marks hj]
        exact hmail

omit [Named κ] in
theorem mail_of_done {s : Scene κ} (h : delivering.Done s) : s.mail = (none, []) := by
  obtain ⟨hinterrupted, hqueue⟩ := s.nextDelivery?_eq_none_iff.mp h
  exact Prod.ext hinterrupted hqueue

theorem mail_updating (hσ : Path ⟨.idle, none, {}, []⟩ ⟨.idle, none, σ.scene, σ.world.2⟩)
    (ho : opening b fuel delta absolute σ updating = (.ok (), σ₁)) : σ₁.scene.mail = (none, []) := by
  have hdone : delivering.Done σ₁.scene := done_of_opening hσ rfl ho
  exact mail_of_done hdone

theorem mail_redelivering (hσ : Path ⟨.idle, none, {}, []⟩ ⟨.idle, none, σ.scene, σ.world.2⟩)
    (ho : opening b fuel delta absolute σ redelivering = (.ok (), σ₁)) :
    σ₁.scene.mail = (none, (noted b fuel delta absolute σ updating).sent) := by
  obtain ⟨hclosed, σ₀, hupdating⟩ := exists_opening (rfl : updating.next? = some redelivering) ho
  have hmail : (closing b fuel delta absolute σ updating).2.scene.mail = _ :=
    mail_closing hσ nofun nofun hupdating (mail_updating hσ hupdating)
  rwa [hclosed] at hmail

theorem mail_retiring (hσ : Path ⟨.idle, none, {}, []⟩ ⟨.idle, none, σ.scene, σ.world.2⟩)
    (ho : opening b fuel delta absolute σ retiring = (.ok (), σ₁)) :
    (closing b fuel delta absolute σ retiring).2.scene.mail =
      (none, (noted b fuel delta absolute σ retiring).sent) := by
  have hdone : redelivering.Done σ₁.scene := done_of_opening hσ rfl ho
  exact mail_closing hσ nofun nofun ho (mail_of_done hdone)

/-- What was sent while components were updated is delivered in the period after that, before what is sent
in that period. When it ends well, all of it has been. -/
theorem closing_redelivering (hσ : Path ⟨.idle, none, {}, []⟩ ⟨.idle, none, σ.scene, σ.world.2⟩)
    (ho : opening b fuel delta absolute σ redelivering = (.ok (), σ₁)) :
    let marks := noted b fuel delta absolute σ redelivering
    let last := closing b fuel delta absolute σ redelivering
    (noted b fuel delta absolute σ updating).sent ++ marks.sent =
      marks.taken.map (·.message) ++ last.2.scene.bus.queue ∧
    (∃ left : Option Delivery,
      marks.owed = marks.turns ++ left.toList.flatMap (Delivery.turns marks.taken.length)) ∧
    (last.1 = .ok () → last.2.scene.bus.queue = [] ∧ marks.owed = marks.turns ∧
      marks.deliveries = marks.serves.map fun turn => (turn.1, turn.2.1, turn.2.2.component)) := by
  intro marks last
  have hpath := opens hσ ho
  have hfirst : (redelivering.first delta absolute σ₁).Faithful :=
    Moment.Faithful.empty.along .empty hpath
  obtain ⟨hinterrupted, hqueue⟩ := Prod.mk.inj (mail_redelivering hσ ho)
  have hjournal : last.2.world.2 = σ₁.world.2 ++ marks := by
    have hj : last.2.world.2 = _ ++ marks := (closing_journal hσ redelivering).1
    rwa [ho] at hj
  obtain ⟨p, calling, hreached⟩ := path_closing hσ redelivering
  have hlast : (⟨p, calling, last.2.scene, last.2.world.2⟩ : Moment κ).Faithful :=
    Moment.Faithful.empty.along .empty hreached
  have hfifo := hfirst.fifo_since hlast hjournal
  change σ₁.scene.bus.queue ++ marks.sent = _ at hfifo
  rw [hqueue] at hfifo
  refine ⟨hfifo, ⟨_, hfirst.turns_since hlast hinterrupted hjournal⟩, fun hok => ?_⟩
  have hends : Turn.Ends _ _ last := ends_through (P := fun _ => True) steady_true hσ trivial redelivering
  cases hc : last with
  | mk answer σ₂ =>
    rw [hc] at hends hok hjournal
    cases hok
    obtain ⟨hend, hdone⟩ := hends
    have hended : (redelivering.last delta absolute σ₂).Faithful :=
      Moment.Faithful.empty.along .empty hend.path
    obtain ⟨hnothing, hempty⟩ := Prod.mk.inj (mail_of_done hdone)
    have hturns := hfirst.turns_since hended hinterrupted hjournal
    have hleft : (redelivering.last delta absolute σ₂).left = none := hnothing
    rw [hleft, Option.toList_none, List.flatMap_nil, List.append_nil] at hturns
    exact ⟨hempty, hturns, hfirst.deliveries_since hended rfl rfl hjournal⟩

end Period

/-! ## Retirement -/

section Hooks

omit [Named κ]

variable {id : ComponentId} {j marks : Journal κ}

def Mark.hook? (id : ComponentId) : Mark κ → Option Hook
  | called callback self _ => if self.component = id then callback.hook? else none
  | _ => none

theorem Journal.foldl_track (h : ∀ mark ∈ marks, mark.isForgotten = false)
    (τ : Option ComponentId × List Hook) :
    (marks.foldl (Mark.track id) τ).2 = τ.2 ++ marks.filterMap (Mark.hook? id) := by
  induction marks generalizing τ with
  | nil => exact (List.append_nil _).symm
  | cons mark rest ih =>
    rw [List.foldl_cons, ih fun mark hmem => h mark (List.mem_cons_of_mem _ hmem)]
    cases mark with
    | called callback self s =>
      simp only [Mark.track, List.filterMap_cons, Mark.hook?]
      split
      · cases callback.hook? <;> simp
      · rfl
    | forgotten entities => cases h _ List.mem_cons_self
    | _ => rfl

theorem Journal.hooks_eq (h : ∀ mark ∈ marks, mark.isForgotten = false) (id : ComponentId) :
    marks.hooks id = marks.filterMap (Mark.hook? id) :=
  (foldl_track h (none, [])).trans (List.nil_append _)

theorem Journal.hooks_append (h : ∀ mark ∈ marks, mark.isForgotten = false) (j : Journal κ)
    (id : ComponentId) : (j ++ marks : Journal κ).hooks id = j.hooks id ++ marks.hooks id := by
  rw [hooks, track_append, foldl_track h, hooks_eq h]
  rfl

theorem Journal.failed_notMem_hooks (h : ∀ mark ∈ marks, mark.isForgotten = false) :
    Hook.failed ∉ marks.hooks id := by
  rw [hooks_eq h]
  intro hmem
  obtain ⟨mark, -, hhook⟩ := List.mem_filterMap.mp hmem
  cases mark with
  | called callback self s =>
    simp only [Mark.hook?] at hhook
    split at hhook
    · cases callback <;> cases hhook
    · cases hhook
  | _ => cases hhook

theorem Journal.hooks_prefix (j marks : Journal κ) (id : ComponentId) :
    j.hooks id <+: (j ++ marks : Journal κ).hooks id := by
  rw [hooks, hooks, track_append]
  generalize j.track id = τ
  induction marks generalizing τ with
  | nil => exact List.prefix_refl _
  | cons mark rest ih =>
    refine List.IsPrefix.trans ?_ (ih (mark.track id τ))
    cases mark with
    | called | forgotten =>
      simp only [Mark.track]
      split
      · exact List.prefix_append _ _
      · exact List.prefix_refl _
    | _ => exact List.prefix_refl _

namespace Hook

theorem Tried.getLast? {hooks : List Hook} (h : Tried hooks []) {last : Hook}
    (hlast : hooks.getLast? = some last) : last = .failed := by
  obtain ⟨tries, htries, rfl⟩ := h
  rw [List.append_nil] at hlast
  rcases List.eq_nil_or_concat tries with rfl | ⟨before, t, rfl⟩
  · cases hlast
  · rw [List.concat_eq_append, List.flatten_append, List.flatten_singleton] at hlast
    rcases htries t (List.concat_eq_append ▸ List.mem_append_right _ (List.mem_singleton_self _)) with
      rfl | rfl <;> simpa [eq_comm] using hlast

theorem Tried.rest_eq {hooks rest last : List Hook} (h : Tried hooks []) (h' : Tried (hooks ++ rest) last)
    (hrest : Hook.failed ∉ rest) (hlast : Hook.failed ∉ last) : rest = last := by
  obtain ⟨tries, htries, heq⟩ := h'
  have hbefore : Tried tries.flatten [] := ⟨tries, htries, (List.append_nil _).symm⟩
  -- What one of the two has before the other has ended would end with a failure.
  have hempty {xs ys : List Hook} (hxs : Tried (ys ++ xs) []) (hnone : Hook.failed ∉ xs) : xs = [] := by
    rcases List.eq_nil_or_concat xs with rfl | ⟨init, x, rfl⟩
    · rfl
    · rw [List.concat_eq_append] at hxs hnone
      have hx : x = .failed := hxs.getLast? (by rw [← List.append_assoc]; exact List.getLast?_concat)
      exact absurd (List.mem_append_right _ (hx ▸ List.mem_singleton_self _)) hnone
  rcases List.append_eq_append_iff.mp heq with ⟨more, htries, hrest'⟩ | ⟨more, hhooks, hlast'⟩
  · obtain rfl : more = [] := by
      refine hempty (htries ▸ hbefore) fun hmem => hrest ?_
      rw [hrest']
      exact List.mem_append_left _ hmem
    exact hrest'
  · obtain rfl : more = [] := by
      refine hempty (hhooks ▸ h) fun hmem => hlast ?_
      rw [hlast']
      exact List.mem_append_left _ hmem
    exact hlast'.symm

end Hook

end Hooks

theorem Course.marked_of_init {past : List (Moment κ)} {m m' : Moment κ} (h : Course past m)
    (hs : Step m m') {id : ComponentId} (hinit : id ∈ m'.journal.inits) (hbefore : id ∉ m.journal.inits) :
    ∃ t, m'.scene.slot? id = some t ∧ t.initialized = true := by
  have hquiet {marks : Journal κ} (hcalm : marks.inits = []) : id ∉ (m.journal ++ marks : Journal κ).inits := by
    rw [Journal.inits_append, hcalm, List.append_nil]
    exact hbefore
  cases hs with
  | onward ho =>
    cases ho with
    | move | back => exact absurd hinit hbefore
    | act ha => exact absurd hinit (hquiet ha.calm.1)
    | hosted | ask => exact absurd hinit (hquiet rfl)
    | @call p callback x s j slot hdue hslot =>
      obtain ⟨t, ht, hseen⟩ := h.marked.callee h.timed rfl hdue
      rw [Journal.inits_append] at hinit
      obtain ⟨mark, hmem, hmark⟩ := List.mem_filterMap.mp ((List.mem_append.mp hinit).resolve_left hbefore)
      obtain rfl := List.mem_singleton.mp hmem
      cases callback with
      | init =>
        cases hmark
        exact ⟨_, Scene.slot?_modifySlot_self ht _ fun _ => rfl, hseen⟩
      | _ => cases hmark
  | @fail p => exact absurd hinit (hquiet p.calm_losses.1)

theorem Course.heard_of_drop {past : List (Moment κ)} {m : Moment κ} (h : Course past m) {slot t : Slot κ}
    (hslot : m.phase.dropped? = some slot) (ht : m.scene.slot? slot.id = some t)
    (hseen : t.initialized = true) : m.journal.hooks slot.id ≠ [] := by
  have hretires := h.retires
  have htried := (h.retried slot.id).present t ht
  obtain ⟨p, calling, s, j⟩ := m
  cases p with
  | dropping x doomed rest =>
    cases hslot
    obtain ⟨u, hu, hmark, -⟩ := hretires
    cases ht.symm.trans hu
    obtain ⟨tries, -, heq⟩ := htried
    simp only [Moment.trying, ← hmark, hseen, and_self, if_true] at heq
    rw [heq]
    exact List.append_ne_nil_of_right_ne_nil _ (List.cons_ne_nil _ _)
  | _ => cases hslot

/-- Whoever has been initialized is there still, and marked so, or has heard of the end. -/
theorem Course.remembers {past : List (Moment κ)} {m : Moment κ} (h : Course past m) (id : ComponentId)
    (hinit : id ∈ m.journal.inits) :
    (∃ t, m.scene.slot? id = some t ∧ t.initialized = true) ∨ m.journal.hooks id ≠ [] := by
  induction h with
  | start => cases hinit
  | @step past m m' h hs ih =>
    obtain ⟨marks, hj, -⟩ := hs.journal
    have hlater (hheard : m.journal.hooks id ≠ []) : m'.journal.hooks id ≠ [] := by
      rw [hj]
      exact fun hnone => hheard (List.prefix_nil.mp (hnone ▸ Journal.hooks_prefix m.journal marks id))
    by_cases hbefore : id ∈ m.journal.inits
    · rcases ih hbefore with ⟨t, ht, hseen⟩ | hheard
      · rcases hs.advances with hadv | ⟨slot, hslot, hdrop⟩
        · obtain ⟨t', ht', hslot⟩ := hadv.slot id t ht
          exact .inl ⟨t', ht', hslot.initialized hseen⟩
        · by_cases hid : id = slot.id
          · subst hid
            exact .inr (hlater (h.heard_of_drop hslot ht hseen))
          · rw [hdrop]
            exact .inl ⟨t, (Scene.slot?_dropSlot _ slot hid).trans ht, hseen⟩
      · exact .inr (hlater hheard)
    · exact .inl (h.marked_of_init hs hinit hbefore)

namespace Period

variable {b : Behaviour κ ω} {fuel : Nat} {delta absolute : Seconds} {σ σ' : Setting κ (ω × Journal κ)}

omit [Named κ] in
theorem hooks_of_notes {period : Period} (hperiod : period ≠ .retiring) {marks : Journal κ}
    (h : ∀ mark ∈ marks, period.notes mark = true) (id : ComponentId) :
    marks.filterMap (Mark.hook? id) = [] := by
  refine List.filterMap_eq_nil_iff.mpr fun mark hmem => ?_
  have hnotes := h mark hmem
  cases mark with
  | called callback self s =>
    simp only [Mark.hook?]
    split
    · cases callback with
      | finish | detach | remove => cases period <;> first | exact absurd rfl hperiod | cases hnotes
      | _ => rfl
    · rfl
  | _ => rfl

theorem hooks_updated (hσ : Path ⟨.idle, none, {}, []⟩ ⟨.idle, none, σ.scene, σ.world.2⟩)
    (hok : closing b fuel delta absolute σ retiring = (.ok (), σ')) (id : ComponentId) :
    σ'.world.2.hooks id = σ.world.2.hooks id ++ (noted b fuel delta absolute σ retiring).hooks id ∧
      Hook.failed ∉ (noted b fuel delta absolute σ retiring).hooks id := by
  have hquiet : ∀ period, ∀ mark ∈ noted b fuel delta absolute σ period, mark.isForgotten = false := by
    intro period
    obtain ⟨σ₁, hclosed⟩ := exists_closing hok period
    exact (closing_journal hσ period).2.2 (by rw [hclosed])
  have hnothing (period : Period) (hperiod : period ≠ .retiring) :
      (noted b fuel delta absolute σ period).filterMap (Mark.hook? id) = [] :=
    hooks_of_notes hperiod (closing_journal hσ period).2.1 id
  have hall : ∀ mark ∈ all.flatMap (noted b fuel delta absolute σ), mark.isForgotten = false := by
    intro mark hmem
    obtain ⟨period, -, hmark⟩ := List.mem_flatMap.mp hmem
    exact hquiet period mark hmark
  have hjournal : σ'.world.2 = σ.world.2 ++ all.flatMap (noted b fuel delta absolute σ) := by
    rw [← journal_closing hσ, hok]
  refine ⟨?_, Journal.failed_notMem_hooks (hquiet retiring)⟩
  rw [hjournal, Journal.hooks_append hall, Journal.hooks_eq hall, Journal.hooks_eq (hquiet retiring)]
  simp only [all, List.flatMap_cons, List.flatMap_nil, List.filterMap_append, List.append_nil,
    hnothing attaching (by decide), hnothing delivering (by decide), hnothing updating (by decide),
    hnothing redelivering (by decide), List.nil_append]

/-- Whoever was there when the update began, has been initialized, and has stopped by its end, is gone and
has heard of it in this update. -/
theorem hooks_retiring (hσ : Path ⟨.idle, none, {}, []⟩ ⟨.idle, none, σ.scene, σ.world.2⟩)
    (hok : closing b fuel delta absolute σ retiring = (.ok (), σ')) {id : ComponentId} {t : Slot κ}
    (ht : σ.scene.slot? id = some t) (hinit : id ∈ σ'.world.2.inits)
    (hdone : σ'.scene.isDone id = true) :
    σ'.scene.slot? id = none ∧ (noted b fuel delta absolute σ retiring).hooks id = [.ended, .removed] := by
  have hends : Turn.Ends _ _ (closing b fuel delta absolute σ retiring) :=
    ends_through (P := fun _ => True) steady_true hσ trivial retiring
  rw [hok] at hends
  obtain ⟨hend, -, hstopping⟩ := hends
  obtain ⟨past, hbefore⟩ := Course.of_path hσ
  obtain ⟨past', hafter⟩ := Course.of_path hend.path
  have hgone : σ'.scene.slot? id = none := by
    cases hslot : σ'.scene.slot? id with
    | none => rfl
    | some u =>
      rw [Scene.isDone_of_slot hslot] at hdone
      have hmem : id ∈ σ'.scene.stopping :=
        List.mem_map.mpr ⟨u, List.mem_filter.mpr ⟨Scene.slot?_mem hslot, hdone⟩, Scene.slot?_id hslot⟩
      rw [hstopping] at hmem
      exact absurd hmem List.not_mem_nil
  refine ⟨hgone, ?_⟩
  obtain ⟨hhooks, hquiet⟩ := hooks_updated hσ hok id
  have hheard : σ'.world.2.hooks id ≠ [] := by
    refine (hafter.remembers id hinit).resolve_left fun ⟨u, hu, _⟩ => ?_
    cases hgone.symm.trans hu
  have hissued : σ'.scene.wasIssued id = true := by
    have hearly := Scene.wasIssued_of_slot hbefore.sound.scene.registered ht
    exact Scene.wasIssued_iff.mpr ⟨(Scene.wasIssued_iff.mp hearly).1,
      hafter.inLine.issued id (List.mem_append_left _ hinit)⟩
  have htried := ((hafter.retried id).gone hgone hissued).resolve_left hheard
  change Hook.Tried (σ'.world.2.hooks id) _ at htried
  rw [hhooks] at htried
  exact ((hbefore.retried id).present t ht).rest_eq htried hquiet (by decide)

end Period

end FrameChain
