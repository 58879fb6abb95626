import FrameChain.Proofs.Delivery
import FrameChain.Proofs.Moment.Waiting

set_option autoImplicit false

/-! A message is delivered under the filters that its recipients had when it was taken off the queue.
While the delivery is interrupted the host may subscribe a recipient again: the new filter is recorded
on the bus, and the message is still delivered under the old one. -/
namespace FrameChain

variable {κ ω : Type}

def Mark.refilter? (key : String) (id : ComponentId) : Mark κ → Option (Option Condition)
  | hosted _ (.subscribe k component filter) =>
      if key = k ∧ id = component then some filter else none
  | _ => none

/-- The filter that the host set for the component last, if it set any. -/
def Journal.refiltered (j : Journal κ) (key : String) (id : ComponentId) :
    Option (Option Condition) :=
  (j.filterMap (Mark.refilter? key id)).getLast?

theorem Journal.refiltered_append (j marks : Journal κ) (key : String) (id : ComponentId) :
    Journal.refiltered (j ++ marks) key id =
      (Journal.refiltered marks key id).or (Journal.refiltered j key id) := by
  rw [refiltered, List.filterMap_append, List.getLast?_append]
  rfl

def Mark.isRefilter : Mark κ → Bool
  | hosted _ (.subscribe ..) => true
  | _ => false

theorem Journal.refiltered_eq_none {marks : Journal κ} (h : ∀ mark ∈ marks, mark.isRefilter = false)
    (key : String) (id : ComponentId) : marks.refiltered key id = none := by
  have hnil : marks.filterMap (Mark.refilter? key id) = [] := by
    rw [List.filterMap_eq_nil_iff]
    intro mark hmark
    have hmark := h mark hmark
    cases mark with
    | hosted s c =>
      cases c with
      | subscribe k component filter => cases hmark
      | _ => rfl
    | _ => rfl
  rw [refiltered, hnil, List.getLast?_nil]

namespace Scene

theorem Sound.filter?_eq_none {s : Scene κ} {out starting : Option ComponentId}
    {batch : List ComponentId} (h : s.Sound out starting batch) {id : ComponentId}
    (hn : s.slot? id = none) (key : String) : s.bus.filter? key id = none := by
  cases hf : s.bus.filter? key id with
  | none => rfl
  | some filter =>
    obtain ⟨t, ht, heq⟩ := h.held id (Bus.mem_holders_of_filter? hf)
    cases hn.symm.trans ((slot?_eq_some_iff h.registered).2 ⟨ht, heq⟩)

variable [Named κ]

theorem filter?_answer {s : Scene κ} {self : Caller} (h : s.bus.Tidy) (r : Request κ) (key : String)
    {id : ComponentId} (hid : id ≠ self.component) :
    (r.answer self s).2.bus.filter? key id = s.bus.filter? key id := by
  cases r with
  | subscribe k filter =>
    simp only [Request.answer, Scene.subscribe]
    split
    · rfl
    · rw [Bus.filter?_subscribe, if_neg fun heq => hid heq.2]
  | unsubscribe k =>
    simp only [Request.answer, Scene.unsubscribe, Bus.unsubscribe]
    rw [h.filter?_withdraw, if_neg fun heq => hid heq.2]
  | _ => exact Bus.filter?_congr (s.topics_answer self rfl) key id

theorem filter?_apply {s : Scene κ} {out starting : Option ComponentId} {batch : List ComponentId}
    (h : s.Sound out starting batch) (c : HostCall κ) {key : String} {id : ComponentId}
    {filter : Option Condition} (hf : (c.apply s).2.bus.filter? key id = some filter) :
    (Mark.hosted s c).refilter? key id = some filter ∨
      (Mark.hosted s c).refilter? key id = none ∧ s.bus.filter? key id = some filter := by
  cases c with
  | subscribe k component f =>
    simp only [HostCall.apply, Scene.subscribe] at hf
    simp only [Mark.refilter?]
    by_cases heq : key = k ∧ id = component
    · obtain ⟨rfl, rfl⟩ := heq
      cases hs : s.slot? id with
      | none =>
        rw [hs] at hf
        cases (h.filter?_eq_none hs key).symm.trans hf
      | some t =>
        rw [hs, Bus.filter?_subscribe, if_pos ⟨rfl, rfl⟩] at hf
        exact .inl (by rw [if_pos ⟨rfl, rfl⟩, hf])
    · rw [if_neg heq]
      refine .inr ⟨rfl, ?_⟩
      split at hf
      · exact hf
      · rw [Bus.filter?_subscribe, if_neg heq] at hf
        exact hf
  | unsubscribe k component =>
    simp only [HostCall.apply, Scene.unsubscribe, Bus.unsubscribe] at hf
    rw [h.tidy.filter?_withdraw] at hf
    split at hf
    · cases hf
    · exact .inr ⟨rfl, hf⟩
  | addComponent owner component =>
    simp only [HostCall.apply, Scene.addComponent] at hf
    split at hf <;> exact .inr ⟨rfl, hf⟩
  | stop x ending =>
    simp only [HostCall.apply, Scene.stop] at hf
    split at hf <;> exact .inr ⟨rfl, hf⟩
  | removeEntity x =>
    simp only [HostCall.apply, Scene.removeEntity] at hf
    split at hf
    · exact .inr ⟨rfl, hf⟩
    · split at hf <;> exact .inr ⟨rfl, hf⟩
  | _ => exact .inr ⟨rfl, hf⟩

end Scene

/-- These marks were made since the delivery `d₀` was taken, and `d` is left of it. -/
structure Journal.Since (between : Journal κ) (d₀ d : Delivery) (bus : Bus) : Prop where
  untaken : Journal.taken between = []
  message : d₀.message = d.message
  among : ∀ r ∈ d.recipients, r ∈ d₀.recipients
  /-- The host was asked something only while the delivery was interrupted. -/
  hosted : ∀ s c, .hosted s c ∈ between →
    ∃ d', s.interrupted = some d' ∧ d'.message = d.message ∧ ∀ r ∈ d.recipients, r ∈ d'.recipients
  filter : ∀ r ∈ d.recipients, ∀ filter, bus.filter? d.message.key r.component = some filter →
    filter = (between.refiltered d.message.key r.component).getD r.filter

namespace Journal.Since

theorem start {s : Scene κ} (h : s.bus.Tidy) (m : Message) {bus : Bus}
    (ht : bus.topics = s.bus.topics) :
    Journal.Since ([] : Journal κ) ⟨m, s.bus.subscribers m.key⟩ ⟨m, s.bus.subscribers m.key⟩ bus := by
  refine ⟨rfl, rfl, fun _ hr => hr, fun _ _ h => absurd h List.not_mem_nil, fun r hr filter hf => ?_⟩
  rw [Bus.filter?_congr ht, h.filter?_of_mem hr] at hf
  exact (Option.some.inj hf).symm

theorem append {between marks : Journal κ} {d₀ d d' : Delivery} {bus bus' : Bus}
    (h : between.Since d₀ d bus) (hmessage : d'.message = d.message)
    (hsub : ∀ r ∈ d'.recipients, r ∈ d.recipients) (htaken : Journal.taken marks = [])
    (hhosted : ∀ s c, .hosted s c ∈ marks → s.interrupted = some d)
    (hfilter : ∀ r ∈ d'.recipients, ∀ filter,
      bus'.filter? d.message.key r.component = some filter →
      marks.refiltered d.message.key r.component = some filter ∨
        marks.refiltered d.message.key r.component = none ∧
          bus.filter? d.message.key r.component = some filter) :
    Journal.Since (between ++ marks) d₀ d' bus' := by
  refine ⟨?_, h.message.trans hmessage.symm, fun r hr => h.among r (hsub r hr), ?_, ?_⟩
  · rw [Journal.taken_append, h.untaken, htaken, List.append_nil]
  · intro s c hmem
    rcases List.mem_append.1 hmem with hmem | hmem
    · obtain ⟨d'', hi, hm, hr⟩ := h.hosted s c hmem
      exact ⟨d'', hi, hm.trans hmessage.symm, fun r h => hr r (hsub r h)⟩
    · exact ⟨d, hhosted s c hmem, hmessage.symm, hsub⟩
  · intro r hr filter hf
    rw [hmessage] at hf ⊢
    rw [Journal.refiltered_append]
    rcases hfilter r hr filter hf with hset | ⟨hnone, hold⟩
    · rw [hset, Option.some_or, Option.getD_some]
    · rw [hnone, Option.none_or]
      exact h.filter r (hsub r hr) filter hold

theorem quiet {between marks : Journal κ} {d₀ d d' : Delivery} {bus bus' : Bus}
    (h : between.Since d₀ d bus) (hmessage : d'.message = d.message)
    (hsub : ∀ r ∈ d'.recipients, r ∈ d.recipients) (htaken : Journal.taken marks = [])
    (hhosted : ∀ s c, .hosted s c ∉ marks)
    (hfilter : ∀ r ∈ d'.recipients,
      bus'.filter? d.message.key r.component = bus.filter? d.message.key r.component) :
    Journal.Since (between ++ marks) d₀ d' bus' := by
  refine h.append hmessage hsub htaken (fun s c hmem => absurd hmem (hhosted s c)) ?_
  intro r hr filter hf
  refine .inr ⟨Journal.refiltered_eq_none (fun mark hmem => ?_) _ _, hfilter r hr ▸ hf⟩
  cases mark with
  | hosted s c => exact absurd hmem (hhosted s c)
  | _ => rfl

end Journal.Since

/-- The recipient is served because of what happened before. -/
def Journal.Admits (before : Journal κ) (s : Scene κ) (m : Message) (r : Subscription) : Prop :=
  ∃ early s₀ d between, before = early ++ .taken s₀ d :: (between ++ [.served s m r]) ∧
    Journal.Since between d ⟨m, [r]⟩ s.bus ∧ s.Accepting m r

def Mark.Admitted (before : Journal κ) : Mark κ → Prop
  | called (.message m) self s =>
      ∃ s' r, before.Admits s' m r ∧ r.component = self.component ∧ s = s'.takeOut r.component
  | _ => True

theorem Mark.admitted_of_not_isPost {mark : Mark κ} (h : mark.isPost = false) (before : Journal κ) :
    mark.Admitted before := by
  cases mark with
  | called callback self s =>
    cases callback with
    | message m => cases h
    | _ => trivial
  | _ => trivial

namespace Phase

def isQuiet : Phase κ → Bool
  | updating .. | ticking .. | settling | retiring .. | ending .. | removing .. | dropping .. => true
  | _ => false

def Apart : Phase κ → Prop
  | reaching _ _ r rest => ∀ r' ∈ rest, r'.component ≠ r.component
  | _ => True

end Phase

structure Moment.Leaves (m : Moment κ) (d : Delivery) : Prop where
  since : ∃ early s₀ d₀ between, m.journal = early ++ .taken s₀ d₀ :: between ∧
    Journal.Since between d₀ d m.scene.bus
  /-- Recipients have been attached, or have stopped before. -/
  settled : ∀ r ∈ d.recipients, m.scene.wasIssued r.component = true ∧
    ∀ t, m.scene.slot? r.component = some t → t.state ≠ .new
  apart : ∀ r ∈ d.recipients, m.phase.starting ≠ some r.component
  once : (d.recipients.map (·.component)).Nodup

structure Moment.Admitting (m : Moment κ) : Prop where
  left : ∀ d, m.left = some d → m.Leaves d
  quiet : m.phase.isQuiet = true → m.scene.interrupted = none
  turn : m.phase.Apart
  due : ∀ message r, m.pending = some (message, r) → m.journal.Admits m.scene message r
  called : m.journal.Each Mark.Admitted

namespace Moment.Leaves

theorem settled_of_advances {s s' : Scene κ} (h : s.Advances s') {id : ComponentId}
    (hs : s.wasIssued id = true ∧ ∀ t, s.slot? id = some t → t.state ≠ .new) :
    s'.wasIssued id = true ∧ ∀ t, s'.slot? id = some t → t.state ≠ .new := by
  obtain ⟨hi, hstate⟩ := hs
  refine ⟨h.wasIssued hi, fun t' ht' hnew => ?_⟩
  cases ht : s.slot? id with
  | none => exact absurd (h.fresh id t' ht ht').1 (Nat.not_lt.2 (Scene.wasIssued_iff.1 hi).2)
  | some t =>
    obtain ⟨u, hu, hadv⟩ := h.slot id t ht
    cases ht'.symm.trans hu
    rcases hadv.state with heq | hlt
    · exact hstate t ht (heq.trans hnew)
    · rw [hnew] at hlt
      exact absurd hlt (Nat.not_lt_zero _)

theorem go {m m' : Moment κ} {d d' : Delivery} {marks : Journal κ} (h : m.Leaves d)
    (hj : m'.journal = m.journal ++ marks) (ha : m.scene.Advances m'.scene)
    (hsub : d'.recipients.Sublist d.recipients)
    (hapart : ∀ r ∈ d'.recipients, m'.phase.starting ≠ some r.component)
    (hsince : ∀ d₀ between, Journal.Since between d₀ d m.scene.bus →
      Journal.Since (between ++ marks) d₀ d' m'.scene.bus) : m'.Leaves d' := by
  obtain ⟨early, s₀, d₀, between, heq, hs⟩ := h.since
  refine ⟨⟨early, s₀, d₀, between ++ marks, ?_, hsince d₀ between hs⟩, fun r hr => ?_, hapart,
    h.once.sublist (hsub.map _)⟩
  · rw [hj, heq, List.append_assoc, List.cons_append]
  · exact settled_of_advances ha (h.settled r (hsub.subset hr))

theorem quiet {m m' : Moment κ} {d : Delivery} {marks : Journal κ} (h : m.Leaves d)
    (hj : m'.journal = m.journal ++ marks) (ha : m.scene.Advances m'.scene)
    (hapart : ∀ r ∈ d.recipients, m'.phase.starting ≠ some r.component)
    (htaken : Journal.taken marks = []) (hhosted : ∀ s c, .hosted s c ∉ marks)
    (hfilter : ∀ r ∈ d.recipients, m'.scene.bus.filter? d.message.key r.component =
      m.scene.bus.filter? d.message.key r.component) : m'.Leaves d :=
  h.go hj ha (List.Sublist.refl _) hapart fun _ _ hs =>
    hs.quiet rfl (fun _ hr => hr) htaken hhosted hfilter

end Moment.Leaves

namespace Moment.Admitting

theorem empty : (⟨.idle, none, {}, []⟩ : Moment κ).Admitting :=
  ⟨nofun, nofun, trivial, nofun, .nil⟩

theorem same {m m' : Moment κ} {marks : Journal κ} (h : m.Admitting)
    (hj : m'.journal = m.journal ++ marks) (hm : ∀ mark ∈ marks, mark.isPost = false)
    (hleft : ∀ d, m'.left = some d → m'.Leaves d)
    (hquiet : m'.phase.isQuiet = true → m'.scene.interrupted = none) (hturn : m'.phase.Apart)
    (hdue : m'.pending = none) : m'.Admitting := by
  refine ⟨hleft, hquiet, hturn, fun message r hp => (nomatch hdue.symm.trans hp), ?_⟩
  rw [hj]
  exact h.called.append fun mark hmem => Mark.admitted_of_not_isPost (hm mark hmem)

theorem move {s : Scene κ} {p p' : Phase κ} {j : Journal κ}
    (h : (⟨p, none, s, j⟩ : Moment κ).Admitting) (hfree : p.delivery? = none ∨ s.interrupted = none)
    (hm : Move s p p') : (⟨p', none, s, j⟩ : Moment κ).Admitting := by
  have hstarting : p'.starting = none := by cases hm <;> rfl
  have hleft : p'.delivery? = p.delivery? ∨ p'.delivery? = none ∧ s.interrupted = none := by
    cases hm
    case delivered => exact .inr ⟨rfl, hfree.resolve_left (by rintro ⟨⟩)⟩
    all_goals exact .inl rfl
  refine h.same (List.append_nil j).symm (List.forall_mem_nil _) (fun d hd => ?_) (fun hq => ?_) ?_ ?_
  · simp only [Moment.left] at hd
    rcases hleft with heq | ⟨hnone, hi⟩
    · rw [heq] at hd
      refine (h.left d hd).quiet (List.append_nil j).symm (.of_slots rfl rfl) (fun r _ => ?_) rfl
        (fun _ _ => List.not_mem_nil) fun _ _ => rfl
      rw [hstarting]
      rintro ⟨⟩
    · rw [hnone, hi] at hd
      cases hd
  · cases hm
    case quiet hn => exact (s.nextDelivery?_eq_none_iff.1 hn).1
    case quietAgain hn => exact (s.nextDelivery?_eq_none_iff.1 hn).1
    case tick | skip | unseen | endHook => exact h.quiet rfl
    all_goals cases hq
  · cases hm <;> trivial
  · cases hm <;> rfl

theorem take {s : Scene κ} {j : Journal κ} {late : Bool} {m : Message} {bus : Bus}
    (h : (⟨.dispatching late, none, s, j⟩ : Moment κ).Admitting)
    (hs : s.Sound none none []) (hu : ∀ id ∈ s.attachQueue, id ∉ s.bus.holders)
    (hpop : s.bus.pop? = some (m, bus)) :
    (⟨.serving late m (s.bus.subscribers m.key), none, { s with bus },
      j ++ [.taken s ⟨m, s.bus.subscribers m.key⟩]⟩ : Moment κ).Admitting := by
  obtain ⟨_, htopics⟩ := (Bus.pop?_eq_some_iff _ _ _).1 hpop
  refine ⟨fun d hd => ?_, nofun, trivial, nofun, h.called.concat trivial⟩
  · cases hd
    refine ⟨⟨j, s, _, [], rfl, .start hs.tidy m htopics⟩, fun r hr => ?_, nofun,
      hs.tidy.subscribers_nodup m.key⟩
    have hheld : r.component ∈ s.bus.holders :=
      Bus.mem_holders_of_filter? (hs.tidy.filter?_of_mem hr)
    obtain ⟨t, ht, hid⟩ := hs.held _ hheld
    have hslot : s.slot? r.component = some t :=
      (Scene.slot?_eq_some_iff hs.registered).2 ⟨ht, hid⟩
    refine ⟨Scene.wasIssued_of_slot hs.registered hslot, fun t' ht' hnew => ?_⟩
    cases hslot.symm.trans ht'
    -- Nobody is new any more but those who were added in this update.
    rcases (hs.fits t ht).queued hnew with hstarting | hqueued
    · cases hstarting
    · exact hu _ (hid ▸ hqueued) hheld

theorem serve {s : Scene κ} {j : Journal κ} {late : Bool} {m : Message} {r : Subscription}
    {rest : List Subscription}
    (h : (⟨.serving late m (r :: rest), none, s, j⟩ : Moment κ).Admitting)
    (ha : s.accepts m r = true) :
    (⟨.reaching late m r rest, none, s, j ++ [.served s m r]⟩ : Moment κ).Admitting := by
  have hleaves := h.left ⟨m, r :: rest⟩ rfl
  refine ⟨fun d hd => ?_, nofun, ?_, fun message r' hp => ?_, h.called.concat trivial⟩
  · cases hd
    refine hleaves.go rfl (.of_slots rfl rfl) (List.sublist_cons_self r rest) nofun ?_
    intro d₀ between hs
    refine hs.quiet rfl (fun _ hr => List.mem_cons_of_mem _ hr) rfl (fun s c hmem => ?_) fun _ _ => rfl
    cases List.mem_singleton.1 hmem
  · intro r' hr' heq
    exact (List.nodup_cons.1 hleaves.once).1 (List.mem_map.2 ⟨r', hr', heq⟩)
  · cases hp
    obtain ⟨early, s₀, d₀, between, hj, hs⟩ := hleaves.since
    refine ⟨early, s₀, d₀, between, ?_, ?_, (s.accepts_iff m r).1 ha⟩
    · change j = _ at hj
      rw [hj, List.append_assoc, List.cons_append]
    · have hone : Journal.Since (between ++ []) d₀ ⟨m, [r]⟩ s.bus := by
        refine hs.quiet rfl (fun r' hr' => ?_) rfl (fun _ _ => List.not_mem_nil) fun _ _ => rfl
        rw [List.mem_singleton.1 hr']
        exact List.mem_cons_self
      rwa [List.append_nil] at hone

theorem pass {s : Scene κ} {j : Journal κ} {late : Bool} {m : Message} {r : Subscription}
    {rest : List Subscription}
    (h : (⟨.serving late m (r :: rest), none, s, j⟩ : Moment κ).Admitting) :
    (⟨.serving late m rest, none, s, j ++ [.passed s m r]⟩ : Moment κ).Admitting := by
  have hleaves := h.left ⟨m, r :: rest⟩ rfl
  refine ⟨fun d hd => ?_, nofun, trivial, nofun, h.called.concat trivial⟩
  · cases hd
    refine hleaves.go rfl (.of_slots rfl rfl) (List.sublist_cons_self r rest) nofun ?_
    intro d₀ between hs
    refine hs.quiet rfl (fun _ hr => List.mem_cons_of_mem _ hr) rfl (fun s c hmem => ?_) fun _ _ => rfl
    cases List.mem_singleton.1 hmem

theorem act {s s' : Scene κ} {p p' : Phase κ} {j marks : Journal κ}
    (h : (⟨p, none, s, j⟩ : Moment κ).Admitting) (hs : s.Sound none p.starting p.batch)
    (hu : p = .idle ∨ ∀ id ∈ s.attachQueue, id ∉ s.bus.holders) (ha : Act s p p' s' marks) :
    (⟨p', none, s', j ++ marks⟩ : Moment κ).Admitting := by
  -- The delivery that is left is left alone.
  have hleave : ∀ {p' : Phase κ} {s' : Scene κ}, s.Advances s' → s'.bus = s.bus →
      Moment.left ⟨p', none, s', j ++ []⟩ = Moment.left ⟨p, none, s, j⟩ →
      (∀ d, Moment.left ⟨p, none, s, j⟩ = some d → ∀ r ∈ d.recipients,
        p'.starting ≠ some r.component) →
      ∀ d, Moment.left ⟨p', none, s', j ++ []⟩ = some d →
        (⟨p', none, s', j ++ []⟩ : Moment κ).Leaves d := by
    intro p' s' hadv hbus heq hapart d hd
    rw [heq] at hd
    exact (h.left d hd).quiet rfl hadv (hapart d hd) rfl (fun _ _ => List.not_mem_nil) fun _ _ =>
      Bus.filter?_congr (congrArg Bus.topics hbus) _ _
  have hnil := List.forall_mem_nil fun mark : Mark κ => mark.isPost = false
  have hgone : s.interrupted = none → ∀ {p' : Phase κ} {s' : Scene κ}, p'.delivery? = none →
      s'.interrupted = s.interrupted → ∀ d, Moment.left ⟨p', none, s', j ++ []⟩ = some d →
        (⟨p', none, s', j ++ []⟩ : Moment κ).Leaves d := by
    intro hi p' s' hp hi' d hd
    rw [Moment.left, hp, hi', hi] at hd
    cases hd
  have hadv := ha.advances.resolve_right
  cases ha with
  | begin =>
    exact h.same rfl hnil (hleave (hadv (by rintro ⟨_, ⟨⟩, _⟩)) rfl rfl fun _ _ _ _ => by rintro ⟨⟩) (by rintro ⟨⟩) trivial rfl
  | @start id batch hnew =>
    refine h.same rfl hnil (hleave (hadv (by rintro ⟨_, ⟨⟩, _⟩)) rfl rfl fun d hd r hr heq => ?_) (by rintro ⟨⟩) trivial rfl
    cases heq
    rcases Scene.lifecycle?_cases hnew with ⟨t, ht, hstate⟩ | ⟨_, _, hremoved⟩
    · exact ((h.left d hd).settled r hr).2 t ht hstate
    · cases hremoved
  | @initialized id batch slot _ _ =>
    exact h.same rfl hnil (hleave (hadv (by rintro ⟨_, ⟨⟩, _⟩)) rfl rfl fun d hd => (h.left d hd).apart)
      (by rintro ⟨⟩) trivial rfl
  | run =>
    exact h.same rfl hnil (hleave (hadv (by rintro ⟨_, ⟨⟩, _⟩)) rfl rfl fun _ _ _ _ => by rintro ⟨⟩) (by rintro ⟨⟩) trivial rfl
  | resume hi =>
    refine h.same rfl hnil (hleave (hadv (by rintro ⟨_, ⟨⟩, _⟩)) rfl ?_ fun _ _ _ _ => by rintro ⟨⟩) (by rintro ⟨⟩) trivial rfl
    simp only [Moment.left, Phase.delivery?, hi, Option.none_or, Option.some_or]
  | take hi hpop => exact h.take hs (hu.resolve_left (by rintro ⟨⟩)) hpop
  | serve ha => exact h.serve ha
  | pass => exact h.pass
  | round =>
    have hi := h.quiet rfl
    have hi' : s.detachDoomed.interrupted = s.interrupted := congrArg Prod.fst s.mail_detachDoomed
    exact h.same rfl hnil (hgone hi rfl hi') (fun _ => hi'.trans hi) trivial rfl
  | drop => exact h.same rfl hnil (hgone (h.quiet rfl) rfl rfl) (fun _ => h.quiet rfl) trivial rfl
  | @clear doomed =>
    have hi := h.quiet rfl
    have hi' : (doomed.foldl Scene.removeIfEmpty s).interrupted = s.interrupted :=
      congrArg Prod.fst (s.mail_clear doomed)
    exact h.same rfl hnil (hgone hi rfl hi') (fun _ => hi'.trans hi) trivial rfl

theorem call {s : Scene κ} {j : Journal κ} {p : Phase κ} {callback : Callback} {id : ComponentId}
    {owner : EntityId} (h : (⟨p, none, s, j⟩ : Moment κ).Admitting)
    (hp : p.callee = some (callback, id)) :
    (⟨p, some ⟨owner, id⟩, s.takeOut id, j ++ [.called callback ⟨owner, id⟩ (s.takeOut id)]⟩ :
      Moment κ).Admitting := by
  refine ⟨fun d hd => ?_, h.quiet, h.turn, nofun, ?_⟩
  · refine (h.left d hd).quiet rfl (s.advances_takeOut id) (h.left d hd).apart rfl (fun s c hmem => ?_)
      fun _ _ => rfl
    cases List.mem_singleton.1 hmem
  · refine h.called.concat ?_
    cases p with
    | reaching late m r rest =>
      cases hp
      exact ⟨s, r, h.due m r rfl, rfl, rfl⟩
    | ending slot doomed rest =>
      cases hp
      refine Mark.admitted_of_not_isPost ?_ j
      split <;> rfl
    | initializing | joining | ticking | removing =>
      cases hp
      trivial
    | _ => cases hp

theorem recover {s : Scene κ} {j : Journal κ} {p : Phase κ} {self : Caller} {callback : Callback}
    {id : ComponentId} (component : κ) (h : (⟨p, some self, s, j⟩ : Moment κ).Admitting)
    (hp : p.callee = some (callback, id)) [Named κ] :
    (⟨.idle, none, p.recover (s.putBack self.component component), j ++ p.losses⟩ :
      Moment κ).Admitting := by
  have hi := (Faithful.recover hp (s.putBack self.component component)).2
  have hlosses : ∀ mark ∈ p.losses, mark.isPost = false ∧ ∀ s c, mark ≠ .hosted s c := by
    intro mark hmem
    cases p with
    | ending | removing =>
      cases List.mem_singleton.1 hmem
      exact ⟨rfl, by rintro s c ⟨⟩⟩
    | _ => cases hmem
  refine h.same rfl (fun mark hmem => (hlosses mark hmem).1) (fun d hd => ?_) nofun trivial rfl
  have hleft : Moment.left ⟨p, some self, s, j⟩ = some d := hi.symm.trans hd
  refine (h.left d hleft).quiet rfl (p.advances_fail s _ component) nofun ?_
    (fun s c hmem => (hlosses _ hmem).2 s c rfl) fun _ _ => Bus.filter?_congr ?_ _ _
  · exact List.filterMap_eq_nil_iff.2 fun mark hmem => Mark.taken?_of_not_isPost (hlosses mark hmem).1
  · cases p with
    | initializing x batch | joining x batch =>
      change ((s.putBack self.component component).stop x .detached).2.bus.topics = _
      unfold Scene.stop
      split <;> rfl
    | _ => rfl

section

variable [Named κ]

omit [Named κ] in
/-- A callback that runs while a message is being delivered is not one of a recipient that is left. -/
theorem caller_apart {m : Moment κ} (h : m.Admitting) (hm : m.Sound) {self : Caller}
    (hc : m.calling = some self) {d : Delivery} (hd : m.left = some d) :
    ∀ r ∈ d.recipients, r.component ≠ self.component := by
  obtain ⟨callback, hp⟩ := hm.due self hc
  intro r hr heq
  have hleaves := h.left d hd
  have hquiet := h.quiet
  have hturn := h.turn
  obtain ⟨p, calling, s, j⟩ := m
  cases p with
  | initializing x batch | joining x batch =>
    cases hp
    exact hleaves.apart r hr (congrArg some heq.symm)
  | reaching late message r' rest =>
    obtain ⟨_, hid⟩ := Prod.mk.inj (Option.some.inj hp)
    cases hd
    exact hturn r hr (heq.trans hid.symm)
  | ticking | ending | removing =>
    have hi : s.interrupted = none := hquiet rfl
    rw [Moment.left, hi] at hd
    cases hd
  | _ => cases hp

theorem step {m m' : Moment κ} (h : m.Admitting) (hm : m.Sound) (hf : m.Faithful) (hu : m.Unheard)
    (hs : Step m m') : m'.Admitting := by
  cases hs with
  | onward ho =>
    cases ho with
    | @hosted s j c =>
      have hi : (c.apply s).2.interrupted = s.interrupted := congrArg Prod.fst (s.mail_apply c)
      refine ⟨fun d hd => ?_, nofun, trivial, nofun, h.called.concat trivial⟩
      have hleft : s.interrupted = some d := hi.symm.trans hd
      refine (h.left d hleft).go rfl (Scene.change_apply s c).advances (List.Sublist.refl _) nofun
        fun d₀ between hsince => ?_
      refine hsince.append rfl (fun _ hr => hr) rfl (fun s' c' hmem => ?_) fun r _ filter hfilter => ?_
      · cases List.mem_singleton.1 hmem
        exact hleft
      · rcases Scene.filter?_apply hm.scene c hfilter with hset | ⟨hnone, hold⟩
        · left
          simp [Journal.refiltered, hset]
        · right
          simp [Journal.refiltered, hnone, hold]
    | move hmove => exact h.move hf.free hmove
    | act ha => exact h.act hm.scene hu ha
    | call hp hslot => exact h.call hp
    | @ask p self s j r =>
      have hi : (r.answer self s).2.interrupted = s.interrupted := congrArg Prod.fst (s.mail_answer self r)
      refine ⟨fun d hd => ?_, fun hq => hi.trans (h.quiet hq), h.turn, nofun, h.called.concat trivial⟩
      have hleft : Moment.left ⟨p, some self, s, j⟩ = some d := by
        rw [Moment.left, hi] at hd
        exact hd
      refine (h.left d hleft).quiet rfl (Scene.change_answer s self r).advances (h.left d hleft).apart rfl
        (fun s c hmem => ?_) fun r' hr' => ?_
      · cases List.mem_singleton.1 hmem
      · exact Scene.filter?_answer hm.scene.tidy r d.message.key (h.caller_apart hm rfl hleft r' hr')
    | @back p self s j component =>
      refine h.same (List.append_nil j).symm (List.forall_mem_nil _) (fun d hd => ?_) (fun hq => ?_) ?_ ?_
      · have hleft : Moment.left ⟨p, some self, s, j⟩ = some d := by
          rw [← hd]
          cases p <;> rfl
        refine (h.left d hleft).quiet (List.append_nil j).symm (s.advances_putBack _ component) ?_ rfl
          (fun _ _ => List.not_mem_nil) fun _ _ => rfl
        rw [Phase.starting_next]
        exact (h.left d hleft).apart
      · cases p
        case ticking | updating | settling | retiring | ending | removing | dropping =>
          exact h.quiet rfl
        all_goals cases hq
      · cases p <;> trivial
      · cases p <;> rfl
  | @fail p self s j component =>
    obtain ⟨callback, hp⟩ := hm.due self rfl
    exact h.recover component hp

end

end Moment.Admitting

theorem Course.faithful [Named κ] {past : List (Moment κ)} {m : Moment κ} (h : Course past m) :
    m.Faithful := Moment.Faithful.empty.along Moment.Sound.empty h.path

theorem Course.admitting [Named κ] {past : List (Moment κ)} {m : Moment κ} (h : Course past m) :
    m.Admitting := by
  induction h with
  | start => exact .empty
  | step h hs ih => exact ih.step h.sound h.faithful h.unheard hs

def Scene.Honours (s : Scene κ) (m : Message) (id : ComponentId) : Prop :=
  ∃ filter, s.bus.filter? m.key id = some filter ∧ ∀ condition, filter = some condition →
    ∃ origin, m.origin = some origin ∧ s.isMatch origin condition = true

theorem Scene.isMatch_takeOut (s : Scene κ) (id : ComponentId) (entity : EntityId) (c : Condition) :
    (s.takeOut id).isMatch entity c = s.isMatch entity c := by
  have hfind : ∀ name, (s.takeOut id).findComponent? entity name = s.findComponent? entity name := by
    intro name
    unfold findComponent?
    change (s.entity? entity).bind _ = _
    congr 1
    funext e
    congr 1
    funext x
    rw [takeOut, slot?_modifySlot s id x _ fun _ => by rfl]
    cases s.slot? x with
    | none => rfl
    | some t =>
      simp only [Option.map_some]
      split <;> rfl
  have hentity : (s.takeOut id).entity? entity = s.entity? entity := rfl
  simp only [isMatch, hentity, hfind]

theorem Scene.Honours.takeOut {s : Scene κ} {m : Message} {id : ComponentId} (h : s.Honours m id)
    (x : ComponentId) : (s.takeOut x).Honours m id := by
  obtain ⟨filter, hf, hmatch⟩ := h
  refine ⟨filter, hf, fun condition hc => ?_⟩
  obtain ⟨origin, ho, hm⟩ := hmatch condition hc
  exact ⟨origin, ho, (s.isMatch_takeOut x origin condition).trans hm⟩

/-- Whoever is served has a subscription, and its filter is known. -/
theorem Journal.Since.filter?_eq {between : Journal κ} {d : Delivery} {s : Scene κ} {m : Message}
    {r : Subscription} (h : between.Since d ⟨m, [r]⟩ s.bus) (ha : s.Accepting m r) :
    s.bus.filter? m.key r.component =
      some ((between.refiltered m.key r.component).getD r.filter) := by
  have hsome : (s.bus.filter? m.key r.component).isSome = true := by
    rw [← Bus.isSubscribed_eq, Bus.isSubscribed, List.any_eq_true]
    obtain ⟨sub, hsub, heq⟩ := ha.subscribed
    exact ⟨sub, hsub, beq_iff_eq.2 heq⟩
  obtain ⟨filter, hf⟩ := Option.isSome_iff_exists.1 hsome
  rw [hf, h.filter r List.mem_cons_self filter hf]

variable [Named κ]

/-- Whenever a component is called with a message, it was a subscriber when the message was taken off
the queue, and the filter of that time lets the message through at its turn. The filter in force is that
one, or the last that the host has set since, which it can have done only while the delivery was
interrupted. So the subscription in force is honoured, unless the host has replaced it in between. -/
theorem admission_history (b : Behaviour κ ω) (w : ω) (ops : List (HostOp κ ω)) :
    let j := (recording b w ops).2.world.2
    ((recording b w ops).1, (recording b w ops).2.erase) = ending b w ops ∧
    ∀ before m self s after, j = before ++ .called (.message m) self s :: after →
      ∃ early s₀ d between s' r,
        before = early ++ .taken s₀ d :: (between ++ [.served s' m r]) ∧
        Journal.taken between = [] ∧
        d.message = m ∧ d.recipients = s₀.bus.subscribers m.key ∧ r ∈ d.recipients ∧
        r.component = self.component ∧ s = s'.takeOut self.component ∧ s'.Accepting m r ∧
        s.bus.filter? m.key self.component =
          some ((Journal.refiltered between m.key self.component).getD r.filter) ∧
        (Journal.refiltered between m.key self.component = none → s.Honours m self.component) ∧
        ∀ s₁ c, .hosted s₁ c ∈ between →
          ∃ d', s₁.interrupted = some d' ∧ d'.message = m ∧ r ∈ d'.recipients := by
  intro j
  obtain ⟨past, last, hpassed⟩ := exists_passed b w ops
  have hadmitting := hpassed.course.admitting
  have hfair := hpassed.course.faithful.fair
  refine ⟨erase_recording b w ops, fun before m self s after heq => ?_⟩
  have hj : last.journal = before ++ .called (.message m) self s :: after := hpassed.journal.trans heq
  obtain ⟨s', r, ⟨early, s₀, d, between, hbefore, hsince, haccepting⟩, hid, rfl⟩ :=
    hadmitting.called before _ after hj
  have hfilter := hsince.filter?_eq haccepting
  have htaken : (Mark.taken s₀ d).Fair := hfair _ (by simp [hj, hbefore])
  have hmessage : d.message = m := hsince.message
  rw [hid] at hfilter ⊢
  refine ⟨early, s₀, d, between, s', r, hbefore, hsince.untaken, hmessage, ?_,
    hsince.among r List.mem_cons_self, hid, rfl, haccepting, hfilter, fun hnone => ?_,
    fun s₁ c hmem => ?_⟩
  · rw [htaken.2.2.1, hmessage]
  · rw [hnone, Option.getD_none] at hfilter
    exact Scene.Honours.takeOut ⟨r.filter, hfilter, haccepting.admitted⟩ _
  · obtain ⟨d', hi, hm, hr⟩ := hsince.hosted s₁ c hmem
    exact ⟨d', hi, hm, hr r List.mem_cons_self⟩

def Mark.reaches (id : ComponentId) (filter : Option Condition) : Mark κ → Bool
  | called (.message m) self s => self.component == id && s.bus.filter? m.key id == some filter
  | _ => false

omit [Named κ] in
theorem Mark.exists_of_reaches {mark : Mark κ} {id : ComponentId} {filter : Option Condition}
    (h : mark.reaches id filter = true) :
    ∃ m self s, mark = .called (.message m) self s ∧ self.component = id ∧
      s.bus.filter? m.key id = some filter := by
  cases mark with
  | called callback self s =>
    cases callback with
    | message m =>
      simp only [reaches, Bool.and_eq_true, beq_iff_eq] at h
      exact ⟨m, self, s, rfl, h⟩
    | _ => cases h
  | _ => cases h

def Mark.isStray : Mark κ → Bool
  | called (.message m) _ _ => m.origin.isNone
  | _ => false

def coy (filter : Option Condition) : Behaviour Probe Bool := fun callback self probe =>
  match callback with
  | .init => .ask (.subscribe "ping" filter) fun _ => .done (.ok (), probe)
  | .message _ => .consult fun refused =>
      if self.component = ⟨1⟩ ∧ refused = false then
        .store true (.done (.error (.other "not now"), probe))
      else .done (.ok (), probe)
  | _ => .done (.ok (), probe)

/-- Two probes on one entity, and a message that the first one refuses. -/
def refusal (origin : Option EntityId) : List (HostOp Probe Bool) :=
  [.call (.addEntity "bell"), .call (.addComponent ⟨1⟩ {}), .call (.addComponent ⟨1⟩ {}),
    .update 2 0 0, .call (.send "ping" .null origin), .update 2 0 0]

/-- The second probe gets the message in the next update, under the filter that it has set itself. -/
theorem admission_history_refusal :
    let bell : Condition := { name := some "bell" }
    let j := (recording (coy (some bell)) false (refusal (some ⟨1⟩) ++ [.update 2 0 0])).2.world.2
    ∃ before m self s after, j = before ++ .called (.message m) self s :: after ∧
      self.component = ⟨2⟩ ∧ s.bus.filter? m.key ⟨2⟩ = some (some bell) ∧ s.Honours m ⟨2⟩ := by
  intro bell j
  obtain ⟨_, hadmitted⟩ :=
    admission_history (coy (some bell)) false (refusal (some ⟨1⟩) ++ [.update 2 0 0])
  have hany : j.any (Mark.reaches ⟨2⟩ (some bell)) = true := by decide +kernel
  have hquiet : ∀ mark ∈ j, mark.isRefilter = false := by
    have hall : j.all (fun mark => !mark.isRefilter) = true := by decide +kernel
    intro mark hmem
    simpa using List.all_eq_true.1 hall mark hmem
  obtain ⟨mark, hmem, hreaches⟩ := List.any_eq_true.1 hany
  obtain ⟨m, self, s, rfl, hself, hfilter⟩ := Mark.exists_of_reaches hreaches
  obtain ⟨before, after, hj⟩ := List.append_of_mem hmem
  obtain ⟨early, s₀, d, between, s', r, hbefore, _, _, _, _, _, _, _, _, hhonours, _⟩ :=
    hadmitted before m self s after hj
  rw [hself] at hhonours
  refine ⟨before, m, self, s, after, hj, hself, hfilter, hhonours ?_⟩
  refine Journal.refiltered_eq_none (fun mark hmem => hquiet mark ?_) _ _
  rw [hj, hbefore]
  simp [hmem]

/-- The host gives the second probe a filter that the message does not pass, while its delivery is
interrupted, and the probe gets the message all the same. -/
theorem admission_outdated :
    let nobody : Condition := { name := some "nobody" }
    let ops := refusal none ++ [.call (.subscribe "ping" ⟨2⟩ (some nobody)), .update 2 0 0]
    ∃ m self s, .called (.message m) self s ∈ (recording (coy none) false ops).2.world.2 ∧
      ¬ s.Honours m self.component := by
  intro nobody ops
  have hany : (recording (coy none) false ops).2.world.2.any (fun mark =>
      mark.reaches ⟨2⟩ (some nobody) && mark.isStray) = true := by decide +kernel
  obtain ⟨mark, hmem, h⟩ := List.any_eq_true.1 hany
  obtain ⟨hreaches, hstray⟩ := (Bool.and_eq_true _ _).mp h
  obtain ⟨m, self, s, rfl, hself, hfilter⟩ := Mark.exists_of_reaches hreaches
  refine ⟨m, self, s, hmem, fun ⟨filter, hf, hmatch⟩ => ?_⟩
  rw [hself, hfilter] at hf
  obtain ⟨origin, ho, _⟩ := hmatch nobody (Option.some.inj hf).symm
  rw [Mark.isStray, ho] at hstray
  cases hstray

end FrameChain
