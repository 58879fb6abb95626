import FrameChain.Proofs.Moment.Run

set_option autoImplicit false

namespace FrameChain

variable {κ ω : Type}

structure Scene.Accepting (s : Scene κ) (m : Message) (recipient : Subscription) : Prop where
  running : s.lifecycle? recipient.component = some .running
  subscribed : ∃ sub ∈ s.bus.subscribers m.key, sub.component = recipient.component
  admitted : ∀ filter, recipient.filter = some filter →
    ∃ origin, m.origin = some origin ∧ s.isMatch origin filter = true

theorem Scene.accepts_iff (s : Scene κ) (m : Message) (recipient : Subscription) :
    s.accepts m recipient = true ↔ s.Accepting m recipient := by
  simp only [Scene.accepts, Bool.and_eq_true, decide_eq_true_eq, Bus.isSubscribed, List.any_eq_true,
    beq_iff_eq]
  constructor
  · rintro ⟨⟨hr, hs⟩, hf⟩
    refine ⟨hr, hs, fun filter heq => ?_⟩
    rw [heq] at hf
    cases ho : m.origin with
    | none =>
      rw [ho] at hf
      cases hf
    | some origin =>
      rw [ho] at hf
      exact ⟨origin, rfl, hf⟩
  · rintro ⟨hr, hs, hf⟩
    refine ⟨⟨hr, hs⟩, ?_⟩
    cases heq : recipient.filter with
    | none => rfl
    | some filter =>
      obtain ⟨origin, ho, hmatch⟩ := hf filter heq
      simp only [ho, hmatch]

/-- The turns of a delivery, with the number of its message. -/
def Delivery.turns (n : Nat) (d : Delivery) : List (Nat × Message × Subscription) :=
  d.recipients.map fun recipient => (n, d.message, recipient)

namespace Mark

def sent? : Mark κ → Option Message
  | hosted _ (.send key data origin) => some ⟨key, data, origin⟩
  | asked self _ (.send key data) _ => some ⟨key, data, some self.entity⟩
  | _ => none

def taken? : Mark κ → Option Delivery
  | taken _ d => some d
  | _ => none

/-- The turns that become due when a mark is made after `n` messages were taken. -/
def owed (n : Nat) : Mark κ → List (Nat × Message × Subscription)
  | taken _ d => d.turns (n + 1)
  | _ => []

def turn (n : Nat) : Mark κ → List (Nat × Message × Subscription)
  | served _ m recipient | passed _ m recipient => [(n, m, recipient)]
  | _ => []

def serve (n : Nat) : Mark κ → List (Nat × Message × Subscription)
  | served _ m recipient => [(n, m, recipient)]
  | _ => []

def delivery (n : Nat) : Mark κ → List (Nat × Message × ComponentId)
  | called (.message m) self _ => [(n, m, self.component)]
  | _ => []

def Fair : Mark κ → Prop
  | taken s d =>
      s.interrupted = none ∧ (∃ rest, s.bus.queue = d.message :: rest) ∧
        d.recipients = s.bus.subscribers d.message.key ∧ (d.recipients.map (·.component)).Nodup
  | served s m recipient => s.Accepting m recipient
  | passed s m recipient => ¬ s.Accepting m recipient
  | _ => True

end Mark

namespace Journal

def sent (j : Journal κ) : List Message := j.filterMap Mark.sent?

def taken (j : Journal κ) : List Delivery := j.filterMap Mark.taken?

/-- Collects from each mark, given the number of messages taken before it. -/
def collect {τ : Type} (f : Nat → Mark κ → List τ) (n : Nat) : Journal κ → List τ
  | [] => []
  | mark :: rest => f n mark ++ collect f (n + mark.taken?.toList.length) rest

/-- All turns of the messages taken so far. -/
def owed (j : Journal κ) : List (Nat × Message × Subscription) := collect Mark.owed 0 j

def turns (j : Journal κ) : List (Nat × Message × Subscription) := collect Mark.turn 0 j

def serves (j : Journal κ) : List (Nat × Message × Subscription) := collect Mark.serve 0 j

def deliveries (j : Journal κ) : List (Nat × Message × ComponentId) := collect Mark.delivery 0 j

theorem taken_append (j marks : Journal κ) : taken (j ++ marks) = taken j ++ taken marks :=
  List.filterMap_append

theorem sent_append (j marks : Journal κ) : sent (j ++ marks) = sent j ++ sent marks :=
  List.filterMap_append

theorem collect_append {τ : Type} (f : Nat → Mark κ → List τ) (n : Nat) (j marks : Journal κ) :
    collect f n (j ++ marks) = collect f n j ++ collect f (n + (taken j).length) marks := by
  induction j generalizing n with
  | nil => rfl
  | cons mark rest ih =>
    have hlen : (taken (mark :: rest)).length = mark.taken?.toList.length + (taken rest).length := by
      cases h : mark.taken? with
      | none => simp [taken, h]
      | some d => simp [taken, h, Nat.add_comm]
    simp only [List.cons_append, collect, ih, List.append_assoc, hlen, Nat.add_assoc]

theorem collect_eq_nil {τ : Type} {f : Nat → Mark κ → List τ} {marks : Journal κ}
    (h : ∀ n, ∀ mark ∈ marks, f n mark = []) (n : Nat) : collect f n marks = [] := by
  induction marks generalizing n with
  | nil => rfl
  | cons mark rest ih =>
    simp only [collect, h n mark List.mem_cons_self, List.nil_append]
    exact ih (fun n mark hm => h n mark (List.mem_cons_of_mem _ hm)) _

theorem collect_concat {τ : Type} (f : Nat → Mark κ → List τ) (j : Journal κ) (mark : Mark κ) :
    collect f 0 (j ++ [mark]) = collect f 0 j ++ f (taken j).length mark := by
  rw [collect_append, Nat.zero_add]
  simp only [collect, List.append_nil]

theorem lt_of_mem_owed {j : Journal κ} {n k : Nat} {m : Message} {recipient : Subscription}
    (h : (k, m, recipient) ∈ collect Mark.owed n j) : n < k := by
  induction j generalizing n with
  | nil => cases h
  | cons mark rest ih =>
    rcases List.mem_append.1 h with h | h
    · cases mark with
      | taken s d =>
        obtain ⟨r, _, heq⟩ := List.mem_map.1 h
        cases heq
        exact Nat.lt_succ_self n
      | _ => cases h
    · exact Nat.lt_of_le_of_lt (Nat.le_add_right ..) (ih h)

theorem owed_nodup {j : Journal κ} (n : Nat)
    (h : ∀ d ∈ taken j, (d.recipients.map (·.component)).Nodup) :
    ((collect Mark.owed n j).map fun turn => (turn.1, turn.2.2.component)).Nodup := by
  induction j generalizing n with
  | nil => exact List.nodup_nil
  | cons mark rest ih =>
    have hrest : ∀ d ∈ taken rest, (d.recipients.map (·.component)).Nodup := by
      intro d hd
      refine h d ?_
      rw [← List.singleton_append, taken_append]
      exact List.mem_append_right _ hd
    cases mark with
    | taken s d =>
      change ((d.turns (n + 1) ++ collect Mark.owed (n + 1) rest).map _).Nodup
      rw [List.map_append, List.nodup_append]
      refine ⟨?_, ih _ hrest, ?_⟩
      · have hd := h d (List.mem_filterMap.2 ⟨_, List.mem_cons_self, rfl⟩)
        unfold Delivery.turns
        rw [List.map_map]
        exact (List.pairwise_map.1 hd).map _ fun _ _ hne heq => hne (congrArg Prod.snd heq)
      · intro a ha c hc heq
        obtain ⟨_, ht, rfl⟩ := List.mem_map.1 ha
        obtain ⟨r, _, rfl⟩ := List.mem_map.1 ht
        obtain ⟨⟨k, m, r'⟩, ht', rfl⟩ := List.mem_map.1 hc
        have hlt := lt_of_mem_owed ht'
        have hk : n + 1 = k := congrArg Prod.fst heq
        omega
    | _ => exact ih _ hrest

end Journal

/-- What waits to be delivered, the interrupted message first. -/
def Scene.mail (s : Scene κ) : Option Delivery × List Message := (s.interrupted, s.bus.queue)

namespace Scene

theorem mail_detachDoomed (s : Scene κ) : s.detachDoomed.mail = s.mail := by
  refine (foldl_frame mail (fun s entity => ?_) _ _).trans rfl
  unfold detachComponents
  cases s.entity? entity with
  | none => rfl
  | some e =>
    refine foldl_frame mail (fun s id => ?_) e.components s
    rfl

theorem mail_clear (s : Scene κ) (doomed : List EntityId) :
    (doomed.foldl removeIfEmpty s).mail = s.mail := by
  refine foldl_frame mail (fun s entity => ?_) doomed s
  unfold removeIfEmpty
  split <;> rfl

theorem mail_stop (s : Scene κ) (id : ComponentId) (ending : Ending) :
    (s.stop id ending).2.mail = s.mail := by
  unfold stop
  cases s.slot? id <;> rfl

theorem mail_removeEntity (s : Scene κ) (id : EntityId) : (s.removeEntity id).2.mail = s.mail := by
  unfold removeEntity
  split
  · rfl
  · split <;> rfl

theorem mail_addComponent [Named κ] (s : Scene κ) (owner : EntityId) (component : κ) :
    (s.addComponent owner component).2.mail = s.mail := by
  unfold addComponent
  split <;> rfl

theorem mail_subscribe (s : Scene κ) (key : String) (component : ComponentId)
    (filter : Option Condition) : (s.subscribe key component filter).2.mail = s.mail := by
  unfold subscribe
  split
  · rfl
  · simp only [mail, Bus.queue_subscribe]

theorem mail_silent {s s' : Scene κ} {mark : Mark κ} (h : mark.sent? = none)
    (hm : s'.mail = s.mail) :
    s'.mail = (s.interrupted, s.bus.queue ++ mark.sent?.toList) := by
  rw [hm, h, Option.toList_none, List.append_nil]
  rfl

theorem mail_apply [Named κ] (s : Scene κ) (c : HostCall κ) :
    (c.apply s).2.mail = (s.interrupted, s.bus.queue ++ (Mark.hosted s c).sent?.toList) := by
  cases c with
  | send key data origin => rfl
  | removeEntity id => exact mail_silent rfl (s.mail_removeEntity id)
  | addComponent owner component => exact mail_silent rfl (s.mail_addComponent owner component)
  | stop id ending => exact mail_silent rfl (s.mail_stop id ending)
  | subscribe key component filter => exact mail_silent rfl (s.mail_subscribe key component filter)
  | _ => exact mail_silent rfl rfl

theorem mail_answer [Named κ] (s : Scene κ) (self : Caller) (r : Request κ) :
    (r.answer self s).2.mail =
      (s.interrupted, s.bus.queue ++ (Mark.asked self s r (r.answer self s).1).sent?.toList) := by
  cases r with
  | send key data => rfl
  | removeEntity id => exact mail_silent rfl (s.mail_removeEntity id)
  | addComponent owner component => exact mail_silent rfl (s.mail_addComponent owner component)
  | stop id ending => exact mail_silent rfl (s.mail_stop id ending)
  | subscribe key filter => exact mail_silent rfl (s.mail_subscribe key self.component filter)
  | _ => exact mail_silent rfl rfl

end Scene

/-! ## Faithful moments -/

/-- The message in delivery, with the recipients whose turn is still to come. -/
def Phase.delivery? : Phase κ → Option Delivery
  | serving _ message rest | reaching _ message _ rest => some ⟨message, rest⟩
  | _ => none

namespace Moment

def left (m : Moment κ) : Option Delivery := m.phase.delivery?.or m.scene.interrupted

/-- The recipient that has accepted and is called next. -/
def pending (m : Moment κ) : Option (Message × Subscription) :=
  match m.calling, m.phase with
  | none, .reaching _ message recipient _ => some (message, recipient)
  | _, _ => none

end Moment

namespace Mark

def isPost : Mark κ → Bool
  | taken .. | served .. | passed .. | called (.message _) _ _ => true
  | _ => false

theorem taken?_of_not_isPost {mark : Mark κ} (h : mark.isPost = false) : mark.taken? = none := by
  cases mark <;> first | rfl | cases h

theorem owed_of_taken? {mark : Mark κ} (h : mark.taken? = none) (n : Nat) : mark.owed n = [] := by
  cases mark <;> first | rfl | cases h

theorem owed_of_not_isPost {mark : Mark κ} (h : mark.isPost = false) (n : Nat) :
    mark.owed n = [] := owed_of_taken? (taken?_of_not_isPost h) n

theorem turn_of_not_isPost {mark : Mark κ} (h : mark.isPost = false) (n : Nat) :
    mark.turn n = [] := by
  cases mark <;> first | rfl | cases h

theorem serve_of_not_isPost {mark : Mark κ} (h : mark.isPost = false) (n : Nat) :
    mark.serve n = [] := by
  cases mark <;> first | rfl | cases h

theorem delivery_of_not_isPost {mark : Mark κ} (h : mark.isPost = false) (n : Nat) :
    mark.delivery n = [] := by
  cases mark with
  | called callback self s => cases callback <;> first | rfl | cases h
  | _ => rfl

theorem fair_of_not_isPost {mark : Mark κ} (h : mark.isPost = false) : mark.Fair := by
  cases mark <;> first | exact True.intro | cases h

end Mark

/-- Whoever accepts a message is called with it next, in the same scene. -/
def Journal.Answered (j : Journal κ) (s : Scene κ) (pending : Option (Message × Subscription)) :
    Prop :=
  ∀ before s' message recipient after, j = before ++ .served s' message recipient :: after →
    (∃ owner rest, after =
      .called (.message message) ⟨owner, recipient.component⟩ (s'.takeOut recipient.component) ::
        rest) ∨
    after = [] ∧ pending = some (message, recipient) ∧ s' = s

structure Moment.Faithful (m : Moment κ) : Prop where
  fifo : m.journal.sent = m.journal.taken.map (·.message) ++ m.scene.bus.queue
  turns : m.journal.owed =
    m.journal.turns ++ m.left.toList.flatMap (Delivery.turns m.journal.taken.length)
  free : m.phase.delivery? = none ∨ m.scene.interrupted = none
  deliveries : (m.journal.serves.map fun turn => (turn.1, turn.2.1, turn.2.2.component)) =
    m.journal.deliveries ++
      m.pending.toList.map fun p => (m.journal.taken.length, p.1, p.2.component)
  fair : ∀ mark ∈ m.journal, mark.Fair
  answered : m.journal.Answered m.scene m.pending

namespace Moment.Faithful

theorem empty : (⟨.idle, none, {}, []⟩ : Moment κ).Faithful := by
  refine ⟨rfl, rfl, .inl rfl, rfl, ?_, ?_⟩
  · intro mark h
    exact absurd h List.not_mem_nil
  · intro before s m recipient after h
    cases before <;> cases h

theorem answered_append {j marks : Journal κ} {s s' : Scene κ}
    {pending : Option (Message × Subscription)} (h : j.Answered s none)
    (hm : Journal.Answered marks s' pending) : Journal.Answered (j ++ marks) s' pending := by
  intro before t message recipient after heq
  rcases List.append_eq_append_iff.1 heq with ⟨before', rfl, hmarks⟩ | ⟨after', hj, hafter⟩
  · exact hm before' t message recipient after hmarks
  · cases after' with
    | nil => exact hm [] t message recipient after (by simpa using hafter.symm)
    | cons mark after' =>
      simp only [List.cons_append, List.cons.injEq] at hafter
      obtain ⟨rfl, rfl⟩ := hafter
      rcases h before t message recipient after' hj with ⟨owner, rest, hrest⟩ | ⟨_, hnone, _⟩
      · exact .inl ⟨owner, rest ++ marks, by rw [hrest, List.cons_append]⟩
      · cases hnone

theorem answered_of_not_isPost {marks : Journal κ} (h : ∀ mark ∈ marks, mark.isPost = false)
    (s : Scene κ) (pending : Option (Message × Subscription)) :
    Journal.Answered marks s pending := by
  intro before t message recipient after heq
  have hmark := h (.served t message recipient) (by simp [heq])
  cases hmark

theorem quiet {p p' : Phase κ} {calling calling' : Option Caller} {s s' : Scene κ}
    {j marks : Journal κ} (h : (⟨p, calling, s, j⟩ : Moment κ).Faithful)
    (hm : ∀ mark ∈ marks, mark.isPost = false)
    (hqueue : s'.bus.queue = s.bus.queue ++ Journal.sent marks)
    (hleft : ∀ n, (Moment.left ⟨p', calling', s', j ++ marks⟩).toList.flatMap (Delivery.turns n) =
      (Moment.left ⟨p, calling, s, j⟩).toList.flatMap (Delivery.turns n))
    (hfree : p'.delivery? = none ∨ s'.interrupted = none)
    (hp : Moment.pending ⟨p, calling, s, j⟩ = none)
    (hp' : Moment.pending ⟨p', calling', s', j ++ marks⟩ = none) :
    (⟨p', calling', s', j ++ marks⟩ : Moment κ).Faithful := by
  have htaken : Journal.taken (j ++ marks) = Journal.taken j := by
    rw [Journal.taken_append]
    have hnil : Journal.taken marks = [] :=
      List.filterMap_eq_nil_iff.2 fun mark hmark => Mark.taken?_of_not_isPost (hm mark hmark)
    rw [hnil, List.append_nil]
  have hcollect {τ : Type} (f : Nat → Mark κ → List τ)
      (hf : ∀ mark : Mark κ, mark.isPost = false → ∀ n, f n mark = []) :
      Journal.collect f 0 (j ++ marks) = Journal.collect f 0 j := by
    rw [Journal.collect_append,
      Journal.collect_eq_nil (fun n mark hmark => hf mark (hm mark hmark) n), List.append_nil]
  refine ⟨?_, ?_, hfree, ?_, ?_, ?_⟩
  · change Journal.sent (j ++ marks) = _
    rw [Journal.sent_append, htaken, hqueue, ← List.append_assoc]
    exact congrArg (· ++ Journal.sent marks) h.fifo
  · change Journal.collect Mark.owed 0 (j ++ marks) = Journal.collect Mark.turn 0 (j ++ marks) ++ _
    rw [hcollect _ fun _ => Mark.owed_of_not_isPost, hcollect _ fun _ => Mark.turn_of_not_isPost,
      hleft, htaken]
    exact h.turns
  · change (Journal.collect Mark.serve 0 (j ++ marks)).map _ =
      Journal.collect Mark.delivery 0 (j ++ marks) ++ _
    rw [hcollect _ fun _ => Mark.serve_of_not_isPost,
      hcollect _ fun _ => Mark.delivery_of_not_isPost, hp']
    have hd := h.deliveries
    rw [hp] at hd
    exact hd
  · intro mark hmark
    rcases List.mem_append.1 hmark with hmark | hmark
    · exact h.fair mark hmark
    · exact Mark.fair_of_not_isPost (hm mark hmark)
  · have ha := h.answered
    rw [hp] at ha
    exact answered_append ha (answered_of_not_isPost hm _ _)

theorem quiet_same {p p' : Phase κ} {s s' : Scene κ} {j marks : Journal κ}
    (h : (⟨p, none, s, j⟩ : Moment κ).Faithful) (hm : ∀ mark ∈ marks, mark.isPost = false)
    (hsent : Journal.sent marks = []) (hmail : s'.mail = s.mail)
    (hp : p.delivery? = none) (hp' : p'.delivery? = none)
    (hpending : Moment.pending ⟨p, none, s, j⟩ = none)
    (hpending' : Moment.pending ⟨p', none, s', j ++ marks⟩ = none) :
    (⟨p', none, s', j ++ marks⟩ : Moment κ).Faithful := by
  refine h.quiet hm ?_ (fun n => ?_) (.inl hp') hpending hpending'
  · rw [hsent, List.append_nil]
    exact congrArg Prod.snd hmail
  · have hi : s'.interrupted = s.interrupted := congrArg Prod.fst hmail
    simp only [Moment.left, hp, hp', hi]

theorem move {s : Scene κ} {j : Journal κ} {p p' : Phase κ}
    (h : (⟨p, none, s, j⟩ : Moment κ).Faithful) (hm : Move s p p') :
    (⟨p', none, s, j⟩ : Moment κ).Faithful := by
  rw [← List.append_nil j]
  cases hm with
  | delivered =>
    refine h.quiet (List.forall_mem_nil _) (List.append_nil _).symm (fun n => ?_) (.inl rfl) rfl rfl
    have hi : s.interrupted = none := h.free.resolve_left nofun
    change s.interrupted.toList.flatMap _ = _
    rw [hi]
    rfl
  | _ => exact h.quiet_same (List.forall_mem_nil _) rfl rfl rfl rfl rfl rfl

theorem take {s : Scene κ} {j : Journal κ} {late : Bool} {m : Message} {bus : Bus}
    (h : (⟨.dispatching late, none, s, j⟩ : Moment κ).Faithful) (htidy : s.bus.Tidy)
    (hi : s.interrupted = none) (hpop : s.bus.pop? = some (m, bus)) :
    (⟨.serving late m (s.bus.subscribers m.key), none, { s with bus },
      j ++ [.taken s ⟨m, s.bus.subscribers m.key⟩]⟩ : Moment κ).Faithful := by
  obtain ⟨hqueue, _⟩ := (Bus.pop?_eq_some_iff _ _ _).1 hpop
  refine ⟨?_, ?_, .inr hi, ?_, ?_, ?_⟩
  · have hf : Journal.sent j = (Journal.taken j).map (·.message) ++ s.bus.queue := h.fifo
    change Journal.sent (j ++ _) = (Journal.taken (j ++ _)).map _ ++ bus.queue
    rw [Journal.sent_append, Journal.taken_append, hf, hqueue]
    simp [Journal.sent, Journal.taken, Mark.sent?, Mark.taken?]
  · have ht : Journal.owed j = Journal.turns j ++ s.interrupted.toList.flatMap _ := h.turns
    rw [hi, Option.toList_none, List.flatMap_nil, List.append_nil] at ht
    change Journal.collect _ 0 (j ++ _) = Journal.collect _ 0 (j ++ _) ++ _
    rw [Journal.collect_concat, Journal.collect_concat]
    change Journal.owed j ++ _ = Journal.turns j ++ _ ++ _
    rw [ht]
    simp [Mark.owed, Mark.turn, Moment.left, Phase.delivery?, Journal.taken, Mark.taken?]
  · have hd := h.deliveries
    change (Journal.collect _ 0 (j ++ _)).map _ = Journal.collect _ 0 (j ++ _) ++ _
    rw [Journal.collect_concat, Journal.collect_concat]
    simp only [Mark.serve, Mark.delivery, List.append_nil]
    exact hd
  · intro mark hmark
    rcases List.mem_append.1 hmark with hmark | hmark
    · exact h.fair mark hmark
    · rw [List.mem_singleton.1 hmark]
      exact ⟨hi, ⟨bus.queue, hqueue⟩, rfl, htidy.subscribers_nodup m.key⟩
  · refine answered_append h.answered fun before t message recipient after heq => ?_
    cases before <;> simp at heq

theorem extend {m m' : Moment κ} {mark : Mark κ} (h : m.Faithful)
    (hj : m'.journal = m.journal ++ [mark]) (hqueue : m'.scene.bus.queue = m.scene.bus.queue)
    (hsent : mark.sent? = none) (htaken : mark.taken? = none)
    (hleft : ∀ n, m.left.toList.flatMap (Delivery.turns n) =
      mark.turn n ++ m'.left.toList.flatMap (Delivery.turns n))
    (hcalls : ∀ n : Nat, (m.pending.toList.map fun p => (n, p.1, p.2.component)) ++
        (mark.serve n).map (fun turn => (turn.1, turn.2.1, turn.2.2.component)) =
      mark.delivery n ++ m'.pending.toList.map fun p => (n, p.1, p.2.component))
    (hfree : m'.phase.delivery? = none ∨ m'.scene.interrupted = none) (hfair : mark.Fair)
    (ha : m'.journal.Answered m'.scene m'.pending) : m'.Faithful := by
  have hsame : Journal.taken (m.journal ++ [mark]) = Journal.taken m.journal := by
    rw [Journal.taken_append]
    simp [Journal.taken, htaken]
  refine ⟨?_, ?_, hfree, ?_, ?_, ha⟩
  · have hnone : Journal.sent (m.journal ++ [mark]) = Journal.sent m.journal := by
      rw [Journal.sent_append]
      simp [Journal.sent, hsent]
    rw [hj, hnone, hsame, hqueue]
    exact h.fifo
  · rw [hj, Journal.owed, Journal.turns, Journal.collect_concat, Journal.collect_concat,
      Mark.owed_of_taken? htaken, List.append_nil, hsame, List.append_assoc, ← hleft]
    exact h.turns
  · rw [hj, Journal.serves, Journal.deliveries, Journal.collect_concat, Journal.collect_concat,
      hsame, List.map_append, List.append_assoc, ← hcalls, ← List.append_assoc]
    exact congrArg (· ++ _) h.deliveries
  · rw [hj]
    exact List.forall_mem_append.2 ⟨h.fair, List.forall_mem_singleton.2 hfair⟩

theorem serve {s : Scene κ} {j : Journal κ} {late : Bool} {m : Message} {recipient : Subscription}
    {rest : List Subscription}
    (h : (⟨.serving late m (recipient :: rest), none, s, j⟩ : Moment κ).Faithful)
    (ha : s.accepts m recipient = true) :
    (⟨.reaching late m recipient rest, none, s, j ++ [.served s m recipient]⟩ :
      Moment κ).Faithful := by
  refine h.extend rfl rfl rfl rfl (fun n => rfl) (fun n => rfl) (.inr (h.free.resolve_left nofun))
    ((s.accepts_iff m recipient).1 ha) ?_
  refine answered_append h.answered fun before t message recipient' after heq => ?_
  cases before with
  | nil =>
    cases heq
    exact .inr ⟨rfl, rfl, rfl⟩
  | cons mark before => simp at heq

theorem pass {s : Scene κ} {j : Journal κ} {late : Bool} {m : Message} {recipient : Subscription}
    {rest : List Subscription}
    (h : (⟨.serving late m (recipient :: rest), none, s, j⟩ : Moment κ).Faithful)
    (ha : s.accepts m recipient = false) :
    (⟨.serving late m rest, none, s, j ++ [.passed s m recipient]⟩ : Moment κ).Faithful := by
  refine h.extend rfl rfl rfl rfl (fun n => rfl) (fun n => rfl) (.inr (h.free.resolve_left nofun))
    (fun hacc => ?_) ?_
  · rw [(s.accepts_iff m recipient).2 hacc] at ha
    cases ha
  · refine answered_append h.answered fun before t message recipient' after heq => ?_
    cases before <;> simp at heq

theorem act {s s' : Scene κ} {j marks : Journal κ} {p p' : Phase κ}
    (h : (⟨p, none, s, j⟩ : Moment κ).Faithful) (htidy : s.bus.Tidy) (ha : Act s p p' s' marks) :
    (⟨p', none, s', j ++ marks⟩ : Moment κ).Faithful := by
  cases ha with
  | resume hi =>
    refine h.quiet (List.forall_mem_nil _) (List.append_nil _).symm (fun n => ?_) (.inr rfl) rfl rfl
    simp only [Moment.left, Phase.delivery?, hi, Option.none_or, Option.some_or]
  | take hi hpop => exact h.take htidy hi hpop
  | serve ha => exact h.serve ha
  | pass ha => exact h.pass ha
  | round =>
    exact h.quiet_same (List.forall_mem_nil _) rfl s.mail_detachDoomed rfl rfl rfl rfl
  | @clear doomed =>
    exact h.quiet_same (List.forall_mem_nil _) rfl (s.mail_clear doomed) rfl rfl rfl rfl
  | _ => exact h.quiet_same (List.forall_mem_nil _) rfl rfl rfl rfl rfl rfl

theorem reach {s : Scene κ} {j : Journal κ} {late : Bool} {m : Message} {recipient : Subscription}
    {rest : List Subscription} {owner : EntityId}
    (h : (⟨.reaching late m recipient rest, none, s, j⟩ : Moment κ).Faithful) :
    (⟨.reaching late m recipient rest, some ⟨owner, recipient.component⟩,
      s.takeOut recipient.component,
      j ++ [.called (.message m) ⟨owner, recipient.component⟩ (s.takeOut recipient.component)]⟩ :
        Moment κ).Faithful := by
  refine h.extend rfl rfl rfl rfl (fun n => rfl) (fun n => rfl) h.free trivial ?_
  intro before t message recipient' after heq
  rcases List.append_eq_append_iff.1 heq with ⟨before', _, hmarks⟩ | ⟨after', hj, hafter⟩
  · cases before' <;> simp at hmarks
  · cases after' with
    | nil => simp at hafter
    | cons mark after' =>
      simp only [List.cons_append, List.cons.injEq] at hafter
      obtain ⟨rfl, rfl⟩ := hafter
      rcases h.answered before t message recipient' after' hj with ⟨o, rest', hrest⟩ | ⟨hnil, hp, hs⟩
      · exact .inl ⟨o, rest' ++ _, by rw [hrest, List.cons_append]⟩
      · cases hp
        subst hs
        exact .inl ⟨owner, [], by rw [hnil, List.nil_append]⟩

theorem recover {p : Phase κ} {c : Callback} {id : ComponentId} (hc : p.callee = some (c, id))
    (s : Scene κ) :
    (p.recover s).bus.queue = s.bus.queue ∧
      (p.recover s).interrupted = p.delivery?.or s.interrupted := by
  cases p with
  | initializing x batch =>
    have hmail := s.mail_stop x .detached
    exact ⟨congrArg Prod.snd hmail, congrArg Prod.fst hmail⟩
  | joining x batch =>
    have hmail := s.mail_stop x .detached
    exact ⟨congrArg Prod.snd hmail, congrArg Prod.fst hmail⟩
  | reaching | ticking | ending | removing => exact ⟨rfl, rfl⟩
  | _ => cases hc

section

variable [Named κ]

theorem onward {m m' : Moment κ} (h : m.Faithful) (hsound : m.Sound) (hs : Onward m m') :
    m'.Faithful := by
  cases hs with
  | @hosted s j c =>
    have hmail := s.mail_apply c
    refine h.quiet ?_ ?_ (fun n => ?_) (.inl rfl) rfl rfl
    · intro mark hmark
      rw [List.mem_singleton.1 hmark]
      rfl
    · refine (congrArg Prod.snd hmail).trans ?_
      simp only [Journal.sent]
      cases hsent : (Mark.hosted s c).sent? <;> simp [hsent]
    · have hi : (c.apply s).2.interrupted = s.interrupted := congrArg Prod.fst hmail
      simp only [Moment.left, hi]
  | move hm => exact h.move hm
  | act ha => exact h.act hsound.scene.tidy ha
  | @call p callback id s j slot hp hslot =>
    cases p with
    | reaching late m recipient rest =>
      cases hp
      -- Of all calls only this one is that of a delivery.
      exact h.reach
    | initializing | joining | ticking | removing =>
      cases hp
      refine h.quiet ?_ (List.append_nil _).symm (fun n => rfl) (.inl rfl) rfl rfl
      intro mark hmark
      rw [List.mem_singleton.1 hmark]
      rfl
    | ending slot doomed rest =>
      cases hp
      refine h.quiet ?_ (List.append_nil _).symm (fun n => rfl) (.inl rfl) rfl rfl
      intro mark hmark
      rw [List.mem_singleton.1 hmark]
      split <;> rfl
    | _ => cases hp
  | @ask p self s j r =>
    have hmail := s.mail_answer self r
    have hi : (r.answer self s).2.interrupted = s.interrupted := congrArg Prod.fst hmail
    refine h.quiet ?_ ?_ (fun n => ?_) ?_ rfl rfl
    · intro mark hmark
      rw [List.mem_singleton.1 hmark]
      rfl
    · refine (congrArg Prod.snd hmail).trans ?_
      simp only [Journal.sent]
      cases hsent : (Mark.asked self s r (r.answer self s).1).sent? <;> simp [hsent]
    · simp only [Moment.left, hi]
    · rw [hi]
      exact h.free
  | @back p self s j component =>
    have hq : (⟨p.next, none, s.putBack self.component component, j ++ []⟩ : Moment κ).Faithful := by
      refine h.quiet (List.forall_mem_nil _) (List.append_nil _).symm (fun n => ?_) ?_ rfl ?_
      · cases p <;> rfl
      · rcases h.free with hd | hi
        · left
          cases p <;> first | rfl | cases hd
        · exact .inr hi
      · cases p <;> rfl
    rwa [List.append_nil] at hq

theorem step {m m' : Moment κ} (h : m.Faithful) (hsound : m.Sound) (hs : Step m m') :
    m'.Faithful := by
  cases hs with
  | onward hf => exact h.onward hsound hf
  | @fail p self s j component =>
    obtain ⟨callback, hc⟩ := hsound.due self rfl
    obtain ⟨hqueue, hinterrupted⟩ := recover hc (s.putBack self.component component)
    refine h.quiet ?_ ?_ (fun n => ?_) (.inl rfl) rfl rfl
    · intro mark hmark
      cases p with
      | ending | removing =>
        rw [List.mem_singleton.1 hmark]
        rfl
      | _ => cases hmark
    · have hsent : Journal.sent p.losses = [] := by
        cases p <;> rfl
      rw [hqueue, hsent, List.append_nil]
      rfl
    · simp only [Moment.left, hinterrupted]
      rfl

theorem along {m m' : Moment κ} (h : m.Faithful) (hsound : m.Sound) (hp : Path m m') :
    m'.Faithful := by
  have hboth := hp.keeps (P := fun m => m.Sound ∧ m.Faithful)
    (fun _ _ hm hs => ⟨hm.1.step hs, hm.2.step hm.1 hs⟩) ⟨hsound, h⟩
  exact hboth.2

end

end Moment.Faithful

theorem triple_deliver_quiet [Named κ] (b : Behaviour κ ω) (fuel : Nat) :
    Turn.Triple (fun _ => True) (Scene.deliver b fuel) (fun _ σ => σ.scene.mail = (none, []))
      fun _ _ => True := by
  induction fuel with
  | zero => exact Turn.triple_crash fun _ _ => trivial
  | succ fuel ih =>
    refine Turn.triple_scene fun s => ?_
    cases hnext : s.nextDelivery? with
    | none =>
      refine Turn.triple_pure fun σ ⟨_, hs⟩ => ?_
      obtain ⟨hi, hq⟩ := s.nextDelivery?_eq_none_iff.1 hnext
      rw [hs, Scene.mail, hi, hq]
    | some next =>
      refine Turn.triple_bind (Turn.triple_trivial _) fun _ => ?_
      exact Turn.triple_bind (Turn.triple_trivial _) fun _ => ih

theorem deliver_quiet [Named κ] (b : Behaviour κ ω) (fuel : Nat) (σ : Setting κ ω)
    (h : ((Scene.deliver b fuel).outcome σ).1 = .ok ()) :
    ((Scene.deliver b fuel).outcome σ).2.scene.mail = (none, []) := by
  have hends := triple_deliver_quiet b fuel σ trivial
  cases ho : (Scene.deliver b fuel).outcome σ with
  | mk answer σ' =>
    rw [ho] at h hends
    cases h
    exact hends

theorem Journal.serves_sublist (j : Journal κ) : j.serves.Sublist j.turns := by
  suffices h : ∀ n, (collect Mark.serve n j).Sublist (collect Mark.turn n j) from h 0
  intro n
  induction j generalizing n with
  | nil => exact List.Sublist.refl _
  | cons mark rest ih =>
    refine List.Sublist.append ?_ (ih _)
    cases mark <;> first | exact List.Sublist.refl _ | exact List.nil_sublist _

theorem Moment.Faithful.deliveries_nodup {m : Moment κ} (h : m.Faithful)
    (hp : m.pending = none) : (m.journal.deliveries.map fun call => (call.1, call.2.2)).Nodup := by
  have howed : (m.journal.owed.map fun turn => (turn.1, turn.2.2.component)).Nodup := by
    refine Journal.owed_nodup 0 fun d hd => ?_
    obtain ⟨mark, hmark, htaken⟩ := List.mem_filterMap.1 hd
    have hfair := h.fair mark hmark
    cases mark with
    | taken s d' =>
      cases htaken
      exact hfair.2.2.2
    | _ => cases htaken
  rw [h.turns, List.map_append, List.nodup_append] at howed
  have hserves := (m.journal.serves_sublist.map fun turn =>
    (turn.1, turn.2.2.component)).nodup howed.1
  have hd := congrArg (List.map fun call => (call.1, call.2.2)) h.deliveries
  rw [hp, Option.toList_none, List.map_nil, List.append_nil, List.map_map] at hd
  rw [← hd]
  exact hserves

section

variable [Named κ]

/-- What the journal of any history says of its messages, up to its end or to a crash. Messages leave
the queue in the order in which they were sent, and their recipients are the subscribers of that moment.
Recipients have their turns in that order too, and turns are left of one message only, which a history
that ended well keeps as the interrupted one. A recipient is called at its turn, right away, exactly
when it accepts the message there, and never twice with one message. -/
theorem delivery_history (b : Behaviour κ ω) (w : ω) (ops : List (HostOp κ ω)) :
    let j := (recording b w ops).2.world.2
    let s := (recording b w ops).2.scene
    ((recording b w ops).1, (recording b w ops).2.erase) = ending b w ops ∧
    j.sent = j.taken.map (·.message) ++ s.bus.queue ∧
    (∃ left : Option Delivery,
      j.owed = j.turns ++ left.toList.flatMap (Delivery.turns j.taken.length) ∧
      ((ending b w ops).1 = .ok () → left = s.interrupted)) ∧
    (∀ mark ∈ j, mark.Fair) ∧
    j.deliveries = (j.serves.map fun turn => (turn.1, turn.2.1, turn.2.2.component)) ∧
    (∀ before s' m recipient after, j = before ++ .served s' m recipient :: after →
      ∃ owner rest, after =
        .called (.message m) ⟨owner, recipient.component⟩ (s'.takeOut recipient.component) :: rest) ∧
    (j.deliveries.map fun call => (call.1, call.2.2)).Nodup ∧
    ∀ fuel σ, ((Scene.deliver b fuel).outcome σ).1 = .ok () →
      ((Scene.deliver b fuel).outcome σ).2.scene.mail = (none, []) := by
  intro j s
  obtain ⟨p, calling, hat, hdue, hidle⟩ := path_recording b w ops
  let m : Moment κ := ⟨p, calling, s, j⟩
  have h : m.Faithful := Moment.Faithful.empty.along Moment.Sound.empty hat
  have hp : m.pending = none := by
    cases calling with
    | some self => rfl
    | none =>
      have hc := hdue rfl
      cases p <;> first | rfl | cases hc
  have hd := h.deliveries
  rw [hp, Option.toList_none, List.map_nil, List.append_nil] at hd
  refine ⟨erase_recording b w ops, h.fifo, ⟨m.left, h.turns, fun hok => ?_⟩, h.fair, hd.symm, ?_,
    h.deliveries_nodup hp, fun fuel σ => deliver_quiet b fuel σ⟩
  · obtain ⟨rfl, rfl⟩ := hidle ((congrArg Prod.fst (erase_recording b w ops)).trans hok)
    rfl
  · intro before s' message recipient after heq
    rcases h.answered before s' message recipient after heq with hcalled | ⟨_, hpending, _⟩
    · exact hcalled
    · rw [hp] at hpending
      cases hpending

omit [Named κ] in
theorem Mark.exists_of_serve {mark : Mark κ} {n : Nat} (h : (mark.serve n).isEmpty = false) :
    ∃ s m recipient, mark = .served s m recipient := by
  cases mark with
  | served s m recipient => exact ⟨s, m, recipient, rfl⟩
  | _ => cases h

/-- The first of two subscribers fails, and the second is served by the next update. -/
theorem delivery_history_resumed :
    let b : Behaviour Probe Unit := fun callback self probe =>
      match callback with
      | .init => .ask (.subscribe "ping" none) fun _ => .done (.ok (), probe)
      | .message _ =>
          .done (if self.component = ⟨1⟩ then .error (.other "deaf") else .ok (), probe)
      | _ => .done (.ok (), probe)
    let ops : List (HostOp Probe Unit) :=
      [.call (.addEntity "bell"), .call (.addComponent ⟨1⟩ {}), .call (.addComponent ⟨1⟩ {}),
        .update 2 0 0, .call (.send "ping" .null none), .update 2 0 0, .update 2 0 0]
    let j := (recording b () ops).2.world.2
    (j.deliveries.map fun call => (call.1, call.2.2)) = [(1, ⟨1⟩), (1, ⟨2⟩)] ∧ j.owed = j.turns ∧
    ((Scene.deliver b 2).outcome (ending b () ops).2).2.scene.mail = (none, []) ∧
    ∃ before s m recipient owner rest, s.Accepting m recipient ∧ j = before ++
      .served s m recipient :: .called (.message m) ⟨owner, recipient.component⟩
        (s.takeOut recipient.component) :: rest := by
  intro b ops j
  obtain ⟨_, _, ⟨left, howed, hleft⟩, hfair, _, hcalled, _, hquiet⟩ := delivery_history b () ops
  have hi : (recording b () ops).2.scene.interrupted = none :=
    Option.isNone_iff_eq_none.1 (by decide +kernel)
  have hany : j.any (fun mark => !(mark.serve 0).isEmpty) = true := by decide +kernel
  obtain ⟨mark, hmem, hserve⟩ := List.any_eq_true.1 hany
  obtain ⟨s, m, recipient, rfl⟩ := Mark.exists_of_serve (Bool.not_eq_true' _ ▸ hserve)
  obtain ⟨before, after, hj⟩ := List.append_of_mem hmem
  obtain ⟨owner, rest, hafter⟩ := hcalled before s m recipient after hj
  refine ⟨by decide +kernel, ?_, hquiet 2 _ (by decide +kernel), ?_⟩
  · rw [hleft (by decide +kernel), hi, Option.toList_none, List.flatMap_nil, List.append_nil] at howed
    exact howed
  · exact ⟨before, s, m, recipient, owner, rest, hfair _ hmem, hafter ▸ hj⟩

end

end FrameChain
