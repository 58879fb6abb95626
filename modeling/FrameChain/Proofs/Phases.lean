import FrameChain.Proofs.Attachment
import FrameChain.Proofs.Moment.Handover
import FrameChain.Proofs.Moment.Rota

set_option autoImplicit false

namespace FrameChain

variable {κ ω : Type} [Named κ]

/-- What an update notes falls into the parts of its periods, in their order, up to a failure. Whoever is
called was issued before the update. In the updates of the components everybody who runs by then has a turn,
in the order of the ids and up to the first failure, and is called at it unless a callback of an earlier turn
has asked for a stop. What is sent there is delivered in the period after that, and what is sent in the
retirement is all that waits when the update ends. An update that ends well calls in its retirement whoever has
been initialized and has stopped by then. -/
theorem phase_history (b : Behaviour κ ω) (w : ω) (ops : List (HostOp κ ω))
    (hops : (ending b w ops).1 = .ok ()) (fuel : Nat) (delta absolute : Seconds) :
    let σ := (recording b w ops).2
    let update := (Scene.updateRecorded b fuel delta absolute).outcome σ
    let opening := Period.opening b fuel delta absolute σ
    let closing := Period.closing b fuel delta absolute σ
    let noted := Period.noted b fuel delta absolute σ
    σ.erase = (ending b w ops).2 ∧
    (update.1, update.2.erase) = (Scene.update b fuel delta absolute).outcome σ.erase ∧
    update = closing .retiring ∧
    update.2.world.2 = σ.world.2 ++ Period.all.flatMap noted ∧
    (∀ period halt, (opening period).1 = .error halt → noted period = []) ∧
    (∀ period, ∀ mark ∈ noted period, period.notes mark = true) ∧
    (∀ period callback self s, .called callback self s ∈ noted period →
      σ.scene.wasIssued self.component = true) ∧
    (∀ σ₁, opening .updating = (.ok (), σ₁) →
      (∀ id, id ∈ σ₁.scene.running ↔ σ₁.scene.lifecycle? id = some .running) ∧
      ((noted .updating).ticks.Pairwise fun x y => x.val < y.val) ∧
      ∃ turned left, σ₁.scene.running = turned ++ left ∧ (noted .updating).TakesTurns turned ∧
        ((closing .updating).1 = .ok () → left = []) ∧
        ∀ f, (closing .updating).1 = .error (.failure f) →
          ∃ id, turned.getLast? = some id ∧ (noted .updating).ticks.getLast? = some id) ∧
    (∀ σ₁, opening .redelivering = (.ok (), σ₁) →
      let marks := noted .redelivering
      let last := closing .redelivering
      (noted .updating).sent ++ marks.sent = marks.taken.map (·.message) ++ last.2.scene.bus.queue ∧
      (∃ left : Option Delivery,
        marks.owed = marks.turns ++ left.toList.flatMap (Delivery.turns marks.taken.length)) ∧
      (last.1 = .ok () → last.2.scene.bus.queue = [] ∧ marks.owed = marks.turns ∧
        marks.deliveries = marks.serves.map fun turn => (turn.1, turn.2.1, turn.2.2.component))) ∧
    (∀ σ₁, opening .retiring = (.ok (), σ₁) →
      update.2.scene.mail = (none, (noted .retiring).sent)) ∧
    ∀ σ', update = (.ok (), σ') → ∀ id t, σ.scene.slot? id = some t → id ∈ σ'.world.2.inits →
      σ'.scene.isDone id = true →
        σ'.scene.slot? id = none ∧ (noted .retiring).hooks id = [.ended, .removed] := by
  intro σ update opening closing noted
  obtain ⟨hsame, hσ⟩ := reached_idle hops
  have hupdate : update = closing .retiring := Period.outcome_updateRecorded
  rw [hupdate]
  refine ⟨hsame, ?_, rfl, Period.journal_closing hσ, fun period halt => Period.noted_of_error,
    fun period => (Period.closing_journal hσ period).2.1, fun period callback self s hmem =>
      Period.issued_of_called hσ hmem, fun σ₁ ho => Period.closing_updating hσ ho,
    fun σ₁ ho => Period.closing_redelivering hσ ho, fun σ₁ ho => Period.mail_retiring hσ ho,
    fun σ' hok id t ht hinit hdone => Period.hooks_retiring hσ hok ht hinit hdone⟩
  rw [← hupdate]
  exact Turn.erases_update b fuel delta absolute σ

/-- The first of three probes adds another one in its frame, stops the second and rings for the third, which
finishes then and sends a message when it goes. -/
def relay : Behaviour Probe Unit := fun callback self probe =>
  match callback, self.component.val with
  | .init, 3 => .ask (.subscribe "ring" none) fun _ => .done (.ok (), probe)
  | .update .., 1 => .ask (.addComponent self.entity {}) fun _ => .ask (.stop ⟨2⟩ .detached) fun _ =>
      .ask (.send "ring" .null) fun _ => .done (.ok (), probe)
  | .message _, _ => .ask .finish fun _ => .done (.ok (), probe)
  | .remove, 3 => .ask (.send "bye" .null) fun _ => .done (.ok (), probe)
  | _, _ => .done (.ok (), probe)

def relayed (period : Period) : Setting Probe (Unit × Journal Probe) :=
  (Period.opening relay 3 0 0 (recording relay () arrivals).2 period).2

def assembled : Setting Probe (Unit × Journal Probe) :=
  ((Scene.updateRecorded relay 3 0 0).outcome (recording relay () arrivals).2).2

def overheard (period : Period) : Journal Probe :=
  Period.noted relay 3 0 0 (recording relay () arrivals).2 period

/-- The second probe loses its turn and the newcomer is not called. The ring is delivered in the same update,
the message of the retirement is left, and both that have stopped have heard of it. -/
theorem phase_history_relay :
    (overheard .updating).ticks = [⟨1⟩, ⟨3⟩] ∧ (overheard .updating).StopsEarly ⟨2⟩ ∧
    (∀ period callback self s, .called callback self s ∈ overheard period → self.component ≠ ⟨4⟩) ∧
    ((overheard .redelivering).taken.map fun d => d.message.key) = ["ring"] ∧
    assembled.scene.mail = (none, (overheard .retiring).sent) ∧ assembled.scene.bus.pending = 1 ∧
    (overheard .retiring).hooks ⟨2⟩ = [.ended, .removed] ∧
    (overheard .retiring).hooks ⟨3⟩ = [.ended, .removed] := by
  unfold overheard
  obtain ⟨-, -, -, -, -, -, hissued, hupdating, hredelivering, hretiring, hhooks⟩ :=
    phase_history relay () arrivals (by decide +kernel) 3 0 0
  have hopens (period : Period)
      (hok : (Period.opening relay 3 0 0 (recording relay () arrivals).2 period).1 = .ok ()) :
      Period.opening relay 3 0 0 (recording relay () arrivals).2 period = (.ok (), relayed period) := by
    rw [relayed, ← hok]
  have hends : ((Scene.updateRecorded relay 3 0 0).outcome (recording relay () arrivals).2).1 = .ok () := by
    decide +kernel
  have hupdate : (Scene.updateRecorded relay 3 0 0).outcome (recording relay () arrivals).2 =
      (.ok (), assembled) := by rw [assembled, ← hends]
  have hticks : (Period.noted relay 3 0 0 (recording relay () arrivals).2 .updating).ticks =
      [⟨1⟩, ⟨3⟩] := by decide +kernel
  have hready : (Period.opening relay 3 0 0 (recording relay () arrivals).2 .retiring).1 = .ok () := by
    decide +kernel
  have hmail := hretiring (relayed .retiring) (hopens .retiring hready)
  rw [hupdate] at hmail
  have hstopped : (Period.noted relay 3 0 0 (recording relay () arrivals).2 .updating).StopsEarly ⟨2⟩ := by
    have hready : (Period.opening relay 3 0 0 (recording relay () arrivals).2 .updating).1 = .ok () := by
      decide +kernel
    have hclosed : (Period.closing relay 3 0 0 (recording relay () arrivals).2 .updating).1 = .ok () := by
      decide +kernel
    have hrunning : (relayed .updating).scene.running = [⟨1⟩, ⟨2⟩, ⟨3⟩] := by decide +kernel
    obtain ⟨-, -, turned, left, hturned, hturns, hleft, -⟩ :=
      hupdating (relayed .updating) (hopens .updating hready)
    rw [hleft hclosed, List.append_nil, hrunning] at hturned
    have hspared := hturns.spared ⟨2⟩ (hturned ▸ by decide)
    rw [hticks] at hspared
    exact not_not.mp fun hnot => absurd (hspared.mpr hnot) (by decide)
  have hnew (period : Period) (callback : Callback) (self : Caller) (s : Scene Probe)
      (hmem : .called callback self s ∈ Period.noted relay 3 0 0 (recording relay () arrivals).2 period) :
      self.component ≠ ⟨4⟩ := by
    intro hfour
    have hold := hissued period callback self s hmem
    rw [hfour] at hold
    have hunknown : (recording relay () arrivals).2.scene.wasIssued ⟨4⟩ = false := by decide +kernel
    cases hunknown.symm.trans hold
  have hrings : ((Period.noted relay 3 0 0 (recording relay () arrivals).2 .redelivering).taken.map
      fun d => d.message.key) = ["ring"] := by
    have hready : (Period.opening relay 3 0 0 (recording relay () arrivals).2 .redelivering).1 = .ok () := by
      decide +kernel
    have hclosed : (Period.closing relay 3 0 0 (recording relay () arrivals).2 .redelivering).1 = .ok () := by
      decide +kernel
    have hquiet : (Period.noted relay 3 0 0 (recording relay () arrivals).2 .redelivering).sent = [] :=
      List.isEmpty_iff.mp (by decide +kernel)
    have hsent : (Period.noted relay 3 0 0 (recording relay () arrivals).2 .updating).sent.map (·.key) =
        ["ring"] := by decide +kernel
    obtain ⟨hfifo, -, hall⟩ := hredelivering (relayed .redelivering) (hopens .redelivering hready)
    rw [(hall hclosed).1, hquiet, List.append_nil, List.append_nil] at hfifo
    rw [hfifo, List.map_map] at hsent
    exact hsent
  have hhears (id : ComponentId) (hslot : ((recording relay () arrivals).2.scene.slot? id).isSome = true)
      (hinit : id ∈ assembled.world.2.inits) (hdone : assembled.scene.isDone id = true) :
      (Period.noted relay 3 0 0 (recording relay () arrivals).2 .retiring).hooks id =
        [.ended, .removed] := by
    obtain ⟨t, ht⟩ := Option.isSome_iff_exists.mp hslot
    exact (hhooks assembled hupdate id t ht hinit hdone).2
  exact ⟨hticks, hstopped, hnew, hrings, hmail, by decide +kernel,
    hhears ⟨2⟩ (by decide +kernel) (by decide +kernel) (by decide +kernel),
    hhears ⟨3⟩ (by decide +kernel) (by decide +kernel) (by decide +kernel)⟩

end FrameChain
