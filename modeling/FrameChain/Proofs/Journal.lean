import FrameChain.Proofs.History
import FrameChain.Proofs.Turn

set_option autoImplicit false

/-! A recorded history keeps a journal in the host's world. Recording changes nothing else, which
`erases_history` states, so what is said of journals is said of what scenes do. -/
namespace FrameChain

inductive Mark (κ : Type) where
  | hosted (s : Scene κ) (c : HostCall κ)
  | called (callback : Callback) (self : Caller) (s : Scene κ)
  /-- A callback asked something of the scene `s`. -/
  | asked (self : Caller) (s : Scene κ) (r : Request κ) (reply : r.Reply)
  /-- A message left the queue of the scene `s`. -/
  | taken (s : Scene κ) (delivery : Delivery)
  /-- A recipient accepted a message at its turn, and is called next. -/
  | served (s : Scene κ) (m : Message) (recipient : Subscription)
  | passed (s : Scene κ) (m : Message) (recipient : Subscription)
  /-- A round of retirement failed after it had taken these entities off the removal queue. -/
  | forgotten (entities : List EntityId)

/-- Oldest first. -/
abbrev Journal (κ : Type) := List (Mark κ)

variable {κ ω τ : Type}

/-- This holds of every mark, given the marks before it. -/
def Journal.Each (P : Journal κ → Mark κ → Prop) (j : Journal κ) : Prop :=
  ∀ before mark after, j = before ++ mark :: after → P before mark

namespace Journal.Each

variable {P : Journal κ → Mark κ → Prop} {j : Journal κ}

theorem nil : Journal.Each P [] := by
  intro before mark after h
  cases before <;> cases h

theorem concat (h : j.Each P) {mark : Mark κ} (hm : P j mark) : Journal.Each P (j ++ [mark]) := by
  intro before x after heq
  rcases List.append_eq_append_iff.1 heq with ⟨rest, rfl, hlast⟩ | ⟨rest, rfl, hrest⟩
  · cases rest with
    | nil =>
      cases hlast
      rwa [List.append_nil]
    | cons y rest => cases rest <;> cases (List.cons.inj hlast).2
  · cases rest with
    | nil =>
      rw [List.append_nil] at hm
      cases hrest
      exact hm
    | cons y rest =>
      cases hrest
      exact h before x rest rfl

theorem append (h : j.Each P) {marks : Journal κ} (hm : ∀ mark ∈ marks, ∀ before, P before mark) :
    Journal.Each P (j ++ marks) := by
  induction marks generalizing j with
  | nil => rwa [List.append_nil]
  | cons mark rest ih =>
    have hrest := ih (h.concat (hm mark List.mem_cons_self j)) fun mark hmem =>
      hm mark (List.mem_cons_of_mem _ hmem)
    rwa [List.append_assoc] at hrest

end Journal.Each

namespace Script

def note (mark : Mark κ) (next : Script κ (ω × Journal κ) τ) : Script κ (ω × Journal κ) τ :=
  consult fun w => store (w.1, w.2 ++ [mark]) next

def recorded (self : Caller) : Script κ ω τ → Script κ (ω × Journal κ) τ
  | done a => done a
  | crash c => crash c
  | look next => look fun s => (next s).recorded self
  | ask r next =>
      look fun s => ask r fun reply => note (.asked self s r reply) ((next reply).recorded self)
  | consult next => consult fun w => (next w.1).recorded self
  | store w next => consult fun old => store (w, old.2) (next.recorded self)

end Script

def Behaviour.recorded (b : Behaviour κ ω) : Behaviour κ (ω × Journal κ) :=
  fun callback self component =>
    .look fun s => .note (.called callback self s) ((b callback self component).recorded self)

namespace Turn

def note (mark : Scene κ → Mark κ) : Turn κ (ω × Journal κ) Unit :=
  modify fun σ => { σ with world := (σ.world.1, σ.world.2 ++ [mark σ.scene]) }

end Turn

namespace Scene

open Turn

variable [Named κ]

def serveRecorded (b : Behaviour κ ω) (m : Message) :
    List Subscription → Turn κ (ω × Journal κ) Unit
  | [] => return
  | recipient :: rest => do
    if (← scene).accepts m recipient then
      note fun s => .served s m recipient
      match ← attempt (call b.recorded (.message m) recipient.component) with
      | .ok () => serveRecorded b m rest
      | .error f =>
        modifyScene fun s => { s with interrupted := some ⟨m, rest⟩ }
        fail f
    else
      note fun s => .passed s m recipient
      serveRecorded b m rest

def deliverRecorded (b : Behaviour κ ω) : Nat → Turn κ (ω × Journal κ) Unit
  | 0 => crash .exhausted
  | fuel + 1 => do
    let s ← scene
    match s.nextDelivery? with
    | none => return
    | some (delivery, next) =>
      if s.interrupted.isNone then note fun s => .taken s delivery
      modifyScene fun _ => next
      serveRecorded b delivery.message delivery.recipients
      deliverRecorded b fuel

def retireRoundsRecorded (b : Behaviour κ ω) : Nat → Turn κ (ω × Journal κ) Unit
  | 0 => crash .exhausted
  | fuel + 1 => do
    let doomed := (← scene).removalQueue
    modifyScene fun s => doomed.foldl detachComponents { s with removalQueue := [] }
    let stopping := (← scene).stopping
    if doomed.isEmpty && stopping.isEmpty then return
    match ← attempt (retireEach b.recorded stopping) with
    | .ok () =>
      modifyScene fun s => doomed.foldl removeIfEmpty s
      retireRoundsRecorded b fuel
    | .error f =>
      note fun _ => .forgotten doomed
      fail f

def retireRecorded (b : Behaviour κ ω) : Turn κ (ω × Journal κ) Unit := do
  retireRoundsRecorded b ((← scene).slots.length + 2)

def updateRecorded (b : Behaviour κ ω) (fuel : Nat) (delta absolute : Seconds) :
    Turn κ (ω × Journal κ) Unit := do
  modifyScene fun s => { s with frame := s.frame + 1, absolute }
  attachPending b.recorded
  deliverRecorded b fuel
  updateEach b.recorded delta absolute (← scene).running
  deliverRecorded b fuel
  retireRecorded b

def approach (b : Behaviour κ ω) (fuel : Nat) (delta absolute : Seconds) : Turn κ ω Unit := do
  modifyScene fun s => { s with frame := s.frame + 1, absolute }
  attachPending b
  deliver b fuel
  updateEach b delta absolute (← scene).running
  deliver b fuel

def approachRecorded (b : Behaviour κ ω) (fuel : Nat) (delta absolute : Seconds) :
    Turn κ (ω × Journal κ) Unit := do
  modifyScene fun s => { s with frame := s.frame + 1, absolute }
  attachPending b.recorded
  deliverRecorded b fuel
  updateEach b.recorded delta absolute (← scene).running
  deliverRecorded b fuel

theorem update_eq (b : Behaviour κ ω) (fuel : Nat) (delta absolute : Seconds) :
    update b fuel delta absolute = approach b fuel delta absolute >>= fun _ => retire b := by
  simp only [update, approach, bind_assoc]

theorem updateRecorded_eq (b : Behaviour κ ω) (fuel : Nat) (delta absolute : Seconds) :
    updateRecorded b fuel delta absolute =
      approachRecorded b fuel delta absolute >>= fun _ => retireRecorded b := by
  simp only [updateRecorded, approachRecorded, bind_assoc]

end Scene

variable [Named κ]

def HostOp.performRecorded (b : Behaviour κ ω) : HostOp κ ω → Turn κ (ω × Journal κ) Unit
  | call c => do
    Turn.note fun s => .hosted s c
    Turn.perform fun s => c.apply s
  | edit f => modify fun σ => { σ with world := (f σ.world.1, σ.world.2) }
  | update fuel delta absolute => Scene.updateRecorded b fuel delta absolute

def historyRecorded (b : Behaviour κ ω) : List (HostOp κ ω) → Turn κ (ω × Journal κ) Unit
  | [] => return
  | op :: rest => do
    let _ ← Turn.attempt (op.performRecorded b)
    historyRecorded b rest

def Setting.erase (σ : Setting κ (ω × Journal κ)) : Setting κ ω := ⟨σ.scene, σ.world.1⟩

omit [Named κ] in
@[simp] theorem Setting.erase_scene (σ : Setting κ (ω × Journal κ)) : σ.erase.scene = σ.scene := rfl

theorem Script.run_recorded (self : Caller) (p : Script κ ω τ) (σ : Setting κ (ω × Journal κ)) :
    (((p.recorded self).run self σ).1, ((p.recorded self).run self σ).2.erase) =
      p.run self σ.erase := by
  induction p generalizing σ with
  | done a => rfl
  | crash c => rfl
  | look next ih => exact ih _ _
  | ask r next ih => exact ih _ _
  | consult next ih => exact ih _ _
  | store w next ih => exact ih _

namespace Turn

/-- `t` does what `u` does, and keeps a journal of it. -/
def Erases (t : Turn κ (ω × Journal κ) τ) (u : Turn κ ω τ) : Prop :=
  ∀ σ, ((outcome t σ).1, (outcome t σ).2.erase) = outcome u σ.erase

omit [Named κ] in
theorem Erases.outcome {t : Turn κ (ω × Journal κ) τ} {u : Turn κ ω τ} (h : Erases t u)
    (σ : Setting κ (ω × Journal κ)) : (outcome t σ).1 = (outcome u σ.erase).1 ∧
      (outcome t σ).2.scene = (outcome u σ.erase).2.scene := by
  rw [← h σ]
  exact ⟨rfl, rfl⟩

section Rules

omit [Named κ]

variable {υ : Type}

theorem erases_pure (a : τ) : Erases (pure a : Turn κ (ω × Journal κ) τ) (pure a) := fun _ => rfl

theorem erases_scene : Erases (scene : Turn κ (ω × Journal κ) (Scene κ)) scene := fun _ => rfl

theorem erases_modifyScene (f : Scene κ → Scene κ) :
    Erases (modifyScene f : Turn κ (ω × Journal κ) Unit) (modifyScene f) := fun _ => rfl

theorem erases_fail (f : Failure) : Erases (fail f : Turn κ (ω × Journal κ) τ) (fail f) :=
  fun _ => rfl

theorem erases_crash (c : Crash) : Erases (crash c : Turn κ (ω × Journal κ) τ) (crash c) :=
  fun _ => rfl

theorem erases_bind {t : Turn κ (ω × Journal κ) τ} {u : Turn κ ω τ}
    {f : τ → Turn κ (ω × Journal κ) υ} {g : τ → Turn κ ω υ} (ht : Erases t u)
    (hf : ∀ a, Erases (f a) (g a)) : Erases (t >>= f) (u >>= g) := by
  intro σ
  rw [outcome_bind, outcome_bind, ← ht σ]
  cases outcome t σ with
  | mk answer σ' =>
    cases answer with
    | ok a => exact hf a σ'
    | error h => rfl

theorem erases_note {mark : Scene κ → Mark κ} {t : Unit → Turn κ (ω × Journal κ) τ}
    {u : Turn κ ω τ} (h : Erases (t ()) u) : Erases (note mark >>= t) u :=
  fun σ => h { σ with world := (σ.world.1, σ.world.2 ++ [mark σ.scene]) }

theorem erases_attempt {t : Turn κ (ω × Journal κ) τ} {u : Turn κ ω τ} (h : Erases t u) :
    Erases (attempt t) (attempt u) := by
  intro σ
  rw [outcome_attempt, outcome_attempt, ← h σ]
  cases outcome t σ with
  | mk answer σ' =>
    cases answer with
    | ok a => rfl
    | error halt => cases halt <;> rfl

theorem erases_perform (f : Scene κ → Except Failure τ × Scene κ) :
    Erases (perform f : Turn κ (ω × Journal κ) τ) (perform f) := by
  intro σ
  rw [outcome_perform, outcome_perform, Setting.erase_scene]
  cases f σ.scene with
  | mk answer s => cases answer <;> rfl

theorem erases_ite {c : Prop} [Decidable c] {t t' : Turn κ (ω × Journal κ) τ} {u u' : Turn κ ω τ}
    (h : Erases t u) (h' : Erases t' u') :
    Erases (if c then t else t') (if c then u else u') := by
  split
  · exact h
  · exact h'

end Rules

omit [Named κ] in
/-- A recorded turn may look at the failure of a part before it passes it on. -/
theorem erases_attempt_bind {υ : Type} {t : Turn κ (ω × Journal κ) τ} {u : Turn κ ω τ}
    {f : Except Failure τ → Turn κ (ω × Journal κ) υ} {g : τ → Turn κ ω υ} (ht : Erases t u)
    (hok : ∀ a, Erases (f (.ok a)) (g a)) (herror : ∀ e, Erases (f (.error e)) (fail e)) :
    Erases (attempt t >>= f) (u >>= g) := by
  intro σ
  rw [outcome_bind, outcome_bind, outcome_attempt, ← ht σ]
  cases outcome t σ with
  | mk answer σ' =>
    cases answer with
    | ok a => exact hok a σ'
    | error halt =>
      cases halt with
      | failure e => exact herror e σ'
      | crash c => rfl

theorem erases_script (self : Caller) (p : Script κ ω τ) (mark : Scene κ → Mark κ) :
    Erases (script self (.look fun s => .note (mark s) (p.recorded self))) (script self p) := by
  intro σ
  have h := Script.run_recorded self p { σ with world := (σ.world.1, σ.world.2 ++ [mark σ.scene]) }
  change _ = p.run self σ.erase at h
  rw [outcome_script, outcome_script, ← h]
  simp only [Script.run, Script.note]
  split <;> rename_i hr <;> simp only [hr]

theorem erases_call (b : Behaviour κ ω) (callback : Callback) (id : ComponentId) :
    Erases (call b.recorded callback id) (call b callback id) := by
  unfold call
  refine erases_bind erases_scene fun s => ?_
  cases s.slot? id with
  | none => exact erases_pure _
  | some slot =>
    cases hc : slot.component with
    | none => simp only [hc]; exact erases_fail _
    | some component =>
      simp only [hc]
      refine erases_bind (erases_modifyScene _) fun _ => ?_
      refine erases_bind (erases_script _ _ (.called callback ⟨slot.owner, id⟩)) fun answer => ?_
      refine erases_bind (erases_modifyScene _) fun _ => ?_
      cases answer.1 with
      | ok a => exact erases_pure _
      | error f => exact erases_fail _

open Scene

variable (b : Behaviour κ ω)

omit [Named κ] in
theorem erases_advance (id : ComponentId) (before after : Lifecycle) :
    Erases (advance id before after : Turn κ (ω × Journal κ) Bool) (advance id before after) := by
  unfold advance
  refine erases_bind erases_scene fun s => ?_
  cases s.slot? id with
  | none => exact erases_pure _
  | some slot =>
    exact erases_ite (erases_bind (erases_modifyScene _) fun _ => erases_pure _) (erases_pure _)

theorem erases_attachOne (id : ComponentId) :
    Erases (attachOne b.recorded id) (attachOne b id) := by
  unfold attachOne
  refine erases_bind erases_scene fun s => erases_ite ?_ (erases_pure _)
  refine erases_bind (erases_modifyScene _) fun _ => erases_bind (erases_call b _ _) fun _ => ?_
  refine erases_bind (erases_advance _ _ _) fun initialized => erases_ite ?_ (erases_pure _)
  refine erases_bind (erases_call b _ _) fun _ => ?_
  refine erases_bind (erases_advance _ _ _) fun running => erases_ite ?_ (erases_pure _)
  refine erases_bind erases_scene fun s => ?_
  cases s.slot? id with
  | none => exact erases_pure _
  | some slot => exact erases_modifyScene _

theorem erases_attachEach (batch : List ComponentId) :
    Erases (attachEach b.recorded batch) (attachEach b batch) := by
  induction batch with
  | nil => exact erases_pure _
  | cons id rest ih =>
    refine erases_bind (erases_attempt (erases_attachOne b id)) fun answer => ?_
    cases answer with
    | ok _ => exact ih
    | error f =>
      refine erases_bind (erases_perform _) fun _ => ?_
      exact erases_bind (erases_modifyScene _) fun _ => erases_fail _

theorem erases_attachPending : Erases (attachPending b.recorded) (attachPending b) := by
  unfold attachPending
  refine erases_bind erases_scene fun s => ?_
  exact erases_bind (erases_modifyScene _) fun _ => erases_attachEach b _

theorem erases_serve (m : Message) (recipients : List Subscription) :
    Erases (serveRecorded b m recipients) (serve b m recipients) := by
  induction recipients with
  | nil => exact erases_pure _
  | cons recipient rest ih =>
    refine erases_bind erases_scene fun s => erases_ite ?_ (erases_note ih)
    refine erases_note (erases_bind (erases_attempt (erases_call b _ _)) fun answer => ?_)
    cases answer with
    | ok _ => exact ih
    | error f => exact erases_bind (erases_modifyScene _) fun _ => erases_fail _

theorem erases_deliver (fuel : Nat) : Erases (deliverRecorded b fuel) (deliver b fuel) := by
  induction fuel with
  | zero => exact erases_crash _
  | succ fuel ih =>
    refine erases_bind erases_scene fun s => ?_
    cases s.nextDelivery? with
    | none => exact erases_pure _
    | some next =>
      have hrest : Erases
          (do
            modifyScene fun _ => next.2
            serveRecorded b next.1.message next.1.recipients
            deliverRecorded b fuel)
          (do
            modifyScene fun _ => next.2
            serve b next.1.message next.1.recipients
            deliver b fuel) :=
        erases_bind (erases_modifyScene _) fun _ => erases_bind (erases_serve b _ _) fun _ => ih
      change Erases (if s.interrupted.isNone = true then _ else _) _
      split
      · exact erases_note hrest
      · exact hrest

theorem erases_updateEach (delta absolute : Seconds) (ids : List ComponentId) :
    Erases (updateEach b.recorded delta absolute ids) (updateEach b delta absolute ids) := by
  induction ids with
  | nil => exact erases_pure _
  | cons id rest ih =>
    refine erases_bind erases_scene fun s => ?_
    refine erases_ite ?_ ih
    exact erases_bind (erases_call b _ _) fun _ => ih

theorem erases_retireCallbacks (slot : Slot κ) :
    Erases (retireCallbacks b.recorded slot) (retireCallbacks b slot) := by
  unfold retireCallbacks
  refine erases_ite ?_ (erases_pure _)
  cases slot.state
  case finished | detached => exact erases_bind (erases_call b _ _) fun _ => erases_call b _ _
  all_goals exact erases_call b .remove slot.id

theorem erases_retireEach (ids : List ComponentId) :
    Erases (retireEach b.recorded ids) (retireEach b ids) := by
  induction ids with
  | nil => exact erases_pure _
  | cons id rest ih =>
    refine erases_bind ?_ fun _ => ih
    refine erases_bind erases_scene fun s => ?_
    cases s.slot? id with
    | none => exact erases_pure _
    | some slot =>
      exact erases_bind (erases_retireCallbacks b slot) fun _ => erases_modifyScene _

theorem erases_retireRounds (fuel : Nat) :
    Erases (retireRoundsRecorded b fuel) (retireRounds b fuel) := by
  induction fuel with
  | zero => exact erases_crash _
  | succ fuel ih =>
    refine erases_bind erases_scene fun s => ?_
    refine erases_bind (erases_modifyScene _) fun _ => erases_bind erases_scene fun s' => ?_
    refine erases_ite (erases_pure _) (erases_attempt_bind (erases_retireEach b _) ?_ ?_)
    · intro _
      exact erases_bind (erases_modifyScene _) fun _ => ih
    · intro f
      exact erases_note (erases_fail f)

theorem erases_approach (fuel : Nat) (delta absolute : Seconds) :
    Erases (approachRecorded b fuel delta absolute) (approach b fuel delta absolute) := by
  refine erases_bind (erases_modifyScene _) fun _ => erases_bind (erases_attachPending b) fun _ => ?_
  refine erases_bind (erases_deliver b fuel) fun _ => erases_bind erases_scene fun s => ?_
  exact erases_bind (erases_updateEach b delta absolute _) fun _ => erases_deliver b fuel

theorem erases_retire : Erases (retireRecorded b) (retire b) :=
  erases_bind erases_scene fun _ => erases_retireRounds b _

theorem erases_update (fuel : Nat) (delta absolute : Seconds) :
    Erases (updateRecorded b fuel delta absolute) (update b fuel delta absolute) := by
  rw [updateRecorded_eq, update_eq]
  exact erases_bind (erases_approach b fuel delta absolute) fun _ => erases_retire b

theorem erases_perform_op (op : HostOp κ ω) : Erases (op.performRecorded b) (op.perform b) := by
  cases op with
  | call c => exact erases_note (erases_perform _)
  | edit f => exact fun _ => rfl
  | update fuel delta absolute => exact erases_update b fuel delta absolute

theorem erases_history (ops : List (HostOp κ ω)) :
    Erases (historyRecorded b ops) (history b ops) := by
  induction ops with
  | nil => exact erases_pure _
  | cons op rest ih =>
    exact erases_bind (erases_attempt (erases_perform_op b op)) fun _ => ih

end Turn
end FrameChain
