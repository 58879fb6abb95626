import FrameChain.Proofs.Admission
import FrameChain.Proofs.Chain.Deaf
import FrameChain.Proofs.Chain.Lockstep

set_option autoImplicit false

namespace FrameChain

open Chain

variable {κ ω α τ υ : Type}

/-- A subscription, with the messages on its key received since and the scenes of their deliveries. -/
structure Wait (κ : Type) where
  key : String
  filter : Option Condition
  received : List (Message × Scene κ) := []

def Mark.attend (id : ComponentId) (wait : Option (Wait κ)) : Mark κ → Option (Wait κ)
  | asked self _ (.subscribe key filter) (.ok _) =>
      if self.component = id then some { key, filter } else wait
  | asked self _ (.unsubscribe _) _ => if self.component = id then none else wait
  | called (.message m) self s =>
      if self.component = id then wait.map fun wait =>
        if m.key = wait.key then { wait with received := wait.received ++ [(m, s)] } else wait
      else wait
  | _ => wait

/-- The last subscription that the component has asked for, if it has not given one up since. -/
def Journal.wait? (j : Journal κ) (id : ComponentId) : Option (Wait κ) := j.foldl (Mark.attend id) none

theorem Journal.wait?_concat (j : Journal κ) (mark : Mark κ) (id : ComponentId) :
    Journal.wait? (j ++ [mark]) id = mark.attend id (j.wait? id) := by
  rw [wait?, List.foldl_append]
  rfl

theorem Journal.wait?_append {j marks : Journal κ} {id : ComponentId}
    (h : ∀ mark ∈ marks, ∀ wait, mark.attend id wait = wait) :
    Journal.wait? (j ++ marks) id = j.wait? id := by
  rw [wait?, List.foldl_append]
  change marks.foldl (Mark.attend id) (j.wait? id) = _
  induction marks with
  | nil => rfl
  | cons mark rest ih =>
    obtain ⟨hmark, hrest⟩ := List.forall_mem_cons.mp h
    rw [List.foldl_cons, hmark, ih hrest]

theorem Mark.attend_of_ne {self : Caller} {id : ComponentId} (h : self.component ≠ id) (s : Scene κ)
    (r : Request κ) (reply : r.Reply) (wait : Option (Wait κ)) :
    (Mark.asked self s r reply).attend id wait = wait := by
  cases r with
  | subscribe key filter =>
    cases reply with
    | ok _ => exact if_neg h
    | error _ => rfl
  | unsubscribe key => exact if_neg h
  | _ => rfl

namespace Lazy

def value (lazy : Lazy ω τ) : HostFun ω τ :=
  match lazy.cached with
  | some a => fun w => (.ok a, w)
  | none =>
    match lazy.param with
    | .value a => fun w => (.ok a, w)
    | .producer f => f

theorem value_of_cached {lazy : Lazy ω τ} {a : τ} (h : lazy.cached = some a) (w : ω) :
    lazy.value w = (.ok a, w) := by
  rw [value, h]

end Lazy

namespace Command

def mailbox? : Command κ ω α → Option (String × HostFun ω (Option Condition))
  | waitForMessage key => some (key, fun w => (.ok none, w))
  | waitForMessageWhere key condition =>
      some (key, fun w => ((condition.value w).1.map some, (condition.value w).2))
  | _ => none

inductive Listens : Command κ ω α → String → Option Condition → Prop
  | any (key : String) : Listens (.waitForMessage key) key none
  | matching (key : String) {condition : Lazy ω Condition} {a : Condition}
      (h : condition.cached = some a) : Listens (.waitForMessageWhere key condition) key (some a)

def settled (filter : Option Condition) : Command κ ω α → Command κ ω α
  | waitForMessageWhere key condition =>
      waitForMessageWhere key { condition with cached := filter }
  | command => command

variable {command : Command κ ω α} {key : String} {f : Option Condition}
  {filter : HostFun ω (Option Condition)}

theorem Listens.settled (h : command.Listens key f) : command.settled f = command := by
  cases h with
  | any => rfl
  | matching key h => rw [Command.settled, ← h]

theorem opcode_of_mailbox?_eq_none (h : command.mailbox? = none) :
    command.opcode ≠ .waitForMessage ∧ command.opcode ≠ .waitForMessageWhere := by
  cases command with
  | waitForMessage | waitForMessageWhere => cases h
  | _ => exact ⟨nofun, nofun⟩

theorem mailbox?_isSome_of_opcode {other : Command κ ω α} (h : other.opcode = command.opcode) :
    other.mailbox?.isSome = command.mailbox?.isSome := by
  have hcode (c : Command κ ω α) : c.mailbox?.isSome =
      (decide (c.opcode = .waitForMessage) || decide (c.opcode = .waitForMessageWhere)) := by
    cases c <;> rfl
  rw [hcode, hcode, h]

theorem Listens.opcode (h : command.Listens key f) :
    command.opcode = .waitForMessage ∨ command.opcode = .waitForMessageWhere := by
  cases h with
  | any => exact .inl rfl
  | matching => exact .inr rfl

theorem Listens.mailbox (h : command.Listens key f) :
    ∃ filter, command.mailbox? = some (key, filter) ∧ ∀ w, filter w = (.ok f, w) := by
  cases h with
  | any => exact ⟨_, rfl, fun _ => rfl⟩
  | matching key h =>
    refine ⟨_, rfl, fun w => ?_⟩
    rw [Lazy.value_of_cached h]
    rfl

theorem listens_settled (h : command.mailbox? = some (key, filter)) {w w' : ω}
    (hf : filter w = (.ok f, w')) : (command.settled f).Listens key f := by
  cases command with
  | waitForMessage =>
    cases h
    cases hf
    exact .any key
  | waitForMessageWhere k condition =>
    cases h
    change ((condition.value w).1.map some, (condition.value w).2) = _ at hf
    cases hv : (condition.value w).1 with
    | ok a =>
      rw [hv] at hf
      cases hf
      exact .matching key rfl
    | error crash =>
      rw [hv] at hf
      cases hf
  | _ => cases h

end Command

namespace Chain

def mailbox? (c : Chain κ ω α) : Option (String × HostFun ω (Option Condition)) :=
  c.currentCommand?.bind Command.mailbox?

theorem mailbox?_isSome_of_alike {c d : Chain κ ω α} (h : Alike c d) :
    d.mailbox?.isSome = c.mailbox?.isSome := by
  rw [mailbox?, mailbox?, currentCommand?, currentCommand?, h.current]
  cases c.current with
  | none => rfl
  | some id =>
    have hcode : d.opcode? id = c.opcode? id := by
      rw [opcode?_eq_fixed?, opcode?_eq_fixed?, h.fixed?]
    rw [opcode?, opcode?] at hcode
    rw [Option.bind_some, Option.bind_some]
    cases hd : d.nodes[id]? with
    | none =>
      rw [hd, Option.map_none, eq_comm, Option.map_eq_none_iff] at hcode
      rw [hcode]
    | some n' =>
      rw [hd, Option.map_some, eq_comm, Option.map_eq_some_iff] at hcode
      obtain ⟨n, hc, hcode⟩ := hcode
      rw [hc]
      exact Command.mailbox?_isSome_of_opcode hcode.symm

/-- The chain rests on the command that has subscribed it. -/
structure Rests (c : Chain κ ω α) (wait : Wait κ) : Prop where
  /-- The next step goes on with this command. -/
  ready : c.opening = .ok c
  command : ∃ command, c.currentCommand? = some command ∧ command.Listens wait.key wait.filter
  arrived : c.scratch.arrived = !wait.received.isEmpty
  received : ∀ m s, (m, s) ∈ wait.received → m.key = wait.key ∧
    ∀ condition, wait.filter = some condition →
      ∃ origin, m.origin = some origin ∧ s.isMatch origin condition = true

/-- If the chain waits for a message, then just as the journal tells, and its subscription is in force. -/
def Attends (c : Chain κ ω α) (id : ComponentId) (s : Scene κ) (j : Journal κ) : Prop :=
  ∀ key, c.scratch.messageKey = some key → ∃ wait, j.wait? id = some wait ∧ wait.key = key ∧
    s.bus.filter? key id = some wait.filter ∧ c.Rests wait

/-- A chain that has started and whose cursor is on a wait has visited it, unless it was stopped. -/
def Poised (c : Chain κ ω α) (id : ComponentId) (s : Scene κ) : Prop :=
  c.started = true → c.mailbox?.isSome = true → c.scratch.messageKey.isSome = true ∨ s.isDone id = true

variable {c : Chain κ ω α} {id : ComponentId} {s : Scene κ} {j : Journal κ}

theorem attends_of_none (h : c.scratch.messageKey = none) : c.Attends id s j :=
  fun _ hk => nomatch h.symm.trans hk

theorem poised_of_mailbox (h : c.mailbox?.isSome = false) : c.Poised id s :=
  fun _ hm => absurd (h.symm.trans hm) Bool.false_ne_true

theorem poised_of_current_none (h : c.current = none) : c.Poised id s :=
  poised_of_mailbox (by rw [mailbox?, currentCommand?, h]; rfl)

theorem poised_of_key {key : String} (h : c.scratch.messageKey = some key) : c.Poised id s :=
  fun _ _ => .inl (Option.isSome_iff_exists.mpr ⟨key, h⟩)

end Chain

namespace Script

theorem recorded_bind (self : Caller) (p : Script κ ω τ) (f : τ → Script κ ω υ) :
    (p.bind f).recorded self = (p.recorded self).bind fun a => (f a).recorded self := by
  induction p with
  | done a => rfl
  | crash c => rfl
  | look next ih => exact congrArg look (funext ih)
  | ask r next ih =>
    refine congrArg look (funext fun s => congrArg (ask r) (funext fun reply => ?_))
    exact congrArg (note _) (ih reply)
  | consult next ih => exact congrArg consult (funext fun w => ih w.1)
  | store w next ih => exact congrArg consult (funext fun old => congrArg (store (w, old.2)) ih)

/-- A script leaves marks of what it has asked for, and no others. -/
theorem marks_recorded [Named κ] (self : Caller) (p : Script κ ω τ) (σ : Setting κ (ω × Journal κ)) :
    ∃ marks, ((p.recorded self).run self σ).2.world.2 = σ.world.2 ++ marks ∧
      ∀ mark ∈ marks, ∃ s r reply, mark = .asked self s r reply := by
  induction p generalizing σ with
  | done a => exact ⟨[], (List.append_nil _).symm, List.forall_mem_nil _⟩
  | crash c => exact ⟨[], (List.append_nil _).symm, List.forall_mem_nil _⟩
  | look next ih => exact ih _ _
  | ask r next ih =>
    obtain ⟨marks, heq, hmarks⟩ := ih (r.answer self σ.scene).1
      ⟨(r.answer self σ.scene).2, σ.world.1,
        σ.world.2 ++ [.asked self σ.scene r (r.answer self σ.scene).1]⟩
    refine ⟨_ :: marks, heq.trans (List.append_assoc _ [_] marks), ?_⟩
    exact List.forall_mem_cons.mpr ⟨⟨_, r, _, rfl⟩, hmarks⟩
  | consult next ih => exact ih _ _
  | store w next ih => exact ih _

end Script

structure Scene.Seats (s : Scene κ) (id : ComponentId) : Prop where
  tidy : s.bus.Tidy
  slot : (s.slot? id).isSome

theorem Scene.Seats.answer [Named κ] {s : Scene κ} {id : ComponentId} (h : s.Seats id) (self : Caller)
    (r : Request κ) : (r.answer self s).2.Seats id := by
  obtain ⟨t, ht⟩ := Option.isSome_iff_exists.mp h.slot
  have hchange := s.change_answer self r
  obtain ⟨t', ht', _⟩ := hchange.later.slot id t ht
  exact ⟨hchange.tidy h.tidy, Option.isSome_iff_exists.mpr ⟨t', ht'⟩⟩

theorem Scene.Seats.recorded [Named κ] {id : ComponentId} (self : Caller) (p : Script κ ω τ)
    {σ : Setting κ (ω × Journal κ)} (h : σ.scene.Seats id) :
    ((p.recorded self).run self σ).2.scene.Seats id := by
  induction p generalizing σ with
  | done a => exact h
  | crash c => exact h
  | look next ih => exact ih _ h
  | ask r next ih =>
    exact ih (r.answer self σ.scene).1 (σ := ⟨(r.answer self σ.scene).2, σ.world.1,
      σ.world.2 ++ [.asked self σ.scene r (r.answer self σ.scene).1]⟩) (h.answer self r)
  | consult next ih => exact ih _ h
  | store w next ih => exact ih (σ := ⟨σ.scene, w, σ.world.2⟩) h

namespace ChainRun

variable [Named κ]

/-- What a run comes to, with a journal of what it asks for. -/
def play (t : ChainRun κ ω α τ) (self : Caller) (c : Chain κ ω α) (σ : Setting κ (ω × Journal κ)) :
    Except Crash (Except Failure τ × Chain κ ω α) × Setting κ (ω × Journal κ) :=
  ((t.run c).recorded self).run self σ

section Play

variable (self : Caller) (c : Chain κ ω α) (σ : Setting κ (ω × Journal κ))

theorem play_bind (t : ChainRun κ ω α τ) (f : τ → ChainRun κ ω α υ) :
    (t >>= f).play self c σ =
      match t.play self c σ with
      | (.ok (.ok a, d), σ') => (f a).play self d σ'
      | (.ok (.error g, d), σ') => (.ok (.error g, d), σ')
      | (.error crash, σ') => (.error crash, σ') := by
  rw [play, run_bind, Script.recorded_bind, Script.run_bind]
  unfold play
  cases ((t.run c).recorded self).run self σ with
  | mk e σ' =>
    cases e with
    | ok e =>
      obtain ⟨answer, d⟩ := e
      cases answer <;> rfl
    | error crash => rfl

@[simp] theorem play_pure (a : τ) : (pure a : ChainRun κ ω α τ).play self c σ = (.ok (.ok a, c), σ) :=
  rfl

@[simp] theorem play_chain : (chain : ChainRun κ ω α _).play self c σ = (.ok (.ok c, c), σ) := rfl

@[simp] theorem play_scratch :
    (scratch : ChainRun κ ω α _).play self c σ = (.ok (.ok c.scratch, c), σ) := rfl

@[simp] theorem play_modify (f : Chain κ ω α → Chain κ ω α) :
    (modify f : ChainRun κ ω α Unit).play self c σ = (.ok (.ok (), f c), σ) := rfl

@[simp] theorem play_modifyScratch (f : Scratch → Scratch) :
    (modifyScratch f : ChainRun κ ω α Unit).play self c σ =
      (.ok (.ok (), { c with scratch := f c.scratch }), σ) := rfl

@[simp] theorem play_setCommand (id : NodeId) (command : Command κ ω α) :
    (setCommand id command).play self c σ =
      (.ok (.ok (), c.modifyNode id fun node => { node with command }), σ) := rfl

theorem play_node {id : NodeId} {n : Node κ ω α} (h : c.nodes[id]? = some n) :
    (node id).play self c σ = (.ok (.ok n, c), σ) := by
  rw [play, run_node_of h]
  rfl

@[simp] theorem play_isDone (id : ComponentId) :
    (isDone id : ChainRun κ ω α Bool).play self c σ = (.ok (.ok (σ.scene.isDone id), c), σ) := rfl

theorem play_script (p : Script κ ω τ) :
    (script p : ChainRun κ ω α τ).play self c σ =
      match (p.recorded self).run self σ with
      | (.ok a, σ') => (.ok (.ok a, c), σ')
      | (.error crash, σ') => (.error crash, σ') := by
  rw [play, run_script, Script.recorded_bind, Script.run_bind]
  cases (p.recorded self).run self σ with
  | mk answer σ' => cases answer <;> rfl

end Play

end ChainRun

namespace Script

variable [Named κ]

def Only (p : Script κ ω τ) (f : HostFun ω τ) : Prop :=
  ∀ self (σ : Setting κ (ω × Journal κ)), (p.recorded self).run self σ =
    ((f σ.world.1).1, ⟨σ.scene, (f σ.world.1).2, σ.world.2⟩)

theorem only_done (a : τ) : (done a : Script κ ω τ).Only fun w => (.ok a, w) := fun _ _ => rfl

theorem only_host (f : HostFun ω τ) : (host f : Script κ ω τ).Only f := by
  intro self σ
  simp only [host, recorded, run]
  split <;> rename_i h <;> simp [recorded, run, h]

theorem Only.bind {p : Script κ ω τ} {f : HostFun ω τ} {q : τ → Script κ ω υ}
    {g : τ → HostFun ω υ} (h : p.Only f) (hq : ∀ a, (q a).Only (g a)) :
    (p.bind q).Only fun w =>
      match f w with
      | (.ok a, w) => g a w
      | (.error e, w) => (.error e, w) := by
  intro self σ
  rw [recorded_bind, run_bind, h self σ]
  cases hf : f σ.world.1 with
  | mk answer w =>
    simp only [hf]
    cases answer with
    | ok a => exact hq a self ⟨σ.scene, w, σ.world.2⟩
    | error e => rfl

theorem only_resolve (lazy : Lazy ω τ) : (lazy.resolve : Script κ ω (τ × Lazy ω τ)).Only fun w =>
    ((lazy.value w).1.map fun a => (a, { lazy with cached := some a }), (lazy.value w).2) := by
  obtain ⟨param, cached⟩ := lazy
  cases cached with
  | some a => exact only_done _
  | none =>
    cases param with
    | value a => exact only_done _
    | producer f =>
      intro self σ
      refine ((only_host f).bind (fun a => only_done _) self σ).trans ?_
      simp only [Lazy.value]
      cases f σ.world.1 with
      | mk answer w => cases answer <;> rfl

end Script

/-- Asks one function of the host after the other until one of them holds. -/
def firstHolds : List (HostFun ω Bool) → HostFun ω Bool
  | [], w => (.ok false, w)
  | holds :: rest, w =>
      match holds w with
      | (.ok true, w) => (.ok true, w)
      | (.ok false, w) => firstHolds rest w
      | (.error crash, w) => (.error crash, w)

theorem ChainRun.only_anyHolds [Named κ] (interrupts : List (HostFun ω Bool)) :
    (anyHolds interrupts : Script κ ω Bool).Only (firstHolds interrupts) := by
  induction interrupts with
  | nil => exact Script.only_done _
  | cons holds rest ih =>
    intro self σ
    have hrest (b : Bool) : (if b then return true else anyHolds rest : Script κ ω Bool).Only
        fun w => if b then (.ok true, w) else firstHolds rest w := by
      cases b with
      | true => exact Script.only_done _
      | false => exact ih
    refine ((Script.only_host holds).bind hrest self σ).trans ?_
    simp only [firstHolds]
    cases holds σ.world.1 with
    | mk answer w =>
      cases answer with
      | ok b => cases b <;> rfl
      | error crash => rfl
end FrameChain
