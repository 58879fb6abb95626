import FrameChain.Proofs.Moment.Listening

set_option autoImplicit false

namespace FrameChain

variable {δ ω α : Type}

section Rounds

variable [Named δ] {host : Host δ ω α} {fuel : Nat} {g : Station (Component δ ω α) ω} {self : Caller}
  {delta absolute : Seconds} {n : Nat} {c : Chain (Component δ ω α) ω α}
  {σ : Setting (Component δ ω α) (ω × Journal (Component δ ω α))}

theorem Station.Paced.plays (h : g.Paced host self delta absolute n c σ) (hn : n ≤ fuel)
    {component : Component δ ω α} {outcome : Except Crash (Except Failure Unit × Component δ ω α)}
    {σ' : Setting (Component δ ω α) (ω × Journal (Component δ ω α))}
    (hp : g.Plays (Component.behaviour host fuel) (.update delta absolute) self component outcome σ') :
    let rest := (ChainRun.rounds host.act self absolute (fuel - n)).play self c σ
    outcome = rest.1.map (fun e => (e.1, .chain e.2)) ∧ σ' = rest.2 := by
  obtain ⟨slot, c₀, d, hslot, -, hcomponent, hopening, hpace⟩ := h.begun
  obtain ⟨slot', hslot', -, hcomponent'⟩ := hp.seat
  cases hslot.symm.trans hslot'
  obtain rfl := Option.some.inj (hcomponent.symm.trans hcomponent')
  have hrun := hp.recorded
  rw [Component.run_recorded_chain] at hrun
  have hstep : ((Chain.behaviour host.act fuel (.update delta absolute) self c₀).recorded self).run
      self (g.enter (.update delta absolute) self) =
        (ChainRun.rounds host.act self absolute (fuel - n)).play self c σ := by
    obtain ⟨m, rfl⟩ := Nat.exists_eq_add_of_le hn
    change (ChainRun.step host.act (n + m) self absolute).play self c₀ _ = _
    rw [ChainRun.step, ChainRun.play_bind, ChainRun.play_start, hopening, Nat.add_sub_cancel_left]
    dsimp only
    rw [ChainRun.rounds_add, ChainRun.play_bind, hpace]
    rfl
  rw [hstep] at hrun
  exact ⟨(congrArg Prod.fst hrun).symm, (congrArg Prod.snd hrun).symm⟩

theorem Vigil.paced (h : Vigil self.component g.setting) (hg : g.moment.Sound)
    (hp : g.Paced host self delta absolute n c σ) : c.Tends self.component σ ∧ c.Live := by
  obtain ⟨slot, c₀, d, hslot, -, hcomponent, hopening, hpace⟩ := hp.begun
  obtain ⟨c', hc', hattends, -⟩ := h.attended slot hslot
  cases hcomponent.symm.trans hc'
  have htends : c₀.Tends self.component (g.enter (.update delta absolute) self) :=
    hattends.enter hg hslot nofun
  obtain ⟨hd, hlive⟩ := htends.opening hopening
  have hsettles : Chain.Settles self.component
      ((ChainRun.pace host.act self absolute n).play self d _) := ChainRun.settles_pace n hd hlive
  rw [hpace] at hsettles
  exact ⟨hsettles.1, hsettles.2.1 rfl⟩

theorem Vigil.begins {id : ComponentId} (h : Vigil id g.setting) {rest : List ComponentId}
    (hphase : g.phase = .ticking delta absolute id rest) {slot : Slot (Component δ ω α)} {key : String}
    (hslot : g.setting.scene.slot? id = some slot) (hc : slot.component = some (.chain c))
    (hk : c.scratch.messageKey = some key) :
    g.Paced host ⟨slot.owner, id⟩ delta absolute 0 c
      (g.enter (.update delta absolute) ⟨slot.owner, id⟩) := by
  obtain ⟨c', hc', hattends, -⟩ := h.attended slot hslot
  obtain rfl := Component.chain.inj (Option.some.inj (hc.symm.trans hc'))
  obtain ⟨_, _, _, _, hrests⟩ := hattends key hk
  exact ⟨⟨rest, hphase⟩, slot, c, c, hslot, rfl, hc, hrests.ready, rfl⟩

end Rounds

section History

variable [Named δ] {host : Host δ ω α} {fuel : Nat} {w : ω} {id : ComponentId}
  {ops : List (HostOp (Component δ ω α) ω)} {g last : Station (Component δ ω α) ω}
  {past : List (Station (Component δ ω α) ω)}

theorem Vigil.cutOff (h : Vigil id g.setting) (hg : g.moment.Sound) (ha : g.moment.Admitting)
    {σ : Setting (Component δ ω α) (ω × Journal (Component δ ω α))}
    (hcut : g.CutOff (Component.behaviour host fuel) σ) (hnew : σ.world.2.Introduces id) :
    σ.world.2.Each (Mark.Overheard id) := by
  rcases hcut with ⟨-, rfl⟩ | ⟨callback, self, component, crash, hplays⟩
  · exact h.overheard
  · by_cases hid : self.component = id
    · subst hid
      exact (h.plays_self hg ha hplays).2.1
    · exact (h.plays_other hg hid hplays hnew).overheard

theorem Trodden.journal {b : Behaviour (Component δ ω α) ω} (h : Trodden b w ops past last) :
    last.setting.world.2 <+: (recording b w ops).2.world.2 := by
  by_cases hok : (ending b w ops).1 = .ok ()
  · exact h.ended hok ▸ List.prefix_refl _
  · obtain ⟨calling, hstretch, -⟩ := (h.cut hok).stretch
    exact hstretch.path.journal

/-- Let the host itself leave the subscriptions of component `id` alone and edit it as chains can be edited,
and let `id` be given to a chain, before it starts. The actions that the chain calls may ask for anything.
Then at every station of a history, and wherever another component asks for something, the chain is as the
journal tells: after its first visit of a wait, and until it leaves it, its cursor rests there, it is
subscribed to the key of the wait with just its filter, and every message received on that key since has
passed that filter. A step of a chain that waits begins with a round on the wait. Such a round, at any
point of a step, subscribes the chain in the first visit, with no message received yet; later it lets the
chain go on if a message on the key was received since, and then the subscription is gone, and stay if none
was. Nothing else can come of it, unless the chain was stopped, an interrupt holds, or a function of the
host crashes. What follows the round is what the callback does from there. Without its slot the component
has no subscription. -/
theorem message_waits (host : Host δ ω α) (fuel : Nat) (w : ω)
    (ops : List (HostOp (Component δ ω α) ω)) (id : ComponentId)
    (hops : ∀ op ∈ ops, op.Spares id)
    (hnew : (recording (Component.behaviour host fuel) w ops).2.world.2.Introduces id) :
    let b := Component.behaviour host fuel
    ((recording b w ops).1, (recording b w ops).2.erase) = ending b w ops ∧
    (recording b w ops).2.world.2.Each (Mark.Overheard id) ∧
    (∃ past last, Trodden b w ops past last) ∧
    ∀ past last, Trodden b w ops past last → ∀ g ∈ past ++ [last],
      g.setting.scene.Attended id g.setting.world.2 ∧
      (g.setting.scene.slot? id = none → ∀ key, g.setting.scene.bus.filter? key id = none) ∧
      (∀ delta absolute rest slot c key, g.phase = .ticking delta absolute id rest →
        g.setting.scene.slot? id = some slot → slot.component = some (.chain c) →
        c.scratch.messageKey = some key →
        g.Paced host ⟨slot.owner, id⟩ delta absolute 0 c
          (g.enter (.update delta absolute) ⟨slot.owner, id⟩)) ∧
      ∀ entity delta absolute n c σ, n ≤ fuel → g.Paced host ⟨entity, id⟩ delta absolute n c σ →
        c.Attends id σ.scene σ.world.2 ∧
        (c.mailbox?.isSome = true → Wait.Visit ⟨entity, id⟩ c σ
          ((ChainRun.round host.act ⟨entity, id⟩ absolute).play ⟨entity, id⟩ c σ)) ∧
        ∀ component outcome σ',
          g.Plays b (.update delta absolute) ⟨entity, id⟩ component outcome σ' →
          let rest := (ChainRun.rounds host.act ⟨entity, id⟩ absolute (fuel - n)).play ⟨entity, id⟩ c σ
          outcome = rest.1.map (fun e => (e.1, .chain e.2)) ∧ σ' = rest.2 := by
  intro b
  have hpast : ∀ past last, Trodden b w ops past last →
      ∀ g ∈ past ++ [last], g.moment.Sound ∧ Vigil id g.setting := fun past last h =>
    vigil_trail h.trail hops (hnew.of_prefix h.journal)
  refine ⟨erase_recording b w ops, ?_, exists_trodden b w ops, fun past last h g hmem => ?_⟩
  · obtain ⟨past, last, h⟩ := exists_trodden b w ops
    have hlast := List.mem_append_right past (List.mem_singleton_self last)
    obtain ⟨hsound, hvigil⟩ := hpast past last h last hlast
    by_cases hok : (ending b w ops).1 = .ok ()
    · have hover := hvigil.overheard
      rwa [h.ended hok] at hover
    · obtain ⟨moments, hcourse⟩ := Course.of_path h.trail.path
      exact hvigil.cutOff hsound hcourse.admitting (h.cut hok) hnew
  · obtain ⟨hsound, hvigil⟩ := hpast past last h g hmem
    refine ⟨hvigil.attended, hsound.scene.filter?_eq_none, ?_, ?_⟩
    · intro delta absolute rest slot c key hphase hslot hc hk
      exact hvigil.begins hphase hslot hc hk
    · intro entity delta absolute n c σ hn hpaced
      obtain ⟨htends, hlive⟩ := Vigil.paced hvigil hsound hpaced
      refine ⟨htends.attends, fun hm => ?_, fun component outcome σ' hplays => hpaced.plays hn hplays⟩
      obtain ⟨⟨key, filter⟩, hmailbox⟩ := Option.isSome_iff_exists.mp hm
      exact ChainRun.visit_round htends hlive hmailbox

end History

def Component.waitsFor? : Component δ ω α → Option String
  | chain c => c.scratch.messageKey
  | _ => none

def distracting : Host Probe Unit Unit :=
  ⟨fun _ _ probe => .done (.ok (), probe), fun _ _ => .ask (.subscribe "pong" none) .done⟩

def ofBell : Condition := { name := some "bell" }

/-- A chain has itself subscribed to one key and waits for a message on another one, and then, by a command
that it is given in its slot, for a message on that key from the bell. The bell sends one on each. -/
def ringing : List (HostOp (Component Probe Unit Unit) Unit) :=
  let first : Chain (Component Probe Unit Unit) Unit Unit :=
    Chain.append (Chain.append { name := "first" } (.call ())) (.waitForMessage "ping")
  let second : Chain (Component Probe Unit Unit) Unit Unit :=
    Chain.append { name := "second" } (.waitForMessageWhere "ping" ⟨.value ofBell, none⟩)
  [.call (.addEntity "bell"), .call (.addComponent ⟨1⟩ (.chain first)),
    .call (.editComponent ⟨1⟩ (Component.amend fun c => (c.mergeWith second).map Prod.fst)),
    .update 2 0 0, .call (.send "ping" .null (some ⟨1⟩)), .update 2 0 0,
    .call (.send "pong" .null (some ⟨1⟩)), .update 2 0 0]

/-- The message lets the chain leave its first wait, and neither it nor the one on the other key is news
for the second wait. -/
theorem message_waits_ringing :
    ∃ past last c wait, Trodden (Component.behaviour distracting 5) () ringing past last ∧
      (∃ slot, last.setting.scene.slot? ⟨1⟩ = some slot ∧ slot.component = some (.chain c)) ∧
      c.scratch.messageKey = some "ping" ∧ last.setting.world.2.wait? ⟨1⟩ = some wait ∧
      wait.filter = some ofBell ∧ wait.received = [] ∧ c.Rests wait ∧
      last.setting.scene.bus.filter? "ping" ⟨1⟩ = some (some ofBell) ∧
      last.setting.scene.bus.filter? "pong" ⟨1⟩ = some none := by
  have hnew : (recording (Component.behaviour distracting 5) () ringing).2.world.2.Introduces ⟨1⟩ := by
    have hall : (recording (Component.behaviour distracting 5) () ringing).2.world.2.all (fun mark =>
        (mark.introduced? ⟨1⟩).all Component.isFreshChain) = true := by decide +kernel
    intro mark hmem component hin
    have hmark := List.all_eq_true.mp hall mark hmem
    rwa [hin] at hmark
  have hops : ∀ op ∈ ringing, op.Spares ⟨1⟩ := by
    intro op hop
    simp only [ringing, List.mem_cons, List.not_mem_nil, or_false] at hop
    rcases hop with rfl | rfl | rfl | rfl | rfl | rfl | rfl | rfl
    case inr.inr.inl => exact fun _ => (Component.edits_operations _).2.1
    all_goals trivial
  obtain ⟨_, _, ⟨past, last, h⟩, hall⟩ := message_waits distracting 5 () ringing ⟨1⟩ hops hnew
  obtain ⟨hattended, _⟩ := hall past last h last (List.mem_append_right _ (List.mem_singleton_self _))
  have hlast := h.ended (by decide +kernel)
  have hslot : (last.setting.scene.slot? ⟨1⟩).isSome = true := by
    rw [hlast]
    decide +kernel
  obtain ⟨slot, hslot⟩ := Option.isSome_iff_exists.mp hslot
  obtain ⟨c, hc, hattends, _⟩ := hattended slot hslot
  have hkey : ((last.setting.scene.slot? ⟨1⟩).bind (·.component)).bind Component.waitsFor? =
      some "ping" := by
    rw [hlast]
    decide +kernel
  rw [hslot, Option.bind_some, hc, Option.bind_some, Component.waitsFor?] at hkey
  obtain ⟨wait, hw, -, hping, hrests⟩ := hattends "ping" hkey
  have hwait : (last.setting.world.2.wait? ⟨1⟩).any (fun wait =>
      wait.filter == some ofBell && wait.received.isEmpty) = true := by
    rw [hlast]
    decide +kernel
  rw [hw, Option.any_some, Bool.and_eq_true, beq_iff_eq, List.isEmpty_iff] at hwait
  obtain ⟨hfilter, hreceived⟩ := hwait
  have hpong : last.setting.scene.bus.filter? "pong" ⟨1⟩ = some none := by
    rw [hlast]
    decide +kernel
  exact ⟨past, last, c, wait, h, ⟨slot, hslot, hc⟩, hkey, hw, hfilter, hreceived, hrests,
    hfilter ▸ hping, hpong⟩

end FrameChain
