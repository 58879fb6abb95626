import FrameChain.Proofs.Chain.Unfolding
import FrameChain.Proofs.Moment.Course
import FrameChain.Proofs.Scene.Matched

set_option autoImplicit false

namespace FrameChain

open Chain ChainRun

variable {κ ω α : Type}

section Members

variable [Named κ]

/-- The fresh members are attached one after the other, each of them once, and the ids are those of all
members. -/
inductive Enlists (owner : EntityId) : List (Member κ) → Scene κ → List ComponentId → Scene κ → Prop
  | nil (s : Scene κ) : Enlists owner [] s [] s
  | fresh {component : κ} {rest : List (Member κ)} {s s' : Scene κ} {id : ComponentId}
      {ids : List ComponentId} (hid : (s.addComponent owner component).1 = .ok id)
      (h : Enlists owner rest (s.addComponent owner component).2 ids s') :
      Enlists owner (.fresh component :: rest) s (id :: ids) s'
  | existing {id : ComponentId} {rest : List (Member κ)} {s s' : Scene κ} {ids : List ComponentId}
      (h : Enlists owner rest s ids s') : Enlists owner (.existing id :: rest) s (id :: ids) s'

theorem Scene.entity?_addComponent_none {s : Scene κ} {owner id : EntityId} {component : κ}
    (h : (s.addComponent owner component).2.entity? id = none) : s.entity? id = none := by
  rw [addComponent] at h
  split at h
  · exact h
  · have hlist := entity?_modifyEntity s owner id fun e =>
      { e with components := e.components ++ [⟨s.componentsIssued + 1⟩] }
    have hnone := hlist.symm.trans h
    split at hnone
    · exact Option.map_eq_none_iff.mp hnone
    · exact hnone

/-- Attaching members fails only for want of the entity, and then nothing was attached. -/
theorem Errand.run_enlisted {owner : EntityId} {members : List (Member κ)} {self : Caller}
    {σ σ' : Setting κ ω} {answer : Except Failure (List ComponentId)}
    (hr : (enlisted owner members).run self σ = (.ok answer, σ')) :
    (∃ ids, answer = .ok ids ∧ Enlists owner members σ.scene ids σ'.scene) ∨
      answer = .error (.entityNotFound owner) ∧ σ.scene.entity? owner = none ∧ σ' = σ := by
  induction members generalizing σ σ' answer with
  | nil =>
    cases hr
    exact .inl ⟨[], rfl, .nil _⟩
  | cons m rest ih =>
    cases m with
    | existing id =>
      obtain ⟨more, σ₁, hmore, hend⟩ := Script.exists_of_bind hr
      cases hend
      obtain ⟨ids, rfl, hids⟩ | ⟨rfl, hnone, rfl⟩ := ih hmore
      · exact .inl ⟨id :: ids, rfl, .existing hids⟩
      · exact .inr ⟨rfl, hnone, rfl⟩
    | fresh component =>
      obtain ⟨reply, σ₁, hadd, hend⟩ := Script.exists_of_bind
        (p := .request (.addComponent owner component)) hr
      rw [Script.run_request] at hadd
      obtain ⟨hreply, rfl⟩ := Prod.mk.inj hadd
      have hreply : (σ.scene.addComponent owner component).1 = reply := Except.ok.inj hreply
      cases he : σ.scene.entity? owner with
      | none =>
        obtain rfl : Except.error (.entityNotFound owner) = reply := by
          rw [← hreply, Scene.addComponent, he]
        cases hend
        refine .inr ⟨rfl, rfl, ?_⟩
        change Setting.mk (σ.scene.addComponent owner component).2 σ.world = σ
        rw [Scene.addComponent, he]
      | some e =>
        cases reply with
        | error f =>
          rw [Scene.addComponent, he] at hreply
          cases hreply
        | ok id =>
          obtain ⟨more, σ₂, hmore, hend⟩ := Script.exists_of_bind hend
          cases hend
          obtain ⟨ids, rfl, hids⟩ | ⟨rfl, hnone, rfl⟩ := ih hmore
          · exact .inl ⟨id :: ids, rfl, .fresh hreply hids⟩
          · cases he.symm.trans (Scene.entity?_addComponent_none hnone)

end Members

structure Scene.Dismisses (ids : List ComponentId) (s s' : Scene κ) : Prop where
  slot : ∀ i, s'.slot? i = (s.slot? i).map fun t =>
    if t.state.isDone = false ∧ i ∈ ids then { t with state := .finished } else t
  done : ∀ i ∈ ids, s'.isDone i = true
  rest : s' = { s with slots := s'.slots }

def Quorum.Reached (s : Scene κ) (ids : List ComponentId) : Quorum → Prop
  | all => ∀ i ∈ ids, s.isDone i = true
  | first => ids = [] ∨ ∃ i ∈ ids, s.isDone i = true

def Quorum.Settles (ids : List ComponentId) (s s' : Scene κ) : Quorum → Prop
  | all => s' = s
  | first => s.Dismisses ids s'

namespace Scene

def finishUndone (s : Scene κ) (i : ComponentId) : Scene κ :=
  if s.isDone i then s else s.markStopped i .finished

def dismiss (s : Scene κ) (ids : List ComponentId) : Scene κ := ids.foldl finishUndone s

theorem slot?_finishUndone (s : Scene κ) (i x : ComponentId) :
    (s.finishUndone i).slot? x = (s.markStopped i .finished).slot? x := by
  rw [finishUndone]
  split
  · rename_i hd
    rw [slot?_markStopped]
    cases hs : s.slot? x with
    | none => rfl
    | some t =>
      rw [Option.map_some]
      split
      · rename_i heq
        rw [if_pos]
        rw [← isDone_of_slot hs, ← slot?_id hs, beq_iff_eq.mp heq, hd]
      · rfl
  · rfl

theorem slot?_dismiss (s : Scene κ) (ids : List ComponentId) (x : ComponentId) :
    (s.dismiss ids).slot? x = (s.slot? x).map fun t =>
      if t.state.isDone = false ∧ x ∈ ids then { t with state := .finished } else t :=
  slot?_foldl_stopping slot?_finishUndone s ids x

theorem exists_slots_dismiss (s : Scene κ) (ids : List ComponentId) :
    ∃ slots, s.dismiss ids = { s with slots } := by
  induction ids generalizing s with
  | nil => exact ⟨s.slots, rfl⟩
  | cons i rest ih =>
    have hstep : ∃ slots, s.finishUndone i = { s with slots } := by
      rw [finishUndone]
      split
      · exact ⟨s.slots, rfl⟩
      · exact ⟨_, rfl⟩
    obtain ⟨slots, hi⟩ := hstep
    obtain ⟨slots', hrest⟩ := ih (s.finishUndone i)
    exact ⟨slots', hrest.trans (by rw [hi])⟩

theorem dismisses (s : Scene κ) (ids : List ComponentId) : s.Dismisses ids (s.dismiss ids) := by
  refine ⟨s.slot?_dismiss ids, fun i hi => ?_, ?_⟩
  · cases hs : s.slot? i with
    | none => exact isDone_of_no_slot ((s.slot?_dismiss ids i).trans (by rw [hs, Option.map_none]))
    | some t =>
      rw [isDone_of_slot ((s.slot?_dismiss ids i).trans (by rw [hs, Option.map_some]))]
      cases hd : t.state.isDone with
      | true => rw [if_neg (fun h => Bool.noConfusion h.1), hd]
      | false =>
        rw [if_pos ⟨rfl, hi⟩]
        rfl
  · obtain ⟨slots, h⟩ := s.exists_slots_dismiss ids
    rw [h]

end Scene

namespace Errand

variable [Named κ] {act : α → Caller → Script κ ω (Except Failure Unit)} {self : Caller}
  {absolute : Seconds} {name : String} {σ σ' : Setting κ ω} {quorum : Quorum} {set : MemberSet κ ω}
  {ids : List ComponentId} {v : Visit κ ω α} {e : Errand κ ω α}

theorem run_dismissed {answer : Except Failure Unit}
    (hr : (dismissed ids : Script κ ω _).run self σ = (.ok answer, σ')) :
    answer = .ok () ∧ σ'.scene = σ.scene.dismiss ids := by
  induction ids generalizing σ with
  | nil =>
    cases hr
    exact ⟨rfl, rfl⟩
  | cons i rest ih =>
    change ((if σ.scene.isDone i then dismissed rest else _ : Script κ ω _).run self σ) = _ at hr
    rw [Scene.dismiss, List.foldl_cons, Scene.finishUndone]
    cases hd : σ.scene.isDone i with
    | true =>
      rw [hd, if_pos rfl] at hr
      rw [if_pos rfl]
      exact ih hr
    | false =>
      rw [hd, if_neg Bool.false_ne_true] at hr
      rw [if_neg Bool.false_ne_true]
      cases hs : σ.scene.slot? i with
      | none => cases hd.symm.trans (Scene.isDone_of_no_slot hs)
      | some t =>
        obtain ⟨reply, σ₁, hstop, hend⟩ := Script.exists_of_bind (p := .request (.stop i .finished)) hr
        rw [Script.run_request] at hstop
        obtain ⟨hreply, rfl⟩ := Prod.mk.inj hstop
        have hanswer : σ.scene.stop i .finished = (.ok (), σ.scene.markStopped i .finished) := by
          rw [Scene.stop, hs]
        change Except.ok (σ.scene.stop i .finished).1 = .ok reply at hreply
        rw [hanswer] at hreply
        cases hreply
        obtain ⟨rfl, hscene⟩ := ih hend
        refine ⟨rfl, hscene.trans ?_⟩
        change (σ.scene.stop i .finished).2.dismiss rest = _
        rw [hanswer]
        rfl

theorem run_awaiting (hr : (e.awaiting ids quorum).run self σ = (.ok v, σ')) :
    (¬ quorum.Reached σ.scene ids ∧ v = .waiting e ∧ σ'.scene = σ.scene) ∨
      quorum.Reached σ.scene ids ∧ v = .finished e ∧ quorum.Settles ids σ.scene σ'.scene := by
  cases quorum with
  | all =>
    cases hr
    by_cases hall : ids.all σ.scene.isDone = true
    · rw [if_pos hall]
      exact .inr ⟨List.all_eq_true.mp hall, rfl, rfl⟩
    · rw [if_neg hall]
      exact .inl ⟨fun h => hall (List.all_eq_true.mpr h), rfl, rfl⟩
  | first =>
    change ((if ids.any σ.scene.isDone then _ else _ : Script κ ω _).run self σ) = _ at hr
    by_cases hany : ids.any σ.scene.isDone = true
    · rw [if_pos hany] at hr
      obtain ⟨answer, σ₁, hdismissed, hend⟩ := Script.exists_of_bind hr
      obtain ⟨rfl, hscene⟩ := run_dismissed hdismissed
      cases hend
      refine .inr ⟨.inr ?_, rfl, ?_⟩
      · obtain ⟨i, hi, hd⟩ := List.any_eq_true.mp hany
        exact ⟨i, hi, hd⟩
      · rw [Quorum.Settles, hscene]
        exact σ.scene.dismisses ids
    · rw [if_neg hany] at hr
      cases hr
      have hnone : ¬ ∃ i ∈ ids, σ.scene.isDone i = true := fun h => by
        obtain ⟨i, hi, hd⟩ := h
        exact hany (List.any_eq_true.mpr ⟨i, hi, hd⟩)
      cases ids with
      | nil => exact .inr ⟨.inl rfl, rfl, σ.scene.dismisses []⟩
      | cons i rest =>
        refine .inl ⟨fun h => ?_, rfl, rfl⟩
        rcases h with h | h
        · cases h
        · exact hnone h

omit [Named κ] in
theorem eq_waitForMembers (h : e.command = quorum.command set) :
    ∃ ids, e = waitForMembers quorum set ids := by
  cases e with
  | waitForMembers q set' ids =>
    cases q <;> cases quorum <;> cases h <;> exact ⟨ids, rfl⟩
  | waitForMessage key condition => cases condition <;> cases quorum <;> cases h
  | _ => cases quorum <;> cases h

end Errand

inductive MemberSet.Supplies (w : ω) : MemberSet κ ω → List (Member κ) → Prop
  | listed (members : List (Member κ)) : Supplies w (.members (some members)) members
  | made {f : HostFun ω (List (Member κ))} {members : List (Member κ)} {w' : ω}
      (h : f w = (.ok members, w')) : Supplies w (.factory f) members

def MemberSet.spent : MemberSet κ ω → MemberSet κ ω
  | .members _ => .members none
  | .factory f => .factory f

/-- How a set may be resolved: its members are attached as far as they are fresh, or the entity that they
were to be attached to is missing, or the set was resolved before. -/
inductive Errand.Resolves [Named κ] (self : Caller) (name : String) (quorum : Quorum)
    (set : MemberSet κ ω) (σ : Setting κ ω) (s : Scene κ) :
    Except Failure (List ComponentId) → MemberSet κ ω → Prop
  | attached {members : List (Member κ)} {ids : List ComponentId} (hm : set.Supplies σ.world members)
      (h : Enlists self.entity members σ.scene ids s) : Resolves self name quorum set σ s (.ok ids) set.spent
  | orphaned {members : List (Member κ)} (hm : set.Supplies σ.world members)
      (ho : σ.scene.entity? self.entity = none) (hs : s = σ.scene) :
      Resolves self name quorum set σ s (.error (.entityNotFound self.entity)) set.spent
  | consumed (hc : set = .members none) (hs : s = σ.scene) :
      Resolves self name quorum set σ s (.error (.componentConsumed name quorum.opcode)) set

theorem Errand.run_resolved [Named κ] {self : Caller} {name : String} {quorum : Quorum}
    {set set' : MemberSet κ ω} {σ σ' : Setting κ ω} {answer : Except Failure (List ComponentId)}
    (hr : (resolved self name quorum set).run self σ = (.ok (answer, set'), σ')) :
    Resolves self name quorum set σ σ'.scene answer set' := by
  cases set with
  | members list =>
    cases list with
    | none =>
      cases hr
      exact .consumed rfl rfl
    | some members =>
      obtain ⟨reply, σ₁, henlisted, hend⟩ := Script.exists_of_bind hr
      cases hend
      obtain ⟨ids, rfl, hids⟩ | ⟨rfl, hnone, rfl⟩ := run_enlisted henlisted
      · exact .attached (.listed members) hids
      · exact .orphaned (.listed members) hnone rfl
  | factory f =>
    obtain ⟨members, σ₁, hmade, hend⟩ := Script.exists_of_bind (p := Script.host f) hr
    obtain ⟨reply, σ₂, henlisted, hend⟩ := Script.exists_of_bind hend
    cases hend
    rw [Script.run_host] at hmade
    obtain ⟨hf, rfl⟩ := Prod.mk.inj hmade
    have hm : (MemberSet.factory f).Supplies σ.world members := .made (Prod.ext hf rfl)
    obtain ⟨ids, rfl, hids⟩ | ⟨rfl, hnone, rfl⟩ := run_enlisted henlisted
    · exact .attached hm hids
    · exact .orphaned hm hnone rfl

def Chain.awaits (c : Chain κ ω α) (id : NodeId) : Option (List ComponentId) :=
  if c.current = some id then c.scratch.awaited else none

theorem Chain.awaits_of_scratch {c : Chain κ ω α} (h : c.scratch = {}) (id : NodeId) :
    c.awaits id = none := by
  rw [awaits, h, ite_self]

theorem Chain.awaits_of_current {c : Chain κ ω α} {id : NodeId} (h : c.current ≠ some id) :
    c.awaits id = none := if_neg h

section History

variable [Named κ]

structure Scene.Hosts (s : Scene κ) (caller : Caller) : Prop where
  sound : ∃ out starting batch, s.Sound out starting batch
  matched : s.Matched
  owned : ∀ t, s.slot? caller.component = some t → t.owner = caller.entity

/-- What a visit decides on the ids of the members, given the scene in which it looks at them. It leaves the
scene as it is and waits on, or it settles the wait. -/
inductive Quorum.Decides (quorum : Quorum) (ids : List ComponentId) (s : Scene κ) (r : Round κ ω α) :
    Option (List ComponentId) → Prop
  | waits (pending : ¬ quorum.Reached s ids) (answer : r.answer = .ok false) (scene : r.left.scene = s) :
      Decides quorum ids s r (some ids)
  | goesOn (reached : quorum.Reached s ids) (answer : r.answer = .ok true)
      (scene : quorum.Settles ids s r.left.scene) : Decides quorum ids s r none

/-- The history of a wait for a set: what the rounds so far have made of the set, and for which ids the wait
is waiting if a pass has begun. -/
inductive SetHistory (caller : Caller) (id : NodeId) (quorum : Quorum) (first : MemberSet κ ω) :
    List (Round κ ω α) → MemberSet κ ω → Option (List ComponentId) → Prop
  | start : SetHistory caller id quorum first [] first none
  /-- A round that does not run the command. -/
  | aside {rounds : List (Round κ ω α)} {set : MemberSet κ ω} {ids : Option (List ComponentId)}
      {r : Round κ ω α} (h : SetHistory caller id quorum first rounds set ids)
      (other : ¬ r.Runs caller id) : SetHistory caller id quorum first (rounds ++ [r]) set ids
  /-- The first visit of a pass attaches the fresh members and looks at them all. -/
  | attached {rounds : List (Round κ ω α)} {set : MemberSet κ ω} {r : Round κ ω α}
      {members : List (Member κ)} {ids : List ComponentId} {s : Scene κ}
      {awaited : Option (List ComponentId)} (h : SetHistory caller id quorum first rounds set none)
      (runs : r.Runs caller id) (supplied : set.Supplies (checked r.chain r.setting).world members)
      (enlists : Enlists caller.entity members r.setting.scene ids s)
      (decides : quorum.Decides ids s r awaited) :
      SetHistory caller id quorum first (rounds ++ [r]) set.spent awaited
  /-- Any further visit of the pass looks at them again. -/
  | again {rounds : List (Round κ ω α)} {set : MemberSet κ ω} {r : Round κ ω α} {ids : List ComponentId}
      {awaited : Option (List ComponentId)} (h : SetHistory caller id quorum first rounds set (some ids))
      (runs : r.Runs caller id) (decides : quorum.Decides ids r.setting.scene r awaited) :
      SetHistory caller id quorum first (rounds ++ [r]) set awaited
  /-- Members that were listed are attached in one pass only. -/
  | consumed {rounds : List (Round κ ω α)} {r : Round κ ω α}
      (h : SetHistory caller id quorum first rounds (.members none) none) (runs : r.Runs caller id)
      (answer : r.answer = .error (.componentConsumed r.chain.name quorum.opcode))
      (scene : r.left.scene = r.setting.scene) :
      SetHistory caller id quorum first (rounds ++ [r]) (.members none) none
  /-- The entity of a component is in the scene, so this happens to nobody in it unless a record was
  replaced. -/
  | orphaned {rounds : List (Round κ ω α)} {set : MemberSet κ ω} {r : Round κ ω α}
      {members : List (Member κ)} (h : SetHistory caller id quorum first rounds set none)
      (runs : r.Runs caller id) (supplied : set.Supplies (checked r.chain r.setting).world members)
      (missing : r.setting.scene.entity? caller.entity = none)
      (outside : ¬ r.setting.scene.Hosts caller)
      (answer : r.answer = .error (.entityNotFound caller.entity))
      (scene : r.left.scene = r.setting.scene) :
      SetHistory caller id quorum first (rounds ++ [r]) set.spent none

variable {act : α → Caller → Script κ ω (Except Failure Unit)} {caller : Caller}
  {rounds : List (Round κ ω α)} {c d : Chain κ ω α} {r : Round κ ω α} {id : NodeId} {here : Node κ ω α}
  {quorum : Quorum} {first set : MemberSet κ ω}

omit [Named κ] in
theorem Scene.Hosts.owner_exists {s : Scene κ} (h : s.Hosts caller)
    (hd : s.isDone caller.component = false) : s.entity? caller.entity ≠ none := by
  cases hs : s.slot? caller.component with
  | none => cases hd.symm.trans (isDone_of_no_slot hs)
  | some t =>
    obtain ⟨out, starting, batch, hsound⟩ := h.sound
    obtain ⟨e, he⟩ := h.matched.owner_exists hsound.registered (slot?_mem hs)
    rw [← h.owned t hs, he]
    rintro ⟨⟩

omit [Named κ] in
theorem kept_turned {v : Visit κ ω α} (hn : c.nodes[id]? = some here)
    {ids : Option (List ComponentId)} (hv : v.errand = .waitForMembers quorum set ids) :
    (v.turned c id).2.command? id = some (quorum.command set) := by
  have h := v.command?_turned hn
  rw [hv] at h
  exact or_self_iff.mp h

theorem Round.Turns.decides (ht : r.Turns act caller id here) {v : Visit κ ω α}
    {ids : List ComponentId} {s : Scene κ} (hturned : v.turned r.chain id = (r.answer, r.after))
    (h : (¬ quorum.Reached s ids ∧ v = .waiting (.waitForMembers quorum set (some ids)) ∧
        r.left.scene = s) ∨
      quorum.Reached s ids ∧ v = .finished (.waitForMembers quorum set (some ids)) ∧
        quorum.Settles ids s r.left.scene) :
    r.after.command? id = some (quorum.command set) ∧ quorum.Decides ids s r (r.after.awaits id) := by
  have hanswer : (v.turned r.chain id).1 = r.answer := congrArg Prod.fst hturned
  have hafter : r.after = (v.turned r.chain id).2 := (congrArg Prod.snd hturned).symm
  rw [hafter]
  rcases h with ⟨hpending, rfl, hscene⟩ | ⟨hreached, rfl, hscene⟩
  · refine ⟨kept_turned ht.node rfl, ?_⟩
    have hawaits : Chain.awaits (Visit.turned r.chain id
        (.waiting (.waitForMembers quorum set (some ids)))).2 id = some ids := if_pos ht.cursor
    rw [hawaits]
    exact .waits hpending hanswer.symm hscene
  · refine ⟨kept_turned ht.node rfl, ?_⟩
    rw [awaits_of_scratch rfl]
    exact .goesOn hreached hanswer.symm hscene

theorem Round.Turns.fails (ht : r.Turns act caller id here) {f : Failure}
    (hturned : Visit.turned r.chain id (.failed f (.waitForMembers quorum set none)) =
      (r.answer, r.after)) :
    r.answer = .error f ∧ r.after.command? id = some (quorum.command set) ∧ r.after.awaits id = none := by
  have hafter : r.after = (Visit.turned r.chain id (.failed f (.waitForMembers quorum set none))).2 :=
    (congrArg Prod.snd hturned).symm
  rw [hafter]
  exact ⟨(congrArg Prod.fst hturned).symm, kept_turned ht.node rfl, awaits_of_scratch rfl id⟩

theorem SetHistory.visit (h : SetHistory caller id quorum first rounds set (r.chain.awaits id))
    (ht : r.Turns act caller id here) (hneat : r.chain.Neat)
    (hc : r.chain.command? id = some (quorum.command set)) :
    ∃ set', r.after.command? id = some (quorum.command set') ∧
      SetHistory caller id quorum first (rounds ++ [r]) set' (r.after.awaits id) := by
  have hcmd : here.command = quorum.command set :=
    Option.some.inj ((command?_of_node ht.node).symm.trans hc)
  obtain ⟨e, v, hec, hes, hr, hturned⟩ :=
    ht.exists_visit hneat (by rw [hcmd, Quorum.opcode_command]; cases quorum <;> rfl)
  obtain ⟨ids, rfl⟩ := Errand.eq_waitForMembers (hec.trans hcmd)
  have hids : r.chain.awaits id = ids := by
    rw [awaits, if_pos ht.cursor, ← hes]
    rfl
  rw [hids] at h
  cases ids with
  | some ids =>
    obtain ⟨hafter, hdecides⟩ := ht.decides hturned (Errand.run_awaiting hr)
    exact ⟨set, hafter, h.again ht.toRuns hdecides⟩
  | none =>
    obtain ⟨⟨answer, set'⟩, σ₁, hresolved, hend⟩ := Script.exists_of_bind hr
    cases Errand.run_resolved hresolved with
    | attached hm henlists =>
      obtain ⟨hafter, hdecides⟩ := ht.decides hturned (Errand.run_awaiting hend)
      exact ⟨_, hafter, h.attached ht.toRuns hm henlists hdecides⟩
    | orphaned hm ho hs =>
      obtain ⟨hv, hleft⟩ := Prod.mk.inj hend
      obtain rfl := Except.ok.inj hv
      obtain ⟨hanswer, hafter, hawaits⟩ := ht.fails hturned
      rw [hawaits]
      exact ⟨_, hafter, h.orphaned ht.toRuns hm ho
        (fun hhosts => hhosts.owner_exists ht.undisturbed.running ho) hanswer (hleft ▸ hs)⟩
    | consumed hset hs =>
      obtain ⟨hv, hleft⟩ := Prod.mk.inj hend
      obtain rfl := Except.ok.inj hv
      obtain ⟨hanswer, hafter, hawaits⟩ := ht.fails hturned
      rw [hawaits]
      subst hset
      exact ⟨_, hafter, h.consumed ht.toRuns hanswer (hleft ▸ hs)⟩

theorem Round.Happens.awaits (hr : r.Happens act caller) (hneat : r.chain.Neat)
    (hid : ¬ r.Runs caller id) (hf : r.after.finished = false) :
    r.after.awaits id = r.chain.awaits id := by
  rcases hr.cases with ⟨i, here, ht⟩ | hrests
  · have hcur : r.chain.current ≠ some id := by
      rw [ht.cursor]
      rintro ⟨⟩
      exact hid ht.toRuns
    rw [awaits_of_current hcur]
    by_cases hgo : r.answer = .ok true
    · exact awaits_of_scratch (hr.cleared hneat hgo) id
    · exact awaits_of_current (by rwa [hr.stays hneat hgo hf])
  · rcases hrests.after with hafter | hafter
    · rw [hafter]
    · rw [hafter] at hf
      cases hf

omit [Named κ] in
theorem Chain.Bides.awaits (h : c.Bides d) (hneat : c.Neat) (hf : d.finished = false)
    (hc : c.command? id = some (quorum.command set)) : d.awaits id = c.awaits id := by
  obtain ⟨-, hcursor⟩ := h.cursor hf
  cases hs : c.started with
  | false =>
    have hcur := hneat.blank hs
    have hempty : c.scratch = {} := by
      have hsuits := hneat.suits
      rw [memo_of_current_none hcur] at hsuits
      exact hsuits.nothing
    rw [awaits_of_current (c := c) (by rw [hcur]; rintro ⟨⟩)]
    exact awaits_of_scratch ((h.scratch hf (by rw [hempty])).trans hempty) id
  | true =>
    by_cases hcur : c.current = some id
    · obtain ⟨here, hn, hcmd⟩ := Option.map_eq_some_iff.mp hc
      have hkey : c.scratch.messageKey = none := by
        have hsuits := hneat.suits
        rw [memo_of_node hcur hn, hcmd] at hsuits
        generalize c.scratch = scratch at hsuits ⊢
        cases quorum <;> cases hsuits <;> rfl
      rw [Chain.awaits, Chain.awaits, hcursor hs, h.scratch hf hkey]
    · rw [awaits_of_current hcur, awaits_of_current (by rwa [hcursor hs])]

end History

variable [Named κ]

end FrameChain
