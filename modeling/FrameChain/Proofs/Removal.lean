import FrameChain.Proofs.Moment.Records
import FrameChain.Proofs.Moment.Run
import Mathlib.Data.List.Perm.Basic

set_option autoImplicit false

/-! An entity that is being removed waits in the removal queue, or a round of retirement has taken it
up. A round that fails forgets what it has taken up; the journal names the forgotten entities, and with
them the account is exact. -/
namespace FrameChain

variable {κ ω : Type}

def Scene.doomed (s : Scene κ) : List EntityId := (s.entities.filter (·.2.removing)).map (·.1)

def Phase.takenUp : Phase κ → List EntityId
  | retiring doomed _ | ending _ doomed _ | removing _ doomed _ | dropping _ doomed _ => doomed
  | _ => []

def Mark.losses : Mark κ → List EntityId
  | forgotten entities => entities
  | _ => []

def Journal.forgotten (j : Journal κ) : List EntityId := j.flatMap Mark.losses

theorem Journal.forgotten_append (j marks : Journal κ) :
    forgotten (j ++ marks) = forgotten j ++ forgotten marks :=
  List.flatMap_append

/-- Every entity that is being removed is in one place, and nothing else is. -/
def Moment.Accounted (m : Moment κ) : Prop :=
  (m.phase.takenUp ++ m.scene.removalQueue ++ m.journal.forgotten).Perm m.scene.doomed

namespace Scene

variable {s s' : Scene κ}

theorem entities_nodup (h : s.registry.Consistent) : (s.entities.map (·.1)).Nodup := by
  have hsorted := List.pairwise_map.1 h.entities_sorted
  exact List.pairwise_map.2 (hsorted.imp fun hlt heq => Nat.ne_of_lt hlt (congrArg _ heq))

theorem doomed_nodup (h : s.registry.Consistent) : s.doomed.Nodup :=
  (entities_nodup h).sublist (List.filter_sublist.map _)

theorem mem_doomed (h : s.registry.Consistent) {key : EntityId} :
    key ∈ s.doomed ↔ ∃ e, s.entity? key = some e ∧ e.removing = true := by
  simp only [doomed, List.mem_map, List.mem_filter]
  constructor
  · rintro ⟨⟨key, e⟩, ⟨he, hr⟩, rfl⟩
    exact ⟨e, (entity?_eq_some_iff h).2 he, hr⟩
  · intro ⟨e, he, hr⟩
    exact ⟨(key, e), ⟨entity?_mem he, hr⟩, rfl⟩

theorem doomed_modifyEntity (key : EntityId) (f : Entity → Entity)
    (hr : ∀ e, (key, e) ∈ s.entities → (f e).removing = e.removing) :
    (s.modifyEntity key f).doomed = s.doomed := by
  have hsame : (s.entities.filter fun entry =>
      (if entry.1 == key then (entry.1, f entry.2) else entry).2.removing) =
        s.entities.filter (·.2.removing) := by
    refine List.filter_congr fun entry hmem => ?_
    split
    · rename_i hkey
      exact hr _ (beq_iff_eq.1 hkey ▸ hmem)
    · rfl
  simp only [doomed, modifyEntity, List.filter_map, List.map_map, Function.comp_def, hsame]
  refine List.map_congr_left fun entry _ => ?_
  split <;> rfl

theorem doomed_flag {key : EntityId} {e : Entity} (h : s.registry.Consistent)
    (he : s.entity? key = some e) (hr : e.removing = false) :
    (s.doomed ++ [key]).Perm (s.modifyEntity key fun e => { e with removing := true }).doomed := by
  let flag : Entity → Entity := fun e => { e with removing := true }
  have hflag : (s.modifyEntity key flag).registry.Consistent := consistent_modifyEntity h key flag
  have hnew : key ∉ s.doomed := by
    intro hmem
    obtain ⟨e', he', hr'⟩ := (mem_doomed h).1 hmem
    rw [he] at he'
    cases he'
    rw [hr] at hr'
    cases hr'
  have hnodup : (s.doomed ++ [key]).Nodup := by
    rw [List.nodup_append]
    refine ⟨doomed_nodup h, List.nodup_singleton _, fun a ha c hc => ?_⟩
    rw [List.mem_singleton.1 hc]
    exact fun heq => hnew (heq ▸ ha)
  refine (List.perm_ext_iff_of_nodup hnodup (doomed_nodup hflag)).2 fun x => ?_
  rw [List.mem_append, List.mem_singleton, mem_doomed h]
  rw [mem_doomed hflag, entity?_modifyEntity s key x flag]
  by_cases hx : x = key
  · subst hx
    simp [he, flag]
  · simp [hx]

theorem ChangeBy.queued [Named κ] (hc : ChangeBy (EntityPatch.Keeps Entity.removing) s s')
    (h : s.registry.Consistent) :
    ∃ ids, s'.removalQueue = s.removalQueue ++ ids ∧ (s.doomed ++ ids).Perm s'.doomed := by
  have hnothing : s'.removalQueue = s.removalQueue → s'.doomed = s.doomed →
      ∃ ids, s'.removalQueue = s.removalQueue ++ ids ∧ (s.doomed ++ ids).Perm s'.doomed := by
    intro hq hd
    exact ⟨[], by rw [hq, List.append_nil], by rw [hd, List.append_nil]⟩
  cases hc with
  | added name => exact hnothing rfl (by simp [Scene.doomed, addEntity])
  | @patched key patch hkeeps =>
    exact hnothing rfl (doomed_modifyEntity key patch.apply fun e he =>
      hkeeps e ((entity?_eq_some_iff h).2 he))
  | @doomed id e he hr => exact ⟨[id], rfl, doomed_flag h he hr⟩
  | @attached owner e component ho =>
    simp only [addComponent, ho] at hnothing ⊢
    exact hnothing rfl (doomed_modifyEntity owner
      (fun e => { e with components := e.components ++ [⟨s.componentsIssued + 1⟩] }) fun _ _ => rfl)
  | _ => exact hnothing rfl rfl

theorem detachDoomed_frame (s : Scene κ) :
    s.detachDoomed.removalQueue = [] ∧ s.detachDoomed.doomed = s.doomed := by
  have hview := foldl_frame (fun s : Scene κ => (s.removalQueue, s.doomed)) (f := detachComponents)
    (fun s entity => ?_) s.removalQueue { s with removalQueue := [] }
  · exact ⟨congrArg Prod.fst hview, congrArg Prod.snd hview⟩
  · unfold detachComponents
    cases s.entity? entity with
    | none => rfl
    | some e =>
      refine foldl_frame (fun s : Scene κ => (s.removalQueue, s.doomed)) (fun s id => ?_) _ _
      rfl

/-- An entity that a round has taken up goes, or is queued again. -/
theorem accounted_clear {starting : Option ComponentId} {batch : List ComponentId}
    (doomed forgotten : List EntityId) (hs : s.Sound none starting batch)
    (h : (doomed ++ s.removalQueue ++ forgotten).Perm s.doomed) :
    ((doomed.foldl removeIfEmpty s).removalQueue ++ forgotten).Perm
      (doomed.foldl removeIfEmpty s).doomed := by
  induction doomed generalizing s with
  | nil => exact h
  | cons id rest ih =>
    refine ih (hs.removeIfEmpty id) ?_
    unfold removeIfEmpty
    split
    · have hnodup := h.nodup_iff.2 (doomed_nodup hs.registered)
      have hnew : id ∉ rest ++ s.removalQueue ++ forgotten := (List.nodup_cons.1 hnodup).1
      have hfilter := h.filter fun x => x != id
      have hgone : ((id :: rest) ++ s.removalQueue ++ forgotten).filter (fun x => x != id) =
          rest ++ s.removalQueue ++ forgotten := by
        change (id :: (rest ++ s.removalQueue ++ forgotten)).filter _ = _
        rw [List.filter_cons_of_neg (by simp), List.filter_eq_self]
        intro x hx
        rw [bne_iff_ne]
        exact fun heq => hnew (heq ▸ hx)
      rw [hgone] at hfilter
      refine hfilter.trans (List.Perm.of_eq ?_)
      simp only [Scene.doomed, List.filter_map, List.filter_filter]
      congr 1
      refine List.filter_congr fun e _ => ?_
      exact Bool.and_comm _ _
    · refine List.Perm.trans ?_ h
      change (rest ++ (s.removalQueue ++ [id]) ++ forgotten).Perm
        (id :: (rest ++ s.removalQueue ++ forgotten))
      rw [← List.append_assoc rest, List.append_assoc (rest ++ s.removalQueue)]
      exact List.perm_middle

end Scene

namespace Moment.Accounted

theorem empty : (⟨.idle, none, {}, []⟩ : Moment κ).Accounted := List.Perm.refl []

theorem count_eq {m : Moment κ} (h : m.Accounted) (hp : m.phase.takenUp = [])
    (hs : m.scene.registry.Consistent) {key : EntityId} {e : Entity} (he : m.scene.entity? key = some e) :
    m.scene.removalQueue.count key + m.journal.forgotten.count key = if e.removing then 1 else 0 := by
  have hcount := List.Perm.count_eq h key
  rw [hp, List.nil_append, List.count_append] at hcount
  rw [hcount]
  split
  · rename_i hr
    exact List.count_eq_one_of_mem (Scene.doomed_nodup hs) ((Scene.mem_doomed hs).2 ⟨e, he, hr⟩)
  · rename_i hr
    refine List.count_eq_zero_of_not_mem fun hmem => ?_
    obtain ⟨e', he', hr'⟩ := (Scene.mem_doomed hs).1 hmem
    rw [he] at he'
    cases he'
    exact hr hr'

theorem mem_forgotten {m : Moment κ} (h : m.Accounted) (hp : m.phase.takenUp = [])
    (hq : m.scene.removalQueue = []) (id : EntityId) :
    id ∈ m.journal.forgotten ↔ id ∈ m.scene.doomed := by
  have hiff := List.Perm.mem_iff h (a := id)
  rwa [hp, hq, List.append_nil, List.nil_append] at hiff

theorem same {p p' : Phase κ} {calling calling' : Option Caller} {s s' : Scene κ}
    {j marks : Journal κ} (h : (⟨p, calling, s, j⟩ : Moment κ).Accounted)
    (hp : p'.takenUp = p.takenUp) (hq : s'.removalQueue = s.removalQueue)
    (hd : s'.doomed = s.doomed) (hm : Journal.forgotten marks = []) :
    (⟨p', calling', s', j ++ marks⟩ : Moment κ).Accounted := by
  unfold Moment.Accounted
  rw [Journal.forgotten_append, hm, List.append_nil, hp, hq, hd]
  exact h

theorem change [Named κ] {p : Phase κ} {calling calling' : Option Caller} {s s' : Scene κ}
    {j marks : Journal κ} (h : (⟨p, calling, s, j⟩ : Moment κ).Accounted)
    (hs : s.registry.Consistent) (hc : Scene.ChangeBy (EntityPatch.Keeps Entity.removing) s s')
    (hm : Journal.forgotten marks = []) :
    (⟨p, calling', s', j ++ marks⟩ : Moment κ).Accounted := by
  obtain ⟨ids, hq, hd⟩ := hc.queued hs
  unfold Moment.Accounted
  rw [Journal.forgotten_append, hm, List.append_nil, hq]
  refine List.Perm.trans ?_ ((List.Perm.append_right ids h).trans hd)
  rw [← List.append_assoc, List.append_assoc _ ids, List.append_assoc _ _ ids]
  exact List.Perm.append_left _ List.perm_append_comm

theorem act {s s' : Scene κ} {p p' : Phase κ} {j marks : Journal κ}
    (h : (⟨p, none, s, j⟩ : Moment κ).Accounted) (hs : s.Sound none p.starting p.batch)
    (ha : Act s p p' s' marks) : (⟨p', none, s', j ++ marks⟩ : Moment κ).Accounted := by
  cases ha with
  | round =>
    obtain ⟨hq, hd⟩ := s.detachDoomed_frame
    unfold Moment.Accounted
    rw [hq, hd, List.append_nil, List.append_nil]
    exact h
  | @drop slot doomed rest =>
    exact h.same rfl rfl (Scene.doomed_modifyEntity slot.owner
      (fun e => { e with components := e.components.filter fun id => id != slot.id }) fun _ _ => rfl) rfl
  | @clear doomed =>
    unfold Moment.Accounted
    rw [List.append_nil]
    exact Scene.accounted_clear doomed (Journal.forgotten j) hs h
  | _ => exact h.same rfl rfl rfl rfl

variable [Named κ]

theorem onward {m m' : Moment κ} (h : m.Accounted) (hsound : m.Sound) (hs : Onward m m')
    (hp : m'.journal.Patches (EntityPatch.Keeps Entity.removing)) : m'.Accounted := by
  have hr := hsound.scene.registered
  cases hs with
  | @hosted s j c =>
    exact h.change hr (Scene.changeBy_apply s (hp.of_append.2 _ (List.mem_singleton_self _))) rfl
  | @move p p' s j hm =>
    rw [← List.append_nil j]
    cases hm <;> exact h.same rfl rfl rfl rfl
  | act ha => exact h.act hsound.scene ha
  | call => exact h.same rfl rfl rfl rfl
  | @ask p self s j r =>
    exact h.change hr (Scene.changeBy_answer s self (hp.of_append.2 _ (List.mem_singleton_self _))) rfl
  | @back p self s j component =>
    rw [← List.append_nil j]
    refine h.same ?_ rfl rfl rfl
    cases p <;> rfl

theorem step {m m' : Moment κ} (h : m.Accounted) (hsound : m.Sound) (hs : Step m m')
    (hp : m'.journal.Patches (EntityPatch.Keeps Entity.removing)) : m'.Accounted := by
  cases hs with
  | onward hf => exact h.onward hsound hf hp
  | @fail p self s j component =>
    obtain ⟨c, hc⟩ := hsound.due self rfl
    cases p with
    | initializing id batch | joining id batch =>
      refine h.same rfl ?_ ?_ rfl
      · change (Scene.stop _ id .detached).2.removalQueue = _
        unfold Scene.stop
        split <;> rfl
      · change (Scene.stop _ id .detached).2.doomed = _
        unfold Scene.stop
        split <;> rfl
    | reaching | ticking => exact h.same rfl rfl rfl rfl
    | ending slot doomed rest | removing slot doomed rest =>
      unfold Moment.Accounted
      rw [Journal.forgotten_append]
      refine List.Perm.trans ?_ h
      change (s.removalQueue ++ (Journal.forgotten j ++ (doomed ++ []))).Perm
        (doomed ++ s.removalQueue ++ Journal.forgotten j)
      rw [List.append_nil, ← List.append_assoc, List.append_assoc doomed]
      exact List.perm_append_comm
    | _ => cases hc

theorem along {m m' : Moment κ} (h : m.Accounted) (hsound : m.Sound) (hpath : Path m m')
    (hp : m'.journal.Patches (EntityPatch.Keeps Entity.removing)) : m'.Accounted := by
  induction hpath with
  | refl => exact h
  | tail hpath hs ih =>
    exact (ih (hp.of_prefix (Path.journal (.single hs)))).step (hsound.along hpath) hs hp

end Moment.Accounted

/-- Whoever has this key is being removed, now and from now on: keys are not issued twice. -/
structure Scene.Flagged (s : Scene κ) (key : EntityId) : Prop where
  issued : key.val ≤ s.entitiesIssued
  removing : ∀ e, (key, e) ∈ s.entities → e.removing = true

namespace Scene.Flagged

variable {s s' : Scene κ} {key : EntityId}

theorem of_removing (h : s.registry.Consistent) {e : Entity} (he : s.entity? key = some e)
    (hr : e.removing = true) : s.Flagged key := by
  refine ⟨h.entities_issued _ (mem_registry_entities he), fun e' he' => ?_⟩
  rw [(entity?_eq_some_iff h).2 he'] at he
  cases he
  exact hr

theorem entity?_eq_none_iff (h : s.Flagged key) (hs : s.registry.Consistent) :
    s.entity? key = none ↔ key ∉ s.doomed := by
  rw [mem_doomed hs]
  constructor
  · intro hnone ⟨e, he, _⟩
    rw [hnone] at he
    cases he
  · intro hnot
    cases he : s.entity? key with
    | none => rfl
    | some e => exact absurd ⟨e, he, h.removing e (entity?_mem he)⟩ hnot

theorem redrafts (h : s.Flagged key) (hs : s.Redrafts (EntityPatch.Keeps Entity.removing) s') :
    s'.Flagged key := by
  refine ⟨Nat.le_trans h.issued hs.issued, fun e' hmem => ?_⟩
  rcases hs.record key e' hmem with ⟨e, he, hbecomes⟩ | ⟨name, rfl, -⟩
  · have hr := h.removing e he
    cases hbecomes with
    | patched hkeeps => exact Eq.trans hkeeps hr
    | flagged => rfl
    | _ => exact hr
  · exact absurd h.issued (Nat.not_succ_le_self _)

variable [Named κ] in
theorem along {m m' : Moment κ} (h : m.scene.Flagged key) (hsound : m.Sound) (hpath : Path m m')
    (hp : m'.journal.Patches (EntityPatch.Keeps Entity.removing)) : m'.scene.Flagged key := by
  induction hpath with
  | refl => exact h
  | tail hpath hs ih =>
    exact (ih (hp.of_prefix (Path.journal (.single hs)))).redrafts (hs.redrafts (hsound.along hpath) hp)

end Scene.Flagged

variable [Named κ]

theorem Stretch.forgotten_eq {m m' : Moment κ} (h : Stretch m m') :
    m'.journal.forgotten = m.journal.forgotten := by
  induction h with
  | refl => rfl
  | tail _ ho ih =>
    rw [← ih]
    cases ho with
    | move => rfl
    | back => rfl
    | @act p p' s s' j marks ha =>
      have hnil : Journal.forgotten marks = [] := by cases ha <;> rfl
      change Journal.forgotten (j ++ marks) = Journal.forgotten j
      rw [Journal.forgotten_append, hnil, List.append_nil]
    | hosted | call | ask =>
      refine (Journal.forgotten_append _ _).trans ?_
      exact List.append_nil _

/-- As long as no patch writes to the flag of an entity, an entity that is being removed is queued once,
unless a failing round of retirement has forgotten it, and is then never queued again. So an update that
ends well removes the entities that were to be removed when it began, except those that had been forgotten,
and keeps these. -/
theorem removal_history (b : Behaviour κ ω) (w : ω) (ops : List (HostOp κ ω)) :
    let s := (ending b w ops).2.scene
    let j := (recording b w ops).2.world.2
    ((recording b w ops).1, (recording b w ops).2.erase) = ending b w ops ∧
    ((ending b w ops).1 = .ok () → j.Patches (EntityPatch.Keeps Entity.removing) →
      (∀ key e, s.entity? key = some e →
        s.removalQueue.count key + j.forgotten.count key = if e.removing then 1 else 0) ∧
      ∀ fuel delta absolute,
        let updated := (Scene.update b fuel delta absolute).outcome (ending b w ops).2
        let after := ((Scene.updateRecorded b fuel delta absolute).outcome (recording b w ops).2).2.world.2
        updated.1 = .ok () → after.Patches (EntityPatch.Keeps Entity.removing) →
          ∀ key e, s.entity? key = some e → e.removing = true →
            (updated.2.scene.entity? key = none ↔ key ∉ j.forgotten)) := by
  intro s j
  refine ⟨erase_recording b w ops, fun hok hp => ?_⟩
  obtain ⟨hsame, hreached⟩ := reached_idle hok
  have hsound := Moment.Sound.empty.along hreached
  have haccount := Moment.Accounted.empty.along Moment.Sound.empty hreached hp
  have hscene : (recording b w ops).2.scene = s := congrArg Setting.scene hsame
  rw [hscene] at hsound haccount
  refine ⟨fun key e he => haccount.count_eq rfl hsound.scene.registered he, fun fuel delta absolute => ?_⟩
  intro updated after hupdate hafter key e he hr
  have herase := Turn.erases_update b fuel delta absolute (recording b w ops).2
  rw [hsame] at herase
  have hends := Turn.triple_update (b := b) (Moment.Sound.empty.along hreached) fuel delta absolute
    (recording b w ops).2 .refl
  have hupdated : updated = ((Scene.update b fuel delta absolute).outcome (ending b w ops).2) := rfl
  rw [hupdated, ← herase] at hupdate ⊢
  cases ho : (Scene.updateRecorded b fuel delta absolute).outcome (recording b w ops).2 with
  | mk answer σ =>
    have hjournal : after = σ.world.2 := congrArg (fun o => o.2.world.2) ho
    rw [ho] at hupdate hends
    rw [hjournal] at hafter
    cases answer with
    | error halt => cases hupdate
    | ok u =>
      obtain ⟨hat, hqueue, _⟩ := hends
      have hpath : Path ⟨.idle, none, s, j⟩ ⟨.idle, none, σ.scene, σ.world.2⟩ := hscene ▸ hat.path
      have hsound' := hsound.along hpath
      have haccount' := haccount.along hsound hpath hafter
      have hflag : σ.scene.Flagged key :=
        (Scene.Flagged.of_removing hsound.scene.registered he hr).along hsound hpath hafter
      have hforgotten : σ.world.2.forgotten = j.forgotten := hat.forgotten_eq
      change σ.scene.entity? key = none ↔ _
      rw [hflag.entity?_eq_none_iff hsound'.scene.registered, ← hforgotten]
      exact not_congr (haccount'.mem_forgotten rfl hqueue key).symm

def stubborn : Behaviour Probe Bool := fun callback _ probe =>
  match callback with
  | .detach =>
      .consult fun failed =>
        .store true (.done (if failed then .ok () else .error (.other "no"), probe))
  | _ => .done (.ok (), probe)

/-- Two entities are removed, the first with a probe that refuses to go at first. -/
def eviction : List (HostOp Probe Bool) :=
  [.call (.addEntity "tenant"), .call (.addComponent ⟨1⟩ {}), .update 1 0 0,
    .call (.patchEntity ⟨1⟩ { tag := some (some "late") }), .call (.removeEntity ⟨1⟩), .update 1 0 0,
    .call (.addEntity "guest"), .call (.removeEntity ⟨2⟩)]

/-- The first entity is forgotten and stays; the second is queued and goes. -/
theorem removal_history_eviction :
    let s := (ending stubborn false eviction).2.scene
    let s' := ((Scene.update stubborn 1 0 0).outcome (ending stubborn false eviction).2).2.scene
    (s.entities.map fun entry => (entry.1, entry.2.removing)) = [(⟨1⟩, true), (⟨2⟩, true)] ∧
    (s.removalQueue.count ⟨1⟩ = 0 ∧ s'.entity? ⟨1⟩ ≠ none) ∧
    s.removalQueue.count ⟨2⟩ = 1 ∧ s'.entity? ⟨2⟩ = none := by
  intro s s'
  obtain ⟨hcount, hgone⟩ :=
    (removal_history stubborn false eviction).2 (by decide +kernel) (by decide +kernel)
  have hupdate := hgone 1 0 0 (by decide +kernel) (by decide +kernel)
  have hforgotten : (recording stubborn false eviction).2.world.2.forgotten = [⟨1⟩] := by
    decide +kernel
  have htenant : s.entity? ⟨1⟩ = some
      { id := ⟨1⟩, name := "tenant", tag := some "late", components := [⟨1⟩], removing := true } := by
    decide +kernel
  have hguest : s.entity? ⟨2⟩ = some { id := ⟨2⟩, name := "guest", removing := true } := by
    decide +kernel
  rw [hforgotten] at hcount hupdate
  have hstays := hupdate _ _ htenant rfl
  have hgoes := hupdate _ _ hguest rfl
  have hlost := hcount _ _ htenant
  have hqueued := hcount _ _ hguest
  refine ⟨by decide +kernel, ⟨?_, ?_⟩, ?_, ?_⟩
  · simpa using hlost
  · intro hnone
    exact hstays.1 hnone List.mem_cons_self
  · simpa using hqueued
  · exact hgoes.2 (by decide)

/-- A scheduled removal is forgotten: the entity keeps its flag, is not queued any more, and is still
there after an update that ended well. -/
theorem removal_forgotten :
    let σ := (ending stubborn false eviction).2
    let σ' := (Scene.update stubborn 1 0 0).outcome σ
    (ending stubborn false eviction).1 = .ok () ∧
    ((σ.scene.entity? ⟨1⟩).map fun e => (e.removing, σ.scene.removalQueue.count ⟨1⟩)) =
      some (true, 0) ∧
    σ'.1 = .ok () ∧ (σ'.2.scene.entity? ⟨1⟩).isSome = true := by
  decide +kernel

end FrameChain
