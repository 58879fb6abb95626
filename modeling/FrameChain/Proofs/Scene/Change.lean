import FrameChain.Proofs.History

set_option autoImplicit false

namespace FrameChain

variable {κ : Type}

structure Slot.Evolves (t t' : Slot κ) : Prop where
  owner : t'.owner = t.owner
  name : t'.name = t.name
  initialized : t'.initialized = t.initialized
  absent : t'.component = none ↔ t.component = none
  state : t'.state = t.state ∨
    t.state.isDone = false ∧ (t'.state = .finished ∨ t'.state = .detached)

theorem Slot.Evolves.refl (t : Slot κ) : t.Evolves t := ⟨rfl, rfl, rfl, Iff.rfl, .inl rfl⟩

def Request.isSubscription : Request κ → Bool
  | subscribe .. | unsubscribe .. => true
  | _ => false

/-- The patch writes to this field what was there. -/
def EntityPatch.Keeps {α : Type} (field : Entity → α) (patch : EntityPatch) (e : Entity) : Prop :=
  field (patch.apply e) = field e

instance {α : Type} [DecidableEq α] (field : Entity → α) : DecidableRel (EntityPatch.Keeps field) :=
  fun patch e => inferInstanceAs (Decidable (field (patch.apply e) = field e))

def Request.Patches (P : EntityPatch → Entity → Prop) (s : Scene κ) : Request κ → Prop
  | patchEntity key patch => ∀ e ∈ s.entity? key, P patch e
  | _ => True

def HostCall.Patches (P : EntityPatch → Entity → Prop) (s : Scene κ) : HostCall κ → Prop
  | patchEntity key patch => ∀ e ∈ s.entity? key, P patch e
  | _ => True

section

variable {P : EntityPatch → Entity → Prop}

instance [DecidableRel P] (s : Scene κ) : DecidablePred (Request.Patches P s)
  | .patchEntity key patch => inferInstanceAs (Decidable (∀ e ∈ s.entity? key, P patch e))
  | .finish | .addComponent .. | .stop .. | .removeEntity .. | .send .. | .subscribe ..
  | .unsubscribe .. => .isTrue trivial

instance [DecidableRel P] (s : Scene κ) : DecidablePred (HostCall.Patches P s)
  | .patchEntity key patch => inferInstanceAs (Decidable (∀ e ∈ s.entity? key, P patch e))
  | .addEntity .. | .addComponent .. | .stop .. | .removeEntity .. | .send .. | .subscribe ..
  | .unsubscribe .. | .drainEvents | .editComponent .. => .isTrue trivial

theorem Request.patches_any (s : Scene κ) (r : Request κ) : r.Patches (fun _ _ => True) s := by
  cases r with
  | patchEntity => exact fun _ _ => trivial
  | _ => trivial

theorem HostCall.patches_any (s : Scene κ) (c : HostCall κ) : c.Patches (fun _ _ => True) s := by
  cases c with
  | patchEntity => exact fun _ _ => trivial
  | _ => trivial

end

namespace Scene

theorem slot?_id {s : Scene κ} {id : ComponentId} {t : Slot κ} (h : s.slot? id = some t) :
    t.id = id := by
  simpa using List.find?_some h

theorem slot?_mem {s : Scene κ} {id : ComponentId} {t : Slot κ} (h : s.slot? id = some t) :
    t ∈ s.slots := List.mem_of_find?_eq_some h

theorem entity?_mem {s : Scene κ} {key : EntityId} {e : Entity} (h : s.entity? key = some e) :
    (key, e) ∈ s.entities := by
  obtain ⟨⟨found, e'⟩, hfind, rfl⟩ := Option.map_eq_some_iff.1 h
  obtain rfl : found = key := by simpa using List.find?_some hfind
  exact List.mem_of_find?_eq_some hfind

theorem slot?_modifySlot (s : Scene κ) (id x : ComponentId) (f : Slot κ → Slot κ)
    (hf : ∀ t, (f t).id = t.id) :
    (s.modifySlot id f).slot? x = (s.slot? x).map fun t => if t.id == id then f t else t := by
  unfold slot? modifySlot
  rw [List.find?_map]
  congr 2
  funext t
  simp only [Function.comp_apply]
  split <;> simp [hf]

theorem slot?_modifySlot_self {s : Scene κ} {id : ComponentId} {t : Slot κ} (h : s.slot? id = some t)
    (f : Slot κ → Slot κ) (hf : ∀ t, (f t).id = t.id) :
    (s.modifySlot id f).slot? id = some (f t) := by
  rw [slot?_modifySlot s id id f hf, h]
  simp [slot?_id h]

theorem entity?_modifyEntity (s : Scene κ) (key x : EntityId) (f : Entity → Entity) :
    (s.modifyEntity key f).entity? x = if x = key then (s.entity? x).map f else s.entity? x := by
  have hkeys : ((fun entry : EntityId × Entity => entry.1 == x) ∘ fun entry =>
      if entry.1 == key then (entry.1, f entry.2) else entry) = fun entry => entry.1 == x := by
    funext entry
    simp only [Function.comp_apply]
    split <;> rfl
  simp only [entity?, modifyEntity, List.find?_map, hkeys, Option.map_map]
  cases hfind : s.entities.find? fun entry => entry.1 == x with
  | none => simp
  | some entry =>
    obtain rfl : entry.1 = x := by simpa using List.find?_some hfind
    by_cases hx : entry.1 = key <;> simp [hx]

/-- Entities are patched in these ways only. -/
inductive ChangeBy [Named κ] (P : EntityPatch → Entity → Prop) (s : Scene κ) : Scene κ → Prop where
  | same : ChangeBy P s s
  | added (name : String) : ChangeBy P s (s.addEntity name).2
  | patched {key : EntityId} {patch : EntityPatch} (h : ∀ e ∈ s.entity? key, P patch e) :
      ChangeBy P s (s.patchEntity key patch).2
  | doomed {id : EntityId} {e : Entity} (h : s.entity? id = some e) (hr : e.removing = false) :
      ChangeBy P s { s.modifyEntity id fun e => { e with removing := true } with
        removalQueue := s.removalQueue ++ [id] }
  | attached {owner : EntityId} {e : Entity} (component : κ) (h : s.entity? owner = some e) :
      ChangeBy P s (s.addComponent owner component).2
  | stopped (id : ComponentId) (ending : Ending) : ChangeBy P s (s.markStopped id ending)
  | sent (key : String) (data : Json) (origin : Option EntityId) :
      ChangeBy P s (s.sendMessage key data origin)
  | subscribed (key : String) {id : ComponentId} {t : Slot κ} (filter : Option Condition)
      (h : s.slot? id = some t) : ChangeBy P s { s with bus := s.bus.subscribe key id filter }
  | unsubscribed (key : String) (id : ComponentId) : ChangeBy P s (s.unsubscribe key id)
  | drained : ChangeBy P s s.drainEvents.2
  | edited (id : ComponentId) (f : κ → κ) :
      ChangeBy P s (s.modifySlot id fun slot => { slot with component := slot.component.map f })

abbrev Change [Named κ] (s s' : Scene κ) : Prop := ChangeBy (fun _ _ => True) s s'

section

variable [Named κ] {P : EntityPatch → Entity → Prop} (s : Scene κ)

theorem change_removeEntity (id : EntityId) : ChangeBy P s (s.removeEntity id).2 := by
  unfold removeEntity
  cases h : s.entity? id with
  | none => exact .same
  | some e =>
    cases hr : e.removing with
    | true => simp only [hr]; exact .same
    | false => simp only [hr]; exact .doomed h hr

theorem change_addComponent (owner : EntityId) (component : κ) :
    ChangeBy P s (s.addComponent owner component).2 := by
  cases h : s.entity? owner with
  | none => simp only [addComponent, h]; exact .same
  | some e => exact .attached component h

theorem change_stop (id : ComponentId) (ending : Ending) : ChangeBy P s (s.stop id ending).2 := by
  unfold stop
  cases s.slot? id with
  | none => exact .same
  | some t => exact .stopped id ending

theorem change_subscribe (key : String) (id : ComponentId) (filter : Option Condition) :
    ChangeBy P s (s.subscribe key id filter).2 := by
  unfold subscribe
  cases h : s.slot? id with
  | none => exact .same
  | some t => exact .subscribed key filter h

theorem changeBy_answer (self : Caller) {r : Request κ} (hr : r.Patches P s) :
    ChangeBy P s (r.answer self s).2 := by
  cases r with
  | finish => exact .stopped _ _
  | addComponent owner component => exact change_addComponent s owner component
  | stop id ending => exact change_stop s id ending
  | patchEntity key patch => exact .patched hr
  | removeEntity id => exact change_removeEntity s id
  | send key data => exact .sent key data _
  | subscribe key filter => exact change_subscribe s key _ filter
  | unsubscribe key => exact .unsubscribed key _

theorem changeBy_apply {c : HostCall κ} (hc : c.Patches P s) : ChangeBy P s (c.apply s).2 := by
  cases c with
  | addEntity name => exact .added name
  | patchEntity key patch => exact .patched hc
  | removeEntity id => exact change_removeEntity s id
  | addComponent owner component => exact change_addComponent s owner component
  | stop id ending => exact change_stop s id ending
  | send key data origin => exact .sent key data origin
  | subscribe key component filter => exact change_subscribe s key component filter
  | unsubscribe key component => exact .unsubscribed key component
  | drainEvents => exact .drained
  | editComponent id f => exact .edited id f

theorem change_answer (self : Caller) (r : Request κ) : Change s (r.answer self s).2 :=
  changeBy_answer s self (r.patches_any s)

theorem change_apply (c : HostCall κ) : Change s (c.apply s).2 := changeBy_apply s (c.patches_any s)

end

section

variable [Named κ]

theorem topics_answer (s : Scene κ) (self : Caller) {r : Request κ} (hr : r.isSubscription = false) :
    (r.answer self s).2.bus.topics = s.bus.topics := by
  cases r with
  | subscribe | unsubscribe => cases hr
  | addComponent owner component =>
    simp only [Request.answer, addComponent]
    split <;> rfl
  | stop id ending =>
    simp only [Request.answer, stop]
    split <;> rfl
  | removeEntity id =>
    simp only [Request.answer, removeEntity]
    split
    · rfl
    · split <;> rfl
  | _ => rfl

end

/-- Slots stay. No component leaves its slot, and none moves on except to its end. -/
structure Later (s s' : Scene κ) : Prop where
  slot : ∀ id t, s.slot? id = some t → ∃ t', s'.slot? id = some t' ∧ t.Evolves t'
  issued : s.componentsIssued ≤ s'.componentsIssued

theorem Later.of_eq {s s' : Scene κ} (hs : s'.slots = s.slots)
    (hi : s'.componentsIssued = s.componentsIssued) : Later s s' := by
  refine ⟨fun id t h => ⟨t, ?_, .refl t⟩, Nat.le_of_eq hi.symm⟩
  simpa only [slot?, hs] using h

theorem later_modifySlot (s : Scene κ) (id : ComponentId) (f : Slot κ → Slot κ)
    (hid : ∀ t, (f t).id = t.id) (hf : ∀ t : Slot κ, t.Evolves (f t)) :
    Later s (s.modifySlot id f) := by
  refine ⟨fun x t ht => ?_, Nat.le_refl _⟩
  rw [slot?_modifySlot s id x f hid, ht]
  refine ⟨_, rfl, ?_⟩
  dsimp only
  split
  · exact hf t
  · exact .refl t

theorem later_markStopped (s : Scene κ) (id : ComponentId) (ending : Ending) :
    Later s (s.markStopped id ending) := by
  refine later_modifySlot s id _ (fun t => ?_) fun t => ?_
  · split <;> rfl
  · split
    · exact .refl t
    · rename_i h
      refine ⟨rfl, rfl, rfl, Iff.rfl, .inr ⟨by simpa using h, ?_⟩⟩
      cases ending
      · exact .inl rfl
      · exact .inr rfl

theorem ChangeBy.later [Named κ] {P : EntityPatch → Entity → Prop} {s s' : Scene κ}
    (h : ChangeBy P s s') : Later s s' := by
  cases h with
  | @attached owner e component h =>
    simp only [addComponent, h]
    refine ⟨fun id t ht => ⟨t, ?_, .refl t⟩, Nat.le_succ _⟩
    unfold slot? at ht ⊢
    simp only [List.find?_append, ht, Option.some_or]
  | stopped id ending => exact later_markStopped s id ending
  | edited id f =>
    refine later_modifySlot s id _ (fun _ => rfl) fun t => ⟨rfl, rfl, rfl, ?_, .inl rfl⟩
    cases t.component <;> simp
  | _ => exact .of_eq rfl rfl

end Scene
end FrameChain
