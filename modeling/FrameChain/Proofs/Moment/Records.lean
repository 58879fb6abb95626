import FrameChain.Proofs.Moment.Sound

set_option autoImplicit false

namespace FrameChain

variable {κ : Type} {P : EntityPatch → Entity → Prop}

section

variable (P)

def Mark.Patches : Mark κ → Prop
  | .hosted s c => c.Patches P s
  | .asked _ s r _ => r.Patches P s
  | _ => True

def Journal.Patches (j : Journal κ) : Prop := ∀ mark ∈ j, mark.Patches P

instance [DecidableRel P] : DecidablePred (Mark.Patches (κ := κ) P)
  | .hosted s c => inferInstanceAs (Decidable (c.Patches P s))
  | .asked _ s r _ => inferInstanceAs (Decidable (r.Patches P s))
  | .called .. | .taken .. | .served .. | .passed .. | .forgotten _ => .isTrue trivial

instance [DecidableRel P] : DecidablePred (Journal.Patches (κ := κ) P) :=
  fun j => inferInstanceAs (Decidable (∀ mark ∈ j, mark.Patches P))

end

theorem Journal.patches_any (j : Journal κ) : j.Patches fun _ _ => True := by
  intro mark _
  cases mark with
  | hosted s c => exact c.patches_any s
  | asked self s r reply => exact r.patches_any s
  | _ => trivial

theorem Journal.Patches.of_append {j marks : Journal κ} (h : Journal.Patches P (j ++ marks)) :
    j.Patches P ∧ marks.Patches P :=
  List.forall_mem_append.1 h

theorem Journal.Patches.of_prefix {j j' : Journal κ} (h : j'.Patches P) (hj : j <+: j') : j.Patches P :=
  fun mark hmark => h mark (hj.subset hmark)

inductive Entity.Becomes (P : EntityPatch → Entity → Prop) (e : Entity) : Entity → Prop where
  | same : Becomes P e e
  | patched {patch : EntityPatch} (h : P patch e) : Becomes P e (patch.apply e)
  | flagged : Becomes P e { e with removing := true }
  | listing (ids : List ComponentId) : Becomes P e { e with components := ids }

namespace Scene

/-- Where the records of the second scene come from. -/
structure Redrafts (P : EntityPatch → Entity → Prop) (s s' : Scene κ) : Prop where
  record : ∀ key e', (key, e') ∈ s'.entities →
    (∃ e, (key, e) ∈ s.entities ∧ e.Becomes P e') ∨
      ∃ name, key = ⟨s.entitiesIssued + 1⟩ ∧ e' = { id := key, name }
  issued : s.entitiesIssued ≤ s'.entitiesIssued

variable {s s' : Scene κ}

namespace Redrafts

theorem of_entities (hi : s'.entitiesIssued = s.entitiesIssued)
    (he : ∀ entry ∈ s'.entities, entry ∈ s.entities) : s.Redrafts P s' :=
  ⟨fun _ e' hmem => .inl ⟨e', he _ hmem, .same⟩, Nat.le_of_eq hi.symm⟩

theorem modifyEntity (key : EntityId) (f : Entity → Entity)
    (hf : ∀ e, (key, e) ∈ s.entities → e.Becomes P (f e)) : s.Redrafts P (s.modifyEntity key f) := by
  refine ⟨fun x e' hmem => .inl ?_, Nat.le_refl _⟩
  obtain ⟨⟨y, e⟩, he, heq⟩ := List.mem_map.1 hmem
  dsimp only at heq
  split at heq
  · rename_i hkey
    obtain rfl : y = key := by simpa using hkey
    cases heq
    exact ⟨e, he, hf e he⟩
  · cases heq
    exact ⟨e', he, .same⟩

theorem change [Named κ] (hr : s.registry.Consistent) (hc : ChangeBy P s s') : s.Redrafts P s' := by
  cases hc with
  | added name =>
    refine ⟨fun key e' hmem => ?_, Nat.le_succ _⟩
    rcases List.mem_append.1 hmem with hmem | hmem
    · exact .inl ⟨e', hmem, .same⟩
    · cases List.mem_singleton.1 hmem
      exact .inr ⟨name, rfl, rfl⟩
  | @patched key patch hp =>
    exact modifyEntity key patch.apply fun _ he => .patched (hp _ ((entity?_eq_some_iff hr).2 he))
  | @doomed id =>
    have hflag := modifyEntity (s := s) (P := P) id (fun e => { e with removing := true })
      fun _ _ => .flagged
    exact ⟨hflag.record, hflag.issued⟩
  | @attached owner e component ho =>
    simp only [Scene.addComponent, ho]
    have hlist := modifyEntity (s := s) (P := P) owner
      (fun e => { e with components := e.components ++ [⟨s.componentsIssued + 1⟩] }) fun _ _ => .listing _
    exact ⟨hlist.record, hlist.issued⟩
  | _ => exact of_entities rfl fun _ hmem => hmem

theorem detachDoomed (s : Scene κ) : s.Redrafts P s.detachDoomed := by
  have hview : (s.detachDoomed.entitiesIssued, s.detachDoomed.entities) =
      (s.entitiesIssued, s.entities) := by
    refine foldl_frame (fun s : Scene κ => (s.entitiesIssued, s.entities)) (fun s entity => ?_) _ _
    unfold detachComponents
    cases s.entity? entity with
    | none => rfl
    | some e =>
      refine foldl_frame (fun s : Scene κ => (s.entitiesIssued, s.entities)) (fun s id => ?_) _ _
      rfl
  have hentities : s.detachDoomed.entities = s.entities := congrArg Prod.snd hview
  exact of_entities (congrArg Prod.fst hview) fun entry hmem => hentities ▸ hmem

theorem clear (s : Scene κ) (doomed : List EntityId) :
    s.Redrafts P (doomed.foldl removeIfEmpty s) := by
  have hkept : (doomed.foldl removeIfEmpty s).entitiesIssued = s.entitiesIssued ∧
      ∀ entry ∈ (doomed.foldl removeIfEmpty s).entities, entry ∈ s.entities := by
    refine List.foldlRecOn (motive := fun u : Scene κ => u.entitiesIssued = s.entitiesIssued ∧
      ∀ entry ∈ u.entities, entry ∈ s.entities) doomed _ ⟨rfl, fun _ hmem => hmem⟩ fun u hu entity _ => ?_
    unfold removeIfEmpty
    split
    · exact ⟨hu.1, fun entry hmem => hu.2 entry (List.mem_filter.1 hmem).1⟩
    · exact hu
  exact of_entities hkept.1 hkept.2

theorem dropSlot (s : Scene κ) (slot : Slot κ) : s.Redrafts P (s.dropSlot slot) := by
  have hlist := modifyEntity (s := s) (P := P) slot.owner
    (fun e => { e with components := e.components.filter fun id => id != slot.id }) fun _ _ => .listing _
  exact ⟨hlist.record, hlist.issued⟩

end Redrafts
end Scene

variable [Named κ]

theorem Step.redrafts {m m' : Moment κ} (hs : Step m m') (hm : m.Sound) (hp : m'.journal.Patches P) :
    m.scene.Redrafts P m'.scene := by
  have hr := hm.scene.registered
  cases hs with
  | onward ho =>
    cases ho with
    | @hosted s j c =>
      exact .change hr (Scene.changeBy_apply s (hp.of_append.2 _ (List.mem_singleton_self _)))
    | act ha =>
      cases ha with
      | round => exact .detachDoomed _
      | drop => exact .dropSlot _ _
      | clear => exact .clear _ _
      | _ => exact .of_entities rfl fun _ hmem => hmem
    | @ask p self s j r =>
      exact .change hr (Scene.changeBy_answer s self (hp.of_append.2 _ (List.mem_singleton_self _)))
    | _ => exact .of_entities rfl fun _ hmem => hmem
  | @fail p self s j component =>
    cases p with
    | initializing x batch | joining x batch =>
      refine .of_entities ?_ fun entry hmem => ?_
      · change ((s.putBack self.component component).stop x .detached).2.entitiesIssued = _
        unfold Scene.stop
        split <;> rfl
      · change entry ∈ ((s.putBack self.component component).stop x .detached).2.entities at hmem
        unfold Scene.stop at hmem
        split at hmem <;> exact hmem
    | _ => exact .of_entities rfl fun _ hmem => hmem

def Scene.Labelled (s : Scene κ) : Prop := ∀ key e, (key, e) ∈ s.entities → e.id = key

omit [Named κ] in
theorem Scene.Labelled.redrafts {s s' : Scene κ} (h : s.Labelled)
    (hs : s.Redrafts (EntityPatch.Keeps Entity.id) s') : s'.Labelled := by
  intro key e' hmem
  rcases hs.record key e' hmem with ⟨e, he, hbecomes⟩ | ⟨name, -, rfl⟩
  · refine Eq.trans ?_ (h key e he)
    cases hbecomes with
    | patched hkeeps => exact hkeeps
    | _ => rfl
  · rfl

end FrameChain
