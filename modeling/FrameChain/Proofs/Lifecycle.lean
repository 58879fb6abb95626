import FrameChain.Proofs.Moment.Timed

set_option autoImplicit false

namespace FrameChain

variable {κ ω : Type}

namespace Scene

theorem stop_of_wasIssued {s : Scene κ} (h : s.registry.Consistent) {id : ComponentId}
    (hi : s.wasIssued id = true) (ending : Ending) :
    (s.stop id ending).1 = .ok () ∧ (s.isDone id = true → (s.stop id ending).2 = s) := by
  unfold stop
  cases hs : s.slot? id with
  | none => exact ⟨if_pos hi, fun _ => rfl⟩
  | some t =>
    refine ⟨rfl, fun hd => ?_⟩
    have hdone : t.state.isDone = true := by
      simpa only [isDone, lifecycle?_of_slot hs] using hd
    have hslots : s.slots.map (fun slot => if slot.id == id then
        if slot.state.isDone then slot else { slot with state := ending.lifecycle } else slot) =
        s.slots := by
      refine (List.map_congr_left fun u hu => ?_).trans (List.map_id _)
      split
      · rename_i hid
        have hsame := (slot?_eq_some_iff h).2 ⟨hu, beq_iff_eq.1 hid⟩
        cases hs.symm.trans hsame
        exact if_pos hdone
      · rfl
    unfold markStopped modifySlot
    dsimp only
    rw [hslots]

end Scene

namespace Mark

variable [Named κ]

def granted : Mark κ → List ComponentId
  | hosted s (.addComponent owner component) => (s.addComponent owner component).1.toOption.toList
  | asked _ _ (.addComponent _ _) reply => reply.toOption.toList
  | _ => []

end Mark

def Journal.granted [Named κ] (j : Journal κ) : List ComponentId := j.flatMap Mark.granted

section

variable [Named κ]

theorem Course.met {past : List (Moment κ)} {m : Moment κ} (h : Course past m) :
    ∀ mark ∈ m.journal, ∀ s ∈ mark.scenes, ∃ m' ∈ past ++ [m], m'.scene = s := by
  induction h with
  | start => exact fun mark hmark => absurd hmark List.not_mem_nil
  | @step past m m' h hs ih =>
    obtain ⟨marks, hj, hscenes⟩ := hs.journal
    intro mark hmark s hmem
    rw [hj] at hmark
    rcases List.mem_append.1 hmark with hmark | hmark
    · obtain ⟨x, hx, heq⟩ := ih mark hmark s hmem
      exact ⟨x, List.mem_append_left _ hx, heq⟩
    · rcases hscenes mark hmark s hmem with rfl | rfl
      · exact ⟨m, List.mem_append_left _ (List.mem_append_right _ (List.mem_singleton_self _)), rfl⟩
      · exact ⟨m', List.mem_append_right _ (List.mem_singleton_self _), rfl⟩

end

def firstIds (n : Nat) : List ComponentId := (List.range n).map fun k => ⟨k + 1⟩

theorem firstIds_succ (n : Nat) : firstIds (n + 1) = firstIds n ++ [⟨n + 1⟩] := by
  rw [firstIds, List.range_succ, List.map_append]
  rfl

theorem mem_firstIds {n : Nat} {id : ComponentId} : id ∈ firstIds n ↔ 0 < id.val ∧ id.val ≤ n := by
  simp only [firstIds, List.mem_map, List.mem_range]
  constructor
  · rintro ⟨k, hk, rfl⟩
    exact ⟨Nat.succ_pos k, hk⟩
  · intro ⟨hpos, hle⟩
    refine ⟨id.val - 1, by omega, ?_⟩
    rw [Nat.sub_add_cancel hpos]

theorem Journal.granted_append [Named κ] (j marks : Journal κ) :
    (j ++ marks : Journal κ).granted = j.granted ++ marks.granted := List.flatMap_append

section

variable [Named κ]

theorem firstIds_addComponent (s : Scene κ) (owner : EntityId) (component : κ) :
    firstIds (s.addComponent owner component).2.componentsIssued =
      firstIds s.componentsIssued ++ (s.addComponent owner component).1.toOption.toList := by
  unfold Scene.addComponent
  cases s.entity? owner with
  | none => exact (List.append_nil _).symm
  | some e => exact firstIds_succ _

theorem firstIds_apply (s : Scene κ) (c : HostCall κ) :
    firstIds (c.apply s).2.componentsIssued =
      firstIds s.componentsIssued ++ (Mark.hosted s c).granted := by
  cases c with
  | addComponent owner component => exact firstIds_addComponent s owner component
  | removeEntity id =>
    simp only [HostCall.apply, Scene.removeEntity, Mark.granted, List.append_nil]
    split
    · rfl
    · split <;> rfl
  | stop id ending =>
    simp only [HostCall.apply, Scene.stop, Mark.granted, List.append_nil]
    split <;> rfl
  | subscribe key component filter =>
    simp only [HostCall.apply, Scene.subscribe, Mark.granted, List.append_nil]
    split <;> rfl
  | _ => exact (List.append_nil _).symm

theorem firstIds_answer (self : Caller) (s : Scene κ) (r : Request κ) :
    firstIds (r.answer self s).2.componentsIssued =
      firstIds s.componentsIssued ++ (Mark.asked self s r (r.answer self s).1).granted := by
  cases r with
  | addComponent owner component => exact firstIds_addComponent s owner component
  | removeEntity id =>
    simp only [Request.answer, Scene.removeEntity, Mark.granted, List.append_nil]
    split
    · rfl
    · split <;> rfl
  | stop id ending =>
    simp only [Request.answer, Scene.stop, Mark.granted, List.append_nil]
    split <;> rfl
  | subscribe key filter =>
    simp only [Request.answer, Scene.subscribe, Mark.granted, List.append_nil]
    split <;> rfl
  | _ => exact (List.append_nil _).symm

omit [Named κ] in
theorem Phase.componentsIssued_recover (s : Scene κ) (p : Phase κ) :
    (p.recover s).componentsIssued = s.componentsIssued := by
  cases p with
  | initializing id batch | joining id batch =>
    simp only [Phase.recover, Scene.stop]
    split <;> rfl
  | _ => rfl

omit [Named κ] in
theorem Act.componentsIssued {s s' : Scene κ} {p p' : Phase κ} {marks : Journal κ}
    (h : Act s p p' s' marks) : s'.componentsIssued = s.componentsIssued := by
  cases h with
  | round =>
    rw [Scene.detachDoomed_eq]
    exact Scene.foldl_frame (fun s : Scene κ => s.componentsIssued)
      (f := fun s id => s.markStopped id .detached) (fun _ _ => rfl) s.evicted _
  | @clear doomed =>
    refine Scene.foldl_frame (fun s : Scene κ => s.componentsIssued) (fun s entity => ?_) doomed s
    unfold Scene.removeIfEmpty
    split <;> rfl
  | _ => rfl

theorem Course.granted {past : List (Moment κ)} {m : Moment κ} (h : Course past m) :
    m.journal.granted = firstIds m.scene.componentsIssued := by
  induction h with
  | start => rfl
  | @step past m m' h hs ih =>
    have hquiet : ∀ marks : Journal κ, marks.granted = [] →
        (m.journal ++ marks : Journal κ).granted = firstIds m.scene.componentsIssued := by
      intro marks hmarks
      rw [Journal.granted_append, hmarks, List.append_nil, ih]
    cases hs with
    | onward ho =>
      cases ho with
      | @hosted s j c =>
        refine (Journal.granted_append _ _).trans ?_
        rw [ih, firstIds_apply]
        exact congrArg _ (List.append_nil _)
      | move => exact ih
      | act ha =>
        refine (hquiet _ ?_).trans (congrArg firstIds ha.componentsIssued.symm)
        cases ha <;> rfl
      | call => exact hquiet _ rfl
      | @ask p self s j r =>
        refine (Journal.granted_append _ _).trans ?_
        rw [ih, firstIds_answer]
        exact congrArg _ (List.append_nil _)
      | back => exact ih
    | @fail p self s j component =>
      refine (hquiet p.losses ?_).trans
        (congrArg firstIds (p.componentsIssued_recover (s.putBack _ component)).symm)
      cases p <;> rfl

end

variable [Named κ]

/-- Whatever a history went through, its components moved forward only; a stop of an issued component
succeeded at every moment, and changed nothing when the component was done; ids were issued once, one
after the other; and callbacks were called in time, those about an end after `init`. -/
theorem lifecycle_history (b : Behaviour κ ω) (w : ω) (ops : List (HostOp κ ω)) :
    let s := (ending b w ops).2.scene
    let j := (recording b w ops).2.world.2
    ((recording b w ops).1, (recording b w ops).2.erase) = ending b w ops ∧
    (∃ past last, Passed b w ops past last) ∧
    (∀ past last, Passed b w ops past last →
      (∀ mark ∈ j, ∀ s ∈ mark.scenes, ∃ m ∈ past ++ [last], m.scene = s) ∧
      ((past ++ [last]).Pairwise fun m m' => m.scene.Forward m'.scene) ∧
      ∀ m ∈ past ++ [last], ∀ id, m.scene.wasIssued id = true → ∀ ending,
        (m.scene.stop id ending).1 = .ok () ∧
          (m.scene.isDone id = true → (m.scene.stop id ending).2 = m.scene)) ∧
    (j.granted = firstIds s.componentsIssued ∧
      ∀ id, (s.lifecycle? id).isSome = true ↔ id ∈ j.granted) ∧
    j.Ordered := by
  intro s j
  obtain ⟨past, last, hpassed⟩ := exists_passed b w ops
  have hgranted : j.granted = firstIds s.componentsIssued := by
    have hg := hpassed.course.granted
    rwa [hpassed.journal, hpassed.scene] at hg
  have hregistered : s.registry.Consistent := by
    have hr := hpassed.course.sound.scene.registered
    rwa [hpassed.scene] at hr
  refine ⟨erase_recording b w ops, ⟨past, last, hpassed⟩, ?_, ⟨hgranted, fun id => ?_⟩, ?_⟩
  · intro past last hpassed
    refine ⟨?_, hpassed.course.forward, fun m hm id hi ending => ?_⟩
    · have hmet := hpassed.course.met
      rwa [hpassed.journal] at hmet
    · exact Scene.stop_of_wasIssued (hpassed.course.all_sound m hm).scene.registered hi ending
  · rw [Scene.lifecycle?_isSome hregistered, hgranted, mem_firstIds, Scene.wasIssued_iff]
  · have hordered := hpassed.course.timed.ordered
    rwa [hpassed.journal] at hordered

def agreeable : Behaviour Probe Unit := fun _ _ probe => .done (.ok (), probe)

/-- A probe runs for a frame and is finished, then asked to detach, which comes too late. -/
def visit : List (HostOp Probe Unit) :=
  [.call (.addEntity "hall"), .call (.addComponent ⟨1⟩ {}), .update 1 0 0,
    .call (.stop ⟨1⟩ .finished), .call (.stop ⟨1⟩ .detached), .update 1 0 0]

/-- At some moment the probe runs, and at the end it is removed, with no moment in between leading back. -/
theorem lifecycle_history_visit :
    ∃ past last, Passed agreeable () visit past last ∧
      ((past ++ [last]).Pairwise fun m m' => m.scene.Forward m'.scene) ∧
      (∃ m ∈ past ++ [last], m.scene.lifecycle? ⟨1⟩ = some .running) ∧
      last.scene.lifecycle? ⟨1⟩ = some .removed ∧
      (last.scene.stop ⟨1⟩ .detached).1 = .ok () ∧ last.journal.granted = [⟨1⟩] := by
  obtain ⟨_, ⟨past, last, hpassed⟩, hcourse, ⟨hgranted, _⟩, _⟩ := lifecycle_history agreeable () visit
  obtain ⟨hmet, hforward, hstop⟩ := hcourse past last hpassed
  have hruns : ∃ mark ∈ (recording agreeable () visit).2.world.2, ∃ s ∈ mark.scenes,
      s.lifecycle? ⟨1⟩ = some .running := by decide +kernel
  obtain ⟨mark, hmark, s, hs, hrunning⟩ := hruns
  obtain ⟨m, hm, rfl⟩ := hmet mark hmark s hs
  refine ⟨past, last, hpassed, hforward, ⟨m, hm, hrunning⟩, ?_, ?_, ?_⟩
  · rw [hpassed.scene]
    decide +kernel
  · refine (hstop last (List.mem_append_right _ (List.mem_singleton_self _)) ⟨1⟩ ?_ .detached).1
    rw [hpassed.scene]
    decide +kernel
  · rw [hpassed.journal, hgranted]
    decide +kernel

end FrameChain
