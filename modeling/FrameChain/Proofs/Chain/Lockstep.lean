import FrameChain.Proofs.Chain.Twins
import FrameChain.Proofs.Structured.Refinement

set_option autoImplicit false

namespace FrameChain

open Chain ChainRun

variable {κ ω α τ τ' υ υ' : Type}

inductive Agree {ε : Type} (Q : τ → τ' → Prop) : Except ε τ → Except ε τ' → Prop
  | ok {a : τ} {a' : τ'} (h : Q a a') : Agree Q (.ok a) (.ok a')
  | error (e : ε) : Agree Q (.error e) (.error e)

/-- Both scripts do the same, one thing after the other, and end with related values. -/
inductive Script.Matches (R : τ → τ' → Prop) : Script κ ω τ → Script κ ω τ' → Prop
  | done {a : τ} {a' : τ'} (h : R a a') : Matches R (.done a) (.done a')
  | crash (c : Crash) : Matches R (.crash c) (.crash c)
  | look {next : Scene κ → Script κ ω τ} {next' : Scene κ → Script κ ω τ'}
      (h : ∀ s, Matches R (next s) (next' s)) : Matches R (.look next) (.look next')
  | ask {r : Request κ} {next : r.Reply → Script κ ω τ} {next' : r.Reply → Script κ ω τ'}
      (h : ∀ a, Matches R (next a) (next' a)) : Matches R (.ask r next) (.ask r next')
  | consult {next : ω → Script κ ω τ} {next' : ω → Script κ ω τ'}
      (h : ∀ w, Matches R (next w) (next' w)) : Matches R (.consult next) (.consult next')
  | store {w : ω} {next : Script κ ω τ} {next' : Script κ ω τ'} (h : Matches R next next') :
      Matches R (.store w next) (.store w next')

namespace Script

variable {R : τ → τ' → Prop} {S : υ → υ' → Prop}

theorem Matches.bind {p : Script κ ω τ} {p' : Script κ ω τ'} {f : τ → Script κ ω υ}
    {f' : τ' → Script κ ω υ'} (h : Matches R p p') (hf : ∀ a a', R a a' → Matches S (f a) (f' a')) :
    Matches S (p.bind f) (p'.bind f') := by
  induction h with
  | done ha => exact hf _ _ ha
  | crash c => exact .crash c
  | look _ ih => exact .look ih
  | ask _ ih => exact .ask ih
  | consult _ ih => exact .consult ih
  | store _ ih => exact .store ih

theorem Matches.imp {R' : τ → τ' → Prop} {p : Script κ ω τ} {p' : Script κ ω τ'} (h : Matches R p p')
    (hr : ∀ a a', R a a' → R' a a') : Matches R' p p' := by
  induction h with
  | done ha => exact .done (hr _ _ ha)
  | crash c => exact .crash c
  | look _ ih => exact .look ih
  | ask _ ih => exact .ask ih
  | consult _ ih => exact .consult ih
  | store _ ih => exact .store ih

/-- Run in one setting they do the same and leave the same setting. -/
theorem Matches.run [Named κ] {p : Script κ ω τ} {p' : Script κ ω τ'} (h : Matches R p p')
    (self : Caller) (σ : Setting κ ω) :
    p'.interactions self σ = p.interactions self σ ∧ (p'.run self σ).2 = (p.run self σ).2 ∧
      Agree R (p.run self σ).1 (p'.run self σ).1 := by
  induction h generalizing σ with
  | done ha => exact ⟨rfl, rfl, .ok ha⟩
  | crash c => exact ⟨rfl, rfl, .error c⟩
  | look _ ih =>
    obtain ⟨hi, hs, ha⟩ := ih σ.scene σ
    exact ⟨congrArg (_ :: ·) hi, hs, ha⟩
  | ask _ ih =>
    obtain ⟨hi, hs, ha⟩ := ih _ _
    exact ⟨congrArg (_ :: ·) hi, hs, ha⟩
  | consult _ ih =>
    obtain ⟨hi, hs, ha⟩ := ih σ.world σ
    exact ⟨congrArg (_ :: ·) hi, hs, ha⟩
  | store _ ih =>
    obtain ⟨hi, hs, ha⟩ := ih _
    exact ⟨congrArg (_ :: ·) hi, hs, ha⟩

theorem Matches.exists_run [Named κ] {p : Script κ ω τ} {p' : Script κ ω τ'} (h : Matches R p p')
    {self : Caller} {σ σ' : Setting κ ω} {a' : τ'} (hr : p'.run self σ = (.ok a', σ')) :
    ∃ a, p.run self σ = (.ok a, σ') ∧ R a a' := by
  obtain ⟨-, hsetting, hagree⟩ := h.run self σ
  rw [hr] at hsetting hagree
  cases hrun : p.run self σ with
  | mk outcome σ₁ =>
    rw [hrun] at hsetting hagree
    obtain rfl : σ' = σ₁ := hsetting
    cases hagree with
    | @ok a _ ha => exact ⟨a, rfl, ha⟩

theorem matches_self {R : τ → τ → Prop} (h : ∀ a, R a a) (p : Script κ ω τ) : Matches R p p := by
  induction p with
  | done a => exact .done (h a)
  | crash c => exact .crash c
  | look _ ih => exact .look ih
  | ask _ _ ih => exact .ask ih
  | consult _ ih => exact .consult ih
  | store _ _ ih => exact .store ih

end Script

namespace ChainRun

section Lock

variable (ρ : NodeId → NodeId) (ids : List NodeId) (stale : Bool)

/-- From twins on the runs go in lockstep, and they leave twins. -/
def Lock (t : ChainRun κ ω α τ) (t' : ChainRun κ ω α τ') (Q : τ → τ' → Prop) : Prop :=
  ∀ c c', Twin ρ ids stale c c' →
    Script.Matches (fun e e' => Agree Q e.1 e'.1 ∧ Twin ρ ids stale e.2 e'.2) (t.run c) (t'.run c')

abbrev Even (t : ChainRun κ ω α τ) : Prop := Lock ρ ids stale t t Eq

variable {ρ ids stale}

theorem lock_bind {Q : τ → τ' → Prop} {R : υ → υ' → Prop} {t : ChainRun κ ω α τ}
    {t' : ChainRun κ ω α τ'} {f : τ → ChainRun κ ω α υ} {f' : τ' → ChainRun κ ω α υ'}
    (ht : Lock ρ ids stale t t' Q) (hf : ∀ a a', Q a a' → Lock ρ ids stale (f a) (f' a') R) :
    Lock ρ ids stale (t >>= f) (t' >>= f') R := by
  intro c c' h
  rw [run_bind, run_bind]
  refine (ht c c' h).bind ?_
  rintro ⟨_, d⟩ ⟨_, d'⟩ ⟨hagree, htwin⟩
  cases hagree with
  | ok hq => exact hf _ _ hq d d' htwin
  | error f => exact .done ⟨.error f, htwin⟩

theorem Even.bind {R : υ → υ' → Prop} {t : ChainRun κ ω α τ} {f : τ → ChainRun κ ω α υ}
    {f' : τ → ChainRun κ ω α υ'} (ht : Even ρ ids stale t)
    (hf : ∀ a, Lock ρ ids stale (f a) (f' a) R) : Lock ρ ids stale (t >>= f) (t >>= f') R :=
  lock_bind ht fun a _ h => h ▸ hf a

theorem lock_pure {Q : τ → τ' → Prop} {a : τ} {a' : τ'} (h : Q a a') :
    Lock ρ ids stale (pure a : ChainRun κ ω α τ) (pure a') Q :=
  fun _ _ htwin => .done ⟨.ok h, htwin⟩

theorem even_pure (a : τ) : Even ρ ids stale (pure a : ChainRun κ ω α τ) := lock_pure rfl

theorem lock_throw {Q : τ → τ' → Prop} (f : Failure) :
    Lock ρ ids stale (throw f : ChainRun κ ω α τ) (throw f) Q :=
  fun _ _ htwin => .done ⟨.error f, htwin⟩

theorem even_script (p : Script κ ω τ) : Even ρ ids stale (script p : ChainRun κ ω α τ) := by
  intro c c' htwin
  rw [run_script, run_script]
  exact (Script.matches_self (R := Eq) (fun _ => rfl) p).bind fun a _ h => .done ⟨.ok h, htwin⟩

theorem even_demand (p : Script κ ω (Except Failure τ)) :
    Even ρ ids stale (demand p : ChainRun κ ω α τ) := by
  intro c c' htwin
  rw [run_demand, run_demand]
  refine (Script.matches_self (R := Eq) (fun _ => rfl) p).bind ?_
  rintro answer _ rfl
  cases answer with
  | ok a => exact .done ⟨.ok rfl, htwin⟩
  | error f => exact .done ⟨.error f, htwin⟩

theorem lock_chain {R : υ → υ' → Prop} {f : Chain κ ω α → ChainRun κ ω α υ}
    {f' : Chain κ ω α → ChainRun κ ω α υ'}
    (h : ∀ c c', Twin ρ ids stale c c' → Lock ρ ids stale (f c) (f' c') R) :
    Lock ρ ids stale (chain >>= f) (chain >>= f') R :=
  fun c c' htwin => h c c' htwin c c' htwin

theorem lock_modify {f f' : Chain κ ω α → Chain κ ω α}
    (h : ∀ c c', Twin ρ ids stale c c' → Twin ρ ids stale (f c) (f' c')) :
    Lock ρ ids stale (modify f : ChainRun κ ω α Unit) (modify f') Eq :=
  fun c c' htwin => .done ⟨.ok rfl, h c c' htwin⟩

theorem lock_set {c c' : Chain κ ω α} (h : Twin ρ ids stale c c') :
    Lock ρ ids stale (set c : ChainRun κ ω α PUnit) (set c') Eq :=
  fun _ _ _ => .done ⟨.ok rfl, h⟩

theorem lock_ite {Q : τ → τ' → Prop} {p : Prop} [Decidable p] {t u : ChainRun κ ω α τ}
    {t' u' : ChainRun κ ω α τ'} (ht : Lock ρ ids stale t t' Q) (hu : Lock ρ ids stale u u' Q) :
    Lock ρ ids stale (if p then t else u) (if p then t' else u') Q := by
  split
  · exact ht
  · exact hu

end Lock

section Parts

variable {ρ : NodeId → NodeId} {ids : List NodeId} {stale : Bool} {id : NodeId}

theorem even_scratch : Even ρ ids stale (scratch : ChainRun κ ω α Scratch) :=
  lock_chain fun _ _ h => lock_pure h.scratch.symm

theorem even_modifyScratch (f : Scratch → Scratch) :
    Even ρ ids stale (modifyScratch f : ChainRun κ ω α Unit) :=
  lock_modify fun _ _ h => h.rescratch f

theorem lock_node (hid : id ∈ ids) :
    Lock ρ ids stale (node id : ChainRun κ ω α _) (node (ρ id)) fun n n' =>
      n'.command = n.command ∧ Tracks ρ ids n.next n'.next ∧
        (stale = false → Tracks ρ ids n.jump n'.jump) := by
  refine lock_chain fun c c' h => ?_
  obtain ⟨n, n', hn, hn', hnode⟩ := h.node hid
  simp only [hn, hn']
  exact lock_pure hnode

theorem lock_setCommand (hid : id ∈ ids) (command : Command κ ω α) :
    Lock ρ ids stale (setCommand id command) (setCommand (ρ id) command) Eq :=
  lock_modify fun _ _ h => h.modify hid (fun _ => rfl) (fun _ => rfl) fun _ _ _ => rfl

theorem lock_openScope (hid : id ∈ ids) :
    Lock ρ ids stale (openScope id : ChainRun κ ω α Unit) (openScope (ρ id)) Eq := by
  refine lock_modify fun c c' h => h.rescope ?_ ?_
  · simp [Scopes.push, h.scopes]
  · exact List.forall_mem_cons.mpr ⟨hid, h.opened⟩

theorem lock_closeScope (closer : Opcode) :
    Lock ρ ids stale (closeScope closer : ChainRun κ ω α NodeId) (closeScope closer)
      fun opener opener' => opener ∈ ids ∧ opener' = ρ opener := by
  refine lock_chain fun c c' h => ?_
  have hs := h.scopes
  have ho := h.opened
  cases he : c.scopes.entries with
  | nil =>
    rw [he] at hs
    simp only [Scopes.pop?, he, hs, List.map_nil, h.name]
    exact lock_throw _
  | cons opener rest =>
    rw [he] at hs ho
    obtain ⟨hopener, hrest⟩ := List.forall_mem_cons.mp ho
    simp only [Scopes.pop?, he, hs, List.map_cons]
    exact lock_bind (lock_set (h.rescope rfl hrest)) fun _ _ _ => lock_pure ⟨hopener, rfl⟩

theorem lock_mismatch {Q : τ → τ' → Prop} (opener : Command κ ω α) (closer : Opcode) :
    Lock ρ ids stale (mismatch opener closer : ChainRun κ ω α τ) (mismatch opener closer) Q :=
  lock_chain fun _ _ h => by
    rw [h.name]
    exact lock_throw _

theorem lock_unmatched {Q : τ → τ' → Prop} (opcode : Opcode) :
    Lock ρ ids stale (unmatched opcode : ChainRun κ ω α τ) (unmatched opcode) Q :=
  lock_chain fun _ _ h => by
    rw [h.name]
    exact lock_throw _

theorem even_consumed (opcode : Opcode) : Even ρ ids stale (consumed opcode : ChainRun κ ω α τ) :=
  lock_chain fun _ _ h => by
    rw [h.name]
    exact lock_throw _

theorem even_resolveTarget (self : Caller) (target : Option (Lazy ω EntityId)) :
    Even ρ ids stale (resolveTarget self target : ChainRun κ ω α _) := by
  cases target with
  | none => exact even_pure _
  | some target => exact (even_script _).bind fun _ => even_pure _

theorem even_waitStart (absolute : Seconds) :
    Even ρ ids stale (waitStart absolute : ChainRun κ ω α _) :=
  even_scratch.bind fun _ => (even_modifyScratch _).bind fun _ => even_pure _

theorem even_isDone (id : ComponentId) : Even ρ ids stale (isDone id : ChainRun κ ω α _) :=
  (even_script _).bind fun _ => even_pure _

theorem even_enlist (owner : EntityId) (members : List (Member κ)) :
    Even ρ ids stale (enlist owner members : ChainRun κ ω α _) := by
  induction members with
  | nil => exact even_pure _
  | cons m rest ih =>
    cases m with
    | fresh component => exact (even_demand _).bind fun _ => ih.bind fun _ => even_pure _
    | existing id => exact ih.bind fun _ => even_pure _

theorem even_finishEach (members : List ComponentId) :
    Even ρ ids stale (finishEach members : ChainRun κ ω α Unit) := by
  induction members with
  | nil => exact even_pure _
  | cons id rest ih =>
    exact (even_isDone id).bind fun _ => lock_ite ((even_demand _).bind fun _ => ih) ih

theorem even_removeEach (entities : List EntityId) :
    Even ρ ids stale (removeEach entities : ChainRun κ ω α Unit) := by
  induction entities with
  | nil => exact even_pure _
  | cons entity rest ih => exact (even_demand _).bind fun _ => ih

theorem lock_awaited (self : Caller) (hid : id ∈ ids) (set : MemberSet κ ω)
    (command : MemberSet κ ω → Command κ ω α) :
    Lock ρ ids stale (awaited self id set command) (awaited self (ρ id) set command) Eq := by
  refine even_scratch.bind fun s => ?_
  cases s.awaited with
  | some members => exact even_pure _
  | none =>
    have hrest (members : List (Member κ)) : Even ρ ids stale (do
        let members ← enlist self.entity members
        modifyScratch fun s => { s with awaited := some members }
        return members : ChainRun κ ω α _) :=
      (even_enlist self.entity members).bind fun _ => (even_modifyScratch _).bind fun _ => even_pure _
    cases set with
    | members list =>
      cases list with
      | none => exact (even_consumed _).bind hrest
      | some list => exact lock_bind (lock_setCommand hid _) fun _ _ _ => hrest list
    | factory f => exact (even_script _).bind hrest

theorem lock_produce (hid : id ∈ ids) (source : Source κ ω) (target : Option (Lazy ω EntityId)) :
    Lock ρ ids stale (produce id source target : ChainRun κ ω α κ) (produce (ρ id) source target) Eq := by
  cases source with
  | single component =>
    cases component with
    | none => exact even_consumed _
    | some component => exact lock_bind (lock_setCommand hid _) fun _ _ _ => even_pure _
  | factory f => exact even_script _

theorem even_pick (entity : EntityId) (selector : Selector) :
    Even ρ ids stale (pick entity selector : ChainRun κ ω α ComponentId) := by
  cases selector with
  | id component => exact even_pure _
  | name name =>
    refine (even_script _).bind fun s => ?_
    cases s.findComponent? entity name with
    | none => exact lock_throw _
    | some component => exact even_pure _

end Parts

inductive Steered (ρ : NodeId → NodeId) (ids : List NodeId) : Flow → Flow → Prop
  | advance : Steered ρ ids .advance .advance
  | suspend : Steered ρ ids .suspend .suspend
  | jump {target : NodeId} (h : target ∈ ids) : Steered ρ ids (.jump target) (.jump (ρ target))
  | jumpPast {target : NodeId} (h : target ∈ ids) :
      Steered ρ ids (.jumpPast target) (.jumpPast (ρ target))

section Commands

variable {ρ : NodeId → NodeId} {ids : List NodeId} {id : NodeId}
  {act : α → Caller → Script κ ω (Except Failure Unit)} {self : Caller}

theorem lock_advance {stale : Bool} :
    Lock ρ ids stale (pure .advance : ChainRun κ ω α Flow) (pure .advance) (Steered ρ ids) :=
  lock_pure .advance

theorem lock_suspend {stale : Bool} :
    Lock ρ ids stale (pure .suspend : ChainRun κ ω α Flow) (pure .suspend) (Steered ρ ids) :=
  lock_pure .suspend

theorem lock_endAwait {stale : Bool} (done : Bool) :
    Lock ρ ids stale (endAwait done : ChainRun κ ω α Flow) (endAwait done) (Steered ρ ids) :=
  lock_ite ((even_modifyScratch _).bind fun _ => lock_advance) lock_suspend

theorem lock_awaitMessage {stale : Bool} (key : String) (filter : Option Condition) :
    Lock ρ ids stale (awaitMessage key filter : ChainRun κ ω α Flow) (awaitMessage key filter)
      (Steered ρ ids) := by
  refine even_scratch.bind fun s => lock_ite ?_ (lock_ite ?_ lock_suspend)
  · exact (even_demand _).bind fun _ => (even_modifyScratch _).bind fun _ => lock_suspend
  · exact (even_script _).bind fun _ => (even_modifyScratch _).bind fun _ => lock_advance

theorem lock_jumpPast {stale : Bool} (target target' : Option NodeId) (opcode : Opcode) :
    Tracks ρ ids target target' → Lock ρ ids stale (jumpPast target opcode : ChainRun κ ω α Flow)
      (jumpPast target' opcode) (Steered ρ ids) := by
  rintro ⟨rfl, hin⟩
  cases target with
  | none => exact lock_unmatched opcode
  | some target => exact lock_pure (.jumpPast (hin target rfl))

theorem lock_closer {stale : Bool} (closer : Opcode)
    {goOn : NodeId → Node κ ω α → ChainRun κ ω α Flow}
    (h : ∀ opener ∈ ids, ∀ n n' : Node κ ω α, n'.command = n.command →
      Lock ρ ids stale (goOn opener n) (goOn (ρ opener) n') (Steered ρ ids)) :
    Lock ρ ids stale
      (do
        let opener ← closeScope closer
        let n ← node opener
        goOn opener n)
      (do
        let opener ← closeScope closer
        let n ← node opener
        goOn opener n) (Steered ρ ids) := by
  refine lock_bind (lock_closeScope closer) ?_
  rintro opener _ ⟨hopener, rfl⟩
  exact lock_bind (lock_node hopener) fun n n' hn => h opener hopener n n' hn.1

theorem lock_closeRepeat {stale : Bool} :
    Lock ρ ids stale (closeRepeat : ChainRun κ ω α Flow) closeRepeat (Steered ρ ids) := by
  refine lock_closer .endRepeat fun opener ho n n' hc => ?_
  rw [hc]
  cases n.command with
  | beginRepeat times infinite =>
    cases infinite with
    | true => exact lock_pure (.jump ho)
    | false =>
      refine (even_script _).bind fun _ => lock_ite ?_ ?_
      · exact lock_bind (lock_setCommand ho _) fun _ _ _ => lock_pure (.jump ho)
      · exact lock_bind (lock_setCommand ho _) fun _ _ _ => lock_advance
  | _ => exact lock_mismatch _ _

theorem lock_closeWhile {stale : Bool} :
    Lock ρ ids stale (closeWhile : ChainRun κ ω α Flow) closeWhile (Steered ρ ids) := by
  refine lock_closer .endWhile fun opener ho n n' hc => ?_
  rw [hc]
  cases n.command with
  | beginWhile holds =>
    exact (even_script _).bind fun _ => lock_ite (lock_pure (.jump ho)) lock_advance
  | _ => exact lock_mismatch _ _

theorem lock_closeInterval {stale : Bool} :
    Lock ρ ids stale (closeInterval : ChainRun κ ω α Flow) closeInterval (Steered ρ ids) := by
  refine lock_closer .endInterval fun opener ho n n' hc => ?_
  rw [hc]
  cases n.command with
  | beginInterval seconds => exact lock_pure (.jump ho)
  | _ => exact lock_mismatch _ _

section Place

variable {stale : Bool} (hid : id ∈ ids)
include hid

theorem lock_openLoop : Lock ρ ids stale (do
      openScope id
      return Flow.advance : ChainRun κ ω α Flow) (do
      openScope (ρ id)
      return Flow.advance) (Steered ρ ids) :=
  lock_bind (lock_openScope hid) fun _ _ _ => lock_advance

theorem lock_openRepeat (times : Lazy ω UInt32) (infinite : Bool) :
    Lock ρ ids stale (openRepeat id times infinite : ChainRun κ ω α Flow)
      (openRepeat (ρ id) times infinite) (Steered ρ ids) :=
  (even_script _).bind fun _ => lock_bind (lock_setCommand hid _) fun _ _ _ => lock_openLoop hid

theorem lock_openInterval (absolute : Seconds) (seconds : Lazy ω Seconds) :
    Lock ρ ids stale (openInterval absolute id seconds : ChainRun κ ω α Flow)
      (openInterval absolute (ρ id) seconds) (Steered ρ ids) := by
  refine (even_script _).bind fun _ => lock_bind (lock_setCommand hid _) fun _ _ _ =>
    (even_waitStart absolute).bind fun _ => lock_ite ?_ lock_suspend
  exact (even_modifyScratch _).bind fun _ => lock_openLoop hid

theorem lock_awaitTime (absolute : Seconds) (seconds : Lazy ω Seconds) :
    Lock ρ ids stale (awaitTime absolute id seconds : ChainRun κ ω α Flow)
      (awaitTime absolute (ρ id) seconds) (Steered ρ ids) := by
  refine (even_script _).bind fun _ => lock_bind (lock_setCommand hid _) fun _ _ _ =>
    (even_waitStart absolute).bind fun _ => lock_ite ?_ lock_suspend
  exact (even_modifyScratch _).bind fun _ => lock_advance

theorem lock_awaitFrames (frames : Lazy ω UInt32) :
    Lock ρ ids stale (awaitFrames id frames : ChainRun κ ω α Flow) (awaitFrames (ρ id) frames)
      (Steered ρ ids) := by
  refine (even_script _).bind fun _ => lock_bind (lock_setCommand hid _) fun _ _ _ =>
    even_scratch.bind fun s => ?_
  cases s.framesWaited with
  | none => exact (even_modifyScratch _).bind fun _ => lock_suspend
  | some waited =>
    refine lock_ite ?_ ?_
    · exact (even_modifyScratch _).bind fun _ => lock_advance
    · exact (even_modifyScratch _).bind fun _ => lock_suspend

theorem lock_awaitMessageWhere (key : String) (condition : Lazy ω Condition) :
    Lock ρ ids stale (awaitMessageWhere id key condition : ChainRun κ ω α Flow)
      (awaitMessageWhere (ρ id) key condition) (Steered ρ ids) :=
  (even_script _).bind fun _ => lock_bind (lock_setCommand hid _) fun _ _ _ => lock_awaitMessage key _

theorem lock_awaitAll (set : MemberSet κ ω) :
    Lock ρ ids stale (awaitAll self id set : ChainRun κ ω α Flow) (awaitAll self (ρ id) set)
      (Steered ρ ids) :=
  lock_bind (lock_awaited self hid set _) fun _ _ h => h ▸ (even_script _).bind fun _ => lock_endAwait _

theorem lock_awaitFirst (set : MemberSet κ ω) :
    Lock ρ ids stale (awaitFirst self id set : ChainRun κ ω α Flow) (awaitFirst self (ρ id) set)
      (Steered ρ ids) := by
  refine lock_bind (lock_awaited self hid set _) fun members _ h => h ▸ (even_script _).bind fun _ =>
    lock_ite ?_ (lock_endAwait _)
  exact (even_finishEach members).bind fun _ => lock_endAwait _

theorem lock_attach (source : Source κ ω) (target : Option (Lazy ω EntityId)) :
    Lock ρ ids stale (attach self id source target : ChainRun κ ω α Flow)
      (attach self (ρ id) source target) (Steered ρ ids) :=
  (even_resolveTarget self target).bind fun _ => lock_bind (lock_setCommand hid _) fun _ _ _ =>
    lock_bind (lock_produce hid source _) fun _ _ h => h ▸ (even_demand _).bind fun _ => lock_advance

theorem lock_detach (selector : Lazy ω Selector) (target : Option (Lazy ω EntityId)) :
    Lock ρ ids stale (detach self id selector target : ChainRun κ ω α Flow)
      (detach self (ρ id) selector target) (Steered ρ ids) :=
  (even_resolveTarget self target).bind fun _ => lock_bind (lock_setCommand hid _) fun _ _ _ =>
    (even_script _).bind fun _ => lock_bind (lock_setCommand hid _) fun _ _ _ =>
      (even_pick _ _).bind fun _ => (even_demand _).bind fun _ => lock_advance

theorem lock_removeWhere (condition : Lazy ω Condition) :
    Lock ρ ids stale (removeWhere id condition : ChainRun κ ω α Flow) (removeWhere (ρ id) condition)
      (Steered ρ ids) :=
  (even_script _).bind fun _ => lock_bind (lock_setCommand hid _) fun _ _ _ =>
    (even_script _).bind fun _ => (even_removeEach _).bind fun _ => lock_advance

theorem lock_removeTarget (target : Option (Lazy ω EntityId)) :
    Lock ρ ids stale (removeTarget self id target : ChainRun κ ω α Flow)
      (removeTarget self (ρ id) target) (Steered ρ ids) :=
  (even_resolveTarget self target).bind fun _ => lock_bind (lock_setCommand hid _) fun _ _ _ =>
    (even_demand _).bind fun _ => lock_advance

theorem lock_send (key : String) (data : Lazy ω Json) :
    Lock ρ ids stale (send id key data : ChainRun κ ω α Flow) (send (ρ id) key data) (Steered ρ ids) :=
  (even_script _).bind fun _ => lock_bind (lock_setCommand hid _) fun _ _ _ =>
    (even_script _).bind fun _ => lock_advance

end Place

theorem lock_dispatch (absolute : Seconds) (hid : id ∈ ids) :
    Lock ρ ids false (dispatch act self absolute id) (dispatch act self absolute (ρ id))
      (Steered ρ ids) := by
  refine lock_bind (lock_node hid) ?_
  rintro n n' ⟨hc, -, hj⟩
  rw [hc]
  cases n.command with
  | beginRepeat times infinite => exact lock_openRepeat hid times infinite
  | endRepeat => exact lock_closeRepeat
  | call action => exact (even_demand _).bind fun _ => lock_advance
  | beginWhile holds => exact lock_openLoop hid
  | endWhile => exact lock_closeWhile
  | beginInterval seconds => exact lock_openInterval hid absolute seconds
  | endInterval => exact lock_closeInterval
  | beginIf holds =>
    exact (even_script _).bind fun _ => lock_ite lock_advance (lock_jumpPast _ _ _ (hj rfl))
  | otherwise => exact lock_jumpPast _ _ _ (hj rfl)
  | endIf => exact lock_advance
  | waitTime seconds => exact lock_awaitTime hid absolute seconds
  | addComponent source target => exact lock_attach hid source target
  | waitForAll set => exact lock_awaitAll hid set
  | waitForFirst set => exact lock_awaitFirst hid set
  | waitUntil holds => exact (even_script _).bind fun _ => lock_ite lock_suspend lock_advance
  | waitFrames frames => exact lock_awaitFrames hid frames
  | waitForMessage key => exact lock_awaitMessage key none
  | waitForMessageWhere key condition => exact lock_awaitMessageWhere hid key condition
  | removeComponent selector target => exact lock_detach hid selector target
  | removeEntitiesWhere condition => exact lock_removeWhere hid condition
  | removeEntity target => exact lock_removeTarget hid target
  | sendMessage key data => exact lock_send hid key data

end Commands

section Steps

variable {ρ : NodeId → NodeId} {ids : List NodeId} {stale : Bool} {id : NodeId}
  {act : α → Caller → Script κ ω (Except Failure Unit)} {self : Caller}

theorem lock_leave (hid : id ∈ ids) :
    Lock ρ ids stale (leave id : ChainRun κ ω α Unit) (leave (ρ id)) Eq := by
  refine lock_modify fun _ _ h => h.modify hid (fun n => ?_) (fun n => ?_) fun n n' hc => ?_
  · split <;> rfl
  · split <;> rfl
  · simp only [hc]
    split
    · exact hc
    · rfl

theorem lock_moveAfter (hid : id ∈ ids) :
    Lock ρ ids stale (moveAfter id : ChainRun κ ω α Unit) (moveAfter (ρ id)) Eq :=
  lock_bind (lock_node hid) fun _ _ hn => lock_modify fun _ _ h => h.move hn.2.1

theorem even_release : Even ρ ids stale (release : ChainRun κ ω α Unit) := by
  have hdrop : Even ρ ids stale (modify Chain.released : ChainRun κ ω α Unit) :=
    lock_modify fun _ _ h => h.release
  refine even_scratch.bind fun s => ?_
  cases s.messageKey with
  | some key => exact (even_script _).bind fun _ => hdrop
  | none => exact hdrop

theorem even_complete : Even ρ ids stale (complete : ChainRun κ ω α Unit) :=
  even_release.bind fun _ => Even.bind (lock_modify fun _ _ h => h.finish) fun _ => even_script _

theorem even_shutDown : Even ρ ids stale (shutDown : ChainRun κ ω α Unit) :=
  even_release.bind fun _ => lock_modify fun _ _ h => h.finish

theorem even_round (absolute : Seconds) : Even ρ ids false (round act self absolute) := by
  refine (even_isDone _).bind fun done => lock_ite (even_pure _) (lock_chain fun c c' h => ?_)
  rw [h.interrupts]
  refine (even_script _).bind fun holds => lock_ite (even_complete.bind fun _ => even_pure _)
    (lock_chain fun c c' h => ?_)
  obtain ⟨hcur, hin⟩ := h.current
  cases hc : c.current with
  | none =>
    have hempty : c'.scopes.isEmpty = c.scopes.isEmpty := by
      simp [Scopes.isEmpty, h.scopes]
    have hdepth : c'.scopes.depth = c.scopes.depth := by
      simp [Scopes.depth, h.scopes]
    simp only [hc, hcur, Option.map_none, hempty, hdepth, h.name]
    refine lock_ite (Even.bind (lock_throw _) fun _ => ?_) ?_ <;>
    exact even_complete.bind fun _ => even_pure _
  | some id =>
    have hid : id ∈ ids := hin id hc
    simp only [hc, hcur, Option.map_some]
    refine lock_bind (lock_dispatch absolute hid) fun flow flow' hflow => ?_
    cases hflow with
    | advance =>
      exact lock_bind (lock_leave hid) fun _ _ _ => lock_bind (lock_moveAfter hid) fun _ _ _ =>
        even_pure _
    | suspend => exact even_pure _
    | jump ht =>
      exact lock_bind (lock_modify fun _ _ h => h.move ⟨rfl, by rintro _ ⟨⟩; exact ht⟩)
        fun _ _ _ => even_pure _
    | jumpPast ht =>
      exact lock_bind (lock_leave hid) fun _ _ _ => lock_bind (lock_moveAfter ht) fun _ _ _ =>
        even_pure _

theorem even_rounds (absolute : Seconds) (fuel : Nat) :
    Even ρ ids false (rounds act self absolute fuel) := by
  induction fuel with
  | zero => exact even_script _
  | succ fuel ih => exact (even_round absolute).bind fun _ => lock_ite ih (even_pure _)

theorem even_notice (m : Message) : Even ρ ids stale (notice m : ChainRun κ ω α Unit) := by
  refine lock_chain fun c c' h => ?_
  obtain ⟨hcur, hin⟩ := h.current
  cases hc : c.current with
  | none =>
    simp only [hc, hcur, Option.map_none]
    exact even_pure _
  | some id =>
    simp only [hc, hcur, Option.map_some, h.scratch]
    refine lock_bind (lock_node (hin id hc)) fun n n' hn => ?_
    rw [hn.1]
    exact lock_ite (even_modifyScratch _) (even_pure _)

end Steps

end ChainRun

namespace Chain

theorem run_start (c : Chain κ ω α) : (start : ChainRun κ ω α Unit).run c =
    match c.opening with
    | .ok d => .done (.ok (), d)
    | .error f => .done (.error f, c) := by
  rw [opening]
  cases hf : c.finished with
  | true => simp [start, run_bind, Script.bind, hf]
  | false =>
    cases hs : c.jumpsStale with
    | false =>
      cases hst : c.started <;> simp [start, run_bind, Script.bind, hf, hs, hst, Except.map]
    | true =>
      cases hr : c.resolveJumps with
      | error f => simp [start, run_bind, Script.bind, hf, hs, hr, Except.map]
      | ok r => cases hst : r.started <;> simp [start, run_bind, Script.bind, hf, hs, hr, hst, Except.map]

section Start

variable [Named κ] {self : Caller} {c d : Chain κ ω α} {σ σ' : Setting κ ω}

theorem opening_of_start
    (hr : ((start : ChainRun κ ω α Unit).run c).run self σ = (.ok (.ok (), d), σ')) :
    c.opening = .ok d ∧ σ' = σ := by
  rw [run_start] at hr
  cases ho : c.opening with
  | error f =>
    rw [ho] at hr
    cases hr
  | ok e =>
    rw [ho] at hr
    cases hr
    exact ⟨rfl, rfl⟩

theorem eq_of_refused {f : Failure}
    (hr : ((start : ChainRun κ ω α Unit).run c).run self σ = (.ok (.error f, d), σ')) :
    d = c ∧ σ' = σ := by
  rw [run_start] at hr
  cases ho : c.opening with
  | error g =>
    rw [ho] at hr
    cases hr
    exact ⟨rfl, rfl⟩
  | ok e =>
    rw [ho] at hr
    cases hr

end Start

end Chain

section Callbacks

variable {ρ : NodeId → NodeId} {ids : List NodeId} {stale : Bool} {c c' : Chain κ ω α}

def TwinEnd (ρ : NodeId → NodeId) (ids : List NodeId) (e e' : Except Failure Unit × Chain κ ω α) :
    Prop :=
  e'.1 = e.1 ∧ ∃ stale, Twin ρ ids stale e.2 e'.2

theorem matches_of_even {t : ChainRun κ ω α Unit} (ht : Even ρ ids stale t)
    (h : Twin ρ ids stale c c') : Script.Matches (TwinEnd ρ ids) (t.run c) (t.run c') := by
  refine (ht c c' h).imp ?_
  rintro ⟨_, d⟩ ⟨_, d'⟩ ⟨hagree, htwin⟩
  cases hagree with
  | ok ha => exact ⟨ha ▸ rfl, stale, htwin⟩
  | error f => exact ⟨rfl, stale, htwin⟩

/-- Whatever is called, twins do the same and stay twins. -/
theorem matches_behaviour (act : α → Caller → Script κ ω (Except Failure Unit))
    (h : Twin ρ ids stale c c') (fuel : Nat) (callback : Callback)
    (self : Caller) : Script.Matches (TwinEnd ρ ids) (Chain.behaviour act fuel callback self c)
      (Chain.behaviour act fuel callback self c') := by
  cases callback with
  | init => exact .done ⟨rfl, stale, h.attach⟩
  | attach | remove => exact .done ⟨rfl, stale, h⟩
  | message m => exact matches_of_even (even_notice m) h
  | finish | detach => exact matches_of_even even_shutDown h
  | update delta absolute =>
    rw [Chain.behaviour, Chain.behaviour, step, run_bind, run_bind, run_start, run_start]
    cases ho : c.opening with
    | error f =>
      rw [h.opening_error ho]
      exact .done ⟨rfl, stale, h⟩
    | ok d =>
      obtain ⟨d', ho', htwin⟩ := h.opening ho
      rw [ho']
      exact matches_of_even (even_rounds absolute fuel) htwin

end Callbacks

end FrameChain
