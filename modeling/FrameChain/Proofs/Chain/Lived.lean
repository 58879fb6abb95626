import FrameChain.Proofs.Chain.Arena
import FrameChain.Proofs.Chain.Branches
import FrameChain.Proofs.Chain.Moments
import FrameChain.Proofs.Structured.Program

set_option autoImplicit false

namespace FrameChain

open Chain ChainRun

variable {κ ω α τ υ : Type}

namespace Chain

def core (c : Chain κ ω α) : Chain κ ω α :=
  { c with
    nodes := #[]
    current := none
    started := false
    attached := false
    finished := false
    scopes := {}
    scratch := {} }

/-- Chains that differ at most in what callbacks change when they compute no jump targets. A chain that
has started stays started, and one that was attached stays so. -/
structure Enduring (base c : Chain κ ω α) : Prop where
  layout : c.layout = base.layout
  jumps : c.jumps = base.jumps
  core : c.core = base.core
  started : base.started = true → c.started = true
  attached : base.attached = true → c.attached = true

namespace Enduring

variable {base c c' : Chain κ ω α} {ids : List NodeId}

theorem refl (c : Chain κ ω α) : Enduring c c := ⟨rfl, rfl, rfl, fun hs => hs, fun ha => ha⟩

theorem trans (h : Enduring base c) (h' : Enduring c c') : Enduring base c' :=
  ⟨h'.layout.trans h.layout, h'.jumps.trans h.jumps, h'.core.trans h.core,
    fun hs => h'.started (h.started hs), fun ha => h'.attached (h.attached ha)⟩

theorem of_alike (h : Alike base c) : Enduring base c :=
  ⟨h.layout, h.jumps, h.read Chain.core, h.started.trans, (h.read Chain.attached).trans⟩

theorem read (h : Enduring base c) (f : Chain κ ω α → τ) : f c.core = f base.core := congrArg f h.core

theorem name (h : Enduring base c) : c.name = base.name := h.read Chain.name

theorem head (h : Enduring base c) : c.head = base.head := h.read Chain.head

theorem tail (h : Enduring base c) : c.tail = base.tail := h.read Chain.tail

theorem jumpsStale (h : Enduring base c) : c.jumpsStale = base.jumpsStale := h.read Chain.jumpsStale

theorem listing (h : Enduring base c) : c.listing = base.listing := listing_congr h.layout h.head

end Enduring

end Chain

namespace Chain

variable {c r : Chain κ ω α} {ids : List NodeId}

theorem opcodes_eq (c : Chain κ ω α) : c.opcodes = c.listing.map Prod.snd := by
  rw [opcodes, listing, List.map_filterMap]
  refine List.filterMap_congr fun id _ => ?_
  cases c.opcode? id <;> rfl

theorem map_snd_listing (c : Chain κ ω α) :
    c.listing.map Prod.snd = c.commands.map Command.opcode := by
  rw [← opcodes_eq, opcodes, commands, List.map_filterMap]
  refine List.filterMap_congr fun id _ => ?_
  rw [opcode?, Option.map_map]
  rfl

theorem nested_listing {depth : Nat} (h : Nested Command.opcode depth c.commands) :
    Nested Prod.snd depth c.listing := h.transport c.map_snd_listing

theorem Lists.of_layout (h : c.Lists ids) {c' : Chain κ ω α} (hl : c'.layout = c.layout)
    (hh : c'.head = c.head) (ht : c'.tail = c.tail) : c'.Lists ids := by
  refine ⟨h.distinct, hh.trans h.head, ht.trans h.tail, h.linked.congr fun id _ => ?_⟩
  have hplace := congrArg (fun l : Array (Place α) => l[id]?.map fun p => (p.previous, p.next)) hl
  simp only [layout, Array.getElem?_map, Option.map_map] at hplace
  exact hplace

theorem Lists.map_listing (h : c.Lists ids) : c.listing.map Prod.fst = ids := by
  have hhere : ∀ id ∈ ids, ((c.opcode? id).map fun op => (id, op)).map Prod.fst = some id := by
    intro id hid
    rw [opcode?, Array.getElem?_eq_getElem (h.linked.inside id hid)]
    rfl
  rw [listing, h.walk, List.map_filterMap, List.filterMap_congr hhere, List.filterMap_some]

theorem resolveJumps_ok_iff : (∃ r, c.resolveJumps = .ok r) ↔ Paired c.opcodes := by
  rw [opcodes_eq, ← links_ok_iff, resolveJumps]
  cases links [] c.listing <;> simp

theorem resolveJumps_error_iff {f : Failure} : c.resolveJumps = .error f ↔
    ∃ e, Unpaired c.opcodes e ∧ f = .unmatchedCommand c.name e.opcode e.expected := by
  have hlinks : c.resolveJumps = .error f ↔
      ∃ e, links [] c.listing = .error e ∧ f = .unmatchedCommand c.name e.opcode e.expected := by
    rw [resolveJumps]
    cases links [] c.listing <;> simp [eq_comm]
  rw [hlinks, opcodes_eq]
  simp only [links_error_iff]

theorem jump?_setJump_self (c : Chain κ ω α) {id : NodeId} (h : id < c.nodes.size)
    (t : Option NodeId) : (c.setJump id t).jump? id = t := by
  rw [jump?, setJump, modifyNode, Array.getElem?_modify, if_pos rfl, Array.getElem?_eq_getElem h]
  rfl

theorem jump?_setJump_ne (c : Chain κ ω α) {id i : NodeId} (h : i ≠ id) (t : Option NodeId) :
    (c.setJump id t).jump? i = c.jump? i := by
  rw [jump?, setJump, modifyNode, getElem?_modify_ne h, jump?]

theorem size_setJump (c : Chain κ ω α) (id : NodeId) (t : Option NodeId) :
    (c.setJump id t).nodes.size = c.nodes.size := Array.size_modify ..

theorem jump?_setJumps_of_ne {found : List (NodeId × NodeId)} {i : NodeId}
    (h : ∀ link ∈ found, i ≠ link.1) : (c.setJumps found).jump? i = c.jump? i := by
  induction found generalizing c with
  | nil => rfl
  | cons link rest ih =>
    obtain ⟨hne, hrest⟩ := List.forall_mem_cons.mp h
    exact (ih hrest).trans (jump?_setJump_ne c hne _)

theorem jump?_setJumps {found : List (NodeId × NodeId)} (hd : (found.map Prod.fst).Nodup)
    {i t : NodeId} (hi : i < c.nodes.size) (h : (i, t) ∈ found) :
    (c.setJumps found).jump? i = some t := by
  induction found generalizing c with
  | nil => cases h
  | cons link rest ih =>
    obtain ⟨hfresh, hd⟩ := List.nodup_cons.mp hd
    rcases List.mem_cons.mp h with rfl | h
    · have hlast : ∀ link ∈ rest, i ≠ link.1 := fun link hlink he =>
        hfresh (List.mem_map.mpr ⟨link, hlink, he.symm⟩)
      exact (jump?_setJumps_of_ne (c := c.setJump i (some t)) hlast).trans (jump?_setJump_self c hi _)
    · exact ih hd (Nat.lt_of_lt_of_eq hi (size_setJump c _ _).symm) h

structure Scanned (c : Chain κ ω α) : Prop where
  paired : Paired c.opcodes
  jump : ∀ before id op rest, c.listing = before ++ (id, op) :: rest →
    c.jump? id = target op rest ∧ (op = .beginIf ∨ op = .otherwise → (target op rest).isSome)

def cleared (c : Chain κ ω α) : Chain κ ω α := c.walk.foldl (fun c id => c.setJump id none) c

theorem rejumped_cleared (c : Chain κ ω α) : Rejumped c c.cleared :=
  rejumped_foldl (fun id => id) (fun _ => none) c.walk c

theorem jump?_cleared {id : NodeId} (h : id ∈ c.walk) : c.cleared.jump? id = none := by
  refine Option.eq_none_iff_forall_ne_some.mpr fun t ht => ?_
  rcases jump?_foldl (fun id => id) (fun _ => none) c.walk c ht with ⟨_, _, _, hset⟩ | ⟨hw, -⟩
  · cases hset
  · exact hw id h rfl

theorem resolve_ok (hr : c.resolveJumps = .ok r) : ∃ found, links [] c.listing = .ok found ∧
    r = { c.cleared.setJumps found with jumpsStale := false } := by
  rw [resolveJumps] at hr
  cases hl : links [] c.listing with
  | error e =>
    rw [hl] at hr
    cases hr
  | ok found =>
    rw [hl] at hr
    cases hr
    exact ⟨found, rfl, rfl⟩

theorem rejumped_resolve (hr : c.resolveJumps = .ok r) :
    Rejumped { c with jumpsStale := false } r := by
  obtain ⟨found, -, rfl⟩ := resolve_ok hr
  have hboth := c.rejumped_cleared.trans
    (rejumped_foldl Prod.fst (fun link => some link.2) found c.cleared)
  exact ⟨hboth.layout, congrArg (fun c : Chain κ ω α => { c with jumpsStale := false }) hboth.others⟩

theorem Rejumped.read {c' : Chain κ ω α} (h : Rejumped c c') (f : Chain κ ω α → τ) :
    f { c' with nodes := #[] } = f { c with nodes := #[] } := congrArg f h.others

theorem listing_resolve (hr : c.resolveJumps = .ok r) : r.listing = c.listing :=
  listing_congr (rejumped_resolve hr).layout ((rejumped_resolve hr).read Chain.head)

theorem Lists.scanned (h : c.Lists ids) (hr : c.resolveJumps = .ok r) : r.Scanned := by
  have hlisting := listing_resolve hr
  obtain ⟨found, hl, rfl⟩ := resolve_ok hr
  have hperm : found.Perm (targets c.listing) := links_perm hl
  have hd : (c.listing.map Prod.fst).Nodup := h.map_listing ▸ h.distinct
  constructor
  · rw [opcodes_eq, hlisting]
    exact links_ok_iff.mp ⟨found, hl⟩
  intro before id op rest hlist
  rw [hlisting] at hlist
  have hmem : (id, op) ∈ c.listing := by simp [hlist]
  refine ⟨?_, fun hop => ?_⟩
  · change (c.cleared.setJumps found).jump? id = _
    cases ht : target op rest with
    | some t =>
      have hsize : c.cleared.nodes.size = c.nodes.size := by
        have := congrArg Array.size c.rejumped_cleared.layout
        simpa only [layout, Array.size_map] using this
      refine jump?_setJumps ((hperm.map Prod.fst).nodup_iff.mpr ((sublist_targets _).nodup hd)) ?_
        (hperm.mem_iff.mpr (mem_targets.mpr ⟨before, op, rest, hlist, ht⟩))
      rw [hsize]
      exact h.linked.inside id (h.walk ▸ mem_walk_of_mem_listing hmem)
    | none =>
      refine (jump?_setJumps_of_ne ?_).trans (jump?_cleared (mem_walk_of_mem_listing hmem))
      rintro ⟨i, t⟩ hlink rfl
      obtain ⟨before', op', rest', hlist', ht'⟩ := mem_targets.mp (hperm.mem_iff.mp hlink)
      obtain rfl := cut_unique hd hlist hlist' rfl
      obtain ⟨he, rfl⟩ := List.cons.inj (List.append_cancel_left (hlist.symm.trans hlist'))
      cases he
      cases ht.symm.trans ht'
  · obtain ⟨t, ht⟩ := target_of_links (hlist ▸ hl) hop
    rw [ht]
    rfl

theorem Enduring.scanned {base : Chain κ ω α} (h : Enduring base c) (hs : base.Scanned) :
    c.Scanned := by
  constructor
  · rw [opcodes_eq, h.listing, ← opcodes_eq]
    exact hs.paired
  · intro before id op rest hl
    rw [h.listing] at hl
    rw [jump?_eq_jumps, h.jumps, ← jump?_eq_jumps]
    exact hs.jump before id op rest hl

/-- The jump targets of the second chain are those of the first, computed afresh if they were stale. -/
inductive Prepared (base : Chain κ ω α) : Chain κ ω α → Prop
  | same {c : Chain κ ω α} (h : Enduring base c) : Prepared base c
  | resolved {r c : Chain κ ω α} (hr : base.resolveJumps = .ok r) (h : Enduring r c) : Prepared base c

theorem Prepared.trans {base c c' : Chain κ ω α} (h : Prepared base c) (h' : Enduring c c') :
    Prepared base c' := by
  cases h with
  | same h => exact .same (h.trans h')
  | resolved hr h => exact .resolved hr (h.trans h')

theorem Prepared.lists {base : Chain κ ω α} (h : Prepared base c) (hl : base.Lists ids) :
    c.Lists ids := by
  cases h with
  | same h => exact hl.of_layout h.layout h.head h.tail
  | resolved hr h =>
    have hsame := rejumped_resolve hr
    have hlist : Lists _ ids :=
      hl.of_layout hsame.layout (hsame.read Chain.head) (hsame.read Chain.tail)
    exact hlist.of_layout h.layout h.head h.tail

theorem Prepared.started {base : Chain κ ω α} (h : Prepared base c) (hs : base.started = true) :
    c.started = true := by
  cases h with
  | same h => exact h.started hs
  | resolved hr h => exact h.started (((rejumped_resolve hr).read Chain.started).trans hs)

theorem Prepared.attached {base : Chain κ ω α} (h : Prepared base c) (ha : base.attached = true) :
    c.attached = true := by
  cases h with
  | same h => exact h.attached ha
  | resolved hr h => exact h.attached (((rejumped_resolve hr).read Chain.attached).trans ha)

/-- Jump targets that are not stale stay right, and those that are computed are right. -/
theorem Prepared.scanned {base : Chain κ ω α} (h : Prepared base c) (hl : base.Lists ids)
    (hs : base.jumpsStale = false → base.Scanned) (hc : c.jumpsStale = false) : c.Scanned := by
  cases h with
  | same h => exact h.scanned (hs (h.jumpsStale.symm.trans hc))
  | resolved hr h => exact h.scanned (hl.scanned hr)

end Chain

namespace ChainRun

variable [Named κ] {act : α → Caller → Script κ ω (Except Failure Unit)} {self : Caller}
  {base : Chain κ ω α}

def Keeps (self : Caller) (base : Chain κ ω α) (t : ChainRun κ ω α τ) : Prop :=
  Triple self (Enduring base) t (fun _ => Enduring base) fun _ => Enduring base

theorem Keeps.bind {t : ChainRun κ ω α τ} {f : τ → ChainRun κ ω α υ} (ht : Keeps self base t)
    (hf : ∀ a, Keeps self base (f a)) : Keeps self base (t >>= f) := triple_bind ht hf

theorem keeps_pure (a : τ) : Keeps self base (pure a) := triple_pure fun _ hc => hc

theorem keeps_throw (f : Failure) : Keeps self base (throw f : ChainRun κ ω α τ) :=
  triple_throw fun _ hc => hc

theorem keeps_script (p : Script κ ω τ) : Keeps self base (script p) := triple_script fun _ _ hc => hc

theorem keeps_ite {p : Prop} [Decidable p] {t u : ChainRun κ ω α τ} (ht : Keeps self base t)
    (hu : Keeps self base u) : Keeps self base (if p then t else u) :=
  triple_ite (fun _ => ht) fun _ => hu

theorem keeps_modify {f : Chain κ ω α → Chain κ ω α} (h : ∀ c, Enduring c (f c)) :
    Keeps self base (modify f) := triple_modify fun c hc => hc.trans (h c)

theorem keeps_release : Keeps self base release := by
  refine triple_release.post ?_
  rintro _ _ ⟨c, hc, rfl⟩
  exact hc.trans ⟨rfl, rfl, rfl, fun hs => hs, fun ha => ha⟩

theorem keeps_complete : Keeps self base complete :=
  keeps_release.bind fun _ =>
    Keeps.bind (keeps_modify fun _ => ⟨rfl, rfl, rfl, fun hs => hs, fun ha => ha⟩) fun _ => keeps_script _

theorem keeps_shutDown : Keeps self base shutDown :=
  keeps_release.bind fun _ => keeps_modify fun _ => ⟨rfl, rfl, rfl, fun hs => hs, fun ha => ha⟩

theorem keeps_chain {f : Chain κ ω α → ChainRun κ ω α τ}
    (h : ∀ c, Triple self (· = c) (f c) (fun _ => Enduring c) fun _ => Enduring c) :
    Keeps self base (chain >>= f) :=
  triple_chain fun c hc => (h c).imp (fun _ h => h) (fun _ _ h => hc.trans h) fun _ _ h => hc.trans h

theorem Keeps.here {c : Chain κ ω α} {t : ChainRun κ ω α τ} (h : Keeps self c t) :
    Triple self (· = c) t (fun _ => Enduring c) fun _ => Enduring c :=
  h.weaken fun _ hc => hc ▸ .refl c

theorem keeps_node (id : NodeId) : Keeps self base (node id) := by
  refine keeps_chain fun c => ?_
  cases c.nodes[id]? with
  | none => exact triple_crash
  | some n => exact (keeps_pure n).here

theorem keeps_dispatch (absolute : Seconds) (id : NodeId) :
    Keeps self base (dispatch act self absolute id) := by
  refine triple_of fun c hc => ?_
  cases hn : c.nodes[id]? with
  | none => exact triple_node fun n hn' => nomatch hn.symm.trans hn'
  | some here =>
    exact (dispatch_spec absolute hn).imp (fun _ h => h)
      (fun _ _ h => hc.trans (.of_alike h.1)) fun _ _ h => hc.trans (.of_alike h.1)

theorem keeps_leave (id : NodeId) : Keeps self base (leave id) := by
  refine triple_of fun c hc => triple_leave.ofCalm.post fun _ _ h => hc.trans (.of_alike h.1)

theorem keeps_moveAfter (id : NodeId) : Keeps self base (moveAfter id) :=
  (keeps_node id).bind fun _ => keeps_modify fun _ => ⟨rfl, rfl, rfl, fun hs => hs, fun ha => ha⟩

theorem keeps_isDone (id : ComponentId) : Keeps self base (isDone id) :=
  (keeps_script _).bind fun _ => keeps_pure _

theorem keeps_round (absolute : Seconds) : Keeps self base (round act self absolute) := by
  refine (keeps_isDone _).bind fun done => keeps_ite (keeps_pure _) (keeps_chain fun c => Keeps.here ?_)
  refine (keeps_script _).bind fun holds => keeps_ite
    (keeps_complete.bind fun _ => keeps_pure _) (keeps_chain fun c => Keeps.here ?_)
  cases c.current with
  | none =>
    refine keeps_ite ((keeps_throw _).bind fun _ => ?_) ?_ <;>
    exact keeps_complete.bind fun _ => keeps_pure _
  | some id =>
    refine (keeps_dispatch absolute id).bind fun flow => ?_
    cases flow with
    | advance => exact (keeps_leave id).bind fun _ => (keeps_moveAfter id).bind fun _ => keeps_pure _
    | jump target =>
      exact Keeps.bind (keeps_modify fun _ => ⟨rfl, rfl, rfl, fun hs => hs, fun ha => ha⟩)
        fun _ => keeps_pure _
    | jumpPast target =>
      exact (keeps_leave id).bind fun _ => (keeps_moveAfter target).bind fun _ => keeps_pure _
    | suspend => exact keeps_pure _

theorem keeps_rounds (absolute : Seconds) (fuel : Nat) :
    Keeps self base (rounds act self absolute fuel) := by
  induction fuel with
  | zero => exact triple_crash
  | succ fuel ih => exact (keeps_round absolute).bind fun _ => keeps_ite ih (keeps_pure _)

theorem keeps_notice (m : Message) : Keeps self base (notice m) := by
  refine keeps_chain fun c => Keeps.here ?_
  cases c.current with
  | none => exact keeps_pure _
  | some id =>
    exact (keeps_node id).bind fun _ =>
      keeps_ite (keeps_modify fun _ => ⟨rfl, rfl, rfl, fun hs => hs, fun ha => ha⟩) (keeps_pure _)

theorem triple_start_prepared : Triple self (· = base) (start : ChainRun κ ω α Unit)
    (fun _ => Prepared base) fun _ => Prepared base := by
  have hgo (b : Chain κ ω α) (hb : ∀ c, Enduring b c → Prepared base c) :
      Triple self (· = b) (do
        let c ← chain
        if !c.started then set { c with started := true, current := c.head })
        (fun _ => Prepared base) fun _ => Prepared base := by
    refine triple_chain fun c hc => triple_ite (fun _ => triple_set fun _ _ => ?_) fun _ =>
      triple_pure fun c' hc' => ?_
    · exact hb _ (hc ▸ ⟨rfl, rfl, rfl, fun _ => rfl, fun ha => ha⟩)
    · exact hb _ (hc'.trans hc ▸ .refl b)
  refine triple_chain ?_
  rintro base rfl
  refine triple_ite (fun _ => ?_) fun _ => triple_ite (fun _ => ?_) fun _ => hgo base fun _ h => .same h
  · exact triple_bind (Q := fun _ _ => False) (triple_throw fun c hc => .same (hc ▸ .refl _))
      fun _ _ _ _ h => h.elim
  · cases hr : base.resolveJumps with
    | ok r =>
      exact triple_bind (Q := fun _ => (· = r)) (triple_set fun _ _ => rfl) fun _ =>
        hgo r fun _ h => .resolved hr h
    | error f =>
      exact triple_bind (Q := fun _ _ => False) (triple_throw fun c hc => .same (hc ▸ .refl _))
        fun _ _ _ _ h => h.elim

theorem triple_step_prepared (absolute : Seconds) (fuel : Nat) :
    Triple self (· = base) (step act fuel self absolute) (fun _ => Prepared base)
      fun _ => Prepared base := by
  refine triple_bind triple_start_prepared fun _ => triple_of fun c hc => ?_
  exact (keeps_rounds absolute fuel).here.imp (fun _ h => h) (fun _ _ h => hc.trans h) fun _ _ h =>
    hc.trans h

theorem prepared_behaviour {c c' : Chain κ ω α} {fuel : Nat} {callback : Callback}
    {answer : Except Failure Unit}
    (hr : (Chain.behaviour act fuel callback self c).Answers self (answer, c')) :
    Prepared c c' := by
  have hends {t : ChainRun κ ω α Unit} (ht : Keeps self c t)
      (hr : (t.run c).Answers self (answer, c')) : Prepared c c' := by
    have h := ht.here c answer c' rfl hr
    cases answer <;> exact .same h
  cases callback with
  | init =>
    obtain ⟨σ, σ', hr⟩ := hr
    cases hr
    exact .same ⟨rfl, rfl, rfl, fun hs => hs, fun _ => rfl⟩
  | attach | remove =>
    obtain ⟨σ, σ', hr⟩ := hr
    cases hr
    exact .same (.refl c)
  | update delta absolute =>
    have h := triple_step_prepared absolute fuel c answer c' rfl hr
    cases answer <;> exact h
  | message m => exact hends (keeps_notice m) hr
  | finish | detach => exact hends keeps_shutDown hr

end ChainRun

section Lives

variable [Named κ]

/-- The chains that a host can have: built, joined, cut and called back, in any order. -/
inductive Lived (act : α → Caller → Script κ ω (Except Failure Unit)) : Chain κ ω α → Prop
  | new (name : String) : Lived act { name }
  | append {c : Chain κ ω α} (h : Lived act c) (command : Command κ ω α) : Lived act (c.append command)
  | interruptIf {c : Chain κ ω α} (h : Lived act c) (holds : HostFun ω Bool) :
      Lived act (c.interruptIf holds)
  | merged {c d j e : Chain κ ω α} (hc : Lived act c) (hd : Lived act d)
      (hm : c.mergeWith d = .ok (j, e)) : Lived act j
  | mergedAtBeginning {c d j e : Chain κ ω α} (hc : Lived act c) (hd : Lived act d)
      (hm : c.mergeAtBeginning d = .ok (j, e)) : Lived act j
  | donor {c d j e : Chain κ ω α} (hc : Lived act c) (hd : Lived act d)
      (hm : c.mergeWith d = .ok (j, e) ∨ c.mergeAtBeginning d = .ok (j, e)) : Lived act e
  | removedLast {c j : Chain κ ω α} (h : Lived act c) (hr : c.removeLast = .ok j) : Lived act j
  | called {c c' : Chain κ ω α} (fuel : Nat) (callback : Callback) (self : Caller)
      {answer : Except Failure Unit} (h : Lived act c)
      (hr : (Chain.behaviour act fuel callback self c).Answers self (answer, c')) : Lived act c'

variable {act : α → Caller → Script κ ω (Except Failure Unit)} {c c' : Chain κ ω α}

theorem Lived.foldl_append (h : Lived act c) (commands : List (Command κ ω α)) :
    Lived act (commands.foldl Chain.append c) := by
  induction commands generalizing c with
  | nil => exact h
  | cons command rest ih => exact ih (h.append command)

theorem Rests.lived (h : Rests act c c') (hc : Lived act c) : Lived act c' := by
  induction h with
  | built => exact hc
  | called fuel callback self _ hr ih => exact .called fuel callback self ih hr

theorem Lived.lists (h : Lived act c) : ∃ ids, c.Lists ids := by
  induction h with
  | new name => exact ⟨[], .nil, rfl, rfl, trivial⟩
  | append _ command ih =>
    obtain ⟨ids, hl⟩ := ih
    exact ⟨_, hl.append command⟩
  | interruptIf _ holds ih =>
    obtain ⟨ids, hl⟩ := ih
    exact ⟨ids, hl.of_layout rfl rfl rfl⟩
  | merged _ _ hm ih _ =>
    obtain ⟨ids, hl⟩ := ih
    exact (hl.mergeWith hm).lists
  | mergedAtBeginning _ _ hm ih _ =>
    obtain ⟨ids, hl⟩ := ih
    exact (hl.mergeAtBeginning hm).lists
  | donor _ _ hm ih _ =>
    obtain ⟨ids, hl⟩ := ih
    have hdonor := hm.elim (fun hm => (hl.mergeWith hm).donor) fun hm => (hl.mergeAtBeginning hm).donor
    exact hdonor ▸ ⟨[], lists_emptied _⟩
  | removedLast _ hr ih =>
    obtain ⟨ids, hl⟩ := ih
    exact ⟨_, (hl.removeLast hr).2.2.1⟩
  | called fuel callback self _ hr ih =>
    obtain ⟨ids, hl⟩ := ih
    exact ⟨ids, (prepared_behaviour hr).lists hl⟩

/-- What other lists leave alone, only the interrupts and the callbacks of a chain can change. -/
theorem Lived.along {P : Chain κ ω α → Prop} (h : Lived act c) (hnew : ∀ name, P { name })
    (hlist : ∀ {c j}, P c → Relisted c j → P j)
    (hinterrupt : ∀ {c} (holds : HostFun ω Bool), P c → P (c.interruptIf holds))
    (hcall : ∀ {c c'} (fuel : Nat) (callback : Callback) (self : Caller) (answer : Except Failure Unit),
      Lived act c → P c → (Chain.behaviour act fuel callback self c).Answers self (answer, c') → P c') :
    P c := by
  induction h with
  | new name => exact hnew name
  | append _ command ih => exact hlist ih (relisted_append _ command)
  | interruptIf _ holds ih => exact hinterrupt holds ih
  | merged _ _ hm ih _ => exact hlist ih (relisted_mergeWith hm).1.2
  | mergedAtBeginning _ _ hm ih _ => exact hlist ih (relisted_mergeAtBeginning hm).1.2
  | donor _ _ hm _ ih =>
    exact hlist ih (hm.elim (fun hm => (relisted_mergeWith hm).2.2)
      fun hm => (relisted_mergeAtBeginning hm).2.2)
  | removedLast _ hr ih => exact hlist ih (relisted_removeLast hr).2
  | called fuel callback self h hr ih => exact hcall fuel callback self _ h ih hr

theorem Lived.scanned (h : Lived act c) (hs : c.jumpsStale = false) : c.Scanned := by
  refine h.along (P := fun c => c.jumpsStale = false → c.Scanned) nofun ?_ ?_ ?_ hs
  · rintro c j hscanned (rfl | ⟨nodes, head, tail, rfl⟩) hs
    · exact hscanned hs
    · cases hs
  · exact fun holds hscanned hs => ⟨(hscanned hs).paired, (hscanned hs).jump⟩
  · intro c c' fuel callback self answer hc hscanned hr hs
    obtain ⟨ids, hl⟩ := hc.lists
    exact (prepared_behaviour hr).scanned hl hscanned hs

end Lives

end FrameChain
