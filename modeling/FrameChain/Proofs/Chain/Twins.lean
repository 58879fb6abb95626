import FrameChain.Proofs.Chain.Lived
import Mathlib.Data.List.Nodup

set_option autoImplicit false

namespace FrameChain

open Chain ChainRun

variable {κ ω α τ : Type}

namespace Chain

def shell (c : Chain κ ω α) : Chain κ ω α :=
  { c with
    nodes := #[]
    head := none
    tail := none
    current := none
    scopes := {} }

def Tracks (ρ : NodeId → NodeId) (ids : List NodeId) (place place' : Option NodeId) : Prop :=
  place' = place.map ρ ∧ ∀ id ∈ place, id ∈ ids

/-- The second chain is the first one with the places of its list renamed. The jump targets correspond if
they are not stale. -/
structure Twin (ρ : NodeId → NodeId) (ids : List NodeId) (stale : Bool) (c c' : Chain κ ω α) :
    Prop where
  lists : c.Lists ids
  lists' : c'.Lists (ids.map ρ)
  command : ∀ id ∈ ids, c'.nodes[ρ id]?.map (·.command) = c.nodes[id]?.map (·.command)
  jump : stale = false → ∀ id ∈ ids, Tracks ρ ids (c.jump? id) (c'.jump? (ρ id))
  current : Tracks ρ ids c.current c'.current
  scopes : c'.scopes.entries = c.scopes.entries.map ρ
  opened : ∀ id ∈ c.scopes.entries, id ∈ ids
  stale : c.jumpsStale = stale
  shell : c'.shell = c.shell

namespace Twin

variable {ρ : NodeId → NodeId} {ids : List NodeId} {stale : Bool} {c c' : Chain κ ω α} {id : NodeId}

theorem read (h : Twin ρ ids stale c c') (f : Chain κ ω α → τ) : f c'.shell = f c.shell :=
  congrArg f h.shell

theorem name (h : Twin ρ ids stale c c') : c'.name = c.name := h.read Chain.name

theorem started (h : Twin ρ ids stale c c') : c'.started = c.started := h.read Chain.started

theorem finished (h : Twin ρ ids stale c c') : c'.finished = c.finished := h.read Chain.finished

theorem jumpsStale (h : Twin ρ ids stale c c') : c'.jumpsStale = c.jumpsStale :=
  h.read Chain.jumpsStale

theorem scratch (h : Twin ρ ids stale c c') : c'.scratch = c.scratch := h.read Chain.scratch

theorem interrupts (h : Twin ρ ids stale c c') : c'.interrupts = c.interrupts :=
  h.read Chain.interrupts

theorem ne_of_ne (h : Twin ρ ids stale c c') {i : NodeId} (hi : i ∈ ids) (hid : id ∈ ids)
    (hne : i ≠ id) : ρ i ≠ ρ id := fun he =>
  hne (List.inj_on_of_nodup_map h.lists'.distinct hi hid he)

theorem move (h : Twin ρ ids stale c c') {place place' : Option NodeId}
    (hp : Tracks ρ ids place place') :
    Twin ρ ids stale { c with current := place } { c' with current := place' } :=
  { h with
    lists := h.lists.of_layout rfl rfl rfl
    lists' := h.lists'.of_layout rfl rfl rfl
    current := hp }

theorem rescope (h : Twin ρ ids stale c c') {scopes scopes' : Scopes}
    (hs : scopes'.entries = scopes.entries.map ρ) (ho : ∀ id ∈ scopes.entries, id ∈ ids) :
    Twin ρ ids stale { c with scopes } { c' with scopes := scopes' } :=
  { h with
    lists := h.lists.of_layout rfl rfl rfl
    lists' := h.lists'.of_layout rfl rfl rfl
    scopes := hs
    opened := ho }

theorem rescratch (h : Twin ρ ids stale c c') (f : Scratch → Scratch) :
    Twin ρ ids stale { c with scratch := f c.scratch } { c' with scratch := f c'.scratch } :=
  { h with
    lists := h.lists.of_layout rfl rfl rfl
    lists' := h.lists'.of_layout rfl rfl rfl
    shell := congrArg (fun c : Chain κ ω α => { c with scratch := f c.scratch }) h.shell }

theorem finish (h : Twin ρ ids stale c c') :
    Twin ρ ids stale { c with finished := true } { c' with finished := true } :=
  { h with
    lists := h.lists.of_layout rfl rfl rfl
    lists' := h.lists'.of_layout rfl rfl rfl
    shell := congrArg (fun c : Chain κ ω α => { c with finished := true }) h.shell }

theorem release (h : Twin ρ ids stale c c') : Twin ρ ids stale c.released c'.released := by
  have hclear : Twin ρ ids stale { c with scratch := {}, scopes := {} }
      { c' with scratch := {}, scopes := {} } :=
    (h.rescratch fun _ => {}).rescope rfl nofun
  exact hclear.move ⟨rfl, nofun⟩

theorem modify (h : Twin ρ ids stale c c') (hid : id ∈ ids) {f : Node κ ω α → Node κ ω α}
    (he : ∀ n, (f n).ends = n.ends) (hj : ∀ n, (f n).jump = n.jump)
    (hc : ∀ n n' : Node κ ω α, n'.command = n.command → (f n').command = (f n).command) :
    Twin ρ ids stale (c.modifyNode id f) (c'.modifyNode (ρ id) f) := by
  have hjump (c : Chain κ ω α) (id i : NodeId) : (c.modifyNode id f).jump? i = c.jump? i := by
    rw [jump?_eq_jumps, jumps_modifyNode c id hj, ← jump?_eq_jumps]
  refine { h with
    lists := ⟨h.lists.distinct, h.lists.head, h.lists.tail, h.lists.linked.congr fun i _ =>
      getElem?_modify_map he id i⟩
    lists' := ⟨h.lists'.distinct, h.lists'.head, h.lists'.tail, h.lists'.linked.congr fun i _ =>
      getElem?_modify_map he (ρ id) i⟩
    command := fun i hi => ?_
    jump := fun hst i hi => by
      rw [hjump, hjump]
      exact h.jump hst i hi
    stale := h.stale
    shell := h.shell }
  by_cases hne : i = id
  · subst hne
    have hcmd := h.command i hi
    simp only [modifyNode, Array.getElem?_modify, if_true, Option.map_map]
    cases hn : c.nodes[i]? with
    | none =>
      rw [hn, Option.map_none, Option.map_eq_none_iff] at hcmd
      rw [hcmd]
    | some n =>
      rw [hn, Option.map_some] at hcmd
      obtain ⟨n', hn', hcmd⟩ := Option.map_eq_some_iff.mp hcmd
      rw [hn']
      exact congrArg some (hc n n' hcmd)
  · simp only [modifyNode]
    rw [getElem?_modify_ne hne, getElem?_modify_ne (h.ne_of_ne hi hid hne)]
    exact h.command i hi

end Twin

theorem Lists.next?_of_split {c : Chain κ ω α} {before rest : List NodeId} {id : NodeId}
    (h : c.Lists (before ++ id :: rest)) : c.next? id = rest.head? := by
  obtain ⟨n, hn, he⟩ := Option.map_eq_some_iff.mp (Segment.append_iff.mp h.linked).2.1
  have hnext := congrArg Prod.snd he
  rw [next?, hn, Option.bind_some]
  exact hnext.trans (Option.or_none ..)

theorem Lists.threaded {c : Chain κ ω α} {ids : List NodeId} (h : c.Lists ids) : c.Threaded where
  head := by rw [h.head, ← h.map_listing, List.head?_map]
  next {before rest e} he := by
    have hids : ids = before.map Prod.fst ++ e.1 :: rest.map Prod.fst := by
      rw [← h.map_listing, he, List.map_append, List.map_cons]
    subst hids
    rw [h.next?_of_split, List.head?_map]
  distinct := h.map_listing ▸ h.distinct

namespace Twin

variable {ρ : NodeId → NodeId} {ids : List NodeId} {stale : Bool} {c c' : Chain κ ω α} {id : NodeId}

theorem next (h : Twin ρ ids stale c c') (hid : id ∈ ids) :
    Tracks ρ ids (c.next? id) (c'.next? (ρ id)) := by
  obtain ⟨before, rest, rfl⟩ := List.append_of_mem hid
  have hl' := h.lists'
  rw [List.map_append, List.map_cons] at hl'
  rw [h.lists.next?_of_split, hl'.next?_of_split, List.head?_map]
  refine ⟨rfl, fun i hi => ?_⟩
  exact List.mem_append_right _ (List.mem_cons_of_mem _ (List.mem_of_mem_head? hi))

theorem node (h : Twin ρ ids stale c c') (hid : id ∈ ids) : ∃ n n', c.nodes[id]? = some n ∧
    c'.nodes[ρ id]? = some n' ∧ n'.command = n.command ∧ Tracks ρ ids n.next n'.next ∧
      (stale = false → Tracks ρ ids n.jump n'.jump) := by
  have hn := Array.getElem?_eq_getElem (h.lists.linked.inside id hid)
  have hn' := Array.getElem?_eq_getElem (h.lists'.linked.inside _ (List.mem_map_of_mem hid))
  have hcmd := h.command id hid
  have hnext := h.next hid
  have hjump (hst : stale = false) := h.jump hst id hid
  simp only [next?, jump?, hn, hn', Option.bind_some] at hcmd hnext hjump
  exact ⟨_, _, hn, hn', Option.some.inj hcmd, hnext, hjump⟩

end Twin

end Chain

section Scan

variable {l rest : List Entry} (ρ : NodeId → NodeId)

theorem mem_of_scan {orElse : Bool} {depth : Nat} {t : NodeId} (h : scan orElse depth l = some t) :
    t ∈ l.map Prod.fst := by
  induction l generalizing depth with
  | nil => cases h
  | cons e rest ih =>
    obtain ⟨id, op⟩ := e
    by_cases hop : op.kind = .branch
    · rcases Opcode.kind_eq_branch_iff.mp hop with rfl | rfl | rfl
      · exact List.mem_cons_of_mem _ (ih h)
      all_goals
        rw [scan] at h
        split at h
        · cases h
          exact List.mem_cons_self
        · exact List.mem_cons_of_mem _ (ih h)
    · rw [scan_other hop] at h
      exact List.mem_cons_of_mem _ (ih h)

theorem mem_of_target {op : Opcode} {t : NodeId} (h : target op rest = some t) :
    t ∈ rest.map Prod.fst := by
  cases op <;> first | exact mem_of_scan h | cases h

/-- Whatever the places are called, the scan finds the same one. -/
theorem scan_map (orElse : Bool) (depth : Nat) (l : List Entry) :
    scan orElse depth (l.map (Prod.map ρ id)) = (scan orElse depth l).map ρ := by
  induction l generalizing depth with
  | nil => rfl
  | cons e rest ih =>
    obtain ⟨id, op⟩ := e
    rw [List.map_cons]
    by_cases hop : op.kind = .branch
    · rcases Opcode.kind_eq_branch_iff.mp hop with rfl | rfl | rfl
      · exact ih (depth + 1)
      all_goals
        simp only [Prod.map, id_eq, scan]
        split
        · rfl
        · exact ih _
    · rw [Prod.map, id_eq, scan_other hop, scan_other hop, ih]

theorem target_map (op : Opcode) (rest : List Entry) :
    target op (rest.map (Prod.map ρ id)) = (target op rest).map ρ := by
  cases op <;> first | exact scan_map ρ _ _ rest | rfl

end Scan

namespace Chain

variable {ρ : NodeId → NodeId} {ids : List NodeId} {stale : Bool} {c c' r d : Chain κ ω α}

theorem command_setJumps (found : List (NodeId × NodeId)) (c : Chain κ ω α) (i : NodeId) :
    (c.setJumps found).nodes[i]?.map (·.command) = c.nodes[i]?.map (·.command) := by
  induction found generalizing c with
  | nil => rfl
  | cons link rest ih => exact (ih _).trans (getElem?_modify_map (by intro _; rfl) _ i)

theorem command_cleared (c : Chain κ ω α) (i : NodeId) :
    c.cleared.nodes[i]?.map (·.command) = c.nodes[i]?.map (·.command) := by
  rw [cleared]
  generalize c.walk = places
  induction places generalizing c with
  | nil => rfl
  | cons id rest ih => exact (ih _).trans (getElem?_modify_map (by intro _; rfl) _ i)

theorem command_resolve (hr : c.resolveJumps = .ok r) (i : NodeId) :
    r.nodes[i]?.map (·.command) = c.nodes[i]?.map (·.command) := by
  obtain ⟨found, -, rfl⟩ := resolve_ok hr
  exact (command_setJumps found c.cleared i).trans (command_cleared c i)

/-- What the start of a step makes of a chain. -/
def opening (c : Chain κ ω α) : Except Failure (Chain κ ω α) :=
  if c.finished then .error (.chainFinished c.name)
  else (if c.jumpsStale then c.resolveJumps else .ok c).map fun c =>
    if c.started then c else { c with started := true, current := c.head }

theorem opening_eq_ok_iff : c.opening = .ok d ↔ c.finished = false ∧ ∃ r : Chain κ ω α,
    (c.jumpsStale = false ∧ r = c ∨ c.jumpsStale = true ∧ c.resolveJumps = .ok r) ∧
      d = if r.started then r else { r with started := true, current := r.head } := by
  rw [opening]
  cases c.finished with
  | true => simp
  | false =>
    cases c.jumpsStale with
    | false => simp [Except.map, eq_comm (a := d)]
    | true => cases c.resolveJumps <;> simp [Except.map, eq_comm (a := d)]

theorem opening_eq_error_iff {f : Failure} : c.opening = .error f ↔
    c.finished = true ∧ f = .chainFinished c.name ∨
      c.finished = false ∧ c.jumpsStale = true ∧ c.resolveJumps = .error f := by
  rw [opening]
  cases c.finished with
  | true => simp [eq_comm (a := f)]
  | false =>
    cases c.jumpsStale with
    | false => simp [Except.map]
    | true => cases c.resolveJumps <;> simp [Except.map]

namespace Twin

theorem opcode? (h : Twin ρ ids stale c c') {i : NodeId} (hi : i ∈ ids) :
    c'.opcode? (ρ i) = c.opcode? i := by
  have hcode := congrArg (Option.map Command.opcode) (h.command i hi)
  simp only [Option.map_map] at hcode
  exact hcode

theorem listing (h : Twin ρ ids stale c c') : c'.listing = c.listing.map (Prod.map ρ id) := by
  rw [Chain.listing, Chain.listing, h.lists.walk, h.lists'.walk, List.filterMap_map,
    List.map_filterMap]
  refine List.filterMap_congr fun i hi => ?_
  simp only [Function.comp_apply, h.opcode? hi]
  cases c.opcode? i <;> rfl

theorem opcodes (h : Twin ρ ids stale c c') : c'.opcodes = c.opcodes := by
  rw [opcodes_eq, opcodes_eq, h.listing, List.map_map]
  rfl

theorem resolve_error (h : Twin ρ ids stale c c') {f : Failure} (hr : c.resolveJumps = .error f) :
    c'.resolveJumps = .error f := by
  rw [resolveJumps_error_iff] at hr ⊢
  rwa [h.opcodes, h.name]

theorem resolve (h : Twin ρ ids stale c c') (hr : c.resolveJumps = .ok r) :
    ∃ r', c'.resolveJumps = .ok r' ∧ Twin ρ ids false r r' := by
  obtain ⟨r', hr'⟩ : ∃ r', c'.resolveJumps = .ok r' := by
    rw [resolveJumps_ok_iff, h.opcodes, ← resolveJumps_ok_iff]
    exact ⟨r, hr⟩
  have hsame := rejumped_resolve hr
  have hsame' := rejumped_resolve hr'
  refine ⟨r', hr', ?_⟩
  refine {
    lists := h.lists.of_layout hsame.layout (hsame.read Chain.head) (hsame.read Chain.tail)
    lists' := h.lists'.of_layout hsame'.layout (hsame'.read Chain.head) (hsame'.read Chain.tail)
    command := fun i hi => by rw [command_resolve hr', command_resolve hr, h.command i hi]
    jump := fun _ i hi => ?_
    current := ?_
    scopes := ?_
    opened := ?_
    stale := hsame.read Chain.jumpsStale
    shell := ?_ }
  · obtain ⟨op, hop⟩ : ∃ op, (i, op) ∈ c.listing := by
      rw [← h.lists.map_listing] at hi
      obtain ⟨⟨_, op⟩, hmem, rfl⟩ := List.mem_map.mp hi
      exact ⟨op, hmem⟩
    obtain ⟨before, rest, hl⟩ := List.append_of_mem hop
    have hl' : r'.listing = before.map (Prod.map ρ id) ++ (ρ i, op) :: rest.map (Prod.map ρ id) := by
      rw [listing_resolve hr', h.listing, hl, List.map_append, List.map_cons]
      rfl
    have hjump := ((h.lists.scanned hr).jump before i op rest ((listing_resolve hr).trans hl)).1
    have hjump' := ((h.lists'.scanned hr').jump _ _ _ _ hl').1
    rw [hjump, hjump', target_map]
    refine ⟨rfl, fun t ht => ?_⟩
    have hmem := mem_of_target ht
    rw [← h.lists.map_listing, hl, List.map_append, List.map_cons]
    exact List.mem_append_right _ (List.mem_cons_of_mem _ hmem)
  · rw [show r.current = c.current from hsame.read Chain.current,
      show r'.current = c'.current from hsame'.read Chain.current]
    exact h.current
  · rw [show r.scopes = c.scopes from hsame.read Chain.scopes,
      show r'.scopes = c'.scopes from hsame'.read Chain.scopes, h.scopes]
  · rw [show r.scopes = c.scopes from hsame.read Chain.scopes]
    exact h.opened
  · calc
      r'.shell = { c'.shell with jumpsStale := false } := hsame'.read Chain.shell
      _ = { c.shell with jumpsStale := false } := by rw [h.shell]
      _ = r.shell := (hsame.read Chain.shell).symm

theorem begin (h : Twin ρ ids stale c c') :
    Twin ρ ids stale { c with started := true, current := c.head }
      { c' with started := true, current := c'.head } := by
  have hhead : Tracks ρ ids c.head c'.head := by
    rw [h.lists.head, h.lists'.head, List.head?_map]
    exact ⟨rfl, fun i hi => List.mem_of_mem_head? hi⟩
  exact { h.move hhead with
    lists := h.lists.of_layout rfl rfl rfl
    lists' := h.lists'.of_layout rfl rfl rfl
    shell := congrArg (fun c : Chain κ ω α => { c with started := true }) h.shell }

theorem opening (h : Twin ρ ids stale c c') (ho : c.opening = .ok d) :
    ∃ d', c'.opening = .ok d' ∧ Twin ρ ids false d d' := by
  have hgo {r r' : Chain κ ω α} (hr : Twin ρ ids false r r') : Twin ρ ids false
      (if r.started then r else { r with started := true, current := r.head })
      (if r'.started then r' else { r' with started := true, current := r'.head }) := by
    rw [hr.started]
    split
    · exact hr
    · exact hr.begin
  simp only [opening_eq_ok_iff, h.finished, h.jumpsStale]
  obtain ⟨hf, r, ⟨hs, rfl⟩ | ⟨hs, hr⟩, rfl⟩ := opening_eq_ok_iff.mp ho
  · obtain rfl : stale = false := h.stale.symm.trans hs
    exact ⟨_, ⟨hf, c', .inl ⟨hs, rfl⟩, rfl⟩, hgo h⟩
  · obtain ⟨r', hr', htwin⟩ := h.resolve hr
    exact ⟨_, ⟨hf, r', .inr ⟨hs, hr'⟩, rfl⟩, hgo htwin⟩

theorem opening_error (h : Twin ρ ids stale c c') {f : Failure} (ho : c.opening = .error f) :
    c'.opening = .error f := by
  rw [opening_eq_error_iff, h.finished, h.jumpsStale, h.name]
  exact (opening_eq_error_iff.mp ho).imp_right fun ⟨hf, hs, hr⟩ => ⟨hf, hs, h.resolve_error hr⟩

theorem attach (h : Twin ρ ids stale c c') :
    Twin ρ ids stale { c with attached := true } { c' with attached := true } :=
  { h with
    lists := h.lists.of_layout rfl rfl rfl
    lists' := h.lists'.of_layout rfl rfl rfl
    shell := congrArg (fun c : Chain κ ω α => { c with attached := true }) h.shell }

end Twin

end Chain

end FrameChain
