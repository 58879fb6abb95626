import FrameChain.Chain.Build
import FrameChain.Proofs.Chain.Dispatch
import Mathlib.Data.List.Perm.Subperm

set_option autoImplicit false

namespace FrameChain

variable {κ ω α τ : Type}

def Node.ends (n : Node κ ω α) : Option NodeId × Option NodeId := (n.previous, n.next)

/-- The nodes at these indices are linked in this order, between two ends. -/
def Segment (nodes : Array (Node κ ω α)) : Option NodeId → List NodeId → Option NodeId → Prop
  | _, [], _ => True
  | before, id :: rest, behind =>
    nodes[id]?.map Node.ends = some (before, rest.head?.or behind) ∧
      Segment nodes (some id) rest behind

def commandsAt (nodes : Array (Node κ ω α)) (ids : List NodeId) : List (Command κ ω α) :=
  ids.filterMap fun id => nodes[id]?.map (·.command)

theorem getElem?_modify_map {nodes : Array (Node κ ω α)} {f : Node κ ω α → Node κ ω α}
    {g : Node κ ω α → τ} (hf : ∀ n, g (f n) = g n) (id i : NodeId) :
    (nodes.modify id f)[i]?.map g = nodes[i]?.map g := by
  rw [Array.getElem?_modify]
  split
  · rw [Option.map_map]
    exact congrArg (Option.map · nodes[i]?) (funext hf)
  · rfl

theorem getElem?_modify_ne {nodes : Array (Node κ ω α)} {f : Node κ ω α → Node κ ω α} {id i : NodeId}
    (h : i ≠ id) : (nodes.modify id f)[i]? = nodes[i]? := by
  rw [Array.getElem?_modify, if_neg (Ne.symm h)]

theorem commandsAt_congr {nodes nodes' : Array (Node κ ω α)} {ids : List NodeId}
    (h : ∀ id ∈ ids, nodes'[id]?.map (·.command) = nodes[id]?.map (·.command)) :
    commandsAt nodes' ids = commandsAt nodes ids := List.filterMap_congr h

theorem commandsAt_append (nodes : Array (Node κ ω α)) (ids ids' : List NodeId) :
    commandsAt nodes (ids ++ ids') = commandsAt nodes ids ++ commandsAt nodes ids' :=
  List.filterMap_append

theorem commandsAt_modify {f : Node κ ω α → Node κ ω α} (hf : ∀ n, (f n).command = n.command)
    (nodes : Array (Node κ ω α)) (id : NodeId) (ids : List NodeId) :
    commandsAt (nodes.modify id f) ids = commandsAt nodes ids :=
  commandsAt_congr fun i _ => getElem?_modify_map hf id i

def joinNodes (nodes : Array (Node κ ω α)) : Option NodeId → Option NodeId → Array (Node κ ω α)
  | some last, some first =>
    (nodes.modify last fun node => { node with next := some first }).modify first
      fun node => { node with previous := some last }
  | _, _ => nodes

theorem commandsAt_joinNodes (nodes : Array (Node κ ω α)) (last first : Option NodeId)
    (ids : List NodeId) : commandsAt (joinNodes nodes last first) ids = commandsAt nodes ids := by
  cases last with
  | none => rfl
  | some last => cases first with
    | none => rfl
    | some first =>
      rw [joinNodes, commandsAt_modify (by intro _; rfl), commandsAt_modify (by intro _; rfl)]

namespace Segment

variable {nodes nodes' : Array (Node κ ω α)} {before behind : Option NodeId} {x y : NodeId}
  {xs ys ids : List NodeId}

theorem congr (h : Segment nodes before ids behind)
    (he : ∀ id ∈ ids, nodes'[id]?.map Node.ends = nodes[id]?.map Node.ends) :
    Segment nodes' before ids behind := by
  induction ids generalizing before with
  | nil => trivial
  | cons id rest ih =>
    exact ⟨(he id List.mem_cons_self).trans h.1, ih h.2 fun i hi => he i (List.mem_cons_of_mem id hi)⟩

theorem inside (h : Segment nodes before ids behind) : ∀ id ∈ ids, id < nodes.size := by
  induction ids generalizing before with
  | nil => nofun
  | cons id rest ih =>
    refine List.forall_mem_cons.mpr ⟨?_, ih h.2⟩
    obtain ⟨n, hn, -⟩ := Option.map_eq_some_iff.mp h.1
    exact (Array.getElem?_eq_some_iff.mp hn).1

theorem append_iff : Segment nodes before (xs ++ ys) behind ↔
    Segment nodes before xs (ys.head?.or behind) ∧ Segment nodes (xs.getLast?.or before) ys behind := by
  induction xs generalizing before with
  | nil => simp [Segment]
  | cons x xs ih =>
    have hlast : (x :: xs).getLast?.or before = xs.getLast?.or (some x) := by
      rw [List.getLast?_cons]
      cases xs.getLast? <;> rfl
    rw [List.cons_append, Segment, Segment, ih, hlast, List.head?_append, Option.or_assoc, and_assoc]

theorem setNext (h : Segment nodes before (xs ++ [x]) behind) (hd : (xs ++ [x]).Nodup)
    (next : Option NodeId) :
    Segment (nodes.modify x fun n => { n with next }) before (xs ++ [x]) next := by
  have hx : ∀ id ∈ xs, id ≠ x := fun id hid he => by
    subst he
    exact (List.nodup_append.mp hd).2.2 id hid id (List.mem_singleton_self id) rfl
  rw [append_iff] at h ⊢
  refine ⟨h.1.congr fun id hid => by rw [getElem?_modify_ne (hx id hid)], ?_, trivial⟩
  obtain ⟨n, hn, he⟩ := Option.map_eq_some_iff.mp h.2.1
  obtain ⟨hp, -⟩ := Prod.mk.inj he
  rw [Array.getElem?_modify, if_pos rfl, hn]
  simp [Node.ends, hp]

theorem setPrevious (h : Segment nodes before (y :: ys) behind) (hd : (y :: ys).Nodup)
    (previous : Option NodeId) :
    Segment (nodes.modify y fun n => { n with previous }) previous (y :: ys) behind := by
  have hy : ∀ id ∈ ys, id ≠ y := fun id hid he => (List.nodup_cons.mp hd).1 (he ▸ hid)
  refine ⟨?_, h.2.congr fun id hid => by rw [getElem?_modify_ne (hy id hid)]⟩
  obtain ⟨n, hn, he⟩ := Option.map_eq_some_iff.mp h.1
  obtain ⟨-, hq⟩ := Prod.mk.inj he
  rw [Array.getElem?_modify, if_pos rfl, hn]
  simp [Node.ends, hq]

theorem join (hx : Segment nodes none xs none) (hy : Segment nodes none ys none)
    (hd : (xs ++ ys).Nodup) :
    Segment (joinNodes nodes xs.getLast? ys.head?) none (xs ++ ys) none := by
  rcases List.eq_nil_or_concat xs with rfl | ⟨xs, x, rfl⟩
  · exact hy
  rw [List.concat_eq_append] at hx hd ⊢
  cases ys with
  | nil => simpa [joinNodes] using hx
  | cons y ys =>
    obtain ⟨hdx, hdy, hne⟩ := List.nodup_append.mp hd
    have hy' : Segment (nodes.modify x fun n => { n with next := some y }) none (y :: ys) none :=
      hy.congr fun id hid => by rw [getElem?_modify_ne fun he => hne x (by simp) id hid he.symm]
    rw [List.getLast?_concat, List.head?_cons, joinNodes]
    refine append_iff.mpr ⟨(hx.setNext hdx (some y)).congr fun id hid => ?_, ?_⟩
    · rw [getElem?_modify_ne fun he => hne id hid y List.mem_cons_self he]
    · rw [List.getLast?_concat]
      exact hy'.setPrevious hdy (some x)

theorem follow_eq (h : Segment nodes before ids none) {fuel : Nat} (hf : ids.length ≤ fuel) :
    Chain.follow nodes fuel ids.head? = ids := by
  induction ids generalizing before fuel with
  | nil => cases fuel <;> rfl
  | cons id rest ih =>
    obtain ⟨fuel, rfl⟩ : ∃ n, fuel = n + 1 := ⟨fuel - 1, by simp at hf; omega⟩
    obtain ⟨n, hn, he⟩ := Option.map_eq_some_iff.mp h.1
    obtain ⟨-, hnext⟩ := Prod.mk.inj he
    rw [Option.or_none] at hnext
    have hrest := ih h.2 (Nat.le_of_succ_le_succ hf)
    rw [List.head?_cons, Chain.follow, hn, Option.bind_some, hnext, hrest]

end Segment

namespace Chain

variable {c c' d : Chain κ ω α} {ids ids' : List NodeId}

/-- These indices make up the list of the chain. -/
structure Lists (c : Chain κ ω α) (ids : List NodeId) : Prop where
  distinct : ids.Nodup
  head : c.head = ids.head?
  tail : c.tail = ids.getLast?
  linked : Segment c.nodes none ids none

namespace Lists

theorem length_le (h : c.Lists ids) : ids.length ≤ c.nodes.size := by
  have hsub : ids ⊆ List.range c.nodes.size := fun id hid =>
    List.mem_range.mpr (h.linked.inside id hid)
  have hle := (h.distinct.subperm hsub).length_le
  rwa [List.length_range] at hle

theorem walk (h : c.Lists ids) : c.walk = ids := by
  rw [Chain.walk, h.head, h.linked.follow_eq h.length_le]

theorem commands (h : c.Lists ids) : c.commands = commandsAt c.nodes ids := by
  rw [Chain.commands, h.walk, commandsAt]

end Lists

/-- The chain with another list, or with its own. -/
def Relisted (c c' : Chain κ ω α) : Prop :=
  c' = c ∨ ∃ nodes head tail, c' = { c with nodes, head, tail, jumpsStale := true }

theorem Relisted.same {j : Chain κ ω α} (hj : Relisted c j) : j.name = c.name ∧
    j.interrupts = c.interrupts ∧ j.started = c.started ∧ j.attached = c.attached ∧
      j.finished = c.finished := by
  rcases hj with rfl | ⟨nodes, head, tail, rfl⟩ <;> exact ⟨rfl, rfl, rfl, rfl, rfl⟩

theorem Relisted.trans {j : Chain κ ω α} (h : Relisted c d) (h' : Relisted d j) : Relisted c j := by
  rcases h with rfl | ⟨nodes, head, tail, rfl⟩
  · exact h'
  · rcases h' with rfl | ⟨nodes', head', tail', rfl⟩ <;> exact .inr ⟨_, _, _, rfl⟩

theorem relisted_append (c : Chain κ ω α) (command : Command κ ω α) :
    Relisted c (c.append command) := by
  refine .inr ?_
  cases ht : c.tail <;> simp [append, ht, modifyNode]

theorem command_append (c : Chain κ ω α) (command : Command κ ω α) (id : NodeId) :
    (c.append command).nodes[id]?.map (·.command) =
      if id = c.nodes.size then some command else c.nodes[id]?.map (·.command) := by
  cases ht : c.tail with
  | none =>
    simp only [append, ht, Array.getElem?_push]
    split <;> rfl
  | some last =>
    simp only [append, ht, modifyNode, Array.getElem?_push, Array.size_modify]
    split
    · rfl
    · exact getElem?_modify_map (by intro _; rfl) last id

namespace Lists

theorem fresh (h : c.Lists ids) : ∀ id ∈ ids, id ≠ c.nodes.size :=
  fun id hid => Nat.ne_of_lt (h.linked.inside id hid)

theorem append (h : c.Lists ids) (command : Command κ ω α) :
    (c.append command).Lists (ids ++ [c.nodes.size]) := by
  have hd : (ids ++ [c.nodes.size]).Nodup :=
    List.nodup_append.mpr ⟨h.distinct, by simp, by simpa using h.fresh⟩
  rcases List.eq_nil_or_concat ids with rfl | ⟨init, last, rfl⟩
  · have ht : c.tail = none := h.tail
    refine ⟨hd, ?_, ?_, ?_⟩
    · simp [Chain.append, ht]
    · simp [Chain.append]
    · simp [Chain.append, ht, Segment, Node.ends]
  · rw [List.concat_eq_append] at h hd ⊢
    have ht : c.tail = some last := by rw [h.tail, List.getLast?_concat]
    have hhead : (init ++ [last] ++ [c.nodes.size]).head? = (init ++ [last]).head? := by
      cases init <;> rfl
    have hnode (id : NodeId) : (c.append command).nodes[id]? =
        if id = c.nodes.size then some { command, previous := some last }
        else (c.nodes.modify last fun node => { node with next := some c.nodes.size })[id]? := by
      simp only [Chain.append, ht, modifyNode, Array.getElem?_push, Array.size_modify]
    refine ⟨hd, ?_, ?_, Segment.append_iff.mpr ⟨?_, ?_⟩⟩
    · rw [hhead, ← h.head]
      simp [Chain.append, ht, modifyNode]
    · rw [List.getLast?_concat]
      simp [Chain.append]
    · refine (h.linked.setNext h.distinct (some c.nodes.size)).congr fun id hid => ?_
      rw [hnode, if_neg (h.fresh id hid)]
    · rw [Segment, hnode, if_pos rfl, List.getLast?_concat]
      exact ⟨rfl, trivial⟩

theorem commands_append (h : c.Lists ids) (command : Command κ ω α) :
    (c.append command).commands = c.commands ++ [command] := by
  rw [(h.append command).commands, h.commands, commandsAt_append]
  congr 1
  · exact commandsAt_congr fun id hid => by rw [command_append, if_neg (h.fresh id hid)]
  · rw [commandsAt, List.filterMap_cons, command_append, if_pos rfl]
    rfl

end Lists

theorem linked_range' {nodes : Array (Node κ ω α)} {first n : Nat} {before : Option NodeId}
    (h : ∀ i, i < n → nodes[first + i]?.map Node.ends =
      some (if i = 0 then before else some (first + i - 1),
        if i + 1 = n then none else some (first + i + 1))) :
    Segment nodes before (List.range' first n) none := by
  induction n generalizing first before with
  | zero => trivial
  | succ n ih =>
    rw [List.range'_succ]
    refine ⟨?_, ih fun i hi => ?_⟩
    · have hhere := h 0 (Nat.zero_lt_succ n)
      rw [Nat.add_zero] at hhere
      rw [hhere]
      cases n with
      | zero => rfl
      | succ n => simp [List.range'_succ]
    · have hthere := h (i + 1) (Nat.succ_lt_succ hi)
      rw [Nat.add_right_comm first 1 i, Nat.add_assoc first i 1, hthere]
      cases i with
      | zero => simp [eq_comm]
      | succ i => simp [Nat.add_assoc]

theorem commandsAt_range' {nodes : Array (Node κ ω α)} {first : Nat}
    {commands : List (Command κ ω α)}
    (h : ∀ i, i < commands.length → nodes[first + i]?.map (·.command) = commands[i]?) :
    commandsAt nodes (List.range' first commands.length) = commands := by
  induction commands generalizing first with
  | nil => rfl
  | cons command rest ih =>
    have hhere := h 0 (Nat.zero_lt_succ _)
    rw [List.length_cons, List.range'_succ, commandsAt, List.filterMap_cons]
    rw [Nat.add_zero, List.getElem?_cons_zero] at hhere
    rw [hhere]
    refine congrArg (command :: ·) (ih fun i hi => ?_)
    have hthere := h (i + 1) (Nat.succ_lt_succ hi)
    rwa [List.getElem?_cons_succ, ← Nat.add_assoc, Nat.add_right_comm] at hthere

section Added

variable (nodes : Array (Node κ ω α)) (commands : List (Command κ ω α))

theorem getElem?_added (i : Nat) :
    (nodes ++ linkedFrom nodes.size commands)[nodes.size + i]? =
      (linkedFrom nodes.size commands)[i]? := by
  rw [← Array.getElem?_toList, Array.toList_appendList, List.getElem?_append_right (by simp)]
  simp

theorem linked_added : Segment (nodes ++ linkedFrom nodes.size commands) none
    (List.range' nodes.size commands.length) none := by
  refine linked_range' fun i hi => ?_
  rw [getElem?_added, linkedFrom, List.getElem?_mapIdx, List.getElem?_eq_getElem hi]
  rfl

theorem commandsAt_added : commandsAt (nodes ++ linkedFrom nodes.size commands)
    (List.range' nodes.size commands.length) = commands := by
  refine commandsAt_range' fun i hi => ?_
  rw [getElem?_added, linkedFrom, List.getElem?_mapIdx, List.getElem?_eq_getElem hi]
  rfl

theorem getElem?_added_of_lt {id : NodeId} (h : id < nodes.size) :
    (nodes ++ linkedFrom nodes.size commands)[id]? = nodes[id]? := by
  rw [← Array.getElem?_toList, Array.toList_appendList, List.getElem?_append_left (by simpa using h),
    Array.getElem?_toList]

end Added

theorem lists_emptied (c : Chain κ ω α) : c.emptied.Lists [] := ⟨.nil, rfl, rfl, trivial⟩

theorem relisted_emptied (c : Chain κ ω α) : Relisted c c.emptied := .inr ⟨_, _, _, rfl⟩

theorem commands_emptied (c : Chain κ ω α) : c.emptied.commands = [] := by
  rw [(lists_emptied c).commands]
  rfl

theorem ensureIdle_ok : c.ensureIdle = .ok () ↔ c.started = false ∧ c.attached = false := by
  simp only [ensureIdle]
  cases c.started <;> cases c.attached <;> simp

/-- The arena of `c` with the commands of `d` behind it, not yet linked to its list. -/
def gathered (c d : Chain κ ω α) : Array (Node κ ω α) :=
  c.nodes ++ linkedFrom c.nodes.size d.commands

def added (c d : Chain κ ω α) : List NodeId := List.range' c.nodes.size d.commands.length

theorem adopt_nil (h : d.commands = []) : c.adopt d = (c, none) := by
  simp [adopt, h, linkedFrom]

theorem adopt_cons (h : d.commands ≠ []) :
    c.adopt d = ({ c with nodes := c.gathered d, jumpsStale := true },
      some (c.nodes.size, c.nodes.size + d.commands.length - 1)) := by
  have hne : (linkedFrom c.nodes.size d.commands).isEmpty = false := by
    simpa [linkedFrom] using h
  rw [adopt, hne]
  simp [linkedFrom, gathered]

section Gathered

variable (h : c.Lists ids) (hd : d.commands ≠ [])

include h

theorem linked_gathered : Segment (c.gathered d) none ids none :=
  h.linked.congr fun id hid => by rw [gathered, getElem?_added_of_lt _ _ (h.linked.inside id hid)]

theorem commandsAt_gathered : commandsAt (c.gathered d) ids = c.commands := by
  rw [h.commands]
  exact commandsAt_congr fun id hid => by
    rw [gathered, getElem?_added_of_lt _ _ (h.linked.inside id hid)]

theorem disjoint_added : ∀ id ∈ ids, ∀ id' ∈ c.added d, id ≠ id' := by
  intro id hid id' hid'
  have hle := (List.mem_range'_1.mp hid').1
  exact Nat.ne_of_lt (Nat.lt_of_lt_of_le (h.linked.inside id hid) hle)

end Gathered

theorem head?_added (h : d.commands ≠ []) : (c.added d).head? = some c.nodes.size := by
  obtain ⟨command, rest, hd⟩ := List.exists_cons_of_ne_nil h
  rw [added, hd, List.length_cons, List.range'_succ]
  rfl

theorem getLast?_added (h : d.commands ≠ []) :
    (c.added d).getLast? = some (c.nodes.size + d.commands.length - 1) := by
  have hpos : d.commands.length ≠ 0 := by simpa using h
  simp [added, List.getLast?_range', hpos]

theorem linked_added' (c d : Chain κ ω α) : Segment (c.gathered d) none (c.added d) none :=
  linked_added c.nodes d.commands

def joined (c d : Chain κ ω α) (xs ys : List NodeId) : Chain κ ω α :=
  { c with
    nodes := joinNodes (c.gathered d) xs.getLast? ys.head?
    head := (xs ++ ys).head?
    tail := (xs ++ ys).getLast?
    jumpsStale := true }

theorem lists_joined {xs ys : List NodeId} (hx : Segment (c.gathered d) none xs none)
    (hy : Segment (c.gathered d) none ys none) (hd : (xs ++ ys).Nodup) :
    (c.joined d xs ys).Lists (xs ++ ys) :=
  ⟨hd, rfl, rfl, hx.join hy hd⟩

theorem of_ensureIdle {p : Except Failure τ} {t : τ}
    (h : (do c.ensureIdle; d.ensureIdle; p) = .ok t) :
    c.ensureIdle = .ok () ∧ d.ensureIdle = .ok () ∧ p = .ok t := by
  cases hc : c.ensureIdle with
  | error f =>
    rw [hc] at h
    cases h
  | ok => cases hd : d.ensureIdle with
    | error f =>
      rw [hc, hd] at h
      cases h
    | ok =>
      rw [hc, hd] at h
      exact ⟨rfl, rfl, h⟩

theorem relisted_mergeWith {j e : Chain κ ω α} (h : c.mergeWith d = .ok (j, e)) :
    (c.ensureIdle = .ok () ∧ Relisted c j) ∧ d.ensureIdle = .ok () ∧ Relisted d e := by
  obtain ⟨hc, hd, h⟩ := of_ensureIdle h
  by_cases hcmds : d.commands = []
  · rw [adopt_nil hcmds] at h
    cases h
    exact ⟨⟨hc, .inl rfl⟩, hd, relisted_emptied d⟩
  · rw [adopt_cons hcmds] at h
    cases ht : c.tail <;> simp only [ht, modifyNode] at h <;> cases h <;>
      exact ⟨⟨hc, .inr ⟨_, _, _, rfl⟩⟩, hd, relisted_emptied d⟩

theorem relisted_mergeAtBeginning {j e : Chain κ ω α} (h : c.mergeAtBeginning d = .ok (j, e)) :
    (c.ensureIdle = .ok () ∧ Relisted c j) ∧ d.ensureIdle = .ok () ∧ Relisted d e := by
  obtain ⟨hc, hd, h⟩ := of_ensureIdle h
  by_cases hcmds : d.commands = []
  · rw [adopt_nil hcmds] at h
    cases h
    exact ⟨⟨hc, .inl rfl⟩, hd, relisted_emptied d⟩
  · rw [adopt_cons hcmds] at h
    cases hh : c.head <;> simp only [hh, modifyNode] at h <;> cases h <;>
      exact ⟨⟨hc, .inr ⟨_, _, _, rfl⟩⟩, hd, relisted_emptied d⟩

theorem exists_mergeWith (hc : c.ensureIdle = .ok ()) (hd : d.ensureIdle = .ok ()) :
    ∃ j e, c.mergeWith d = .ok (j, e) := by
  rw [mergeWith, hc, hd]
  by_cases hcmds : d.commands = []
  · rw [adopt_nil hcmds]
    exact ⟨_, _, rfl⟩
  · rw [adopt_cons hcmds]
    exact ⟨_, _, rfl⟩

theorem exists_mergeAtBeginning (hc : c.ensureIdle = .ok ()) (hd : d.ensureIdle = .ok ()) :
    ∃ j e, c.mergeAtBeginning d = .ok (j, e) := by
  rw [mergeAtBeginning, hc, hd]
  by_cases hcmds : d.commands = []
  · rw [adopt_nil hcmds]
    exact ⟨_, _, rfl⟩
  · rw [adopt_cons hcmds]
    exact ⟨_, _, rfl⟩

structure Joined (c d j e : Chain κ ω α) (commands : List (Command κ ω α)) : Prop where
  idle : c.ensureIdle = .ok () ∧ d.ensureIdle = .ok ()
  donor : e = d.emptied
  relisted : Relisted c j
  lists : ∃ ids, j.Lists ids
  commands_eq : j.commands = commands

variable {j e : Chain κ ω α}

theorem Lists.mergeWith (h : c.Lists ids) (hm : c.mergeWith d = .ok (j, e)) :
    Joined c d j e (c.commands ++ d.commands) := by
  obtain ⟨hc, hd, hm⟩ := of_ensureIdle hm
  by_cases hcmds : d.commands = []
  · rw [adopt_nil hcmds] at hm
    cases hm
    exact ⟨⟨hc, hd⟩, rfl, .inl rfl, ⟨ids, h⟩, by simp [hcmds]⟩
  rw [adopt_cons hcmds] at hm
  have hhead := head?_added (c := c) hcmds
  have hend : (ids ++ c.added d).getLast? = some (c.nodes.size + d.commands.length - 1) := by
    rw [List.getLast?_append, getLast?_added hcmds, Option.some_or]
  have hj : j = c.joined d ids (c.added d) ∧ e = d.emptied := by
    have ht := h.tail
    have hh := h.head
    rcases List.eq_nil_or_concat ids with rfl | ⟨xs, x, rfl⟩
    · simp only [ht, List.getLast?_nil] at hm
      cases hm
      simp [joined, joinNodes, hhead, getLast?_added hcmds]
    · rw [List.concat_eq_append] at ht hh hend ⊢
      have hfirst : (xs ++ [x] ++ c.added d).head? = c.head := by
        rw [hh]
        cases xs <;> rfl
      simp only [ht, List.getLast?_concat] at hm
      cases hm
      simp only [joined, hfirst, hend, List.getLast?_concat, hhead, joinNodes, modifyNode, and_self]
  obtain ⟨rfl, rfl⟩ := hj
  have hd' : (ids ++ c.added d).Nodup :=
    List.nodup_append.mpr ⟨h.distinct, List.nodup_range', disjoint_added h⟩
  have hl := lists_joined (linked_gathered (d := d) h) (linked_added' c d) hd'
  refine ⟨⟨hc, hd⟩, rfl, .inr ⟨_, _, _, rfl⟩, ⟨_, hl⟩, ?_⟩
  rw [hl.commands, joined, commandsAt_joinNodes, commandsAt_append, commandsAt_gathered h]
  exact congrArg _ (commandsAt_added c.nodes d.commands)

theorem Lists.mergeAtBeginning (h : c.Lists ids) (hm : c.mergeAtBeginning d = .ok (j, e)) :
    Joined c d j e (d.commands ++ c.commands) := by
  obtain ⟨hc, hd, hm⟩ := of_ensureIdle hm
  by_cases hcmds : d.commands = []
  · rw [adopt_nil hcmds] at hm
    cases hm
    exact ⟨⟨hc, hd⟩, rfl, .inl rfl, ⟨ids, h⟩, by simp [hcmds]⟩
  rw [adopt_cons hcmds] at hm
  have hlast := getLast?_added (c := c) hcmds
  have hj : j = c.joined d (c.added d) ids ∧ e = d.emptied := by
    have ht := h.tail
    have hh := h.head
    cases ids with
    | nil =>
      simp only [hh, List.head?_nil] at hm
      cases hm
      simp [joined, joinNodes, hlast, head?_added hcmds]
    | cons y ys =>
      have hend : (c.added d ++ y :: ys).getLast? = c.tail := by
        rw [List.getLast?_append, ht, List.getLast?_cons, Option.some_or]
      simp only [hh, List.head?_cons] at hm
      cases hm
      simp [joined, joinNodes, hlast, hend, head?_added hcmds, modifyNode]
  obtain ⟨rfl, rfl⟩ := hj
  have hd' : (c.added d ++ ids).Nodup :=
    List.nodup_append.mpr ⟨List.nodup_range', h.distinct, fun id hid id' hid' =>
      (disjoint_added h id' hid' id hid).symm⟩
  have hl := lists_joined (linked_added' c d) (linked_gathered (d := d) h) hd'
  refine ⟨⟨hc, hd⟩, rfl, .inr ⟨_, _, _, rfl⟩, ⟨_, hl⟩, ?_⟩
  rw [hl.commands, joined, commandsAt_joinNodes, commandsAt_append, commandsAt_gathered h]
  exact congrArg (· ++ _) (commandsAt_added c.nodes d.commands)

theorem Lists.previous_last {init : List NodeId} {last : NodeId} (h : c.Lists (init ++ [last])) :
    ∃ n, c.nodes[last]? = some n ∧ n.previous = init.getLast? := by
  obtain ⟨n, hn, he⟩ := Option.map_eq_some_iff.mp (Segment.append_iff.mp h.linked).2.1
  refine ⟨n, hn, ?_⟩
  have hp := congrArg Prod.fst he
  rwa [Option.or_none] at hp

theorem relisted_removeLast (hr : c.removeLast = .ok j) : c.ensureIdle = .ok () ∧ Relisted c j := by
  rw [Chain.removeLast] at hr
  cases hc : c.ensureIdle with
  | error f =>
    rw [hc] at hr
    cases hr
  | ok =>
    rw [hc] at hr
    refine ⟨rfl, ?_⟩
    cases ht : c.tail with
    | none =>
      simp only [ht] at hr
      cases hr
      exact .inl rfl
    | some last =>
      simp only [ht] at hr
      cases hp : c.nodes[last]?.bind (·.previous) <;> simp only [hp] at hr <;> cases hr <;>
        exact .inr ⟨_, _, _, rfl⟩

theorem exists_removeLast (hc : c.ensureIdle = .ok ()) : ∃ j, c.removeLast = .ok j := by
  rw [Chain.removeLast, hc]
  cases c.tail <;> exact ⟨_, rfl⟩

theorem Lists.removeLast (h : c.Lists ids) (hr : c.removeLast = .ok j) :
    c.ensureIdle = .ok () ∧ Relisted c j ∧ j.Lists ids.dropLast ∧
      j.commands = c.commands.dropLast := by
  obtain ⟨hc, hrelisted⟩ := relisted_removeLast hr
  refine ⟨hc, hrelisted, ?_⟩
  have ht := h.tail
  have hh := h.head
  rw [Chain.removeLast, hc] at hr
  rcases List.eq_nil_or_concat ids with rfl | ⟨init, last, rfl⟩
  · simp only [ht] at hr
    cases hr
    refine ⟨h, ?_⟩
    rw [h.commands]
    rfl
  rw [List.concat_eq_append] at h ht hh ⊢
  obtain ⟨n, hn, hp⟩ := h.previous_last
  have hcommands : c.commands.dropLast = commandsAt c.nodes init := by
    rw [h.commands, commandsAt_append]
    simp [commandsAt, hn]
  have hlast : ∀ id ∈ init, id ≠ last := fun id hid he =>
    (List.nodup_append.mp h.distinct).2.2 id hid last (List.mem_singleton_self last) he
  have hinit : Segment (c.nodes.modify last fun node => { node with previous := none }) none init
      (some last) :=
    (Segment.append_iff.mp h.linked).1.congr fun id hid => by rw [getElem?_modify_ne (hlast id hid)]
  simp only [ht, List.getLast?_concat, hn, Option.bind_some, hp] at hr
  rw [List.dropLast_concat, hcommands]
  rcases List.eq_nil_or_concat init with rfl | ⟨init, p, rfl⟩
  · cases hr
    have hl : Lists { c with
        nodes := c.nodes.modify last fun node => { node with previous := none }
        head := none
        tail := none
        jumpsStale := true } [] := ⟨.nil, rfl, rfl, trivial⟩
    exact ⟨hl, hl.commands⟩
  · rw [List.concat_eq_append] at *
    rw [List.getLast?_concat] at hr
    cases hr
    have hd := (List.nodup_append.mp h.distinct).1
    have hl : Lists { c with
        nodes := (c.nodes.modify last fun node => { node with previous := none }).modify p
          fun node => { node with next := none }
        tail := some p
        jumpsStale := true } (init ++ [p]) := by
      refine ⟨hd, ?_, by rw [List.getLast?_concat], hinit.setNext hd none⟩
      rw [hh]
      cases init <;> rfl
    have hsame := hl.commands
    rw [commandsAt_modify (by intro _; rfl), commandsAt_modify (by intro _; rfl)] at hsame
    exact ⟨hl, hsame⟩

end Chain
end FrameChain
