import FrameChain.Proofs.Chain.Lived
import FrameChain.Proofs.History
import Mathlib.Algebra.BigOperators.Group.Finset.Basic
import Mathlib.Algebra.Order.Group.Multiset

set_option autoImplicit false

namespace FrameChain

open Chain

variable {κ ω α ι : Type}

/-- The nodes met from `start` against the links, at most `fuel` of them. -/
def Chain.retrace (nodes : Array (Node κ ω α)) : Nat → Option NodeId → List NodeId
  | 0, _ => []
  | _ + 1, none => []
  | fuel + 1, some id => id :: retrace nodes fuel (nodes[id]?.bind (·.previous))

theorem Segment.retrace_eq {nodes : Array (Node κ ω α)} {ids : List NodeId} {behind : Option NodeId}
    (h : Segment nodes none ids behind) {fuel : Nat} (hf : ids.length ≤ fuel) :
    retrace nodes fuel ids.getLast? = ids.reverse := by
  induction ids using List.reverseRecOn generalizing behind fuel with
  | nil => cases fuel <;> rfl
  | append_singleton init last ih =>
    rw [List.length_append] at hf
    obtain ⟨fuel, rfl⟩ : ∃ n, fuel = n + 1 := ⟨fuel - 1, by simp at hf; omega⟩
    obtain ⟨hinit, hlast⟩ := append_iff.mp h
    obtain ⟨n, hn, he⟩ := Option.map_eq_some_iff.mp hlast.1
    have hprevious : n.previous = init.getLast? := by
      rw [← Option.or_none (o := init.getLast?)]
      exact congrArg Prod.fst he
    have hrest := ih hinit (Nat.le_of_succ_le_succ hf)
    rw [List.getLast?_concat, retrace, hn, Option.bind_some, hprevious, hrest, List.reverse_concat]

namespace Chain

/-- What is met along the links from the head is a list of nodes of the arena that ends at the tail, and
what is met against the links from the tail is the same list backwards. No walk is cut short by its
bound. -/
structure Reversible (c : Chain κ ω α) : Prop where
  distinct : c.walk.Nodup
  inside : ∀ id ∈ c.walk, id < c.nodes.size
  forwards : ∀ more, follow c.nodes (c.nodes.size + more) c.head = c.walk
  ending : c.walk.getLast? = c.tail
  backwards : ∀ more, retrace c.nodes (c.nodes.size + more) c.tail = c.walk.reverse
  absent : c.head = none ↔ c.tail = none

variable {c c' d j e : Chain κ ω α} {ids : List NodeId}

theorem Lists.reversible (h : c.Lists ids) : c.Reversible := by
  have hmore (more : Nat) : ids.length ≤ c.nodes.size + more :=
    h.length_le.trans (Nat.le_add_right ..)
  refine ⟨h.walk ▸ h.distinct, h.walk ▸ h.linked.inside, fun more => ?_, ?_, fun more => ?_, ?_⟩
  · rw [h.walk, h.head, h.linked.follow_eq (hmore more)]
  · rw [h.walk, h.tail]
  · rw [h.walk, h.tail, h.linked.retrace_eq (hmore more)]
  · rw [h.head, h.tail, List.head?_eq_none_iff, List.getLast?_eq_none_iff]

/-- The chains differ at most in their list and in what interrupts them. A list that changed is marked:
the jump targets have to be computed for it. -/
structure Edited (c c' : Chain κ ω α) : Prop where
  others : { c' with
    nodes := c.nodes
    head := c.head
    tail := c.tail
    jumpsStale := c.jumpsStale
    interrupts := c.interrupts } = c
  marked : c'.jumpsStale = true ∨
    (c'.nodes, c'.head, c'.tail, c'.jumpsStale) = (c.nodes, c.head, c.tail, c.jumpsStale)

namespace Edited

theorem refl (c : Chain κ ω α) : Edited c c := ⟨rfl, .inr rfl⟩

theorem trans (h : Edited c d) (h' : Edited d e) : Edited c e := by
  refine ⟨?_, ?_⟩
  · obtain ⟨he, -⟩ := h'
    obtain ⟨hd, -⟩ := h
    rw [← he] at hd
    exact hd
  · rcases h'.marked with hstale | hsame
    · exact .inl hstale
    · rcases h.marked with hstale | hsame'
      · exact .inl ((congrArg (·.2.2.2) hsame).trans hstale)
      · exact .inr (hsame.trans hsame')

theorem of_relisted (h : Relisted c c') : Edited c c' := by
  rcases h with rfl | ⟨nodes, head, tail, rfl⟩
  · exact .refl c'
  · exact ⟨rfl, .inl rfl⟩

theorem ensureIdle (h : Edited c c') (hc : c.ensureIdle = .ok ()) : c'.ensureIdle = .ok () := by
  rw [ensureIdle_ok] at hc ⊢
  rw [← h.others] at hc
  exact hc

end Edited

end Chain

/-- One thing that a host does to its chains. The two chains of a merge are different ones. -/
inductive Edit (ι κ ω α : Type) where
  | append (target : ι) (command : Command κ ω α)
  | interruptIf (target : ι) (holds : HostFun ω Bool)
  | mergeWith (target donor : ι) (different : target ≠ donor)
  | mergeAtBeginning (target donor : ι) (different : target ≠ donor)
  | removeLast (target : ι)

namespace Edit

variable [DecidableEq ι]

def perform (chains : ι → Chain κ ω α) : Edit ι κ ω α → Except Failure (ι → Chain κ ω α)
  | append i command => return Function.update chains i ((chains i).append command)
  | interruptIf i holds => return Function.update chains i ((chains i).interruptIf holds)
  | mergeWith i donor _ => do
    let (joined, left) ← (chains i).mergeWith (chains donor)
    return Function.update (Function.update chains i joined) donor left
  | mergeAtBeginning i donor _ => do
    let (joined, left) ← (chains i).mergeAtBeginning (chains donor)
    return Function.update (Function.update chains i joined) donor left
  | removeLast i => do
    let cut ← (chains i).removeLast
    return Function.update chains i cut

def relist (lists : ι → List (Command κ ω α)) : Edit ι κ ω α → ι → List (Command κ ω α)
  | append i command => Function.update lists i (lists i ++ [command])
  | interruptIf .. => lists
  | mergeWith i donor _ =>
    Function.update (Function.update lists i (lists i ++ lists donor)) donor []
  | mergeAtBeginning i donor _ =>
    Function.update (Function.update lists i (lists donor ++ lists i)) donor []
  | removeLast i => Function.update lists i (lists i).dropLast

def interrupts (i : ι) : Edit ι κ ω α → List (HostFun ω Bool)
  | interruptIf target holds => if target = i then [holds] else []
  | _ => []

def supplied : Edit ι κ ω α → List (Command κ ω α)
  | append _ command => [command]
  | _ => []

def discarded (lists : ι → List (Command κ ω α)) : Edit ι κ ω α → List (Command κ ω α)
  | removeLast i => (lists i).getLast?.toList
  | _ => []

def discards (lists : ι → List (Command κ ω α)) : List (Edit ι κ ω α) → List (Command κ ω α)
  | [] => []
  | edit :: rest => edit.discarded lists ++ discards (edit.relist lists) rest

end Edit

structure Chain.Draws (c c' : Chain κ ω α) (commands : List (Command κ ω α))
    (interrupts : List (HostFun ω Bool)) : Prop where
  edited : Edited c c'
  lists : ∃ ids, c'.Lists ids
  commands_eq : c'.commands = commands
  interrupts_eq : c'.interrupts = interrupts

namespace Chain

variable {c c' d j e : Chain κ ω α} {ids : List NodeId}

theorem Lists.draws (h : c.Lists ids) : Draws c c c.commands c.interrupts := ⟨.refl c, ⟨ids, h⟩, rfl, rfl⟩

theorem Lists.draws_append (h : c.Lists ids) (command : Command κ ω α) :
    Draws c (c.append command) (c.commands ++ [command]) c.interrupts :=
  have hr := relisted_append c command
  ⟨.of_relisted hr, ⟨_, h.append command⟩, h.commands_append command, hr.same.2.1⟩

theorem Lists.draws_interruptIf (h : c.Lists ids) (holds : HostFun ω Bool) :
    Draws c (c.interruptIf holds) c.commands (c.interrupts ++ [holds]) :=
  ⟨⟨rfl, .inr rfl⟩, ⟨ids, h.of_layout rfl rfl rfl⟩, rfl, rfl⟩

theorem Joined.draws {commands : List (Command κ ω α)} (h : Joined c d j e commands) :
    Draws c j commands c.interrupts ∧ Draws d e [] d.interrupts := by
  obtain ⟨-, rfl, hr, hl, hc⟩ := h
  exact ⟨⟨.of_relisted hr, hl, hc, hr.same.2.1⟩,
    ⟨.of_relisted (relisted_emptied d), ⟨[], lists_emptied d⟩, commands_emptied d, rfl⟩⟩

theorem Lists.draws_removeLast (h : c.Lists ids) (hr : c.removeLast = .ok j) :
    Draws c j c.commands.dropLast c.interrupts := by
  obtain ⟨-, hrelisted, hl, hc⟩ := h.removeLast hr
  exact ⟨.of_relisted hrelisted, ⟨_, hl⟩, hc, hrelisted.same.2.1⟩

end Chain

section Updates

variable [DecidableEq ι] {chains after : ι → Chain κ ω α} {lists : ι → List (Command κ ω α)}
  {interrupts : ι → List (HostFun ω Bool)}

variable (interrupts) in
theorem draws_update {target : ι} {c : Chain κ ω α} {commands : List (Command κ ω α)}
    (hc : Draws (chains target) c commands (interrupts target))
    (h : ∀ i, i ≠ target → Draws (chains i) (after i) (lists i) (interrupts i)) (i : ι) :
    Draws (chains i) (Function.update after target c i) (Function.update lists target commands i)
      (interrupts i) := by
  by_cases hi : i = target
  · subst hi
    rw [Function.update_self, Function.update_self]
    exact hc
  · rw [Function.update_of_ne hi, Function.update_of_ne hi]
    exact h i hi

variable (hidle : ∀ i, (chains i).ensureIdle = .ok ()) (hlists : ∀ i, ∃ ids, (chains i).Lists ids)

include hlists

theorem draws_single {target : ι} {c : Chain κ ω α} {commands : List (Command κ ω α)}
    (hc : Draws (chains target) c commands (chains target).interrupts) (i : ι) :
    Draws (chains i) (Function.update chains target c i)
      (Function.update (fun i => (chains i).commands) target commands i) (chains i).interrupts := by
  refine draws_update (fun i => (chains i).interrupts) hc (fun i _ => ?_) i
  obtain ⟨ids, hl⟩ := hlists i
  exact hl.draws

theorem draws_merge {target donor : ι} {j e : Chain κ ω α} {commands : List (Command κ ω α)}
    (hj : Joined (chains target) (chains donor) j e commands) (i : ι) :
    Draws (chains i) (Function.update (Function.update chains target j) donor e i)
      (Function.update (Function.update (fun i => (chains i).commands) target commands) donor [] i)
      (chains i).interrupts :=
  draws_update (fun i => (chains i).interrupts) hj.draws.2
    (fun i _ => draws_single hlists hj.draws.1 i) i

include hidle

theorem Edit.perform_ok (edit : Edit ι κ ω α) : ∃ after, edit.perform chains = .ok after ∧
    ∀ i, Draws (chains i) (after i) (edit.relist (fun i => (chains i).commands) i)
      ((chains i).interrupts ++ edit.interrupts i) := by
  have hquiet {after : ι → Chain κ ω α} {lists : ι → List (Command κ ω α)}
      (h : ∀ i, Draws (chains i) (after i) (lists i) (chains i).interrupts) (i : ι) :
      Draws (chains i) (after i) (lists i) ((chains i).interrupts ++ []) := by
    rw [List.append_nil]
    exact h i
  cases edit with
  | append target command =>
    obtain ⟨ids, hl⟩ := hlists target
    exact ⟨_, rfl, hquiet (draws_single hlists (hl.draws_append command))⟩
  | interruptIf target holds =>
    refine ⟨_, rfl, fun i => ?_⟩
    obtain ⟨ids, hl⟩ := hlists i
    by_cases hi : target = i
    · subst hi
      rw [Function.update_self, interrupts, if_pos rfl]
      exact hl.draws_interruptIf holds
    · rw [Function.update_of_ne (Ne.symm hi), interrupts, if_neg hi, List.append_nil]
      exact hl.draws
  | mergeWith target donor _ =>
    obtain ⟨j, e, hm⟩ := exists_mergeWith (hidle target) (hidle donor)
    obtain ⟨ids, hl⟩ := hlists target
    refine ⟨_, ?_, hquiet (draws_merge hlists (hl.mergeWith hm))⟩
    rw [perform, hm]
    rfl
  | mergeAtBeginning target donor _ =>
    obtain ⟨j, e, hm⟩ := exists_mergeAtBeginning (hidle target) (hidle donor)
    obtain ⟨ids, hl⟩ := hlists target
    refine ⟨_, ?_, hquiet (draws_merge hlists (hl.mergeAtBeginning hm))⟩
    rw [perform, hm]
    rfl
  | removeLast target =>
    obtain ⟨j, hr⟩ := exists_removeLast (hidle target)
    obtain ⟨ids, hl⟩ := hlists target
    refine ⟨_, ?_, hquiet (draws_single hlists (hl.draws_removeLast hr))⟩
    rw [perform, hr]
    rfl

theorem performs_ok (edits : List (Edit ι κ ω α)) :
    ∃ after, edits.foldlM Edit.perform chains = .ok after ∧
      ∀ i, Draws (chains i) (after i)
        (edits.foldl Edit.relist (fun i => (chains i).commands) i)
        ((chains i).interrupts ++ edits.flatMap (Edit.interrupts i)) := by
  induction edits generalizing chains with
  | nil =>
    refine ⟨chains, rfl, fun i => ?_⟩
    obtain ⟨ids, hl⟩ := hlists i
    rw [List.flatMap_nil, List.append_nil]
    exact hl.draws
  | cons edit rest ih =>
    obtain ⟨between, hp, hd⟩ := edit.perform_ok hidle hlists
    obtain ⟨after, hps, hds⟩ := ih (fun i => (hd i).edited.ensureIdle (hidle i)) fun i => (hd i).lists
    refine ⟨after, by rw [List.foldlM_cons, hp]; exact hps, fun i => ?_⟩
    have hcommands : (fun i => (between i).commands) = edit.relist fun i => (chains i).commands :=
      funext fun i => (hd i).commands_eq
    refine ⟨(hd i).edited.trans (hds i).edited, (hds i).lists, ?_, ?_⟩
    · rw [(hds i).commands_eq, hcommands, List.foldl_cons]
    · rw [(hds i).interrupts_eq, (hd i).interrupts_eq, List.flatMap_cons, List.append_assoc]

end Updates

section Balance

variable [Fintype ι] [DecidableEq ι]

/-- All commands of these lists, each as often as it stands there. -/
def total (lists : ι → List (Command κ ω α)) : Multiset (Command κ ω α) := ∑ i, ↑(lists i)

theorem total_update (lists : ι → List (Command κ ω α)) (target : ι) (commands : List (Command κ ω α)) :
    total (Function.update lists target commands) + ↑(lists target) = total lists + ↑commands := by
  have hold := Finset.add_sum_erase Finset.univ (fun i => (lists i : Multiset (Command κ ω α)))
    (Finset.mem_univ target)
  have hnew := Finset.add_sum_erase Finset.univ
    (fun i => (Function.update lists target commands i : Multiset (Command κ ω α)))
    (Finset.mem_univ target)
  have hothers : ∑ i ∈ Finset.univ.erase target,
      (Function.update lists target commands i : Multiset (Command κ ω α)) =
        ∑ i ∈ Finset.univ.erase target, (lists i : Multiset (Command κ ω α)) :=
    Finset.sum_congr rfl fun i hi => by rw [Function.update_of_ne (Finset.ne_of_mem_erase hi)]
  rw [total, total, ← hold, ← hnew, hothers, Function.update_self]
  ac_rfl

theorem total_merge (lists : ι → List (Command κ ω α)) {target donor : ι} (hne : target ≠ donor)
    {commands : List (Command κ ω α)} (hc : commands.Perm (lists target ++ lists donor)) :
    total (Function.update (Function.update lists target commands) donor []) = total lists := by
  have htarget := total_update lists target commands
  have hdonor := total_update (Function.update lists target commands) donor []
  rw [Function.update_of_ne (Ne.symm hne), Multiset.coe_nil, add_zero] at hdonor
  rw [Multiset.coe_eq_coe.mpr hc, ← Multiset.coe_add, ← hdonor, add_assoc,
    add_comm (lists donor : Multiset (Command κ ω α))] at htarget
  exact add_right_cancel htarget

theorem dropLast_add_getLast? (commands : List (Command κ ω α)) :
    (commands.dropLast : Multiset (Command κ ω α)) + ↑commands.getLast?.toList = ↑commands := by
  rcases List.eq_nil_or_concat commands with rfl | ⟨init, last, rfl⟩
  · rfl
  · rw [List.concat_eq_append, List.dropLast_concat, List.getLast?_concat]
    rfl

/-- What stands in the lists after an edit and what it took off are what stood there before it and what it
brought in. -/
theorem Edit.total_relist (lists : ι → List (Command κ ω α)) (edit : Edit ι κ ω α) :
    total (edit.relist lists) + ↑(edit.discarded lists) = total lists + ↑edit.supplied := by
  cases edit with
  | append target command =>
    have h := total_update lists target (lists target ++ [command])
    rw [← Multiset.coe_add, add_comm (lists target : Multiset (Command κ ω α)), ← add_assoc] at h
    exact (add_zero _).trans (add_right_cancel h)
  | interruptIf target holds => rfl
  | mergeWith target donor hne => exact congrArg (· + 0) (total_merge lists hne (.refl _))
  | mergeAtBeginning target donor hne =>
    exact congrArg (· + 0) (total_merge lists hne List.perm_append_comm)
  | removeLast target =>
    have h := total_update lists target (lists target).dropLast
    rw [← dropLast_add_getLast? (lists target),
      add_comm ((lists target).dropLast : Multiset (Command κ ω α)), ← add_assoc] at h
    exact (add_right_cancel h).trans (add_zero _).symm

theorem total_relists (lists : ι → List (Command κ ω α)) (edits : List (Edit ι κ ω α)) :
    total (edits.foldl Edit.relist lists) + ↑(Edit.discards lists edits) =
      total lists + ↑(edits.flatMap Edit.supplied) := by
  induction edits generalizing lists with
  | nil => rfl
  | cons edit rest ih =>
    have hhere := edit.total_relist lists
    have hrest := ih (edit.relist lists)
    rw [List.foldl_cons, Edit.discards, List.flatMap_cons, ← Multiset.coe_add, ← Multiset.coe_add,
      add_left_comm, hrest, add_left_comm, ← add_assoc, hhere, add_assoc]

end Balance

/-- Editing idle chains is editing lists. Whatever a host appends, merges and takes off, on any of its
chains and in any order, no edit fails, and each chain stays a list that reads the same in both directions
and holds what the same operations on plain lists leave. Each command that was there or came in is in one
place only, unless it was taken off; interrupts stay where they were added; and a list that changed has
its jump targets computed afresh. -/
theorem editing_history [Named κ] (act : α → Caller → Script κ ω (Except Failure Unit)) :
    (∀ c : Chain κ ω α, Lived act c → ∃ ids, c.Lists ids) ∧
    ∀ {ι : Type} [Fintype ι] [DecidableEq ι] (chains : ι → Chain κ ω α),
      (∀ i, (chains i).ensureIdle = .ok () ∧ ∃ ids, (chains i).Lists ids) →
      ∀ edits : List (Edit ι κ ω α), ∃ after, edits.foldlM Edit.perform chains = .ok after ∧
        (∀ i, (after i).Reversible ∧ Edited (chains i) (after i) ∧
          (after i).commands = edits.foldl Edit.relist (fun i => (chains i).commands) i ∧
          (after i).interrupts = (chains i).interrupts ++ edits.flatMap (Edit.interrupts i)) ∧
        total (fun i => (after i).commands) + ↑(Edit.discards (fun i => (chains i).commands) edits) =
          total (fun i => (chains i).commands) + ↑(edits.flatMap Edit.supplied) := by
  refine ⟨fun c h => h.lists, fun chains h edits => ?_⟩
  obtain ⟨after, hp, hd⟩ := performs_ok (fun i => (h i).1) (fun i => (h i).2) edits
  have hcommands : (fun i => (after i).commands) =
      edits.foldl Edit.relist fun i => (chains i).commands := funext fun i => (hd i).commands_eq
  refine ⟨after, hp, fun i => ⟨?_, (hd i).edited, (hd i).commands_eq, (hd i).interrupts_eq⟩, ?_⟩
  · obtain ⟨ids, hl⟩ := (hd i).lists
    exact hl.reversible
  · rw [hcommands]
    exact total_relists _ edits

/-- A donor that gives its commands away, gets new ones and gives them away again, with a command taken
off in between. -/
theorem editing_history_twice :
    let chains : Bool → Chain Probe Unit Nat := fun b => { name := if b then "kept" else "donor" }
    let edits : List (Edit Bool Probe Unit Nat) :=
      [.append true (.call 1), .append false (.call 2), .append false (.call 3), .removeLast false,
        .mergeWith true false nofun, .append false (.call 0), .interruptIf false (fun w => (.ok true, w)),
        .mergeAtBeginning true false nofun, .append false (.call 4)]
    ∃ after, edits.foldlM Edit.perform chains = .ok after ∧
      (after true).commands = [.call 0, .call 1, .call 2] ∧ (after false).commands = [.call 4] ∧
      (after true).interrupts.length = 0 ∧ (after false).interrupts.length = 1 ∧
      (after true).Reversible := by
  intro chains edits
  let act : Nat → Caller → Script Probe Unit (Except Failure Unit) := fun _ _ => .done (.ok ())
  have hnew (b : Bool) : Lived act (chains b) := .new _
  obtain ⟨after, hp, h, -⟩ := (editing_history act).2 chains
    (fun b => ⟨rfl, (editing_history act).1 _ (hnew b)⟩) edits
  refine ⟨after, hp, (h true).2.2.1, (h false).2.2.1, ?_, ?_, (h true).1⟩
  · rw [(h true).2.2.2]
    rfl
  · rw [(h false).2.2.2]
    rfl

end FrameChain
