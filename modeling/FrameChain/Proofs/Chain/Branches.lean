import FrameChain.Proofs.Chain.Links
import Mathlib.Data.List.Induction
import Mathlib.Data.List.Perm.Basic

set_option autoImplicit false

/-! A grammar says which lists pair every `if` with its `end` and at most one `else`; a scan forward,
counting depth, says where a branch jumps to. The pass that links the branches with a stack of open ifs
accepts the grammar, blames the first command without a partner, and finds the targets of the scan. -/
namespace FrameChain

/-- The lists generated by `S ::= empty | if S [else S] end S`. -/
inductive Branches : List Opcode → Prop
  | nil : Branches []
  | ifThen {yes rest : List Opcode} :
      Branches yes → Branches rest → Branches (.beginIf :: (yes ++ .endIf :: rest))
  | ifElse {yes no rest : List Opcode} :
      Branches yes → Branches no → Branches rest →
        Branches (.beginIf :: (yes ++ .otherwise :: (no ++ .endIf :: rest)))

def branches (l : List Opcode) : List Opcode := l.filter (·.kind = .branch)

/-- The parts of `if`s in a list are paired. -/
def Paired (l : List Opcode) : Prop := Branches (branches l)

def InThen (l : List Opcode) : Prop :=
  ∃ outer yes, l = outer ++ .beginIf :: yes ∧ Paired yes

def InElse (l : List Opcode) : Prop :=
  ∃ outer yes no, l = outer ++ .beginIf :: (yes ++ .otherwise :: no) ∧ Paired yes ∧ Paired no

def LeavesOpen (l : List Opcode) : Prop := InThen l ∨ InElse l

/-- An `else` or `end` without an open `if`, or an `else` for an `if` that has one. -/
def Stray (before : List Opcode) (op : Opcode) : Prop :=
  (op = .otherwise ∨ op = .endIf) ∧ ¬ LeavesOpen before ∨ op = .otherwise ∧ InElse before

def StrayFree (l : List Opcode) : Prop :=
  ∀ before op rest, l = before ++ op :: rest → ¬ Stray before op

/-- What is wrong with a list whose parts of `if`s are not paired: its first stray command, or else that
an `if` is left open. -/
inductive Unpaired (l : List Opcode) : Unmatched → Prop
  | stray {before rest : List Opcode} {op : Opcode} (hl : l = before ++ op :: rest)
      (first : StrayFree before) (h : Stray before op) : Unpaired l ⟨op, .beginIf⟩
  | leftOpen (none : StrayFree l) (h : LeavesOpen l) : Unpaired l ⟨.beginIf, .endIf⟩

section Grammar

variable {l m yes no : List Opcode} {op : Opcode}

theorem Opcode.kind_eq_branch_iff :
    op.kind = .branch ↔ op = .beginIf ∨ op = .otherwise ∨ op = .endIf := by
  cases op <;> simp [kind]

theorem Branches.append (h : Branches l) (h' : Branches m) : Branches (l ++ m) := by
  induction h with
  | nil => exact h'
  | ifThen hy _ _ ih =>
    have hb := Branches.ifThen hy ih
    simpa using hb
  | ifElse hy hn _ _ _ ih =>
    have hb := Branches.ifElse hy hn ih
    simpa using hb

theorem branches_append (l m : List Opcode) : branches (l ++ m) = branches l ++ branches m :=
  List.filter_append ..

theorem branches_of_branch (h : op.kind = .branch) (l : List Opcode) :
    branches (op :: l) = op :: branches l := List.filter_cons_of_pos (by simpa using h)

theorem branches_of_other (h : op.kind ≠ .branch) (l : List Opcode) :
    branches (op :: l) = branches l := List.filter_cons_of_neg (by simpa using h)

namespace Paired

theorem nil : Paired [] := Branches.nil

theorem append (h : Paired l) (h' : Paired m) : Paired (l ++ m) := by
  rw [Paired, branches_append]
  exact Branches.append h h'

theorem other (h : op.kind ≠ .branch) : Paired [op] := by
  rw [Paired, branches_of_other h]
  exact .nil

theorem ifThen (hy : Paired yes) : Paired (.beginIf :: (yes ++ [.endIf])) := by
  rw [Paired, branches_of_branch rfl, branches_append]
  exact .ifThen hy .nil

theorem ifElse (hy : Paired yes) (hn : Paired no) :
    Paired (.beginIf :: (yes ++ .otherwise :: (no ++ [.endIf]))) := by
  rw [Paired, branches_of_branch rfl, branches_append, branches_of_branch rfl, branches_append]
  exact .ifElse hy hn .nil

end Paired

end Grammar

/-! ## The stack of open ifs -/

/-- What a command does to the ifs that are open before it, innermost first. Each has a mark whether its
`else` was met. Nothing comes of a command without a partner. -/
def meet (stack : List Bool) : Opcode → Option (List Bool)
  | .beginIf => some (false :: stack)
  | .otherwise =>
    match stack with
    | false :: outer => some (true :: outer)
    | _ => none
  | .endIf =>
    match stack with
    | [] => none
    | _ :: outer => some outer
  | _ => some stack

def openIfs (stack : List Bool) (l : List Opcode) : Option (List Bool) := l.foldlM meet stack

section Stack

variable {l m : List Opcode} {op : Opcode} {s s' stack : List Bool}

theorem meet_other (h : op.kind ≠ .branch) (stack : List Bool) : meet stack op = some stack := by
  cases op <;> first | rfl | exact absurd rfl h

@[simp] theorem openIfs_nil (stack : List Bool) : openIfs stack [] = some stack := rfl

@[simp] theorem openIfs_cons (stack : List Bool) (op : Opcode) (l : List Opcode) :
    openIfs stack (op :: l) = (meet stack op).bind (openIfs · l) := rfl

@[simp] theorem openIfs_append (stack : List Bool) (l m : List Opcode) :
    openIfs stack (l ++ m) = (openIfs stack l).bind (openIfs · m) := List.foldlM_append ..

theorem openIfs_branches (stack : List Bool) (l : List Opcode) :
    openIfs stack (branches l) = openIfs stack l := by
  induction l generalizing stack with
  | nil => rfl
  | cons op rest ih =>
    by_cases hop : op.kind = .branch
    · rw [branches_of_branch hop, openIfs_cons, openIfs_cons]
      exact congrArg _ (funext ih)
    · rw [branches_of_other hop, openIfs_cons, meet_other hop, Option.bind_some, ih]

theorem Branches.openIfs_eq (h : Branches l) (stack : List Bool) : openIfs stack l = some stack := by
  induction h generalizing stack with
  | nil => rfl
  | ifThen _ _ ihy ihr => simp [meet, ihy, ihr]
  | ifElse _ _ _ ihy ihn ihr => simp [meet, ihy, ihn, ihr]

theorem Paired.openIfs_eq (h : Paired l) (stack : List Bool) : openIfs stack l = some stack := by
  rw [← openIfs_branches]
  exact Branches.openIfs_eq h stack

theorem head_of_inThen (h : InThen l) (hs : openIfs stack l = some s) : s.head? = some false := by
  obtain ⟨outer, yes, rfl, hy⟩ := h
  simp only [openIfs_append, openIfs_cons, meet, Option.bind_some, hy.openIfs_eq] at hs
  obtain ⟨_, _, he⟩ := Option.bind_eq_some_iff.mp hs
  cases he
  rfl

theorem head_of_inElse (h : InElse l) (hs : openIfs stack l = some s) : s.head? = some true := by
  obtain ⟨outer, yes, no, rfl, hy, hn⟩ := h
  simp only [openIfs_append, openIfs_cons, meet, Option.bind_some, hy.openIfs_eq,
    hn.openIfs_eq] at hs
  obtain ⟨_, _, he⟩ := Option.bind_eq_some_iff.mp hs
  cases he
  rfl

/-- The list with these ifs open behind it: each one has its own part, and whole blocks stand between. -/
inductive Standing : List Bool → List Opcode → Prop
  | level {l : List Opcode} : Paired l → Standing [] l
  | inThen {s : List Bool} {outer yes : List Opcode} :
      Standing s outer → Paired yes → Standing (false :: s) (outer ++ .beginIf :: yes)
  | inElse {s : List Bool} {outer yes no : List Opcode} :
      Standing s outer → Paired yes → Paired no →
        Standing (true :: s) (outer ++ .beginIf :: (yes ++ .otherwise :: no))

theorem Standing.behind (h : Standing s l) (hm : Paired m) : Standing s (l ++ m) := by
  cases h with
  | level hl => exact .level (hl.append hm)
  | inThen ho hy =>
    rw [List.append_assoc, List.cons_append]
    exact .inThen ho (hy.append hm)
  | inElse ho hy hn =>
    rw [List.append_assoc, List.cons_append, List.append_assoc, List.cons_append]
    exact .inElse ho hy (hn.append hm)

theorem Standing.meet (h : Standing s l) (hm : meet s op = some s') : Standing s' (l ++ [op]) := by
  by_cases hop : op.kind = .branch
  · rcases Opcode.kind_eq_branch_iff.mp hop with rfl | rfl | rfl
    · cases hm
      exact .inThen h .nil
    · cases h with
      | inThen ho hy =>
        cases hm
        rw [List.append_assoc, List.cons_append]
        exact .inElse ho hy .nil
      | _ => cases hm
    · cases h with
      | level => cases hm
      | inThen ho hy =>
        cases hm
        rw [List.append_assoc, List.cons_append]
        exact ho.behind hy.ifThen
      | inElse ho hy hn =>
        cases hm
        rw [List.append_assoc, List.cons_append, List.append_assoc, List.cons_append]
        exact ho.behind (hy.ifElse hn)
  · rw [meet_other hop] at hm
    cases hm
    exact h.behind (.other hop)

theorem Standing.openIfs (h : Standing s l) (hm : openIfs s m = some s') : Standing s' (l ++ m) := by
  induction m generalizing s l with
  | nil =>
    cases hm
    rwa [List.append_nil]
  | cons op rest ih =>
    obtain ⟨s₁, hop, hrest⟩ := Option.bind_eq_some_iff.mp hm
    have hstep := ih (h.meet hop) hrest
    rwa [List.append_assoc] at hstep

theorem standing_of_openIfs (h : openIfs [] l = some s) : Standing s l :=
  (Standing.level .nil).openIfs h

/-- No if is left open behind exactly the lists of the grammar. -/
theorem openIfs_eq_nil_iff : openIfs [] l = some [] ↔ Paired l := by
  constructor
  · intro h
    cases standing_of_openIfs h with
    | level hl => exact hl
  · intro h
    exact h.openIfs_eq []

theorem inThen_iff (h : openIfs [] l = some s) : InThen l ↔ s.head? = some false := by
  refine ⟨fun ht => head_of_inThen ht h, fun hs => ?_⟩
  cases standing_of_openIfs h with
  | inThen _ hy => exact ⟨_, _, rfl, hy⟩
  | _ => cases hs

theorem inElse_iff (h : openIfs [] l = some s) : InElse l ↔ s.head? = some true := by
  refine ⟨fun ht => head_of_inElse ht h, fun hs => ?_⟩
  cases standing_of_openIfs h with
  | inElse _ hy hn => exact ⟨_, _, _, rfl, hy, hn⟩
  | _ => cases hs

theorem leavesOpen_iff (h : openIfs [] l = some s) : LeavesOpen l ↔ s ≠ [] := by
  rw [LeavesOpen, inThen_iff h, inElse_iff h]
  cases s with
  | nil => simp
  | cons b s => cases b <;> simp

theorem stray_iff (h : openIfs [] l = some s) (op : Opcode) : Stray l op ↔ meet s op = none := by
  rw [Stray, leavesOpen_iff h, inElse_iff h]
  cases op <;> simp [FrameChain.meet]
  case otherwise => cases s with
    | nil => simp
    | cons b s => cases b <;> simp
  case endIf => cases s <;> simp

theorem strayFree_iff : StrayFree l ↔ ∃ s, openIfs [] l = some s := by
  induction l using List.reverseRecOn with
  | nil => simp [StrayFree]
  | append_singleton l op ih =>
    have hsplit : StrayFree (l ++ [op]) ↔ StrayFree l ∧ ¬ Stray l op := by
      constructor
      · intro h
        exact ⟨fun before o rest hl => h before o (rest ++ [op]) (by simp [hl]), h l op [] rfl⟩
      · rintro ⟨hl, hop⟩ before o rest he
        rcases List.eq_nil_or_concat rest with rfl | ⟨init, last, rfl⟩
        · obtain ⟨rfl, ho⟩ := List.append_inj' he rfl
          cases ho
          exact hop
        · rw [List.concat_eq_append, ← List.cons_append, ← List.append_assoc] at he
          exact hl before o init (List.append_inj' he rfl).1
    rw [hsplit, ih]
    constructor
    · rintro ⟨⟨s, hs⟩, hop⟩
      rw [stray_iff hs] at hop
      obtain ⟨s', hs'⟩ := Option.ne_none_iff_exists'.mp hop
      exact ⟨s', by simp [hs, hs']⟩
    · rintro ⟨s', hs'⟩
      rw [openIfs_append] at hs'
      obtain ⟨s, hs, hop⟩ := Option.bind_eq_some_iff.mp hs'
      obtain ⟨_, hop, _⟩ := Option.bind_eq_some_iff.mp hop
      refine ⟨⟨s, hs⟩, ?_⟩
      rw [stray_iff hs, hop]
      nofun

/-- A list that the stack does not get behind has a first command at which it stops. -/
theorem exists_stop (h : openIfs stack l = none) :
    ∃ before op rest s, l = before ++ op :: rest ∧ openIfs stack before = some s ∧
      meet s op = none := by
  induction l generalizing stack with
  | nil => cases h
  | cons op rest ih =>
    cases hop : FrameChain.meet stack op with
    | none => exact ⟨[], op, rest, stack, rfl, rfl, hop⟩
    | some s₁ =>
      rw [openIfs_cons, hop, Option.bind_some] at h
      obtain ⟨before, op', rest', s, rfl, hs, hstop⟩ := ih h
      exact ⟨op :: before, op', rest', s, rfl, by rw [openIfs_cons, hop, Option.bind_some, hs], hstop⟩

/-- A list is in the grammar or there is something wrong with it. -/
theorem paired_or_unpaired (l : List Opcode) : Paired l ∨ ∃ e, Unpaired l e := by
  cases h : openIfs [] l with
  | none =>
    obtain ⟨before, op, rest, s, hl, hs, hstop⟩ := exists_stop h
    exact .inr ⟨_, .stray hl (strayFree_iff.mpr ⟨s, hs⟩) ((stray_iff hs op).mpr hstop)⟩
  | some s =>
    cases s with
    | nil => exact .inl (openIfs_eq_nil_iff.mp h)
    | cons b s => exact .inr ⟨_, .leftOpen (strayFree_iff.mpr ⟨_, h⟩) ((leavesOpen_iff h).mpr nofun)⟩

end Stack

/-! ## The pass that links the branches -/

def OpenIf.mark (o : OpenIf) : Bool := o.branch.isSome

section Pass

variable {opened : List OpenIf} {l : List Entry} {op : Opcode} {s : List Bool}

theorem links_meet (h : meet (opened.map OpenIf.mark) op = some s) (id : NodeId) :
    ∃ opened' found, opened'.map OpenIf.mark = s ∧
      ∀ rest, links opened ((id, op) :: rest) = (links opened' rest).map (found ++ ·) := by
  have hsame (opened' : List OpenIf) (rest : List Entry) :
      links opened' rest = (links opened' rest).map ([] ++ ·) := Finds.nil opened' rest
  by_cases hop : op.kind = .branch
  · rcases Opcode.kind_eq_branch_iff.mp hop with rfl | rfl | rfl
    · cases h
      exact ⟨⟨id, none⟩ :: opened, [], rfl, fun rest => by rw [links, ← hsame]⟩
    · obtain _ | ⟨⟨start, _ | branch⟩, outer⟩ := opened
      · cases h
      · cases h
        exact ⟨⟨start, some id⟩ :: outer, [], rfl, fun rest => by rw [links, ← hsame]⟩
      · cases h
    · obtain _ | ⟨⟨start, _ | branch⟩, outer⟩ := opened
      · cases h
      · cases h
        exact ⟨outer, [(start, id)], rfl, fun _ => rfl⟩
      · cases h
        exact ⟨outer, [(start, branch), (branch, id)], rfl, fun _ => rfl⟩
  · rw [meet_other hop] at h
    cases h
    exact ⟨opened, [], rfl, fun rest => by rw [links_other hop, ← hsame]⟩

theorem links_stray (h : meet (opened.map OpenIf.mark) op = none) (id : NodeId) (rest : List Entry) :
    links opened ((id, op) :: rest) = .error ⟨op, .beginIf⟩ := by
  by_cases hop : op.kind = .branch
  · rcases Opcode.kind_eq_branch_iff.mp hop with rfl | rfl | rfl
    · cases h
    · match opened, h with
      | [], _ => rfl
      | ⟨_, some _⟩ :: _, _ => rfl
    · match opened, h with
      | [], _ => rfl
  · rw [meet_other hop] at h
    cases h

theorem links_openIfs (h : openIfs (opened.map OpenIf.mark) (l.map Prod.snd) = some s) :
    ∃ opened' found, opened'.map OpenIf.mark = s ∧
      ∀ rest, links opened (l ++ rest) = (links opened' rest).map (found ++ ·) := by
  induction l generalizing opened with
  | nil =>
    cases h
    exact ⟨opened, [], rfl, Finds.nil opened⟩
  | cons e l ih =>
    obtain ⟨s₁, hop, hrest⟩ := Option.bind_eq_some_iff.mp h
    obtain ⟨opened₁, found, rfl, hhere⟩ := links_meet hop e.1
    obtain ⟨opened', found', hs, hthere⟩ := ih hrest
    refine ⟨opened', found ++ found', hs, fun rest => ?_⟩
    rw [List.cons_append, hhere, hthere]
    cases links opened' rest <;> simp [Except.map]

theorem links_openIfs_nil (h : openIfs [] (l.map Prod.snd) = some s) :
    ∃ opened found, opened.map OpenIf.mark = s ∧
      ∀ rest, links [] (l ++ rest) = (links opened rest).map (found ++ ·) :=
  links_openIfs (show openIfs (([] : List OpenIf).map OpenIf.mark) _ = _ from h)

theorem links_of_paired (h : Paired (l.map Prod.snd)) : ∃ found, links [] l = .ok found := by
  obtain ⟨opened', found, hs, hl⟩ := links_openIfs_nil (h.openIfs_eq [])
  cases List.map_eq_nil_iff.mp hs
  have hend := hl []
  rw [List.append_nil] at hend
  exact ⟨_, hend⟩

theorem links_of_unpaired {e : Unmatched} (h : Unpaired (l.map Prod.snd) e) :
    links [] l = .error e := by
  cases h with
  | @stray before rest op hl first hop =>
    obtain ⟨before, tail, rfl, rfl, htail⟩ := List.map_eq_append_iff.mp hl
    obtain ⟨⟨id, op⟩, rest, rfl, rfl, rfl⟩ := List.map_eq_cons_iff.mp htail
    obtain ⟨s, hs⟩ := strayFree_iff.mp first
    rw [stray_iff hs] at hop
    obtain ⟨opened', found, rfl, hpass⟩ := links_openIfs_nil hs
    rw [hpass, links_stray hop]
    rfl
  | leftOpen none hopen =>
    obtain ⟨s, hs⟩ := strayFree_iff.mp none
    rw [leavesOpen_iff hs] at hopen
    obtain ⟨opened', found, rfl, hpass⟩ := links_openIfs_nil hs
    have hend := hpass []
    rw [List.append_nil] at hend
    rw [hend]
    cases opened' with
    | nil => exact absurd rfl hopen
    | cons o outer => rfl

theorem links_ok_iff : (∃ found, links [] l = .ok found) ↔ Paired (l.map Prod.snd) := by
  refine ⟨fun ⟨found, h⟩ => ?_, links_of_paired⟩
  rcases paired_or_unpaired (l.map Prod.snd) with hp | ⟨e, he⟩
  · exact hp
  · cases h.symm.trans (links_of_unpaired he)

theorem links_error_iff {e : Unmatched} : links [] l = .error e ↔ Unpaired (l.map Prod.snd) e := by
  refine ⟨fun h => ?_, links_of_unpaired⟩
  rcases paired_or_unpaired (l.map Prod.snd) with hp | ⟨e', he⟩
  · obtain ⟨found, hok⟩ := links_of_paired hp
    cases h.symm.trans hok
  · cases h.symm.trans (links_of_unpaired he)
    exact he

end Pass

/-! ## The scan that counts depth -/

/-- Goes forward, one deeper at every `if`. It stops at the `end` that brings the depth to 0, or, if it
looks for that too, at an `else` at depth 1. -/
def scan (orElse : Bool) : Nat → List Entry → Option NodeId
  | _, [] => none
  | depth, (id, op) :: rest =>
    match op with
    | .beginIf => scan orElse (depth + 1) rest
    | .otherwise => if orElse && depth == 1 then some id else scan orElse depth rest
    | .endIf => if depth = 1 then some id else scan orElse (depth - 1) rest
    | _ => scan orElse depth rest

/-- Where a command jumps to, with the commands behind it. -/
def target (op : Opcode) (rest : List Entry) : Option NodeId :=
  match op with
  | .beginIf => scan true 1 rest
  | .otherwise => scan false 1 rest
  | _ => none

def targets : List Entry → List (NodeId × NodeId)
  | [] => []
  | (id, op) :: rest => ((target op rest).map (id, ·)).toList ++ targets rest

/-- The jumps of ifs that were opened before a list, the innermost at this depth. -/
def owed : Nat → List OpenIf → List Entry → List (NodeId × NodeId)
  | _, [], _ => []
  | depth, ⟨start, none⟩ :: outer, l =>
    ((scan true depth l).map (start, ·)).toList ++ owed (depth + 1) outer l
  | depth, ⟨start, some branch⟩ :: outer, l =>
    (start, branch) :: ((scan false depth l).map (branch, ·)).toList ++ owed (depth + 1) outer l

section Scan

variable {op : Opcode} {id : NodeId} {l l' rest : List Entry} {opened : List OpenIf}
  {found : List (NodeId × NodeId)}

theorem scan_other (h : op.kind ≠ .branch) (orElse : Bool) (depth : Nat) (id : NodeId)
    (rest : List Entry) : scan orElse depth ((id, op) :: rest) = scan orElse depth rest := by
  cases op <;> first | exact absurd rfl h | rfl

theorem scan_otherwise (orElse : Bool) (depth : Nat) (id : NodeId) (rest : List Entry) :
    scan orElse (depth + 2) ((id, .otherwise) :: rest) = scan orElse (depth + 2) rest := by
  simp [scan]

theorem scan_endIf (orElse : Bool) (depth : Nat) (id : NodeId) (rest : List Entry) :
    scan orElse (depth + 2) ((id, .endIf) :: rest) = scan orElse (depth + 1) rest := by
  simp [scan]

theorem target_other (h : op.kind ≠ .branch) (rest : List Entry) : target op rest = none := by
  cases op <;> first | exact absurd rfl h | rfl

theorem owed_congr {depth depth' : Nat}
    (h : ∀ orElse n, scan orElse (depth + n) l = scan orElse (depth' + n) l')
    (opened : List OpenIf) : owed depth opened l = owed depth' opened l' := by
  induction opened generalizing depth depth' with
  | nil => rfl
  | cons o outer ih =>
    have hhere (orElse : Bool) : scan orElse depth l = scan orElse depth' l' := h orElse 0
    have hrest : owed (depth + 1) outer l = owed (depth' + 1) outer l' := by
      refine ih fun orElse n => ?_
      rw [Nat.add_assoc, Nat.add_assoc]
      exact h orElse (1 + n)
    obtain ⟨start, branch⟩ := o
    cases branch <;> simp only [owed, hhere, hrest]

theorem owed_other (h : op.kind ≠ .branch) (depth : Nat) (opened : List OpenIf) :
    owed depth opened ((id, op) :: rest) = owed depth opened rest :=
  owed_congr (fun orElse _ => scan_other h orElse _ id rest) opened

theorem owed_beginIf (depth : Nat) (opened : List OpenIf) :
    owed depth opened ((id, .beginIf) :: rest) = owed (depth + 1) opened rest :=
  owed_congr (fun orElse n => by rw [scan, Nat.add_right_comm]) opened

theorem owed_otherwise (depth : Nat) (opened : List OpenIf) :
    owed (depth + 2) opened ((id, .otherwise) :: rest) = owed (depth + 2) opened rest :=
  owed_congr (fun orElse n => by rw [Nat.add_right_comm, scan_otherwise]) opened

theorem owed_endIf (depth : Nat) (opened : List OpenIf) :
    owed (depth + 2) opened ((id, .endIf) :: rest) = owed (depth + 1) opened rest :=
  owed_congr (fun orElse n => by rw [Nat.add_right_comm, scan_endIf, Nat.add_right_comm]) opened

theorem links_endIf_ok (h : links opened ((id, .endIf) :: rest) = .ok found) :
    ∃ start branch outer found', opened = ⟨start, branch⟩ :: outer ∧ links outer rest = .ok found' ∧
      found = (match branch with
        | none => [(start, id)]
        | some branch => [(start, branch), (branch, id)]) ++ found' := by
  obtain _ | ⟨⟨start, branch⟩, outer⟩ := opened
  · cases h
  · cases branch <;>
    · rw [links] at h
      cases hrest : links outer rest with
      | error e =>
        rw [hrest] at h
        cases h
      | ok found' =>
        rw [hrest] at h
        cases h
        exact ⟨start, _, outer, found', rfl, hrest, rfl⟩

/-- What the pass finds is what the scans find: from each branch of the list, and from those that were
open before it. By induction on the commands, with any ifs open. -/
theorem links_perm (h : links opened l = .ok found) : found.Perm (owed 1 opened l ++ targets l) := by
  induction l generalizing opened found with
  | nil =>
    cases opened with
    | nil =>
      cases h
      exact .nil
    | cons o outer => cases h
  | cons e rest ih =>
    obtain ⟨id, op⟩ := e
    by_cases hop : op.kind = .branch
    · rcases Opcode.kind_eq_branch_iff.mp hop with rfl | rfl | rfl
      · rw [links] at h
        rw [owed_beginIf, targets, target]
        exact (ih h).trans ((List.perm_append_comm.append_right _).trans (by rw [List.append_assoc]))
      · obtain _ | ⟨⟨start, _ | branch⟩, outer⟩ := opened
        · cases h
        · have hstop : scan true 1 ((id, .otherwise) :: rest) = some id := rfl
          rw [targets, target, owed, hstop, owed_otherwise]
          refine (ih h).trans (.cons _ ?_)
          exact (List.perm_append_comm.append_right _).trans (by rw [List.append_assoc]; rfl)
        · cases h
      · obtain ⟨start, branch, outer, found', rfl, hrest, rfl⟩ := links_endIf_ok h
        have hstop (orElse : Bool) : scan orElse 1 ((id, .endIf) :: rest) = some id := rfl
        cases branch with
        | none =>
          rw [targets, target, owed, hstop, owed_endIf]
          · exact (ih hrest).cons _
          all_goals rintro ⟨⟩
        | some branch =>
          rw [targets, target, owed, hstop, owed_endIf]
          · exact ((ih hrest).cons _).cons _
          all_goals rintro ⟨⟩
    · rw [links_other hop] at h
      rw [owed_other hop, targets, target_other hop]
      exact ih h

/-- The scan from an `if` that is open before a list finds something, if the pass gets through. -/
theorem scan_of_links (h : links opened l = .ok found) (orElse : Bool) {depth : Nat}
    (hd : depth < opened.length) : ∃ t, scan orElse (depth + 1) l = some t := by
  induction l generalizing opened found depth with
  | nil =>
    cases opened with
    | nil => cases hd
    | cons o outer => cases h
  | cons e rest ih =>
    obtain ⟨id, op⟩ := e
    by_cases hop : op.kind = .branch
    · rcases Opcode.kind_eq_branch_iff.mp hop with rfl | rfl | rfl
      · rw [links] at h
        exact ih h (Nat.succ_lt_succ hd)
      · obtain _ | ⟨⟨start, _ | branch⟩, outer⟩ := opened
        · cases h
        · rw [scan]
          split
          · exact ⟨id, rfl⟩
          · exact ih h hd
        · cases h
      · obtain ⟨start, branch, outer, found', rfl, hrest, -⟩ := links_endIf_ok h
        cases depth with
        | zero => exact ⟨id, rfl⟩
        | succ depth =>
          rw [scan_endIf]
          exact ih hrest (Nat.lt_of_succ_lt_succ hd)
    · rw [links_other hop] at h
      rw [scan_other hop]
      exact ih h hd

theorem links_rest {before : List Entry} (h : links [] (before ++ rest) = .ok found) :
    ∃ opened found', links opened rest = .ok found' := by
  have hopen := openIfs_eq_nil_iff.mpr (links_ok_iff.mp ⟨found, h⟩)
  rw [List.map_append, openIfs_append] at hopen
  obtain ⟨s, hs, -⟩ := Option.bind_eq_some_iff.mp hopen
  obtain ⟨opened, found', -, hpass⟩ := links_openIfs_nil hs
  rw [hpass] at h
  cases hrest : links opened rest with
  | ok found'' => exact ⟨opened, found'', hrest⟩
  | error e =>
    rw [hrest] at h
    cases h

theorem target_of_links {before : List Entry} (h : links [] (before ++ (id, op) :: rest) = .ok found)
    (hop : op = .beginIf ∨ op = .otherwise) : ∃ t, target op rest = some t := by
  obtain ⟨opened, found', hrest⟩ := links_rest h
  rcases hop with rfl | rfl
  · rw [links] at hrest
    exact scan_of_links hrest true (Nat.zero_lt_succ _)
  · obtain _ | ⟨⟨start, _ | branch⟩, outer⟩ := opened
    · cases hrest
    · exact scan_of_links hrest false (Nat.zero_lt_succ _)
    · cases hrest

theorem mem_targets {t : NodeId} : (id, t) ∈ targets l ↔
    ∃ before op rest, l = before ++ (id, op) :: rest ∧ target op rest = some t := by
  induction l with
  | nil => simp [targets]
  | cons e l ih =>
    obtain ⟨id', op'⟩ := e
    rw [targets, List.mem_append, ih]
    constructor
    · rintro (h | ⟨before, op, rest, rfl, ht⟩)
      · obtain ⟨t', ht, he⟩ := Option.map_eq_some_iff.mp (Option.mem_toList.mp h)
        cases he
        exact ⟨[], op', l, rfl, ht⟩
      · exact ⟨(id', op') :: before, op, rest, rfl, ht⟩
    · rintro ⟨before, op, rest, he, ht⟩
      cases before with
      | nil =>
        cases he
        exact .inl (by simp [ht])
      | cons e before =>
        obtain ⟨-, rfl⟩ := List.cons.inj he
        exact .inr ⟨before, op, rest, rfl, ht⟩

/-- Each command has one jump at most. -/
theorem sublist_targets (l : List Entry) : ((targets l).map Prod.fst).Sublist (l.map Prod.fst) := by
  induction l with
  | nil => exact .slnil
  | cons e rest ih =>
    obtain ⟨id, op⟩ := e
    rw [targets, List.map_append, List.map_cons]
    cases target op rest with
    | none => exact ih.cons id
    | some t => exact ih.cons_cons id

end Scan

end FrameChain
