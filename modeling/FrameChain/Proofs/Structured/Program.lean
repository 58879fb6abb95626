import FrameChain.Proofs.Structured.Errand

set_option autoImplicit false

namespace FrameChain

variable {κ ω α : Type}

/-- A program, each part with the program that comes after it. What its errands remember is not looked
at: a program starts them afresh. -/
inductive Program (κ ω α : Type) where
  | done
  | simple (e : Errand κ ω α) (next : Program κ ω α)
  /-- Runs its body a number of times, which is without end for zero. -/
  | repeatTimes (times : Param ω UInt32) (body next : Program κ ω α)
  /-- Runs its body, and again as long as the predicate holds after it. -/
  | doWhile (holds : HostFun ω Bool) (body next : Program κ ω α)
  /-- Runs its body without end, with a pause before each time. -/
  | interval (seconds : Param ω Seconds) (body next : Program κ ω α)
  | ifThen (holds : HostFun ω Bool) (yes next : Program κ ω α)
  | ifElse (holds : HostFun ω Bool) (yes no next : Program κ ω α)

namespace Program

def append : Program κ ω α → Program κ ω α → Program κ ω α
  | done, q => q
  | simple e next, q => simple e (next.append q)
  | repeatTimes times body next, q => repeatTimes times body (next.append q)
  | doWhile holds body next, q => doWhile holds body (next.append q)
  | interval seconds body next, q => interval seconds body (next.append q)
  | ifThen holds yes next, q => ifThen holds yes (next.append q)
  | ifElse holds yes no next, q => ifElse holds yes no (next.append q)

def commands : Program κ ω α → List (Command κ ω α)
  | done => []
  | simple e next => e.fresh.command :: next.commands
  | repeatTimes times body next =>
    .beginRepeat ⟨times, none⟩ false :: (body.commands ++ .endRepeat :: next.commands)
  | doWhile holds body next => .beginWhile holds :: (body.commands ++ .endWhile :: next.commands)
  | interval seconds body next =>
    .beginInterval ⟨seconds, none⟩ :: (body.commands ++ .endInterval :: next.commands)
  | ifThen holds yes next => .beginIf holds :: (yes.commands ++ .endIf :: next.commands)
  | ifElse holds yes no next =>
    .beginIf holds :: (yes.commands ++ .otherwise :: (no.commands ++ .endIf :: next.commands))

/-- The commands with their jumps: an `if` to its `else` or `end`, an `else` to its `end`. -/
def tokens : Program κ ω α → List (Token κ ω α)
  | done => []
  | simple e next => ⟨e.fresh.command, none⟩ :: next.tokens
  | repeatTimes times body next =>
    ⟨.beginRepeat ⟨times, none⟩ false, none⟩ :: (body.tokens ++ ⟨.endRepeat, none⟩ :: next.tokens)
  | doWhile holds body next =>
    ⟨.beginWhile holds, none⟩ :: (body.tokens ++ ⟨.endWhile, none⟩ :: next.tokens)
  | interval seconds body next =>
    ⟨.beginInterval ⟨seconds, none⟩, none⟩ :: (body.tokens ++ ⟨.endInterval, none⟩ :: next.tokens)
  | ifThen holds yes next =>
    ⟨.beginIf holds, some (yes.tokens.length + 1)⟩ :: (yes.tokens ++ ⟨.endIf, none⟩ :: next.tokens)
  | ifElse holds yes no next =>
    ⟨.beginIf holds, some (yes.tokens.length + 1)⟩ ::
      (yes.tokens ++ ⟨.otherwise, some (no.tokens.length + 1)⟩ ::
        (no.tokens ++ ⟨.endIf, none⟩ :: next.tokens))

@[simp] theorem tokens_append (p q : Program κ ω α) : (p.append q).tokens = p.tokens ++ q.tokens := by
  induction p with
  | done => rfl
  | simple e next ih => simp only [append, tokens, ih, List.cons_append]
  | repeatTimes times body next _ ih =>
    simp only [append, tokens, ih, List.cons_append, List.append_assoc]
  | doWhile holds body next _ ih =>
    simp only [append, tokens, ih, List.cons_append, List.append_assoc]
  | interval seconds body next _ ih =>
    simp only [append, tokens, ih, List.cons_append, List.append_assoc]
  | ifThen holds yes next _ ih =>
    simp only [append, tokens, ih, List.cons_append, List.append_assoc]
  | ifElse holds yes no next _ _ ih =>
    simp only [append, tokens, ih, List.cons_append, List.append_assoc]

theorem eq_done_of_tokens {p : Program κ ω α} (h : p.tokens = []) : p = .done := by
  cases p with
  | done => rfl
  | _ => cases h

theorem map_command_tokens (p : Program κ ω α) : p.tokens.map (·.command) = p.commands := by
  induction p with
  | done => rfl
  | simple e next ih => simp only [tokens, commands, List.map_cons, ih]
  | repeatTimes times body next ihb ih =>
    simp only [tokens, commands, List.map_cons, List.map_append, ihb, ih]
  | doWhile holds body next ihb ih =>
    simp only [tokens, commands, List.map_cons, List.map_append, ihb, ih]
  | interval seconds body next ihb ih =>
    simp only [tokens, commands, List.map_cons, List.map_append, ihb, ih]
  | ifThen holds yes next ihy ih =>
    simp only [tokens, commands, List.map_cons, List.map_append, ihy, ih]
  | ifElse holds yes no next ihy ihn ih =>
    simp only [tokens, commands, List.map_cons, List.map_append, ihy, ihn, ih]

theorem length_tokens (p : Program κ ω α) : p.tokens.length = p.commands.length := by
  rw [← map_command_tokens, List.length_map]

end Program

def bare (commands : List (Command κ ω α)) : List (Token κ ω α) := commands.map (⟨·, none⟩)

theorem bare_cons (command : Command κ ω α) (rest : List (Command κ ω α)) :
    bare (command :: rest) = ⟨command, none⟩ :: bare rest := rfl

theorem bare_append (a b : List (Command κ ω α)) : bare (a ++ b) = bare a ++ bare b :=
  List.map_append

def Chain.idle (name : String) (attached : Bool) (tokens : List (Token κ ω α)) : Chain κ ω α :=
  { Chain.laid name attached tokens 0 [] {} with
    current := none
    started := false
    jumpsStale := true }

theorem Token.node_succ (t : Token κ ω α) {n i : Nat} (h : i < n) :
    t.node (n + 1) i = { t.node n i with next := some (i + 1) } := by
  simp only [Token.node, Nat.add_lt_add_iff_right, if_pos h]

theorem arena_concat (tokens : List (Token κ ω α)) (t : Token κ ω α) :
    arena (tokens ++ [t]) =
      ((arena tokens).modify (tokens.length - 1) fun node =>
        { node with next := some tokens.length }).push
          (t.node (tokens.length + 1) tokens.length) := by
  refine Array.ext_getElem? fun i => ?_
  rw [getElem?_arena, Array.getElem?_push, Array.size_modify, size_arena, Array.getElem?_modify,
    getElem?_arena, List.length_append, List.length_singleton]
  rcases Nat.lt_trichotomy i tokens.length with hlt | heq | hgt
  · rw [if_neg (Nat.ne_of_lt hlt), List.getElem?_append_left hlt, List.getElem?_eq_getElem hlt,
      Option.map_some, Option.map_some, Token.node_succ _ hlt]
    by_cases hl : tokens.length - 1 = i
    · have hi : i + 1 = tokens.length := by omega
      rw [if_pos hl, Option.map_some, hi]
    · have hi : i + 1 < tokens.length := by omega
      rw [if_neg hl]
      simp only [Token.node, if_pos hi]
  · subst heq
    rw [if_pos rfl, List.getElem?_concat_length, Option.map_some]
  · have hn : tokens[i]? = none := List.getElem?_eq_none (Nat.le_of_lt hgt)
    have hc : (tokens ++ [t])[i]? = none :=
      List.getElem?_eq_none (by rw [List.length_append, List.length_singleton]; exact hgt)
    rw [if_neg (Nat.ne_of_gt hgt), hn, hc, Option.map_none, Option.map_none, Option.map_none,
      ite_self]

theorem append_idle (name : String) (attached : Bool) (tokens : List (Token κ ω α))
    (command : Command κ ω α) :
    (Chain.idle name attached tokens).append command =
      Chain.idle name attached (tokens ++ [⟨command, none⟩]) := by
  cases tokens with
  | nil => rfl
  | cons t rest =>
    have hpos : 0 < (t :: rest).length := Nat.succ_pos _
    have hpos' : 0 < (t :: rest).length + 1 := Nat.succ_pos _
    simp only [Chain.append, Chain.idle, Chain.laid, if_pos hpos, Chain.modifyNode, size_arena,
      arena_concat, List.length_append, List.length_singleton, if_pos hpos', Token.node,
      Nat.lt_irrefl, if_false, Nat.add_sub_cancel, Option.map_none, Nat.ne_of_gt hpos]

theorem foldl_append_idle (name : String) (attached : Bool) (tokens : List (Token κ ω α))
    (commands : List (Command κ ω α)) :
    commands.foldl Chain.append (Chain.idle name attached tokens) =
      Chain.idle name attached (tokens ++ bare commands) := by
  induction commands generalizing tokens with
  | nil => exact congrArg _ (List.append_nil tokens).symm
  | cons command rest ih =>
    rw [List.foldl_cons, append_idle, ih, List.append_assoc]
    rfl

theorem build_program (name : String) (p : Program κ ω α) :
    p.commands.foldl Chain.append { name } = Chain.idle name false (bare p.commands) :=
  foldl_append_idle name false [] p.commands

def listed (off : Nat) (commands : List (Command κ ω α)) : List (NodeId × Opcode) :=
  match commands with
  | [] => []
  | command :: rest => (off, command.opcode) :: listed (off + 1) rest

theorem listed_append (off : Nat) (a b : List (Command κ ω α)) :
    listed off (a ++ b) = listed off a ++ listed (off + a.length) b := by
  induction a generalizing off with
  | nil => rfl
  | cons command rest ih =>
    simp only [List.cons_append, listed, ih, List.length_cons]
    rw [Nat.add_assoc, Nat.add_comm 1]

/-- The jumps of a program whose first command is at `off`, in the order of their ends. -/
def Program.links (off : Nat) : Program κ ω α → List (NodeId × NodeId)
  | done => []
  | simple _ next => next.links (off + 1)
  | repeatTimes _ body next | doWhile _ body next | interval _ body next =>
    body.links (off + 1) ++ next.links (off + (body.tokens.length + 1) + 1)
  | ifThen _ yes next =>
    yes.links (off + 1) ++
      (off, off + (yes.tokens.length + 1)) :: next.links (off + (yes.tokens.length + 1) + 1)
  | ifElse _ yes no next =>
    let branch := off + (yes.tokens.length + 1)
    let finish := branch + (no.tokens.length + 1)
    yes.links (off + 1) ++ (no.links (branch + 1) ++
      (off, branch) :: (branch, finish) :: next.links (finish + 1))

theorem links_errand (e : Errand κ ω α) (opened : List OpenIf) (id : NodeId)
    (after : List (NodeId × Opcode)) :
    FrameChain.links opened ((id, e.command.opcode) :: after) = FrameChain.links opened after := by
  cases e with
  | waitForMembers quorum set ids =>
    cases quorum <;> simp only [Errand.command, Quorum.command, Command.opcode, FrameChain.links]
  | waitForMessage key condition arrived =>
    cases condition <;> simp only [Errand.command, Command.opcode, FrameChain.links]
  | _ => simp only [Errand.command, Command.opcode, FrameChain.links]

/-- What the scan finds for a program, whatever comes before and after it. -/
theorem links_listed (p : Program κ ω α) (opened : List OpenIf) (off : Nat)
    (after : List (NodeId × Opcode)) :
    FrameChain.links opened (listed off p.commands ++ after) =
      (FrameChain.links opened after).map (p.links off ++ ·) := by
  have place (a n : Nat) : a + 1 + n = a + (n + 1) := by omega
  induction p generalizing opened off after with
  | done =>
    cases hl : FrameChain.links opened after <;>
      simp [Program.commands, listed, Program.links, hl, Except.map]
  | simple e next ih =>
    simp only [Program.commands, listed, List.cons_append, links_errand, ih, Program.links]
  | repeatTimes _ body next ihb ih | doWhile _ body next ihb ih | interval _ body next ihb ih =>
    simp only [Program.commands, listed, listed_append, List.cons_append, List.append_assoc,
      Command.opcode, FrameChain.links, ihb, ih, place, Program.links, Program.length_tokens]
    cases FrameChain.links opened after <;> simp [Except.map]
  | ifThen holds yes next ihy ih =>
    simp only [Program.commands, listed, listed_append, List.cons_append, List.append_assoc,
      Command.opcode, FrameChain.links, ihy, ih, place, Program.links, Program.length_tokens]
    cases FrameChain.links opened after <;> simp [Except.map, bind, Except.bind, pure, Except.pure]
  | ifElse holds yes no next ihy ihn ih =>
    simp only [Program.commands, listed, listed_append, List.cons_append, List.append_assoc,
      Command.opcode, FrameChain.links, ihy, ihn, ih, place, Program.links, Program.length_tokens]
    cases FrameChain.links opened after <;> simp [Except.map, bind, Except.bind, pure, Except.pure]

namespace Chain

variable (name : String) (attached : Bool)

theorem setJump_idle (l r : List (Token κ ω α)) (t : Token κ ω α) (k : Nat) :
    (idle name attached (l ++ t :: r)).setJump l.length (some (l.length + k)) =
      idle name attached (l ++ { t with skip := some k } :: r) := by
  have hlen : (l ++ { t with skip := some k } :: r).length = (l ++ t :: r).length := by
    simp only [List.length_append, List.length_cons]
  have hn : (arena (l ++ t :: r)).modify l.length
      (fun node => { node with jump := some (l.length + k) }) =
        arena (l ++ { t with skip := some k } :: r) := arena_modify l r fun _ => rfl
  simp only [setJump, modifyNode, idle, laid, hn, hlen]

theorem setJump_closer (l m r : List (Token κ ω α)) (o t : Token κ ω α) (k : Nat) :
    (idle name attached (l ++ o :: (m ++ t :: r))).setJump (l.length + (m.length + 1))
        (some (l.length + (m.length + 1) + k)) =
      idle name attached (l ++ o :: (m ++ { t with skip := some k } :: r)) := by
  rw [append_closer, append_closer, ← length_opener l m o, setJump_idle]

theorem setJump_none_idle {tokens : List (Token κ ω α)} (h : ∀ t ∈ tokens, t.skip = none)
    (id : NodeId) : (idle name attached tokens).setJump id none = idle name attached tokens := by
  have hn : (arena tokens).modify id (fun node => { node with jump := none }) = arena tokens := by
    refine Array.ext_getElem? fun i => ?_
    rw [Array.getElem?_modify, getElem?_arena]
    split
    · cases ht : tokens[i]? with
      | none => rfl
      | some t =>
        have hskip := h t (List.mem_of_getElem? ht)
        simp only [Option.map_some, Token.node, hskip, Option.map_none]
    · rfl
  simp only [setJump, modifyNode, idle, laid, hn]

def setJumps (c : Chain κ ω α) (found : List (NodeId × NodeId)) : Chain κ ω α :=
  found.foldl (fun c link => c.setJump link.1 (some link.2)) c

theorem setJumps_append (c : Chain κ ω α) (a b : List (NodeId × NodeId)) :
    c.setJumps (a ++ b) = (c.setJumps a).setJumps b := List.foldl_append ..

theorem setJumps_cons (c : Chain κ ω α) (link : NodeId × NodeId) (rest : List (NodeId × NodeId)) :
    c.setJumps (link :: rest) = (c.setJump link.1 (some link.2)).setJumps rest := rfl

def Linked (p : Program κ ω α) : Prop :=
  ∀ l r, (idle name attached (l ++ (bare p.commands ++ r))).setJumps (p.links l.length) =
    idle name attached (l ++ (p.tokens ++ r))

variable {name attached}

theorem Linked.behind {p : Program κ ω α} (h : Linked name attached p) (l r : List (Token κ ω α))
    (t : Token κ ω α) :
    (idle name attached (l ++ t :: (bare p.commands ++ r))).setJumps (p.links (l.length + 1)) =
      idle name attached (l ++ t :: (p.tokens ++ r)) := by
  have hh := h (l ++ [t]) r
  rwa [List.append_assoc, List.append_assoc, List.length_append] at hh

theorem Linked.after {p : Program κ ω α} (h : Linked name attached p) (l m r : List (Token κ ω α))
    (o k : Token κ ω α) :
    (idle name attached (l ++ o :: (m ++ k :: (bare p.commands ++ r)))).setJumps
        (p.links (l.length + (m.length + 1) + 1)) =
      idle name attached (l ++ o :: (m ++ k :: (p.tokens ++ r))) := by
  have hh := h (l ++ o :: (m ++ [k])) r
  simpa [Nat.add_assoc] using hh

theorem linked (p : Program κ ω α) : Linked name attached p := by
  intro l r
  induction p generalizing l r with
  | done => rfl
  | simple e next ih => exact Linked.behind ih l r _
  | repeatTimes _ body next ihb ih | doWhile _ body next ihb ih | interval _ body next ihb ih =>
    simp only [Program.commands, bare_cons, bare_append, List.cons_append,
      List.append_assoc, Program.links, setJumps_append, Program.tokens]
    rw [Linked.behind ihb l _ _]
    exact Linked.after ih l _ r _ _
  | ifThen holds yes next ihy ih =>
    simp only [Program.commands, bare_cons, bare_append, List.cons_append,
      List.append_assoc, Program.links, setJumps_append, Program.tokens]
    rw [Linked.behind ihy l _ _, setJumps_cons, setJump_idle]
    exact Linked.after ih l _ r _ _
  | ifElse holds yes no next ihy ihn ih =>
    simp only [Program.commands, bare_cons, bare_append, List.cons_append,
      List.append_assoc, Program.links, setJumps_append, Program.tokens]
    rw [Linked.behind ihy l _ _, Linked.after ihn l _ _ _ _, setJumps_cons, setJump_idle,
      setJumps_cons, setJump_closer]
    -- Seen from the program that comes after, both branches are one block.
    let branches := yes.tokens ++ ⟨.otherwise, some (no.tokens.length + 1)⟩ :: no.tokens
    have hplace : l.length + (branches.length + 1) + 1 =
        l.length + (yes.tokens.length + 1) + (no.tokens.length + 1) + 1 := by
      rw [length_opener]
      omega
    have hnext := Linked.after ih l branches r
      ⟨.beginIf holds, some (yes.tokens.length + 1)⟩ ⟨.endIf, none⟩
    rw [hplace] at hnext
    simp only [branches, List.append_assoc, List.cons_append] at hnext
    exact hnext

theorem follow_arena (tokens : List (Token κ ω α)) (fuel i : Nat) (h : tokens.length ≤ i + fuel) :
    follow (arena tokens) fuel (if i < tokens.length then some i else none) =
      List.range' i (tokens.length - i) := by
  induction fuel generalizing i with
  | zero =>
    have hi : tokens.length - i = 0 := by omega
    rw [hi]
    rfl
  | succ fuel ih =>
    by_cases hi : i < tokens.length
    · obtain ⟨k, hk⟩ : ∃ k, tokens.length - i = k + 1 := ⟨tokens.length - i - 1, by omega⟩
      have hnext : (arena tokens)[i]?.bind (·.next) =
          if i + 1 < tokens.length then some (i + 1) else none := by
        rw [getElem?_arena, List.getElem?_eq_getElem hi]
        rfl
      rw [if_pos hi, follow, hnext, ih (i + 1) (by omega), hk, List.range'_succ]
      congr 2
      omega
    · have hz : tokens.length - i = 0 := by omega
      rw [if_neg hi, hz]
      rfl

theorem walk_idle (tokens : List (Token κ ω α)) :
    (idle name attached tokens).walk = List.range' 0 tokens.length := by
  have hw := follow_arena tokens tokens.length 0 (by omega)
  rw [Nat.sub_zero] at hw
  rw [← hw]
  simp only [walk, idle, laid, size_arena]

theorem listing_bare (commands : List (Command κ ω α)) :
    (idle name attached (bare commands)).listing = listed 0 commands := by
  have hlist : ∀ before : List (Command κ ω α),
      (List.range' before.length commands.length).filterMap (fun id =>
        (((before ++ commands)[id]?).map Command.opcode).map fun opcode => (id, opcode)) =
      listed before.length commands := by
    induction commands with
    | nil => exact fun _ => rfl
    | cons command rest ih =>
      intro before
      have hrest := ih (before ++ [command])
      rw [List.append_assoc, List.length_append] at hrest
      have hhere : (((before ++ command :: rest)[before.length]?).map Command.opcode).map
          (fun opcode => (before.length, opcode)) = some (before.length, command.opcode) := by
        rw [getElem?_mid]
        rfl
      rw [List.length_cons, List.range'_succ, List.filterMap_cons, hhere]
      exact congrArg _ hrest
  have hwalk : (idle name attached (bare commands)).walk = List.range' 0 commands.length := by
    rw [walk_idle, bare, List.length_map]
  have hcode (id : NodeId) :
      (idle name attached (bare commands)).opcode? id = commands[id]?.map Command.opcode := by
    change ((arena (bare commands))[id]?).map _ = _
    rw [getElem?_arena, bare, List.getElem?_map, Option.map_map, Option.map_map]
    rfl
  simp only [listing, hwalk, hcode]
  exact hlist []

theorem resolveJumps_idle (p : Program κ ω α) :
    (idle name attached (bare p.commands)).resolveJumps =
      .ok { idle name attached p.tokens with jumpsStale := false } := by
  have hfound : FrameChain.links [] (listed 0 p.commands) = .ok (p.links 0) := by
    have h := links_listed p [] 0 []
    simp only [List.append_nil, FrameChain.links, Except.map] at h
    exact h
  have hclear : ∀ ids : List NodeId, ids.foldl (fun c id => c.setJump id none)
      (idle name attached (bare p.commands)) = idle name attached (bare p.commands) := by
    intro ids
    induction ids with
    | nil => rfl
    | cons id rest ih =>
      have hb : ∀ t ∈ bare p.commands, t.skip = none := by
        intro t ht
        obtain ⟨command, _, rfl⟩ := List.mem_map.mp ht
        rfl
      rw [List.foldl_cons, setJump_none_idle name attached hb, ih]
  have hset := (linked p : Linked name attached p) [] []
  rw [List.append_nil, List.append_nil] at hset
  simp only [resolveJumps, listing_bare, hfound, hclear]
  exact congrArg (fun c : Chain κ ω α => Except.ok { c with jumpsStale := false }) hset

end Chain
end FrameChain
