import FrameChain.Chain.Basic

set_option autoImplicit false

/-! `openLoops` is the stack that a walk from the first command up to the cursor would build up. In a
well-nested list it holds the loops whose blocks the cursor stands in. -/
namespace FrameChain

namespace Opcode

def closer? : Opcode → Option Opcode
  | beginRepeat => some endRepeat
  | beginWhile => some endWhile
  | beginInterval => some endInterval
  | _ => none

inductive Kind where
  | opener
  | closer
  /-- A part of an `if`. -/
  | branch
  | plain
deriving DecidableEq, Repr

def kind : Opcode → Kind
  | beginRepeat | beginWhile | beginInterval => .opener
  | endRepeat | endWhile | endInterval => .closer
  | beginIf | otherwise | endIf => .branch
  | _ => .plain

/-- What a command does to the stack of open loops. -/
def track (op : Opcode) (id : NodeId) (stack : List NodeId) : List NodeId :=
  match op.kind with
  | .opener => id :: stack
  | .closer => stack.tail
  | .branch | .plain => stack

section Kind

variable {op opener closer : Opcode} (id : NodeId) (stack : List NodeId)

theorem kind_opener (h : opener.closer? = some closer) : opener.kind = .opener := by
  cases opener <;> first | rfl | cases h

theorem kind_closer (h : opener.closer? = some closer) : closer.kind = .closer := by
  cases opener <;> cases h <;> rfl

theorem kind_of_eq {kind : Kind} (h : op = opener) (hk : opener.kind = kind) : op.kind = kind :=
  h ▸ hk

theorem track_opener (h : op.kind = .opener) : op.track id stack = id :: stack := by
  simp only [track, h]

theorem track_closer (h : op.kind = .closer) : op.track id stack = stack.tail := by
  simp only [track, h]

theorem track_branch (h : op.kind = .branch) : op.track id stack = stack := by
  simp only [track, h]

theorem track_plain (h : op.kind = .plain) : op.track id stack = stack := by
  simp only [track, h]

end Kind

end Opcode

/-- Well-nested lists with loops at most `depth` deep in one another. -/
inductive Nested {β : Type} (code : β → Opcode) : Nat → List β → Prop
  | nil {depth : Nat} : Nested code depth []
  | plain {depth : Nat} {b : β} {rest : List β} (h : (code b).kind = .plain) :
      Nested code depth rest → Nested code depth (b :: rest)
  | loop {depth : Nat} {opener closer : β} {body rest : List β}
      (h : (code opener).closer? = some (code closer)) :
      Nested code depth body → Nested code (depth + 1) rest →
        Nested code (depth + 1) (opener :: (body ++ closer :: rest))
  | ifThen {depth : Nat} {start finish : β} {yes rest : List β} (hs : code start = .beginIf)
      (hf : code finish = .endIf) :
      Nested code depth yes → Nested code depth rest →
        Nested code depth (start :: (yes ++ finish :: rest))
  | ifElse {depth : Nat} {start branch finish : β} {yes no rest : List β}
      (hs : code start = .beginIf) (hb : code branch = .otherwise) (hf : code finish = .endIf) :
      Nested code depth yes → Nested code depth no → Nested code depth rest →
        Nested code depth (start :: (yes ++ branch :: (no ++ finish :: rest)))

/-- Nesting is a matter of the opcodes alone. -/
theorem Nested.transport {β γ : Type} {code : β → Opcode} {code' : γ → Opcode} {depth : Nat}
    {l : List β} (h : Nested code depth l) {l' : List γ} (he : l'.map code' = l.map code) :
    Nested code' depth l' := by
  induction h generalizing l' with
  | nil =>
    cases List.map_eq_nil_iff.mp he
    exact .nil
  | plain hp _ ih =>
    obtain ⟨b, rest, rfl, hb, hr⟩ := List.map_eq_cons_iff.mp he
    exact .plain (hb ▸ hp) (ih hr)
  | loop hc _ _ ihb ihr =>
    rw [List.map_cons, List.map_append, List.map_cons] at he
    obtain ⟨opener, tail, rfl, ho, ht⟩ := List.map_eq_cons_iff.mp he
    obtain ⟨body, tail, rfl, hb, ht⟩ := List.map_eq_append_iff.mp ht
    obtain ⟨closer, rest, rfl, hk, hr⟩ := List.map_eq_cons_iff.mp ht
    exact .loop (by rw [ho, hk, hc]) (ihb hb) (ihr hr)
  | ifThen hs hf _ _ ihy ihr =>
    rw [List.map_cons, List.map_append, List.map_cons] at he
    obtain ⟨start, tail, rfl, ho, ht⟩ := List.map_eq_cons_iff.mp he
    obtain ⟨yes, tail, rfl, hy, ht⟩ := List.map_eq_append_iff.mp ht
    obtain ⟨finish, rest, rfl, hk, hr⟩ := List.map_eq_cons_iff.mp ht
    exact .ifThen (ho.trans hs) (hk.trans hf) (ihy hy) (ihr hr)
  | ifElse hs hb hf _ _ _ ihy ihn ihr =>
    rw [List.map_cons, List.map_append, List.map_cons, List.map_append, List.map_cons] at he
    obtain ⟨start, tail, rfl, ho, ht⟩ := List.map_eq_cons_iff.mp he
    obtain ⟨yes, tail, rfl, hy, ht⟩ := List.map_eq_append_iff.mp ht
    obtain ⟨branch, tail, rfl, hm, ht⟩ := List.map_eq_cons_iff.mp ht
    obtain ⟨no, tail, rfl, hn, ht⟩ := List.map_eq_append_iff.mp ht
    obtain ⟨finish, rest, rfl, hk, hr⟩ := List.map_eq_cons_iff.mp ht
    exact .ifElse (ho.trans hs) (hm.trans hb) (hk.trans hf) (ihy hy) (ihn hn) (ihr hr)

abbrev Entry := NodeId × Opcode

def openLoops (stack : List NodeId) (l : List Entry) : List NodeId :=
  l.foldl (fun stack e => e.2.track e.1 stack) stack

@[simp] theorem openLoops_nil (stack : List NodeId) : openLoops stack [] = stack := rfl

@[simp] theorem openLoops_cons (stack : List NodeId) (e : Entry) (l : List Entry) :
    openLoops stack (e :: l) = openLoops (e.2.track e.1 stack) l := rfl

@[simp] theorem openLoops_append (stack : List NodeId) (l m : List Entry) :
    openLoops stack (l ++ m) = openLoops (openLoops stack l) m := List.foldl_append ..

/-- The loop opened at `id` lies around the place between `before` and `rest`: its closer is still to
come, and what is between the two is well nested. -/
def Encloses (before rest : List Entry) (id : NodeId) : Prop :=
  ∃ outer inner tail after : List Entry, ∃ opener, ∃ closer : Entry, ∃ depth,
    before = outer ++ (id, opener) :: inner ∧ rest = tail ++ closer :: after ∧
      opener.closer? = some closer.2 ∧ Nested Prod.snd depth (inner ++ tail)

theorem Encloses.widen {before rest : List Entry} {id : NodeId} (h : Encloses before rest id)
    (l r : List Entry) : Encloses (l ++ before) (rest ++ r) id := by
  obtain ⟨outer, inner, tail, after, opener, closer, depth, rfl, rfl, hc, hn⟩ := h
  exact ⟨l ++ outer, inner, tail, after ++ r, opener, closer, depth, by simp, by simp, hc, hn⟩

theorem Nested.openLoops_eq {depth : Nat} {l : List Entry} (h : Nested Prod.snd depth l)
    (stack : List NodeId) : openLoops stack l = stack := by
  induction h generalizing stack with
  | nil => rfl
  | plain hp _ ih => rw [openLoops_cons, Opcode.track_plain _ _ hp, ih]
  | loop hc _ _ ihb ihr =>
    rw [openLoops_cons, openLoops_append, openLoops_cons, Opcode.track_opener _ _ (Opcode.kind_opener hc), ihb,
      Opcode.track_closer _ _ (Opcode.kind_closer hc), List.tail_cons, ihr]
  | ifThen hs hf _ _ ihy ihr =>
    rw [openLoops_cons, openLoops_append, openLoops_cons, Opcode.track_branch _ _ (Opcode.kind_of_eq hs rfl),
      ihy, Opcode.track_branch _ _ (Opcode.kind_of_eq hf rfl), ihr]
  | ifElse hs hb hf _ _ _ ihy ihn ihr =>
    rw [openLoops_cons, openLoops_append, openLoops_cons, openLoops_append, openLoops_cons,
      Opcode.track_branch _ _ (Opcode.kind_of_eq hs rfl), ihy, Opcode.track_branch _ _ (Opcode.kind_of_eq hb rfl), ihn,
      Opcode.track_branch _ _ (Opcode.kind_of_eq hf rfl), ihr]

def Closes (before : List Entry) (closer : Opcode) : Prop :=
  ∃ outer body : List Entry, ∃ opener : Entry, ∃ depth,
    before = outer ++ opener :: body ∧ opener.2.closer? = some closer ∧ Nested Prod.snd depth body

theorem Closes.behind {before : List Entry} {closer : Opcode} (h : Closes before closer)
    (l : List Entry) : Closes (l ++ before) closer := by
  obtain ⟨outer, body, opener, depth, rfl, hc, hn⟩ := h
  exact ⟨l ++ outer, body, opener, depth, (List.append_assoc ..).symm, hc, hn⟩

theorem Nested.kind_head {depth : Nat} {l : List Entry} (h : Nested Prod.snd depth l) {e : Entry}
    (he : e ∈ l.head?) : e.2.kind ≠ .closer := by
  cases h with
  | nil => cases he
  | plain hp _ =>
    cases he
    rw [hp]
    nofun
  | loop hc _ _ =>
    cases he
    rw [Opcode.kind_opener hc]
    nofun
  | ifThen hs _ _ _ | ifElse hs _ _ _ _ _ =>
    cases he
    rw [hs]
    nofun

/-- A cut through two parts with a command between them falls into the first or behind the command. -/
theorem cut_at {β : Type} {before rest part after : List β} {b : β}
    (h : before ++ rest = part ++ b :: after) :
    (∃ tail, part = before ++ tail ∧ rest = tail ++ b :: after) ∨
      ∃ behind, before = part ++ b :: behind ∧ after = behind ++ rest := by
  rcases List.append_eq_append_iff.mp h with ⟨tail, hp, hr⟩ | ⟨behind, hb, hr⟩
  · exact .inl ⟨tail, hp, hr⟩
  · cases behind with
    | nil => exact .inl ⟨[], by simpa using hb.symm, by simpa using hr.symm⟩
    | cons b' behind =>
      obtain ⟨rfl, rfl⟩ := List.cons.inj hr
      exact .inr ⟨behind, hb, rfl⟩

theorem cut_block {β : Type} {before rest body after : List β} {opener closer : β}
    (h : before ++ rest = opener :: (body ++ closer :: after)) :
    (before = [] ∧ rest = opener :: (body ++ closer :: after)) ∨
      (∃ inner tail, before = opener :: inner ∧ body = inner ++ tail ∧
        rest = tail ++ closer :: after) ∨
      ∃ behind, before = opener :: (body ++ closer :: behind) ∧ after = behind ++ rest := by
  cases before with
  | nil => exact .inl ⟨rfl, h⟩
  | cons b before =>
    obtain ⟨rfl, ht⟩ := List.cons.inj h
    rcases cut_at ht with ⟨tail, hb, hr⟩ | ⟨behind, hb, ha⟩
    · exact .inr (.inl ⟨before, tail, rfl, hb, hr⟩)
    · exact .inr (.inr ⟨behind, by rw [hb], ha⟩)

/-- What the stack of open loops tells about a place in a list. -/
structure Around (depth : Nat) (before rest : List Entry) : Prop where
  /-- What was open before the list stays below. -/
  above : ∀ stack, openLoops stack before = openLoops [] before ++ stack
  depth_le : (openLoops [] before).length ≤ depth
  encloses : ∀ id ∈ openLoops [] before, Encloses before rest id
  order : (openLoops [] before).reverse.Sublist (before.map Prod.fst)
  closes : ∀ e ∈ rest.head?, e.2.kind = .closer → Closes before e.2

theorem head_branch {e : Entry} (h : e.2.kind = .branch) (after : List Entry) :
    ∀ e' ∈ (e :: after).head?, e'.2.kind ≠ .closer := by
  rintro _ ⟨⟩
  rw [h]
  nofun

namespace Around

variable {depth : Nat} {before rest : List Entry}

theorem start (h : Nested Prod.snd depth rest) : Around depth [] rest where
  above _ := rfl
  depth_le := Nat.zero_le _
  encloses _ h := nomatch h
  order := .slnil
  closes _ he hc := absurd hc (h.kind_head he)

/-- More commands around a place change nothing, if those before it leave the stack as it was and
those behind it do not begin with a closer. -/
theorem widen (h : Around depth before rest) {l r : List Entry}
    (hl : ∀ stack, openLoops stack l = stack) (hr : ∀ e ∈ r.head?, e.2.kind ≠ .closer) :
    Around depth (l ++ before) (rest ++ r) where
  above stack := by rw [openLoops_append, openLoops_append, hl, hl, h.above]
  depth_le := by
    rw [openLoops_append, hl]
    exact h.depth_le
  encloses id hid := by
    rw [openLoops_append, hl] at hid
    exact (h.encloses id hid).widen l r
  order := by
    rw [openLoops_append, hl, List.map_append]
    exact h.order.trans (List.sublist_append_right _ _)
  closes e he hc := by
    cases rest with
    | nil => exact absurd hc (hr e he)
    | cons b rest => exact (h.closes e he hc).behind l

theorem behind (h : Around depth before rest) {l : List Entry}
    (hl : ∀ stack, openLoops stack l = stack) : Around depth (l ++ before) rest := by
  have hw := h.widen (r := []) hl fun _ he => nomatch he
  rwa [List.append_nil] at hw

theorem inBlock (h : Around depth before rest) (hn : Nested Prod.snd depth (before ++ rest))
    {opener closer : Entry} (hc : opener.2.closer? = some closer.2) (after : List Entry) :
    Around (depth + 1) (opener :: before) (rest ++ closer :: after) := by
  have hopen : ∀ stack, openLoops stack (opener :: before) =
      openLoops [] before ++ opener.1 :: stack := by
    intro stack
    rw [openLoops_cons, Opcode.track_opener _ _ (Opcode.kind_opener hc), h.above]
  constructor
  · intro stack
    rw [hopen, hopen, List.append_assoc, List.singleton_append]
  · have hle := h.depth_le
    rw [hopen, List.length_append, List.length_singleton]
    omega
  · intro id hid
    rw [hopen, List.mem_append, List.mem_singleton] at hid
    rcases hid with hid | rfl
    · exact (h.encloses id hid).widen [opener] _
    · exact ⟨[], before, rest, after, opener.2, closer, depth, rfl, rfl, hc, hn⟩
  · rw [hopen, List.reverse_append, List.reverse_singleton, List.map_cons]
    exact h.order.cons_cons _
  · intro e he hce
    cases rest with
    | nil =>
      cases he
      rw [List.append_nil] at hn
      exact ⟨[], before, opener, depth, rfl, hc, hn⟩
    | cons b rest => exact (h.closes e he hce).behind [opener]

end Around

theorem Nested.around {depth : Nat} {l : List Entry} (h : Nested Prod.snd depth l)
    {before rest : List Entry} (hl : before ++ rest = l) : Around depth before rest := by
  induction h generalizing before rest with
  | nil =>
    obtain ⟨rfl, rfl⟩ := List.append_eq_nil_iff.mp hl
    exact .start .nil
  | plain hp hr ih =>
    cases before with
    | nil =>
      obtain rfl : rest = _ := hl
      exact .start (.plain hp hr)
    | cons b before =>
      obtain ⟨rfl, ht⟩ := List.cons.inj hl
      exact (ih ht).behind (l := [b]) fun stack => Opcode.track_plain b.1 stack hp
  | @loop depth opener closer body rest' hc hb hr ihb ihr =>
    have hneutral (stack : List NodeId) : openLoops stack (opener :: (body ++ [closer])) = stack :=
      (Nested.loop hc hb .nil : Nested Prod.snd (depth + 1) _).openLoops_eq stack
    -- The place is in front of the block, in its body or behind it.
    rcases cut_block hl with ⟨rfl, rfl⟩ | ⟨inner, tail, rfl, rfl, rfl⟩ | ⟨behind, rfl, ht⟩
    · exact .start (.loop hc hb hr)
    · exact (ihb rfl).inBlock hb hc _
    · have hw := (ihr ht.symm).behind hneutral
      rwa [List.cons_append, List.append_assoc, List.singleton_append] at hw
  | @ifThen depth start finish yes rest' hs hf hy hr ihy ihr =>
    have hneutral (stack : List NodeId) : openLoops stack (start :: (yes ++ [finish])) = stack :=
      (Nested.ifThen hs hf hy .nil : Nested Prod.snd depth _).openLoops_eq stack
    have hstart (stack : List NodeId) : openLoops stack [start] = stack :=
      Opcode.track_branch start.1 stack (Opcode.kind_of_eq hs rfl)
    rcases cut_block hl with ⟨rfl, rfl⟩ | ⟨inner, tail, rfl, rfl, rfl⟩ | ⟨behind, rfl, ht⟩
    · exact .start (.ifThen hs hf hy hr)
    · exact (ihy rfl).widen hstart (head_branch (Opcode.kind_of_eq hf rfl) _)
    · have hw := (ihr ht.symm).behind hneutral
      rwa [List.cons_append, List.append_assoc, List.singleton_append] at hw
  | @ifElse depth start branch finish yes no rest' hs hb hf hy hn hr ihy ihn ihr =>
    have hstart (stack : List NodeId) : openLoops stack [start] = stack :=
      Opcode.track_branch start.1 stack (Opcode.kind_of_eq hs rfl)
    have hbranch (stack : List NodeId) : openLoops stack (start :: (yes ++ [branch])) = stack := by
      rw [openLoops_cons, openLoops_append, openLoops_cons, Opcode.track_branch _ _ (Opcode.kind_of_eq hs rfl),
        hy.openLoops_eq, Opcode.track_branch _ _ (Opcode.kind_of_eq hb rfl), openLoops_nil]
    have hneutral (stack : List NodeId) :
        openLoops stack (start :: (yes ++ branch :: (no ++ [finish]))) = stack :=
      (Nested.ifElse hs hb hf hy hn .nil : Nested Prod.snd depth _).openLoops_eq stack
    rcases cut_block hl with ⟨rfl, rfl⟩ | ⟨inner, tail, rfl, rfl, rfl⟩ | ⟨behind, rfl, ht⟩
    · exact .start (.ifElse hs hb hf hy hn hr)
    · exact (ihy rfl).widen hstart (head_branch (Opcode.kind_of_eq hb rfl) _)
    rcases cut_at ht.symm with ⟨tail, rfl, rfl⟩ | ⟨behind, rfl, hr'⟩
    · have hw := (ihn rfl).widen hbranch (head_branch (Opcode.kind_of_eq hf rfl) rest')
      rwa [List.cons_append, List.append_assoc, List.singleton_append] at hw
    · have hw := (ihr hr'.symm).behind hneutral
      simpa only [List.cons_append, List.append_assoc, List.nil_append] using hw

theorem Nested.mem_openLoops {depth : Nat} {before rest : List Entry}
    (h : Nested Prod.snd depth (before ++ rest)) (id : NodeId) :
    id ∈ openLoops [] before ↔ Encloses before rest id := by
  refine ⟨(h.around rfl).encloses id, ?_⟩
  rintro ⟨outer, inner, tail, after, opener, closer, _, rfl, rfl, hc, hn⟩
  rw [openLoops_append, openLoops_cons, Opcode.track_opener _ _ (Opcode.kind_opener hc), (hn.around rfl).above]
  simp

end FrameChain
