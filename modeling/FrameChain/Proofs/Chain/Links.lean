import FrameChain.Chain.Jumps
import FrameChain.Proofs.Chain.Dispatch

set_option autoImplicit false

namespace FrameChain

variable {κ ω α : Type}

/-- The first command may jump to the second: what is between the two is well nested. -/
def Reaches (l : List Entry) (id target : NodeId) : Prop :=
  ∃ before between after : List Entry, ∃ op op' : Opcode, ∃ depth,
    l = before ++ (id, op) :: (between ++ (target, op') :: after) ∧ op.kind = .branch ∧
      op'.kind = .branch ∧ Nested Prod.snd depth between

theorem Reaches.widen {l : List Entry} {id target : NodeId} (h : Reaches l id target)
    (before after : List Entry) : Reaches (before ++ l ++ after) id target := by
  obtain ⟨b, between, a, op, op', depth, rfl, ho, ho', hn⟩ := h
  exact ⟨before ++ b, between, a ++ after, op, op', depth, by simp, ho, ho', hn⟩

theorem links_other {op : Opcode} (h : op.kind ≠ .branch) (opened : List OpenIf) (id : NodeId)
    (rest : List Entry) : links opened ((id, op) :: rest) = links opened rest := by
  cases op <;> first | exact absurd rfl h | simp only [links]

/-- Whatever is open before a list and comes after it, the scan finds these jumps inside it. -/
def Finds (l : List Entry) (found : List (NodeId × NodeId)) : Prop :=
  ∀ opened after, links opened (l ++ after) = (links opened after).map (found ++ ·)

namespace Finds

variable {l m : List Entry} {found found' : List (NodeId × NodeId)}

theorem nil : Finds [] [] := by
  intro opened after
  cases hl : links opened after <;> simp [hl, Except.map]

theorem append (h : Finds l found) (h' : Finds m found') : Finds (l ++ m) (found ++ found') := by
  intro opened after
  rw [List.append_assoc, h, h']
  cases links opened after <;> simp [Except.map]

theorem other {e : Entry} (h : e.2.kind ≠ .branch) : Finds [e] [] := by
  intro opened after
  rw [List.singleton_append, links_other h]
  exact nil opened after

theorem ifThen {start finish : Entry} (hs : start.2 = .beginIf) (hf : finish.2 = .endIf)
    (h : Finds l found) :
    Finds (start :: (l ++ [finish])) (found ++ [(start.1, finish.1)]) := by
  obtain ⟨start, _⟩ := start
  obtain ⟨finish, _⟩ := finish
  subst hs hf
  intro opened after
  rw [List.cons_append, List.append_assoc, links, h, List.singleton_append, links]
  cases links opened after <;> simp [Except.map, bind, Except.bind, pure, Except.pure]

theorem ifElse {start branch finish : Entry} (hs : start.2 = .beginIf) (hb : branch.2 = .otherwise)
    (hf : finish.2 = .endIf) (h : Finds l found) (h' : Finds m found') :
    Finds (start :: (l ++ branch :: (m ++ [finish])))
      (found ++ (found' ++ [(start.1, branch.1), (branch.1, finish.1)])) := by
  obtain ⟨start, _⟩ := start
  obtain ⟨branch, _⟩ := branch
  obtain ⟨finish, _⟩ := finish
  subst hs hb hf
  intro opened after
  rw [List.cons_append, List.append_assoc, links, h, List.cons_append, links, List.append_assoc, h',
    List.singleton_append, links]
  cases links opened after <;> simp [Except.map, bind, Except.bind, pure, Except.pure]

end Finds

/-- The scan passes a well-nested list, and its jumps pass over whole blocks. -/
theorem links_nested {depth : Nat} {l : List Entry} (h : Nested Prod.snd depth l) :
    ∃ found, Finds l found ∧ ∀ link ∈ found, Reaches l link.1 link.2 := by
  induction h with
  | nil => exact ⟨[], .nil, nofun⟩
  | @plain depth b rest hp _ ih =>
    obtain ⟨found, hl, hf⟩ := ih
    refine ⟨found, (Finds.other (by rw [hp]; nofun)).append hl, fun link hlink => ?_⟩
    have hw := (hf link hlink).widen [b] []
    rwa [List.append_nil] at hw
  | @loop depth opener closer body rest hc _ _ ihb ihr =>
    obtain ⟨found, hlb, hfb⟩ := ihb
    obtain ⟨found', hlr, hfr⟩ := ihr
    refine ⟨found ++ found', ?_, fun link hlink => ?_⟩
    · have hl := (((Finds.other (e := opener) (by rw [Opcode.kind_opener hc]; nofun)).append hlb).append
        (Finds.other (e := closer) (by rw [Opcode.kind_closer hc]; nofun))).append hlr
      simpa using hl
    · rcases List.mem_append.mp hlink with hlink | hlink
      · have hw := (hfb link hlink).widen [opener] (closer :: rest)
        simpa using hw
      · have hw := (hfr link hlink).widen (opener :: (body ++ [closer])) []
        simpa using hw
  | @ifThen depth start finish yes rest hs hf hy _ ihy ihr =>
    obtain ⟨found, hly, hfy⟩ := ihy
    obtain ⟨found', hlr, hfr⟩ := ihr
    refine ⟨(found ++ [(start.1, finish.1)]) ++ found', ?_, fun link hlink => ?_⟩
    · have hl := (Finds.ifThen hs hf hly).append hlr
      simpa using hl
    · rw [List.append_assoc, List.singleton_append, List.mem_append, List.mem_cons] at hlink
      rcases hlink with hlink | rfl | hlink
      · have hw := (hfy link hlink).widen [start] (finish :: rest)
        simpa using hw
      · exact ⟨[], yes, rest, start.2, finish.2, depth, rfl, by rw [hs]; rfl, by rw [hf]; rfl, hy⟩
      · have hw := (hfr link hlink).widen (start :: (yes ++ [finish])) []
        simpa using hw
  | @ifElse depth start branch finish yes no rest hs hb hf hy hn _ ihy ihn ihr =>
    obtain ⟨found, hly, hfy⟩ := ihy
    obtain ⟨found', hln, hfn⟩ := ihn
    obtain ⟨found'', hlr, hfr⟩ := ihr
    refine ⟨(found ++ (found' ++ [(start.1, branch.1), (branch.1, finish.1)])) ++ found'', ?_,
      fun link hlink => ?_⟩
    -- The jumps inside the parts come first, then that of the `if`, then that of the `else`.
    · have hl := (Finds.ifElse hs hb hf hly hln).append hlr
      simpa using hl
    · simp only [List.mem_append, List.mem_cons, List.not_mem_nil, or_false] at hlink
      rcases hlink with (hlink | hlink | rfl | rfl) | hlink
      · have hw := (hfy link hlink).widen [start] (branch :: (no ++ finish :: rest))
        simpa using hw
      · have hw := (hfn link hlink).widen (start :: (yes ++ [branch])) (finish :: rest)
        simpa using hw
      · exact ⟨[], yes, no ++ finish :: rest, start.2, branch.2, depth, rfl, by rw [hs]; rfl,
          by rw [hb]; rfl, hy⟩
      · exact ⟨start :: yes, no, rest, branch.2, finish.2, depth, rfl, by rw [hb]; rfl,
          by rw [hf]; rfl, hn⟩
      · have hw := (hfr link hlink).widen (start :: (yes ++ branch :: (no ++ [finish]))) []
        simpa using hw

namespace Chain

variable {c c' : Chain κ ω α}

def next? (c : Chain κ ω α) (id : NodeId) : Option NodeId := c.nodes[id]?.bind (·.next)

def jump? (c : Chain κ ω α) (id : NodeId) : Option NodeId := c.nodes[id]?.bind (·.jump)

theorem next?_eq_layout (c : Chain κ ω α) (id : NodeId) :
    c.next? id = c.layout[id]?.bind (·.next) := by
  simp only [next?, layout, Array.getElem?_map]
  cases c.nodes[id]? <;> rfl

theorem jump?_eq_jumps (c : Chain κ ω α) (id : NodeId) : c.jump? id = c.jumps[id]?.join := by
  simp only [jump?, jumps, Array.getElem?_map]
  cases c.nodes[id]? <;> rfl

theorem follow_congr (h : c'.layout = c.layout) (fuel : Nat) (start : Option NodeId) :
    follow c'.nodes fuel start = follow c.nodes fuel start := by
  induction fuel generalizing start with
  | zero => rfl
  | succ fuel ih =>
    cases start with
    | none => rfl
    | some id =>
      have hnext : c'.next? id = c.next? id := by rw [next?_eq_layout, next?_eq_layout, h]
      simp only [next?] at hnext
      simp only [follow, hnext, ih]

theorem listing_congr (h : c'.layout = c.layout) (hh : c'.head = c.head) :
    c'.listing = c.listing := by
  have hsize : c'.nodes.size = c.nodes.size := by
    have hs := congrArg Array.size h
    simpa only [layout, Array.size_map] using hs
  have hcode : c'.opcode? = c.opcode? := by
    funext id
    rw [opcode?_eq_fixed?, opcode?_eq_fixed?, fixed?_eq_layout, fixed?_eq_layout, h]
  simp only [listing, walk, hh, hsize, hcode, follow_congr h]

theorem opcode?_of_mem_listing {id : NodeId} {op : Opcode} (h : (id, op) ∈ c.listing) :
    c.opcode? id = some op := by
  obtain ⟨id', _, hid⟩ := List.mem_filterMap.mp h
  obtain ⟨op', hop, he⟩ := Option.map_eq_some_iff.mp hid
  cases he
  exact hop

theorem mem_walk_of_mem_listing {id : NodeId} {op : Opcode} (h : (id, op) ∈ c.listing) :
    id ∈ c.walk := by
  obtain ⟨id', hw, hid⟩ := List.mem_filterMap.mp h
  obtain ⟨op', _, he⟩ := Option.map_eq_some_iff.mp hid
  cases he
  exact hw

structure Threaded (c : Chain κ ω α) : Prop where
  head : c.head = c.listing.head?.map Prod.fst
  next : ∀ {before rest : List Entry} {e : Entry}, c.listing = before ++ e :: rest →
    c.next? e.1 = rest.head?.map Prod.fst
  distinct : (c.listing.map Prod.fst).Nodup

theorem Threaded.congr (h : c.Threaded) (hl : c'.layout = c.layout) (hh : c'.head = c.head) :
    c'.Threaded := by
  have hlist := listing_congr hl hh
  constructor
  · rw [hh, hlist, h.head]
  · intro before rest e he
    rw [next?_eq_layout, hl, ← next?_eq_layout, h.next (hlist ▸ he)]
  · rw [hlist]
    exact h.distinct

theorem jump?_setJump (c : Chain κ ω α) (id i : NodeId) (target : Option NodeId) {t : NodeId}
    (h : (c.setJump id target).jump? i = some t) :
    (id = i ∧ target = some t) ∨ (id ≠ i ∧ c.jump? i = some t) := by
  simp only [jump?, setJump, modifyNode, Array.getElem?_modify] at h
  split at h
  · rename_i hid
    obtain ⟨n, hn, ht⟩ := Option.bind_eq_some_iff.mp h
    obtain ⟨n', _, rfl⟩ := Option.map_eq_some_iff.mp hn
    exact .inl ⟨hid, ht⟩
  · rename_i hid
    exact .inr ⟨hid, h⟩

structure Rejumped (c c' : Chain κ ω α) : Prop where
  layout : c'.layout = c.layout
  others : { c' with nodes := #[] } = ({ c with nodes := #[] } : Chain κ ω α)

theorem Rejumped.refl (c : Chain κ ω α) : Rejumped c c := ⟨rfl, rfl⟩

theorem Rejumped.trans {c'' : Chain κ ω α} (h : Rejumped c c') (h' : Rejumped c' c'') :
    Rejumped c c'' :=
  ⟨h'.layout.trans h.layout, h'.others.trans h.others⟩

theorem rejumped_setJump (c : Chain κ ω α) (id : NodeId) (target : Option NodeId) :
    Rejumped c (c.setJump id target) :=
  ⟨layout_modifyNode c id fun _ _ => rfl, rfl⟩

theorem rejumped_foldl {β : Type} (f : β → NodeId) (g : β → Option NodeId) (l : List β)
    (c : Chain κ ω α) : Rejumped c (l.foldl (fun c b => c.setJump (f b) (g b)) c) := by
  induction l generalizing c with
  | nil => exact .refl c
  | cons b l ih => exact (rejumped_setJump c _ _).trans (ih _)

theorem jump?_foldl {β : Type} (f : β → NodeId) (g : β → Option NodeId) (l : List β)
    (c : Chain κ ω α) {i t : NodeId}
    (h : (l.foldl (fun c b => c.setJump (f b) (g b)) c).jump? i = some t) :
    (∃ b ∈ l, f b = i ∧ g b = some t) ∨ ((∀ b ∈ l, f b ≠ i) ∧ c.jump? i = some t) := by
  induction l generalizing c with
  | nil => exact .inr ⟨nofun, h⟩
  | cons b l ih =>
    rcases ih _ h with ⟨b', hb', hset⟩ | ⟨hl, hj⟩
    · exact .inl ⟨b', List.mem_cons_of_mem b hb', hset⟩
    · rcases jump?_setJump c (f b) i (g b) hj with hset | ⟨hne, hj⟩
      · exact .inl ⟨b, List.mem_cons_self, hset⟩
      · exact .inr ⟨List.forall_mem_cons.mpr ⟨hne, hl⟩, hj⟩

structure Resolved (c c' : Chain κ ω α) : Prop where
  layout : c'.layout = c.layout
  others : { c' with nodes := #[] } = ({ c with nodes := #[], jumpsStale := false } : Chain κ ω α)
  reaches : ∀ e ∈ c.listing, ∀ t, c'.jump? e.1 = some t → Reaches c.listing e.1 t

theorem resolveJumps_nested {depth : Nat} (h : Nested Prod.snd depth c.listing) :
    ∃ c', c.resolveJumps = .ok c' ∧ Resolved c c' := by
  obtain ⟨found, hl, hf⟩ := links_nested h
  have hfound : links [] c.listing = .ok found := by
    have hl := hl [] []
    rw [List.append_nil] at hl
    rw [hl, links]
    exact congrArg Except.ok (List.append_nil found)
  simp only [resolveJumps, hfound]
  have hclear := rejumped_foldl (fun id => id) (fun _ => none) c.walk c
  have hlink := rejumped_foldl Prod.fst (fun link => some link.2) found
    (c.walk.foldl (fun c id => c.setJump id none) c)
  have hboth := hclear.trans hlink
  refine ⟨_, rfl, hboth.layout, ?_, ?_⟩
  · have ho := congrArg (fun c : Chain κ ω α => { c with jumpsStale := false }) hboth.others
    exact ho
  · rintro ⟨i, op⟩ he t ht
    rcases jump?_foldl Prod.fst (fun link => some link.2) found _ ht with
      ⟨link, hmem, rfl, hset⟩ | ⟨-, hj⟩
    · cases hset
      exact hf link hmem
    -- Every listed command was cleared, so no older jump is left.
    · rcases jump?_foldl (fun id => id) (fun _ => none) c.walk c hj with ⟨_, _, _, hset⟩ | ⟨hw, -⟩
      · cases hset
      · exact absurd rfl (hw i (mem_walk_of_mem_listing he))

end Chain
end FrameChain
