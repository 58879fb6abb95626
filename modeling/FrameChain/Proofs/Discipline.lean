import FrameChain.Proofs.Rebuilding

set_option autoImplicit false

namespace FrameChain

open Chain ChainRun

variable {κ ω α : Type}

theorem eq_filter_of_sublist {β : Type} {part l : List β} {p : β → Bool} (h : part.Sublist l)
    (hd : l.Nodup) (hp : ∀ b ∈ l, p b = true ↔ b ∈ part) : part = l.filter p := by
  induction h with
  | slnil => rfl
  | @cons part l b hsub ih =>
    obtain ⟨hb, hd⟩ := List.nodup_cons.mp hd
    have hnot : ¬ p b = true := fun hpb =>
      hb (hsub.subset ((hp b List.mem_cons_self).mp hpb))
    rw [List.filter_cons_of_neg hnot]
    exact ih hd fun b' hb' => hp b' (List.mem_cons_of_mem _ hb')
  | @cons_cons part l b hsub ih =>
    obtain ⟨hb, hd⟩ := List.nodup_cons.mp hd
    rw [List.filter_cons_of_pos ((hp b List.mem_cons_self).mpr List.mem_cons_self)]
    refine congrArg _ (ih hd fun b' hb' => (hp b' (List.mem_cons_of_mem _ hb')).trans ?_)
    rw [List.mem_cons, or_iff_right]
    rintro rfl
    exact hb hb'

open Classical in
/-- The cursor stands behind the commands `before`, and the scope stack is the list of the loops around
it, outermost first. -/
structure Disciplined (depth : Nat) (c : Chain κ ω α) (before rest : List Entry) : Prop where
  listing : c.listing = before ++ rest
  cursor : c.current = rest.head?.map Prod.fst
  scopes : c.scopes.entries.reverse = (before.map Prod.fst).filter (Encloses before rest ·)
  depth_le : c.scopes.depth ≤ depth

theorem Placed.disciplined {l : List Entry} {depth : Nat} {c : Chain κ ω α} (h : Placed l c)
    (hn : Nested Prod.snd depth l) (hrun : c.isRunning = true) :
    ∃ before rest, Disciplined depth c before rest := by
  classical
  obtain ⟨before, rest, rfl, hcur, hs⟩ := h.stands hrun
  have haround := hn.around rfl
  have hd : (before.map Prod.fst).Nodup := by
    have hall := h.threaded.distinct
    rw [h.listing, List.map_append] at hall
    exact (List.nodup_append.mp hall).1
  refine ⟨before, rest, h.listing, hcur, ?_, ?_⟩
  · rw [hs]
    refine eq_filter_of_sublist haround.order hd fun id _ => ?_
    rw [decide_eq_true_iff, List.mem_reverse]
    exact (hn.mem_openLoops id).symm
  · rw [Scopes.depth, hs]
    exact haround.depth_le

/-- In every history of its callbacks a chain of well-nested commands, however it was built, has, whenever it
is running, the loops around its cursor on its scope stack, at most as many as the commands nest. None of its
callbacks fails because of the loops, unless it is the action of a call that answers so. -/
theorem discipline_history [Named κ] (act : α → Caller → Script κ ω (Except Failure Unit))
    {built c : Chain κ ω α} (hb : Lived act built) (hs : built.started = false) {depth : Nat}
    (hn : Nested Command.opcode depth built.commands) (hc : Met act built c) :
    c.listing = built.listing ∧
      (c.isRunning = true → ∃ before rest, Disciplined depth c before rest) ∧
      ∀ (fuel : Nat) (callback : Callback) (self : Caller) (f : Failure) (c' : Chain κ ω α),
        (Chain.behaviour act fuel callback self c).Answers self (.error f, c') →
          f.isScope = true → Blames act self f c' := by
  have hlisted : Nested Prod.snd depth built.listing := nested_listing hn
  have hplaced := hc.placed hlisted (hb.placed hs)
  refine ⟨hplaced.listing, hplaced.disciplined hlisted, fun fuel callback self f c' hr hscope => ?_⟩
  exact (hplaced.behaviour hlisted hr).2 hscope

/-- A loop that waits, in a branch of a loop. -/
def laps : List (Command Probe Unit Unit) :=
  [.beginRepeat ⟨.value 2, none⟩ false, .beginIf fun w => (.ok true, w),
    .beginWhile fun w => (.ok true, w), .waitFrames ⟨.value 0, none⟩, .endWhile, .endIf, .endRepeat]

theorem nested_laps : Nested Command.opcode 2 laps :=
  .loop rfl (.ifThen rfl rfl (.loop rfl (.plain rfl .nil) .nil) .nil) .nil

/-- A chain that waits in the inner of two loops. -/
theorem discipline_history_laps :
    ∃ c : Chain Probe Unit Unit, Met (fun _ _ => .done (.ok ())) (direct "laps" [] laps) c ∧
      c.isRunning = true ∧ c.scopes.entries = [2, 0] ∧ ∃ before rest, Disciplined 2 c before rest := by
  have hmet : ∃ c : Chain Probe Unit Unit, Met (fun _ _ => .done (.ok ())) (direct "laps" [] laps) c ∧
      c.isRunning = true ∧ c.scopes.entries = [2, 0] := by
    let host := ((({} : Scene Probe).addEntity "host").2.addComponent ⟨1⟩ {}).2
    exact ⟨_, .between (.called 9 (.update 0 0) ⟨⟨1⟩, ⟨1⟩⟩ .built ⟨⟨host, ()⟩, _, rfl⟩), rfl, rfl⟩
  obtain ⟨c, hc, hrun, hs⟩ := hmet
  have hn : Nested Command.opcode 2 (direct "laps" [] laps).commands :=
    (commands_direct "laps" [] laps).symm ▸ nested_laps
  exact ⟨c, hc, hrun, hs, (discipline_history _ (lived_direct "laps" [] laps) rfl hn hc).2.1 hrun⟩

end FrameChain
