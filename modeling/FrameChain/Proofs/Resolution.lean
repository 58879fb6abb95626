import FrameChain.Proofs.Chain.Lived
import FrameChain.Proofs.History

set_option autoImplicit false

namespace FrameChain

open Chain ChainRun

variable {κ ω α : Type} [Named κ] {act : α → Caller → Script κ ω (Except Failure Unit)}
  {c c' r : Chain κ ω α}

omit [Named κ] in
theorem behaviour_update_of_error {f : Failure} (hs : c.jumpsStale = true)
    (hr : c.resolveJumps = .error f) (fuel : Nat) (self : Caller) (delta absolute : Seconds) :
    Chain.behaviour act fuel (.update delta absolute) self c =
      .done (.error (if c.finished then .chainFinished c.name else f), c) := by
  rw [Chain.behaviour, step, run_bind]
  have hstart : (start : ChainRun κ ω α Unit).run c =
      .done (.error (if c.finished then .chainFinished c.name else f), c) := by
    cases hfin : c.finished <;> simp [start, run_bind, Script.bind, hfin, hs, hr]
  rw [hstart]
  rfl

theorem Rests.same (h : Rests act c c') : c'.listing = c.listing ∧ c'.name = c.name := by
  induction h with
  | built => exact ⟨rfl, rfl⟩
  | called fuel callback self _ hr ih =>
    obtain ⟨hl, hn⟩ := ih
    cases prepared_behaviour hr with
    | same h => exact ⟨h.listing.trans hl, h.name.trans hn⟩
    | resolved hres h =>
      exact ⟨(h.listing.trans (listing_resolve hres)).trans hl,
        (h.name.trans ((rejumped_resolve hres).read Chain.name)).trans hn⟩

/-- Of every chain a host can have: its jumps are resolved exactly if its parts of `if`s are generated by
the grammar, and then each jump is the one that the scan forward finds. If they are not, the error names
the first stray command, or an `if` that is left open. From then on, until its list changes, no step of
the chain does anything but answer with that error, or that the chain is over if it was told to end. -/
theorem jump_resolution (h : Lived act c) :
    ((∃ r, c.resolveJumps = .ok r) ↔ Paired c.opcodes) ∧
      (∀ r, c.resolveJumps = .ok r → ∀ before id op rest, c.listing = before ++ (id, op) :: rest →
        r.jump? id = target op rest ∧
          (op = .beginIf ∨ op = .otherwise → (target op rest).isSome)) ∧
      ∀ f, c.resolveJumps = .error f →
        (∃ e, Unpaired c.opcodes e ∧ f = .unmatchedCommand c.name e.opcode e.expected) ∧
          ∀ c', Rests act c c' → ∀ fuel self delta absolute,
            Chain.behaviour act fuel (.update delta absolute) self c' =
              .done (.error (if c'.finished then .chainFinished c.name else f), c') := by
  refine ⟨resolveJumps_ok_iff, fun r hr before id op rest hl => ?_, fun f hr => ⟨?_, ?_⟩⟩
  · obtain ⟨ids, hlists⟩ := h.lists
    exact (hlists.scanned hr).jump before id op rest ((listing_resolve hr).trans hl)
  · exact resolveJumps_error_iff.mp hr
  · intro c' hrests fuel self delta absolute
    obtain ⟨hlisting, hname⟩ := hrests.same
    have hr' : c'.resolveJumps = .error f := by
      rw [resolveJumps_error_iff, opcodes_eq, hlisting, hname, ← opcodes_eq]
      exact resolveJumps_error_iff.mp hr
    -- Jump targets that are not stale would have been resolved.
    have hstale : c'.jumpsStale = true := by
      cases hs : c'.jumpsStale with
      | true => rfl
      | false =>
        obtain ⟨r, hok⟩ := resolveJumps_ok_iff.mpr ((hrests.lived h).scanned hs).paired
        cases hr'.symm.trans hok
    rw [← hname]
    exact behaviour_update_of_error hstale hr' fuel self delta absolute

def gate (codes : List (Command Probe Unit Unit)) : Chain Probe Unit Unit :=
  (.beginIf (fun w => (.ok true, w)) :: codes).foldl Chain.append { name := "gate" }

/-- A gate with an `else` jumps over both its branches. One with a second `else` is blamed on that: its
first step answers so, and does nothing. -/
theorem jump_resolution_gate :
    let act : Unit → Caller → Script Probe Unit (Except Failure Unit) := fun _ _ => .done (.ok ())
    let sound := gate [.otherwise, .endIf]
    let odd := gate [.otherwise, .otherwise, .endIf]
    (Lived act sound ∧
      ∃ r, sound.resolveJumps = .ok r ∧ r.jump? 0 = some 1 ∧ r.jump? 1 = some 2) ∧
    Lived act odd ∧ Unpaired odd.opcodes ⟨.otherwise, .beginIf⟩ ∧
      Chain.behaviour act 5 (.update 0 0) ⟨⟨1⟩, ⟨1⟩⟩ odd =
        .done (.error (.unmatchedCommand "gate" .otherwise .beginIf), odd) := by
  intro act sound odd
  have hsound : Lived act sound := (Lived.new "gate").foldl_append _
  have hodd : Lived act odd := (Lived.new "gate").foldl_append _
  obtain ⟨r, hr⟩ : ∃ r, sound.resolveJumps = .ok r := ⟨_, rfl⟩
  have hjump := (jump_resolution hsound).2.1 r hr
  have hfail : odd.resolveJumps = .error (.unmatchedCommand "gate" .otherwise .beginIf) := rfl
  obtain ⟨⟨⟨_, _⟩, hblame, he⟩, hstep⟩ := (jump_resolution hodd).2.2 _ hfail
  cases he
  refine ⟨⟨hsound, r, hr, ?_, ?_⟩, hodd, hblame, hstep odd .built 5 ⟨⟨1⟩, ⟨1⟩⟩ 0 0⟩
  · exact (hjump [] 0 .beginIf [(1, .otherwise), (2, .endIf)] rfl).1
  · exact (hjump [(0, .beginIf)] 1 .otherwise [(2, .endIf)] rfl).1

end FrameChain
